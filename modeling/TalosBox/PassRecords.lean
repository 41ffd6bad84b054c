import TalosBox.StoragePasses

/-! The daemon's record of one cluster, as a row, and what the moves do to the rows. -/
namespace TalosBox.StoragePasses

/-- What is on record about one cluster. -/
@[ext] structure Row where
  provision : Option Pass
  blocker : Option Blocker
  phase : Option StoragePhase
  storagePass : Option ℕ
  probe : Option ℕ

def Sys.row (s : Sys) (name : String) : Row :=
  ⟨s.provisions name,s.provisionBlockers name,s.storagePhases name,s.storagePass name,
    s.storageStatusProbes name⟩

namespace Row

def handOver (r : Row) : Row := { r with storagePass := none }

def retire (r : Row) : Row := { r.handOver with provision := none, blocker := none }

def invalidate (r : Row) : Row :=
  { r.handOver with blocker := none, phase := none, probe := none }

/-- A pass of the generation takes the cluster over. -/
def takeOver (r : Row) (generation : ℕ) (skipStorage drives : Bool) : Row where
  provision := some ⟨generation,skipStorage⟩
  blocker := if drives then none else r.blocker
  phase := if drives then some .provisioning else r.phase
  storagePass := if drives then some generation else none
  probe := if drives then none else r.probe

/-- What the moves do to a row that neither register a pass nor concern a probe. -/
inductive Turn : Row → Row → Prop
  | handOver (r : Row) : Turn r r.handOver
  | retire (r : Row) : Turn r r.retire
  | invalidate (r : Row) : Turn r r.invalidate
  | observe (r : Row) {p : Pass} (gate message : String) (h : r.provision = some p) :
      Turn r { r with blocker := some ⟨gate,message,p.generation⟩ }
  | record (r : Row) (phase : StoragePhase) : Turn r { r.handOver with phase := some phase }
  | fail (r : Row) : Turn r { r.invalidate with phase := some .failed }

/-- Any number of them. -/
abbrev Turns : Row → Row → Prop := Relation.ReflTransGen Turn

/-- The blocker is of the registered pass. -/
def Owned (r : Row) : Prop :=
  ∀ b, r.blocker = some b → r.provision.any (·.generation = b.generation)

/-- Storage is at provisioning while a storage pass is under way. -/
def Parked (r : Row) : Prop := ∀ g, r.storagePass = some g → r.phase = some .provisioning

/-- No probe is out while a storage pass is under way. -/
def Unprobed (r : Row) : Prop := ∀ g, r.storagePass = some g → r.probe = none

variable {r r' : Row}

theorem Turn.owned (h : Turn r r') (hr : r.Owned) : r'.Owned := by
  cases h with
  | handOver => exact hr
  | retire =>
    intro b hb
    cases hb
  | invalidate =>
    intro b hb
    cases hb
  | observe gate msg hp =>
    rintro b ⟨⟩
    simp [hp]
  | record phase => exact hr
  | fail =>
    intro b hb
    cases hb

/-- Every one of them ends the storage pass, but for an observed gate. -/
theorem Turn.storagePass (h : Turn r r') :
    r'.storagePass = none ∨
      r'.storagePass = r.storagePass ∧ r'.phase = r.phase ∧ r'.probe = r.probe := by
  cases h with
  | observe => exact .inr ⟨rfl,rfl,rfl⟩
  | _ => exact .inl rfl

theorem Turn.parked (h : Turn r r') (hr : r.Parked) : r'.Parked := by
  intro g hg
  obtain hno | ⟨hps,hph,-⟩ := h.storagePass
  · simp [hno] at hg
  · exact hph.trans (hr g (hps ▸ hg))

theorem Turn.unprobed (h : Turn r r') (hr : r.Unprobed) : r'.Unprobed := by
  intro g hg
  obtain hno | ⟨hps,-,hprb⟩ := h.storagePass
  · simp [hno] at hg
  · exact hprb.trans (hr g (hps ▸ hg))

theorem Turn.provision (h : Turn r r') :
    r'.provision = r.provision ∨ r'.provision = none := by
  cases h with
  | retire => exact .inr rfl
  | _ => exact .inl rfl

theorem Turns.keep {I : Row → Prop} (htn : ∀ {r r'}, Turn r r' → I r → I r')
    (h : Turns r r') (hr : I r) : I r' := by
  induction h with
  | refl => exact hr
  | tail _ hla ih => exact htn hla ih

theorem Turns.provision (h : Turns r r') :
    r'.provision = r.provision ∨ r'.provision = none := by
  refine Turns.keep (I := fun r' => r'.provision = r.provision ∨ r'.provision = none) ?_ h (.inl rfl)
  intro r₁ r₂ htn hr
  obtain hsm | hno := htn.provision
  · rwa [hsm]
  · exact .inr hno

theorem parked_takeOver (r : Row) (g : ℕ) (skip drives : Bool) :
    (r.takeOver g skip drives).Parked := by
  intro g' hg
  cases drives <;> simp_all [takeOver]

theorem unprobed_takeOver (r : Row) (g : ℕ) (skip drives : Bool) :
    (r.takeOver g skip drives).Unprobed := by
  intro g' hg
  cases drives <;> simp_all [takeOver]

end Row

open Row (Turn Turns)

/-- The rows turn; no generation is handed out and no goroutine moves. -/
structure Sys.Turned (s s' : Sys) : Prop where
  sequence : s'.sequence = s.sequence
  runners : s'.runners = s.runners
  rows : ∀ name, Turns (s.row name) (s'.row name)

namespace Sys.Turned

variable {s s' s'' : Sys}

lemma refl (s : Sys) : Turned s s := ⟨rfl,rfl,fun _ => .refl⟩

lemma trans (h : Turned s s') (h' : Turned s' s'') : Turned s s'' :=
  ⟨h'.1.trans h.1,h'.2.trans h.2,fun name => (h.rows name).trans (h'.rows name)⟩

theorem single (name : String) (hseq : s'.sequence = s.sequence) (hrn : s'.runners = s.runners)
    (hrow : Turn (s.row name) (s'.row name)) (hos : ∀ other, other ≠ name → s'.row other = s.row other) :
    Turned s s' := by
  refine ⟨hseq,hrn,fun other => ?_⟩
  by_cases h : other = name
  · subst h
    exact .single hrow
  · rw [hos other h]

end Sys.Turned

section

variable (s : Sys) (name other : String)

theorem row_cancelProvision :
    (s.cancelProvision name).row other =
      if other = name ∧ (s.provisions name).isSome then (s.row other).retire else s.row other := by
  unfold Sys.cancelProvision Sys.cancelContext
  cases hp : s.provisions name with
  | none => simp
  | some p =>
    by_cases h : other = name
    · subst h
      simp [Sys.row,Row.retire,Row.handOver]
    · simp [Sys.row,h]

theorem turned_cancelContext : Sys.Turned s (s.cancelContext name) := by
  unfold Sys.cancelContext
  split
  · refine .single name rfl rfl ?_ fun other h => by simp [Sys.row,h]
    simpa [Sys.row,Row.handOver] using Turn.handOver (s.row name)
  · exact .refl s

theorem turned_cancelProvision : Sys.Turned s (s.cancelProvision name) := by
  unfold Sys.cancelProvision Sys.cancelContext
  split
  · refine .single name rfl rfl ?_ fun other h => by simp [Sys.row,h]
    simpa [Sys.row,Row.retire,Row.handOver] using Turn.retire (s.row name)
  · exact .refl s

theorem turned_cancelPending (tasks : List Task) : Sys.Turned s (s.cancelPending tasks) := by
  induction tasks generalizing s with
  | nil => exact .refl s
  | cons t tasks ih => exact (turned_cancelProvision s t.item.name).trans (ih (s.cancelProvision t.item.name))

theorem turned_finishProvision (t : Task) : Sys.Turned s (s.finishProvision t) := by
  unfold Sys.finishProvision
  split_ifs
  · exact turned_cancelProvision s t.item.name
  · exact .refl s

theorem turned_cancelAllProvisions : Sys.Turned s s.cancelAllProvisions := by
  refine ⟨rfl,rfl,fun other => ?_⟩
  cases hp : s.provisions other with
  | none =>
    have hrow : s.cancelAllProvisions.row other = (s.row other).handOver := by
      simp [Sys.row,Sys.cancelAllProvisions,Row.handOver,hp]
    exact hrow ▸ .single (.handOver _)
  | some p =>
    have hrow : s.cancelAllProvisions.row other = (s.row other).retire := by
      simp [Sys.row,Sys.cancelAllProvisions,Row.retire,Row.handOver,hp]
    exact hrow ▸ .single (.retire _)

lemma turned_invalidateStoragePhase : Sys.Turned s (s.invalidateStoragePhase name) := by
  refine .single name rfl rfl ?_ fun other h => by simp [Sys.row,Sys.invalidateStoragePhase,h]
  simpa [Sys.row,Sys.invalidateStoragePhase,Row.invalidate,Row.handOver] using Turn.invalidate (s.row name)

theorem row_beginProvision (item : Item) (skipStorage : Bool) (other : String) :
    (s.beginProvision item skipStorage).row other =
      if other = item.name then
        (s.row other).takeOver (s.sequence + 1) skipStorage (item.stores && !skipStorage)
      else s.row other := by
  by_cases h : other = item.name
  · subst h
    unfold Sys.beginProvision Sys.cancelContext Sys.beginStorage
    split <;> cases item.stores && !skipStorage <;>
      simp [Sys.row,Sys.invalidateStoragePhase,Row.takeOver]
  · unfold Sys.beginProvision Sys.cancelContext Sys.beginStorage
    split <;> cases item.stores && !skipStorage <;>
      simp [Sys.row,Sys.invalidateStoragePhase,h]

theorem sequence_beginProvision (item : Item) (skipStorage : Bool) :
    (s.beginProvision item skipStorage).sequence = s.sequence + 1 := by
  unfold Sys.beginProvision Sys.cancelContext Sys.beginStorage
  split <;> split_ifs <;> rfl

theorem turned_observeProvisionGate (t : Task) (gate msg : String) :
    Sys.Turned s (s.observeProvisionGate t gate msg) := by
  unfold Sys.observeProvisionGate
  split_ifs with hcur
  · obtain ⟨p,hp,hg⟩ := Option.any_eq_true _ _ |>.1 hcur
    refine .single t.item.name rfl rfl ?_ fun other h => by simp [Sys.row,h]
    have htn := Turn.observe (s.row t.item.name) gate msg hp
    rw [of_decide_eq_true hg] at htn
    simpa [Sys.row] using htn
  · exact .refl s

theorem turned_recordResult (t : Task) (r : Result) : Sys.Turned s (s.recordResult t r) := by
  unfold Sys.recordResult Sys.recordFailureIfCurrent Sys.recordPhaseIfCurrent
  split_ifs
  · split
    · refine .single t.item.name rfl rfl ?_ fun other h => by simp [Sys.row,Sys.recordStoragePhase,h]
      simpa [Sys.row,Sys.recordStoragePhase,Row.invalidate,Row.handOver] using Turn.fail (s.row t.item.name)
    · refine .single t.item.name rfl rfl ?_ fun other h => by simp [Sys.row,Sys.recordStoragePhase,h]
      simpa [Sys.row,Sys.recordStoragePhase,Row.handOver]
        using Turn.record (s.row t.item.name) (r.phase.getD .provisioning)
  · split <;> exact .refl s
  · exact .refl s

end

section

variable {skipStorage : Bool}

lemma beginProvisionTasks_nil (s : Sys) : (s.beginProvisionTasks skipStorage []).1 = s := rfl

theorem beginProvisionTasks_cons (s : Sys) (item : Item) (items : List Item) :
    (s.beginProvisionTasks skipStorage (item::items)).1 =
      ((if item.reconciles then s.beginProvision item skipStorage else s).beginProvisionTasks
        skipStorage items).1 := by
  rw [Sys.beginProvisionTasks]
  split_ifs <;> rfl

theorem beginProvisionTasks_keep {I : Row → Prop}
    (hI : ∀ r g drives, I (Row.takeOver r g skipStorage drives)) (items : List Item) (s : Sys)
    (h : ∀ name, I (s.row name)) (name : String) :
    I ((s.beginProvisionTasks skipStorage items).1.row name) := by
  induction items generalizing s with
  | nil => exact h name
  | cons item items ih =>
    rw [beginProvisionTasks_cons]
    refine ih _ fun other => ?_
    split_ifs
    · rw [row_beginProvision]
      split_ifs
      · exact hI _ _ _
      · exact h other
    · exact h other

/-- Some pass of the list takes the cluster over. -/
def Takes (items : List Item) (name : String) : Prop :=
  ∃ item ∈ items, item.reconciles ∧ item.name = name

/-- Some pass of the list takes the cluster over and drives its storage. -/
def Drives (skipStorage : Bool) (items : List Item) (name : String) : Prop :=
  ∃ item ∈ items, item.reconciles ∧ item.name = name ∧ item.stores ∧
    skipStorage = false

theorem row_beginProvisionTasks_of_not_takes (items : List Item) (s : Sys) (name : String)
    (h : ¬ Takes items name) :
    (s.beginProvisionTasks skipStorage items).1.row name = s.row name := by
  induction items generalizing s with
  | nil => rfl
  | cons item items ih =>
    have hrs : ¬ Takes items name :=
      fun ⟨item',hmem,hitem⟩ => h ⟨item',List.mem_cons_of_mem _ hmem,hitem⟩
    rw [beginProvisionTasks_cons,ih _ hrs]
    split_ifs with hrcn
    · rw [row_beginProvision,if_neg]
      exact fun hnm => h ⟨item,List.mem_cons_self,hrcn,hnm.symm⟩
    · rfl

theorem provision_beginProvisionTasks_of_takes (items : List Item) (s : Sys) (name : String)
    (h : Takes items name) : ∃ g, s.sequence < g ∧
      ((s.beginProvisionTasks skipStorage items).1.row name).provision = some ⟨g,skipStorage⟩ := by
  induction items generalizing s with
  | nil => simp [Takes] at h
  | cons item items ih =>
    rw [beginProvisionTasks_cons]
    by_cases hrs : Takes items name
    · obtain ⟨g,hg,hrow⟩ := ih (if item.reconciles then s.beginProvision item skipStorage else s) hrs
      refine ⟨g,lt_of_le_of_lt ?_ hg,hrow⟩
      split_ifs
      · rw [sequence_beginProvision]
        exact Nat.le_succ _
      · exact le_rfl
    · -- The last pass of the cluster is the first of the list.
      obtain ⟨item',hmem,hrcn,hnm⟩ := h
      obtain rfl | hmem := List.mem_cons.1 hmem
      · rw [row_beginProvisionTasks_of_not_takes items _ name hrs,if_pos hrcn,
          row_beginProvision,if_pos hnm.symm]
        exact ⟨s.sequence + 1,Nat.lt_succ_self _,rfl⟩
      · exact absurd ⟨item',hmem,hrcn,hnm⟩ hrs

theorem blocker_beginProvision (s : Sys) (item : Item) (name : String) (b : Blocker) :
    (s.beginProvision item skipStorage).provisionBlockers name = some b ↔
      s.provisionBlockers name = some b ∧
        ¬ (item.name = name ∧ item.stores ∧ skipStorage = false) := by
  have hrow := congrArg Row.blocker (row_beginProvision s item skipStorage name)
  change (s.beginProvision item skipStorage).provisionBlockers name = _ at hrow
  by_cases hnm : name = item.name
  · subst hnm
    rw [hrow]
    cases item.stores <;> cases skipStorage <;> simp [Row.takeOver,Sys.row]
  · rw [hrow,if_neg hnm]
    simp [Sys.row,Ne.symm hnm]

theorem blocker_beginProvisionTasks (items : List Item) (s : Sys) (name : String) (b : Blocker) :
    ((s.beginProvisionTasks skipStorage items).1.row name).blocker = some b ↔
      s.provisionBlockers name = some b ∧ ¬ Drives skipStorage items name := by
  induction items generalizing s with
  | nil => simp [beginProvisionTasks_nil,Sys.row,Drives]
  | cons item items ih =>
    have hdrv : Drives skipStorage (item::items) name ↔
        (item.reconciles ∧ item.name = name ∧ item.stores ∧ skipStorage = false) ∨
          Drives skipStorage items name := by
      simp [Drives]
    rw [beginProvisionTasks_cons,ih,hdrv,not_or,← and_assoc]
    split_ifs with hrcn
    · simp [blocker_beginProvision,hrcn]
    · simp [hrcn]

end

/-- The moves that neither register a pass nor concern a probe. -/
def Move.turns : Move → Prop
  | .provision _ => False
  | .bgp _ => False
  | .beginProbe _ _ _ => False
  | .probed _ _ _ => False
  | _ => True

variable {s s' : Sys}

/-- The tasks whose result is not recorded yet. -/
def Runner.unrecorded : Runner → List Task
  | .idle => []
  | .working t rest => t::rest
  | .ended t _ rest => t::rest
  | .recorded _ _ rest => rest
  | .retired _ rest => rest
  | .returned => []

/-- A goroutine turns the rows and moves on alone, never back to a task it has recorded. -/
theorem runnerStep_turned {i : ℕ} {m : RunnerMove} (h : runnerStep s i m = some s') :
    ∃ s₁ r, s.Turned s₁ ∧ s' = s₁.enter i r ∧ r.unrecorded.Sublist (s.runners i).unrecorded := by
  unfold runnerStep at h
  split at h
  · rename_i t _ gate msg hi
    cases h
    have htn := turned_observeProvisionGate s t gate msg
    exact ⟨_,s.runners i,htn,by simp [Sys.enter,← htn.runners],.refl _⟩
  · rename_i hi
    cases h
    exact ⟨s,_,.refl s,rfl,by rw [hi]; exact .refl _⟩
  · rename_i hi
    cases h
    exact ⟨_,_,turned_recordResult s _ _,rfl,by rw [hi]; exact List.sublist_cons_self _ _⟩
  · rename_i hi
    cases h
    exact ⟨_,_,turned_finishProvision s _,rfl,by rw [hi]; exact .refl _⟩
  · rename_i hi
    cases h
    exact ⟨s,_,.refl s,rfl,by rw [hi]; exact .refl _⟩
  · cases h
    exact ⟨s,_,.refl s,rfl,List.nil_sublist _⟩
  · cases h
    exact ⟨_,_,turned_cancelPending s _,rfl,List.nil_sublist _⟩
  · cases h

theorem Move.turned {m : Move} (h : step s m = some s') (hm : m.turns) :
    s.Turned s' ∨ ∃ i r, m = .runner i r := by
  cases m with
  | provision items => exact hm.elim
  | bgp item => exact hm.elim
  | beginProbe k running recent => exact hm.elim
  | probed g answer running => exact hm.elim
  | runner i r => exact .inr ⟨i,r,rfl⟩
  | cancel name =>
    cases h
    exact .inl (turned_cancelProvision s name)
  | handover name =>
    cases h
    exact .inl (turned_cancelContext s name)
  | stop name =>
    cases h
    exact .inl ((turned_cancelProvision s name).trans (turned_invalidateStoragePhase _ name))
  | invalidate name =>
    cases h
    exact .inl (turned_invalidateStoragePhase s name)
  | shutdown =>
    cases h
    exact .inl (turned_cancelAllProvisions s)
  | refresh statuses =>
    cases h
    exact .inl ⟨rfl,rfl,fun _ => .refl⟩

theorem step_turns {m : Move} (h : step s m = some s') (hm : m.turns) :
    s'.sequence = s.sequence ∧ ∀ name, Turns (s.row name) (s'.row name) := by
  obtain htn | ⟨i,r,rfl⟩ := Move.turned h hm
  · exact ⟨htn.sequence,htn.rows⟩
  · obtain ⟨s₁,r',htn,rfl,-⟩ := runnerStep_turned h
    exact ⟨htn.sequence,htn.rows⟩

theorem row_beginStorageStatusProbe (s : Sys) (name : String) (running recent : Bool)
    (other : String) :
    (s.beginStorageStatusProbe name running recent).row other =
      if other = name ∧ s.mayProbe name running recent then
        { s.row other with probe := some (s.storageProbeSequence + 1) }
      else s.row other := by
  unfold Sys.beginStorageStatusProbe
  by_cases hmay : s.mayProbe name running recent
  · by_cases h : other = name
    · subst h
      simp [hmay,Sys.row]
    · simp [hmay,h,Sys.row]
  · simp [hmay]

/-- Only a live answer of the cluster's own probe changes its phase. -/
theorem row_runStorageStatusProbe (s : Sys) (g : ℕ) (name : String) (answer : ProbeAnswer)
    (running : Bool) (other : String) :
    (s.runStorageStatusProbe g name answer running).row other =
      if other = name ∧ s.storageStatusProbes name = some g then
        { s.row other with
          probe := none
          phase := if answer = .live ∧ running then some .live else s.storagePhases other }
      else s.row other := by
  unfold Sys.runStorageStatusProbe
  by_cases hg : s.storageStatusProbes name = some g
  · by_cases h : other = name
    · subst h
      cases answer <;> cases running <;>
        simp [hg,Sys.recordProbe,Sys.setProbeFailure,Sys.recordStoragePhase,Sys.row]
    · cases answer <;> cases running <;>
        simp [hg,h,Sys.recordProbe,Sys.setProbeFailure,Sys.recordStoragePhase,Sys.row]
  · simp [hg,Sys.row]

theorem sequence_runStorageStatusProbe (s : Sys) (g : ℕ) (name : String) (answer : ProbeAnswer)
    (running : Bool) : (s.runStorageStatusProbe g name answer running).sequence = s.sequence := by
  unfold Sys.runStorageStatusProbe
  by_cases hg : s.storageStatusProbes name = some g
  · cases answer <;> cases running <;>
      simp [hg,Sys.recordProbe,Sys.setProbeFailure,Sys.recordStoragePhase]
  · simp [hg]

theorem sequence_beginStorageStatusProbe (s : Sys) (name : String) (running recent : Bool) :
    (s.beginStorageStatusProbe name running recent).sequence = s.sequence := by
  unfold Sys.beginStorageStatusProbe
  split_ifs <;> rfl

theorem step_beginProbe {k : ℕ} {running recent : Bool}
    (h : step s (.beginProbe k running recent) = some s') : ∃ name names,
      s.refreshes k = name::names ∧ s'.sequence = s.sequence ∧
        ∀ other, s'.row other = (s.beginStorageStatusProbe name running recent).row other := by
  cases hk : s.refreshes k with
  | nil => simp [step,hk] at h
  | cons name names =>
    simp only [step,hk] at h
    cases h
    exact ⟨name,names,rfl,sequence_beginStorageStatusProbe s name running recent,fun _ => rfl⟩

theorem step_probed {g : ℕ} {answer : ProbeAnswer} {running : Bool}
    (h : step s (.probed g answer running) = some s') : ∃ name,
      s.probing g = some name ∧ s' = s.runStorageStatusProbe g name answer running := by
  cases hg : s.probing g with
  | none => simp [step,hg] at h
  | some name =>
    simp only [step,hg] at h
    cases h
    exact ⟨name,rfl,rfl⟩

/-- The moves that register passes. -/
def Move.registers : Move → Prop
  | .provision _ => True
  | .bgp _ => True
  | _ => False

/-- The other moves hand out no generation and at most take passes off the register. -/
theorem step_sequence {m : Move} (h : step s m = some s') (hm : ¬ m.registers) :
    s'.sequence = s.sequence ∧ ∀ name, (s'.row name).provision = (s.row name).provision ∨
      (s'.row name).provision = none := by
  cases m with
  | provision items => exact (hm trivial).elim
  | bgp item => exact (hm trivial).elim
  | beginProbe k running recent =>
    obtain ⟨name,names,-,hseq,hrw⟩ := step_beginProbe h
    refine ⟨hseq,fun other => .inl ?_⟩
    rw [hrw,row_beginStorageStatusProbe]
    split_ifs <;> rfl
  | probed g answer running =>
    obtain ⟨name,-,rfl⟩ := step_probed h
    refine ⟨sequence_runStorageStatusProbe s g name answer running,fun other => .inl ?_⟩
    rw [row_runStorageStatusProbe]
    split_ifs <;> rfl
  | _ =>
    obtain ⟨hseq,htu⟩ := step_turns h trivial
    exact ⟨hseq,fun name => (htu name).provision⟩

end TalosBox.StoragePasses
