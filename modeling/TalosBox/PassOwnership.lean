import TalosBox.PassRecords

/-! Whether what is on record belongs to the active pass: a cluster's blockers, its storage phase
during a storage pass, and the passes a failed run cancels. -/
namespace TalosBox.StoragePasses

open Option
open StepRuns (Throughout Each)
open Row (Turn)

/-- The generations on the register have been handed out. -/
def Bounded (s : Sys) : Prop := ∀ name p, s.provisions name = some p → p.generation ≤ s.sequence

lemma initial_bounded : Bounded initial := by
  intro name p hp
  cases hp

variable {s s' : Sys}

theorem Bounded.shrink (h : Bounded s) (hseq : s'.sequence = s.sequence)
    (hrw : ∀ name, (s'.row name).provision = (s.row name).provision ∨
      (s'.row name).provision = none) : Bounded s' := by
  intro name p hp
  rw [hseq]
  obtain hsm | hno := hrw name
  · exact h name p (hsm.symm.trans hp)
  · exact nomatch hno.symm.trans hp

theorem Bounded.beginProvision (h : Bounded s) (item : Item) (skip : Bool) :
    Bounded (s.beginProvision item skip) := by
  intro name p hp
  have hrow := congrArg Row.provision (row_beginProvision s item skip name)
  change (s.beginProvision item skip).provisions name = _ at hrow
  rw [hrow] at hp
  rw [sequence_beginProvision]
  split_ifs at hp
  · cases hp
    exact le_rfl
  · exact (h name p hp).trans (Nat.le_succ _)

theorem Bounded.provision (h : Bounded s) (items : List Item)
    (skip : Bool) : Bounded (s.provision items skip) := by
  suffices hbgn : Bounded (s.beginProvisionTasks skip items).1 from
    hbgn.shrink rfl fun _ => .inl rfl
  induction items generalizing s with
  | nil => exact h
  | cons item items ih =>
    rw [beginProvisionTasks_cons]
    split_ifs
    · exact ih (h.beginProvision item skip)
    · exact ih h

theorem Bounded.step {m : Move} (h : Bounded s) (hst : step s m = some s') :
    Bounded s' := by
  by_cases hm : m.registers
  · cases m with
    | provision items =>
      cases hst
      exact h.provision items false
    | bgp item =>
      cases hst
      exact h.provision [item] _
    | _ => exact hm.elim
  · obtain ⟨hseq,hrw⟩ := step_sequence hst hm
    exact h.shrink hseq hrw

/-- Every blocker on record is of the pass that is active now. -/
def Sys.Owned (s : Sys) : Prop :=
  ∀ name b, s.provisionBlockers name = some b → s.current name b.generation

lemma Sys.owned_iff_rows (s : Sys) : s.Owned ↔ ∀ name, (s.row name).Owned := Iff.rfl

lemma initial_owned : initial.Owned := by
  intro name b hb
  cases hb

/-- Passes that take a cluster over with a blocker on record drive its storage. -/
def Clears (s : Sys) (skipStorage : Bool) (items : List Item) : Prop :=
  ∀ name, Takes items name → s.provisionBlockers name ≠ none → Drives skipStorage items name

theorem provision_owned_iff (hs : Bounded s) (hod : s.Owned) (items : List Item)
    (skip : Bool) :
    (s.provision items skip).Owned ↔ Clears s skip items := by
  constructor
  · intro h name htakes hso
    by_contra hdrv
    obtain ⟨b,hb⟩ := ne_none_iff_exists'.1 hso
    obtain ⟨g,hg,hnew⟩ := provision_beginProvisionTasks_of_takes items s name htakes
    have hstays := (blocker_beginProvisionTasks items s name b).2 ⟨hb,hdrv⟩
    have haft : (some (Pass.mk g skip)).any (·.generation = b.generation) := by
      rw [← hnew]
      exact h name b hstays
    obtain ⟨p,hp,hgen⟩ := any_eq_true _ _ |>.1 (hod name b hb)
    have hbd := hs name p hp
    have hold : p.generation = b.generation := of_decide_eq_true hgen
    have hnx : g = b.generation := of_decide_eq_true haft
    omega
  · intro h name b hb
    obtain ⟨hb,hdrv⟩ := (blocker_beginProvisionTasks items s name b).1 hb
    have hnot : ¬ Takes items name := fun htakes => hdrv (h name htakes (by simp [hb]))
    have hrow : (s.provision items skip).row name = s.row name :=
      row_beginProvisionTasks_of_not_takes items s name hnot
    have hprov : (s.provision items skip).provisions name = s.provisions name :=
      congrArg Row.provision hrow
    rw [Sys.current,hprov]
    exact hod name b hb

/-- A move that registers passes must drive the storage of the clusters with a blocker that it takes
over. -/
def ClearsBlockers (s : Sys) : Move → Prop
  | .provision items => Clears s false items
  | .bgp item => Clears s (s.bgpSkipsStorage item.name) [item]
  | _ => True

theorem step_owned_iff {m : Move} (hs : Bounded s) (hod : s.Owned)
    (hst : step s m = some s') : s'.Owned ↔ ClearsBlockers s m := by
  cases m with
  | provision items =>
    cases hst
    exact provision_owned_iff hs hod items false
  | bgp item =>
    cases hst
    exact provision_owned_iff hs hod [item] _
  | beginProbe k running recent =>
    obtain ⟨name,names,-,-,hrw⟩ := step_beginProbe hst
    refine iff_of_true (s'.owned_iff_rows.2 fun other => ?_) trivial
    rw [hrw,row_beginStorageStatusProbe]
    split_ifs <;> exact hod other
  | probed g answer running =>
    obtain ⟨name,-,rfl⟩ := step_probed hst
    refine iff_of_true ((Sys.owned_iff_rows _).2 fun other => ?_) trivial
    rw [row_runStorageStatusProbe]
    split_ifs <;> exact hod other
  | _ =>
    obtain ⟨-,htu⟩ := step_turns hst trivial
    exact iff_of_true (fun name => (htu name).keep Turn.owned (hod name)) trivial

/-- Each blocker is of the active pass exactly as long as no pass takes over a cluster with a
blocker without driving its storage: a network pass, or one of a cluster without storage, leaves the
blocker. -/
theorem blockers_of_active_pass_iff (moves : List Move) :
    Throughout step Sys.Owned initial moves ↔ Each step ClearsBlockers initial moves :=
  StepRuns.throughout_iff_each (fun _ _ _ hs hstep => Bounded.step hs hstep)
    (fun _ _ _ hs hownd hstep => step_owned_iff hs hownd hstep) initial_bounded initial_owned

def ciliumLonghorn (name : String) : Item := ⟨name,.cilium,.longhorn⟩

/-- Two changes of the BGP mode of a cluster: the first pass waits for the nodes. -/
def bgpChanges : List Move :=
  [.bgp (ciliumLonghorn "a"),.runner 0 .next,
    .runner 0 (.observe "Kubernetes nodes Ready" "node a-cp-1 is not ready"),
    .bgp (ciliumLonghorn "a")]

theorem superseded_blocker_stays :
    ((run initial bgpChanges).map fun s => (s.provisions "a",s.provisionBlockers "a")) =
      some (some ⟨2,true⟩,some ⟨"Kubernetes nodes Ready","node a-cp-1 is not ready",1⟩) ∧
      ¬ Throughout step Sys.Owned initial bgpChanges := by
  have hend : ((run initial bgpChanges).map fun s => (s.provisions "a",s.provisionBlockers "a")) =
      some (some ⟨2,true⟩,some ⟨"Kubernetes nodes Ready","node a-cp-1 is not ready",1⟩) := by
    decide +kernel
  refine ⟨hend,fun h => ?_⟩
  obtain ⟨s,hrun,hs⟩ := map_eq_some_iff.mp hend
  obtain ⟨hprov,hbloc⟩ := Prod.mk.inj hs
  have hownd := h bgpChanges s List.prefix_rfl hrun "a" _ hbloc
  simp [Sys.current,hprov] at hownd

/-- Storage is at provisioning from the begin of a storage pass until it has recorded its result or
is superseded, cancelled or invalidated. -/
def Sys.Parked (s : Sys) : Prop :=
  ∀ name g, s.storagePass name = some g → s.storagePhases name = some .provisioning

lemma Sys.parked_iff_rows (s : Sys) : s.Parked ↔ ∀ name, (s.row name).Parked := Iff.rfl

lemma initial_parked : initial.Parked := by
  intro name g hg
  cases hg

theorem provision_parked (h : s.Parked) (items : List Item) (skip : Bool) :
    (s.provision items skip).Parked := by
  refine (Sys.parked_iff_rows _).2 fun name => ?_
  exact beginProvisionTasks_keep (fun r g drives => r.parked_takeOver g skip drives) items s
    h name

/-- No probe that is still the cluster's reports its storage live during a storage pass. -/
def NoLateReport (s : Sys) : Move → Prop
  | .probed g answer running => ∀ name, s.probing g = some name →
      s.storageStatusProbes name = some g → answer = .live → running →
        s.storagePass name = none
  | _ => True

theorem probed_parked_iff (h : s.Parked) {g : ℕ} {name : String}
    (hnm : s.probing g = some name) (answer : ProbeAnswer) (running : Bool) :
    (s.runStorageStatusProbe g name answer running).Parked ↔
      NoLateReport s (.probed g answer running) := by
  constructor
  · rintro haft name' hnm' hprb rfl rfl
    obtain rfl : name' = name := some.inj (hnm'.symm.trans hnm)
    by_contra hps
    obtain ⟨g',hg'⟩ := ne_none_iff_exists'.1 hps
    have hrow := row_runStorageStatusProbe s g name' .live true name'
    rw [if_pos ⟨rfl,hprb⟩] at hrow
    have hph := (Sys.parked_iff_rows _).1 haft name' g' (by rw [hrow]; exact hg')
    rw [hrow] at hph
    simp at hph
  · intro hquiet
    refine (Sys.parked_iff_rows _).2 fun other => ?_
    rw [row_runStorageStatusProbe]
    split_ifs with hprb hlv
    · intro g' hg'
      obtain ⟨rfl,hprb⟩ := hprb
      have hno := hquiet other hnm hprb hlv.1 hlv.2
      exact nomatch hno.symm.trans hg'
    · exact h other
    · exact h other

theorem step_parked_iff {m : Move} (h : s.Parked) (hst : step s m = some s') :
    s'.Parked ↔ NoLateReport s m := by
  cases m with
  | provision items =>
    cases hst
    exact iff_of_true (provision_parked h items false) trivial
  | bgp item =>
    cases hst
    exact iff_of_true (provision_parked h [item] _) trivial
  | beginProbe k running recent =>
    obtain ⟨name,names,-,-,hrw⟩ := step_beginProbe hst
    refine iff_of_true (s'.parked_iff_rows.2 fun other => ?_) trivial
    rw [hrw,row_beginStorageStatusProbe]
    split_ifs <;> exact h other
  | probed g answer running =>
    obtain ⟨name,hnm,rfl⟩ := step_probed hst
    exact probed_parked_iff h hnm answer running
  | _ =>
    obtain ⟨-,htu⟩ := step_turns hst trivial
    exact iff_of_true (fun name => (htu name).keep Turn.parked (h name)) trivial

/-- The storage of a cluster in a storage pass is at provisioning exactly as long as no status probe
reports it live meanwhile. -/
theorem phase_during_storage_pass_iff (moves : List Move) :
    Throughout step Sys.Parked initial moves ↔ Each step NoLateReport initial moves :=
  StepRuns.throughout_iff_each (I := fun _ => True) (fun _ _ _ _ _ => trivial)
    (fun _ _ _ _ h hstep => step_parked_iff h hstep) trivial initial_parked

/-- A refresh that found no pass begins its probe after one was registered. -/
def lateProbe : List Move :=
  [.refresh [⟨"a",.longhorn,true,true,false⟩],.provision [ciliumLonghorn "a"],
    .beginProbe 0 true false,.probed 1 .live true]

theorem probe_records_live_during_pass :
    ((run initial lateProbe).map fun s =>
      (s.provisions "a",s.storagePass "a",s.storagePhases "a")) =
        some (some ⟨1,false⟩,some 1,some .live) ∧
      ¬ Throughout step Sys.Parked initial lateProbe := by
  have hend : ((run initial lateProbe).map fun s =>
      (s.provisions "a",s.storagePass "a",s.storagePhases "a")) =
        some (some ⟨1,false⟩,some 1,some .live) := by
    decide +kernel
  refine ⟨hend,fun h => ?_⟩
  obtain ⟨s,hrun,hs⟩ := map_eq_some_iff.mp hend
  obtain ⟨-,hrest⟩ := Prod.mk.inj hs
  obtain ⟨hpass,hph⟩ := Prod.mk.inj hrest
  have hparked := h lateProbe s List.prefix_rfl hrun "a" 1 hpass
  simp [hph] at hparked

/-- No probe is begun for a cluster during a storage pass. -/
def NoLateProbe (s : Sys) : Move → Prop
  | .beginProbe k running recent => ∀ name names, s.refreshes k = name::names →
      s.mayProbe name running recent → s.storagePass name = none
  | _ => True

theorem step_unprobed {m : Move} (h : ∀ name, (s.row name).Unprobed)
    (hm : NoLateProbe s m) (hst : step s m = some s') (name : String) :
    (s'.row name).Unprobed := by
  cases m with
  | provision items =>
    cases hst
    exact beginProvisionTasks_keep (fun r g drives => r.unprobed_takeOver g _ drives) items s h name
  | bgp item =>
    cases hst
    exact beginProvisionTasks_keep (fun r g drives => r.unprobed_takeOver g _ drives) [item] s h name
  | beginProbe k running recent =>
    obtain ⟨probed,names,hk,-,hrw⟩ := step_beginProbe hst
    rw [hrw,row_beginStorageStatusProbe]
    split_ifs with hprb
    · intro g hg
      obtain ⟨rfl,hmay⟩ := hprb
      exact nomatch (hm name names hk hmay).symm.trans hg
    · exact h name
  | probed g answer running =>
    obtain ⟨probed,-,rfl⟩ := step_probed hst
    rw [row_runStorageStatusProbe]
    split_ifs
    · exact fun _ _ => rfl
    · exact fun _ _ => rfl
    · exact h name
  | _ =>
    obtain ⟨-,htu⟩ := step_turns hst trivial
    exact (htu name).keep Turn.unprobed (h name)

/-- A probe that was out when the pass began records nothing. -/
theorem parked_of_noLateProbe (moves : List Move) (h : Each step NoLateProbe initial moves) :
    Throughout step Sys.Parked initial moves := by
  have hboth : Throughout step (fun s => s.Parked ∧ ∀ name, (s.row name).Unprobed) initial
      moves := by
    refine StepRuns.throughout_of_each ?_ ⟨initial_parked,?_⟩ h
    · rintro s m s' ⟨hparked,hunpr⟩ hm hst
      refine ⟨(step_parked_iff hparked hst).2 ?_,step_unprobed hunpr hm hst⟩
      cases m with
      | probed g answer running =>
        intro name _ hprb _ _
        by_contra hps
        obtain ⟨g',hg'⟩ := ne_none_iff_exists'.1 hps
        exact nomatch (hunpr name g' hg').symm.trans hprb
      | _ => trivial
    · intro name g hg
      cases hg
  exact fun done s hdn hrun => (hboth done s hdn hrun).1

theorem provisions_cancelProvision (s : Sys) (name other : String) :
    (s.cancelProvision name).provisions other =
      if other = name then none else s.provisions other := by
  have hrow := congrArg Row.provision (row_cancelProvision s name other)
  change (s.cancelProvision name).provisions other = _ at hrow
  rw [hrow]
  by_cases h : other = name
  · subst h
    cases hp : s.provisions other <;> simp [Sys.row,Row.retire,hp]
  · simp [h,Sys.row]

theorem provisions_cancelPending (tasks : List Task) (s : Sys) (name : String) :
    (s.cancelPending tasks).provisions name =
      if ∃ t ∈ tasks, t.item.name = name then none else s.provisions name := by
  induction tasks generalizing s with
  | nil => simp [Sys.cancelPending]
  | cons t tasks ih =>
    change ((s.cancelProvision t.item.name).cancelPending tasks).provisions name = _
    rw [ih,provisions_cancelProvision]
    by_cases hnm : name = t.item.name
    · simp [hnm]
    · simp [hnm,Ne.symm hnm]

theorem cancelled_cancelProvision {name : String} {g : ℕ}
    (h : ∀ p, s.provisions name = some p → p.generation ≠ g) :
    (s.cancelProvision name).cancelled g = s.cancelled g := by
  unfold Sys.cancelProvision Sys.cancelContext
  cases hp : s.provisions name with
  | none => rfl
  | some p => exact Function.update_of_ne (h p hp).symm _ _

theorem cancelled_cancelPending (tasks : List Task) {g : ℕ}
    (h : ∀ t ∈ tasks, ∀ p, s.provisions t.item.name = some p → p.generation ≠ g) :
    (s.cancelPending tasks).cancelled g = s.cancelled g := by
  induction tasks generalizing s with
  | nil => rfl
  | cons t tasks ih =>
    have hfst := cancelled_cancelProvision (h t List.mem_cons_self)
    refine Eq.trans (ih fun t' ht' p hp => ?_) hfst
    rw [provisions_cancelProvision] at hp
    split_ifs at hp
    exact h t' (List.mem_cons_of_mem _ ht') p hp

/-- The pass is one of the tasks'. -/
def OwnPass (tasks : List Task) (g : ℕ) : Prop := ∃ t ∈ tasks, t.generation = g

/-- Passes that are none of the tasks' stay registered and their contexts stay as they are. -/
def SparesOthers (s s' : Sys) (tasks : List Task) : Prop :=
  (∀ name p, s.provisions name = some p → ¬ OwnPass tasks p.generation →
    s'.provisions name = some p) ∧
    ∀ g, ¬ OwnPass tasks g → s'.cancelled g = s.cancelled g

/-- A failed run spares the passes of others exactly if none is registered for a cluster it has yet
to come to: it cancels by name. -/
theorem failed_run_spares_others_iff {s s' : Sys} {i : ℕ} {rest : List Task}
    (hi : s.runners i = .retired true rest) (hstep : step s (.runner i .abort) = some s') :
    SparesOthers s s' rest ↔
      ∀ t ∈ rest, ∀ p, s.provisions t.item.name = some p → OwnPass rest p.generation := by
  simp only [step,runnerStep,hi,Option.some.injEq] at hstep
  subst hstep
  constructor
  · rintro ⟨hregi,-⟩ t ht p hp
    by_contra hoth
    have hstays : (s.cancelPending rest).provisions t.item.name = some p :=
      hregi t.item.name p hp hoth
    rw [provisions_cancelPending,if_pos ⟨t,ht,rfl⟩] at hstays
    cases hstays
  · refine fun hown => ⟨fun name p hp hoth => ?_,fun g hg => ?_⟩
    · change (s.cancelPending rest).provisions name = some p
      rw [provisions_cancelPending,if_neg]
      · exact hp
      · rintro ⟨t,ht,rfl⟩
        exact hoth (hown t ht p hp)
    · refine cancelled_cancelPending rest fun t ht p hp hgen => hg ?_
      exact hgen ▸ hown t ht p hp

/-- An up of two clusters whose first pass fails in the network stage. -/
def failedUp : List Move :=
  [.provision [ciliumLonghorn "a",ciliumLonghorn "b"],.runner 0 .next,
    .runner 0 (.ends (.ofError .other)),.runner 0 .record,.runner 0 .finish]

theorem failed_up_spares_others : ∃ s s', run initial failedUp = some s ∧
    step s (.runner 0 .abort) = some s' ∧ SparesOthers s s' [⟨ciliumLonghorn "b",2,false⟩] := by
  have hend : ((run initial failedUp).map fun s => (s.runners 0,s.provisions "b")) =
      some (.retired true [⟨ciliumLonghorn "b",2,false⟩],some ⟨2,false⟩) := by
    decide +kernel
  obtain ⟨s,hrun,hs⟩ := map_eq_some_iff.mp hend
  obtain ⟨hi,hb⟩ := Prod.mk.inj hs
  have hstep : step s (.runner 0 .abort) =
      some ((s.cancelPending [⟨ciliumLonghorn "b",2,false⟩]).enter 0 .returned) := by
    simp only [step,runnerStep,hi]
  refine ⟨s,_,hrun,hstep,(failed_run_spares_others_iff hi hstep).mpr ?_⟩
  simp [ciliumLonghorn,hb,OwnPass]

/-- While the first pass runs, another operation begins one for the second cluster. -/
def overtakenUp : List Move :=
  [.provision [ciliumLonghorn "a",ciliumLonghorn "b"],.runner 0 .next,
    .provision [ciliumLonghorn "b"],.runner 0 (.ends (.ofError .other)),.runner 0 .record,
    .runner 0 .finish]

/-- The up cancels the third pass, which is none of its own. -/
theorem failed_up_cancels_newer_pass :
    ((run initial overtakenUp).map fun s => (s.runners 0,s.provisions "b",s.cancelled 3)) =
        some (.retired true [⟨ciliumLonghorn "b",2,false⟩],some ⟨3,false⟩,false) ∧
      ((run initial (overtakenUp ++ [.runner 0 .abort])).map fun s =>
        (s.provisions "b",s.cancelled 3)) = some (none,true) := by
  decide +kernel

end TalosBox.StoragePasses
