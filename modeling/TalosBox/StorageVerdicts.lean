import TalosBox.PassOwnership

/-! The verdict on a cluster's storage: the phase, the failure behind it, and the probe that may
change it. A failed phase is terminal until something invalidates it. -/
namespace TalosBox.StoragePasses

open List
open Function (update update_of_ne update_self)

/-- What is on record about the storage of one cluster. -/
@[ext] structure Verdict where
  phase : Option StoragePhase
  failure : Option String
  probe : Option ℕ

def Sys.verdict (s : Sys) (name : String) : Verdict :=
  ⟨s.storagePhases name,s.storageFailures name,s.storageStatusProbes name⟩

namespace Verdict

def cleared : Verdict := ⟨none,none,none⟩

def begun : Verdict := ⟨some .provisioning,none,none⟩

/-- What a pass that returned makes of it. -/
def record (v : Verdict) (r : Result) : Verdict :=
  match r.error with
  | some (.storage message) => ⟨some .failed,some message,none⟩
  | _ => ⟨some (r.phase.getD .provisioning),none,v.probe⟩

/-- A failure is on record exactly with the failed phase, and no probe is out then. -/
structure Sound (v : Verdict) : Prop where
  failure : v.failure.isSome ↔ v.phase = some .failed
  probe : v.probe.isSome → v.phase ≠ some .failed

lemma sound_cleared : cleared.Sound := ⟨by simp [cleared],fun _ => nofun⟩

lemma sound_begun : begun.Sound := ⟨by simp [begun],fun _ => nofun⟩

theorem phase_getD_ne_failed (r : Result) : r.phase.getD .provisioning ≠ .failed := by
  have hunfa := r.unfailed
  cases hph : r.phase with
  | none => nofun
  | some phase =>
    rintro rfl
    exact hunfa hph

theorem sound_record (v : Verdict) (r : Result) : (v.record r).Sound := by
  unfold record
  split
  · exact ⟨by simp,fun h => by simp at h⟩
  · have hph := phase_getD_ne_failed r
    exact ⟨by simp [hph],fun _ => by simp [hph]⟩

end Verdict

section

variable (s : Sys) (name : String)

lemma verdict_cancelContext : (s.cancelContext name).verdict = s.verdict := by
  unfold Sys.cancelContext
  split <;> rfl

theorem verdict_cancelProvision : (s.cancelProvision name).verdict = s.verdict := by
  unfold Sys.cancelProvision
  split
  · exact verdict_cancelContext s name
  · rfl

theorem verdict_cancelPending (tasks : List Task) :
    (s.cancelPending tasks).verdict = s.verdict := by
  induction tasks generalizing s with
  | nil => rfl
  | cons t tasks ih =>
    exact (ih (s.cancelProvision t.item.name)).trans (verdict_cancelProvision s t.item.name)

theorem verdict_finishProvision (t : Task) : (s.finishProvision t).verdict = s.verdict := by
  unfold Sys.finishProvision
  split_ifs
  · exact verdict_cancelProvision s t.item.name
  · rfl

theorem verdict_observeProvisionGate (t : Task) (gate msg : String) :
    (s.observeProvisionGate t gate msg).verdict = s.verdict := by
  unfold Sys.observeProvisionGate
  split_ifs <;> rfl

theorem verdict_invalidateStoragePhase (other : String) :
    (s.invalidateStoragePhase name).verdict other =
      if other = name then .cleared else s.verdict other := by
  by_cases h : other = name
  · subst h
    simp [Sys.verdict,Sys.invalidateStoragePhase,Verdict.cleared]
  · simp [Sys.verdict,Sys.invalidateStoragePhase,h]

theorem verdict_beginStorage (item : Item) (skipStorage : Bool) (other : String) :
    (s.beginStorage item skipStorage).verdict other =
      if other = item.name ∧ item.stores ∧ skipStorage = false then .begun
      else s.verdict other := by
  unfold Sys.beginStorage
  cases hstores : item.stores with
  | false => simp
  | true =>
    cases skipStorage with
    | true => simp
    | false =>
      by_cases h : other = item.name
      · subst h
        simp [Sys.verdict,Sys.invalidateStoragePhase,Verdict.begun]
      · simp [Sys.verdict,Sys.invalidateStoragePhase,h]

theorem verdict_beginProvision (item : Item) (skipStorage : Bool) (other : String) :
    (s.beginProvision item skipStorage).verdict other =
      if other = item.name ∧ item.stores ∧ skipStorage = false then .begun
      else s.verdict other := by
  rw [← verdict_beginStorage]
  exact congrFun (verdict_cancelContext (s.beginStorage item skipStorage) item.name) other

theorem verdict_beginProvisionTasks (skipStorage : Bool) (items : List Item) (other : String) :
    (s.beginProvisionTasks skipStorage items).1.verdict other = .begun ∧
        Drives skipStorage items other ∨
      (s.beginProvisionTasks skipStorage items).1.verdict other = s.verdict other ∧
        ¬ Drives skipStorage items other := by
  induction items generalizing s with
  | nil => exact .inr ⟨rfl,by simp [Drives]⟩
  | cons item items ih =>
    have hdrv : Drives skipStorage (item::items) other ↔
        (item.reconciles ∧ item.name = other ∧ item.stores ∧ skipStorage = false) ∨
          Drives skipStorage items other := by
      simp [Drives]
    rw [beginProvisionTasks_cons,hdrv]
    obtain ⟨hrs,hlat⟩ | ⟨hrs,hlat⟩ :=
      ih (if item.reconciles then s.beginProvision item skipStorage else s)
    · exact .inl ⟨hrs,.inr hlat⟩
    · rw [hrs]
      by_cases hrcn : item.reconciles
      · rw [if_pos hrcn,verdict_beginProvision]
        split_ifs with hfst
        · exact .inl ⟨rfl,.inl ⟨hrcn,hfst.1.symm,hfst.2⟩⟩
        · refine .inr ⟨rfl,fun h => ?_⟩
          obtain ⟨-,hnm,hstores⟩ | h := h
          · exact hfst ⟨hnm.symm,hstores⟩
          · exact hlat h
      · rw [if_neg hrcn]
        exact .inr ⟨rfl,fun h => h.elim (fun hfst => hrcn hfst.1) hlat⟩

theorem verdict_recordFailureIfCurrent (g : ℕ) (msg other : String) :
    (s.recordFailureIfCurrent name g msg).verdict other =
      if other = name ∧ s.current name g then ⟨some .failed,some msg,none⟩
      else s.verdict other := by
  unfold Sys.recordFailureIfCurrent
  by_cases hcur : s.current name g
  · by_cases h : other = name
    · subst h
      simp [hcur,Sys.recordStoragePhase,Sys.verdict]
    · simp [hcur,Sys.recordStoragePhase,Sys.verdict,h]
  · simp [hcur]

theorem verdict_recordPhaseIfCurrent (g : ℕ) {phase : StoragePhase} (hph : phase ≠ .failed)
    (other : String) :
    (s.recordPhaseIfCurrent name g phase).verdict other =
      if other = name ∧ s.current name g then ⟨some phase,none,(s.verdict other).probe⟩
      else s.verdict other := by
  unfold Sys.recordPhaseIfCurrent
  by_cases hcur : s.current name g
  · by_cases h : other = name
    · subst h
      simp [hcur,Sys.recordStoragePhase,Sys.verdict,hph]
    · simp [hcur,Sys.recordStoragePhase,Sys.verdict,hph,h]
  · simp [hcur]

theorem verdict_recordResult (t : Task) (r : Result) (other : String) :
    (s.recordResult t r).verdict other =
      if other = t.item.name ∧ t.drivesStorage ∧
          s.current t.item.name t.generation then (s.verdict other).record r
      else s.verdict other := by
  have hph := Verdict.phase_getD_ne_failed r
  have hrec := verdict_recordPhaseIfCurrent s t.item.name t.generation hph other
  unfold Sys.recordResult Verdict.record
  by_cases hdrv : t.drivesStorage
  · cases herr : r.error with
    | none => simp [hdrv,hrec]
    | some error =>
      cases error with
      | storage msg => simp [hdrv,verdict_recordFailureIfCurrent]
      | other => simp [hdrv,hrec]
  · simp [hdrv]

theorem verdict_beginStorageStatusProbe (running recent : Bool) (other : String) :
    (s.beginStorageStatusProbe name running recent).verdict other =
      if other = name ∧ s.mayProbe name running recent then
        { s.verdict other with probe := some (s.storageProbeSequence + 1) }
      else s.verdict other := by
  unfold Sys.beginStorageStatusProbe
  by_cases hmay : s.mayProbe name running recent
  · by_cases h : other = name
    · subst h
      simp [hmay,Sys.verdict]
    · simp [hmay,h,Sys.verdict]
  · simp [hmay]

theorem verdict_runStorageStatusProbe (g : ℕ) (answer : ProbeAnswer) (running : Bool)
    (other : String) :
    (s.runStorageStatusProbe g name answer running).verdict other =
      if other = name ∧ s.storageStatusProbes name = some g then
        if answer = .live ∧ running then ⟨some .live,none,none⟩
        else { s.verdict other with probe := none }
      else s.verdict other := by
  unfold Sys.runStorageStatusProbe
  by_cases hg : s.storageStatusProbes name = some g
  · by_cases h : other = name
    · subst h
      cases answer <;> cases running <;>
        simp [hg,Sys.recordProbe,Sys.setProbeFailure,Sys.recordStoragePhase,Sys.verdict]
    · cases answer <;> cases running <;>
        simp [hg,h,Sys.recordProbe,Sys.setProbeFailure,Sys.recordStoragePhase,Sys.verdict]
  · simp [hg,Sys.verdict]

end

/-- The move calls `invalidateStoragePhaseLocked` for the cluster. -/
def Invalidates (s : Sys) : Move → String → Prop
  | .provision items,name => Drives false items name
  | .bgp item,name => Drives (s.bgpSkipsStorage item.name) [item] name
  | .stop stopped,name => stopped = name
  | .invalidate mutated,name => mutated = name
  | _,_ => False

/-- What a move makes of the verdict on one cluster. -/
inductive Judged (s : Sys) (m : Move) (name : String) : Verdict → Prop
  | keep : Judged s m name (s.verdict name)
  | clear (h : Invalidates s m name) : Judged s m name .cleared
  | begins (h : Invalidates s m name) : Judged s m name .begun
  | record {i : ℕ} {t : Task} {result : Result} {rest : List Task} (hm : m = .runner i .record)
      (hi : s.runners i = .ended t result rest) (hnm : t.item.name = name)
      (hdrv : t.drivesStorage) (hcur : s.current name t.generation) :
      Judged s m name ((s.verdict name).record result)
  | ask {k : ℕ} {running recent : Bool} (hm : m = .beginProbe k running recent) (g : ℕ)
      (h : s.storagePhases name ≠ some .failed) :
      Judged s m name { s.verdict name with probe := some g }
  | report {g : ℕ} {answer : ProbeAnswer} {running : Bool} (hm : m = .probed g answer running)
      (h : s.storageStatusProbes name = some g) :
      Judged s m name { s.verdict name with probe := none }
  | live {g : ℕ} {answer : ProbeAnswer} {running : Bool} (hm : m = .probed g answer running)
      (h : s.storageStatusProbes name = some g) : Judged s m name ⟨some .live,none,none⟩

variable {s s' : Sys} {m : Move}

lemma judged_of_eq (h : s'.verdict = s.verdict) (name : String) :
    Judged s m name (s'.verdict name) := h ▸ .keep

theorem judged_provision (m : Move) (items : List Item) (skipStorage : Bool)
    (hm : ∀ name, Drives skipStorage items name → Invalidates s m name) (name : String) :
    Judged s m name ((s.provision items skipStorage).verdict name) := by
  obtain ⟨hbgn,hdrv⟩ | ⟨hsm,-⟩ := verdict_beginProvisionTasks s skipStorage items name
  · have hverd : (s.provision items skipStorage).verdict name = .begun := hbgn
    exact hverd ▸ .begins (hm name hdrv)
  · have hverd : (s.provision items skipStorage).verdict name = s.verdict name := hsm
    exact hverd ▸ .keep

theorem judged_runnerStep {i : ℕ} {m : RunnerMove} (h : runnerStep s i m = some s')
    (name : String) : Judged s (.runner i m) name (s'.verdict name) := by
  unfold runnerStep at h
  split at h
  · cases h
    exact judged_of_eq (verdict_observeProvisionGate s _ _ _) name
  · cases h
    exact .keep
  · rename_i t result rest hi
    cases h
    change Judged s _ name ((s.recordResult t result).verdict name)
    rw [verdict_recordResult]
    split_ifs with hrcd
    · obtain ⟨rfl,hdrv,hcur⟩ := hrcd
      exact .record rfl hi rfl hdrv hcur
    · exact .keep
  · cases h
    exact judged_of_eq (verdict_finishProvision s _) name
  · cases h
    exact .keep
  · cases h
    exact .keep
  · cases h
    exact judged_of_eq (verdict_cancelPending s _) name
  · cases h

theorem mayProbe_not_failed {name : String} {running recent : Bool}
    (h : s.mayProbe name running recent) : s.storagePhases name ≠ some .failed := by
  simp only [Sys.mayProbe,Bool.and_eq_true,decide_eq_true_eq] at h
  exact h.1.2

theorem step_judged (h : step s m = some s') (name : String) :
    Judged s m name (s'.verdict name) := by
  cases m with
  | provision items =>
    cases h
    exact judged_provision (.provision items) items false (fun _ hdrv => hdrv) name
  | bgp item =>
    cases h
    exact judged_provision (.bgp item) [item] _ (fun _ hdrv => hdrv) name
  | runner i m => exact judged_runnerStep h name
  | cancel cancelled =>
    cases h
    exact judged_of_eq (verdict_cancelProvision s cancelled) name
  | handover handed =>
    cases h
    exact judged_of_eq (verdict_cancelContext s handed) name
  | stop stopped =>
    cases h
    rw [verdict_invalidateStoragePhase,verdict_cancelProvision]
    split_ifs with hnm
    · exact .clear hnm.symm
    · exact .keep
  | invalidate mutated =>
    cases h
    rw [verdict_invalidateStoragePhase]
    split_ifs with hnm
    · exact .clear hnm.symm
    · exact .keep
  | shutdown =>
    cases h
    exact .keep
  | refresh statuses =>
    cases h
    exact .keep
  | beginProbe k running recent =>
    cases hk : s.refreshes k with
    | nil => simp [step,hk] at h
    | cons probed names =>
      simp only [step,hk] at h
      cases h
      change Judged s _ name ((s.beginStorageStatusProbe probed running recent).verdict name)
      rw [verdict_beginStorageStatusProbe]
      split_ifs with hprb
      · obtain ⟨rfl,hmay⟩ := hprb
        exact .ask rfl _ (mayProbe_not_failed hmay)
      · exact .keep
  | probed g answer running =>
    obtain ⟨probed,-,rfl⟩ := step_probed h
    rw [verdict_runStorageStatusProbe]
    split_ifs with hprb hlv
    · exact .live rfl (hprb.1 ▸ hprb.2)
    · exact .report rfl (hprb.1 ▸ hprb.2)
    · exact .keep

theorem Judged.sound {name : String} {v : Verdict} (h : Judged s m name v)
    (hs : (s.verdict name).Sound) : v.Sound := by
  cases h with
  | keep => exact hs
  | clear => exact Verdict.sound_cleared
  | begins => exact Verdict.sound_begun
  | record => exact Verdict.sound_record _ _
  | ask _ g h => exact ⟨hs.failure,fun _ => h⟩
  | report => exact ⟨hs.failure,fun h => by simp at h⟩
  | live => exact ⟨by simp,fun _ => by simp⟩

/-- A failed phase stays, but for an invalidation and a pass that records its result. -/
theorem Judged.leaves_failed {name : String} {v : Verdict}
    (h : Judged s m name v) (hs : (s.verdict name).Sound)
    (hbef : s.storagePhases name = some .failed) (haft : v.phase ≠ some .failed) :
    Invalidates s m name ∨ ∃ i t result rest, s.runners i = .ended t result rest ∧
      t.item.name = name ∧ t.drivesStorage ∧ s.current name t.generation := by
  have hprb : ∀ {g}, s.storageStatusProbes name ≠ some g := by
    intro g hg
    exact hs.probe (by simp [Sys.verdict,hg]) hbef
  cases h with
  | keep => exact absurd hbef haft
  | clear h => exact .inl h
  | begins h => exact .inl h
  | record _ hi hnm hdrv hcur => exact .inr ⟨_,_,_,_,hi,hnm,hdrv,hcur⟩
  | ask => exact absurd hbef haft
  | report _ h => exact absurd h hprb
  | live _ h => exact absurd h hprb

/-- Every task has a generation of its own, among those handed out. -/
structure Numbered (held : ℕ → List Task) (sequence : ℕ) : Prop where
  le_sequence : ∀ i, ∀ t ∈ held i, t.generation ≤ sequence
  nodup : ∀ i, ((held i).map Task.generation).Nodup
  apart : ∀ i j, i ≠ j → ∀ t ∈ held i, ∀ u ∈ held j, t.generation ≠ u.generation

theorem numbered_nil (sequence : ℕ) : Numbered (fun _ => []) sequence where
  le_sequence i t ht := by simp at ht
  nodup i := nodup_nil
  apart i j _ t ht := by simp at ht

theorem Numbered.sublist {held held' : ℕ → List Task} {sequence : ℕ} (h : Numbered held sequence)
    (hsub : ∀ i, (held' i).Sublist (held i)) : Numbered held' sequence where
  le_sequence i t ht := h.le_sequence i t ((hsub i).subset ht)
  nodup i := (h.nodup i).sublist ((hsub i).map _)
  apart i j hij t ht u hu := h.apart i j hij t ((hsub i).subset ht) u ((hsub j).subset hu)

theorem lt_of_mem_range' {tasks : List Task} {n k : ℕ}
    (htsk : tasks.map Task.generation = range' (n + 1) k) {t : Task} (ht : t ∈ tasks) :
    n < t.generation ∧ t.generation ≤ n + k := by
  have hmem : t.generation ∈ range' (n + 1) k := htsk ▸ mem_map_of_mem ht
  rw [mem_range'_1] at hmem
  omega

theorem Numbered.add {held : ℕ → List Task} {n k : ℕ} (h : Numbered held n) (i : ℕ)
    {tasks : List Task} (htsk : tasks.map Task.generation = range' (n + 1) k) :
    Numbered (update held i tasks) (n + k) := by
  have hmem : ∀ {j t}, t ∈ update held i tasks j →
      j = i ∧ t ∈ tasks ∨ j ≠ i ∧ t ∈ held j := by
    intro j t ht
    by_cases hj : j = i
    · subst hj
      exact .inl ⟨rfl,by simpa using ht⟩
    · exact .inr ⟨hj,by simpa [hj] using ht⟩
  refine ⟨fun j t ht => ?_,fun j => ?_,fun j j' hjj t ht u hu => ?_⟩
  · obtain ⟨-,ht⟩ | ⟨-,ht⟩ := hmem ht
    · exact (lt_of_mem_range' htsk ht).2
    · exact (h.le_sequence j t ht).trans (Nat.le_add_right _ _)
  · by_cases hj : j = i
    · subst hj
      simp only [update_self,htsk]
      exact nodup_range'
    · simpa [hj] using h.nodup j
  · obtain ⟨hj,ht⟩ | ⟨hj,ht⟩ := hmem ht
    · obtain ⟨hj',hu⟩ | ⟨-,hu⟩ := hmem hu
      · exact absurd (hj.trans hj'.symm) hjj
      · have hnew := (lt_of_mem_range' htsk ht).1
        have hold := h.le_sequence j' u hu
        omega
    · obtain ⟨-,hu⟩ | ⟨-,hu⟩ := hmem hu
      · have hnew := (lt_of_mem_range' htsk hu).1
        have hold := h.le_sequence j t ht
        omega
      · exact h.apart j j' hjj t ht u hu

theorem generations_beginProvisionTasks (skipStorage : Bool) (items : List Item) (s : Sys) :
    (s.beginProvisionTasks skipStorage items).2.map Task.generation =
        range' (s.sequence + 1) (s.beginProvisionTasks skipStorage items).2.length ∧
      (s.beginProvisionTasks skipStorage items).1.sequence =
        s.sequence + (s.beginProvisionTasks skipStorage items).2.length := by
  induction items generalizing s with
  | nil => exact ⟨rfl,rfl⟩
  | cons item items ih =>
    rw [Sys.beginProvisionTasks]
    split_ifs
    · obtain ⟨hgens,hseq⟩ := ih (s.beginProvision item skipStorage)
      have hnx := sequence_beginProvision s item skipStorage
      refine ⟨?_,?_⟩
      · simp only [map_cons,length_cons,hgens,hnx,range'_succ]
      · simp only [length_cons]
        omega
    · exact ih s

theorem mem_beginProvisionTasks {skipStorage : Bool} {items : List Item} {t : Task}
    (ht : t ∈ (s.beginProvisionTasks skipStorage items).2) :
    t.item ∈ items ∧ t.item.reconciles ∧ t.skipStorage = skipStorage := by
  induction items generalizing s with
  | nil => simp [Sys.beginProvisionTasks] at ht
  | cons item items ih =>
    rw [Sys.beginProvisionTasks] at ht
    split_ifs at ht with hrcn
    · obtain rfl | ht := mem_cons.1 ht
      · exact ⟨mem_cons_self,hrcn,rfl⟩
      · obtain ⟨hmem,hrs⟩ := ih ht
        exact ⟨mem_cons_of_mem _ hmem,hrs⟩
    · obtain ⟨hmem,hrs⟩ := ih ht
      exact ⟨mem_cons_of_mem _ hmem,hrs⟩

theorem drives_of_mem {skipStorage : Bool} {items : List Item} {t : Task}
    (ht : t ∈ (s.beginProvisionTasks skipStorage items).2) (hdrv : t.drivesStorage) :
    Drives skipStorage items t.item.name := by
  obtain ⟨hmem,hrcn,rfl⟩ := mem_beginProvisionTasks ht
  simp only [Task.drivesStorage,Bool.and_eq_true,Bool.not_eq_true'] at hdrv
  exact ⟨t.item,hmem,hrcn,rfl,hdrv⟩

section

variable (s : Sys)

theorem runners_beginProvision (item : Item) (skipStorage : Bool) :
    (s.beginProvision item skipStorage).runners = s.runners ∧
      (s.beginProvision item skipStorage).started = s.started := by
  unfold Sys.beginProvision Sys.cancelContext Sys.beginStorage
  split <;> split_ifs <;> exact ⟨rfl,rfl⟩

theorem runners_beginProvisionTasks (skipStorage : Bool) (items : List Item) :
    (s.beginProvisionTasks skipStorage items).1.runners = s.runners ∧
      (s.beginProvisionTasks skipStorage items).1.started = s.started := by
  induction items generalizing s with
  | nil => exact ⟨rfl,rfl⟩
  | cons item items ih =>
    rw [beginProvisionTasks_cons]
    split_ifs
    · obtain ⟨hrn,hstd⟩ := runners_beginProvision s item skipStorage
      obtain ⟨hrn',hstd'⟩ := ih (s.beginProvision item skipStorage)
      exact ⟨hrn'.trans hrn,hstd'.trans hstd⟩
    · exact ih s

theorem runners_provision (items : List Item) (skipStorage : Bool) :
    (s.provision items skipStorage).runners = update s.runners s.started
      (.retired false (s.beginProvisionTasks skipStorage items).2) := by
  obtain ⟨hrn,hstd⟩ := runners_beginProvisionTasks s skipStorage items
  change update (s.beginProvisionTasks skipStorage items).1.runners
    (s.beginProvisionTasks skipStorage items).1.started _ = _
  rw [hrn,hstd]

end

/-- Only a goroutine's own moves and the start of a new one change the goroutines. -/
theorem runners_step (h : step s m = some s') (hm : ¬ m.registers) :
    s'.runners = s.runners ∨ ∃ i r, m = .runner i r := by
  cases m with
  | provision items => exact (hm trivial).elim
  | bgp item => exact (hm trivial).elim
  | beginProbe k running recent =>
    obtain ⟨name,names,hk,-,-⟩ := step_beginProbe h
    simp only [step,hk] at h
    cases h
    unfold Sys.beginStorageStatusProbe
    split_ifs <;> exact .inl rfl
  | probed g answer running =>
    obtain ⟨name,-,rfl⟩ := step_probed h
    unfold Sys.runStorageStatusProbe
    by_cases hg : s.storageStatusProbes name = some g
    · cases answer <;> cases running <;>
        simp [hg,Sys.recordProbe,Sys.setProbeFailure,Sys.recordStoragePhase]
    · simp [hg]
  | _ => exact (Move.turned h trivial).imp_left Sys.Turned.runners

/-- Without a new pass no task comes back to a goroutine, and none becomes active. -/
theorem step_not_registers (h : step s m = some s') (hm : ¬ m.registers) :
    s'.sequence = s.sequence ∧
      (∀ name g, s'.current name g → s.current name g) ∧
      ∀ i, (s'.runners i).unrecorded.Sublist (s.runners i).unrecorded := by
  obtain ⟨hseq,hrw⟩ := step_sequence h hm
  refine ⟨hseq,fun name g hg => ?_,fun j => ?_⟩
  · obtain hsm | hno := hrw name
    · change s'.provisions name = s.provisions name at hsm
      simpa [Sys.current,hsm] using hg
    · change s'.provisions name = none at hno
      simp [Sys.current,hno] at hg
  · obtain hsm | ⟨i,r,rfl⟩ := runners_step h hm
    · rw [hsm]
    · obtain ⟨s₁,r',htn,rfl,hsub⟩ := runnerStep_turned h
      rw [Sys.enter,htn.runners]
      by_cases hj : j = i
      · subst hj
        simpa using hsub
      · simp [hj]

/-- What holds of the verdicts in every state of a run. -/
structure Judging (s : Sys) : Prop where
  sound : ∀ name, (s.verdict name).Sound
  numbered : Numbered (fun i => (s.runners i).unrecorded) s.sequence
  /-- No storage pass that is still the cluster's active one finds its storage failed. -/
  undecided : ∀ i, ∀ t ∈ (s.runners i).unrecorded, t.drivesStorage →
    s.current t.item.name t.generation → s.storagePhases t.item.name ≠ some .failed

theorem initial_judging : Judging initial where
  sound name := ⟨by simp [Sys.verdict,initial],fun h => by simp [Sys.verdict,initial] at h⟩
  numbered := numbered_nil 0
  undecided i t ht := by simp [initial,Runner.unrecorded] at ht

theorem current_unique {name : String} {g g' : ℕ} (h : s.current name g)
    (h' : s.current name g') : g = g' := by
  obtain ⟨p,hp,hg⟩ := Option.any_eq_true _ _ |>.1 h
  obtain ⟨p',hp',hg'⟩ := Option.any_eq_true _ _ |>.1 h'
  obtain rfl : p = p' := Option.some.inj (hp.symm.trans hp')
  exact (of_decide_eq_true hg).symm.trans (of_decide_eq_true hg')

theorem numbered_provision (h : Judging s) (items : List Item) (skipStorage : Bool) :
    Numbered (fun i => ((s.provision items skipStorage).runners i).unrecorded)
      (s.provision items skipStorage).sequence := by
  obtain ⟨hgens,hseq⟩ := generations_beginProvisionTasks skipStorage items s
  have hadd := h.numbered.add s.started hgens
  have hhl : (fun i => ((s.provision items skipStorage).runners i).unrecorded) =
      update (fun i => (s.runners i).unrecorded) s.started
        (s.beginProvisionTasks skipStorage items).2 := by
    funext i
    rw [runners_provision]
    by_cases hi : i = s.started
    · subst hi
      simp [Runner.unrecorded]
    · simp [hi]
  change Numbered _ (s.beginProvisionTasks skipStorage items).1.sequence
  rw [hhl,hseq]
  exact hadd

theorem undecided_provision (h : Judging s) (items : List Item) (skipStorage : Bool)
    (i : ℕ) (t : Task) (ht : t ∈ ((s.provision items skipStorage).runners i).unrecorded)
    (hdrv : t.drivesStorage)
    (hcur : (s.provision items skipStorage).current t.item.name t.generation) :
    (s.provision items skipStorage).storagePhases t.item.name ≠ some .failed := by
  rw [runners_provision] at ht
  by_cases hi : i = s.started
  · -- A task of the new goroutine: its cluster is at provisioning.
    subst hi
    simp only [update_self] at ht
    obtain ⟨hbgn,-⟩ | ⟨-,hnot⟩ := verdict_beginProvisionTasks s skipStorage items t.item.name
    · have hph : (s.provision items skipStorage).storagePhases t.item.name =
          some .provisioning := congrArg Verdict.phase hbgn
      rw [hph]
      nofun
    · exact absurd (drives_of_mem ht hdrv) hnot
  · -- An older task that is still active is of a cluster the new passes leave alone.
    simp only [update_of_ne hi] at ht
    have hold := h.numbered.le_sequence i t ht
    have hnot : ¬ Takes items t.item.name := by
      intro htakes
      obtain ⟨g,hg,hnew⟩ : ∃ g, s.sequence < g ∧
          ((s.beginProvisionTasks skipStorage items).1.row t.item.name).provision = some ⟨g,skipStorage⟩ :=
        provision_beginProvisionTasks_of_takes items s _ htakes
      have hnewest : (s.provision items skipStorage).current t.item.name g := by
        change Option.any _ ((s.provision items skipStorage).row t.item.name).provision
        change ((s.provision items skipStorage).row t.item.name).provision = _ at hnew
        simp [hnew]
      have hsm := current_unique hcur hnewest
      omega
    have hrow : (s.provision items skipStorage).row t.item.name = s.row t.item.name :=
      row_beginProvisionTasks_of_not_takes items s _ hnot
    have hph : (s.provision items skipStorage).storagePhases t.item.name =
        s.storagePhases t.item.name := congrArg Row.phase hrow
    have hprov : (s.provision items skipStorage).provisions t.item.name =
        s.provisions t.item.name := congrArg Row.provision hrow
    rw [hph]
    refine h.undecided i t ht hdrv ?_
    rwa [Sys.current,hprov] at hcur

theorem judging_provision (m : Move) (h : Judging s) (items : List Item)
    (skipStorage : Bool) (hst : step s m = some (s.provision items skipStorage)) :
    Judging (s.provision items skipStorage) where
  sound name := (step_judged hst name).sound (h.sound name)
  numbered := numbered_provision h items skipStorage
  undecided := undecided_provision h items skipStorage

/-- The goroutine is past its task then, so no other task of the cluster can be active. -/
theorem undecided_record (h : Judging s) {i j : ℕ} {t u : Task} {result : Result}
    {rest : List Task} (hj : s.runners j = .ended u result rest)
    (hst : step s (.runner j .record) = some s') (ht : t ∈ (s'.runners i).unrecorded) :
    t.generation ≠ u.generation := by
  have hunre : (s.runners j).unrecorded = u::rest := by rw [hj]; rfl
  simp only [step,runnerStep,hj,Option.some.injEq] at hst
  subst hst
  change t ∈ (update (s.recordResult u result).runners j _ i).unrecorded at ht
  rw [(turned_recordResult s u result).runners] at ht
  by_cases hi : i = j
  · subst hi
    simp only [update_self] at ht
    have hnd := h.numbered.nodup i
    simp only [hunre,map_cons,nodup_cons,mem_map,not_exists,not_and] at hnd
    exact hnd.1 t ht
  · simp only [update_of_ne hi] at ht
    refine h.numbered.apart i j hi t ht u ?_
    simp only [hunre]
    exact mem_cons_self

theorem Judging.step (h : Judging s) (hst : step s m = some s') :
    Judging s' := by
  by_cases hm : m.registers
  · cases m with
    | provision items =>
      cases hst
      exact judging_provision (.provision items) h items false rfl
    | bgp item =>
      cases hst
      exact judging_provision (.bgp item) h [item] _ rfl
    | _ => exact hm.elim
  · obtain ⟨hseq,hcur,hsub⟩ := step_not_registers hst hm
    refine ⟨fun name => (step_judged hst name).sound (h.sound name),
      hseq ▸ h.numbered.sublist hsub,fun i t ht hdrv hact hfa => ?_⟩
    have hbef := h.undecided i t ((hsub i).subset ht) hdrv (hcur _ _ hact)
    have hjudged := step_judged hst t.item.name
    have hph : (s'.verdict t.item.name).phase = some .failed := hfa
    generalize s'.verdict t.item.name = v at hjudged hph
    cases hjudged with
    | keep => exact hbef hph
    | clear => cases hph
    | begins => cases hph
    | record hrcd hj hnm _ hoth =>
      subst hrcd
      exact undecided_record h hj hst ht (current_unique (hcur _ _ hact) hoth)
    | ask => exact hbef hph
    | report => exact hbef hph
    | live => cases hph

lemma run_judging {moves : List Move} (hrun : run initial moves = some s) :
    Judging s :=
  StepRuns.run_invariant (fun _ _ _ h hst => h.step hst) initial_judging hrun

/-- A cluster has a storage failure on record exactly if its phase is failed, one with a probe out
is not failed, and whatever takes a cluster out of the failed phase invalidates it. -/
theorem failed_storage_is_terminal {moves : List Move} {s : Sys}
    (hrun : run initial moves = some s) :
    (∀ name, (s.storageFailures name).isSome = true ↔ s.storagePhases name = some .failed) ∧
      (∀ name, (s.storageStatusProbes name).isSome = true →
        s.storagePhases name ≠ some .failed) ∧
      ∀ m s' name, step s m = some s' → s.storagePhases name = some .failed →
        s'.storagePhases name ≠ some .failed → Invalidates s m name := by
  have h := run_judging hrun
  refine ⟨fun name => (h.sound name).failure,fun name => (h.sound name).probe,?_⟩
  intro m s' name hstep hbef haft
  obtain hinva | ⟨i,t,result,rest,hi,rfl,hdrv,hcur⟩ :=
    (step_judged hstep name).leaves_failed (h.sound name) hbef haft
  · exact hinva
  · -- A pass that is yet to record its result has found the cluster undecided.
    have hmem : t ∈ (s.runners i).unrecorded := by
      rw [hi]
      exact mem_cons_self
    exact absurd hbef (h.undecided i t hmem hdrv hcur)

/-- A create whose storage stage fails. -/
def failedCreate : List Move :=
  [.provision [ciliumLonghorn "a"],.runner 0 .next,
    .runner 0 (.ends (.ofError (.storage "longhorn is not ready"))),.runner 0 .record]

theorem failed_create_stays_until_stop : ∃ s s', run initial failedCreate = some s ∧
    s.storagePhases "a" = some .failed ∧ (s.storageFailures "a").isSome = true ∧
      s.storageStatusProbes "a" = none ∧ step s (.stop "a") = some s' ∧
      s'.storagePhases "a" = none ∧ Invalidates s (.stop "a") "a" := by
  have hend : ((run initial failedCreate).map fun s => s.storagePhases "a") =
      some (some .failed) := by
    decide +kernel
  obtain ⟨s,hrun,hph⟩ := Option.map_eq_some_iff.mp hend
  obtain ⟨hfailu,hprb,hleaves⟩ := failed_storage_is_terminal hrun
  have haft : ((s.cancelProvision "a").invalidateStoragePhase "a").storagePhases "a" = none := by
    simp [Sys.invalidateStoragePhase]
  refine ⟨s,_,hrun,hph,(hfailu "a").mpr hph,?_,rfl,haft,
    hleaves _ _ "a" rfl hph (by simp [haft])⟩
  exact Option.not_isSome_iff_eq_none.mp fun hsome => hprb "a" hsome hph

end TalosBox.StoragePasses
