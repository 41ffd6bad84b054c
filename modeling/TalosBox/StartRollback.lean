import TalosBox.SavedMemory

/-! What a failed `start` leaves of the nodes it launched: whether their guests are down, and their
outrun saves gone or answered for. -/
namespace TalosBox.SavedState

variable (e : StartEnv) (c : Cluster)

/-- The nodes the call launched. -/
def launchedBy : List String :=
  if e.ready then (startNodes e c.members [] c).2.started else []

/-- The nodes the call's rollback tried to close. -/
def rolledBack : List String :=
  if e.ready then
    match (startNodes e c.members [] c).2 with
    | .launchFailed _ started => started
    | _ => []
  else []

/-- A guest it started runs on only if closing it failed, and a save it outran is gone or in the
error. -/
def UndoesLaunches : Prop :=
  (start e c).failure ≠ none → ∀ n ∈ launchedBy e c,
    ((start e c).cluster.nodeRunning n →
      n ∈ rolledBack e c ∧ e.rollback n ≠ .closed) ∧
    ((start e c).cluster.saves n = none ∨ (start e c).undiscarded n)

theorem startNodes_running (nodes : List String) :
    ∀ (started : List String) (c : Cluster), (∀ n ∈ started, c.nodeRunning n) →
      ∀ n ∈ (startNodes e nodes started c).2.started,
        (startNodes e nodes started c).1.nodeRunning n := by
  induction nodes with
  | nil => exact fun started c h => h
  | cons k nodes ih =>
    intro started c h
    unfold startNodes
    split
    · exact ih started c h
    · rename_i hil
      have hne : ∀ n ∈ started, n ≠ k := by
        rintro n hn rfl
        exact hil ((c.nodeRunning_iff n).1 (h n hn))
      split_ifs
      · exact h
      · apply ih
        intro n hn
        rcases List.mem_append.1 hn with hn | hn
        · simp [Cluster.launchMachine,h n hn]
        · simp [Cluster.launchMachine,List.mem_singleton.1 hn]
      · intro n hn
        rw [Cluster.nodeRunning_untrack,if_neg (hne n hn)]
        exact h n hn

variable {e c}

lemma nodeRunning_discardSavedStates {r : String → DiscardResult} {names : List String}
    {n : String} : (discardSavedStates r c names).nodeRunning n = c.nodeRunning n := by
  simp [Cluster.nodeRunning,vms_discardSavedStates]

theorem discarded_or_answered (r : String → DiscardResult) {names : List String} {n : String}
    (hn : n ∈ names) :
    (discardSavedStates r c names).saves n = none ∨ undiscarded r c names n := by
  rw [saves_discardSavedStates]
  cases hr : r n with
  | removed => simp [hn]
  | statFailed => simp [undiscarded,hn,hr]
  | removeFailed => cases hs : c.saves n <;> simp [undiscarded,hn,hr,hs]

/-- A launch that fails is rolled back: every guest is closed and its save discarded. -/
theorem undoesLaunches_of_launchFailed {k : String} {started : List String}
    (hrdy : e.ready)
    (hend : (startNodes e c.members [] c).2 = .launchFailed k started) : UndoesLaunches e c := by
  intro _ n hn
  rcases heq : startNodes e c.members [] c with ⟨d,ended⟩
  rw [heq] at hend
  obtain rfl : ended = .launchFailed k started := hend
  have hstd : n ∈ started := by simpa [launchedBy,hrdy,heq,StartEnd.started] using hn
  simp only [start,rolledBack,hrdy,heq,Bool.not_true,Bool.false_eq_true,if_false]
  refine ⟨fun hup => ⟨hstd,fun hcls => ?_⟩,discarded_or_answered e.discard hstd⟩
  rw [nodeRunning_discardSavedStates] at hup
  have hdo := Machines.running_closeNodes_of_closed e.rollback d.vms hcls hstd
  exact absurd (hdo.symm.trans hup) (by simp)

/-- A machine that cannot be released ends the call without a rollback. -/
theorem not_undoesLaunches_of_abandons (hrdy : e.ready) (h : abandons e c) :
    ¬UndoesLaunches e c := by
  intro hundoes
  have hrn := startNodes_running e c.members [] c (by simp)
  rcases heq : startNodes e c.members [] c with ⟨d,ended⟩
  simp only [abandons,heq] at h
  rw [heq] at hrn
  cases ended with
  | launched started => cases h
  | launchFailed k started => cases h
  | releaseFailed k started =>
    obtain ⟨n,hn⟩ := List.exists_mem_of_ne_nil started (by simpa using h)
    have hstr : start e c = .fail d (.releaseInactive k) := by simp [start,hrdy,heq]
    have hlaun : n ∈ launchedBy e c := by
      simpa [launchedBy,hrdy,heq,StartEnd.started] using hn
    have hup : (start e c).cluster.nodeRunning n := by
      rw [hstr]
      exact hrn n hn
    have hclo := ((hundoes (by simp [hstr,Outcome.fail]) n hlaun).1 hup).1
    simp [rolledBack,heq] at hclo

/-- `"a"` was suspended; of `"b"` an inactive machine is tracked. -/
def halfTracked : Cluster :=
  ⟨["a","b"],(∅ : Machines).insert "b" .inactive,
    fun n => if n = "a" then some .fresh else none⟩

/-- A host that launches every guest and cannot close a machine that is inactive. -/
def stuckRelease : StartEnv :=
  ⟨true,fun _ => false,fun _ => true,fun _ => .closed,fun _ => .removed⟩

end TalosBox.SavedState
