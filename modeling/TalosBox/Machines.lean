import TalosBox.KeyedFold

/-! The machines the daemon tracks for one cluster by node name, and how they are
closed. -/
namespace TalosBox

/-- A tracked machine: its guest runs, or it only holds host resources. -/
inductive VM
  | active
  | inactive
  deriving DecidableEq

abbrev Machines := AList fun _ : String => VM

/-- How closing a tracked machine ended: `stopped` and `stuck` failed, with the guest down and with
the machine as it was. -/
inductive CloseResult
  | closed
  | stopped
  | stuck
  deriving DecidableEq

namespace Machines

/-- `clusterRunning`. -/
def anyRunning (ms : Machines) : Bool := ms.entries.any fun entry => entry.2 == .active

/-- `nodeRunning`. -/
def running (ms : Machines) (n : String) : Bool := ms.lookup n == some .active

/-- One machine of `closeNodes`: it leaves the map only when it closed. -/
def closeNode (r : String → CloseResult) (ms : Machines) (n : String) : Machines :=
  match ms.lookup n, r n with
  | none, _ => ms
  | some _, .closed => ms.erase n
  | some _, .stopped => ms.insert n .inactive
  | some _, .stuck => ms

def closeNodes (r : String → CloseResult) (ms : Machines) (names : List String) : Machines :=
  names.foldl (closeNode r) ms

/-- The nodes whose machine `closeNodes` reports. -/
def unclosed (r : String → CloseResult) (names : List String) : List String :=
  names.filter fun n => r n ≠ .closed

variable (r : String → CloseResult) (ms : Machines) {n m : String}

lemma running_iff : ms.running n ↔ ms.lookup n = some .active := by
  simp [running]

lemma mem_keys_of_lookup {vm : VM} (h : ms.lookup n = some vm) : n ∈ ms.keys :=
  AList.mem_keys.1 (AList.lookup_isSome.1 (by simp [h]))

theorem anyRunning_iff : ms.anyRunning ↔ ∃ n, ms.running n := by
  simp only [anyRunning,List.any_eq_true,beq_iff_eq,running_iff]
  constructor
  · rintro ⟨⟨n,vm⟩,hmem,rfl⟩
    exact ⟨n,AList.mem_lookup_iff.2 hmem⟩
  · rintro ⟨n,hn⟩
    exact ⟨⟨n,.active⟩,AList.mem_lookup_iff.1 hn,rfl⟩

theorem running_closeNode (h : (closeNode r ms n).running m) : ms.running m := by
  unfold closeNode at h
  split at h
  · exact h
  · by_cases hmn : m = n
    · subst hmn
      simp [running] at h
    · simpa [running,AList.lookup_erase_ne hmn] using h
  · by_cases hmn : m = n
    · subst hmn
      simp [running] at h
    · simpa [running,AList.lookup_insert_ne hmn] using h
  · exact h

theorem running_closeNodes (names : List String) :
    ∀ m, (closeNodes r ms names).running m → ms.running m := by
  refine KeyedFold.foldl_invariant
    (I := fun t : Machines => ∀ m, t.running m → ms.running m) ?_ fun _ h => h
  intro t n _ ht m hm
  exact ht m (running_closeNode r t hm)

theorem closeNode_closed (h : r n = .closed) : (closeNode r ms n).running n = false := by
  cases hn : ms.lookup n with
  | none => simp [closeNode,hn,running]
  | some vm => simp [closeNode,hn,h,running]

theorem running_closeNodes_of_closed {names : List String} (h : r n = .closed) (hn : n ∈ names) :
    (closeNodes r ms names).running n = false := by
  induction names generalizing ms with
  | nil => simp at hn
  | cons k names ih =>
    rcases List.mem_cons.1 hn with rfl | hn
    · refine Bool.eq_false_iff.2 fun hup => ?_
      have := running_closeNodes r _ names n hup
      simp [closeNode_closed r ms h] at this
    · exact ih (closeNode r ms k) hn

lemma closeNodes_closed {names : List String} (h : unclosed r names = []) (hn : n ∈ names) :
    (closeNodes r ms names).running n = false :=
  running_closeNodes_of_closed r ms (by simpa using List.filter_eq_nil_iff.1 h n hn) hn

/-- `Server.stop` on the tracked machines: none of them is left running if none failed. -/
theorem closeNodes_keys (h : unclosed r ms.keys = []) :
    (closeNodes r ms ms.keys).anyRunning = false := by
  refine Bool.eq_false_iff.2 fun hup => ?_
  obtain ⟨n,hn⟩ := (anyRunning_iff _).1 hup
  have hks := ms.mem_keys_of_lookup ((running_iff ms).1 (running_closeNodes r ms ms.keys n hn))
  simp [closeNodes_closed r ms h hks] at hn

end Machines
end TalosBox
