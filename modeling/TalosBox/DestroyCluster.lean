import TalosBox.SuspendResume

/-! The daemon over all clusters: their directories, the machines under each cluster name, and the
destruction of a cluster. -/
namespace TalosBox.Daemon

open Function (update)
open SavedState

/-- The `cluster.json` of a cluster directory. -/
inductive StateFile
  | missing
  | undecodable
  | item (name : String) (nodes : List String)

structure Directory where
  state : StateFile
  saves : String → Option Save

/-- Directories are keyed by what a name resolves to on the file system, machines by the name in the
state file. -/
structure State where
  dirs : String → Option Directory
  vms : String → Machines

/-- `filepath.Base`. -/
def base (path : String) : String :=
  if path = "" then "."
  else
    let last := ((path.toList.reverse.dropWhile (· = '/')).takeWhile (· ≠ '/')).reverse
    if last = [] then "/" else String.ofList last

def validName (name : String) : Bool :=
  name ≠ "" && base name = name && name ≠ "." && name ≠ ".."

-- a name of slashes only is its own base, and it names the directory of all clusters
example : validName "/" := by decide

variable (resolve : String → String)

/-- Whether removing what `name` resolves to takes the directory of `key` with it. -/
def goesWith (name key : String) : Bool := name = "/" || key = resolve name

/-- `cluster.Load`: the name and the nodes the state file records. -/
def load (d : State) (name : String) : Option (String × List String) :=
  if !validName name then none
  else match d.dirs (resolve name) with
    | some ⟨.item key nodes,_⟩ => some (key,nodes)
    | _ => none

section

/-- `os.RemoveAll`, which may give up with part of the tree gone. -/
inductive Removal
  | all
  | failed (left : Option (String → Option Directory))

structure DestroyEnv where
  force : Bool
  close : String → CloseResult
  removal : Removal

inductive DestroyFailure
  | notForced
  | invalidName
  | missing
  | stopVM (nodes : List String)
  | removeAll

/-- `removed` holds if anything under the directory is gone. -/
structure DestroyResult where
  state : State
  failure : Option DestroyFailure
  removed : Bool

/-- `cluster.Destroy`. -/
def destroy (d : State) (name : String) : Removal → DestroyResult
  | .all => ⟨{ d with dirs := fun k => if goesWith resolve name k then none else d.dirs k },none,
      true⟩
  | .failed none => ⟨d,some .removeAll,false⟩
  | .failed (some left) =>
    ⟨{ d with dirs := fun k => if goesWith resolve name k then left k else d.dirs k },
      some .removeAll,true⟩

/-- `Server.stop`: the machines tracked under the name as given. -/
def stop (d : State) (name : String) (r : String → CloseResult) : State :=
  { d with vms := update d.vms name ((d.vms name).closeNodes r (d.vms name).keys) }

/-- The machines are stopped only if the state file loads. -/
def destroyCluster (d : State) (name : String) (e : DestroyEnv) : DestroyResult :=
  if !e.force then ⟨d,some .notForced,false⟩
  else if !validName name then ⟨d,some .invalidName,false⟩
  else if (d.dirs (resolve name)).isNone then ⟨d,some .missing,false⟩
  else if (load resolve d name).isSome then
    let failed := Machines.unclosed e.close (d.vms name).keys
    if failed ≠ [] then ⟨stop d name e.close,some (.stopVM failed),false⟩
    else destroy resolve (stop d name e.close) name e.removal
  else destroy resolve d name e.removal

end

/-- A request, or somebody else's change to a state file. -/
inductive Request
  | create (name : String) (nodes : List String) (e : StartEnv)
  | cluster (name : String) (op : Op)
  | edit (key : String) (state : StateFile)
  | destroy (name : String) (e : DestroyEnv)

/-- Serves an operation on the cluster the name loads. -/
def serveCluster (d : State) (name : String) (op : Op) : State :=
  match load resolve d name, d.dirs (resolve name) with
  | some (key,nodes), some dir =>
    let c := step ⟨nodes,d.vms key,dir.saves⟩ op
    { dirs := update d.dirs (resolve name) (some ⟨.item key c.members,c.saves⟩)
      vms := update d.vms key c.vms }
  | _, _ => d

def serve (d : State) : Request → State
  | .create name nodes e =>
    if !validName name || (d.dirs (resolve name)).isSome then d
    else
      let dir : Directory := ⟨.item name nodes,fun _ => none⟩
      serveCluster resolve { d with dirs := update d.dirs (resolve name) (some dir) } name
        (.start e true true)
  | .cluster name op => serveCluster resolve d name op
  | .edit key state =>
    { d with dirs := update d.dirs key ((d.dirs key).map fun dir => ⟨state,dir.saves⟩) }
  | .destroy name e => (destroyCluster resolve d name e).state

/-- A daemon just started, with no cluster in the directory of all clusters. -/
def initial : State :=
  ⟨fun k => if k = resolve "/" then some ⟨.missing,fun _ => none⟩ else none,fun _ => ∅⟩

def run (requests : List Request) : State := requests.foldl (serve resolve) (initial resolve)

section

variable (d : State) (name : String) (e : DestroyEnv)

/-- If the destroy removed anything, no machine of a cluster that went with it runs. -/
def LeavesNothingRunning : Prop :=
  (destroyCluster resolve d name e).removed →
    ∀ k, goesWith resolve name (resolve k) →
      ((destroyCluster resolve d name e).state.vms k).anyRunning = false

/-- The destroy gets to the removal, and something is removed. -/
structure Removes : Prop where
  force : e.force
  valid : validName name
  present : (d.dirs (resolve name)).isNone = false
  stopped : (load resolve d name).isSome →
    Machines.unclosed e.close (d.vms name).keys = []
  removal : e.removal ≠ .failed none

/-- A machine of the directory runs that the destroy does not look at: the state does not load, or
the name is spelt otherwise. -/
def Overlooks : Prop :=
  ∃ k, goesWith resolve name (resolve k) ∧ (d.vms k).anyRunning ∧
    (k = name → (load resolve d name).isSome = false)

lemma removed_destroy (r : Removal) :
    (destroy resolve d name r).removed ↔ r ≠ .failed none := by
  rcases r with _ | _ | left <;> simp [destroy]

lemma vms_destroy (r : Removal) : (destroy resolve d name r).state.vms = d.vms := by
  rcases r with _ | _ | left <;> rfl

theorem removes_of_removed (h : (destroyCluster resolve d name e).removed) :
    Removes resolve d name e := by
  simp only [destroyCluster] at h
  split_ifs at h with hforce hval hdir hlo hfa
  · exact ⟨by simpa using hforce,by simpa using hval,Bool.eq_false_iff.2 hdir,
      fun _ => not_not.1 hfa,(removed_destroy resolve _ name _).1 h⟩
  · exact ⟨by simpa using hforce,by simpa using hval,Bool.eq_false_iff.2 hdir,
      fun hl => absurd hl hlo,(removed_destroy resolve _ name _).1 h⟩

variable {resolve d name e}

theorem Removes.destroyCluster_eq (h : Removes resolve d name e) :
    destroyCluster resolve d name e =
      destroy resolve (if (load resolve d name).isSome then stop d name e.close else d) name
        e.removal := by
  simp only [destroyCluster,h.force,h.valid,h.present,Bool.not_true,Bool.false_eq_true,if_false]
  split_ifs with hlo hfa
  · exact absurd (h.stopped hlo) hfa
  · rfl
  · rfl

theorem Removes.removed (h : Removes resolve d name e) :
    (destroyCluster resolve d name e).removed := by
  rw [h.destroyCluster_eq]
  exact (removed_destroy resolve _ name _).2 h.removal

theorem Removes.vms (h : Removes resolve d name e) (k : String) :
    (destroyCluster resolve d name e).state.vms k =
      if (load resolve d name).isSome ∧ k = name then
        (d.vms name).closeNodes e.close (d.vms name).keys
      else d.vms k := by
  rw [h.destroyCluster_eq,vms_destroy]
  cases hlo : (load resolve d name).isSome with
  | false => simp
  | true => by_cases hk : k = name <;> simp [stop,hk]

variable (resolve d name e)

/-- A destroy leaves nothing of the directory running exactly if it overlooks no machine. -/
theorem destroyCluster_leaves_nothing_running_iff :
    LeavesNothingRunning resolve d name e ↔
      ¬ (Removes resolve d name e ∧ Overlooks resolve d name) := by
  constructor
  · rintro h ⟨hr,k,hk,hrun,hover⟩
    have hdown := h hr.removed k hk
    rw [hr.vms,if_neg] at hdown
    · simp [hdown] at hrun
    · rintro ⟨hload,rfl⟩
      simp [hover rfl] at hload
  · intro h hrmd k hk
    have hr := removes_of_removed resolve d name e hrmd
    rw [hr.vms]
    split_ifs with hstop
    · exact (d.vms name).closeNodes_keys e.close (hr.stopped hstop.1)
    · refine Bool.eq_false_iff.mpr fun hrun => h ⟨hr,k,hk,hrun,fun heq => ?_⟩
      exact Bool.eq_false_iff.mpr fun hload => hstop ⟨hload,heq⟩

end

/-- A file system on which `Demo` and `demo` are one directory. -/
def caseInsensitive (name : String) : String := String.ofList (name.toList.map Char.toLower)

def smoothStart : StartEnv :=
  ⟨true,fun _ => true,fun _ => true,fun _ => .closed,fun _ => .removed⟩

def forcedDestroy : DestroyEnv := ⟨true,fun _ => .closed,.all⟩

/-- `demo` is created and its node runs. -/
def demoRunning : State := run caseInsensitive [.create "demo" ["cp-1"] smoothStart]

/-- After that its state file is damaged. -/
def demoUnreadable : State :=
  run caseInsensitive [.create "demo" ["cp-1"] smoothStart,.edit "demo" .undecodable]

/-- The node runs on after its directory was destroyed as `Demo`, and as `demo` with an unreadable
state. -/
theorem destroyed_cluster_keeps_running :
    ¬ LeavesNothingRunning caseInsensitive demoRunning "Demo" forcedDestroy ∧
      ¬ LeavesNothingRunning caseInsensitive demoUnreadable "demo" forcedDestroy := by
  constructor
  · intro h
    have hdown := h (by decide) "demo" (by decide)
    revert hdown
    decide
  · intro h
    have hdown := h (by decide) "demo" (by decide)
    revert hdown
    decide

end TalosBox.Daemon
