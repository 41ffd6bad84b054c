import TalosBox.Machines

/-! The operations on the saved memory of one cluster: suspend, resume, start, node start, stop,
node stop and snapshot restore. What hypervisor and file system answer is an argument. -/
namespace TalosBox.SavedState

/-- A saved-memory file: what has happened to the node since it was written. -/
structure Save where
  /-- The VM has run, or its disk has been replaced. -/
  stale : Bool
  /-- After that an operation answered that this save could not be discarded. -/
  warned : Bool
  /-- After that a resume which had launched the VM was rolled back. -/
  retried : Bool
  deriving DecidableEq

namespace Save

def fresh : Save := ⟨false,false,false⟩

def outrun (s : Save) : Save := { s with stale := true }

def warn (s : Save) : Save := { s with warned := s.warned || s.stale }

def retry (s : Save) : Save := { s with retried := s.retried || s.stale }

end Save

structure Cluster where
  members : List String
  vms : Machines
  saves : String → Option Save

/-- Why an operation failed. -/
inductive Failure
  | unreadable
  | refused
  | notRunning
  | alreadyRunning
  | noSuchNode (node : String)
  | suspend (nodes : List String)
  | resume (node : String)
  | releaseInactive (node : String)
  | createVM (node : String)
  | stopVM (nodes : List String)
  | restore
  | restart
  deriving DecidableEq

/-- `undiscarded`: the answer, a warning or the error, says the node's save could not be discarded.
-/
structure Outcome where
  cluster : Cluster
  failure : Option Failure
  undiscarded : String → Bool

namespace Outcome

def ok (c : Cluster) : Outcome := ⟨c,none,fun _ => false⟩

def fail (c : Cluster) (f : Failure) : Outcome := ⟨c,some f,fun _ => false⟩

end Outcome

namespace Cluster

def clusterRunning (c : Cluster) : Bool := c.vms.anyRunning

def nodeRunning (c : Cluster) (n : String) : Bool := c.vms.running n

def track (c : Cluster) (n : String) (vm : VM) : Cluster :=
  { c with vms := c.vms.insert n vm }

def untrack (c : Cluster) (n : String) : Cluster :=
  { c with vms := c.vms.erase n }

def setSave (c : Cluster) (n : String) (s : Option Save) : Cluster :=
  { c with saves := Function.update c.saves n s }

/-- Records on the saves of some nodes what has happened to them. -/
def mark (c : Cluster) (p : String → Bool) (f : Save → Save) : Cluster :=
  { c with saves := fun n => if p n then (c.saves n).map f else c.saves n }

/-- A launch that succeeded: the guest runs, whatever was saved of it before. -/
def launchMachine (c : Cluster) (n : String) : Cluster :=
  (c.track n .active).setSave n ((c.saves n).map Save.outrun)

variable (c : Cluster) (n m : String)

@[simp] lemma saves_track (vm : VM) : (c.track n vm).saves = c.saves := rfl

@[simp] lemma saves_untrack : (c.untrack n).saves = c.saves := rfl

@[simp] lemma vms_setSave (s : Option Save) : (c.setSave n s).vms = c.vms := rfl

@[simp] lemma saves_mark (p : String → Bool) (f : Save → Save) :
    (c.mark p f).saves n = if p n then (c.saves n).map f else c.saves n := rfl

@[simp] lemma saves_setSave (s : Option Save) :
    (c.setSave n s).saves m = if m = n then s else c.saves m := by
  simp [setSave,Function.update_apply]

@[simp] lemma nodeRunning_setSave (s : Option Save) :
    (c.setSave n s).nodeRunning m = c.nodeRunning m := rfl

@[simp] lemma nodeRunning_mark (p : String → Bool) (f : Save → Save) :
    (c.mark p f).nodeRunning m = c.nodeRunning m := rfl

theorem lookup_track (vm : VM) :
    (c.track n vm).vms.lookup m = if m = n then some vm else c.vms.lookup m := by
  by_cases h : m = n
  · subst h
    simp [track]
  · simp [track,h]

theorem lookup_untrack :
    (c.untrack n).vms.lookup m = if m = n then none else c.vms.lookup m := by
  by_cases h : m = n
  · subst h
    simp [untrack]
  · simp [untrack,h]

@[simp] lemma nodeRunning_track (vm : VM) :
    (c.track n vm).nodeRunning m = if m = n then vm == .active else c.nodeRunning m := by
  by_cases h : m = n <;> simp [nodeRunning,Machines.running,lookup_track,h]

@[simp] lemma nodeRunning_untrack :
    (c.untrack n).nodeRunning m = if m = n then false else c.nodeRunning m := by
  by_cases h : m = n <;> simp [nodeRunning,Machines.running,lookup_untrack,h]

lemma nodeRunning_iff : c.nodeRunning n ↔ c.vms.lookup n = some .active :=
  c.vms.running_iff

end Cluster

def closeNodes (r : String → CloseResult) (c : Cluster) (names : List String) : Cluster :=
  { c with vms := c.vms.closeNodes r names }

@[simp] lemma saves_closeNodes (r : String → CloseResult) (c : Cluster) (names : List String) :
    (closeNodes r c names).saves = c.saves := rfl

/-- How a save was discarded; a missing one is no failure unless the file system cannot tell. -/
inductive DiscardResult
  | removed
  | statFailed
  | removeFailed
  deriving DecidableEq

def discardSavedState (r : String → DiscardResult) (c : Cluster) (n : String) : Cluster :=
  if r n = .removed then c.setSave n none else c

def discardSavedStates (r : String → DiscardResult) (c : Cluster) (names : List String) :
    Cluster :=
  names.foldl (discardSavedState r) c

/-- The nodes named by `undiscardedSaveStateWarning`. -/
def undiscarded (r : String → DiscardResult) (c : Cluster) (names : List String)
    (n : String) : Bool :=
  n ∈ names && match r n with
    | .removed => false
    | .statFailed => true
    | .removeFailed => (c.saves n).isSome

section

/-- A failure may leave a file at the save path, and the guest may have run on since. -/
inductive SuspendResult
  | saved
  | failed (left : Option Bool)
  deriving DecidableEq

structure SuspendEnv where
  /-- `cluster.Load`. -/
  loads : Bool
  /-- The backend resolves and can suspend, and the cluster directory resolves. -/
  suspendable : Bool
  suspend : String → SuspendResult
  stop : String → Bool
  close : String → CloseResult
  /-- `recordSaveStateBalloon`. -/
  marker : String → Bool
  /-- `os.Remove` of the save path. -/
  remove : String → Bool

variable (e : SuspendEnv)

/-- `Machine.Suspend`: an inactive machine is refused before any file is touched. -/
def suspendMachine (c : Cluster) (n : String) : VM → Cluster × Bool
  | .inactive => (c,false)
  | .active =>
    match e.suspend n with
    | .saved => (c.setSave n (some .fresh),true)
    | .failed none => (c,false)
    | .failed (some ran) => (c.setSave n (some ⟨ran,false,false⟩),false)

/-- Answers the cluster, whether to retain the machine and whether it was saved. -/
def prepareSavedMachine (c : Cluster) (n : String) (vm : VM) : Cluster × Bool × Bool :=
  match suspendMachine e c n vm with
  | (c,false) =>
    match e.close n with
    | .closed => (c.track n .inactive,false,false)
    | .stopped => (c.track n .inactive,true,false)
    | .stuck => (c,true,false)
  | (c,true) =>
    if e.stop n then (c.track n .inactive,true,true)
    else match e.close n with
      | .stuck => (c,true,false)
      | _ => (c.track n .inactive,true,false)

/-- One turn of the suspend loop. -/
def suspendNode (c : Cluster) (n : String) : Cluster :=
  match c.vms.lookup n with
  | none => c
  | some vm =>
    match prepareSavedMachine e c n vm with
    | (c,retain,saved) =>
      if saved ∧ e.marker n then c
      else
        -- no partial save left behind; a failed removal is ignored
        let c := if e.remove n then c.setSave n none else c
        if retain ∨ saved then c else c.untrack n

/-- Whether the loop's turn for `n` adds no error. -/
def suspends (c : Cluster) (n : String) : Bool :=
  c.nodeRunning n && e.suspend n = .saved && e.stop n && e.marker n

/-- The loop ranges over every tracked machine, whether its guest runs or not. -/
def suspendCluster (c : Cluster) : Outcome :=
  if !e.loads then .fail c .unreadable
  else if !c.clusterRunning then .fail c .notRunning
  else if !e.suspendable then .fail c .refused
  else
    let failed := c.vms.keys.filter fun n => !suspends e c n
    let c := c.vms.keys.foldl (suspendNode e) c
    if failed = [] then .ok c else .fail c (.suspend failed)

end

section

structure ResumeEnv where
  loads : Bool
  /-- The helper is synced, the memory gates let the cluster in, the subnet is readable. -/
  admitted : Bool
  launch : String → Bool
  rollback : String → CloseResult
  /-- `os.Remove` in `removeSaveStateFiles`. -/
  remove : String → Bool

variable (e : ResumeEnv)

/-- The batch up to its first failure: the nodes attempted, and the one that failed. -/
def resumeNodes : List String → List String → Cluster → Cluster × List String × Option String
  | [], attempted, c => (c,attempted,none)
  | n::rest, attempted, c =>
    if e.launch n then resumeNodes rest (attempted++[n]) ((c.untrack n).launchMachine n)
    else (c.untrack n,attempted,some n)

/-- Commits a resume. A removal that fails is ignored and not answered. -/
def removeSaveStateFiles (c : Cluster) (names : List String) : Cluster :=
  names.foldl (fun c n => if e.remove n then c.setSave n none else c) c

def resumeCluster (c : Cluster) : Outcome :=
  if !e.loads then .fail c .unreadable
  else if c.clusterRunning then .fail c .alreadyRunning
  else if !e.admitted then .fail c .refused
  else match resumeNodes e c.members [] c with
    | (c,attempted,none) => .ok (removeSaveStateFiles e c attempted)
    | (c,attempted,some n) =>
      -- the saves of the nodes it had launched stay for the next attempt
      .fail ((closeNodes e.rollback c attempted).mark (· ∈ attempted) Save.retry) (.resume n)

end

section

structure StartEnv where
  /-- The helper is synced, the subnet is readable, the cluster directory resolves. -/
  ready : Bool
  /-- `Close` of an inactive machine. -/
  release : String → Bool
  launch : String → Bool
  rollback : String → CloseResult
  discard : String → DiscardResult

/-- How the launch loop of `start` ended, with the nodes it launched. -/
inductive StartEnd
  | launched (started : List String)
  | releaseFailed (node : String) (started : List String)
  | launchFailed (node : String) (started : List String)
  deriving DecidableEq

namespace StartEnd

def started : StartEnd → List String
  | launched started => started
  | releaseFailed _ started => started
  | launchFailed _ started => started

end StartEnd

variable (e : StartEnv)

def startNodes : List String → List String → Cluster → Cluster × StartEnd
  | [], started, c => (c,.launched started)
  | n::rest, started, c =>
    match c.vms.lookup n with
    | some .active => startNodes rest started c
    | existing =>
      if existing = some .inactive ∧ !e.release n then (c,.releaseFailed n started)
      else if e.launch n then startNodes rest (started++[n]) ((c.untrack n).launchMachine n)
      else (c.untrack n,.launchFailed n started)

/-- A machine that cannot be released ends the start: nothing is rolled back, no save discarded. -/
def start (c : Cluster) : Outcome :=
  if !e.ready then .fail c .refused
  else match startNodes e c.members [] c with
    | (c,.launched started) =>
      ⟨discardSavedStates e.discard c started,none,undiscarded e.discard c started⟩
    | (c,.launchFailed n started) =>
      let c := closeNodes e.rollback c started
      ⟨discardSavedStates e.discard c started,some (.createVM n),
        undiscarded e.discard c started⟩
    | (c,.releaseFailed n _) => .fail c (.releaseInactive n)

/-- The command: the state file loads and the memory gates let the cluster in. -/
def startCluster (loads admitted : Bool) (c : Cluster) : Outcome :=
  if !loads then .fail c .unreadable
  else if !admitted then .fail c .refused
  else start e c

/-- `node.start`; `admitted` stands for its memory gates and directory look-ups. -/
def startNodeLocked (loads admitted : Bool) (c : Cluster) (n : String) : Outcome :=
  if !loads then .fail c .unreadable
  else if n ∉ c.members then .fail c (.noSuchNode n)
  else if c.nodeRunning n then .ok c
  else if !admitted then .fail c .refused
  else if (c.vms.lookup n).isSome ∧ !e.release n then .fail c (.releaseInactive n)
  else if e.launch n then
    let c := (c.untrack n).launchMachine n
    ⟨discardSavedState e.discard c n,none,undiscarded e.discard c [n]⟩
  else .fail (c.untrack n) (.createVM n)

end

/-- `Server.stop`: every tracked machine, whether its guest runs or not. -/
def stop (r : String → CloseResult) (c : Cluster) : Outcome :=
  let failed := Machines.unclosed r c.vms.keys
  let c := closeNodes r c c.vms.keys
  if failed = [] then .ok c else .fail c (.stopVM failed)

def stopNodeLocked (loads : Bool) (r : String → CloseResult) (c : Cluster) (n : String) :
    Outcome :=
  if !loads then .fail c .unreadable
  else if n ∉ c.members then .fail c (.noSuchNode n)
  else if !c.nodeRunning n then .ok c
  else if r n = .closed then .ok (closeNodes r c [n])
  else .fail (closeNodes r c [n]) (.stopVM [n])

section

/-- Every disk and the node set are the snapshot's, or the listed disks were replaced before it
failed. -/
inductive RestoreResult
  | done (members : List String)
  | failed (replaced : List String)

structure RestoreEnv where
  loads : Bool
  stop : String → CloseResult
  restore : RestoreResult
  /-- `os.Remove` in `discardClusterSavedStates`. -/
  remove : String → Bool
  /-- `cluster.Load` before the restart. -/
  reloads : Bool
  start : StartEnv

variable (e : RestoreEnv)

/-- `discardClusterSavedStates`: every save in the directory, whoever's it is. -/
def discardClusterSavedStates (c : Cluster) : Cluster :=
  { c with saves := fun n => if e.remove n then none else c.saves n }

/-- A restore that succeeds replaces or deletes every disk; one that fails discards nothing. -/
def restoreBody (c : Cluster) : Cluster :=
  match e.restore with
  | .done members =>
    discardClusterSavedStates e { c.mark (fun _ => true) Save.outrun with members := members }
  | .failed replaced => c.mark (· ∈ replaced) Save.outrun

/-- The saves `discardClusterSavedStates` warns about. -/
def survives (c : Cluster) (n : String) : Bool := !e.remove n && (c.saves n).isSome

def restart (c : Cluster) : Outcome :=
  if !e.reloads then .fail c .unreadable else start e.start c

/-- The cluster is brought back whatever the restore did; warnings are answered only if neither
failed. -/
def restoreStopped (c : Cluster) : Outcome :=
  let back := restart e (restoreBody e c)
  match e.restore, back.failure with
  | .done _, none => ⟨back.cluster,none,fun n => survives e c n || back.undiscarded n⟩
  | .done _, some _ => ⟨back.cluster,some .restart,back.undiscarded⟩
  | .failed _, none => .fail back.cluster .restore
  | .failed _, some _ => ⟨back.cluster,some .restore,back.undiscarded⟩

def snapshotRestore (c : Cluster) : Outcome :=
  if !e.loads then .fail c .unreadable
  else if c.clusterRunning then
    let stopped := stop e.stop c
    if stopped.failure.isSome then stopped else restoreStopped e stopped.cluster
  else restoreStopped e c

end

/-- A request on the cluster together with what the host answers while it is served. -/
inductive Op
  | suspend (e : SuspendEnv)
  | resume (e : ResumeEnv)
  | start (e : StartEnv) (loads admitted : Bool)
  | startNode (e : StartEnv) (loads admitted : Bool) (n : String)
  | stop (r : String → CloseResult)
  | stopNode (r : String → CloseResult) (loads : Bool) (n : String)
  | restore (e : RestoreEnv)

def Op.exec (c : Cluster) : Op → Outcome
  | suspend e => suspendCluster e c
  | resume e => resumeCluster e c
  | start e loads admitted => startCluster e loads admitted c
  | startNode e loads admitted n => startNodeLocked e loads admitted c n
  | stop r => SavedState.stop r c
  | stopNode r loads n => stopNodeLocked loads r c n
  | restore e => snapshotRestore e c

/-- The answer is on record with the saves it names, and by the next request every active guest has
run. -/
def step (c : Cluster) (op : Op) : Cluster :=
  let o := op.exec c
  (o.cluster.mark o.undiscarded Save.warn).mark o.cluster.nodeRunning Save.outrun

def run (c : Cluster) (ops : List Op) : Cluster := ops.foldl step c

end TalosBox.SavedState
