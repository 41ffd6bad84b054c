import TalosBox.StepRuns

/-! What the daemon records of its provisioning passes: a cluster's active pass, whose context is
cancelled, what it waits for and how far its storage has come. Every move is one hold of the
operation lock, or a goroutine's step outside it; the answers of clock, machines and probes come
with it. -/
namespace TalosBox.StoragePasses

open Function (update)

inductive CNI
  | none
  | flannel
  | cilium
  deriving DecidableEq

inductive CSI
  | none
  | localPath
  | longhorn
  deriving DecidableEq

structure Item where
  name : String
  cni : CNI
  csi : CSI
  deriving DecidableEq

/-- Only the curated network plugins are reconciled. -/
def Item.reconciles (item : Item) : Bool := item.cni ≠ .none

def Item.stores (item : Item) : Bool := item.csi ≠ .none

inductive StoragePhase
  | provisioning
  | live
  | failed
  deriving DecidableEq

/-- An `activeProvision`. -/
structure Pass where
  generation : ℕ
  skipStorage : Bool
  deriving DecidableEq

structure Blocker where
  gate : String
  message : String
  /-- The pass that recorded the entry. No code reads it. -/
  generation : ℕ
  deriving DecidableEq

structure ProbeFailure where
  message : String
  pending : Bool
  deriving DecidableEq

structure Task where
  item : Item
  generation : ℕ
  skipStorage : Bool
  deriving DecidableEq

/-- Whether the pass drives storage. -/
def Task.drivesStorage (t : Task) : Bool := t.item.stores && !t.skipStorage

/-- Why a pass failed: in the storage stage, or before it. -/
inductive PassError
  | storage (message : String)
  | other
  deriving DecidableEq

/-- What `provisionCNI` returns. It is the error that says that storage failed, never the phase. -/
structure Result where
  error : Option PassError
  phase : Option StoragePhase
  unfailed : phase ≠ some .failed
  deriving DecidableEq

lemma none_unfailed : (none : Option StoragePhase) ≠ some .failed := nofun

/-- What it returns with an error. -/
def Result.ofError (error : PassError) : Result := ⟨some error,none,none_unfailed⟩

/-- How far a `runProvisionTasks` has come. -/
inductive Runner
  | idle
  | working (task : Task) (rest : List Task)
  /-- The pass has returned and nothing is recorded of it yet. -/
  | ended (task : Task) (result : Result) (rest : List Task)
  | recorded (task : Task) (failed : Bool) (rest : List Task)
  /-- The pass is off the register and its waiters are released. -/
  | retired (failed : Bool) (rest : List Task)
  | returned
  deriving DecidableEq

structure Sys where
  /-- `provisionSequence`. -/
  sequence : ℕ
  provisions : String → Option Pass
  /-- The passes whose context is cancelled, by generation. -/
  cancelled : ℕ → Bool
  provisionBlockers : String → Option Blocker
  storagePhases : String → Option StoragePhase
  storageFailures : String → Option String
  storageProbeFailures : String → Option ProbeFailure
  storageProbeSequence : ℕ
  storageStatusProbes : String → Option ℕ
  /-- Passes, status refreshes with the clusters left to probe, and probes by generation. -/
  runners : ℕ → Runner
  started : ℕ
  refreshes : ℕ → List String
  refreshed : ℕ
  probing : ℕ → Option String
  /-- A cluster's storage pass neither recorded, superseded, cancelled nor invalidated. No code
  reads it. -/
  storagePass : String → Option ℕ

def initial : Sys where
  sequence := 0
  provisions := fun _ => none
  cancelled := fun _ => false
  provisionBlockers := fun _ => none
  storagePhases := fun _ => none
  storageFailures := fun _ => none
  storageProbeFailures := fun _ => none
  storageProbeSequence := 0
  storageStatusProbes := fun _ => none
  runners := fun _ => .idle
  started := 0
  refreshes := fun _ => []
  refreshed := 0
  probing := fun _ => none
  storagePass := fun _ => none

namespace Sys

/-- The pass is the cluster's active one. -/
def current (s : Sys) (name : String) (generation : ℕ) : Bool :=
  (s.provisions name).any (·.generation = generation)

def enter (s : Sys) (i : ℕ) (r : Runner) : Sys :=
  { s with runners := update s.runners i r }

def invalidateStoragePhase (s : Sys) (name : String) : Sys :=
  { s with
    storagePhases := update s.storagePhases name none
    storageProbeFailures := update s.storageProbeFailures name none
    storageFailures := update s.storageFailures name none
    provisionBlockers := update s.provisionBlockers name none
    storageStatusProbes := update s.storageStatusProbes name none
    storagePass := update s.storagePass name none }

/-- `active.cancel()`. -/
def cancelContext (s : Sys) (name : String) : Sys :=
  match s.provisions name with
  | some p => { s with
      cancelled := update s.cancelled p.generation true
      storagePass := update s.storagePass name none }
  | none => s

/-- `cancelProvisionLocked`, and what `drainProvision` does in its first half. -/
def cancelProvision (s : Sys) (name : String) : Sys :=
  match s.provisions name with
  | some _ =>
    let s := s.cancelContext name
    { s with
      provisions := update s.provisions name none
      provisionBlockers := update s.provisionBlockers name none }
  | none => s

/-- `Shutdown`: every pass's context goes, present and to come, and the registered passes with their
blockers. -/
def cancelAllProvisions (s : Sys) : Sys :=
  { s with
    provisions := fun _ => none
    cancelled := fun _ => true
    provisionBlockers := fun name =>
      if (s.provisions name).isSome then none else s.provisionBlockers name
    storagePass := fun _ => none }

/-- The storage half of registering a pass. -/
def beginStorage (s : Sys) (item : Item) (skipStorage : Bool) : Sys :=
  if item.stores && !skipStorage then
    let s := s.invalidateStoragePhase item.name
    { s with storagePhases := update s.storagePhases item.name (some .provisioning) }
  else s

/-- One cluster of `beginProvisionTasksScopedLocked`. -/
def beginProvision (s : Sys) (item : Item) (skipStorage : Bool) : Sys :=
  let s := (s.beginStorage item skipStorage).cancelContext item.name
  { s with
    sequence := s.sequence + 1
    provisions := update s.provisions item.name (some ⟨s.sequence + 1,skipStorage⟩)
    storagePass := update s.storagePass item.name
      (if item.stores && !skipStorage then some (s.sequence + 1) else none) }

def beginProvisionTasks (s : Sys) (skipStorage : Bool) : List Item → Sys × List Task
  | [] => (s,[])
  | item::items =>
    if item.reconciles then
      let s := s.beginProvision item skipStorage
      let (s',tasks) := s.beginProvisionTasks skipStorage items
      (s',⟨item,s.sequence,skipStorage⟩::tasks)
    else s.beginProvisionTasks skipStorage items

/-- Registers the passes and starts the goroutine that runs them. -/
def provision (s : Sys) (items : List Item) (skipStorage : Bool) : Sys :=
  let (s,tasks) := s.beginProvisionTasks skipStorage items
  { s.enter s.started (.retired false tasks) with started := s.started + 1 }

/-- A BGP change's pass drives storage only if it cancels one that had to. -/
def bgpSkipsStorage (s : Sys) (name : String) : Bool :=
  (s.provisions name).all (·.skipStorage)

def observeProvisionGate (s : Sys) (t : Task) (gate message : String) : Sys :=
  if s.current t.item.name t.generation then
    { s with provisionBlockers :=
        update s.provisionBlockers t.item.name (some ⟨gate,message,t.generation⟩) }
  else s

def recordStoragePhase (s : Sys) (name : String) (phase : StoragePhase) : Sys :=
  { s with
    storageFailures :=
      if phase ≠ .failed then update s.storageFailures name none else s.storageFailures
    storagePhases := update s.storagePhases name (some phase) }

/-- `recordStoragePhaseIfCurrentLocked`. -/
def recordPhaseIfCurrent (s : Sys) (name : String) (generation : ℕ) (phase : StoragePhase) : Sys :=
  if s.current name generation then
    { s.recordStoragePhase name phase with
      storagePass := update s.storagePass name none }
  else s

/-- `recordStorageFailureIfCurrentLocked`. -/
def recordFailureIfCurrent (s : Sys) (name : String) (generation : ℕ) (message : String) : Sys :=
  if s.current name generation then
    let s := { s with
      storageStatusProbes := update s.storageStatusProbes name none
      storageProbeFailures := update s.storageProbeFailures name none
      provisionBlockers := update s.provisionBlockers name none
      storageFailures := update s.storageFailures name (some message) }
    { s.recordStoragePhase name .failed with
      storagePass := update s.storagePass name none }
  else s

/-- What `runProvisionTasks` records of a pass that returned. -/
def recordResult (s : Sys) (t : Task) (r : Result) : Sys :=
  if t.drivesStorage then
    match r.error with
    | some (.storage message) => s.recordFailureIfCurrent t.item.name t.generation message
    | _ => s.recordPhaseIfCurrent t.item.name t.generation (r.phase.getD .provisioning)
  else s

def finishProvision (s : Sys) (t : Task) : Sys :=
  if s.current t.item.name t.generation then s.cancelProvision t.item.name else s

/-- After a failed pass: the clusters of the tasks behind it are cancelled, by name. -/
def cancelPending (s : Sys) (pending : List Task) : Sys :=
  pending.foldl (fun s t => s.cancelProvision t.item.name) s

end Sys

/-- `recent`: a failure on record is not older than the retry backoff. -/
structure Status where
  name : String
  csi : CSI
  running : Bool
  kubernetesReady : Bool
  recent : Bool

/-- Whether `refreshStoragePhases` asks for a probe, by the copy it took under the lock. -/
def Sys.asksProbe (s : Sys) (status : Status) : Bool :=
  status.csi ≠ .none && status.running && s.storagePhases status.name ≠ some .live &&
    s.storagePhases status.name ≠ some .failed && (s.provisions status.name).isNone &&
    status.kubernetesReady && !((s.storageProbeFailures status.name).isSome && status.recent)

/-- The guard of `beginStorageStatusProbe`. It does not ask whether a pass is registered. -/
def Sys.mayProbe (s : Sys) (name : String) (running recent : Bool) : Bool :=
  running && !((s.storageProbeFailures name).isSome && recent) &&
    s.storagePhases name ≠ some .live && s.storagePhases name ≠ some .failed &&
    (s.storageStatusProbes name).isNone

def Sys.beginStorageStatusProbe (s : Sys) (name : String) (running recent : Bool) : Sys :=
  if s.mayProbe name running recent then
    { s with
      storageProbeSequence := s.storageProbeSequence + 1
      storageStatusProbes :=
        update s.storageStatusProbes name (some (s.storageProbeSequence + 1))
      probing := update s.probing (s.storageProbeSequence + 1) (some name) }
  else s

inductive ProbeAnswer
  | live
  | pending (message : String)
  | failed (message : String)
  deriving DecidableEq

def Sys.setProbeFailure (s : Sys) (name : String) (failure : Option ProbeFailure) : Sys :=
  { s with storageProbeFailures := update s.storageProbeFailures name failure }

/-- The record `runStorageStatusProbe` makes of an answer, if its probe is still the cluster's. -/
def Sys.recordProbe (s : Sys) (name : String) (answer : ProbeAnswer) (running : Bool) : Sys :=
  let s := { s with storageStatusProbes := update s.storageStatusProbes name none }
  match answer with
  | .pending message => if running then s.setProbeFailure name (some ⟨message,true⟩) else s
  | .live =>
    if running then (s.setProbeFailure name none).recordStoragePhase name .live else s
  | .failed message => if running then s.setProbeFailure name (some ⟨message,false⟩) else s

def Sys.runStorageStatusProbe (s : Sys) (g : ℕ) (name : String) (answer : ProbeAnswer)
    (running : Bool) : Sys :=
  let s := { s with probing := update s.probing g none }
  if s.storageStatusProbes name = some g then s.recordProbe name answer running else s

/-- What a goroutine that runs passes does. -/
inductive RunnerMove
  /-- A gate of the pass it is working on reports. -/
  | observe (gate message : String)
  | ends (result : Result)
  | record
  | finish
  /-- It goes on to its next pass, or returns. -/
  | next
  /-- The pass failed: it cancels what is behind and returns. -/
  | abort
  deriving DecidableEq

inductive Move
  /-- Create, start, up, or a node mutation of a cluster that runs in full. -/
  | provision (items : List Item)
  | bgp (item : Item)
  | runner (i : ℕ) (m : RunnerMove)
  | cancel (name : String)
  /-- `cancelProvisionForHandover`. -/
  | handover (name : String)
  /-- Stop and suspend: cancelled and invalidated in one hold of the lock. -/
  | stop (name : String)
  /-- A node mutation of a cluster that runs in part. -/
  | invalidate (name : String)
  | shutdown
  | refresh (statuses : List Status)
  /-- A refresh begins the next probe it asks for. -/
  | beginProbe (k : ℕ) (running recent : Bool)
  | probed (g : ℕ) (answer : ProbeAnswer) (running : Bool)

def runnerStep (s : Sys) (i : ℕ) (m : RunnerMove) : Option Sys :=
  match s.runners i,m with
  | .working t _,.observe gate message => some (s.observeProvisionGate t gate message)
  | .working t rest,.ends result => some (s.enter i (.ended t result rest))
  | .ended t result rest,.record =>
    some ((s.recordResult t result).enter i (.recorded t result.error.isSome rest))
  | .recorded t failed rest,.finish => some ((s.finishProvision t).enter i (.retired failed rest))
  | .retired false (t::rest),.next => some (s.enter i (.working t rest))
  | .retired false [],.next => some (s.enter i .returned)
  | .retired true rest,.abort => some ((s.cancelPending rest).enter i .returned)
  | _,_ => none

def step (s : Sys) : Move → Option Sys
  | .provision items => some (s.provision items false)
  | .bgp item => some (s.provision [item] (s.bgpSkipsStorage item.name))
  | .runner i m => runnerStep s i m
  | .cancel name => some (s.cancelProvision name)
  | .handover name => some (s.cancelContext name)
  | .stop name => some ((s.cancelProvision name).invalidateStoragePhase name)
  | .invalidate name => some (s.invalidateStoragePhase name)
  | .shutdown => some s.cancelAllProvisions
  | .refresh statuses => some { s with
      refreshes := update s.refreshes s.refreshed
        ((statuses.filter s.asksProbe).map Status.name)
      refreshed := s.refreshed + 1 }
  | .beginProbe k running recent =>
    match s.refreshes k with
    | name::names => some { s.beginStorageStatusProbe name running recent with
        refreshes := update s.refreshes k names }
    | [] => none
  | .probed g answer running =>
    match s.probing g with
    | some name => some (s.runStorageStatusProbe g name answer running)
    | none => none

def run (s : Sys) (moves : List Move) : Option Sys := StepRuns.run step s moves

end TalosBox.StoragePasses
