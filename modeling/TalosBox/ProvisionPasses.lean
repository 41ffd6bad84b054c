import Mathlib

/-! Provisioning passes under concurrent requests. Every move on the registered passes is one hold
of the operation lock; the per-cluster mutation lock is held over several moves and is part of the
state. -/
namespace TalosBox.Passes

open Function (update)

/-- A pass works, is off the register by its own epilogue, or has closed its `done` channel. -/
inductive Stage
  | working
  | retired
  | closed
  deriving DecidableEq

structure Task where
  cluster : String
  stage : Stage
  /-- A drain gave up waiting for it. -/
  abandoned : Bool
  deriving DecidableEq

/-- A node mutation registers a pass, cancels one (the last running node was stopped), or neither.
-/
inductive Effect
  | begins
  | cancels
  | nothing
  deriving DecidableEq

/-- `stop` is stop, suspend and down; `begins` is false where no pass is registered. -/
inductive Request
  | create (name : String) (begins : Bool)
  | start (name : String) (begins : Bool)
  | up (names : List String)
  | stop (names : List String)
  | mutate (name : String) (effect : Effect)
  | destroy (name : String)
  deriving DecidableEq

/-- How far a request has come. -/
inductive Phase
  | idle
  | queued (request : Request)
  /-- Inside the mutation lock, in front of the operation lock. -/
  | locked (request : Request)
  /-- A mutation that has done its work and still holds the mutation lock. -/
  | leaving (name : String) (passes : List ℕ)
  /-- Runs its passes one after the other; a create holds the mutation lock meanwhile. -/
  | running (name : Option String) (passes : List ℕ) (finished : Bool)
  /-- A destroy waiting for the pass it took off the register. -/
  | waiting (name : String) (pass : Option ℕ)
  | removing (name : String) (timedOut : Bool)
  | answered
  deriving DecidableEq

structure Sys where
  sequence : ℕ
  tasks : ℕ → Option Task
  provisions : String → Option ℕ
  locks : String → Option ℕ
  arrived : ℕ
  threads : ℕ → Phase

def initial : Sys := ⟨0,fun _ => none,fun _ => none,fun _ => none,0,fun _ => .idle⟩

namespace Sys

/-- One cluster of `beginProvisionTasksScopedLocked`. -/
def beginProvision (s : Sys) (name : String) : Sys :=
  { s with
    sequence := s.sequence + 1
    tasks := update s.tasks (s.sequence + 1) (some ⟨name,.working,false⟩)
    provisions := update s.provisions name (some (s.sequence + 1)) }

def beginProvisionTasks (s : Sys) (names : List String) : Sys := names.foldl beginProvision s

/-- The generations `beginProvisionTasks` hands out. -/
def passes (s : Sys) (names : List String) : List ℕ :=
  List.range' (s.sequence + 1) names.length

def cancelProvisionLocked (s : Sys) (name : String) : Sys :=
  { s with provisions := update s.provisions name none }

def cancelProvisions (s : Sys) (names : List String) : Sys :=
  names.foldl cancelProvisionLocked s

def setTask (s : Sys) (g : ℕ) (t : Task) : Sys :=
  { s with tasks := update s.tasks g (some t) }

def enter (s : Sys) (i : ℕ) (p : Phase) : Sys :=
  { s with threads := update s.threads i p }

end Sys

variable (clusterKey : String → String)

namespace Sys

def lock (s : Sys) (i : ℕ) (name : String) (p : Phase) : Option Sys :=
  if s.locks (clusterKey name) = none then
    some ({ s with locks := update s.locks (clusterKey name) (some i) }.enter i p)
  else none

def unlock (s : Sys) (name : String) : Sys :=
  { s with locks := update s.locks (clusterKey name) none }

end Sys

/-- What a thread that is not running a pass does next. -/
def advance (s : Sys) (i : ℕ) : Option Sys :=
  match s.threads i with
  | .queued (.create name b) => s.lock clusterKey i name (.locked (.create name b))
  | .queued (.mutate name f) => s.lock clusterKey i name (.locked (.mutate name f))
  | .queued (.destroy name) => s.lock clusterKey i name (.locked (.destroy name))
  | .queued (.start name b) =>
    let names := if b then [name] else []
    some ((s.beginProvisionTasks names).enter i (.running none (s.passes names) false))
  | .queued (.up names) =>
    some ((s.beginProvisionTasks names).enter i (.running none (s.passes names) false))
  | .queued (.stop names) => some ((s.cancelProvisions names).enter i .answered)
  | .locked (.create name b) =>
    let names := if b then [name] else []
    some ((s.beginProvisionTasks names).enter i (.running (some name) (s.passes names) false))
  | .locked (.mutate name .begins) =>
    some ((s.beginProvisionTasks [name]).enter i (.leaving name (s.passes [name])))
  | .locked (.mutate name .cancels) =>
    some ((s.cancelProvisionLocked name).enter i (.leaving name []))
  | .locked (.mutate name .nothing) => some (s.enter i (.leaving name []))
  -- the first half of `drainProvision`
  | .locked (.destroy name) =>
    some ((s.cancelProvisionLocked name).enter i (.waiting name (s.provisions name)))
  | .leaving name passes => some ((s.enter i (.running none passes false)).unlock clusterKey name)
  | .running (some name) [] _ => some ((s.enter i .answered).unlock clusterKey name)
  | .running none [] _ => some (s.enter i .answered)
  | .waiting name none => some (s.enter i (.removing name false))
  | .waiting name (some g) =>
    if (s.tasks g).any (·.stage = .closed) then some (s.enter i (.removing name false)) else none
  -- `destroyCluster`: the directory goes
  | .removing name _ =>
    some (((s.cancelProvisionLocked name).enter i .answered).unlock clusterKey name)
  | _ => none

/-- `finishProvision`: the pass takes itself off the register if it is still on it. -/
def finishProvision (s : Sys) (g : ℕ) (t : Task) : Sys :=
  let s := s.setTask g { t with stage := .retired }
  if s.provisions t.cluster = some g then s.cancelProvisionLocked t.cluster else s

/-- After a pass failed, those behind it are taken off the register and not run. -/
def shed (s : Sys) (g : ℕ) : Sys :=
  match s.tasks g with
  | some t => (s.setTask g { t with stage := .retired }).cancelProvisionLocked t.cluster
  | none => s

inductive Move
  | arrive (request : Request)
  | advance
  /-- The drain's timer fires. -/
  | timeout
  /-- The first pass of the thread is over. -/
  | retire
  | close
  /-- The pass before the first one failed. -/
  | abort
  deriving DecidableEq

def step (s : Sys) (i : ℕ) : Move → Option Sys
  | .arrive request =>
    if i = s.arrived then
      some ({ s with arrived := s.arrived + 1 }.enter i (.queued request))
    else none
  | .advance => advance clusterKey s i
  | .timeout =>
    match s.threads i with
    | .waiting name (some g) =>
      match s.tasks g with
      | some t => some ((s.setTask g { t with abandoned := true }).enter i (.removing name true))
      | none => none
    | _ => none
  | .retire =>
    match s.threads i with
    | .running _ (g::_) _ =>
      match s.tasks g with
      | some t => if t.stage = .working then some (finishProvision s g t) else none
      | none => none
    | _ => none
  | .close =>
    match s.threads i with
    | .running name (g::passes) _ =>
      match s.tasks g with
      | some t =>
        if t.stage = .retired then
          some ((s.setTask g { t with stage := .closed }).enter i (.running name passes true))
        else none
      | none => none
    | _ => none
  | .abort =>
    match s.threads i with
    | .running _ passes true =>
      if passes.all fun g => (s.tasks g).any (·.stage = .working) then
        some (passes.foldl shed s)
      else none
    | _ => none

/-- A run of the daemon: which thread makes which move, in order. -/
def run (s : Sys) : List (ℕ × Move) → Option Sys
  | [] => some s
  | (i,m)::events => (step clusterKey s i m).bind fun s => run s events

end TalosBox.Passes
