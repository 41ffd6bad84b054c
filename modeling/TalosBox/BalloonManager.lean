import TalosBox.BalloonPlan

/-! The balloon manager: one `ReconcileSnapshot` tick on its ledger, the guests and the host-memory
sample, and runs of ticks. Guests answer requests from streams of their own, so every order of
refusals and pending devices is a run. -/
namespace TalosBox.Balloon

open Function (update)

inductive Pressure
  | unknown | normal | warning | critical
  deriving DecidableEq, Repr

/-- One host-memory observation (`hostmem.Snapshot`). -/
structure Snapshot where
  totalMiB : ℤ
  availableMiB : ℤ
  compressorMiB : ℤ
  swapTotalBytes : ℕ
  swapAvailableBytes : ℕ
  pressure : Pressure

/-- What `SetMemoryTargetMiB` returns. -/
inductive Answer
  | accepted | quiesced | pending | failed
  deriving DecidableEq, Repr

/-- How a `Balloonable` reports its current target: not at all, as captured, or read back on every
call. -/
inductive Readback
  | silent | snapshot (targetMiB : ℤ) | live
  deriving DecidableEq, Repr

/-- A running guest during one tick. `heldMiB` is the memory it really holds. -/
structure Guest where
  configuredMiB : ℤ
  heldMiB : ℤ
  readback : Readback
  asked : ℕ
  answers : ℕ → Answer

namespace Guest

/-- `CurrentTargetMiB`, absent on a guest that is no `CurrentTargeter`. -/
def currentTargetMiB (g : Guest) : Option ℤ :=
  match g.readback with
  | .silent => none
  | .snapshot target => some target
  | .live => some g.heldMiB

def setMemoryTargetMiB (g : Guest) (targetMiB : ℤ) : Answer × Guest :=
  match g.answers g.asked with
  | .accepted => (.accepted,{ g with heldMiB := targetMiB,asked := g.asked+1 })
  | answer => (answer,{ g with asked := g.asked+1 })

end Guest

/-- The lines the manager writes to `tbxd.log`. -/
inductive LogLine
  | refused (name : String) (answer : Answer)
  | restored (name : String) (targetMiB externalMiB : ℤ)
  | applied (name : String) (targetMiB configuredMiB hostFreeMiB reserveMiB deficitMiB
      compressorMiB swapUsedPercent : ℤ) (pressureLatched : Bool)
  | deviceActive (name : String) (targetMiB : ℤ)
  deriving DecidableEq, Repr

/-- The manager's ledger. Times are nanoseconds. -/
structure Manager where
  log : List LogLine
  last : String → Option ℤ
  lastAppliedDeficit : ℤ
  lastAppliedKnown : Bool
  lastAppliedHold : Bool
  lastRetarget : String → Option ℤ
  retryPending : String → Bool
  pendingLogged : String → Bool
  devicePending : String → Bool
  pressureLatched : Bool
  deadbandMiB : ℤ
  minRetargetInterval : ℤ

def defaultDeadbandMiB : ℤ := 256
def defaultMinRetargetInterval : ℤ := 60*10^9

def newManager : Manager where
  log := []
  last _ := none
  lastAppliedDeficit := 0
  lastAppliedKnown := false
  lastAppliedHold := false
  lastRetarget _ := none
  retryPending _ := false
  pendingLogged _ := false
  devicePending _ := false
  pressureLatched := false
  deadbandMiB := defaultDeadbandMiB
  minRetargetInterval := defaultMinRetargetInterval

/-- The tuning half of `Config`. -/
structure Config where
  deadbandMiB : ℤ
  minRetargetInterval : ℤ

/-- The manager `RunWithLogger` starts with: only positive settings override. -/
def startManager (cfg : Config) : Manager :=
  { newManager with
    deadbandMiB := if 0 < cfg.deadbandMiB then cfg.deadbandMiB else defaultDeadbandMiB
    minRetargetInterval := if 0 < cfg.minRetargetInterval then cfg.minRetargetInterval
      else defaultMinRetargetInterval }

/-- The arguments of one call; the map of guests is its sorted keys and a total lookup. -/
structure Tick where
  names : List String
  sorted : names.Pairwise (· < ·)
  guest : String → Guest
  sample : Snapshot
  reserveMiB : ℤ
  floorMiB : ℤ
  holdMiB : ℤ
  now : ℤ

lemma Tick.nodup (x : Tick) : x.names.Nodup := x.sorted.imp ne_of_lt

def snapshotSwapPercent (sample : Snapshot) : ℤ :=
  if sample.swapTotalBytes = 0 ∨ sample.swapTotalBytes ≤ sample.swapAvailableBytes then 0
  else ((sample.swapTotalBytes-sample.swapAvailableBytes)*100/sample.swapTotalBytes : ℕ)

def pressureArmSwapPercent : ℤ := 80
def pressureClearSwapPercent : ℤ := 70
def pressureArmCompressorPct : ℤ := 20
def pressureClearCompressorPct : ℤ := 15
def pressureArmCompressorMiB : ℤ := 4*1024
def pressureClearCompressorMiB : ℤ := 3*1024

/-- The latch arms on any signal and clears only when every signal has. -/
def updatePressureLatch (m : Manager) (sample : Snapshot) : Manager :=
  let swapPercent := snapshotSwapPercent sample
  let compressorArmed : Bool := if 0 < sample.totalMiB
    then sample.totalMiB*pressureArmCompressorPct ≤ sample.compressorMiB*100
    else pressureArmCompressorMiB ≤ sample.compressorMiB
  let compressorClear : Bool := if 0 < sample.totalMiB
    then sample.compressorMiB*100 < sample.totalMiB*pressureClearCompressorPct
    else sample.compressorMiB < pressureClearCompressorMiB
  let kernelArmed : Bool := sample.pressure = .warning ∨ sample.pressure = .critical
  if pressureArmSwapPercent ≤ swapPercent ∨ compressorArmed ∨ kernelArmed then
    { m with pressureLatched := true }
  else if swapPercent < pressureClearSwapPercent ∧ compressorClear ∧ ¬kernelArmed then
    { m with pressureLatched := false }
  else m

/-- The deficit the sample itself shows; one inside the deadband is ignored. -/
def naturalDeficit (deadbandMiB reserveMiB availableMiB : ℤ) : ℤ :=
  let deficit := if reserveMiB-availableMiB < 0 then 0 else reserveMiB-availableMiB
  if 0 < deficit ∧ deficit < deadbandMiB then 0 else deficit

/-- The current target of a recorded guest that no longer matches its record. -/
def externallyMovedTarget (g : Guest) (previous : Option ℤ) : Option ℤ :=
  match previous,g.currentTargetMiB with
  | some previous, some target => if target ≠ previous then some target else none
  | _, _ => none

/-- The record, unless the guest was moved behind it. -/
def knownTarget (g : Guest) (previous : Option ℤ) : Option ℤ :=
  if (externallyMovedTarget g previous).isSome then none else previous

/-- What the guest holds as far as the manager can tell. -/
def currentMiB (m : Manager) (g : Guest) (name : String) : ℤ :=
  match g.currentTargetMiB with
  | some target => if 0 < target then target else (m.last name).getD g.configuredMiB
  | none => (m.last name).getD g.configuredMiB

/-- The guests whose balloon device answers. -/
def activeNames (m : Manager) (names : List String) : List String :=
  names.filter fun name => !m.devicePending name

def planNodes (names : List String) (guest : String → Guest) : List Node :=
  names.map fun name => ⟨name,(guest name).configuredMiB⟩

/-- A release is vetoed at the record, or at a lower reported target. -/
def latchCeiling (g : Guest) (previous : ℤ) : ℤ :=
  match g.currentTargetMiB with
  | some current => if 0 < current ∧ current < previous then current else previous
  | none => previous

def planActive (m : Manager) (names : List String) (guest : String → Guest)
    (deficitMiB floorMiB : ℤ) : Targets :=
  let targets := planTargets (planNodes (activeNames m names) guest) deficitMiB floorMiB
  if m.pressureLatched then fun name =>
    match m.last name with
    | some previous =>
      if latchCeiling (guest name) previous < targets name then latchCeiling (guest name) previous
      else targets name
    | none => targets name
  else targets

/-- What `classify` reports, and the ledger without the retries that no longer matter. -/
structure Classified where
  changed : Bool
  hasUnappliedTarget : Bool
  manager : Manager

def classify (m : Manager) (active : List String) (guest : String → Guest)
    (targets : Targets) : Classified :=
  let known name := knownTarget (guest name) (m.last name)
  { changed := active.any fun name => known name ≠ some (targets name)
    hasUnappliedTarget := active.any fun name =>
      known name ≠ some (targets name) ∧ (known name = none ∨ m.retryPending name)
    manager := { m with
      retryPending := fun name => m.retryPending name &&
        !decide (name ∈ active ∧ known name = some (targets name)) } }

inductive ApplyOutcome
  | skipped | applied | pending | failed
  deriving DecidableEq, Repr

/-- One request to a guest, as the guest saw it. -/
structure Call where
  name : String
  targetMiB : ℤ
  current : Option ℤ
  answer : Answer
  deriving DecidableEq, Repr

/-- The state inside a tick: the ledger, the guests, and the requests made so far. -/
structure State where
  manager : Manager
  guest : String → Guest
  calls : List Call

/-- `SetMemoryTargetMiB` on one guest of the map. -/
def State.ask (s : State) (name : String) (targetMiB : ℤ) : Answer × State :=
  let r := (s.guest name).setMemoryTargetMiB targetMiB
  (r.1,{ s with
    guest := update s.guest name r.2
    calls := s.calls++[⟨name,targetMiB,(s.guest name).currentTargetMiB,r.1⟩] })

def recordPending (m : Manager) (name : String) (now : ℤ) : Manager :=
  { m with
    log := if m.pendingLogged name then m.log else m.log++[.refused name .pending]
    pendingLogged := update m.pendingLogged name true
    devicePending := update m.devicePending name true
    retryPending := update m.retryPending name true
    lastRetarget := update m.lastRetarget name (some now) }

def recordFailed (m : Manager) (name : String) : Manager :=
  { m with
    log := m.log++[.refused name .failed]
    retryPending := update m.retryPending name true }

def recordApplied (m : Manager) (name : String) (targetMiB now : ℤ) (line : LogLine) : Manager :=
  { m with
    log := m.log++[line]
    last := update m.last name (some targetMiB)
    lastRetarget := update m.lastRetarget name (some now)
    retryPending := update m.retryPending name false
    pendingLogged := update m.pendingLogged name false }

/-- The per-node retry window is still open. -/
def withinRetargetWindow (m : Manager) (name : String) (now : ℤ) : Bool :=
  match m.lastRetarget name with
  | some last => now-last < m.minRetargetInterval
  | none => false

/-- One node's share of a tick. -/
def applyTarget (x : Tick) (holdSetsDeficit : Bool) (deficitMiB : ℤ) (s : State)
    (name : String) (targetMiB : ℤ) : ApplyOutcome × State :=
  let m := s.manager
  let moved := externallyMovedTarget (s.guest name) (m.last name)
  if moved = none ∧ m.last name = some targetMiB then (.skipped,s)
  else if !holdSetsDeficit && (moved = none || m.retryPending name) &&
      withinRetargetWindow m name x.now then
    (.skipped,{ s with manager :=
      { m with retryPending := update m.retryPending name true } })
  else
    let line := match moved with
      | some external => .restored name targetMiB external
      | none => .applied name targetMiB (s.guest name).configuredMiB x.sample.availableMiB
          x.reserveMiB deficitMiB x.sample.compressorMiB (snapshotSwapPercent x.sample)
          m.pressureLatched
    let (answer,s) := s.ask name targetMiB
    match answer with
    | .quiesced => (.skipped,s)
    | .pending => (.pending,{ s with manager := recordPending m name x.now })
    | .failed => (.failed,{ s with manager := recordFailed m name })
    | .accepted => (.applied,{ s with manager := recordApplied m name targetMiB x.now line })

/-- The tick's progress across rounds. -/
structure Progress where
  state : State
  appliedThisTick : String → Option ℤ
  anySucceeded : Bool
  newlyPending : Bool

def visit (x : Tick) (holdSetsDeficit : Bool) (deficitMiB : ℤ) (targets : Targets)
    (reductions : Bool) (p : Progress) (name : String) : Progress :=
  let target := targets name
  if decide (target < currentMiB p.state.manager (p.state.guest name) name) ≠ reductions then p
  -- a replan never hands back what this tick just took
  else if (p.appliedThisTick name).any (· ≤ target) then p
  else
    let (outcome,s) := applyTarget x holdSetsDeficit deficitMiB p.state name target
    match outcome with
    | .applied => { p with
        state := s
        appliedThisTick := update p.appliedThisTick name (some target)
        anySucceeded := true }
    | .pending => { p with state := s,newlyPending := true }
    | _ => { p with state := s }

/-- Reductions before releases; a device found pending among the reductions stops the round. -/
def applyRound (x : Tick) (holdSetsDeficit : Bool) (deficitMiB : ℤ) (targets : Targets)
    (active : List String) (p : Progress) : Progress :=
  let p := active.foldl (visit x holdSetsDeficit deficitMiB targets true)
    { p with newlyPending := false }
  if p.newlyPending then p
  else active.foldl (visit x holdSetsDeficit deficitMiB targets false) p

/-- The deficit wobbles around the last one applied, and nobody waits for a target or a retry. -/
def deadbandShortcut (m : Manager) (holdSetsDeficit : Bool) (deficitMiB : ℤ)
    (hasUnappliedTarget : Bool) : Bool :=
  !holdSetsDeficit && !m.lastAppliedHold && m.lastAppliedKnown &&
    decide (|deficitMiB-m.lastAppliedDeficit| < m.deadbandMiB) && !hasUnappliedTarget

/-- The reconcile rounds; `first` is the source's `round == 0`. -/
def rounds (x : Tick) (holdSetsDeficit : Bool) (deficitMiB : ℤ) :
    ℕ → Bool → Progress → Progress
  | 0, _, p => p
  | fuel+1, first, p =>
    let m := p.state.manager
    let active := activeNames m x.names
    let targets := planActive m x.names p.state.guest deficitMiB x.floorMiB
    let c := classify m active p.state.guest targets
    let p := { p with state := { p.state with manager := c.manager } }
    if !c.changed then p
    else if first && deadbandShortcut m holdSetsDeficit deficitMiB c.hasUnappliedTarget then p
    else
      let p := applyRound x holdSetsDeficit deficitMiB targets active p
      if p.newlyPending then rounds x holdSetsDeficit deficitMiB fuel false p else p

/-- Ask one guest with an inactive balloon device for its configured size. -/
def probePendingDevice (x : Tick) (s : State) (name : String) : State :=
  let m := s.manager
  if !m.devicePending name || withinRetargetWindow m name x.now then s
  else
    let configured := (s.guest name).configuredMiB
    let (answer,s) := s.ask name configured
    match answer with
    | .quiesced => s
    | .accepted => { s with manager := { m with
        log := m.log++[.deviceActive name configured]
        devicePending := update m.devicePending name false
        retryPending := update m.retryPending name false
        pendingLogged := update m.pendingLogged name false
        last := update m.last name (some configured) } }
    | .pending => { s with manager :=
        { m with lastRetarget := update m.lastRetarget name (some x.now) } }
    | .failed => { s with manager := { m with
        log := m.log++[.refused name .failed]
        lastRetarget := update m.lastRetarget name (some x.now) } }

def probePendingDevices (x : Tick) (s : State) : State :=
  x.names.foldl (probePendingDevice x) s

/-- Forget the guests that are not in the map any more. -/
def dropDeparted (m : Manager) (names : List String) : Manager :=
  let last := fun name => if name ∈ names then m.last name else none
  let m := { m with
    last := last
    lastRetarget := fun name => if name ∈ names then m.lastRetarget name else none
    retryPending := fun name => decide (name ∈ names) && m.retryPending name
    pendingLogged := fun name => decide (name ∈ names) && m.pendingLogged name
    devicePending := fun name => decide (name ∈ names) && m.devicePending name }
  if names.all fun name => (last name).isNone then
    { m with lastAppliedDeficit := 0,lastAppliedKnown := false,lastAppliedHold := false }
  else m

def Tick.naturalDeficit (x : Tick) (m : Manager) : ℤ :=
  Balloon.naturalDeficit m.deadbandMiB x.reserveMiB x.sample.availableMiB

def Tick.deficit (x : Tick) (m : Manager) : ℤ :=
  if x.naturalDeficit m < x.holdMiB then x.holdMiB else x.naturalDeficit m

def Tick.holdSetsDeficit (x : Tick) (m : Manager) : Bool :=
  decide (0 < x.holdMiB ∧ x.naturalDeficit m ≤ x.holdMiB)

/-- `ReconcileSnapshot`: the ledger after it, the guests as it leaves them, and its requests. -/
def reconcileSnapshot (m : Manager) (x : Tick) : State :=
  let s := probePendingDevices x ⟨updatePressureLatch m x.sample,x.guest,[]⟩
  let p := rounds x (x.holdSetsDeficit m) (x.deficit m) (x.names.length+1) true
    ⟨s,fun _ => none,false,false⟩
  let m' := if p.anySucceeded then
      { p.state.manager with
        lastAppliedDeficit := x.deficit m
        lastAppliedKnown := true
        lastAppliedHold := x.holdSetsDeficit m }
    else p.state.manager
  { p.state with manager := dropDeparted m' x.names }

/-- The ledger after a run of ticks. -/
def runTicks (m : Manager) (ticks : List Tick) : Manager :=
  ticks.foldl (fun m x => (reconcileSnapshot m x).manager) m

end TalosBox.Balloon
