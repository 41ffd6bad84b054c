import TalosBox.BalloonConvergence

/-! Reachable ledgers of the balloon manager: when a calm tick without a deficit releases every
guest, and when one with a deficit reclaims what it should. -/
namespace TalosBox.Balloon

open KeyedFold List

/-- The tuning and the memory of the last deficit applied, which only the end of a
tick writes. -/
def appliedRecord (m : Manager) : ℤ × ℤ × Bool × Bool :=
  (m.deadbandMiB,m.lastAppliedDeficit,m.lastAppliedKnown,m.lastAppliedHold)

section

variable (x : Tick) (holdSetsDeficit : Bool) (deficitMiB : ℤ)

theorem applyTarget_appliedRecord (s : State) (name : String) (target : ℤ) :
    appliedRecord (applyTarget x holdSetsDeficit deficitMiB s name target).2.manager =
      appliedRecord s.manager := by
  simp only [applyTarget]
  split_ifs
  · rfl
  · rfl
  · split <;> rfl

theorem visit_appliedRecord (tgts : Targets) (reductions : Bool) (p : Progress)
    (name : String) :
    appliedRecord (visit x holdSetsDeficit deficitMiB tgts reductions p name).state.manager =
      appliedRecord p.state.manager := by
  simp only [visit]
  split_ifs
  · rfl
  · rfl
  · have h := applyTarget_appliedRecord x holdSetsDeficit deficitMiB p.state name (tgts name)
    split <;> exact h

theorem applyRound_appliedRecord (tgts : Targets) (active : List String) (p : Progress) :
    appliedRecord (applyRound x holdSetsDeficit deficitMiB tgts active p).state.manager =
      appliedRecord p.state.manager := by
  have hps : ∀ reductions (q : Progress), appliedRecord (active.foldl
      (visit x holdSetsDeficit deficitMiB tgts reductions) q).state.manager =
      appliedRecord q.state.manager := fun reductions q =>
    foldl_frame (v := fun q : Progress => appliedRecord q.state.manager)
      (fun q k _ => visit_appliedRecord x holdSetsDeficit deficitMiB tgts reductions q k) q
  simp only [applyRound]
  split_ifs
  · exact hps true _
  · exact (hps false _).trans (hps true _)

theorem rounds_appliedRecord (fuel : ℕ) (first : Bool) (p : Progress) :
    appliedRecord (rounds x holdSetsDeficit deficitMiB fuel first p).state.manager =
      appliedRecord p.state.manager := by
  induction fuel generalizing first p with
  | zero => rfl
  | succ fuel ih =>
    simp only [rounds]
    split_ifs
    · rfl
    · rfl
    · exact (ih _ _).trans (applyRound_appliedRecord x holdSetsDeficit deficitMiB _ _ _)
    · exact applyRound_appliedRecord x holdSetsDeficit deficitMiB _ _ _

theorem probePendingDevices_appliedRecord (s : State) :
    appliedRecord (probePendingDevices x s).manager = appliedRecord s.manager := by
  refine foldl_frame (v := fun s : State => appliedRecord s.manager) ?_ s
  intro s k _
  simp only [probePendingDevice]
  split_ifs
  · rfl
  · split <;> rfl

end

/-- A deficit the manager measured itself is zero or reaches the deadband. -/
theorem naturalDeficit_cases {deadbandMiB reserveMiB availableMiB : ℤ} :
    naturalDeficit deadbandMiB reserveMiB availableMiB = 0 ∨
      deadbandMiB ≤ naturalDeficit deadbandMiB reserveMiB availableMiB := by
  simp only [naturalDeficit]
  split_ifs <;> omega

theorem Tick.deficit_eq_natural {x : Tick} {m : Manager} (h : x.holdSetsDeficit m = false) :
    x.deficit m = x.naturalDeficit m := by
  have hnonneg : 0 ≤ x.naturalDeficit m := naturalDeficit_nonneg _ _ _
  simp only [Tick.holdSetsDeficit,decide_eq_false_iff_not] at h
  simp only [Tick.deficit]
  split_ifs <;> omega

/-- Between ticks the deadband is positive, and a last deficit that no hold set is zero or reaches
it. -/
structure Ledger (m : Manager) : Prop where
  deadband_pos : 0 < m.deadbandMiB
  unheld : m.lastAppliedHold = false →
    m.lastAppliedDeficit = 0 ∨ m.deadbandMiB ≤ m.lastAppliedDeficit

theorem startManager_ledger (cfg : Config) : Ledger (startManager cfg) where
  deadband_pos := by
    simp only [startManager,defaultDeadbandMiB]
    split_ifs <;> omega
  unheld _ := .inl rfl

theorem Ledger.congr {m m' : Manager} (h : Ledger m) (he : appliedRecord m' = appliedRecord m) :
    Ledger m' := by
  simp only [appliedRecord,Prod.mk.injEq] at he
  obtain ⟨hdead,hdef,-,hhd⟩ := he
  exact ⟨hdead ▸ h.deadband_pos,by rw [hhd,hdef,hdead]; exact h.unheld⟩

theorem Ledger.dropDeparted {m : Manager} (h : Ledger m) (names : List String) :
    Ledger (dropDeparted m names) := by
  simp only [Balloon.dropDeparted]
  split_ifs
  · exact ⟨h.deadband_pos,fun _ => .inl rfl⟩
  · exact ⟨h.deadband_pos,h.unheld⟩

theorem Ledger.finish {m : Manager} (h : Ledger m) (x : Tick) {p : Progress}
    (hp : appliedRecord p.state.manager = appliedRecord m) :
    Ledger (if p.anySucceeded then
      { p.state.manager with
        lastAppliedDeficit := x.deficit m
        lastAppliedKnown := true
        lastAppliedHold := x.holdSetsDeficit m }
    else p.state.manager) := by
  have hdead : p.state.manager.deadbandMiB = m.deadbandMiB := congrArg Prod.fst hp
  split_ifs
  · refine ⟨hdead ▸ h.deadband_pos,fun hhd => ?_⟩
    simp only [Tick.deficit_eq_natural hhd,hdead]
    exact naturalDeficit_cases
  · exact h.congr hp

theorem Ledger.reconcileSnapshot {m : Manager} (h : Ledger m) (x : Tick) :
    Ledger (reconcileSnapshot m x).manager := by
  apply Ledger.dropDeparted
  apply h.finish x
  rw [rounds_appliedRecord,probePendingDevices_appliedRecord]
  simp [appliedRecord]

/-- The ledgers a manager can reach from its start by ticks. -/
def Reachable (cfg : Config) (m : Manager) : Prop :=
  ∃ ticks, m = runTicks (startManager cfg) ticks

theorem Reachable.ledger {cfg : Config} {m : Manager} (h : Reachable cfg m) : Ledger m := by
  obtain ⟨ticks,rfl⟩ := h
  exact foldl_invariant (fun m x _ hm => hm.reconcileSnapshot x)
    (startManager_ledger cfg)

section

variable {cfg : Config} {m : Manager} {x : Tick}

/-- Every guest has a record that stands, and none that is off its target waits
for a retry. -/
def RecordsStand (m : Manager) (x : Tick) (targets : Targets) : Prop :=
  ∀ n ∈ x.names, ∃ r, knownTarget (x.guest n) (m.last n) = some r ∧
    (r = targets n ∨ m.retryPending n = false)

theorem unappliedTarget_eq_false :
    x.unappliedTarget m = false ↔ RecordsStand m x (x.plan m) := by
  simp only [Tick.unappliedTarget,classify,any_eq_false,
    updatePressureLatch_last]
  refine forall₂_congr fun n _ => ?_
  cases knownTarget (x.guest n) (m.last n) with
  | none => simp
  | some r => simp [or_iff_not_imp_left]

theorem shortcut_eq_true (hm : Ledger m) (hca : Calm m x) (hdef : x.naturalDeficit m = 0) :
    x.shortcut m ↔ m.lastAppliedKnown ∧ m.lastAppliedHold = false ∧
      m.lastAppliedDeficit = 0 ∧ RecordsStand m x (x.plan m) := by
  simp only [Tick.shortcut,deadbandShortcut,hca.holdSetsDeficit,hca.deficit,hdef,
    Bool.and_eq_true,Bool.not_eq_true',true_and,decide_eq_true_eq,
    unappliedTarget_eq_false]
  constructor
  · rintro ⟨⟨⟨hhd,hkn⟩,hnear⟩,hstand⟩
    refine ⟨hkn,hhd,?_,hstand⟩
    rcases hm.unheld hhd with hz | hfar
    · exact hz
    · rw [zero_sub,abs_neg] at hnear
      exact absurd (hfar.trans (le_abs_self _)) (not_le.2 hnear)
  · rintro ⟨hkn,hhd,hz,hstand⟩
    exact ⟨⟨⟨hhd,hkn⟩,by simpa [hz] using hm.deadband_pos⟩,hstand⟩

lemma planNodes_names (names : List String) (guest : String → Guest) :
    (planNodes names guest).map Node.name = names := by
  simp [planNodes,Function.comp_def]

lemma mem_planNodes {n : String} {names : List String} (guest : String → Guest)
    (hn : n ∈ names) : (⟨n,(guest n).configuredMiB⟩ : Node) ∈ planNodes names guest :=
  mem_map.2 ⟨n,hn,rfl⟩

theorem plan_no_deficit (hca : Calm m x) (hdef : x.naturalDeficit m = 0)
    (hlch : (updatePressureLatch m x.sample).pressureLatched = false) {n : String}
    (hn : n ∈ x.names) : x.plan m n = (x.guest n).configuredMiB := by
  have hact : activeNames (updatePressureLatch m x.sample) x.names = x.names :=
    activeNames_calm (by simpa using hca.active)
  simp only [Tick.plan,planActive,hlch,hact,
    hca.deficit,hdef]
  exact configuredTargets_mem (by rw [planNodes_names]; exact x.nodup)
    (mem_planNodes x.guest hn)

/-- The tick leaves every guest at its configured size. -/
def ReleasesAll (m : Manager) (x : Tick) : Prop :=
  ∀ n ∈ x.names, ((reconcileSnapshot m x).guest n).heldMiB = (x.guest n).configuredMiB

/-- The last tick that moved anyone had no deficit and no hold, and some guest it could not release
is off its configured size with a record that stands. -/
structure Stranded (m : Manager) (x : Tick) : Prop where
  known : m.lastAppliedKnown
  unheld : m.lastAppliedHold = false
  deficit : m.lastAppliedDeficit = 0
  stand : RecordsStand m x fun n => (x.guest n).configuredMiB
  off : ∃ n ∈ x.names, (x.guest n).heldMiB ≠ (x.guest n).configuredMiB

/-- A calm tick with the latch clear and no deficit that counts releases every guest, except from a
stranded state. -/
theorem releasesAll_iff_not_stranded (hm : Reachable cfg m) (hcalm : Calm m x)
    (hlch : (updatePressureLatch m x.sample).pressureLatched = false)
    (hdef : x.reserveMiB-x.sample.availableMiB < m.deadbandMiB) :
    ReleasesAll m x ↔ ¬Stranded m x := by
  have hzero : x.naturalDeficit m = 0 := by
    simp only [Tick.naturalDeficit,naturalDeficit]
    split_ifs <;> omega
  have hplan : ∀ n ∈ x.names, x.plan m n = (x.guest n).configuredMiB :=
    fun n hn => plan_no_deficit hcalm hzero hlch hn
  have hstand : RecordsStand m x (x.plan m) ↔
      RecordsStand m x fun n => (x.guest n).configuredMiB :=
    forall₂_congr fun n hn => by rw [hplan n hn]
  have hshor := shortcut_eq_true hm.ledger hcalm hzero
  obtain ⟨hkept,hrel⟩ := reconcileSnapshot_calm hcalm
  cases hs : x.shortcut m with
  | false =>
    have hrele : ReleasesAll m x := fun n hn => (hrel hs n hn).trans (hplan n hn)
    refine ⟨fun _ hstra => ?_,fun _ => hrele⟩
    have htrue := hshor.mpr ⟨hstra.known,hstra.unheld,hstra.deficit,
      hstand.mpr hstra.stand⟩
    simp [hs] at htrue
  | true =>
    obtain ⟨hkn,hunheld,hlast,hreco⟩ := hshor.mp hs
    constructor
    · rintro hrele ⟨-,-,-,-,n,hn,hoff⟩
      exact hoff (by rw [← hrele n hn,hkept hs n])
    · intro hstra n hn
      rw [hkept hs n]
      by_contra hoff
      exact hstra ⟨hkn,hunheld,hlast,hstand.mp hreco,n,hn,hoff⟩

end

section

/-- A guest that reads its target back and grants every request. -/
def liveGuest (configuredMiB heldMiB : ℤ) : Guest :=
  ⟨configuredMiB,heldMiB,.live,0,fun _ => .accepted⟩

/-- A 32 GiB host under no pressure but that of its swap file. -/
def hostSample (availableMiB : ℤ) (swapAvailableBytes : ℕ) : Snapshot :=
  ⟨32768,availableMiB,0,10,swapAvailableBytes,.normal⟩

/-- Guest `a` gives up 1000 MiB. -/
def squeezeTick : Tick :=
  ⟨["a"],by decide,fun _ => liveGuest 4096 4096,hostSample 5144 10,6144,1024,0,0⟩

/-- Guest `b` joins while the latch holds `a` back. -/
def latchedJoinTick : Tick :=
  ⟨["a","b"],by decide,fun n => liveGuest 4096 (if n = "a" then 3096 else 4096),
    hostSample 8192 1,6144,1024,0,60*10^9⟩

/-- The latch clears. -/
def clearTick : Tick :=
  ⟨["a","b"],by decide,fun n => liveGuest 4096 (if n = "a" then 3096 else 4096),
    hostSample 8192 10,6144,1024,0,120*10^9⟩

/-- The ledger after `b` joined. -/
def joinedLedger : Manager := runTicks (startManager ⟨0,0⟩) [squeezeTick,latchedJoinTick]

lemma joinedLedger_reachable : Reachable ⟨0,0⟩ joinedLedger := ⟨_,rfl⟩

theorem clearTick_calm : Calm joinedLedger clearTick where
  noHold := rfl
  active := by decide
  rested := by
    have h : ∀ n ∈ clearTick.names, (joinedLedger.lastRetarget n).all
        fun last => joinedLedger.minRetargetInterval ≤ clearTick.now-last := by decide
    intro n hn last hla
    simpa [hla] using h n hn
  accepting _ _ _ := rfl
  truthful _ _ := trivial

end

/-- A guest reclaimed before a latch stays reclaimed: one that joined took the last deficit to zero.
-/
theorem latched_join_strands_guest :
    Reachable ⟨0,0⟩ joinedLedger ∧ Calm joinedLedger clearTick ∧
      (updatePressureLatch joinedLedger clearTick.sample).pressureLatched = false ∧
      clearTick.reserveMiB-clearTick.sample.availableMiB < joinedLedger.deadbandMiB ∧
      ¬ReleasesAll joinedLedger clearTick := by
  refine ⟨joinedLedger_reachable,clearTick_calm,by decide,by decide,fun h => ?_⟩
  exact absurd (h "a" (by decide)) (by decide)

/-- At the same tick a fresh manager strands nobody. -/
theorem fresh_manager_releasesAll : ReleasesAll (startManager ⟨0,0⟩) clearTick := by
  have hreach : Reachable ⟨0,0⟩ (startManager ⟨0,0⟩) := ⟨[],rfl⟩
  have hcalm : Calm (startManager ⟨0,0⟩) clearTick :=
    ⟨rfl,fun _ _ => rfl,by simp [startManager,newManager],fun _ _ _ => rfl,fun _ _ => trivial⟩
  exact (releasesAll_iff_not_stranded hreach hcalm (by decide) (by decide)).mpr
    fun h => absurd h.known (by decide)

section

variable {cfg : Config} {m : Manager} {x : Tick}

/-- What the guests of the tick have given up when each holds `held n`. -/
def Tick.givenUp (x : Tick) (held : String → ℤ) : ℤ :=
  (x.names.map fun n => (x.guest n).configuredMiB-held n).sum

/-- The deficit, or all above the floor, less one MiB of residue for all but one guest and less the
deadband. -/
def Tick.dueMiB (x : Tick) (m : Manager) : ℤ :=
  min (x.naturalDeficit m) (x.names.map fun n => max 0 ((x.guest n).configuredMiB-x.floorMiB)).sum
    - (x.names.length-1) - m.deadbandMiB

theorem planActive_le (names : List String) (guest : String → Guest) (deficitMiB floorMiB : ℤ)
    (n : String) : planActive m names guest deficitMiB floorMiB n ≤
      planTargets (planNodes (activeNames m names) guest) deficitMiB floorMiB n := by
  simp only [planActive]
  by_cases hlch : m.pressureLatched
  · simp only [hlch,↓reduceIte]
    cases m.last n with
    | none => exact le_rfl
    | some previous =>
      simp only
      split_ifs with hceil
      · exact hceil.le
      · exact le_rfl
  · simp [hlch]

theorem dueMiB_le_plan (hm : Ledger m) (hca : Calm m x) (hflr : 0 ≤ x.floorMiB)
    (hdef : m.deadbandMiB ≤ x.naturalDeficit m) : x.dueMiB m ≤ x.givenUp (x.plan m) := by
  have hpos := hm.deadband_pos
  have hact : activeNames (updatePressureLatch m x.sample) x.names = x.names :=
    activeNames_calm (by simpa using hca.active)
  have hblw : reclaimed (planNodes x.names x.guest)
      (planTargets (planNodes x.names x.guest) (x.naturalDeficit m) x.floorMiB) ≤
      x.givenUp (x.plan m) := by
    simp only [reclaimed,planNodes,map_map]
    apply sum_le_sum
    intro n _
    have h := planActive_le (m := updatePressureLatch m x.sample) x.names x.guest
      (x.deficit m) x.floorMiB n
    rw [hact,hca.deficit] at h
    simp only [Tick.plan,hca.deficit]
    exact sub_le_sub_left h _
  by_cases hne : x.names = []
  · simp only [Tick.dueMiB,Tick.givenUp,hne,map_nil]
    omega
  · have hnms : ((planNodes x.names x.guest).map Node.name).Nodup := by
      rw [planNodes_names]
      exact x.nodup
    have hpn := le_reclaimed_planTargets hnms (sized_of_nonneg hflr) (hpos.trans_le hdef)
      (by simpa [planNodes] using hne)
    simp only [reclaimable,planNodes,map_map,Function.comp_def,length_map] at hpn hblw
    simp only [Tick.dueMiB]
    omega

/-- The deficit is within the deadband of the last one and every record stands, yet less than is due
is given up. -/
structure Underreclaimed (m : Manager) (x : Tick) : Prop where
  known : m.lastAppliedKnown
  unheld : m.lastAppliedHold = false
  near : |x.naturalDeficit m-m.lastAppliedDeficit| < m.deadbandMiB
  stand : RecordsStand m x (x.plan m)
  short : x.givenUp (fun n => (x.guest n).heldMiB) < x.dueMiB m

/-- A calm tick with a natural deficit ends with the due reclaim, except where an earlier deficit
hides what is owed. -/
theorem reclaims_due_iff_not_underreclaimed (hm : Reachable cfg m) (hcalm : Calm m x)
    (hflr : 0 ≤ x.floorMiB) (hdef : m.deadbandMiB ≤ x.naturalDeficit m) :
    x.dueMiB m ≤ x.givenUp (fun n => ((reconcileSnapshot m x).guest n).heldMiB) ↔
      ¬Underreclaimed m x := by
  obtain ⟨hkept,hmvd⟩ := reconcileSnapshot_calm hcalm
  have hshor : x.shortcut m = true ↔ m.lastAppliedHold = false ∧ m.lastAppliedKnown = true ∧
      |x.naturalDeficit m-m.lastAppliedDeficit| < m.deadbandMiB ∧ RecordsStand m x (x.plan m) := by
    simp [Tick.shortcut,deadbandShortcut,hcalm.holdSetsDeficit,hcalm.deficit,
      unappliedTarget_eq_false,and_assoc]
  cases hs : x.shortcut m with
  | false =>
    have hheld : x.givenUp (fun n => ((reconcileSnapshot m x).guest n).heldMiB) =
        x.givenUp (x.plan m) := by
      simp only [Tick.givenUp]
      congr 1
      exact map_congr_left fun n hn => by rw [hmvd hs n hn]
    rw [hheld]
    refine iff_of_true (dueMiB_le_plan hm.ledger hcalm hflr hdef) fun h => ?_
    have htrue := hshor.mpr ⟨h.unheld,h.known,h.near,h.stand⟩
    simp [hs] at htrue
  | true =>
    obtain ⟨hhold,hkn,hnear,hstand⟩ := hshor.mp hs
    simp only [hkept hs]
    constructor
    · exact fun hdue h => absurd h.short (not_lt.mpr hdue)
    · intro h
      by_contra hsh
      exact h ⟨hkn,hhold,hnear,hstand,not_le.mp hsh⟩

end

section

/-- Two guests give up 1000 MiB each. -/
def pairTick : Tick :=
  ⟨["a","b"],by decide,fun _ => liveGuest 4096 4096,hostSample 4144 10,6144,1024,0,0⟩

/-- Guest `b` has left and the deficit is the same again. -/
def departedTick : Tick :=
  ⟨["a"],by decide,fun _ => liveGuest 4096 3096,hostSample 4144 10,6144,1024,0,60*10^9⟩

def pairLedger : Manager := runTicks (startManager ⟨0,0⟩) [pairTick]

theorem departedTick_calm : Calm pairLedger departedTick where
  noHold := rfl
  active := by decide
  rested := by
    have h : ∀ n ∈ departedTick.names, (pairLedger.lastRetarget n).all
        fun last => pairLedger.minRetargetInterval ≤ departedTick.now-last := by decide
    intro n hn last hla
    simpa [hla] using h n hn
  accepting _ _ _ := rfl
  truthful _ _ := trivial

end

/-- A guest that leaves takes its share with it, and nobody makes it up. -/
theorem departed_share_not_made_up :
    Reachable ⟨0,0⟩ pairLedger ∧ Calm pairLedger departedTick ∧
      0 ≤ departedTick.floorMiB ∧
      pairLedger.deadbandMiB ≤ departedTick.naturalDeficit pairLedger ∧
      (∀ n ∈ departedTick.names,
        (departedTick.guest n).currentTargetMiB = pairLedger.last n) ∧
      departedTick.givenUp
        (fun n => ((reconcileSnapshot pairLedger departedTick).guest n).heldMiB) <
        departedTick.dueMiB pairLedger :=
  ⟨⟨_,rfl⟩,departedTick_calm,by decide,by decide,by decide,by decide⟩

/-- At the same tick a fresh manager reclaims what is due. -/
theorem fresh_manager_reclaims_due :
    departedTick.dueMiB (startManager ⟨0,0⟩) ≤ departedTick.givenUp
      (fun n => ((reconcileSnapshot (startManager ⟨0,0⟩) departedTick).guest n).heldMiB) := by
  have hreach : Reachable ⟨0,0⟩ (startManager ⟨0,0⟩) := ⟨[],rfl⟩
  have hcalm : Calm (startManager ⟨0,0⟩) departedTick :=
    ⟨rfl,fun _ _ => rfl,by simp [startManager,newManager],fun _ _ _ => rfl,fun _ _ => trivial⟩
  exact (reclaims_due_iff_not_underreclaimed hreach hcalm (by decide) (by decide)).mpr
    fun h => absurd h.known (by decide)

end TalosBox.Balloon
