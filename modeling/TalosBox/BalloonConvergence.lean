import TalosBox.BalloonManager
import TalosBox.KeyedFold

/-! Where every guest accepts its target, nobody waits for a retry window and no device is pending,
each guest ends at its planned target, unless the deadband shortcut ends the tick first. -/
namespace TalosBox.Balloon

open KeyedFold

/-- The guest grants every request. -/
def Accepting (g : Guest) : Prop := ∀ k, g.answers k = .accepted

/-- The guest holds what it reports, or what the manager last recorded for it. -/
def Truthful (g : Guest) (previous : Option ℤ) : Prop :=
  match g.readback with
  | .silent => ∀ target, previous = some target → g.heldMiB = target
  | .snapshot target => target = g.heldMiB
  | .live => True

theorem externallyMovedTarget_eq_none {g : Guest} {previous : ℤ} :
    externallyMovedTarget g (some previous) = none ↔
      ∀ target, g.currentTargetMiB = some target → target = previous := by
  cases h : g.currentTargetMiB with
  | none => simp [externallyMovedTarget,h]
  | some target => simp [externallyMovedTarget,h]

theorem knownTarget_eq_some {g : Guest} {previous : Option ℤ} {target : ℤ} :
    knownTarget g previous = some target ↔
      externallyMovedTarget g previous = none ∧ previous = some target := by
  unfold knownTarget
  cases h : externallyMovedTarget g previous <;> simp

/-- A guest whose record stands holds its record. -/
theorem held_of_known {g : Guest} {previous : Option ℤ} (ht : Truthful g previous) {target : ℤ}
    (h : knownTarget g previous = some target) : g.heldMiB = target := by
  obtain ⟨hmvd,rfl⟩ := knownTarget_eq_some.1 h
  have hcur := externallyMovedTarget_eq_none.1 hmvd
  cases hr : g.readback with
  | silent => simpa [Truthful,hr] using ht
  | snapshot current =>
    have heq : current = g.heldMiB := by simpa [Truthful,hr] using ht
    exact heq.symm.trans (hcur current (by simp [Guest.currentTargetMiB,hr]))
  | live => exact hcur g.heldMiB (by simp [Guest.currentTargetMiB,hr])

lemma setMemoryTargetMiB_accepting {g : Guest} (h : Accepting g) (target : ℤ) :
    g.setMemoryTargetMiB target = (.accepted,{ g with heldMiB := target,asked := g.asked+1 }) := by
  simp [Guest.setMemoryTargetMiB,h g.asked]

/-- The part of the state that decides what happens to one guest. -/
def view (n : String) (s : State) : Guest × Option ℤ × Option ℤ × ℤ :=
  (s.guest n,s.manager.last n,s.manager.lastRetarget n,s.manager.minRetargetInterval)

section

variable (x : Tick) (holdSetsDeficit : Bool) (deficitMiB : ℤ) {tgts : Targets}
  {reductions : Bool}

variable {k n : String}

theorem applyTarget_view {s : State} (h : k ≠ n) (target : ℤ) :
    view n (applyTarget x holdSetsDeficit deficitMiB s k target).2 = view n s := by
  simp only [applyTarget,State.ask]
  split_ifs
  · rfl
  · rfl
  · split <;> simp [view,recordPending,recordFailed,recordApplied,Function.update_of_ne h.symm]

variable {p : Progress}

theorem visit_view (h : k ≠ n) :
    view n (visit x holdSetsDeficit deficitMiB tgts reductions p k).state = view n p.state := by
  simp only [visit]
  split_ifs
  · rfl
  · rfl
  · have hvw := applyTarget_view x holdSetsDeficit deficitMiB (s := p.state) h (tgts k)
    split <;> exact hvw

theorem visit_appliedThisTick (h : k ≠ n) :
    (visit x holdSetsDeficit deficitMiB tgts reductions p k).appliedThisTick n =
      p.appliedThisTick n := by
  simp only [visit]
  split_ifs
  · rfl
  · rfl
  · split <;> simp [Function.update_of_ne h.symm]

/-- The three things a request to an accepting guest can come to. -/
theorem applyTarget_accepting {s : State} (ha : Accepting (s.guest n)) (target : ℤ) :
    let r := applyTarget x holdSetsDeficit deficitMiB s n target
    (r = (.skipped,s) ∧ knownTarget (s.guest n) (s.manager.last n) = some target) ∨
    (r.1 = .skipped ∧ view n r.2 = view n s ∧ withinRetargetWindow s.manager n x.now) ∨
    (r.1 = .applied ∧ r.2.manager.last n = some target ∧
      r.2.guest n = { s.guest n with heldMiB := target,asked := (s.guest n).asked+1 }) := by
  simp only [applyTarget]
  split_ifs with hkno hwin
  · exact .inl ⟨rfl,knownTarget_eq_some.2 hkno⟩
  · simp only [Bool.and_eq_true] at hwin
    exact .inr (.inl ⟨rfl,rfl,hwin.2⟩)
  · right; right
    simp [State.ask,setMemoryTargetMiB_accepting ha,recordApplied]

/-- A guest this tick has not asked yet and may ask. -/
structure Ready (n : String) (p : Progress) : Prop where
  accepting : Accepting (p.state.guest n)
  rested : withinRetargetWindow p.state.manager n x.now = false
  truthful : Truthful (p.state.guest n) (p.state.manager.last n)
  unapplied : p.appliedThisTick n = none

/-- A guest at its planned target, with the record to match. -/
structure Settled (targets : Targets) (n : String) (p : Progress) : Prop where
  accepting : Accepting (p.state.guest n)
  held : (p.state.guest n).heldMiB = targets n
  recorded : p.state.manager.last n = some (targets n)

/-- The guest is above its target as far as the manager can tell. -/
def Above (targets : Targets) (n : String) (p : Progress) : Prop :=
  targets n < currentMiB p.state.manager (p.state.guest n) n

theorem Ready.of_view {q : Progress} (h : Ready x n p)
    (hvw : view n q.state = view n p.state) (happ : q.appliedThisTick n = p.appliedThisTick n) :
    Ready x n q := by
  simp only [view,Prod.mk.injEq] at hvw
  obtain ⟨hgst,hla,hreta,hinte⟩ := hvw
  refine ⟨hgst ▸ h.accepting,?_,hla ▸ hgst ▸ h.truthful,happ.trans h.unapplied⟩
  have := h.rested
  simpa only [withinRetargetWindow,hreta,hinte] using this

theorem Settled.of_view {q : Progress} (h : Settled tgts n p)
    (hvw : view n q.state = view n p.state) : Settled tgts n q := by
  simp only [view,Prod.mk.injEq] at hvw
  exact ⟨hvw.1 ▸ h.accepting,hvw.1 ▸ h.held,hvw.2.1 ▸ h.recorded⟩

theorem above_of_view {q : Progress} (hvw : view n q.state = view n p.state) :
    Above tgts n q ↔ Above tgts n p := by
  simp only [view,Prod.mk.injEq] at hvw
  simp only [Above,currentMiB,hvw.1,hvw.2.1]

theorem Settled.visit_self (h : Settled tgts n p) :
    Settled tgts n (visit x holdSetsDeficit deficitMiB tgts reductions p n) := by
  simp only [visit]
  split_ifs
  · exact h
  · exact h
  · rcases applyTarget_accepting x holdSetsDeficit deficitMiB h.accepting (tgts n) with
      ⟨hr,-⟩ | ⟨hr,hvw,-⟩ | ⟨hr,hla,hgst⟩
    · simp only [hr]
      exact h.of_view rfl
    · simp only [hr]
      exact h.of_view hvw
    · simp only [hr]
      exact ⟨hgst ▸ h.accepting,by simp [hgst],hla⟩

/-- In the pass of its own direction a ready guest is settled. -/
theorem Ready.visit_self (h : Ready x n p)
    (hdir : reductions ↔ Above tgts n p) :
    Settled tgts n (visit x holdSetsDeficit deficitMiB tgts reductions p n) := by
  have hsk : ¬decide (tgts n < currentMiB p.state.manager (p.state.guest n) n) ≠ reductions := by
    rw [not_not,Bool.eq_iff_iff,decide_eq_true_iff]
    exact hdir.symm
  have happ : ¬(p.appliedThisTick n).any (· ≤ tgts n) := by simp [h.unapplied]
  simp only [visit,hsk,happ]
  rcases applyTarget_accepting x holdSetsDeficit deficitMiB h.accepting (tgts n) with
    ⟨hr,hkno⟩ | ⟨-,-,hwin⟩ | ⟨hr,hla,hgst⟩
  · simp only [hr]
    exact ⟨h.accepting,held_of_known h.truthful hkno,(knownTarget_eq_some.1 hkno).2⟩
  · simp [h.rested] at hwin
  · simp only [hr]
    exact ⟨hgst ▸ h.accepting,by simp [hgst],hla⟩

theorem visit_other_direction (hdir : ¬(reductions ↔ Above tgts n p)) :
    visit x holdSetsDeficit deficitMiB tgts reductions p n = p := by
  have hsk : decide (tgts n < currentMiB p.state.manager (p.state.guest n) n) ≠ reductions := by
    intro heq
    apply hdir
    rw [← heq,decide_eq_true_iff]
    exact Iff.rfl
  simp only [visit,hsk,ne_eq,not_false_eq_true,↓reduceIte]

theorem visit_newlyPending (ha : Accepting (p.state.guest n)) :
    (visit x holdSetsDeficit deficitMiB tgts reductions p n).newlyPending = p.newlyPending := by
  simp only [visit]
  split_ifs
  · rfl
  · rfl
  · rcases applyTarget_accepting x holdSetsDeficit deficitMiB ha (tgts n) with
      ⟨hr,-⟩ | ⟨hr,-,-⟩ | ⟨hr,-,-⟩ <;> simp only [hr]

theorem visit_accepting (ha : Accepting (p.state.guest n)) :
    Accepting ((visit x holdSetsDeficit deficitMiB tgts reductions p k).state.guest n) := by
  by_cases hk : k = n
  · subst hk
    simp only [visit]
    split_ifs
    · exact ha
    · exact ha
    · rcases applyTarget_accepting x holdSetsDeficit deficitMiB ha (tgts k) with
        ⟨hr,-⟩ | ⟨hr,hvw,-⟩ | ⟨hr,-,hgst⟩
      · simpa only [hr] using ha
      · simp only [view,Prod.mk.injEq] at hvw
        simpa only [hr,hvw.1] using ha
      · simp only [hr,hgst]
        exact ha
  · have hvw : view n (visit x holdSetsDeficit deficitMiB tgts reductions p k).state =
        view n p.state := visit_view x holdSetsDeficit deficitMiB hk
    simp only [view,Prod.mk.injEq] at hvw
    rw [hvw.1]
    exact ha

/-- Between two visits nobody turns out pending and every guest keeps accepting. -/
structure Smooth (active : List String) (p : Progress) : Prop where
  newlyPending : p.newlyPending = false
  accepting : ∀ n ∈ active, Accepting (p.state.guest n)

variable {active : List String}

theorem Smooth.visit (h : Smooth active p) (hk : k ∈ active) :
    Smooth active (visit x holdSetsDeficit deficitMiB tgts reductions p k) where
  newlyPending := (visit_newlyPending x holdSetsDeficit deficitMiB (h.accepting k hk)).trans
    h.newlyPending
  accepting n hn := visit_accepting x holdSetsDeficit deficitMiB (h.accepting n hn)

/-- After the reductions a guest is settled, or it still waits for the releases. -/
theorem reductions_settle (hact : active.Nodup)
    (hsmooth : Smooth active p) (hrdy : ∀ n ∈ active, Ready x n p) :
    ∀ n ∈ active,
      Settled tgts n (active.foldl (visit x holdSetsDeficit deficitMiB tgts true) p) ∨
      (Ready x n (active.foldl (visit x holdSetsDeficit deficitMiB tgts true) p) ∧
        ¬Above tgts n (active.foldl (visit x holdSetsDeficit deficitMiB tgts true) p)) := by
  refine foldl_settles
    (Q := fun n p => Settled tgts n p ∨ (Ready x n p ∧ ¬Above tgts n p))
    (fun q k hk hq => hq.visit x holdSetsDeficit deficitMiB hk) ?_ ?_ ?_ hact hsmooth hrdy
  · intro q n k _ hkn hq
    exact hq.of_view x (visit_view _ _ _ hkn) (visit_appliedThisTick _ _ _ hkn)
  · intro q n k _ hkn hq
    rcases hq with hq | ⟨hq,habv⟩
    · exact .inl (hq.of_view (visit_view _ _ _ hkn))
    · exact .inr ⟨hq.of_view x (visit_view _ _ _ hkn) (visit_appliedThisTick _ _ _ hkn),
        fun h => habv ((above_of_view (visit_view _ _ _ hkn)).1 h)⟩
  · intro q n _ _ hq
    by_cases habv : Above tgts n q
    · exact .inl (hq.visit_self x _ _ (by simp [habv]))
    · rw [visit_other_direction x holdSetsDeficit deficitMiB (by simp [habv])]
      exact .inr ⟨hq,habv⟩

theorem releases_settle (hact : active.Nodup)
    (hsmooth : Smooth active p)
    (hrdy : ∀ n ∈ active, Settled tgts n p ∨ (Ready x n p ∧ ¬Above tgts n p)) :
    ∀ n ∈ active,
      Settled tgts n (active.foldl (visit x holdSetsDeficit deficitMiB tgts false) p) := by
  refine foldl_settles
    (P := fun n p => Settled tgts n p ∨ (Ready x n p ∧ ¬Above tgts n p))
    (fun q k hk hq => hq.visit x holdSetsDeficit deficitMiB hk) ?_ ?_ ?_ hact hsmooth hrdy
  · intro q n k _ hkn hq
    rcases hq with hq | ⟨hq,habv⟩
    · exact .inl (hq.of_view (visit_view _ _ _ hkn))
    · exact .inr ⟨hq.of_view x (visit_view _ _ _ hkn) (visit_appliedThisTick _ _ _ hkn),
        fun h => habv ((above_of_view (visit_view _ _ _ hkn)).1 h)⟩
  · intro q n k _ hkn hq
    exact hq.of_view (visit_view _ _ _ hkn)
  · intro q n _ _ hq
    rcases hq with hq | ⟨hq,habv⟩
    · exact hq.visit_self x _ _
    · exact hq.visit_self x _ _ (by simp [habv])

theorem applyRound_settles (tgts : Targets) (hact : active.Nodup)
    (hrdy : ∀ n ∈ active, Ready x n p) :
    (applyRound x holdSetsDeficit deficitMiB tgts active p).newlyPending = false ∧
    ∀ n ∈ active,
      Settled tgts n (applyRound x holdSetsDeficit deficitMiB tgts active p) := by
  have hrdy₀ : ∀ n ∈ active, Ready x n { p with newlyPending := false } :=
    fun n hn => (hrdy n hn).of_view x rfl rfl
  have hsmooth₀ : Smooth active { p with newlyPending := false } :=
    ⟨rfl,fun n hn => (hrdy n hn).accepting⟩
  have hsmooth₁ := foldl_invariant
    (f := visit x holdSetsDeficit deficitMiB tgts true)
    (fun q k hk hq => hq.visit x holdSetsDeficit deficitMiB hk) hsmooth₀
  have hsmooth₂ := foldl_invariant
    (f := visit x holdSetsDeficit deficitMiB tgts false)
    (fun q k hk hq => hq.visit x holdSetsDeficit deficitMiB hk) hsmooth₁
  simp only [applyRound,hsmooth₁.newlyPending]
  exact ⟨hsmooth₂.newlyPending,releases_settle x _ _ hact hsmooth₁
    (reductions_settle x _ _ hact hsmooth₀ hrdy₀)⟩

end

/-- No hold, no pending device, no open retry window, and guests that grant every request and report
what they hold. -/
structure Calm (m : Manager) (x : Tick) : Prop where
  noHold : x.holdMiB = 0
  active : ∀ n ∈ x.names, m.devicePending n = false
  rested : ∀ n ∈ x.names, ∀ last, m.lastRetarget n = some last →
    m.minRetargetInterval ≤ x.now-last
  accepting : ∀ n ∈ x.names, Accepting (x.guest n)
  truthful : ∀ n ∈ x.names, Truthful (x.guest n) (m.last n)

section

variable {m : Manager} {x : Tick} (sample : Snapshot)

theorem updatePressureLatch_eq : updatePressureLatch m sample =
    { m with pressureLatched := (updatePressureLatch m sample).pressureLatched } := by
  simp only [updatePressureLatch]
  split_ifs <;> rfl

@[simp] lemma updatePressureLatch_last :
    (updatePressureLatch m sample).last = m.last := by
  rw [updatePressureLatch_eq]

@[simp] lemma updatePressureLatch_lastRetarget :
    (updatePressureLatch m sample).lastRetarget = m.lastRetarget := by
  rw [updatePressureLatch_eq]

@[simp] lemma updatePressureLatch_retryPending :
    (updatePressureLatch m sample).retryPending = m.retryPending := by
  rw [updatePressureLatch_eq]

@[simp] lemma updatePressureLatch_devicePending :
    (updatePressureLatch m sample).devicePending = m.devicePending := by
  rw [updatePressureLatch_eq]

@[simp] lemma updatePressureLatch_deadbandMiB :
    (updatePressureLatch m sample).deadbandMiB = m.deadbandMiB := by
  rw [updatePressureLatch_eq]

@[simp] lemma updatePressureLatch_minRetargetInterval :
    (updatePressureLatch m sample).minRetargetInterval = m.minRetargetInterval := by
  rw [updatePressureLatch_eq]

@[simp] lemma updatePressureLatch_lastAppliedDeficit :
    (updatePressureLatch m sample).lastAppliedDeficit = m.lastAppliedDeficit := by
  rw [updatePressureLatch_eq]

@[simp] lemma updatePressureLatch_lastAppliedKnown :
    (updatePressureLatch m sample).lastAppliedKnown = m.lastAppliedKnown := by
  rw [updatePressureLatch_eq]

@[simp] lemma updatePressureLatch_lastAppliedHold :
    (updatePressureLatch m sample).lastAppliedHold = m.lastAppliedHold := by
  rw [updatePressureLatch_eq]

theorem probePendingDevices_calm {s : State}
    (h : ∀ n ∈ x.names, s.manager.devicePending n = false) : probePendingDevices x s = s :=
  foldl_invariant (I := fun t => t = s) (fun t k hk ht => by
    subst ht
    simp [probePendingDevice,h k hk]) rfl

lemma activeNames_calm (h : ∀ n ∈ x.names, m.devicePending n = false) :
    activeNames m x.names = x.names :=
  List.filter_eq_self.2 fun n hn => by simp [h n hn]

theorem naturalDeficit_nonneg (deadbandMiB reserveMiB availableMiB : ℤ) :
    0 ≤ naturalDeficit deadbandMiB reserveMiB availableMiB := by
  simp only [naturalDeficit]
  split_ifs <;> omega

lemma Calm.deficit (h : Calm m x) : x.deficit m = x.naturalDeficit m := by
  have hnonneg : 0 ≤ x.naturalDeficit m := naturalDeficit_nonneg _ _ _
  simp only [Tick.deficit,h.noHold,not_lt.2 hnonneg,↓reduceIte]

lemma Calm.holdSetsDeficit (h : Calm m x) : x.holdSetsDeficit m = false := by
  simp [Tick.holdSetsDeficit,h.noHold]

/-- The plan of the tick's first round. -/
def Tick.plan (x : Tick) (m : Manager) : Targets :=
  planActive (updatePressureLatch m x.sample) x.names x.guest (x.deficit m) x.floorMiB

/-- The tick's first round finds a target it has not recorded. -/
def Tick.unappliedTarget (x : Tick) (m : Manager) : Bool :=
  (classify (updatePressureLatch m x.sample) x.names x.guest (x.plan m)).hasUnappliedTarget

/-- The tick ends at the round-0 deadband shortcut. -/
def Tick.shortcut (x : Tick) (m : Manager) : Bool :=
  deadbandShortcut m (x.holdSetsDeficit m) (x.deficit m) (x.unappliedTarget m)

theorem Calm.ready (h : Calm m x) {c : Manager} (hla : c.last = m.last)
    (hreta : c.lastRetarget = m.lastRetarget)
    (hinte : c.minRetargetInterval = m.minRetargetInterval) :
    ∀ n ∈ x.names, Ready x n ⟨⟨c,x.guest,[]⟩,fun _ => none,false,false⟩ := by
  intro n hn
  refine ⟨h.accepting n hn,?_,?_,rfl⟩
  · simp only [withinRetargetWindow,hreta,hinte]
    cases hla' : m.lastRetarget n with
    | none => rfl
    | some last =>
      have := h.rested n hn last hla'
      simpa using this
  · simpa only [hla] using h.truthful n hn

theorem reconcileSnapshot_calm (h : Calm m x) :
    (x.shortcut m → ∀ n, (reconcileSnapshot m x).guest n = x.guest n) ∧
    (x.shortcut m = false → ∀ n ∈ x.names,
      ((reconcileSnapshot m x).guest n).heldMiB = x.plan m n) := by
  have hprb : probePendingDevices x ⟨updatePressureLatch m x.sample,x.guest,[]⟩ =
      ⟨updatePressureLatch m x.sample,x.guest,[]⟩ :=
    probePendingDevices_calm (by simpa using h.active)
  have hact : activeNames (updatePressureLatch m x.sample) x.names = x.names :=
    activeNames_calm (by simpa using h.active)
  have hpn : planActive (updatePressureLatch m x.sample) x.names x.guest (x.deficit m)
      x.floorMiB = x.plan m := rfl
  obtain ⟨c,hc⟩ : ∃ c, classify (updatePressureLatch m x.sample) x.names x.guest (x.plan m) = c :=
    ⟨_,rfl⟩
  have hshor : deadbandShortcut (updatePressureLatch m x.sample) (x.holdSetsDeficit m)
      (x.deficit m) c.hasUnappliedTarget = x.shortcut m := by
    simp [Tick.shortcut,deadbandShortcut,Tick.unappliedTarget,hc]
  have hgst : (reconcileSnapshot m x).guest = (rounds x (x.holdSetsDeficit m) (x.deficit m)
      (x.names.length+1) true
      ⟨⟨updatePressureLatch m x.sample,x.guest,[]⟩,fun _ => none,false,false⟩).state.guest := by
    simp only [reconcileSnapshot,hprb]
  rw [hgst]
  simp only [rounds,hact,hpn,hc,hshor]
  cases hchan : c.changed with
  | false =>
    refine ⟨fun _ n => by simp,fun _ n hn => ?_⟩
    have hkno : knownTarget (x.guest n) (m.last n) = some (x.plan m n) := by
      simp only [← hc,classify,updatePressureLatch_last,List.any_eq_false,decide_eq_true_eq,
        not_not] at hchan
      exact hchan n hn
    simpa using held_of_known (h.truthful n hn) hkno
  | true =>
    cases hs : x.shortcut m with
    | true => simp
    | false =>
      refine ⟨by simp,fun _ n hn => ?_⟩
      have hrdy : ∀ n ∈ x.names,
          Ready x n ⟨⟨c.manager,x.guest,[]⟩,fun _ => none,false,false⟩ :=
        h.ready (by simp [← hc,classify]) (by simp [← hc,classify]) (by simp [← hc,classify])
      obtain ⟨hpnd,hset⟩ := applyRound_settles x (x.holdSetsDeficit m) (x.deficit m)
        (x.plan m) x.nodup hrdy
      simp only [hpnd]
      exact (hset n hn).held

end

end TalosBox.Balloon
