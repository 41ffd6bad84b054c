import TalosBox.BalloonReachable

/-! The pressure latch as a veto. It works through the manager's record of a guest, so it is missing
where there is none, and a probe of a pending device goes around it. -/
namespace TalosBox.Balloon

open KeyedFold List

/-- The target the guest reports; nought is no report. -/
def Guest.Reports (g : Guest) (current : ℤ) : Prop := g.currentTargetMiB = some current ∧ 0 < current

/-- The guest was not asked for more than the target it reported. -/
def Call.Withheld (c : Call) : Prop :=
  ∀ current, c.current = some current → 0 < current → c.targetMiB ≤ current

def HandsNothingBack (m : Manager) (x : Tick) : Prop :=
  ∀ c ∈ (reconcileSnapshot m x).calls, c.Withheld

/-- The latch when the tick applies its targets. -/
def Tick.latched (x : Tick) (m : Manager) : Bool := (updatePressureLatch m x.sample).pressureLatched

/-- Whichever guests share the deficit, this one is planned at or under `current`. -/
def Tick.PlansBelow (x : Tick) (m : Manager) (n : String) (current : ℤ) : Prop :=
  ∀ active : List String, active.Sublist x.names → n ∈ active →
    planTargets (planNodes active x.guest) (x.deficit m) x.floorMiB n ≤ current

/-- A guest due for a probe reports its configured size, and one without a record is not planned
above what it reports. -/
structure Covered (m : Manager) (x : Tick) : Prop where
  probed : ∀ n ∈ x.names, ∀ current, (x.guest n).Reports current → m.devicePending n →
    withinRetargetWindow m n x.now = false → (x.guest n).configuredMiB ≤ current
  planned : ∀ n ∈ x.names, ∀ current, (x.guest n).Reports current → m.devicePending n = false →
    m.last n = none → x.PlansBelow m n current

theorem setMemoryTargetMiB_configuredMiB (g : Guest) (tgt : ℤ) :
    (g.setMemoryTargetMiB tgt).2.configuredMiB = g.configuredMiB := by
  unfold Guest.setMemoryTargetMiB
  split <;> rfl

theorem setMemoryTargetMiB_refused {g : Guest} {tgt : ℤ}
    (h : (g.setMemoryTargetMiB tgt).1 ≠ .accepted) :
    (g.setMemoryTargetMiB tgt).2.currentTargetMiB = g.currentTargetMiB := by
  unfold Guest.setMemoryTargetMiB at h ⊢
  cases hans : g.answers g.asked with
  | accepted => simp [hans] at h
  | quiesced => rfl
  | pending => rfl
  | failed => rfl

/-- Within a tick the manager's knowledge of its guests only grows, once the probes are over. -/
structure Manager.Grows (m m' : Manager) : Prop where
  latched : m'.pressureLatched = m.pressureLatched
  pending : ∀ n, m.devicePending n → m'.devicePending n
  recorded : ∀ n, (m.last n).isSome → (m'.last n).isSome

lemma Manager.Grows.refl (m : Manager) : m.Grows m := ⟨rfl,fun _ h => h,fun _ h => h⟩

theorem update_true {f : String → Bool} (k n : String) (h : f n) :
    Function.update f k true n := by
  by_cases hn : n = k
  · simp [hn]
  · simpa [hn] using h

section

variable (x : Tick) (hold : Bool) (deficitMiB : ℤ) {tgts : Targets} {reductions : Bool}

theorem applyTarget_cases (s : State) (k : String) (tgt : ℤ) :
    let r := applyTarget x hold deficitMiB s k tgt
    s.manager.Grows r.2.manager ∧
    ((r.1 ≠ .applied ∧ r.2.guest = s.guest ∧ r.2.calls = s.calls) ∨
      (r.2.guest = (s.ask k tgt).2.guest ∧ r.2.calls = (s.ask k tgt).2.calls ∧
        ((s.ask k tgt).1 = .accepted ∧ r.1 = .applied ∧ (r.2.manager.last k).isSome ∨
          (s.ask k tgt).1 ≠ .accepted ∧ r.1 ≠ .applied))) := by
  simp only [applyTarget]
  split_ifs with hkn hwin
  · exact ⟨.refl _,.inl ⟨by simp,rfl,rfl⟩⟩
  · exact ⟨⟨rfl,fun _ h => h,fun _ h => h⟩,.inl ⟨by simp,rfl,rfl⟩⟩
  · cases hans : (s.ask k tgt).1 with
    | quiesced => exact ⟨.refl _,.inr ⟨rfl,rfl,.inr ⟨by simp,by simp⟩⟩⟩
    | pending =>
      refine ⟨⟨rfl,fun n hn => ?_,fun _ h => h⟩,.inr ⟨rfl,rfl,.inr ⟨by simp,by simp⟩⟩⟩
      exact update_true k n hn
    | failed => exact ⟨⟨rfl,fun _ h => h,fun _ h => h⟩,.inr ⟨rfl,rfl,.inr ⟨by simp,by simp⟩⟩⟩
    | accepted =>
      refine ⟨⟨rfl,fun _ h => h,fun n hn => ?_⟩,.inr ⟨rfl,rfl,.inl ⟨rfl,rfl,?_⟩⟩⟩
      · by_cases hk : n = k
        · simp [recordApplied,hk]
        · simpa [recordApplied,hk] using hn
      · simp [recordApplied]

variable (m : Manager)

/-- The guest is out of the plan, on record, or planned at or under what it still reports. -/
def Cover (s : State) (n : String) : Prop :=
  s.manager.devicePending n ∨ (s.manager.last n).isSome ∨
    ((s.guest n).currentTargetMiB = (x.guest n).currentTargetMiB ∧
      ∀ current, (x.guest n).Reports current → x.PlansBelow m n current)

/-- What holds between two requests of a latched tick. -/
structure Watch (s : State) : Prop where
  latched : s.manager.pressureLatched
  configured : ∀ n, (s.guest n).configuredMiB = (x.guest n).configuredMiB
  withheld : ∀ c ∈ s.calls, c.Withheld

/-- The target is in place already, or is no more than the guest reports. -/
def Aimed (targets : Targets) (n : String) (p : Progress) : Prop :=
  (p.appliedThisTick n).any (· ≤ targets n) ∨
    ∀ current, (p.state.guest n).Reports current → targets n ≤ current

variable {x m}

theorem ask_configured {s : State} (h : ∀ n, (s.guest n).configuredMiB = (x.guest n).configuredMiB)
    (k : String) (tgt : ℤ) (n : String) :
    ((s.ask k tgt).2.guest n).configuredMiB = (x.guest n).configuredMiB := by
  by_cases hn : n = k
  · subst hn
    simpa [State.ask] using (setMemoryTargetMiB_configuredMiB (s.guest n) tgt).trans (h n)
  · simpa [State.ask,hn] using h n

theorem Watch.ask {s : State} (h : Watch x s) {k : String} {tgt : ℤ}
    (hk : ∀ current, (s.guest k).Reports current → tgt ≤ current) :
    ∀ c ∈ (s.ask k tgt).2.calls, c.Withheld := by
  intro c hc
  rcases mem_append.1 hc with hc | hc
  · exact h.withheld c hc
  · rw [mem_singleton] at hc
    subst hc
    exact fun current hcur hpos => hk current ⟨hcur,hpos⟩

theorem Cover.grow {s s' : State} {n : String} (h : Cover x m s n) (hm : s.manager.Grows s'.manager)
    (hn : (s'.manager.last n).isSome ∨ (s'.guest n).currentTargetMiB = (s.guest n).currentTargetMiB) :
    Cover x m s' n := by
  rcases h with hpnd | hrec | ⟨hsm,hpn⟩
  · exact .inl (hm.pending n hpnd)
  · exact .inr (.inl (hm.recorded n hrec))
  · rcases hn with hrec | hcur
    · exact .inr (.inl hrec)
    · exact .inr (.inr ⟨hcur.trans hsm,hpn⟩)

/-- A request for no more than the guest reports leaves the others alone, and the guest on record or
as it was. -/
theorem Watch.applyTarget {s : State} (h : Watch x s) {k : String} {tgt : ℤ}
    (hk : ∀ current, (s.guest k).Reports current → tgt ≤ current) :
    let r := applyTarget x hold deficitMiB s k tgt
    Watch x r.2 ∧ (∀ n, n ≠ k → r.2.guest n = s.guest n) ∧
      (r.1 = .applied ∧ (r.2.manager.last k).isSome ∨
        r.1 ≠ .applied ∧ (r.2.guest k).currentTargetMiB = (s.guest k).currentTargetMiB) := by
  obtain ⟨hgrows,⟨hkp,hgst,hcl⟩ | ⟨hgst,hcl,hans⟩⟩ :=
    applyTarget_cases x hold deficitMiB s k tgt
  · refine ⟨⟨hgrows.latched.trans h.latched,?_,?_⟩,?_,.inr ⟨hkp,by rw [hgst]⟩⟩
    · rw [hgst]
      exact h.configured
    · rw [hcl]
      exact h.withheld
    · intro n _
      rw [hgst]
  · refine ⟨⟨hgrows.latched.trans h.latched,?_,?_⟩,?_,?_⟩
    · rw [hgst]
      exact ask_configured h.configured k tgt
    · rw [hcl]
      exact h.ask hk
    · intro n hn
      rw [hgst]
      simp [State.ask,hn]
    · rcases hans with ⟨-,happ,hrec⟩ | ⟨hrf,hkp⟩
      · exact .inl ⟨happ,hrec⟩
      · refine .inr ⟨hkp,?_⟩
        rw [hgst]
        simpa [State.ask] using setMemoryTargetMiB_refused hrf

theorem Aimed.congr {p q : Progress} {n : String} (h : Aimed tgts n p)
    (happ : q.appliedThisTick n = p.appliedThisTick n)
    (hcur : (q.state.guest n).currentTargetMiB = (p.state.guest n).currentTargetMiB) :
    Aimed tgts n q := by
  unfold Aimed Guest.Reports
  rw [happ,hcur]
  exact h

variable (reductions) in
theorem visit_watch {p : Progress} {k : String} (h : Watch x p.state) (hk : Aimed tgts k p)
    (hcvr : ∀ n ∈ x.names, Cover x m p.state n) :
    let q := visit x hold deficitMiB tgts reductions p k
    Watch x q.state ∧ (∀ n ∈ x.names, Cover x m q.state n) ∧ ∀ n, Aimed tgts n p → Aimed tgts n q := by
  simp only [visit]
  split_ifs with hdire happ
  · exact ⟨h,hcvr,fun _ hn => hn⟩
  · exact ⟨h,hcvr,fun _ hn => hn⟩
  obtain ⟨hwt,hos,hsf⟩ :=
    h.applyTarget hold deficitMiB (hk.resolve_left happ)
  have hgrows := (applyTarget_cases x hold deficitMiB p.state k (tgts k)).1
  generalize applyTarget x hold deficitMiB p.state k (tgts k) = r at *
  have hcvr' : ∀ n ∈ x.names, Cover x m r.2 n := by
    intro n hn
    refine (hcvr n hn).grow hgrows ?_
    by_cases hnk : n = k
    · subst hnk
      exact hsf.imp And.right And.right
    · exact .inr (by rw [hos n hnk])
  have hrep : r.1 ≠ .applied → ∀ n,
      (r.2.guest n).currentTargetMiB = (p.state.guest n).currentTargetMiB := by
    intro hkp n
    by_cases hnk : n = k
    · subst hnk
      exact (hsf.resolve_left fun hsf => hkp hsf.1).2
    · rw [hos n hnk]
  cases houtc : r.1 with
  | applied =>
    refine ⟨hwt,hcvr',fun n hn => ?_⟩
    by_cases hnk : n = k
    · subst hnk
      exact .inl (by simp)
    · exact hn.congr (by simp [hnk]) (by rw [hos n hnk])
  | pending => exact ⟨hwt,hcvr',fun n hn => hn.congr rfl (hrep (by simp [houtc]) n)⟩
  | skipped => exact ⟨hwt,hcvr',fun n hn => hn.congr rfl (hrep (by simp [houtc]) n)⟩
  | failed => exact ⟨hwt,hcvr',fun n hn => hn.congr rfl (hrep (by simp [houtc]) n)⟩

variable (tgts) in
theorem applyRound_watch (active : List String) {p : Progress} (h : Watch x p.state)
    (hcvr : ∀ n ∈ x.names, Cover x m p.state n) (haimed : ∀ n ∈ active, Aimed tgts n p) :
    let q := applyRound x hold deficitMiB tgts active p
    Watch x q.state ∧ ∀ n ∈ x.names, Cover x m q.state n := by
  have hps : ∀ reductions (p : Progress), (Watch x p.state ∧ (∀ n ∈ x.names, Cover x m p.state n) ∧
      ∀ n ∈ active, Aimed tgts n p) →
      let q := active.foldl (visit x hold deficitMiB tgts reductions) p
      Watch x q.state ∧ (∀ n ∈ x.names, Cover x m q.state n) ∧ ∀ n ∈ active, Aimed tgts n q := by
    intro reductions p hp
    refine foldl_invariant (I := fun p : Progress => Watch x p.state ∧
      (∀ n ∈ x.names, Cover x m p.state n) ∧ ∀ n ∈ active, Aimed tgts n p) ?_ hp
    rintro p k hk ⟨hwt,hcvr,haimed⟩
    obtain ⟨hwt',hcvr',haimed'⟩ := visit_watch hold deficitMiB reductions
      hwt (haimed k hk) hcvr
    exact ⟨hwt',hcvr',fun n hn => haimed' n (haimed n hn)⟩
  have hfst := hps true { p with newlyPending := false }
    ⟨h,hcvr,fun n hn => (haimed n hn).congr rfl rfl⟩
  simp only [applyRound]
  split_ifs
  · exact ⟨hfst.1,hfst.2.1⟩
  · exact (hps false _ hfst).imp_right And.left

/-- A record caps a plan at what the guest reports, and a guest without one is covered otherwise. -/
theorem planActive_aimed {s : State} (h : Watch x s) (hcvr : ∀ n ∈ x.names, Cover x m s n) {n : String}
    (hn : n ∈ activeNames s.manager x.names) {current : ℤ} (hcur : (s.guest n).Reports current) :
    planActive s.manager x.names s.guest (x.deficit m) x.floorMiB n ≤ current := by
  obtain ⟨hmem,hact⟩ := mem_filter.1 hn
  simp only [planActive,h.latched,↓reduceIte]
  cases hla : s.manager.last n with
  | some prev =>
    have hceil : latchCeiling (s.guest n) prev ≤ current := by
      rw [latchCeiling,hcur.1]
      have := hcur.2
      dsimp only
      split_ifs <;> omega
    dsimp only
    split_ifs <;> omega
  | none =>
    have hnds : planNodes (activeNames s.manager x.names) s.guest =
        planNodes (activeNames s.manager x.names) x.guest := by
      simp [planNodes,h.configured]
    rcases hcvr n hmem with hpnd | hrec | ⟨hsm,hpn⟩
    · simp [hpnd] at hact
    · simp [hla] at hrec
    · dsimp only
      rw [hnds]
      exact hpn current ⟨hsm.symm.trans hcur.1,hcur.2⟩ _ filter_sublist hn

theorem rounds_watch {fuel : ℕ} {first : Bool} {p : Progress} (h : Watch x p.state)
    (hcvr : ∀ n ∈ x.names, Cover x m p.state n) :
    ∀ c ∈ (rounds x hold (x.deficit m) fuel first p).state.calls, c.Withheld := by
  induction fuel generalizing first p with
  | zero => exact h.withheld
  | succ fuel ih =>
    simp only [rounds]
    split_ifs with hchan hshor hpnd
    · exact h.withheld
    · exact h.withheld
    all_goals
      obtain ⟨hwt,hcove⟩ := applyRound_watch hold (x.deficit m)
        (planActive p.state.manager x.names p.state.guest (x.deficit m) x.floorMiB)
        (activeNames p.state.manager x.names)
        (p := { p with state := { p.state with manager := (classify p.state.manager
          (activeNames p.state.manager x.names) p.state.guest
          (planActive p.state.manager x.names p.state.guest (x.deficit m) x.floorMiB)).manager } })
        ⟨h.latched,h.configured,h.withheld⟩ hcvr
        (fun n hn => .inr fun current hcur => planActive_aimed h hcvr hn hcur)
    · exact ih hwt hcove
    · exact hwt.withheld

end

section

variable {x : Tick} {m : Manager}

/-- What a probe of one guest reads. -/
def probeView (n : String) (s : State) : Guest × Bool × Option ℤ × Option ℤ × ℤ :=
  (s.guest n,s.manager.devicePending n,s.manager.last n,s.manager.lastRetarget n,
    s.manager.minRetargetInterval)

theorem probePendingDevice_view {s : State} {k n : String} (h : n ≠ k) :
    probeView n (probePendingDevice x s k) = probeView n s := by
  simp only [probePendingDevice,State.ask]
  split_ifs
  · rfl
  · split <;> simp [probeView,h]

/-- A guest that is probed was pending, and is pending still or on record. -/
theorem probePendingDevice_cases (s : State) (k : String) :
    let s' := probePendingDevice x s k
    s'.manager.pressureLatched = s.manager.pressureLatched ∧
    (s' = s ∧ (s.manager.devicePending k = false ∨ withinRetargetWindow s.manager k x.now) ∨
      (s.manager.devicePending k ∧ withinRetargetWindow s.manager k x.now = false ∧
        s'.guest = (s.ask k (s.guest k).configuredMiB).2.guest ∧
        s'.calls = (s.ask k (s.guest k).configuredMiB).2.calls ∧
        (s'.manager.devicePending k ∨ (s'.manager.last k).isSome))) := by
  simp only [probePendingDevice]
  split_ifs with hsk
  · exact ⟨rfl,.inl ⟨rfl,by simpa using hsk⟩⟩
  · simp only [Bool.or_eq_true,Bool.not_eq_true',not_or,Bool.not_eq_false,Bool.not_eq_true] at hsk
    cases (s.ask k (s.guest k).configuredMiB).1 with
    | quiesced => exact ⟨rfl,.inr ⟨hsk.1,hsk.2,rfl,rfl,.inl hsk.1⟩⟩
    | pending => exact ⟨rfl,.inr ⟨hsk.1,hsk.2,rfl,rfl,.inl hsk.1⟩⟩
    | failed => exact ⟨rfl,.inr ⟨hsk.1,hsk.2,rfl,rfl,.inl hsk.1⟩⟩
    | accepted => exact ⟨rfl,.inr ⟨hsk.1,hsk.2,rfl,rfl,.inr (by simp)⟩⟩

theorem withinRetargetWindow_congr {s t : State} {n : String} (h : probeView n s = probeView n t) (now : ℤ) :
    withinRetargetWindow s.manager n now = withinRetargetWindow t.manager n now := by
  simp only [probeView,Prod.mk.injEq] at h
  simp only [withinRetargetWindow,h.2.2.2.1,h.2.2.2.2]

theorem probePendingDevice_watch (hc : Covered m x) {s : State} {k : String} (hk : k ∈ x.names)
    (h : Watch x s)
    (hvw : probeView k s = probeView k ⟨updatePressureLatch m x.sample,x.guest,[]⟩) :
    Watch x (probePendingDevice x s k) ∧ Cover x m (probePendingDevice x s k) k := by
  have hwin := withinRetargetWindow_congr hvw x.now
  have hmana : withinRetargetWindow (updatePressureLatch m x.sample) k x.now =
      withinRetargetWindow m k x.now := by simp [withinRetargetWindow]
  rw [hmana] at hwin
  simp only [probeView,Prod.mk.injEq,updatePressureLatch_devicePending,updatePressureLatch_last] at hvw
  obtain ⟨hgst,hpnd,hla,-,-⟩ := hvw
  obtain ⟨hlatc,⟨heq,hsk⟩ | ⟨hdue,hov,hgst',hcl,haft⟩⟩ := probePendingDevice_cases s k
  · rw [heq]
    refine ⟨h,?_⟩
    cases hp : s.manager.devicePending k with
    | true => exact .inl hp
    | false =>
      cases hl : s.manager.last k with
      | some prev => exact .inr (.inl (by simp [hl]))
      | none =>
        refine .inr (.inr ⟨by rw [hgst],fun current hcur => ?_⟩)
        exact hc.planned k hk current hcur (hpnd.symm.trans hp) (hla.symm.trans hl)
  · refine ⟨⟨hlatc.trans h.latched,?_,?_⟩,?_⟩
    · rw [hgst']
      exact ask_configured h.configured k _
    · rw [hcl]
      refine h.ask fun current hcur => ?_
      rw [hgst] at hcur ⊢
      exact hc.probed k hk current hcur (hpnd.symm.trans hdue) (hwin.symm.trans hov)
    · exact haft.imp_right .inl

theorem Cover.congr {s t : State} {n : String} (h : Cover x m s n) (hvw : probeView n t = probeView n s) :
    Cover x m t n := by
  simp only [probeView,Prod.mk.injEq] at hvw
  unfold Cover
  rw [hvw.1,hvw.2.1,hvw.2.2.1]
  exact h

theorem probes_watch (hc : Covered m x) {names : List String} (hnms : names.Nodup) {s : State}
    (h : Watch x s) (hle : ∀ n ∈ names, n ∈ x.names ∧
      probeView n s = probeView n ⟨updatePressureLatch m x.sample,x.guest,[]⟩)
    (hdn : ∀ n ∈ x.names, n ∉ names → Cover x m s n) :
    let t := names.foldl (probePendingDevice x) s
    Watch x t ∧ ∀ n ∈ x.names, Cover x m t n := by
  induction names generalizing s with
  | nil => exact ⟨h,fun n hn => hdn n hn (by simp)⟩
  | cons k names ih =>
    obtain ⟨hk,hnms⟩ := nodup_cons.1 hnms
    obtain ⟨hmem,hvw⟩ := hle k (by simp)
    obtain ⟨hwt,hcvr⟩ := probePendingDevice_watch hc hmem h hvw
    refine ih hnms hwt ?_ ?_
    · intro n hn
      obtain ⟨hnx,hnview⟩ := hle n (by simp [hn])
      refine ⟨hnx,(probePendingDevice_view ?_).trans hnview⟩
      rintro rfl
      exact hk hn
    · intro n hn hnot
      by_cases hnk : n = k
      · exact hnk ▸ hcvr
      · exact (hdn n hn (by simp [hnk,hnot])).congr (probePendingDevice_view hnk)

end

/-- Under the latch a covered tick asks no guest for more than it reports. -/
theorem Covered.handsNothingBack {m : Manager} {x : Tick} (h : Covered m x) (hlch : x.latched m) :
    HandsNothingBack m x := by
  have hstr : Watch x ⟨updatePressureLatch m x.sample,x.guest,[]⟩ := ⟨hlch,fun _ => rfl,by simp⟩
  obtain ⟨hwt,hcvr⟩ := probes_watch h x.nodup hstr (fun n hn => ⟨hn,rfl⟩)
    (fun n hn hnot => absurd hn hnot)
  exact rounds_watch (x.holdSetsDeficit m) hwt hcvr

/-- If the guests are covered in front of each tick with the latch armed, no such tick asks a guest
for more than it reports. -/
theorem latched_ticks_hand_nothing_back (cfg : Config) (ticks : List Tick)
    (hcove : ∀ before x after, ticks = before ++ x :: after →
      x.latched (runTicks (startManager cfg) before) = true → Covered (runTicks (startManager cfg) before) x) :
    ∀ before x after, ticks = before ++ x :: after →
      x.latched (runTicks (startManager cfg) before) = true →
      HandsNothingBack (runTicks (startManager cfg) before) x := by
  intro before x after hticks hlch
  exact (hcove before x after hticks hlch).handsNothingBack hlch

section

lemma sorted_none : ([] : List String).Pairwise (· < ·) := Pairwise.nil

/-- The latch arms over a guest that is on record. -/
def latchTick : Tick :=
  ⟨["a"],squeezeTick.sorted,fun _ => liveGuest 4096 3096,hostSample 8192 1,6144,1024,0,60*10^9⟩

/-- Guest `a` is away for a tick. -/
def awayTick : Tick :=
  ⟨[],sorted_none,fun _ => liveGuest 4096 3096,hostSample 8192 10,6144,1024,0,30*10^9⟩

end

theorem recorded_guest_not_handed_back :
    HandsNothingBack (runTicks (startManager ⟨0,0⟩) [squeezeTick]) latchTick := by
  refine latched_ticks_hand_nothing_back ⟨0,0⟩ [squeezeTick,latchTick] ?_ [squeezeTick] latchTick [] rfl
    (by decide)
  intro before x after hticks hlch
  match before with
  | [] =>
    obtain ⟨rfl,-⟩ := List.cons.inj hticks
    exact absurd hlch (by decide)
  | [first] =>
    obtain ⟨rfl,hrest⟩ := List.cons.inj hticks
    obtain ⟨rfl,-⟩ := List.cons.inj hrest
    -- the device is up and the guest on record
    have hpnd : (runTicks (startManager ⟨0,0⟩) [squeezeTick]).devicePending "a" = false := by decide
    have hlast : (runTicks (startManager ⟨0,0⟩) [squeezeTick]).last "a" = some 3096 := by decide
    refine ⟨fun n hn current _ hdue => ?_,fun n hn current _ _ hnone => ?_⟩
    · obtain rfl : n = "a" := mem_singleton.mp hn
      exact absurd (hpnd.symm.trans hdue) (by decide)
    · obtain rfl : n = "a" := mem_singleton.mp hn
      exact absurd (hlast.symm.trans hnone) (by decide)
  | first :: second :: rest => simp at hticks

/-- A guest away for a tick has lost its record: under the latch it is asked for all its memory
back. -/
theorem returning_guest_handed_back :
    let m := runTicks (startManager ⟨0,0⟩) [squeezeTick,awayTick]
    latchTick.latched m = true ∧ (latchTick.guest "a").Reports 3096 ∧
      (reconcileSnapshot m latchTick).calls = [⟨"a",4096,some 3096,.accepted⟩] ∧
      ¬HandsNothingBack m latchTick := by
  have hcl : (reconcileSnapshot (runTicks (startManager ⟨0,0⟩) [squeezeTick,awayTick]) latchTick).calls =
      [⟨"a",4096,some 3096,.accepted⟩] := by decide
  refine ⟨by decide,⟨rfl,by decide⟩,hcl,fun h => ?_⟩
  have hwith := h ⟨"a",4096,some 3096,.accepted⟩ (by rw [hcl]; simp)
  exact absurd (hwith 3096 rfl (by decide)) (by decide)

end TalosBox.Balloon
