import TalosBox.BalloonVeto

/-! A tick whose deficit is set by a hold. Each round of the loop plans around a device found
pending in the one before, and the guests left have together given up what the last plan asks. -/
namespace TalosBox.Balloon

open List
open Function (update update_of_ne update_self)
open KeyedFold

/-- The guest accepts a request or has no active device. -/
def Yielding (g : Guest) : Prop := ∀ k, g.answers k = .accepted ∨ g.answers k = .pending

namespace Guest

/-- The guest after a request it refused. -/
def refuse (g : Guest) : Guest := { g with asked := g.asked+1 }

/-- The guest after a request it granted. -/
def grant (g : Guest) (targetMiB : ℤ) : Guest :=
  { g with heldMiB := targetMiB,asked := g.asked+1 }

end Guest

theorem setMemoryTargetMiB_yielding {g : Guest} (h : Yielding g) (target : ℤ) :
    g.setMemoryTargetMiB target = (.accepted,g.grant target) ∨
      g.setMemoryTargetMiB target = (.pending,g.refuse) := by
  unfold Guest.setMemoryTargetMiB
  rcases h g.asked with hans | hans
  · exact .inl (by rw [hans]; rfl)
  · exact .inr (by rw [hans]; rfl)

namespace Progress

/-- A guest's device turns out pending. -/
def refused (p : Progress) (now : ℤ) (k : String) (target : ℤ) : Progress :=
  { p with
    state := {
      manager := recordPending p.state.manager k now
      guest := update p.state.guest k (p.state.guest k).refuse
      calls := p.state.calls++[⟨k,target,(p.state.guest k).currentTargetMiB,.pending⟩] }
    newlyPending := true }

/-- A guest takes its target. -/
def granted (p : Progress) (now : ℤ) (k : String) (target : ℤ) (line : LogLine) : Progress :=
  { p with
    state := {
      manager := recordApplied p.state.manager k target now line
      guest := update p.state.guest k ((p.state.guest k).grant target)
      calls := p.state.calls++[⟨k,target,(p.state.guest k).currentTargetMiB,.accepted⟩] }
    appliedThisTick := update p.appliedThisTick k (some target)
    anySucceeded := true }

end Progress

/-- The guest is at its target or below it, as far as this tick is concerned. -/
def Placed (targets : Targets) (n : String) (p : Progress) : Prop :=
  (p.appliedThisTick n).any (· ≤ targets n) ∨
    knownTarget (p.state.guest n) (p.state.manager.last n) = some (targets n)

section

variable (x : Tick) (deficitMiB : ℤ) {targets : Targets} {reductions : Bool}

variable {p : Progress} {k : String}

/-- A hold leaves no retry window: a guest that is not at its target is asked. -/
theorem visit_cases (hk : Yielding (p.state.guest k)) :
    let q := visit x true deficitMiB targets reductions p k
    (q = p ∧ ((reductions ↔ Above targets k p) → Placed targets k p)) ∨
    (¬Placed targets k p ∧
      (q = p.refused x.now k (targets k) ∨ ∃ line, q = p.granted x.now k (targets k) line)) := by
  intro q
  by_cases hdire : reductions ↔ Above targets k p
  · have hsk : ¬decide (targets k < currentMiB p.state.manager (p.state.guest k) k) ≠ reductions := by
      rw [not_not,Bool.eq_iff_iff,decide_eq_true_iff]
      exact hdire.symm
    by_cases happ : (p.appliedThisTick k).any (· ≤ targets k)
    · refine .inl ⟨?_,fun _ => .inl happ⟩
      simp only [q,visit,hsk,happ,↓reduceIte]
    · by_cases hkno : externallyMovedTarget (p.state.guest k) (p.state.manager.last k) = none ∧
          p.state.manager.last k = some (targets k)
      · have hskipp : applyTarget x true deficitMiB p.state k (targets k) = (.skipped,p.state) := by
          exact if_pos hkno
        refine .inl ⟨?_,fun _ => .inr (knownTarget_eq_some.2 hkno)⟩
        simp only [q,visit,hsk,happ,hskipp,Bool.false_eq_true,↓reduceIte]
      · refine .inr ⟨not_or.2 ⟨happ,mt knownTarget_eq_some.1 hkno⟩,?_⟩
        rcases setMemoryTargetMiB_yielding hk (targets k) with hans | hans
        · right
          simp [q,visit,hsk,happ,applyTarget,hkno,State.ask,hans,Progress.granted]
        · left
          simp [q,visit,hsk,happ,applyTarget,hkno,State.ask,hans,Progress.refused]
  · exact .inl ⟨visit_other_direction x true deficitMiB hdire,fun h => absurd h hdire⟩

variable {n : String}

theorem visit_placed (hn : Yielding (p.state.guest n))
    (h : Placed targets n p) : visit x true deficitMiB targets reductions p n = p := by
  rcases visit_cases x deficitMiB hn with ⟨hq,-⟩ | ⟨hplc,-⟩
  · exact hq
  · exact absurd h hplc

theorem Placed.of_view {q : Progress} (h : Placed targets n p)
    (hvw : view n q.state = view n p.state)
    (happ : q.appliedThisTick n = p.appliedThisTick n) : Placed targets n q := by
  simp only [view,Prod.mk.injEq] at hvw
  unfold Placed
  rw [happ,hvw.1,hvw.2.1]
  exact h

theorem visit_keeps_newlyPending (k : String) (h : p.newlyPending) :
    (visit x true deficitMiB targets reductions p k).newlyPending := by
  simp only [visit]
  split_ifs
  · exact h
  · exact h
  · split
    · exact h
    · rfl
    · exact h

/-- In the pass of its own direction a guest comes to its place, or its device is found
pending. -/
theorem visit_places (hn : Yielding (p.state.guest n))
    (hdire : reductions ↔ Above targets n p) :
    (visit x true deficitMiB targets reductions p n).newlyPending ∨
      Placed targets n (visit x true deficitMiB targets reductions p n) := by
  rcases visit_cases x deficitMiB hn with ⟨hq,hplc⟩ | ⟨-,hq | ⟨line,hq⟩⟩
  · rw [hq]
    exact .inr (hplc hdire)
  · rw [hq]
    exact .inl rfl
  · rw [hq]
    exact .inr (.inl (by simp [Progress.granted]))

variable (m : Manager)

/-- What stays true of one guest through the tick. -/
structure Kept (s : State) (appliedThisTick : String → Option ℤ) (n : String) : Prop where
  yielding : Yielding (s.guest n)
  configured : (s.guest n).configuredMiB = (x.guest n).configuredMiB
  applied : ∀ t, appliedThisTick n = some t → s.manager.last n = some t ∧ (s.guest n).heldMiB = t
  truthful : Truthful (x.guest n) (m.last n) →
    s.manager.last n = some (s.guest n).heldMiB ∨ Truthful (s.guest n) (s.manager.last n)

variable {x m}

/-- A guest in its place is on record at its target or below, and holds what is on record. -/
theorem Placed.record (h : Placed targets n p)
    (hn : Kept x m p.state p.appliedThisTick n) :
    ∃ t, p.state.manager.last n = some t ∧ t ≤ targets n ∧
      (Truthful (x.guest n) (m.last n) → (p.state.guest n).heldMiB = t) := by
  rcases h with happ | hkno
  · obtain ⟨t,ht,hle⟩ := (Option.any_eq_true _ _).1 happ
    obtain ⟨hla,hhl⟩ := hn.applied t ht
    exact ⟨t,hla,of_decide_eq_true hle,fun _ => hhl⟩
  · have hla := (knownTarget_eq_some.1 hkno).2
    refine ⟨targets n,hla,le_rfl,fun htrut => ?_⟩
    rcases hn.truthful htrut with hrec | htrut
    · exact Option.some.inj (hrec.symm.trans hla)
    · exact held_of_known htrut hkno

theorem Kept.refuse {s s' : State} {applied : String → Option ℤ}
    (h : Kept x m s applied n)
    (hgst : s'.guest = update s.guest k (s.guest k).refuse)
    (hla : s'.manager.last = s.manager.last) : Kept x m s' applied n := by
  by_cases hn : n = k
  · subst hn
    have hsf : s'.guest n = (s.guest n).refuse := by rw [hgst,update_self]
    refine ⟨hsf ▸ h.yielding,hsf ▸ h.configured,?_,?_⟩
    · rw [hla,hsf]
      exact h.applied
    · rw [hla,hsf]
      exact h.truthful
  · have hoth : s'.guest n = s.guest n := by rw [hgst,update_of_ne hn]
    refine ⟨hoth ▸ h.yielding,hoth ▸ h.configured,?_,?_⟩
    · rw [hla,hoth]
      exact h.applied
    · rw [hla,hoth]
      exact h.truthful

theorem Kept.grant {s s' : State} {applied applied' : String → Option ℤ} {target : ℤ}
    (h : Kept x m s applied n)
    (hgst : s'.guest = update s.guest k ((s.guest k).grant target))
    (hla : s'.manager.last = update s.manager.last k (some target))
    (hsf : ∀ t, applied' k = some t → t = target) (hos : n ≠ k → applied' n = applied n) :
    Kept x m s' applied' n := by
  by_cases hn : n = k
  · subst hn
    have hgrant : s'.guest n = (s.guest n).grant target := by rw [hgst,update_self]
    have hrcd : s'.manager.last n = some target := by rw [hla,update_self]
    refine ⟨hgrant ▸ h.yielding,hgrant ▸ h.configured,fun t ht => ?_,fun _ => .inl ?_⟩
    · rw [hsf t ht,hrcd,hgrant]
      exact ⟨rfl,rfl⟩
    · rw [hrcd,hgrant]
      rfl
  · have hoth : s'.guest n = s.guest n := by rw [hgst,update_of_ne hn]
    have hrcd : s'.manager.last n = s.manager.last n := by rw [hla,update_of_ne hn]
    refine ⟨hoth ▸ h.yielding,hoth ▸ h.configured,?_,?_⟩
    · rw [hos hn,hrcd,hoth]
      exact h.applied
    · rw [hrcd,hoth]
      exact h.truthful

theorem Kept.visit (h : Kept x m p.state p.appliedThisTick n)
    (hk : Yielding (p.state.guest k)) :
    Kept x m (visit x true deficitMiB targets reductions p k).state
      (visit x true deficitMiB targets reductions p k).appliedThisTick n := by
  rcases visit_cases x deficitMiB hk with ⟨hq,-⟩ | ⟨-,hq | ⟨line,hq⟩⟩
  · rw [hq]
    exact h
  · rw [hq]
    exact h.refuse rfl rfl
  · rw [hq]
    exact h.grant rfl rfl (by simp [Progress.granted]) (fun hn => by simp [Progress.granted,hn])

/-- The guests of a round answer as they do, whatever became of the others. -/
def AllKept (x : Tick) (m : Manager) (p : Progress) : Prop :=
  ∀ n ∈ x.names, Kept x m p.state p.appliedThisTick n

lemma AllKept.visit (h : AllKept x m p) (hk : k ∈ x.names) :
    AllKept x m (visit x true deficitMiB targets reductions p k) :=
  fun n hn => (h n hn).visit deficitMiB (h k hk).yielding

variable {active : List String}

variable (targets reductions) in
theorem AllKept.pass (hact : active ⊆ x.names)
    (h : AllKept x m p) :
    AllKept x m (active.foldl (Balloon.visit x true deficitMiB targets reductions) p) :=
  foldl_invariant (fun _ _ hk hp => hp.visit deficitMiB (hact hk)) h

variable (targets reductions) in
theorem visit_other (hkn : k ≠ n) :
    (Placed targets n p →
      Placed targets n (visit x true deficitMiB targets reductions p k)) ∧
    (Above targets n (visit x true deficitMiB targets reductions p k) ↔ Above targets n p) :=
  ⟨fun h => h.of_view (visit_view x true deficitMiB hkn) (visit_appliedThisTick x true deficitMiB hkn),
    above_of_view (visit_view x true deficitMiB hkn)⟩

variable (targets) in
theorem reductions_place (hact : active ⊆ x.names) (hnd : active.Nodup) (h : AllKept x m p) :
    let q := active.foldl (Balloon.visit x true deficitMiB targets true) p
    ∀ n ∈ active, q.newlyPending ∨ Placed targets n q ∨ ¬Above targets n q := by
  refine foldl_settles (P := fun _ _ => True)
    (Q := fun n q => q.newlyPending ∨ Placed targets n q ∨ ¬Above targets n q)
    (fun q k hk hq => hq.visit deficitMiB (hact hk)) (fun _ _ _ _ _ _ => trivial) ?_ ?_ hnd h
    (fun _ _ => trivial)
  · intro q n k _ hkn hq
    obtain ⟨hplc,habv⟩ := visit_other deficitMiB targets true hkn
    exact hq.imp (visit_keeps_newlyPending x deficitMiB k) (.imp hplc (mt habv.mp))
  · intro q n hn hq _
    by_cases habv : Above targets n q
    · exact (visit_places x deficitMiB (hq n (hact hn)).yielding (by simp [habv])).imp_right .inl
    · rw [visit_other_direction x true deficitMiB (by simp [habv])]
      exact .inr (.inr habv)

theorem releases_place (hact : active ⊆ x.names) (hnd : active.Nodup) (h : AllKept x m p)
    (hp : ∀ n ∈ active, p.newlyPending ∨ Placed targets n p ∨ ¬Above targets n p) :
    let q := active.foldl (Balloon.visit x true deficitMiB targets false) p
    ∀ n ∈ active, q.newlyPending ∨ Placed targets n q := by
  refine foldl_settles
    (P := fun n q => q.newlyPending ∨ Placed targets n q ∨ ¬Above targets n q)
    (Q := fun n q => q.newlyPending ∨ Placed targets n q)
    (fun q k hk hq => hq.visit deficitMiB (hact hk)) ?_ ?_ ?_ hnd h hp
  · intro q n k _ hkn hq
    obtain ⟨hplc,habv⟩ := visit_other deficitMiB targets false hkn
    exact hq.imp (visit_keeps_newlyPending x deficitMiB k) (.imp hplc (mt habv.mp))
  · intro q n k _ hkn hq
    exact hq.imp (visit_keeps_newlyPending x deficitMiB k) (visit_other deficitMiB targets false hkn).1
  · intro q n hn hq hwhere
    have hyld := (hq n (hact hn)).yielding
    rcases hwhere with hpnd | hplc | habv
    · exact .inl (visit_keeps_newlyPending x deficitMiB n hpnd)
    · rw [visit_placed x deficitMiB hyld hplc]
      exact .inr hplc
    · exact visit_places x deficitMiB hyld (by simp [habv])

/-- The devices the round finds pending. -/
structure Found (before : String → Bool) (active : List String) (p : Progress) : Prop where
  same : p.newlyPending = false → p.state.manager.devicePending = before
  found : p.newlyPending → ∃ n ∈ active, p.state.manager.devicePending n
  grows : ∀ n, before n → p.state.manager.devicePending n

theorem Found.visit {before : String → Bool}
    (h : Found before active p) (hk : k ∈ active) (hyld : Yielding (p.state.guest k)) :
    Found before active (visit x true deficitMiB targets reductions p k) := by
  rcases visit_cases x deficitMiB hyld with ⟨hq,-⟩ | ⟨-,hq | ⟨line,hq⟩⟩
  · rw [hq]
    exact h
  · rw [hq]
    refine ⟨fun hno => ?_,fun _ => ⟨k,hk,?_⟩,fun n hn => ?_⟩
    · simp [Progress.refused] at hno
    · simp [Progress.refused,recordPending]
    · exact update_true k n (h.grows n hn)
  · rw [hq]
    exact ⟨h.same,h.found,h.grows⟩

variable (x) in
/-- What the tick asks of a guest next is at most this. -/
def cap (p : Progress) (n : String) : ℤ := (p.appliedThisTick n).getD (x.guest n).configuredMiB

variable (x) in
/-- No request raises a target the guest has accepted. -/
structure Falling (p : Progress) : Prop where
  pairwise : p.state.calls.Pairwise fun a b =>
    a.name = b.name → a.answer = .accepted → b.targetMiB ≤ a.targetMiB
  capped : ∀ c ∈ p.state.calls, c.answer = .accepted → cap x p c.name ≤ c.targetMiB

theorem le_cap_of_not_placed (hk : ¬Placed targets k p)
    (hle : targets k ≤ (x.guest k).configuredMiB) : targets k ≤ cap x p k := by
  have happ := (not_or.1 hk).1
  unfold cap
  cases ht : p.appliedThisTick k with
  | none => exact hle
  | some t =>
    rw [ht,Option.any_some,decide_eq_true_eq,not_le] at happ
    exact happ.le

theorem Falling.append (h : Falling x p) {c : Call} (hc : c.targetMiB ≤ cap x p c.name) :
    (p.state.calls++[c]).Pairwise fun a b =>
      a.name = b.name → a.answer = .accepted → b.targetMiB ≤ a.targetMiB := by
  rw [pairwise_append]
  refine ⟨h.pairwise,pairwise_singleton _ _,fun a ha b hb hnm had => ?_⟩
  obtain rfl := mem_singleton.1 hb
  rw [← hnm] at hc
  exact hc.trans (h.capped a ha had)

theorem Falling.visit (h : Falling x p) (hk : Yielding (p.state.guest k))
    (hle : targets k ≤ (x.guest k).configuredMiB) :
    Falling x (visit x true deficitMiB targets reductions p k) := by
  rcases visit_cases x deficitMiB hk with ⟨hq,-⟩ | ⟨hplc,hq | ⟨line,hq⟩⟩
  · rw [hq]
    exact h
  · rw [hq]
    have hcap := le_cap_of_not_placed hplc hle
    refine ⟨h.append hcap,fun c hc had => ?_⟩
    rcases mem_append.1 hc with hc | hc
    · exact h.capped c hc had
    · simp [mem_singleton.1 hc] at had
  · rw [hq]
    have hcap := le_cap_of_not_placed hplc hle
    refine ⟨h.append hcap,fun c hc had => ?_⟩
    rcases mem_append.1 hc with hc | hc
    · by_cases hnm : c.name = k
      · have hbef := h.capped c hc had
        rw [hnm] at hbef ⊢
        simpa [cap,Progress.granted] using hcap.trans hbef
      · simpa [cap,Progress.granted,hnm] using h.capped c hc had
    · simp [mem_singleton.1 hc,cap,Progress.granted]

theorem applyRound_invariant {I : Progress → Prop}
    (hvis : ∀ reductions q, ∀ k ∈ active, I q →
      I (visit x true deficitMiB targets reductions q k))
    (h : I { p with newlyPending := false }) :
    I (applyRound x true deficitMiB targets active p) := by
  have hfst := foldl_invariant (hvis true) h
  simp only [applyRound]
  split_ifs
  · exact hfst
  · exact foldl_invariant (hvis false) hfst

/-- A round that finds no device pending leaves every guest in its place. -/
theorem applyRound_places (hact : active ⊆ x.names) (hnd : active.Nodup) (h : AllKept x m p)
    (hno : (applyRound x true deficitMiB targets active p).newlyPending = false) :
    ∀ n ∈ active, Placed targets n (applyRound x true deficitMiB targets active p) := by
  have hstr : AllKept x m { p with newlyPending := false } := h
  have hfst := hstr.pass deficitMiB targets true hact
  have hplaces := reductions_place deficitMiB targets hact hnd hstr
  simp only [applyRound] at hno ⊢
  split_ifs at hno ⊢ with hpnd
  · exact absurd (hpnd.symm.trans hno) (by simp)
  · intro n hn
    exact (releases_place deficitMiB hact hnd hfst hplaces n hn).resolve_left (by simp [hno])

/-- What holds between two rounds. -/
structure Between (x : Tick) (m : Manager) (p : Progress) : Prop where
  kept : AllKept x m p
  falling : Falling x p

theorem Between.applyRound (hact : active ⊆ x.names)
    (h : Between x m p) (hle : ∀ n ∈ active, targets n ≤ (x.guest n).configuredMiB) :
    let q := applyRound x true deficitMiB targets active p
    Between x m q ∧ Found p.state.manager.devicePending active q := by
  refine applyRound_invariant (I := fun q => Between x m q ∧
    Found p.state.manager.devicePending active q) deficitMiB ?_
      ⟨⟨h.kept,h.falling.pairwise,h.falling.capped⟩,
        ⟨fun _ => rfl,fun hno => by simp at hno,fun _ hn => hn⟩⟩
  rintro reductions q k hk ⟨⟨hkp,hfall⟩,hfnd⟩
  have hyld := (hkp k (hact hk)).yielding
  exact ⟨⟨hkp.visit deficitMiB (hact hk),hfall.visit deficitMiB hyld (hle k hk)⟩,
    hfnd.visit deficitMiB hk hyld⟩

end

section

variable {x : Tick} {m : Manager} (deficitMiB : ℤ)

lemma activeNames_subset (man : Manager) (names : List String) : activeNames man names ⊆ names :=
  (filter_sublist).subset

lemma activeNames_nodup (man : Manager) (x : Tick) : (activeNames man x.names).Nodup :=
  x.nodup.filter _

theorem Found.fewer {man : Manager} {names : List String} {q : Progress}
    (h : Found man.devicePending (activeNames man names) q) (hpnd : q.newlyPending) :
    (activeNames q.state.manager names).length < (activeNames man names).length := by
  have hfilter : activeNames q.state.manager names =
      (activeNames man names).filter fun n => !q.state.manager.devicePending n := by
    unfold activeNames
    rw [filter_filter]
    refine filter_congr fun n _ => ?_
    cases hn : man.devicePending n with
    | false => simp
    | true => simp [h.grows n hn]
  obtain ⟨n,hn,hfnd⟩ := h.found hpnd
  rw [hfilter,length_filter_lt_length_iff_exists]
  exact ⟨n,hn,by simp [hfnd]⟩

theorem planNodes_kept {p : Progress} (h : AllKept x m p) :
    planNodes (activeNames p.state.manager x.names) p.state.guest =
      planNodes (activeNames p.state.manager x.names) x.guest :=
  map_congr_left fun n hn => by
    rw [(h n (activeNames_subset _ _ hn)).configured]

/-- The guests that can give memory up have a size. -/
def Tick.Sized (x : Tick) : Prop :=
  ∀ n ∈ x.names, x.floorMiB < (x.guest n).configuredMiB → 0 < (x.guest n).configuredMiB

theorem Tick.Sized.planNodes (h : x.Sized) {active : List String} (hact : active ⊆ x.names) :
    Balloon.Sized x.floorMiB (planNodes active x.guest) := by
  intro node hnod habv
  obtain ⟨n,hn,rfl⟩ := mem_map.1 hnod
  exact h n (hact hn) habv

/-- The targets the loop's last plan gives the guests that are left. -/
def Tick.lastPlan (x : Tick) (deficitMiB : ℤ) (active : List String) : Targets :=
  planTargets (planNodes active x.guest) deficitMiB x.floorMiB

theorem planActive_le_lastPlan {p : Progress} (h : AllKept x m p) (n : String) :
    planActive p.state.manager x.names p.state.guest deficitMiB x.floorMiB n ≤
      x.lastPlan deficitMiB (activeNames p.state.manager x.names) n := by
  have hle := planActive_le (m := p.state.manager) x.names p.state.guest deficitMiB x.floorMiB n
  rwa [planNodes_kept h] at hle

theorem lastPlan_le_configured (hszd : x.Sized) {active : List String} (hact : active ⊆ x.names)
    (hnd : active.Nodup) {n : String} (hn : n ∈ active) :
    x.lastPlan deficitMiB active n ≤ (x.guest n).configuredMiB :=
  (planTargets_bounds (by rwa [planNodes_names]) (hszd.planNodes hact)
    (mem_planNodes x.guest hn)).2

/-- Every guest that is left is on record at its last planned target or below, and holds that. -/
def Reached (x : Tick) (m : Manager) (deficitMiB : ℤ) (p : Progress) : Prop :=
  ∀ n ∈ activeNames p.state.manager x.names, ∃ t, p.state.manager.last n = some t ∧
    t ≤ x.lastPlan deficitMiB (activeNames p.state.manager x.names) n ∧
    (Truthful (x.guest n) (m.last n) → (p.state.guest n).heldMiB = t)

/-- The progress with the retries dropped that the plan has caught up with. -/
def Progress.classified (p : Progress) (active : List String) (targets : Targets) : Progress :=
  { p with state := { p.state with
      manager := (classify p.state.manager active p.state.guest targets).manager } }

theorem Between.classified {p : Progress} (h : Between x m p) (active : List String)
    (targets : Targets) : Between x m (p.classified active targets) where
  kept n hn := by
    obtain ⟨hyld,hconf,happ,htrut⟩ := h.kept n hn
    exact ⟨hyld,hconf,happ,htrut⟩
  falling := ⟨h.falling.pairwise,h.falling.capped⟩

/-- One round under a hold: the deadband does not apply. -/
theorem rounds_succ (fuel : ℕ) (first : Bool) (p : Progress) :
    let active := activeNames p.state.manager x.names
    let targets := planActive p.state.manager x.names p.state.guest deficitMiB x.floorMiB
    let q := applyRound x true deficitMiB targets active (p.classified active targets)
    rounds x true deficitMiB (fuel+1) first p =
      if !(classify p.state.manager active p.state.guest targets).changed then
        p.classified active targets
      else if q.newlyPending then rounds x true deficitMiB fuel false q else q := by
  simp only [rounds,deadbandShortcut,Bool.not_true,Bool.false_and,Bool.and_false]
  rfl

theorem reached_of_placed {p q : Progress} (hp : AllKept x m p) (hq : AllKept x m q)
    (hact : activeNames q.state.manager x.names = activeNames p.state.manager x.names)
    (hplc : ∀ n ∈ activeNames p.state.manager x.names,
      Placed (planActive p.state.manager x.names p.state.guest deficitMiB x.floorMiB) n q) :
    Reached x m deficitMiB q := by
  intro n hn
  rw [hact] at hn ⊢
  obtain ⟨t,hla,hle,hhl⟩ := (hplc n hn).record (hq n (activeNames_subset _ _ hn))
  exact ⟨t,hla,hle.trans (planActive_le_lastPlan deficitMiB hp n),hhl⟩

/-- The loop ends by itself, with every guest that is left in its place. -/
theorem rounds_reach (hszd : x.Sized) (fuel : ℕ) :
    ∀ (first : Bool) (p : Progress), Between x m p →
      (activeNames p.state.manager x.names).length < fuel →
      let q := rounds x true deficitMiB fuel first p
      Between x m q ∧ Reached x m deficitMiB q ∧
        ∀ extra, rounds x true deficitMiB (fuel+extra) first p = q := by
  induction fuel with
  | zero => exact fun first p h hfuel => absurd hfuel (Nat.not_lt_zero _)
  | succ fuel ih =>
    intro first p h hfuel
    have hsucc : ∀ fuel, _ := fun fuel => rounds_succ (x := x) deficitMiB fuel first p
    set active := activeNames p.state.manager x.names with hact
    set targets := planActive p.state.manager x.names p.state.guest deficitMiB x.floorMiB
      with htgs
    have hclas := h.classified active targets
    have hle : ∀ n ∈ active, targets n ≤ (x.guest n).configuredMiB := fun n hn =>
      (planActive_le_lastPlan deficitMiB h.kept n).trans (lastPlan_le_configured deficitMiB hszd
        (activeNames_subset _ _) (activeNames_nodup _ x) hn)
    obtain ⟨hbetw,hfnd⟩ := hclas.applyRound deficitMiB (activeNames_subset _ _) hle
    simp only [Nat.succ_add,hsucc]
    split_ifs with hchan hpnd
    · refine ⟨hclas,reached_of_placed deficitMiB h.kept hclas.kept rfl fun n hn => ?_,
        fun _ => rfl⟩
      have hkno : ∀ n ∈ active,
          knownTarget (p.state.guest n) (p.state.manager.last n) = some (targets n) := by
        simpa [classify] using hchan
      exact .inr (hkno n hn)
    · have hfewer := Found.fewer hfnd hpnd
      exact ih false _ hbetw (hfewer.trans_le (Nat.lt_succ_iff.1 hfuel))
    · refine ⟨hbetw,reached_of_placed deficitMiB h.kept hbetw.kept ?_ ?_,fun _ => rfl⟩
      · exact congrArg (fun pending => x.names.filter fun n => !pending n)
          (hfnd.same (by simpa using hpnd))
      · exact applyRound_places deficitMiB (activeNames_subset _ _) (activeNames_nodup _ x)
          hclas.kept (by simpa using hpnd)

end

section

variable {x : Tick} {m : Manager}

/-- The rounds begin with nothing applied. -/
def State.begun (s : State) : Progress := ⟨s,fun _ => none,false,false⟩

theorem probePendingDevice_yielding {s : State} {k : String} (hk : Yielding (s.guest k)) :
    let s' := probePendingDevice x s k
    let configured := (s.guest k).configuredMiB
    let current := (s.guest k).currentTargetMiB
    s' = s ∨
    (s'.guest = update s.guest k ((s.guest k).grant configured) ∧
      s'.calls = s.calls++[⟨k,configured,current,.accepted⟩] ∧
      s'.manager.last = update s.manager.last k (some configured)) ∨
    (s'.guest = update s.guest k (s.guest k).refuse ∧
      s'.calls = s.calls++[⟨k,configured,current,.pending⟩] ∧
      s'.manager.last = s.manager.last) := by
  simp only [probePendingDevice]
  split_ifs
  · exact .inl rfl
  · rcases setMemoryTargetMiB_yielding hk (s.guest k).configuredMiB with hans | hans
    · exact .inr (.inl (by simp [State.ask,hans]))
    · exact .inr (.inr (by simp [State.ask,hans]))

/-- A probe asks for the configured size, which no plan exceeds. -/
theorem Between.probe {s : State} (h : Between x m s.begun) {k : String} (hk : k ∈ x.names) :
    Between x m (probePendingDevice x s k).begun := by
  have hcap : (s.guest k).configuredMiB = cap x s.begun k := (h.kept k hk).configured
  have hyld : Yielding (s.guest k) := (h.kept k hk).yielding
  rcases probePendingDevice_yielding hyld with
    hsm | ⟨hgst,hcl,hla⟩ | ⟨hgst,hcl,hla⟩
  · exact (congrArg State.begun hsm) ▸ h
  · refine ⟨fun n hn => (h.kept n hn).grant hgst hla (by simp [State.begun]) fun _ => rfl,?_,?_⟩
    · exact hcl ▸ h.falling.append hcap.le
    · intro c hc had
      change c ∈ (probePendingDevice x s k).calls at hc
      rw [hcl] at hc
      rcases mem_append.1 hc with hc | hc
      · exact h.falling.capped c hc had
      · obtain rfl := mem_singleton.1 hc
        exact hcap.ge
  · refine ⟨fun n hn => (h.kept n hn).refuse hgst hla,?_,?_⟩
    · exact hcl ▸ h.falling.append hcap.le
    · intro c hc had
      change c ∈ (probePendingDevice x s k).calls at hc
      rw [hcl] at hc
      rcases mem_append.1 hc with hc | hc
      · exact h.falling.capped c hc had
      · simp [mem_singleton.1 hc] at had

/-- The rounds of a tick, of which the source makes at most one more than it has guests. -/
def Tick.loop (x : Tick) (m : Manager) (fuel : ℕ) : Progress :=
  rounds x (x.holdSetsDeficit m) (x.deficit m) fuel true
    (probePendingDevices x ⟨updatePressureLatch m x.sample,x.guest,[]⟩).begun

theorem between_probes (hyld : ∀ n ∈ x.names, Yielding (x.guest n)) :
    Between x m (probePendingDevices x ⟨updatePressureLatch m x.sample,x.guest,[]⟩).begun := by
  have hstr : Between x m (State.begun ⟨updatePressureLatch m x.sample,x.guest,[]⟩) := by
    refine ⟨fun n hn => ⟨hyld n hn,rfl,?_,fun h => .inr ?_⟩,Pairwise.nil,?_⟩
    · simp [State.begun]
    · change Truthful (x.guest n) ((updatePressureLatch m x.sample).last n)
      rwa [updatePressureLatch_last]
    · simp [State.begun]
  exact foldl_invariant (I := fun s => Between x m (State.begun s)) (fun _ _ hk hs => hs.probe hk)
    hstr

/-- What the guests would give up at most. -/
def Tick.worth (x : Tick) (names : List String) : ℤ :=
  (names.map fun n => max 0 ((x.guest n).configuredMiB-x.floorMiB)).sum

/-- What the guests have given up of their configured sizes when each is at `size n`. -/
def Tick.gaveUp (x : Tick) (names : List String) (size : String → ℤ) : ℤ :=
  (names.map fun n => (x.guest n).configuredMiB-size n).sum

/-- Guests at their last planned target or below have given up the deficit, or all there is. -/
theorem le_gaveUp_of_le_lastPlan (hszd : x.Sized) {deficitMiB : ℤ} (hdef : 0 < deficitMiB)
    {active : List String} (hact : active ⊆ x.names) (hnd : active.Nodup)
    {size : String → ℤ} (hsz : ∀ n ∈ active, size n ≤ x.lastPlan deficitMiB active n) :
    min deficitMiB (x.worth active) - (active.length-1 : ℕ) ≤ x.gaveUp active size := by
  have hpn : x.gaveUp active (x.lastPlan deficitMiB active) ≤ x.gaveUp active size :=
    sum_le_sum fun n hn => sub_le_sub_left (hsz n hn) _
  by_cases hne : active = []
  · simp [hne,Tick.worth,Tick.gaveUp]
  · have hlst := le_reclaimed_planTargets (by rwa [planNodes_names]) (hszd.planNodes hact)
      hdef (by simpa [planNodes] using hne)
    simp only [reclaimable,reclaimed,planNodes,map_map,Function.comp_def,length_map]
      at hlst
    simp only [Tick.worth,Tick.gaveUp,Tick.lastPlan,planNodes] at hpn ⊢
    omega

theorem Tick.deficit_pos (h : x.holdSetsDeficit m) : 0 < x.deficit m := by
  obtain ⟨hpos,hnatu⟩ := of_decide_eq_true h
  unfold Tick.deficit
  split_ifs <;> omega

theorem activeNames_dropDeparted (man : Manager) (names : List String) :
    activeNames (dropDeparted man names) names = activeNames man names := by
  have hpnd : ∀ n, (dropDeparted man names).devicePending n =
      (decide (n ∈ names) && man.devicePending n) := by
    intro n
    unfold dropDeparted
    dsimp only
    split_ifs <;> rfl
  exact filter_congr fun n hn => by simp [hpnd,hn]

theorem last_dropDeparted (man : Manager) {names : List String} {n : String} (hn : n ∈ names) :
    (dropDeparted man names).last n = man.last n := by
  unfold dropDeparted
  dsimp only
  split
  · exact if_pos hn
  · exact if_pos hn

theorem reconcileSnapshot_loop (m : Manager) (x : Tick) :
    let s := reconcileSnapshot m x
    let p := x.loop m (x.names.length+1)
    s.guest = p.state.guest ∧ s.calls = p.state.calls ∧
      activeNames s.manager x.names = activeNames p.state.manager x.names ∧
      ∀ n ∈ x.names, s.manager.last n = p.state.manager.last n := by
  refine ⟨rfl,rfl,?_,fun n hn => ?_⟩
  · change activeNames (dropDeparted (ite _ _ _) x.names) x.names = _
    rw [activeNames_dropDeparted]
    split_ifs <;> rfl
  · change (dropDeparted (ite _ _ _) x.names).last n = _
    rw [last_dropDeparted _ hn]
    split_ifs <;> rfl

/-- Under a hold the loop ends within its bound, no request goes above what its guest accepted
earlier, and the guests not pending have given up the deficit or all above the floor, but for one
MiB each for all but one: by the record, and in truth if they report the truth. -/
theorem hold_covered_by_active_guests (m : Manager) (x : Tick) (hhold : x.holdSetsDeficit m = true)
    (hanss : ∀ n ∈ x.names, Yielding (x.guest n)) (hszd : x.Sized) :
    let s := reconcileSnapshot m x
    let active := activeNames s.manager x.names
    let due := min (x.deficit m) (x.worth active) - (active.length-1 : ℕ)
    (∀ extra, x.loop m (x.names.length+1+extra) = x.loop m (x.names.length+1)) ∧
    (s.calls.Pairwise fun a b =>
      a.name = b.name → a.answer = .accepted → b.targetMiB ≤ a.targetMiB) ∧
    due ≤ x.gaveUp active (fun n => (s.manager.last n).getD (x.guest n).configuredMiB) ∧
    ((∀ n ∈ active, Truthful (x.guest n) (m.last n)) →
      due ≤ x.gaveUp active fun n => (s.guest n).heldMiB) := by
  intro s active due
  obtain ⟨hgst,-,hact,hlast⟩ := reconcileSnapshot_loop m x
  have hloop : ∀ fuel, rounds x true (x.deficit m) fuel true (probePendingDevices x
      ⟨updatePressureLatch m x.sample,x.guest,[]⟩).begun = x.loop m fuel := by
    intro fuel
    rw [Tick.loop,hhold]
  have hfuel : (activeNames (probePendingDevices x
      ⟨updatePressureLatch m x.sample,x.guest,[]⟩).begun.state.manager x.names).length <
        x.names.length+1 :=
    Nat.lt_succ_of_le (length_filter_le _ _)
  have hrnds := rounds_reach (x.deficit m) hszd (x.names.length+1) true _
    (between_probes (m := m) hanss) hfuel
  simp only [hloop] at hrnds
  obtain ⟨⟨-,hfall⟩,hreac,hstable⟩ := hrnds
  have hreac : ∀ n ∈ active, ∃ t, s.manager.last n = some t ∧
      t ≤ x.lastPlan (x.deficit m) active n ∧
      (Truthful (x.guest n) (m.last n) → (s.guest n).heldMiB = t) := by
    intro n hn
    have hmem : n ∈ activeNames (x.loop m (x.names.length+1)).state.manager x.names := hact ▸ hn
    obtain ⟨t,ht,hle,hheld⟩ := hreac n hmem
    exact ⟨t,(hlast n (activeNames_subset _ _ hn)).trans ht,
      hle.trans_eq (congrArg (fun names => x.lastPlan (x.deficit m) names n) hact.symm),
      fun h => (congrArg (fun guest => (guest n).heldMiB) hgst).trans (hheld h)⟩
  have hdue : ∀ size : String → ℤ, (∀ n ∈ active, size n ≤ x.lastPlan (x.deficit m) active n) →
      due ≤ x.gaveUp active size := fun size hsize =>
    le_gaveUp_of_le_lastPlan hszd (Tick.deficit_pos hhold) (activeNames_subset _ _)
      (activeNames_nodup _ x) hsize
  refine ⟨hstable,hfall.pairwise,hdue _ fun n hn => ?_,fun htrut => hdue _ fun n hn => ?_⟩
  · obtain ⟨t,ht,hle,-⟩ := hreac n hn
    rw [ht]
    exact hle
  · obtain ⟨t,-,hle,hheld⟩ := hreac n hn
    exact (hheld (htrut n hn)).trans_le hle

/-- A guest whose balloon device is not up yet. -/
def bootingGuest : Guest := ⟨4096,4096,.live,0,fun _ => .pending⟩

lemma pairwise_lt_ab : ["a","b"].Pairwise (· < ·) := by decide

/-- Guest `b` is still booting while a start holds 1000 MiB. -/
def halfBooted : Tick :=
  ⟨["a","b"],pairwise_lt_ab,fun n => if n = "a" then liveGuest 4096 4096 else bootingGuest,
    hostSample 16384 10,6144,1024,1000,0⟩

lemma yielding_liveGuest (conf heldMiB : ℤ) : Yielding (liveGuest conf heldMiB) :=
  fun _ => .inl rfl

lemma yielding_bootingGuest : Yielding bootingGuest := fun _ => .inr rfl

/-- Guest `a` covers the hold alone. -/
theorem live_guest_covers_hold :
    activeNames (reconcileSnapshot newManager halfBooted).manager halfBooted.names = ["a"] ∧
      1000 ≤ halfBooted.gaveUp ["a"] fun n =>
        ((reconcileSnapshot newManager halfBooted).guest n).heldMiB := by
  have hact : activeNames (reconcileSnapshot newManager halfBooted).manager halfBooted.names =
      ["a"] := by
    decide +kernel
  have hyld : ∀ n ∈ halfBooted.names, Yielding (halfBooted.guest n) := by
    simp [halfBooted,yielding_liveGuest,yielding_bootingGuest]
  have hszd : halfBooted.Sized := by
    simp [Tick.Sized,halfBooted,liveGuest,bootingGuest]
  have hcove := (hold_covered_by_active_guests newManager halfBooted (by decide) hyld
    hszd).2.2.2
  refine ⟨hact,le_trans ?_ (hcove ?_)⟩
  · decide +kernel
  · intro n hn
    rw [mem_singleton.mp hn]
    trivial

lemma pairwise_lt_a : ["a"].Pairwise (· < ·) := pairwise_singleton _ _

/-- The one guest there is is still booting. -/
def allBooting : Tick :=
  ⟨["a"],pairwise_lt_a,fun _ => bootingGuest,hostSample 16384 10,6144,1024,1000,0⟩

/-- With no guest left to give anything up, nothing is owed: the bound is not one above zero. -/
theorem booting_guests_owe_nothing :
    let s := reconcileSnapshot newManager allBooting
    let active := activeNames s.manager allBooting.names
    allBooting.holdSetsDeficit newManager = true ∧
      (∀ n ∈ allBooting.names, Yielding (allBooting.guest n)) ∧ allBooting.Sized ∧ active = [] ∧
      ¬(min (allBooting.deficit newManager) (allBooting.worth active) - ((active.length : ℤ) - 1) ≤
        allBooting.gaveUp active fun n => (s.guest n).heldMiB) := by
  intro s active
  have hact : active = [] := by decide +kernel
  refine ⟨by decide,fun n _ => yielding_bootingGuest,?_,hact,?_⟩
  · simp [Tick.Sized,allBooting,bootingGuest]
  · rw [hact]
    decide +kernel

end

end TalosBox.Balloon
