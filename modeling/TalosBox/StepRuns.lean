import Mathlib

/-! Runs of a partial step function: invariants, and properties that hold along a run exactly as
long as its moves are of the right kind. -/
open List

namespace TalosBox.StepRuns

variable {σ μ : Type*} (step : σ → μ → Option σ)

/-- The state a list of moves leads to, if each of them can be made. -/
def run (s : σ) (moves : List μ) : Option σ := moves.foldlM step s

@[simp] lemma run_nil (s : σ) : run step s [] = some s := rfl

@[simp] lemma run_cons (s : σ) (m : μ) (moves : List μ) :
    run step s (m::moves) = (step s m).bind fun s => run step s moves := rfl

lemma run_cons_eq_some {step : σ → μ → Option σ} {s s' : σ} {m : μ} {moves : List μ} :
    run step s (m::moves) = some s' ↔ ∃ s₁, step s m = some s₁ ∧ run step s₁ moves = some s' := by
  rw [run_cons,Option.bind_eq_some_iff]

/-- What every step keeps, every run keeps. -/
theorem run_invariant {step : σ → μ → Option σ} {I : σ → Prop}
    (hst : ∀ s m s', I s → step s m = some s' → I s') {s s' : σ} {moves : List μ} (hs : I s)
    (hrun : run step s moves = some s') : I s' := by
  induction moves generalizing s with
  | nil =>
    cases hrun
    exact hs
  | cons m moves ih =>
    obtain ⟨s₁,hfst,hrs⟩ := run_cons_eq_some.1 hrun
    exact ih (hst s m s₁ hs hfst) hrs

/-- Every state the run comes through has the property. -/
def Throughout (P : σ → Prop) (s : σ) (moves : List μ) : Prop :=
  ∀ done s', done <+: moves → run step s done = some s' → P s'

/-- Every move of the run meets the condition in the state it is made in. -/
def Each (C : σ → μ → Prop) (s : σ) (moves : List μ) : Prop :=
  ∀ done m s', done++[m] <+: moves → run step s done = some s' → (step s' m).isSome → C s' m

variable {step} {P : σ → Prop} {C : σ → μ → Prop} {s : σ} {m : μ} {moves : List μ}

theorem throughout_nil : Throughout step P s [] ↔ P s := by
  constructor
  · exact fun h => h [] s prefix_rfl rfl
  · intro h done s' hdn hrun
    obtain rfl := prefix_nil.1 hdn
    cases hrun
    exact h

theorem throughout_cons : Throughout step P s (m::moves) ↔
    P s ∧ ∀ s', step s m = some s' → Throughout step P s' moves := by
  constructor
  · refine fun h => ⟨h [] s nil_prefix rfl,fun s' hst done s₁ hdn hrun => ?_⟩
    exact h (m::done) s₁ ((prefix_cons_inj m).2 hdn)
      (run_cons_eq_some.2 ⟨s',hst,hrun⟩)
  · rintro ⟨hs,hrs⟩ done s' hdn hrun
    cases done with
    | nil =>
      cases hrun
      exact hs
    | cons m' done =>
      obtain ⟨rfl,hls⟩ := cons_prefix_cons.1 hdn
      obtain ⟨s₁,hst,hlat⟩ := run_cons_eq_some.1 hrun
      exact hrs s₁ hst done s' hls hlat

lemma each_nil : Each step C s [] := by
  intro done m s' hdn
  simp at hdn

theorem each_cons : Each step C s (m::moves) ↔
    ∀ s', step s m = some s' → C s m ∧ Each step C s' moves := by
  constructor
  · refine fun h s' hst => ⟨h [] m s (by simp) rfl (by simp [hst]),?_⟩
    intro done m' s₁ hdn hrun
    exact h (m::done) m' s₁ ((prefix_cons_inj m).2 hdn)
      (run_cons_eq_some.2 ⟨s',hst,hrun⟩)
  · intro h done m' s' hdn hrun henab
    cases done with
    | nil =>
      cases hrun
      obtain ⟨rfl,-⟩ := cons_prefix_cons.1 hdn
      obtain ⟨s₁,hst⟩ := Option.isSome_iff_exists.1 henab
      exact (h s₁ hst).1
    | cons m₁ done =>
      obtain ⟨rfl,hls⟩ := cons_prefix_cons.1 hdn
      obtain ⟨s₁,hst,hlat⟩ := run_cons_eq_some.1 hrun
      exact (h s₁ hst).2 done m' s' hls hlat henab

/-- What every step keeps whose move meets a condition holds along the runs of such moves. -/
theorem throughout_of_each (hst : ∀ s m s', P s → C s m → step s m = some s' → P s') (hP : P s)
    (h : Each step C s moves) : Throughout step P s moves := by
  induction moves generalizing s with
  | nil => exact throughout_nil.2 hP
  | cons m moves ih =>
    refine throughout_cons.2 ⟨hP,fun s' hfst => ?_⟩
    obtain ⟨hC,hrs⟩ := each_cons.1 h s' hfst
    exact ih (hst s m s' hP hC hfst) hrs

/-- A property that each step keeps exactly under a condition holds along a run exactly if the moves
meet it. -/
theorem throughout_iff_each_of {I : σ → Prop} {D : σ → μ → Prop}
    (hinv : ∀ s m s', I s → D s m → step s m = some s' → I s')
    (hexact : ∀ s m s', I s → D s m → P s → step s m = some s' → (P s' ↔ C s m)) (hI : I s) (hP : P s)
    (hD : Each step D s moves) : Throughout step P s moves ↔ Each step C s moves := by
  induction moves generalizing s with
  | nil => exact iff_of_true (throughout_nil.2 hP) each_nil
  | cons m moves ih =>
    rw [throughout_cons,each_cons,and_iff_right hP]
    refine forall₂_congr fun s' hst => ?_
    obtain ⟨hm,hrs⟩ := each_cons.1 hD s' hst
    have hnx := hexact s m s' hI hm hP hst
    constructor
    · intro h
      have hP' : P s' := h [] s' nil_prefix rfl
      exact ⟨hnx.1 hP',(ih (hinv s m s' hI hm hst) hP' hrs).1 h⟩
    · rintro ⟨hC,h⟩
      exact (ih (hinv s m s' hI hm hst) (hnx.2 hC) hrs).2 h

theorem throughout_iff_each {I : σ → Prop} (hinv : ∀ s m s', I s → step s m = some s' → I s')
    (hexact : ∀ s m s', I s → P s → step s m = some s' → (P s' ↔ C s m)) (hI : I s) (hP : P s) :
    Throughout step P s moves ↔ Each step C s moves :=
  throughout_iff_each_of (fun s m s' h _ => hinv s m s' h)
    (fun s m s' h _ => hexact s m s' h) hI hP fun _ _ _ _ _ _ => trivial

theorem each_append {later : List μ} (h : Each step C s moves)
    (hlat : ∀ s', run step s moves = some s' → Each step C s' later) : Each step C s (moves++later) := by
  induction moves generalizing s with
  | nil => exact hlat s rfl
  | cons m moves ih =>
    refine each_cons.2 fun s' hst => ?_
    obtain ⟨hm,hrs⟩ := each_cons.1 h s' hst
    exact ⟨hm,ih hrs fun s'' hrun => hlat s'' (run_cons_eq_some.2 ⟨s',hst,hrun⟩)⟩

theorem each_of_throughout (h : Throughout step P s moves) (hC : ∀ s, ∀ m ∈ moves, P s → C s m) :
    Each step C s moves := by
  intro done m s' hdn hrun _
  refine hC s' m (hdn.subset (by simp)) (h done s' ?_ hrun)
  exact (prefix_append done [m]).trans hdn

lemma each_and {D : σ → μ → Prop} (hC : Each step C s moves) (hD : Each step D s moves) :
    Each step (fun s m => C s m ∧ D s m) s moves :=
  fun done m s' hdn hrun henab => ⟨hC done m s' hdn hrun henab,hD done m s' hdn hrun henab⟩

end TalosBox.StepRuns
