import Mathlib

/-! Splitting a list at the last separator with something behind it: what a greedy
`(.+)separator(.+)` matches. -/
open List

namespace TalosBox.LastSplit

variable {α : Type*} [DecidableEq α]

/-- The parts before and behind the last occurrence of `sep` with a nonempty rest. -/
def splitLast (sep : List α) : List α → Option (List α × List α)
  | [] => none
  | a::l =>
    match splitLast sep l with
    | some (x,y) => some (a::x,y)
    | none =>
      if sep <+: a::l ∧ (a::l).drop sep.length ≠ [] then
        some ([],(a::l).drop sep.length)
      else none

variable {sep l x y x' y' : List α} {m : α}

theorem splitLast_sound (h : splitLast sep l = some (x,y)) : l = x++sep++y ∧ y ≠ [] := by
  induction l generalizing x y with
  | nil => simp [splitLast] at h
  | cons a l ih =>
    simp only [splitLast] at h
    split at h
    · rename_i x₀ y₀ hl
      obtain ⟨rfl,rfl⟩ : a::x₀ = x ∧ y₀ = y := by simpa using h
      obtain ⟨hl,hy⟩ := ih hl
      exact ⟨by simp [hl],hy⟩
    · split at h
      · rename_i hp
        obtain ⟨rfl,rfl⟩ : [] = x ∧ (a::l).drop sep.length = y := by simpa using h
        obtain ⟨⟨r,hr⟩,hd⟩ := hp
        refine ⟨?_,hd⟩
        rw [← hr,nil_append,drop_left]
      · simp at h

theorem splitLast_last (sep x : List α) (hy : y ≠ []) :
    ∃ x' y', splitLast sep (x++sep++y) = some (x',y') ∧ x.length ≤ x'.length := by
  induction x with
  | nil =>
    obtain ⟨a,l,hl⟩ : ∃ a l, sep++y = a::l := by
      cases hs : sep++y with
      | nil => exact absurd (append_eq_nil_iff.1 hs).2 hy
      | cons a l => exact ⟨a,l,rfl⟩
    simp only [nil_append,hl,splitLast]
    cases splitLast sep l with
    | some p => exact ⟨a::p.1,p.2,rfl,Nat.zero_le _⟩
    | none =>
      refine ⟨[],y,?_,le_rfl⟩
      simp only [← hl,drop_left]
      rw [if_pos ⟨prefix_append _ _,hy⟩]
  | cons a x ih =>
    obtain ⟨x',y',h,hx⟩ := ih
    refine ⟨a::x',y',?_,Nat.succ_le_succ hx⟩
    simp only [cons_append] at h ⊢
    simp only [splitLast,h]

/-- Where the separator ends in a mark that the rest does not hold, the split is there. -/
theorem splitLast_append (hy : y ≠ []) (hm : m ∉ y) :
    splitLast (sep++[m]) (x++(sep++[m])++y) = some (x,y) := by
  obtain ⟨x',y',h,hx⟩ := splitLast_last (sep++[m]) x hy
  obtain ⟨heq,-⟩ := splitLast_sound h
  -- a later split would put its own mark into `y`
  have hspl : x++((sep++[m])++y) = x' ++ ((sep++[m])++y') := by simpa using heq
  obtain ⟨w,rfl⟩ : ∃ w, x' = x++w := by
    obtain ⟨w,hw,-⟩ | ⟨w,hw,-⟩ := append_eq_append_iff.1 hspl
    · exact ⟨w,hw⟩
    · have : w = [] := by
        have := congrArg length hw
        simp only [length_append] at this
        exact length_eq_zero_iff.1 (by omega)
      exact ⟨[],by simp [hw,this]⟩
  have hrs : (sep++[m])++y = (w++sep)++(m::y') := by
    simpa using hspl
  cases w with
  | nil =>
    have : y = y' := by simpa using hrs
    rw [h,this]; simp
  | cons a w =>
    exfalso
    obtain ⟨v,hv,hv'⟩ | ⟨v,hv,hv'⟩ := append_eq_append_iff.1 hrs
    · exact hm (hv' ▸ by simp)
    · have : v = [] := by
        have := congrArg length hv
        simp only [length_append,length_cons,length_nil] at this
        exact length_eq_zero_iff.1 (by omega)
      rw [this,nil_append] at hv'
      exact hm (hv' ▸ by simp)

omit [DecidableEq α] in
/-- The part behind the last mark is determined, and so is the part before it. -/
theorem last_mark (h : x++m::y = x' ++ m::y') (hy : m ∉ y) (hy' : m ∉ y') :
    x = x' ∧ y = y' := by
  obtain ⟨v,hv,hv'⟩ | ⟨v,hv,hv'⟩ := append_eq_append_iff.1 h
  · cases v with
    | nil => simpa [hv] using hv'
    | cons b v =>
      obtain ⟨-,hy₀⟩ := cons.inj hv'
      exact absurd (by rw [hy₀]; simp) hy
  · cases v with
    | nil => simpa [hv,eq_comm] using hv'
    | cons b v =>
      obtain ⟨-,hy₀⟩ := cons.inj hv'
      exact absurd (by rw [hy₀]; simp) hy'

end TalosBox.LastSplit
