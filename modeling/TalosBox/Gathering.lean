import Mathlib

/-! Loops that gather what each element gives, and stop at the first failure. -/
open List

namespace TalosBox.Gathering

variable {α β ε : Type}

def gather (f : α → Except ε (List β)) : List α → Except ε (List β)
  | [] => .ok []
  | a::l =>
    match f a with
    | .error e => .error e
    | .ok bs =>
      match gather f l with
      | .error e => .error e
      | .ok cs => .ok (bs++cs)

/-- What an element gives, or nothing if it fails. -/
def rows : Except ε (List β) → List β
  | .ok bs => bs
  | .error _ => []

variable {f g : α → Except ε (List β)} {l : List α}

lemma eq_ok_rows {x : Except ε (List β)} {bs : List β} (h : x = .ok bs) : x = .ok (rows x) := by
  subst h
  rfl

/-- The loop succeeds if every element does, and gives what they give in their order. -/
theorem gather_eq_ok_iff {r : List β} :
    gather f l = .ok r ↔ (∀ a ∈ l, f a = .ok (rows (f a))) ∧ r = l.flatMap fun a => rows (f a) := by
  induction l generalizing r with
  | nil => simp [gather]
  | cons a l ih =>
    rw [gather]
    cases ha : f a with
    | error e => simp [ha]
    | ok bs =>
      cases hl : gather f l with
      | error e =>
        have hnot : ¬∀ b ∈ l, f b = .ok (rows (f b)) := fun h => by
          rw [ih.2 ⟨h,rfl⟩] at hl
          cases hl
        simp [hnot]
      | ok cs =>
        obtain ⟨hall,rfl⟩ := ih.1 hl
        simp only [Except.ok.injEq,mem_cons,forall_eq_or_imp,flatMap_cons,ha,rows,true_and]
        exact ⟨fun h => ⟨hall,h.symm⟩,fun h => h.2.symm⟩

lemma gather_eq_ok (h : ∀ a ∈ l, f a = .ok (rows (f a))) : gather f l = .ok (l.flatMap fun a => rows (f a)) :=
  gather_eq_ok_iff.2 ⟨h,rfl⟩

theorem gather_filter {p : α → Bool} (h : ∀ a ∈ l, p a = false → f a = .ok []) : gather f (l.filter p) = gather f l := by
  induction l with
  | nil => rfl
  | cons a l ih =>
    have hl := ih fun b hb => h b (by simp [hb])
    cases hp : p a with
    | true => rw [filter_cons_of_pos hp,gather,gather,hl]
    | false =>
      rw [filter_cons_of_neg (by simp [hp]),hl,gather,h a (by simp) hp]
      cases gather f l <;> rfl

theorem rows_gather (f : α → Except ε (List β)) (l : List α) :
    rows (gather f l) = [] ∨ rows (gather f l) = l.flatMap fun a => rows (f a) := by
  cases h : gather f l with
  | error e => exact .inl rfl
  | ok r => exact .inr (gather_eq_ok_iff.1 h).2

theorem mem_rows_gather {b : β} (h : b ∈ rows (gather f l)) : ∃ a ∈ l, b ∈ rows (f a) := by
  rcases rows_gather f l with hnil | hrw
  · simp [hnil] at h
  · rwa [hrw,mem_flatMap] at h

/-- What the loop gives is ordered if its elements are and so is what each of them gives. -/
theorem pairwise_rows_gather {R : β → β → Prop} (hf : ∀ a ∈ l, (rows (f a)).Pairwise R)
    (hl : l.Pairwise fun a a' => ∀ b ∈ rows (f a), ∀ b' ∈ rows (f a'), R b b') : (rows (gather f l)).Pairwise R := by
  rcases rows_gather f l with hnil | hrw
  · rw [hnil]
    exact .nil
  · rw [hrw]
    exact pairwise_flatMap.2 ⟨hf,hl⟩

theorem gather_eq_nil_iff : gather f l = .ok [] ↔ ∀ a ∈ l, f a = .ok [] := by
  rw [gather_eq_ok_iff]
  constructor
  · rintro ⟨hall,hnil⟩ a ha
    rw [hall a ha,flatMap_eq_nil_iff.1 hnil.symm a ha]
  · intro h
    refine ⟨fun a ha => by rw [h a ha]; rfl,(flatMap_eq_nil_iff.2 fun a ha => ?_).symm⟩
    rw [h a ha]
    rfl

/-- If each element gives part of what it gave, so does the loop. -/
theorem gather_filtered {p : β → Bool} {r : List β} (h : gather f l = .ok r)
    (hg : ∀ a ∈ l, ∀ bs, f a = .ok bs → g a = .ok (bs.filter p)) : gather g l = .ok (r.filter p) := by
  obtain ⟨hall,rfl⟩ := gather_eq_ok_iff.1 h
  refine gather_eq_ok_iff.2 ⟨fun a ha => eq_ok_rows (hg a ha _ (hall a ha)),?_⟩
  rw [filter_flatMap]
  refine flatMap_congr fun a ha => ?_
  rw [hg a ha _ (hall a ha)]
  rfl

theorem length_flatMap_filter {f : α → List β} {p : α → Bool} {a : α} (ha : a ∈ l) (hp : p a = false) :
    ((l.filter p).flatMap f).length+(f a).length ≤ (l.flatMap f).length := by
  induction l with
  | nil => cases ha
  | cons b l ih =>
    have hmo : ((l.filter p).flatMap f).length ≤ (l.flatMap f).length :=
      (filter_sublist.flatMap f).length_le
    rcases mem_cons.1 ha with rfl | ha
    · rw [filter_cons_of_neg (by simp [hp]),flatMap_cons,length_append]
      omega
    · have hrs := ih ha
      rw [flatMap_cons,length_append,filter_cons]
      split
      · rw [flatMap_cons,length_append]
        omega
      · omega

theorem ite_error_eq_ok {p : Prop} [Decidable p] {e : ε} {x : Except ε α} {a : α} :
    (if p then .error e else x) = .ok a ↔ ¬p ∧ x = .ok a := by
  by_cases hp : p
  · simp [hp]
  · simp [hp]

theorem bind_eq_ok {γ : Type} {x : Except ε α} {k : α → Except ε γ} {c : γ} :
    (x >>= k) = .ok c ↔ ∃ a, x = .ok a ∧ k a = .ok c := by
  cases x with
  | error e =>
    constructor
    · intro h
      cases h
    · rintro ⟨_,⟨⟩,_⟩
  | ok a =>
    constructor
    · intro h
      exact ⟨a,rfl,h⟩
    · rintro ⟨_,⟨⟩,h⟩
      exact h

end TalosBox.Gathering
