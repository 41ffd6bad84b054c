import Mathlib

/-! Cutting a list at the first or the last occurrence of a separator, and at all of them. -/
open List

namespace TalosBox.Cutting

variable {α β : Type*}

section

variable [DecidableEq α] {sep : α} {l x y : List α}

/-- The parts before and behind the first `sep`. -/
def cut (sep : α) : List α → Option (List α × List α)
  | [] => none
  | a::l => if a = sep then some ([],l) else (cut sep l).map fun p => (a::p.1,p.2)

/-- The parts before and behind the last `sep`. -/
def cutLast (sep : α) (l : List α) : Option (List α × List α) :=
  (cut sep l.reverse).map fun p => (p.2.reverse,p.1.reverse)

theorem cut_eq_some : cut sep l = some (x,y) ↔ l = x++sep::y ∧ sep ∉ x := by
  induction l generalizing x with
  | nil => simp [cut]
  | cons a l ih =>
    rw [cut]
    split_ifs with ha
    · subst ha
      cases x with
      | nil => simp
      | cons b x => simpa using fun heq _ hne => absurd heq hne
    · rw [Option.map_eq_some_iff]
      cases x with
      | nil => simp [ha]
      | cons b x =>
        constructor
        · rintro ⟨⟨x',y'⟩,hcut,heq⟩
          obtain ⟨⟨rfl,rfl⟩,rfl⟩ : (a = b ∧ x' = x) ∧ y' = y := by simpa using heq
          obtain ⟨rfl,hx⟩ := ih.1 hcut
          simpa [hx] using fun heq => ha heq.symm
        · rintro ⟨heq,hx⟩
          obtain ⟨rfl,hl⟩ := cons.inj heq
          exact ⟨(x,y),ih.2 ⟨hl,fun hmem => hx (by simp [hmem])⟩,rfl⟩

theorem cut_eq_none : cut sep l = none ↔ sep ∉ l := by
  induction l with
  | nil => simp [cut]
  | cons a l ih =>
    rw [cut]
    split_ifs with ha
    · simp [ha]
    · simp [ih,Ne.symm ha]

theorem cutLast_eq_some : cutLast sep l = some (x,y) ↔ l = x++sep::y ∧ sep ∉ y := by
  have hcut : cutLast sep l = some (x,y) ↔ cut sep l.reverse = some (y.reverse,x.reverse) := by
    rw [cutLast,Option.map_eq_some_iff]
    constructor
    · rintro ⟨p,hp,heq⟩
      cases heq
      simpa using hp
    · exact fun h => ⟨_,h,by simp⟩
  rw [hcut,cut_eq_some,mem_reverse]
  simp

lemma cutLast_eq_none : cutLast sep l = none ↔ sep ∉ l := by
  rw [cutLast,Option.map_eq_none_iff,cut_eq_none,mem_reverse]

/-- A line: it ends with the first `sep` in it. -/
def Line (sep : α) (l : List α) : Prop := ∃ x, l = x++[sep] ∧ sep ∉ x

/-- A stream of lines begins with what comes before its first `sep`. -/
theorem lines_of_flatten {lines : List (List α)} (hlns : ∀ l ∈ lines, Line sep l) (hx : sep ∉ x)
    (h : x++sep::y = lines.flatten) : ∃ rest, lines = (x++[sep])::rest ∧ y = rest.flatten := by
  cases lines with
  | nil => simp at h
  | cons l rest =>
    obtain ⟨x',rfl,hx'⟩ := hlns l (by simp)
    rw [flatten_cons,append_assoc,singleton_append] at h
    have hcut := cut_eq_some.2 ⟨h,hx'⟩
    rw [cut_eq_some.2 ⟨rfl,hx⟩] at hcut
    cases hcut
    exact ⟨rest,rfl,rfl⟩

omit [DecidableEq α] in
theorem lt_of_flatten {lines : List (List α)} (hlns : ∀ l ∈ lines, Line sep l) (hx : sep ∉ x) (hne : x ≠ [])
    (h : x++y = lines.flatten) : ∃ l ∈ lines, x.length < l.length := by
  cases lines with
  | nil => simp [hne] at h
  | cons l rest =>
    obtain ⟨x',rfl,-⟩ := hlns l (by simp)
    refine ⟨x' ++ [sep],by simp,?_⟩
    rw [length_append,length_singleton,Nat.lt_succ_iff]
    by_contra hlong
    rw [flatten_cons,append_assoc] at h
    have hfst : x' ++ [sep] <+: x++y := by
      rw [h,← append_assoc]
      exact prefix_append _ _
    have hbegin : x' ++ [sep] <+: x := by
      refine prefix_of_prefix_length_le hfst (prefix_append x y) ?_
      rw [length_append,length_singleton]
      omega
    exact hx (hbegin.subset (by simp))

end

section

variable {sep c : α} {l : List α}

theorem mem_of_mem_intercalate {ls : List (List α)} (h : c ∈ [sep].intercalate ls) : c = sep ∨ ∃ l ∈ ls, c ∈ l := by
  induction ls with
  | nil => simp at h
  | cons l ls ih =>
    cases ls with
    | nil => exact .inr ⟨l,by simp,by simpa using h⟩
    | cons l' ls =>
      rw [intercalate_cons_cons] at h
      simp only [mem_append,mem_singleton] at h
      rcases h with (hl | hsep) | hrs
      · exact .inr ⟨l,by simp,hl⟩
      · exact .inl hsep
      · exact (ih hrs).imp_right fun ⟨l,hl,hc⟩ => ⟨l,by simp [hl],hc⟩

/-- Each element is the separator or lies in a part. -/
theorem mem_splitOn [DecidableEq α] (sep : α) (h : c ∈ l) : c = sep ∨ ∃ part ∈ l.splitOn sep, c ∈ part :=
  mem_of_mem_intercalate (by rwa [intercalate_splitOn])

theorem length_splitOn [DecidableEq α] (sep : α) (l : List α) : (l.splitOn sep).length = l.count sep+1 := by
  induction l with
  | nil => simp
  | cons a l ih =>
    rw [splitOn] at ih ⊢
    rw [splitOnP_cons_eq_if_modifyHead]
    by_cases ha : a = sep
    · simp [ha,ih]
    · simp [ha,ih]

theorem map_intercalate (f : α → β) (ls : List (List α)) :
    ([sep].intercalate ls).map f = [f sep].intercalate (ls.map (map f)) := by
  induction ls with
  | nil => simp
  | cons l ls ih =>
    cases ls with
    | nil => simp
    | cons l' ls =>
      rw [intercalate_cons_cons,map_append,map_append,ih]
      simp

theorem splitOn_map [DecidableEq α] {f : α → α} (hsep : f sep = sep) (h : ∀ part ∈ l.splitOn sep, sep ∉ part.map f) :
    (l.map f).splitOn sep = (l.splitOn sep).map (map f) := by
  have hjo : [sep].intercalate (l.splitOn sep) = l := intercalate_splitOn sep
  conv_lhs => rw [← hjo,map_intercalate,hsep]
  refine splitOn_intercalate sep ?_ (by simp)
  rintro _ hmem
  obtain ⟨part,hpt,rfl⟩ := mem_map.1 hmem
  exact h part hpt

/-- Where no part is empty, the list is nonempty, does not end in the separator and holds no two in
a row. -/
theorem of_nil_notMem_splitOn [DecidableEq α] (h : [] ∉ l.splitOn sep) :
    l ≠ [] ∧ l.getLast? ≠ some sep ∧ ¬[sep,sep] <:+: l := by
  refine ⟨?_,?_,?_⟩
  · rintro rfl
    simp at h
  · intro hla
    obtain ⟨front,rfl⟩ := getLast?_eq_some_iff.1 hla
    rw [splitOn_append_cons_self] at h
    simp at h
  · rintro ⟨x,y,hl⟩
    have hcut : l = x++sep::([]++sep::y) := by simp [← hl]
    rw [hcut,splitOn_append_cons_self,splitOn_append_cons_self] at h
    simp at h

end

end TalosBox.Cutting
