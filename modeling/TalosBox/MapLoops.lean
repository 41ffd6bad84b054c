import Mathlib

/-! Finite maps and the loops over them. A loop visits each key once, in an order of its own. -/
open List

namespace TalosBox.MapLoops

abbrev Map (κ ν : Type) := Finmap fun _ : κ => ν

/-- The order in which a loop visits a set of keys. -/
def Order (κ : Type) := (keys : Finset κ) → { l : List κ // l.Nodup ∧ ∀ k, k ∈ l ↔ k ∈ keys }

namespace Order

variable {κ : Type}

lemma nodup (order : Order κ) (keys : Finset κ) : (order keys).1.Nodup := (order keys).2.1

@[simp] lemma mem (order : Order κ) {keys : Finset κ} {k : κ} : k ∈ (order keys).1 ↔ k ∈ keys :=
  (order keys).2.2 k

theorem mem_keys [DecidableEq κ] {ν : Type} (order : Order κ) {m : Map κ ν} {k : κ} :
    k ∈ (order m.keys).1 ↔ (m.lookup k).isSome := by
  rw [mem,Finmap.mem_keys]
  exact Finmap.lookup_isSome.symm

/-- The keys from the least to the greatest. -/
def sorted [LinearOrder κ] : Order κ := fun keys =>
  ⟨Quot.liftOn keys.val (insertionSort (· ≤ ·)) fun l l' h => by
      have hpe := ((perm_insertionSort (· ≤ ·) l).trans h).trans (perm_insertionSort (· ≤ ·) l').symm
      exact hpe.eq_of_pairwise (fun _ _ _ _ => le_antisymm) (pairwise_insertionSort _ l)
        (pairwise_insertionSort _ l'),
    by
      obtain ⟨s,hs⟩ := keys
      induction s using Quot.ind
      exact ⟨(perm_insertionSort _ _).nodup_iff.2 hs,fun _ => (perm_insertionSort _ _).mem_iff⟩⟩

theorem pairwise_sorted [LinearOrder κ] (keys : Finset κ) : (sorted keys).1.Pairwise (· < ·) := by
  have hle : (sorted keys).1.Pairwise (· ≤ ·) := by
    obtain ⟨s,hs⟩ := keys
    induction s using Quot.ind
    exact pairwise_insertionSort _ _
  exact (hle.and (sorted.nodup keys)).imp fun h => lt_of_le_of_ne h.1 h.2

end Order

variable {α κ ν : Type} [DecidableEq κ]

/-- A loop that stores a value for each element that has a key. -/
def collect (key : α → Option κ) (value : α → ν) (l : List α) : Map κ ν :=
  l.foldl (fun m a => (key a).elim m fun k => m.insert k (value a)) ∅

variable {key : α → Option κ} {value : α → ν} {l : List α} {k : κ}

/-- Of the elements with the same key the last one stays. -/
theorem lookup_collect_last (key : α → Option κ) (value : α → ν) (l : List α) (k : κ) :
    (collect key value l).lookup k = (l.reverse.find? fun a => key a = some k).map value := by
  induction l using reverseRecOn with
  | nil => exact Finmap.lookup_empty k
  | append_singleton l a ih =>
    rw [collect,foldl_append,foldl_cons,foldl_nil,reverse_append,
      reverse_singleton,singleton_append,find?_cons]
    change Finmap.lookup k ((key a).elim (collect key value l) _) = _
    cases hkey : key a with
    | none => simpa using ih
    | some k' =>
      by_cases hk : k' = k
      · subst hk
        simp
      · have hoth : some k' ≠ some k := by simpa using hk
        simp only [hoth]
        exact (Finmap.lookup_insert_of_ne _ (Ne.symm hk)).trans ih

theorem lookup_collect_of_ne (h : ∀ a ∈ l, key a ≠ some k) :
    (collect key value l).lookup k = none := by
  rw [lookup_collect_last,Option.map_eq_none_iff,find?_eq_none]
  intro a ha
  simpa using h a (mem_reverse.1 ha)

theorem lookup_collect {a : α} (ha : a ∈ l) (hk : key a = some k)
    (hunique : ∀ b ∈ l, key b = some k → b = a) : (collect key value l).lookup k = some (value a) := by
  rw [lookup_collect_last]
  cases hfi : l.reverse.find? fun a => key a = some k with
  | none =>
    have hno := find?_eq_none.1 hfi a (mem_reverse.2 ha)
    simp [hk] at hno
  | some b =>
    have hkey : key b = some k := by simpa using find?_some hfi
    rw [hunique b (mem_reverse.1 (mem_of_find?_eq_some hfi)) hkey]
    rfl

end TalosBox.MapLoops
