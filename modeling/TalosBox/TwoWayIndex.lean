import Mathlib

/-! Two indexes of one ownership relation: each key's owner, and each owner's keys. A key points at
an owner exactly if that is live and holds the key. -/
namespace TalosBox

/-- The owner of each key, the keys each owner holds, and the live owners. -/
structure TwoWayIndex (κ ο : Type*) where
  owner : κ → Option ο
  held : ο → Finset κ
  live : Finset ο

namespace TwoWayIndex

variable {κ ο : Type*} [DecidableEq ο] {x : TwoWayIndex κ ο} {k : κ} {o : ο}

def Agrees (x : TwoWayIndex κ ο) : Prop := ∀ k o, x.owner k = some o ↔ o ∈ x.live ∧ k ∈ x.held o

/-- Enlist a new owner that holds nothing. -/
def enlist (x : TwoWayIndex κ ο) (o : ο) : TwoWayIndex κ ο where
  owner := x.owner
  held q := if q = o then ∅ else x.held q
  live := insert o x.live

theorem Agrees.enlist (h : x.Agrees) (ho : o ∉ x.live) : (x.enlist o).Agrees := by
  intro k q
  have how := h k q
  by_cases hq : q = o
  · subst hq
    simpa [TwoWayIndex.enlist,ho] using how
  · simpa [TwoWayIndex.enlist,hq] using how

variable [DecidableEq κ]

/-- Give a key to an owner; the previous owner loses it. -/
def take (x : TwoWayIndex κ ο) (k : κ) (o : ο) : TwoWayIndex κ ο where
  owner := Function.update x.owner k (some o)
  held q := if q = o then insert k (x.held q) else
    if x.owner k = some q then (x.held q).erase k else x.held q
  live := x.live

/-- Take a key away from an owner that may hold it. -/
def release (x : TwoWayIndex κ ο) (k : κ) (o : ο) : TwoWayIndex κ ο where
  owner := if x.owner k = some o then Function.update x.owner k none else x.owner
  held q := if q = o then (x.held q).erase k else x.held q
  live := x.live

/-- Strike a live owner off; what it held stays written in its own list. -/
def retire (x : TwoWayIndex κ ο) (o : ο) : TwoWayIndex κ ο where
  owner k := if k ∈ x.held o ∧ x.owner k = some o then none else x.owner k
  held := x.held
  live := x.live.erase o

theorem Agrees.take (h : x.Agrees) (ho : o ∈ x.live) : (x.take k o).Agrees := by
  intro k' q
  by_cases hk : k' = k
  · subst hk
    by_cases hq : q = o
    · subst hq
      simp [TwoWayIndex.take,ho]
    · have how := h k' q
      by_cases hhl : x.owner k' = some q
      · simp [TwoWayIndex.take,hq,hhl,Ne.symm hq]
      · simp only [hhl] at how
        simpa [TwoWayIndex.take,hq,hhl,Ne.symm hq] using how
  · have how := h k' q
    by_cases hq : q = o
    · simpa [TwoWayIndex.take,hq,hk] using h k' o
    · simp only [TwoWayIndex.take,Function.update_of_ne hk,how]
      split_ifs <;> simp [hk]

theorem Agrees.release (h : x.Agrees) : (x.release k o).Agrees := by
  intro k' q
  have how := h k' q
  by_cases hk : k' = k
  · subst hk
    by_cases hq : q = o
    · subst hq
      by_cases hhl : x.owner k' = some q <;> simp [TwoWayIndex.release,hhl]
    · by_cases hhl : x.owner k' = some o
      · have hnot : ¬(q ∈ x.live ∧ k' ∈ x.held q) := by
          rw [← how,hhl]
          simpa using Ne.symm hq
        simpa [TwoWayIndex.release,hhl,hq] using hnot
      · simpa [TwoWayIndex.release,hhl,hq] using how
  · have hsm : (x.release k o).owner k' = x.owner k' := by
      by_cases hhl : x.owner k = some o <;> simp [TwoWayIndex.release,hhl,hk]
    rw [hsm,how]
    by_cases hq : q = o <;> simp [TwoWayIndex.release,hq,hk]

theorem Agrees.retire (h : x.Agrees) : (x.retire o).Agrees := by
  intro k q
  have how := h k q
  by_cases hq : q = o
  · subst hq
    by_cases hhl : x.owner k = some q
    · simp [TwoWayIndex.retire,(how.1 hhl).2]
    · simp [TwoWayIndex.retire,hhl]
  · by_cases hhl : x.owner k = some o
    · have hnot : ¬(q ∈ x.live ∧ k ∈ x.held q) := by
        rw [← how,hhl]
        simpa using Ne.symm hq
      simpa [TwoWayIndex.retire,hhl,((h k o).1 hhl).2,hq] using hnot
    · simpa [TwoWayIndex.retire,hhl,hq] using how

end TwoWayIndex
end TalosBox
