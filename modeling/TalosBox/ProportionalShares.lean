import Mathlib

/-! Integer proportional shares: an amount split over weighted members by truncated division loses
less than the number of members. -/
open List

namespace TalosBox.ProportionalShares

variable {ι : Type*}

/-- The whole-number share of `amount` that weight `w` earns out of `total`. -/
def share (amount total w : ℤ) : ℤ := (amount*w).tdiv total

variable {amount total w : ℤ}

section

variable (ha : 0 ≤ amount)
include ha

lemma share_eq_ediv (hw : 0 ≤ w) :
    share amount total w = amount*w/total :=
  Int.tdiv_eq_ediv_of_nonneg (mul_nonneg ha hw)

theorem share_nonneg (ht : 0 ≤ total) (hw : 0 ≤ w) :
    0 ≤ share amount total w := by
  rw [share_eq_ediv ha hw]
  exact Int.ediv_nonneg (mul_nonneg ha hw) ht

theorem total_mul_share_le (ht : 0 < total)
    (hw : 0 ≤ w) : total*share amount total w ≤ amount*w := by
  rw [share_eq_ediv ha hw]
  exact Int.mul_ediv_self_le ht.ne'

theorem lt_total_mul_share_add (ht : 0 < total)
    (hw : 0 ≤ w) : amount*w < total*share amount total w + total := by
  rw [share_eq_ediv ha hw]
  exact Int.lt_mul_ediv_self_add ht

/-- Summing the members' bounds keeps each of them; the weights need not be the whole total. -/
theorem total_mul_sum_share_le (ht : 0 < total)
    (xs : List ι) (w : ι → ℤ) (hw : ∀ x ∈ xs, 0 ≤ w x) :
    total*(xs.map fun x => share amount total (w x)).sum ≤ amount*(xs.map w).sum := by
  induction xs with
  | nil => simp
  | cons x xs ih =>
    have hx := total_mul_share_le ha ht (hw x (by simp))
    have ht' := ih fun y hy => hw y (by simp [hy])
    simp only [map_cons,sum_cons,mul_add]
    exact add_le_add hx ht'

theorem mul_sum_le_total_mul_sum_share (ht : 0 < total)
    (xs : List ι) (w : ι → ℤ) (hw : ∀ x ∈ xs, 0 ≤ w x) :
    amount*(xs.map w).sum ≤
      total*(xs.map fun x => share amount total (w x)).sum + total*xs.length := by
  induction xs with
  | nil => simp
  | cons x xs ih =>
    have hx := lt_total_mul_share_add ha ht (hw x (by simp))
    have ht' := ih fun y hy => hw y (by simp [hy])
    simp only [map_cons,sum_cons,length_cons,Nat.cast_add,Nat.cast_one]
    linarith

theorem sum_share_le (xs : List ι) (w : ι → ℤ)
    (hw : ∀ x ∈ xs, 0 ≤ w x) (ht : 0 < (xs.map w).sum) :
    (xs.map fun x => share amount (xs.map w).sum (w x)).sum ≤ amount := by
  have h := total_mul_sum_share_le ha ht xs w hw
  rw [mul_comm amount] at h
  exact le_of_mul_le_mul_left h ht

/-- The residue of the split is smaller than the number of members. -/
theorem lt_sum_share_add_length (xs : List ι) (w : ι → ℤ)
    (hw : ∀ x ∈ xs, 0 ≤ w x) (ht : 0 < (xs.map w).sum) :
    amount < (xs.map fun x => share amount (xs.map w).sum (w x)).sum + xs.length := by
  cases xs with
  | nil => simp at ht
  | cons x xs =>
    set total := ((x::xs).map w).sum with htot
    have hx := lt_total_mul_share_add ha ht (hw x (by simp))
    have hs := mul_sum_le_total_mul_sum_share ha ht xs w fun y hy => hw y (by simp [hy])
    have hspl : total = w x + (xs.map w).sum := by simp [htot]
    have hlt : total*amount <
        total*(share amount total (w x) + (xs.map fun y => share amount total (w y)).sum +
          (xs.length+1)) := by
      calc total*amount = amount*w x + amount*(xs.map w).sum := by rw [hspl]; ring
        _ < _ := by linarith
    have h := lt_of_mul_lt_mul_left hlt ht.le
    simpa using h

end

theorem sum_pos_of_mem {xs : List ι} {w : ι → ℤ} (hw : ∀ x ∈ xs, 0 < w x) (hne : xs ≠ []) :
    0 < (xs.map w).sum := by
  cases xs with
  | nil => exact absurd rfl hne
  | cons x xs =>
    have hx := hw x (by simp)
    have ht : 0 ≤ (xs.map w).sum := sum_nonneg fun y hy => by
      obtain ⟨z,hz,rfl⟩ := mem_map.1 hy
      exact (hw z (by simp [hz])).le
    simp only [map_cons,sum_cons]
    omega

end TalosBox.ProportionalShares
