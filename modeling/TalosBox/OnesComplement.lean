import Mathlib

/-! One's-complement sums with end-around carry, over the big-endian words of bytes. A sum completed
by its complement folds to all ones. -/
namespace TalosBox.OnesComplement

/-- One end-around carry in base `B`. -/
def carry (B s : ℕ) : ℕ := s/B+s%B

/-- Carry until the sum is one digit, at most `fuel` times. -/
def fold (B : ℕ) : ℕ → ℕ → ℕ
  | 0, s => s
  | fuel+1, s => if B ≤ s then fold B fuel (carry B s) else s

section

variable {B : ℕ}

theorem carry_modEq (hB : 1 ≤ B) (s : ℕ) : carry B s ≡ s [MOD B-1] := by
  have hone : B ≡ 1 [MOD B-1] := (Nat.modEq_iff_dvd' hB).2 dvd_rfl |>.symm
  calc carry B s = 1*(s/B)+s%B := by rw [carry,one_mul]
    _ ≡ B*(s/B)+s%B [MOD B-1] := ((hone.symm.mul_right _).add_right _)
    _ = s := Nat.div_add_mod s B

theorem carry_pos {s : ℕ} (hs : 0 < s) : 0 < carry B s := by
  rcases Nat.eq_zero_or_pos (s/B) with hdiv | hdiv
  · have h := Nat.div_add_mod s B
    rw [hdiv,mul_zero,zero_add] at h
    exact Nat.add_pos_right _ (h.symm ▸ hs)
  · exact Nat.add_pos_left hdiv _

theorem fold_modEq (hB : 1 ≤ B) (fuel s : ℕ) : fold B fuel s ≡ s [MOD B-1] := by
  induction fuel generalizing s with
  | zero => rfl
  | succ fuel ih =>
    simp only [fold]
    split_ifs
    · exact (ih _).trans (carry_modEq hB s)
    · rfl

theorem fold_pos (fuel : ℕ) {s : ℕ} (hs : 0 < s) : 0 < fold B fuel s := by
  induction fuel generalizing s with
  | zero => exact hs
  | succ fuel ih =>
    simp only [fold]
    split_ifs
    · exact ih (carry_pos hs)
    · exact hs

theorem fold_lt (hB : 1 < B) {s : ℕ} (hs : s < B*B) : fold B 2 s < B := by
  simp only [fold]
  split_ifs with h₁ h₂
  · -- the first carry of two digits is below 2B, so the second leaves no carry
    have hdiv : s/B < B := Nat.div_lt_of_lt_mul hs
    have hmod : s%B < B := Nat.mod_lt s (by omega)
    have hlt : carry B s < 2*B := by simp only [carry]; omega
    have hone : carry B s/B = 1 := by
      apply Nat.div_eq_of_lt_le <;> omega
    have hrs : carry B s%B = carry B s-B := by
      have := Nat.div_add_mod (carry B s) B
      rw [hone] at this
      omega
    rw [carry,hone,hrs]
    simp only [carry] at h₂ ⊢
    omega
  · omega
  · omega

theorem fold_add_complement (hB : 1 < B) {s : ℕ} (hs : s+(B-1) < B*B) :
    fold B 2 (s+(B-1-fold B 2 s)) = B-1 := by
  have hfo : fold B 2 s < B := fold_lt hB (by omega)
  have hlt : fold B 2 (s+(B-1-fold B 2 s)) < B := fold_lt hB (by omega)
  have hpos : 0 < fold B 2 (s+(B-1-fold B 2 s)) := by
    apply fold_pos
    rcases Nat.eq_zero_or_pos s with rfl | hs
    · have hz : fold B 2 0 = 0 := by simp [fold,Nat.pos_of_ne_zero (by omega : B ≠ 0) |>.ne']
      omega
    · omega
  have hmod : fold B 2 (s+(B-1-fold B 2 s)) ≡ 0 [MOD B-1] := by
    calc fold B 2 (s+(B-1-fold B 2 s))
        ≡ s+(B-1-fold B 2 s) [MOD B-1] := fold_modEq hB.le 2 _
      _ ≡ fold B 2 s+(B-1-fold B 2 s) [MOD B-1] := (fold_modEq hB.le 2 s).symm.add_right _
      _ = B-1 := by omega
      _ ≡ 0 [MOD B-1] := by simp
  have hle : B-1 ≤ fold B 2 (s+(B-1-fold B 2 s)) :=
    Nat.le_of_dvd hpos ((Nat.modEq_zero_iff_dvd).1 hmod)
  omega

end

/-- The sum of the big-endian 16-bit words, the last one padded with a zero byte. -/
def wordSum : List UInt8 → ℕ
  | a::b::rest => a.toNat*256+b.toNat+wordSum rest
  | [a] => a.toNat*256
  | [] => 0

theorem wordSum_le (l : List UInt8) : wordSum l ≤ 65535*((l.length+1)/2) := by
  fun_induction wordSum l with
  | case1 a b rest ih =>
    have := a.toNat_lt
    have := b.toNat_lt
    simp only [List.length_cons]
    omega
  | case2 a =>
    have := a.toNat_lt
    simp only [List.length_singleton]
    omega
  | case3 => simp

/-- Storing a word at an even offset exchanges it for the old one in the sum. -/
theorem wordSum_set (l : List UInt8) (k : ℕ) (x y : UInt8) (h : 2*k+1 < l.length) :
    wordSum ((l.set (2*k) x).set (2*k+1) y) +
        ((l.getD (2*k) 0).toNat*256+(l.getD (2*k+1) 0).toNat) =
      wordSum l+(x.toNat*256+y.toNat) := by
  induction k generalizing l with
  | zero =>
    match l,h with
    | a::b::rest, _ =>
      simp [wordSum]
      omega
  | succ k ih =>
    match l,h with
    | a::b::rest, h =>
      have hk : 2*(k+1) = 2*k+1+1 := by ring
      simp only [List.length_cons] at h
      have := ih rest (by omega)
      simp only [hk,List.set_cons_succ,wordSum,List.getD_cons_succ]
      omega

end TalosBox.OnesComplement
