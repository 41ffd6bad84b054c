import Mathlib

/-! Folds over distinct keys in which each step settles one key and leaves the others' views of the
state alone. -/
namespace TalosBox.KeyedFold

variable {κ σ : Type*} {f : σ → κ → σ}

theorem foldl_invariant {I : σ → Prop} {keys : List κ}
    (hst : ∀ s, ∀ k ∈ keys, I s → I (f s k)) {s : σ} (hs : I s) :
    I (keys.foldl f s) := by
  induction keys generalizing s with
  | nil => exact hs
  | cons k keys ih =>
    exact ih (fun s k hk => hst s k (by simp [hk])) (hst s k (by simp) hs)

theorem foldl_frame {ρ : Type*} {v : σ → ρ} {keys : List κ}
    (hst : ∀ s, ∀ k ∈ keys, v (f s k) = v s) (s : σ) :
    v (keys.foldl f s) = v s :=
  foldl_invariant
    (fun t k hk ht => (hst t k hk).trans ht) rfl

/-- Each key is settled by its own step; the others keep what it waits for and what it reached. -/
theorem foldl_settles {I : σ → Prop} {P Q : κ → σ → Prop} {keys : List κ}
    (hinv : ∀ s, ∀ k ∈ keys, I s → I (f s k))
    (hpre : ∀ s n, ∀ k ∈ keys, k ≠ n → P n s → P n (f s k))
    (hpost : ∀ s n, ∀ k ∈ keys, k ≠ n → Q n s → Q n (f s k))
    (hst : ∀ s, ∀ n ∈ keys, I s → P n s → Q n (f s n))
    (hks : keys.Nodup) {s : σ} (hs : I s) (h : ∀ n ∈ keys, P n s) :
    ∀ n ∈ keys, Q n (keys.foldl f s) := by
  induction keys generalizing s with
  | nil => simp
  | cons k keys ih =>
    rw [List.nodup_cons] at hks
    intro n hn
    rw [List.foldl_cons]
    rcases List.mem_cons.1 hn with rfl | hn
    · refine foldl_invariant ?_ (hst s n (by simp) hs (h n (by simp)))
      intro t k hk ht
      exact hpost t n k (by simp [hk]) (fun heq => hks.1 (heq ▸ hk)) ht
    · refine ih (fun t k hk => hinv t k (by simp [hk])) (fun t m k hk => hpre t m k (by simp [hk]))
        (fun t m k hk => hpost t m k (by simp [hk])) (fun t m hm => hst t m (by simp [hm]))
        hks.2 (hinv s k (by simp) hs) ?_ n hn
      intro m hm
      exact hpre s m k (by simp) (fun heq => hks.1 (heq ▸ hm)) (h m (by simp [hm]))

/-- If each step changes its own key's view alone, the fold changes each listed key's view
once. -/
theorem foldl_pointwise [DecidableEq κ] {ρ : Type*} {v : σ → κ → ρ} {g : κ → ρ → ρ} {keys : List κ}
    (hsf : ∀ s, ∀ k ∈ keys, v (f s k) k = g k (v s k))
    (hoth : ∀ s, ∀ k ∈ keys, ∀ n, n ≠ k → v (f s k) n = v s n) (hks : keys.Nodup) (s : σ) (n : κ) :
    v (keys.foldl f s) n = if n ∈ keys then g n (v s n) else v s n := by
  split_ifs with hn
  · refine foldl_settles (I := fun _ => True) (P := fun k t => v t k = v s k)
      (Q := fun k t => v t k = g k (v s k)) (fun _ _ _ _ => trivial) ?_ ?_ ?_ hks trivial
      (fun _ _ => rfl) n hn
    · intro t m k hk hne hbef
      exact (hoth t k hk m hne.symm).trans hbef
    · intro t m k hk hne haft
      exact (hoth t k hk m hne.symm).trans haft
    · intro t k hk _ hbef
      rw [← hbef]
      exact hsf t k hk
  · refine foldl_frame (v := fun t => v t n) (fun t k hk => hoth t k hk n ?_) s
    rintro rfl
    exact hn hk

end TalosBox.KeyedFold
