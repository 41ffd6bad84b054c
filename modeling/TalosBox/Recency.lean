import Mathlib

/-! The order of last use: what a cache that evicts the least recently used keeps. -/
open List

namespace TalosBox.Recency

variable {κ : Type*} [DecidableEq κ]

/-- The live keys from the least to the most recently used. -/
def recent (live : Finset κ) (uses : List κ) : List κ := uses.dedup.filter (· ∈ live)

variable {live : Finset κ} {uses : List κ} {k : κ}

theorem dedup_append_singleton (uses : List κ) (k : κ) :
    (uses++[k]).dedup = uses.dedup.filter (· ≠ k)++[k] := by
  induction uses with
  | nil => simp
  | cons a uses ih =>
    rw [cons_append]
    by_cases ha : a ∈ uses
    · rw [dedup_cons_of_mem (by simp [ha]),dedup_cons_of_mem ha,ih]
    · rw [dedup_cons_of_notMem ha]
      by_cases hk : a = k
      · rw [dedup_cons_of_mem (by simp [hk]),ih,filter_cons_of_neg (by simpa using hk)]
      · rw [dedup_cons_of_notMem (by simp [ha,hk]),ih,filter_cons_of_pos (by simpa using hk),cons_append]

lemma nodup_recent (live : Finset κ) (uses : List κ) : (recent live uses).Nodup :=
  uses.nodup_dedup.filter _

/-- A use of a live key moves it to the end. -/
theorem recent_use (hk : k ∈ live) : recent live (uses++[k]) = (recent live uses).filter (· ≠ k)++[k] := by
  rw [recent,dedup_append_singleton,filter_append,filter_comm,recent]
  simp [hk]

theorem recent_insert (hk : k ∉ live) : recent (insert k live) (uses++[k]) = recent live uses++[k] := by
  have hfilter : (uses.dedup.filter (· ≠ k)).filter (· ∈ insert k live) = recent live uses := by
    rw [recent,filter_filter]
    refine filter_congr fun a _ => ?_
    by_cases ha : a = k
    · simp [ha,hk]
    · simp [ha]
  rw [recent,dedup_append_singleton,filter_append,hfilter]
  simp

theorem recent_erase (live : Finset κ) (uses : List κ) (k : κ) :
    recent (live.erase k) uses = (recent live uses).filter (· ≠ k) := by
  rw [recent,recent,filter_filter]
  refine filter_congr fun a _ => ?_
  by_cases ha : a = k
  · simp
  · simp

end TalosBox.Recency
