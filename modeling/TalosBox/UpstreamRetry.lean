import TalosBox.HostSubnets
import TalosBox.MirrorReference

/-! How long the mirror waits before it asks again, and how long it keeps a token: seconds the
upstream names, made into 64-bit nanoseconds. -/
namespace TalosBox.Registry

open Mirror (Text trimSpace)
open Subnets (atoi)

/-- A product of 64-bit integers as Go computes it. -/
def wrap64 (n : ℤ) : ℤ := n.bmod (2^64)

def second : ℤ := 1000000000
def millisecond : ℤ := 1000000

/-- `Time.Sub`, which stops at the ends of the range. -/
def timeSub (t u : ℤ) : ℤ := max (-2^63) (min (2^63-1) (t-u))

structure RetryPolicy where
  maxAttempts : ℤ
  maxDelay : ℤ

def defaultRetryPolicy : RetryPolicy := ⟨3,30*second⟩

def normalizedRetryPolicy (policy : RetryPolicy) : RetryPolicy :=
  ⟨if policy.maxAttempts ≤ 0 then 1 else policy.maxAttempts,
    if policy.maxDelay ≤ 0 then 30*second else policy.maxDelay⟩

-- The library's reading of a date, in nanoseconds on the same clock as `now`.
variable (parseTime : Text → Option ℤ)

def parseRetryAfter (value : Text) (now : ℤ) : Option ℤ :=
  let value := trimSpace value
  match (atoi value).filter fun seconds => 0 ≤ seconds with
  | some seconds => some (wrap64 (seconds*second))
  | none => (parseTime value).map fun when => max 0 (timeSub when now)

def retryDelay (policy : RetryPolicy) (header : Text) (now : ℤ) (retry : ℕ) : ℤ :=
  match parseRetryAfter parseTime header now with
  | some delay => if policy.maxDelay < delay then policy.maxDelay else delay
  | none =>
    let delay := if 0 < retry then second else 500*millisecond
    if policy.maxDelay < delay then policy.maxDelay else delay

def defaultTokenLifetime : ℤ := 60*second

def tokenLifetime (expiresIn : ℤ) : ℤ :=
  let lifetime := if 0 < expiresIn then wrap64 (expiresIn*second) else defaultTokenLifetime
  let skew := lifetime.tdiv 10
  lifetime - if 30*second < skew then 30*second else skew

lemma wrap64_of_lt {n : ℤ} (h0 : 0 ≤ n) (h : n < 2^63) : wrap64 n = n :=
  Int.bmod_eq_of_le (by omega) (by omega)

lemma wrap64_lt (n : ℤ) : wrap64 n < 2^63 := by
  have h := Int.bmod_lt (x := n) (m := 2^64) (by norm_num)
  exact h

theorem wrap64_le {n : ℤ} (h0 : 0 ≤ n) : wrap64 n ≤ n := by
  by_cases h : n < 2^63
  · rw [wrap64_of_lt h0 h]
  · exact (wrap64_lt n).le.trans (not_lt.1 h)

section

variable {parseTime} {policy : RetryPolicy} {header : Text} {now n : ℤ} {retry : ℕ}

/-- The header is a number of seconds. -/
def Seconds (header : Text) (n : ℤ) : Prop := atoi (trimSpace header) = some n ∧ 0 ≤ n

lemma Seconds.unique {m : ℤ} (hn : Seconds header n) (hm : Seconds header m) : n = m :=
  Option.some.inj (hn.1.symm.trans hm.1)

theorem capped (delay cap : ℤ) : (if cap < delay then cap else delay) = min delay cap := by
  split_ifs with h
  · rw [min_eq_right h.le]
  · rw [min_eq_left (not_lt.1 h)]

lemma retryDelay_le : retryDelay parseTime policy header now retry ≤ policy.maxDelay := by
  simp only [retryDelay,capped]
  split <;> exact min_le_right _ _

theorem retryDelay_of_seconds (h : Seconds header n) :
    retryDelay parseTime policy header now retry = min (wrap64 (n*second)) policy.maxDelay := by
  have hprs : parseRetryAfter parseTime header now = some (wrap64 (n*second)) := by
    simp only [parseRetryAfter,h.1,Option.filter_some,h.2,decide_true,if_true]
  simp only [retryDelay,hprs,capped]

theorem retryDelay_nonneg_of_date (hpos : 0 < policy.maxDelay) (h : ∀ n, ¬ Seconds header n) :
    0 ≤ retryDelay parseTime policy header now retry := by
  have hno : (atoi (trimSpace header)).filter (fun seconds => 0 ≤ seconds) = none := by
    rw [Option.filter_eq_none_iff]
    intro n hn hn0
    exact h n ⟨hn,of_decide_eq_true hn0⟩
  have hprs : ∀ delay ∈ parseRetryAfter parseTime header now, 0 ≤ delay := by
    intro delay hdly
    simp only [parseRetryAfter,hno,Option.mem_def,Option.map_eq_some_iff] at hdly
    obtain ⟨when,-,rfl⟩ := hdly
    exact le_max_left _ _
  simp only [retryDelay,capped]
  split
  · rename_i delay hdly
    exact le_min (hprs delay hdly) hpos.le
  · refine le_min ?_ hpos.le
    split_ifs <;> decide

theorem retryDelay_nonneg_iff (hpos : 0 < policy.maxDelay) :
    0 ≤ retryDelay parseTime policy header now retry ↔ ∀ n, Seconds header n → 0 ≤ wrap64 (n*second) := by
  by_cases h : ∃ n, Seconds header n
  · obtain ⟨n,hn⟩ := h
    rw [retryDelay_of_seconds hn,le_min_iff]
    constructor
    · rintro ⟨hwrap,-⟩ m hm
      rwa [hm.unique hn]
    · exact fun hwrap => ⟨hwrap n hn,hpos.le⟩
  · have hno : ∀ n, ¬ Seconds header n := fun n hn => h ⟨n,hn⟩
    exact iff_of_true (retryDelay_nonneg_of_date hpos hno) fun n hn => absurd hn (hno n)

theorem retryDelay_eq_iff (hfits : policy.maxDelay < 2^63) (h : Seconds header n) :
    retryDelay parseTime policy header now retry = min (n*second) policy.maxDelay ↔
      n*second < 2^63 ∨ policy.maxDelay ≤ wrap64 (n*second) := by
  have h0 : 0 ≤ n*second := mul_nonneg h.2 (by decide)
  rw [retryDelay_of_seconds h]
  by_cases hlt : n*second < 2^63
  · rw [wrap64_of_lt h0 hlt]
    exact iff_of_true rfl (.inl hlt)
  · rw [min_eq_right (hfits.le.trans (not_lt.1 hlt)),min_eq_right_iff,or_iff_right hlt]

end

/-- What is left of a lifetime after the skew is of its sign and no more than it is long. -/
theorem skewed (lifetime : ℤ) :
    (lifetime - if 30*second < lifetime.tdiv 10 then 30*second else lifetime.tdiv 10) ≤ max 0 lifetime ∧
      ((0 < lifetime - if 30*second < lifetime.tdiv 10 then 30*second else lifetime.tdiv 10) ↔ 0 < lifetime) := by
  have hsec : 30*second = 30000000000 := rfl
  have hskew : lifetime.tdiv 10 = if 0 ≤ lifetime then lifetime/10 else -(-lifetime/10) := by
    split_ifs with h
    · exact Int.tdiv_eq_ediv_of_nonneg h
    · rw [← neg_neg lifetime,Int.neg_tdiv,Int.tdiv_eq_ediv_of_nonneg (by omega),neg_neg]
  split_ifs <;> omega

theorem tokenLifetime_le {expiresIn : ℤ} (h : 0 < expiresIn) : tokenLifetime expiresIn ≤ expiresIn*second := by
  have h0 : 0 ≤ expiresIn*second := mul_nonneg h.le (by decide)
  simp only [tokenLifetime,if_pos h]
  exact (skewed _).1.trans (max_le h0 (wrap64_le h0))

theorem tokenLifetime_pos_iff {expiresIn : ℤ} (h : 0 < expiresIn) :
    0 < tokenLifetime expiresIn ↔ 0 < wrap64 (expiresIn*second) := by
  simp only [tokenLifetime,if_pos h]
  exact (skewed _).2

/-- The cap holds whatever the header says. A delay of seconds is right, and not negative, exactly
if the multiplication does not come out too small; so is a token's lifetime positive. -/
theorem named_seconds_iff (parseTime : Text → Option ℤ) (policy : RetryPolicy) (hpos : 0 < policy.maxDelay)
    (hfits : policy.maxDelay < 2^63) (header : Text) (now : ℤ) (retry : ℕ) :
    retryDelay parseTime policy header now retry ≤ policy.maxDelay ∧
      (0 ≤ retryDelay parseTime policy header now retry ↔ ∀ n, Seconds header n → 0 ≤ wrap64 (n*second)) ∧
      (∀ n, Seconds header n →
        (retryDelay parseTime policy header now retry = min (n*second) policy.maxDelay ↔
          n*second < 2^63 ∨ policy.maxDelay ≤ wrap64 (n*second))) ∧
      ∀ expiresIn, 0 < expiresIn → expiresIn < 2^63 →
        tokenLifetime expiresIn ≤ expiresIn*second ∧
          (0 < tokenLifetime expiresIn ↔ 0 < wrap64 (expiresIn*second)) :=
  ⟨retryDelay_le,retryDelay_nonneg_iff hpos,fun _ => retryDelay_eq_iff hfits,
    fun _ h _ => ⟨tokenLifetime_le h,tokenLifetime_pos_iff h⟩⟩

theorem forty_seconds :
    Seconds " 40 ".toList 40 ∧
      retryDelay (fun _ => none) defaultRetryPolicy " 40 ".toList 0 0 = min (40*second) defaultRetryPolicy.maxDelay ∧
      0 < tokenLifetime 300 ∧ tokenLifetime 300 ≤ 300*second := by
  have h := named_seconds_iff (fun _ => none) defaultRetryPolicy (by decide) (by decide) " 40 ".toList 0 0
  have hseco : Seconds " 40 ".toList 40 := ⟨by decide +kernel,by decide⟩
  refine ⟨hseco,(h.2.2.1 40 hseco).mpr (.inl (by decide)),?_⟩
  obtain ⟨hle,hlife⟩ := h.2.2.2 300 (by decide) (by decide)
  exact ⟨hlife.mpr (by decide +kernel),hle⟩

/-- A header, and a lifetime, of 292 years come out negative. -/
theorem centuries_come_out_negative :
    Seconds "9223372037".toList 9223372037 ∧
      retryDelay (fun _ => none) defaultRetryPolicy "9223372037".toList 0 0 < 0 ∧
      tokenLifetime 9223372037 < 0 :=
  ⟨⟨by decide +kernel,by decide⟩,by decide +kernel,by decide +kernel⟩

end TalosBox.Registry
