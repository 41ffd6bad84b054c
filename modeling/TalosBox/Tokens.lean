import Mathlib

/-! A buffered channel as a semaphore: a send takes a slot, a receive returns one. It only counts;
who took and returned is kept beside it. -/
namespace TalosBox.Tokens

structure Slots (ι : Type*) where
  cap : ℕ
  count : ℕ
  /-- How often each user has taken and returned a slot, and who has one. No operation reads them.
  -/
  taken : ι → ℕ
  returned : ι → ℕ
  holders : Finset ι

namespace Slots

variable {ι : Type*} [DecidableEq ι]

def empty (cap : ℕ) : Slots ι := ⟨cap,0,fun _ => 0,fun _ => 0,∅⟩

/-- The send, which waits while the channel is full. -/
def put (t : Slots ι) (c : ι) : Option (Slots ι) :=
  if t.count < t.cap then
    some { t with
      count := t.count + 1
      taken := Function.update t.taken c (t.taken c + 1)
      holders := insert c t.holders }
  else none

/-- The receive, which waits while the channel is empty. -/
def get (t : Slots ι) (c : ι) : Option (Slots ι) :=
  if 0 < t.count then
    some { t with
      count := t.count - 1
      returned := Function.update t.returned c (t.returned c + 1)
      holders := t.holders.erase c }
  else none

end Slots

/-- Every slot that is out is with the one user that took it, once. -/
structure Sound {ι : Type*} (t : Slots ι) : Prop where
  count : t.count = t.holders.card
  le_cap : t.count ≤ t.cap
  holding : ∀ c ∈ t.holders, t.taken c = 1 ∧ t.returned c = 0
  settled : ∀ c, c ∉ t.holders → t.returned c = t.taken c ∧ t.taken c ≤ 1

section

variable {ι : Type*} {t t' : Slots ι} {c : ι}

theorem sound_empty (cap : ℕ) : Sound (Slots.empty cap : Slots ι) where
  count := rfl
  le_cap := Nat.zero_le _
  holding c hc := by simp [Slots.empty] at hc
  settled c _ := ⟨rfl,Nat.zero_le _⟩

lemma Sound.card_le (h : Sound t) {users : Finset ι} (husers : users ⊆ t.holders) :
    users.card ≤ t.cap :=
  (Finset.card_le_card husers).trans (h.count ▸ h.le_cap)

end

section

variable {ι : Type*} [DecidableEq ι] {t t' : Slots ι} {c : ι}

theorem Sound.put (h : Sound t) (hc : t.taken c = 0) (ht : t.put c = some t') : Sound t' := by
  unfold Slots.put at ht
  split_ifs at ht with hfr
  cases ht
  have hnew : c ∉ t.holders := fun hmem => by simp [(h.holding c hmem).1] at hc
  refine ⟨?_,hfr,fun b hb => ?_,fun b hb => ?_⟩
  · simp [h.count,Finset.card_insert_of_notMem hnew]
  · by_cases hbc : b = c
    · subst hbc
      simp [hc,(h.settled b hnew).1]
    · simpa [hbc] using h.holding b (by simpa [hbc] using hb)
  · have hbc : b ≠ c := by
      rintro rfl
      simp at hb
    simpa [hbc] using h.settled b (by simpa [hbc] using hb)

theorem Sound.get (h : Sound t) (hc : c ∈ t.holders) (ht : t.get c = some t') : Sound t' := by
  unfold Slots.get at ht
  split_ifs at ht with hout
  cases ht
  refine ⟨?_,(Nat.sub_le _ _).trans h.le_cap,fun b hb => ?_,fun b hb => ?_⟩
  · simp [h.count,Finset.card_erase_of_mem hc]
  · obtain ⟨hbc,hmem⟩ := Finset.mem_erase.1 hb
    simpa [hbc] using h.holding b hmem
  · by_cases hbc : b = c
    · subst hbc
      simp [h.holding b hc]
    · simpa [hbc] using h.settled b (by simpa [hbc] using hb)

theorem Sound.put_isSome (h : Sound t) (hcap : 0 < t.cap) (hno : t.holders = ∅) :
    (t.put c).isSome := by
  have hz : t.count = 0 := by rw [h.count,hno,Finset.card_empty]
  simp [Slots.put,hz,hcap]

lemma Sound.get_isSome (h : Sound t) (hc : c ∈ t.holders) : (t.get c).isSome := by
  have hpos : 0 < t.count := h.count ▸ Finset.card_pos.2 ⟨c,hc⟩
  simp [Slots.get,hpos]

/-- What a user does with the channel in one step, by whether it has a slot before and after. -/
inductive Use (t : Slots ι) (c : ι) : Bool → Bool → Slots ι → Prop
  | rest (has : Bool) : Use t c has has t
  | put {t' : Slots ι} (h : t.put c = some t') : Use t c false true t'
  | get {t' : Slots ι} (h : t.get c = some t') : Use t c true false t'

/-- A use keeps the channel sound and moves that user alone. A user takes no second slot. -/
theorem Sound.use {has has' : Bool} (h : Sound t) (hc : c ∈ t.holders ↔ has)
    (hfst : has = false → has' → t.taken c = 0) (hu : Use t c has has' t') :
    Sound t' ∧ t'.cap = t.cap ∧ (c ∈ t'.holders ↔ has') ∧
      ∀ b, b ≠ c → (b ∈ t'.holders ↔ b ∈ t.holders) ∧ t'.taken b = t.taken b := by
  cases hu with
  | rest => exact ⟨h,rfl,hc,fun _ _ => ⟨Iff.rfl,rfl⟩⟩
  | put ht =>
    refine ⟨h.put (hfst rfl rfl) ht,?_⟩
    unfold Slots.put at ht
    split_ifs at ht
    cases ht
    exact ⟨rfl,by simp,fun b hb => by simp [hb]⟩
  | get ht =>
    refine ⟨h.get (hc.2 rfl) ht,?_⟩
    unfold Slots.get at ht
    split_ifs at ht
    cases ht
    exact ⟨rfl,by simp,fun b hb => by simp [hb]⟩

/-- `cap` slots, with the users `has` says; those of `before` have not taken one yet. -/
structure Owned (t : Slots ι) (cap : ℕ) (has before : ι → Bool) : Prop where
  sound : Sound t
  cap : t.cap = cap
  holders : ∀ c, c ∈ t.holders ↔ has c
  untaken : ∀ c, before c → t.taken c = 0

section

variable {cap : ℕ} {has before : ι → Bool}

theorem Owned.put_isSome (h : Owned t cap has before) (hcap : 0 < cap) (hno : ∀ c, has c = false) :
    (t.put c).isSome := by
  refine h.sound.put_isSome (h.cap ▸ hcap) (Finset.eq_empty_of_forall_notMem fun b hb => ?_)
  exact absurd ((h.holders b).1 hb) (by simp [hno b])

lemma Owned.get_isSome (h : Owned t cap has before) (hc : has c) :
    (t.get c).isSome :=
  h.sound.get_isSome ((h.holders c).2 hc)

omit [DecidableEq ι] in
theorem Owned.card_le (h : Owned t cap has before) {users : Finset ι}
    (husers : ∀ c ∈ users, has c) : users.card ≤ cap :=
  h.cap ▸ h.sound.card_le fun c hc => (h.holders c).2 (husers c hc)

omit [DecidableEq ι] in
/-- A user takes a slot at most once, and what it took it has or has returned. -/
theorem Owned.accounted (h : Owned t cap has before) (c : ι) :
    t.returned c + (has c).toNat = t.taken c ∧ t.taken c ≤ 1 := by
  cases hc : has c with
  | true =>
    obtain ⟨htkn,hretu⟩ := h.sound.holding c ((h.holders c).2 hc)
    simp [htkn,hretu]
  | false =>
    obtain ⟨hretu,htkn⟩ := h.sound.settled c (by simp [h.holders,hc])
    exact ⟨hretu,htkn⟩

end

/-- A user goes on: it takes its slot at most once, and is not before it any more then. -/
structure Onward (has before has' before' : Bool) : Prop where
  first : has = false → has' → before
  before : before' → before ∧ has' = false

instance (has before has' before' : Bool) : Decidable (Onward has before has' before') :=
  decidable_of_iff ((has = false → has' → before) ∧
    (before' → before ∧ has' = false)) ⟨fun h => ⟨h.1,h.2⟩,fun h => ⟨h.1,h.2⟩⟩

lemma Onward.refl {has before : Bool} (h : before → has = false) :
    Onward has before has before :=
  ⟨fun hhas hhas' => by simp [hhas] at hhas',fun hbef => ⟨hbef,h hbef⟩⟩

theorem Owned.use {cap : ℕ} {has before has' before' : ι → Bool} (h : Owned t cap has before)
    (hu : Use t c (has c) (has' c) t') (hon : Onward (has c) (before c) (has' c) (before' c))
    (hos : ∀ b, b ≠ c → has' b = has b ∧ before' b = before b) :
    Owned t' cap has' before' := by
  have hfst : has c = false → has' c → t.taken c = 0 := fun hhas hhas' =>
    h.untaken c (hon.first hhas hhas')
  obtain ⟨hsnd,hcap,hhol,hrs⟩ := h.sound.use (h.holders c) hfst hu
  refine ⟨hsnd,hcap.trans h.cap,fun b => ?_,fun b hb => ?_⟩
  · by_cases hbc : b = c
    · rw [hbc]
      exact hhol
    · rw [(hrs b hbc).1,h.holders,(hos b hbc).1]
  · by_cases hbc : b = c
    · rw [hbc] at hb ⊢
      obtain ⟨hbef,hhas⟩ := hon.before hb
      have hz := h.untaken c hbef
      rw [hhas] at hu
      generalize hold : has c = old at hu
      cases hu with
      | rest => exact hz
      | get ht =>
        have htkn := (h.sound.holding c ((h.holders c).2 hold)).1
        omega
    · rw [(hrs b hbc).2]
      exact h.untaken b ((hos b hbc).2 ▸ hb)

end

end TalosBox.Tokens
