import Mathlib

/-! Mutexes by key, made on demand and dropped with their last user. A caller is counted in before
it waits for its entry's token, and out after it has given the token back or given up; every
operation is one such critical section, or one send or receive on the channel. -/
namespace TalosBox.KeyedLocks

open Option
open Function (update update_of_ne update_self)

/-- Where a caller stands with a mutex. -/
inductive Stage (κ : Type*)
  | out
  | waiting (key : κ)
  | holding (key : κ)
  /-- The caller has no claim to the token any more and is still counted. -/
  | leaving (key : κ)
  deriving DecidableEq

def Stage.key {κ : Type*} : Stage κ → Option κ
  | .out => none
  | .waiting key => some key
  | .holding key => some key
  | .leaving key => some key

structure Entry where
  held : Bool
  waiters : ℕ

structure Locks (κ ι : Type*) where
  locks : κ → Option ℕ
  /-- Entries go by number; this is the next one. -/
  next : ℕ
  entries : ℕ → Entry
  /-- What each caller is doing, and the entry it found. -/
  stage : ι → Stage κ
  entry : ι → ℕ
  /-- The callers an entry counts, and the one that has its token. No operation reads them. -/
  users : ℕ → Finset ι
  holder : ℕ → Option ι

namespace Locks

variable {κ ι : Type*} [DecidableEq κ] [DecidableEq ι] (l : Locks κ ι) (c : ι)

def empty : Locks κ ι :=
  ⟨fun _ => none,0,fun _ => ⟨false,0⟩,fun _ => .out,fun _ => 0,fun _ => ∅,fun _ => none⟩

/-- The caller is counted and begins to wait. -/
def queue (key : κ) (id : ℕ) : Locks κ ι :=
  { l with
    entries := update l.entries id
      { l.entries id with waiters := (l.entries id).waiters + 1 }
    stage := update l.stage c (.waiting key)
    entry := update l.entry c id
    users := update l.users id (insert c (l.users id)) }

/-- An entry for a key that has none. -/
def create (key : κ) : Locks κ ι :=
  { l with
    locks := update l.locks key (some l.next)
    next := l.next + 1
    entries := update l.entries l.next ⟨false,0⟩ }

def enter (key : κ) : Locks κ ι :=
  match l.locks key with
  | some id => l.queue c key id
  | none => (l.create key).queue c key l.next

/-- The send that takes the token; it waits while another caller has it. -/
def take : Option (Locks κ ι) :=
  match l.stage c with
  | .waiting key =>
    if (l.entries (l.entry c)).held then none
    else some { l with
      entries := update l.entries (l.entry c)
        { l.entries (l.entry c) with held := true }
      stage := update l.stage c (.holding key)
      holder := update l.holder (l.entry c) (some c) }
  | _ => none

def giveUp : Option (Locks κ ι) :=
  match l.stage c with
  | .waiting key => some { l with stage := update l.stage c (.leaving key) }
  | _ => none

/-- The receive that gives the token back. -/
def unlock : Option (Locks κ ι) :=
  match l.stage c with
  | .holding key =>
    if (l.entries (l.entry c)).held then
      some { l with
        entries := update l.entries (l.entry c)
          { l.entries (l.entry c) with held := false }
        stage := update l.stage c (.leaving key)
        holder := update l.holder (l.entry c) none }
    else none
  | _ => none

/-- The caller is counted out; the last one drops the key. -/
def forget : Option (Locks κ ι) :=
  match l.stage c with
  | .leaving key =>
    let waiters := (l.entries (l.entry c)).waiters - 1
    some { l with
      locks := if waiters = 0 then update l.locks key none else l.locks
      entries := update l.entries (l.entry c)
        { l.entries (l.entry c) with waiters := waiters }
      stage := update l.stage c .out
      users := update l.users (l.entry c) ((l.users (l.entry c)).erase c) }
  | _ => none

end Locks

/-- Every caller is at its key's one entry, the counts are the callers', and a token that is out is
with the key's holder. -/
structure Sound {κ ι : Type*} (l : Locks κ ι) : Prop where
  current : ∀ c key, (l.stage c).key = some key → l.locks key = some (l.entry c)
  users : ∀ c id, c ∈ l.users id ↔ l.stage c ≠ .out ∧ l.entry c = id
  waiters : ∀ id, (l.entries id).waiters = (l.users id).card
  below : ∀ key id, l.locks key = some id → id < l.next
  injective : ∀ key key' id, l.locks key = some id → l.locks key' = some id → key = key'
  held : ∀ id, (l.entries id).held = (l.holder id).isSome
  holder : ∀ c id, l.holder id = some c ↔ (∃ key, l.stage c = .holding key) ∧ l.entry c = id

section

variable {κ ι : Type*} {l : Locks κ ι} {c c' : ι} {key : κ}

theorem sound_empty : Sound (Locks.empty : Locks κ ι) where
  current c key h := by simp [Locks.empty,Stage.key] at h
  users c id := by simp [Locks.empty]
  waiters id := by simp [Locks.empty]
  below key id h := by simp [Locks.empty] at h
  injective key key' id h := by simp [Locks.empty] at h
  held id := rfl
  holder c id := by simp [Locks.empty]

lemma Stage.ne_out_iff {stage : Stage κ} : stage ≠ .out ↔ ∃ key, stage.key = some key := by
  cases stage <;> simp [Stage.key]

theorem Sound.exclusive (h : Sound l) (hc : l.stage c = .holding key)
    (hc' : l.stage c' = .holding key) : c = c' := by
  have hent := h.current c key (by rw [hc]; rfl)
  have hent' := h.current c' key (by rw [hc']; rfl)
  have hsm : l.entry c' = l.entry c := some.inj (hent'.symm.trans hent)
  have hhol := (h.holder c _).2 ⟨⟨key,hc⟩,rfl⟩
  have hhol' := (h.holder c' _).2 ⟨⟨key,hc'⟩,hsm⟩
  exact some.inj (hhol.symm.trans hhol')

theorem Sound.alone (h : Sound l) (hc : (l.stage c).key = some key)
    (hla : (l.entries (l.entry c)).waiters ≤ 1) (hc' : (l.stage c').key = some key) : c' = c := by
  have hent : l.entry c' = l.entry c :=
    some.inj ((h.current c' key hc').symm.trans (h.current c key hc))
  have hmem := (h.users c _).2 ⟨Stage.ne_out_iff.2 ⟨key,hc⟩,rfl⟩
  have hmem' := (h.users c' _).2 ⟨Stage.ne_out_iff.2 ⟨key,hc'⟩,hent⟩
  rw [h.waiters] at hla
  exact Finset.card_le_one.1 hla c' hmem' c hmem

theorem Sound.unused (h : Sound l) {id : ℕ} (hid : l.next ≤ id) (c : ι)
    (hstg : l.stage c ≠ .out) : l.entry c ≠ id := by
  rintro rfl
  obtain ⟨key,hkey⟩ := Stage.ne_out_iff.1 hstg
  exact absurd (h.below key _ (h.current c key hkey)) (not_lt.2 hid)

end

section

variable {κ ι : Type*} [DecidableEq ι] {l l' : Locks κ ι} {c : ι} {key : κ}

section

variable (h : Sound l)
include h

/-- A caller that waits for a key nobody holds can take it. -/
theorem Sound.take_isSome (hc : l.stage c = .waiting key)
    (hfr : ∀ c', l.stage c' ≠ .holding key) : (l.take c).isSome := by
  have hhl : (l.entries (l.entry c)).held = false := by
    rw [h.held,isSome_eq_false_iff,isNone_iff_eq_none]
    by_contra hso
    obtain ⟨c',hc'⟩ := ne_none_iff_exists'.1 hso
    obtain ⟨⟨key',hhd⟩,hent⟩ := (h.holder c' _).1 hc'
    have hkey := h.current c key (by rw [hc]; rfl)
    have hkey' := h.current c' key' (by rw [hhd]; rfl)
    rw [hent] at hkey'
    obtain rfl := h.injective key key' _ hkey hkey'
    exact hfr c' hhd
  simp [Locks.take,hc,hhl]

theorem Sound.unlock_isSome (hc : l.stage c = .holding key) :
    (l.unlock c).isSome := by
  have hhol := (h.holder c _).2 ⟨⟨key,hc⟩,rfl⟩
  simp [Locks.unlock,hc,h.held,hhol]

theorem Sound.queue (hc : l.stage c = .out) {id : ℕ} (hid : l.locks key = some id) :
    Sound (l.queue c key id) where
  current b key' hb := by
    by_cases hbc : b = c
    · subst hbc
      obtain rfl : key = key' := by simpa [Locks.queue,Stage.key] using hb
      simpa [Locks.queue] using hid
    · simpa [Locks.queue,hbc] using h.current b key' (by simpa [Locks.queue,hbc] using hb)
  users b id' := by
    by_cases hbc : b = c
    · subst hbc
      have hnew : b ∉ l.users id' := fun hmem => ((h.users b id').1 hmem).1 hc
      by_cases hid' : id' = id
      · simp [Locks.queue,hid']
      · simp [Locks.queue,hid',hnew,Ne.symm hid']
    · by_cases hid' : id' = id
      · subst hid'
        simp [Locks.queue,hbc,h.users]
      · simp [Locks.queue,hbc,hid',h.users]
  waiters id' := by
    by_cases hid' : id' = id
    · subst hid'
      have hnew : c ∉ l.users id' := fun hmem => ((h.users c id').1 hmem).1 hc
      simp [Locks.queue,h.waiters,Finset.card_insert_of_notMem hnew]
    · simp [Locks.queue,hid',h.waiters]
  below := h.below
  injective := h.injective
  held id' := by
    by_cases hid' : id' = id
    · subst hid'
      simp [Locks.queue,h.held]
    · simp [Locks.queue,hid',h.held]
  holder b id' := by
    by_cases hbc : b = c
    · subst hbc
      simp [Locks.queue,h.holder,hc]
    · simp [Locks.queue,hbc,h.holder]

theorem Sound.current_restage (hc : (l.stage c).key = some key) {stage : Stage κ}
    (hstg : stage.key = some key) (b : ι) (key' : κ)
    (hb : (update l.stage c stage b).key = some key') :
    l.locks key' = some (l.entry b) := by
  by_cases hbc : b = c
  · subst hbc
    rw [update_self,hstg] at hb
    exact h.current b key' (hc.trans hb)
  · rw [update_of_ne hbc] at hb
    exact h.current b key' hb

theorem Sound.users_restage (hc : l.stage c ≠ .out) {stage : Stage κ}
    (hstg : stage ≠ .out) (b : ι) (id : ℕ) :
    b ∈ l.users id ↔ update l.stage c stage b ≠ .out ∧ l.entry b = id := by
  rw [h.users]
  by_cases hbc : b = c
  · subst hbc
    simp [hc,hstg]
  · rw [update_of_ne hbc]

theorem Sound.giveUp (hc : l.stage c = .waiting key) (hl : l.giveUp c = some l') :
    Sound l' := by
  simp only [Locks.giveUp,hc,some.injEq] at hl
  subst hl
  refine ⟨h.current_restage (by rw [hc]; rfl) rfl,h.users_restage (by simp [hc]) (by simp),
    h.waiters,h.below,h.injective,h.held,fun b id => ?_⟩
  · by_cases hbc : b = c
    · subst hbc
      simp [h.holder,hc]
    · simp [hbc,h.holder]

theorem Sound.take (hc : l.stage c = .waiting key) (hl : l.take c = some l') :
    Sound l' := by
  cases hhl : (l.entries (l.entry c)).held with
  | true => simp [Locks.take,hc,hhl] at hl
  | false =>
    simp only [Locks.take,hc,hhl,Bool.false_eq_true,if_false,some.injEq] at hl
    subst hl
    have hno : l.holder (l.entry c) = none := by simpa [hhl] using (h.held (l.entry c)).symm
    refine ⟨h.current_restage (by rw [hc]; rfl) rfl,h.users_restage (by simp [hc]) (by simp),
      fun id => ?_,h.below,h.injective,fun id => ?_,fun b id => ?_⟩
    · by_cases hid : id = l.entry c
      · subst hid
        simp [h.waiters]
      · simp [hid,h.waiters]
    · by_cases hid : id = l.entry c
      · subst hid
        simp
      · simp [hid,h.held]
    · by_cases hid : id = l.entry c
      · subst hid
        by_cases hbc : b = c
        · simp [hbc]
        · have hnot : ¬((∃ key, l.stage b = .holding key) ∧ l.entry b = l.entry c) := by
            rw [← h.holder,hno]
            simp
          simpa [hbc,Ne.symm hbc] using hnot
      · by_cases hbc : b = c
        · subst hbc
          simp [hid,h.holder,Ne.symm hid]
        · simp [hbc,hid,h.holder]

theorem Sound.unlock (hc : l.stage c = .holding key) (hl : l.unlock c = some l') :
    Sound l' := by
  have hhol : l.holder (l.entry c) = some c := (h.holder c _).2 ⟨⟨key,hc⟩,rfl⟩
  simp only [Locks.unlock,hc,h.held,hhol,isSome_some,if_true,some.injEq] at hl
  subst hl
  refine ⟨h.current_restage (by rw [hc]; rfl) rfl,h.users_restage (by simp [hc]) (by simp),
    fun id => ?_,h.below,h.injective,fun id => ?_,fun b id => ?_⟩
  · by_cases hid : id = l.entry c
    · subst hid
      simp [h.waiters]
    · simp [hid,h.waiters]
  · by_cases hid : id = l.entry c
    · subst hid
      simp
    · simp [hid,h.held]
  · by_cases hid : id = l.entry c
    · subst hid
      by_cases hbc : b = c
      · simp [hbc]
      · have hnot : ¬((∃ key, l.stage b = .holding key) ∧ l.entry b = l.entry c) := by
          rw [← h.holder,hhol]
          simpa using Ne.symm hbc
        simpa [hbc] using hnot
    · by_cases hbc : b = c
      · subst hbc
        simp [hid,h.holder,Ne.symm hid]
      · simp [hbc,hid,h.holder]

end

end

section

variable {κ ι : Type*} [DecidableEq κ] [DecidableEq ι] {l l' : Locks κ ι} {c : ι} {key : κ}

lemma forget_isSome (hc : l.stage c = .leaving key) : (l.forget c).isSome := by
  simp [Locks.forget,hc]

omit [DecidableEq ι] in
theorem Sound.create (h : Sound l) (hno : l.locks key = none) : Sound (l.create key) where
  current b key' hb := by
    have hold := h.current b key' hb
    have hne : key' ≠ key := by
      rintro rfl
      simp [hno] at hold
    simpa [Locks.create,hne] using hold
  users := h.users
  waiters id := by
    by_cases hid : id = l.next
    · have hemp : l.users id = ∅ := by
        refine Finset.eq_empty_of_forall_notMem fun b hb => ?_
        obtain ⟨hstg,hent⟩ := (h.users b id).1 hb
        exact h.unused hid.ge b hstg hent
      simp [Locks.create,hid,hid ▸ hemp]
    · simp [Locks.create,hid,h.waiters]
  below key' id hid := by
    by_cases hkey : key' = key
    · subst hkey
      obtain rfl : l.next = id := by simpa [Locks.create] using hid
      exact Nat.lt_succ_self _
    · exact Nat.lt_succ_of_lt (h.below key' id (by simpa [Locks.create,hkey] using hid))
  injective key₁ key₂ id h₁ h₂ := by
    have hold : ∀ key', key' ≠ key → (l.create key).locks key' = some id → id < l.next ∧
        l.locks key' = some id := by
      intro key' hne hid
      have hid : l.locks key' = some id := by simpa [Locks.create,hne] using hid
      exact ⟨h.below key' id hid,hid⟩
    have hnew : (l.create key).locks key = some id → l.next = id := by
      simp [Locks.create]
    by_cases hkey₁ : key₁ = key
    · by_cases hkey₂ : key₂ = key
      · exact hkey₁.trans hkey₂.symm
      · have := (hold key₂ hkey₂ h₂).1
        have := hnew (hkey₁ ▸ h₁)
        omega
    · by_cases hkey₂ : key₂ = key
      · have := (hold key₁ hkey₁ h₁).1
        have := hnew (hkey₂ ▸ h₂)
        omega
      · exact h.injective key₁ key₂ id (hold key₁ hkey₁ h₁).2 (hold key₂ hkey₂ h₂).2
  held id := by
    by_cases hid : id = l.next
    · have hno : l.holder id = none := by
        by_contra hso
        obtain ⟨b,hb⟩ := ne_none_iff_exists'.1 hso
        obtain ⟨⟨key',hhd⟩,hent⟩ := (h.holder b id).1 hb
        exact h.unused hid.ge b (by simp [hhd]) hent
      simp [Locks.create,hid,hid ▸ hno]
    · simp [Locks.create,hid,h.held]
  holder := h.holder

theorem Sound.enter (h : Sound l) (hc : l.stage c = .out) (key : κ) : Sound (l.enter c key) := by
  unfold Locks.enter
  cases hid : l.locks key with
  | some id => exact h.queue hc hid
  | none => exact (h.create hid).queue hc (by simp [Locks.create])

theorem stage_enter (l : Locks κ ι) (c : ι) (key : κ) :
    (l.enter c key).stage = update l.stage c (.waiting key) := by
  unfold Locks.enter
  cases l.locks key <;> rfl

theorem Sound.forget (h : Sound l) (hc : l.stage c = .leaving key) (hl : l.forget c = some l') :
    Sound l' := by
  simp only [Locks.forget,hc,some.injEq] at hl
  subst hl
  have hmem : c ∈ l.users (l.entry c) := (h.users c _).2 ⟨by simp [hc],rfl⟩
  have hla : (l.entries (l.entry c)).waiters - 1 = 0 → ∀ b key', b ≠ c →
      (l.stage b).key = some key' → key' ≠ key := by
    rintro hz b key' hbc hb rfl
    exact hbc (h.alone (by rw [hc]; rfl) (by omega) hb)
  have hlocks : ∀ key' id, (if (l.entries (l.entry c)).waiters - 1 = 0 then
      update l.locks key none else l.locks) key' = some id → l.locks key' = some id := by
    intro key' id hid
    split_ifs at hid
    · by_cases hk : key' = key
      · simp [hk] at hid
      · simpa [hk] using hid
    · exact hid
  refine ⟨fun b key' hb => ?_,fun b id => ?_,fun id => ?_,fun key' id hid => h.below key' id (hlocks _ _ hid),
    fun key₁ key₂ id h₁ h₂ => h.injective key₁ key₂ id (hlocks _ _ h₁) (hlocks _ _ h₂),fun id => ?_,
    fun b id => ?_⟩
  · by_cases hbc : b = c
    · simp [hbc,Stage.key] at hb
    · have hb : (l.stage b).key = some key' := by simpa [hbc] using hb
      have hold := h.current b key' hb
      dsimp only
      split_ifs with hz
      · rwa [update_of_ne (hla hz b key' hbc hb)]
      · exact hold
  · by_cases hid : id = l.entry c
    · subst hid
      by_cases hbc : b = c
      · simp [hbc]
      · simp [hbc,h.users]
    · by_cases hbc : b = c
      · subst hbc
        simp [hid,h.users,Ne.symm hid]
      · simp [hbc,hid,h.users]
  · by_cases hid : id = l.entry c
    · subst hid
      simp [h.waiters,Finset.card_erase_of_mem hmem]
    · simp [hid,h.waiters]
  · by_cases hid : id = l.entry c
    · subst hid
      simp [h.held]
    · simp [hid,h.held]
  · by_cases hbc : b = c
    · subst hbc
      simp [h.holder,hc]
    · simp [hbc,h.holder]

/-- What a caller does with the mutexes in one step, by the stages it leads between. -/
inductive Use (l : Locks κ ι) (c : ι) : Stage κ → Stage κ → Locks κ ι → Prop
  | rest (stage : Stage κ) : Use l c stage stage l
  | enter (key : κ) : Use l c .out (.waiting key) (l.enter c key)
  | take (key : κ) {l' : Locks κ ι} (h : l.take c = some l') :
      Use l c (.waiting key) (.holding key) l'
  | giveUp (key : κ) {l' : Locks κ ι} (h : l.giveUp c = some l') :
      Use l c (.waiting key) (.leaving key) l'
  | unlock (key : κ) {l' : Locks κ ι} (h : l.unlock c = some l') :
      Use l c (.holding key) (.leaving key) l'
  | forget (key : κ) {l' : Locks κ ι} (h : l.forget c = some l') : Use l c (.leaving key) .out l'

/-- A use by a caller at the right stage keeps the mutexes sound and moves that caller alone. -/
theorem Sound.use {stage stage' : Stage κ} (h : Sound l) (hc : l.stage c = stage)
    (hu : Use l c stage stage' l') :
    Sound l' ∧ l'.stage = update l.stage c stage' := by
  cases hu with
  | rest => exact ⟨h,(Function.update_eq_self_iff.2 hc.symm).symm⟩
  | enter key => exact ⟨h.enter hc key,stage_enter l c key⟩
  | take key hl =>
    refine ⟨h.take hc hl,?_⟩
    simp only [Locks.take,hc] at hl
    split_ifs at hl
    cases hl
    rfl
  | giveUp key hl =>
    refine ⟨h.giveUp hc hl,?_⟩
    simp only [Locks.giveUp,hc] at hl
    cases hl
    rfl
  | unlock key hl =>
    refine ⟨h.unlock hc hl,?_⟩
    simp only [Locks.unlock,hc] at hl
    split_ifs at hl
    cases hl
    rfl
  | forget key hl =>
    refine ⟨h.forget hc hl,?_⟩
    simp only [Locks.forget,hc] at hl
    cases hl
    rfl

/-- Every entry in the map is counted for somebody. -/
def Wanted {κ ι : Type*} (l : Locks κ ι) : Prop := ∀ key id, l.locks key = some id → (l.users id).Nonempty

omit [DecidableEq κ] in
theorem Wanted.queue (h : Wanted l) (c : ι) (key : κ) (id : ℕ) : Wanted (l.queue c key id) := by
  intro key' id' hlc
  by_cases hid : id' = id
  · subst hid
    simp [Locks.queue]
  · simpa [Locks.queue,hid] using h key' id' hlc

theorem Wanted.enter (h : Wanted l) (c : ι) (key : κ) : Wanted (l.enter c key) := by
  unfold Locks.enter
  cases hid : l.locks key with
  | some id => exact h.queue c key id
  | none =>
    intro key' id' hlc
    by_cases hid' : id' = l.next
    · subst hid'
      simp [Locks.queue]
    · -- the key's entry is the new one, so this is another key's
      have hne : key' ≠ key := by
        rintro rfl
        simp [Locks.queue,Locks.create,Ne.symm hid'] at hlc
      have hold := h key' id' (by simpa [Locks.queue,Locks.create,hne] using hlc)
      simpa [Locks.queue,Locks.create,hid'] using hold

theorem Wanted.forget (h : Wanted l) (hsnd : Sound l) (hc : l.stage c = .leaving key)
    (hl : l.forget c = some l') : Wanted l' := by
  simp only [Locks.forget,hc,some.injEq] at hl
  subst hl
  have hent : l.locks key = some (l.entry c) := hsnd.current c key (by rw [hc]; rfl)
  have hmem : c ∈ l.users (l.entry c) := (hsnd.users c _).2 ⟨by simp [hc],rfl⟩
  intro key' id hlc
  dsimp only at hlc ⊢
  by_cases hid : id = l.entry c
  · subst hid
    rw [update_self]
    split_ifs at hlc with hz
    · -- the last caller takes the key away, and no other key has its entry
      by_cases hkey : key' = key
      · simp [hkey] at hlc
      · rw [update_of_ne hkey] at hlc
        exact absurd (hsnd.injective key' key _ hlc hent) hkey
    · rw [← Finset.card_pos,Finset.card_erase_of_mem hmem,← hsnd.waiters]
      omega
  · rw [update_of_ne hid]
    refine h key' id ?_
    split_ifs at hlc with hz
    · by_cases hkey : key' = key
      · simp [hkey] at hlc
      · rwa [update_of_ne hkey] at hlc
    · exact hlc

theorem Wanted.use {stage stage' : Stage κ} (h : Wanted l) (hsnd : Sound l) (hc : l.stage c = stage)
    (hu : Use l c stage stage' l') : Wanted l' := by
  cases hu with
  | rest => exact h
  | enter key => exact h.enter c key
  | take key hl =>
    simp only [Locks.take,hc] at hl
    split_ifs at hl
    cases hl
    exact h
  | giveUp key hl =>
    simp only [Locks.giveUp,hc] at hl
    cases hl
    exact h
  | unlock key hl =>
    simp only [Locks.unlock,hc] at hl
    split_ifs at hl
    cases hl
    exact h
  | forget key hl => exact h.forget hsnd hc hl

omit [DecidableEq κ] [DecidableEq ι] in
/-- A key is in the map exactly if some caller is counted for it. -/
theorem Wanted.present_iff (h : Wanted l) (hsnd : Sound l) :
    (l.locks key).isSome ↔ ∃ c, (l.stage c).key = some key := by
  constructor
  · intro hso
    obtain ⟨id,hid⟩ := isSome_iff_exists.1 hso
    obtain ⟨c,hc⟩ := h key id hid
    obtain ⟨hstg,hent⟩ := (hsnd.users c id).1 hc
    obtain ⟨key',hkey'⟩ := Stage.ne_out_iff.1 hstg
    have hlc := hsnd.current c key' hkey'
    rw [hent] at hlc
    obtain rfl := hsnd.injective key key' id hid hlc
    exact ⟨c,hkey'⟩
  · rintro ⟨c,hc⟩
    rw [hsnd.current c key hc]
    rfl

/-- Sound mutexes whose callers are where `stage` says. -/
structure Staged (l : Locks κ ι) (stage : ι → Stage κ) : Prop where
  sound : Sound l
  stage : ∀ c, l.stage c = stage c

variable {stage : ι → Stage κ}

omit [DecidableEq κ] [DecidableEq ι] in
theorem Staged.exclusive (h : Staged l stage) {c' : ι}
    (hc : stage c = .holding key) (hc' : stage c' = .holding key) : c = c' :=
  h.sound.exclusive ((h.stage c).trans hc) ((h.stage c').trans hc')

omit [DecidableEq κ] in
theorem Staged.take_isSome (h : Staged l stage) (hc : stage c = .waiting key)
    (hfr : ∀ c', stage c' ≠ .holding key) : (l.take c).isSome :=
  h.sound.take_isSome ((h.stage c).trans hc) fun c' => h.stage c' ▸ hfr c'

omit [DecidableEq κ] in
theorem Staged.unlock_isSome (h : Staged l stage)
    (hc : stage c = .holding key) : (l.unlock c).isSome :=
  h.sound.unlock_isSome ((h.stage c).trans hc)

lemma Staged.forget_isSome (h : Staged l stage)
    (hc : stage c = .leaving key) : (l.forget c).isSome :=
  KeyedLocks.forget_isSome ((h.stage c).trans hc)

theorem Staged.use {stage' : ι → Stage κ} (h : Staged l stage)
    (hu : Use l c (stage c) (stage' c) l') (hos : ∀ b, b ≠ c → stage' b = stage b) :
    Staged l' stage' := by
  obtain ⟨hsnd,hstg⟩ := h.sound.use (h.stage c) hu
  refine ⟨hsnd,fun b => ?_⟩
  rw [hstg]
  by_cases hbc : b = c
  · rw [hbc,update_self]
  · rw [update_of_ne hbc,h.stage,hos b hbc]

end

end TalosBox.KeyedLocks
