import TalosBox.KeyedLocks
import TalosBox.StepRuns

/-! The warm pool's mutexes by key, with any number of calls of `lock` at once. A call is counted in
under the map's lock, then sends on its entry's channel or sees its context end; its unlock receives
and counts it out. -/
namespace TalosBox.KeyedMutex

open KeyedLocks (Locks Stage Sound Use Wanted)
open StepRuns (run)

variable {ι : Type*} [DecidableEq ι]

/-- What the calls do, one at a time. -/
inductive Move (ι : Type*)
  | lock (c : ι) (key : String)
  /-- The send on `held` goes through. -/
  | acquire (c : ι)
  /-- `ctx.Done` is chosen. -/
  | cancel (c : ι)
  /-- The receive of the function that was returned. -/
  | unlock (c : ι)
  /-- `forget`, after either. -/
  | forget (c : ι)

def step (l : Locks String ι) : Move ι → Option (Locks String ι)
  | .lock c key => if l.stage c = .out then some (l.enter c key) else none
  | .acquire c => l.take c
  | .cancel c => l.giveUp c
  | .unlock c => l.unlock c
  | .forget c => l.forget c

variable {l l' : Locks String ι}

/-- A move is a use of the mutexes by one call. -/
theorem step_use {m : Move ι} (h : step l m = some l') :
    ∃ c stage stage', l.stage c = stage ∧ Use l c stage stage' l' := by
  cases m with
  | lock c key =>
    simp only [step] at h
    split_ifs at h with hout
    cases h
    exact ⟨c,_,_,hout,.enter key⟩
  | acquire c =>
    cases hc : l.stage c with
    | waiting key => exact ⟨c,_,_,hc,.take key h⟩
    | _ => simp [step,Locks.take,hc] at h
  | cancel c =>
    cases hc : l.stage c with
    | waiting key => exact ⟨c,_,_,hc,.giveUp key h⟩
    | _ => simp [step,Locks.giveUp,hc] at h
  | unlock c =>
    cases hc : l.stage c with
    | holding key => exact ⟨c,_,_,hc,.unlock key h⟩
    | _ => simp [step,Locks.unlock,hc] at h
  | forget c =>
    cases hc : l.stage c with
    | leaving key => exact ⟨c,_,_,hc,.forget key h⟩
    | _ => simp [step,Locks.forget,hc] at h

/-- What the map and the calls keep to. -/
structure Kept (l : Locks String ι) : Prop where
  sound : Sound l
  wanted : Wanted l

lemma Kept.step (hl : Kept l) {m : Move ι} (h : step l m = some l') : Kept l' := by
  obtain ⟨c,stage,stage',hc,huse⟩ := step_use h
  exact ⟨(hl.sound.use hc huse).1,hl.wanted.use hl.sound hc huse⟩

lemma run_kept {moves : List (Move ι)} (h : run step Locks.empty moves = some l) : Kept l :=
  StepRuns.run_invariant (fun _ _ _ hl hst => hl.step hst) ⟨KeyedLocks.sound_empty,nofun⟩ h

/-- At most one call has a key's token. A key is in the map exactly while a call is counted for it,
and so exactly while one has or waits for the token when none is between; with no call left the map
is empty. -/
theorem lock_excludes_and_forgets (moves : List (Move ι)) (l : Locks String ι)
    (h : run step Locks.empty moves = some l) :
    (∀ c c' key, l.stage c = .holding key → l.stage c' = .holding key → c = c') ∧
      (∀ key, (l.locks key).isSome = true ↔
        ∃ c, l.stage c = .holding key ∨ l.stage c = .waiting key ∨ l.stage c = .leaving key) ∧
      (∀ key, (∀ c, l.stage c ≠ .leaving key) →
        ((l.locks key).isSome = true ↔ ∃ c, l.stage c = .holding key ∨ l.stage c = .waiting key)) ∧
      ((∀ c, l.stage c = .out) → ∀ key, l.locks key = none) := by
  obtain ⟨hsnd,hwanted⟩ := run_kept h
  have hpre : ∀ key, (l.locks key).isSome = true ↔
      ∃ c, l.stage c = .holding key ∨ l.stage c = .waiting key ∨ l.stage c = .leaving key := by
    intro key
    rw [hwanted.present_iff hsnd]
    refine exists_congr fun c => ?_
    cases l.stage c <;> simp [Stage.key]
  refine ⟨fun c c' key => hsnd.exclusive,hpre,fun key hnone => ?_,fun hout key => ?_⟩
  · rw [hpre]
    refine exists_congr fun c => ?_
    simp [hnone c]
  · rw [← Option.not_isSome_iff_eq_none,hpre]
    simp [hout]

/-- Two calls for one key; the second gives up, the first unlocks, a third finds a new entry. -/
def recreated : List (Move ℕ) :=
  [.lock 0 "sha256:a",.acquire 0,.lock 1 "sha256:a",.cancel 1,.forget 1,.unlock 0,.forget 0,.lock 2 "sha256:a",
    .acquire 2]

theorem entry_recreated : ∃ l, run step Locks.empty recreated = some l ∧ l.locks "sha256:a" = some 1 ∧
    l.stage 2 = .holding "sha256:a" ∧ ∀ c, l.stage c = .holding "sha256:a" → c = 2 := by
  have hrun : (run step Locks.empty recreated).isSome = true := by decide +kernel
  obtain ⟨l,hl⟩ := Option.isSome_iff_exists.mp hrun
  have hstg : (run step Locks.empty recreated).map (fun l => (l.locks "sha256:a",l.stage 2)) =
      some (some 1,.holding "sha256:a") := by decide +kernel
  rw [hl,Option.map_some,Option.some.injEq,Prod.mk.injEq] at hstg
  refine ⟨l,hl,hstg.1,hstg.2,fun c hc => ?_⟩
  exact (lock_excludes_and_forgets recreated l hl).1 c 2 "sha256:a" hc hstg.2

end TalosBox.KeyedMutex
