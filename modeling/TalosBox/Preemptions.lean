import TalosBox.MapLoops
import TalosBox.StepRuns

/-! The handover between the holder of a cluster's mutation lock and the operations queued behind
it. Every move is one hold of the mutex or one call of an interrupt, made outside of it on a copied
list. -/
namespace TalosBox.Preempt

open Function (update update_of_ne update_self)
open MapLoops (Order)

/-- A call of `request` past its critical section, and the release it returns. -/
structure Request where
  name : String
  /-- The copied interrupts it has not called yet; with none left the call has returned. -/
  todo : List ℕ
  released : Bool
  deriving DecidableEq

/-- A call of `register` past its critical section, and the removal it returns. -/
structure Registration where
  name : String
  /-- The call found an operation queued and has not run the interrupt yet. -/
  firing : Bool
  removed : Bool
  /-- A request on the name was unreleased at the critical section. No code reads it. -/
  waited : Bool
  deriving DecidableEq

inductive Caller
  | request (r : ℕ)
  | register
  deriving DecidableEq

/-- One run of an interrupt. -/
structure Call where
  interrupt : ℕ
  caller : Caller
  deriving DecidableEq

/-- The fields, the method calls, and on record who ran which interrupt and which met which request.
An interrupt goes by its registration's number. -/
structure Sys where
  sequence : ℕ
  pending : String → Option ℤ
  interrupts : String → Option (Finset ℕ)
  arrived : ℕ
  requests : ℕ → Option Request
  registrations : ℕ → Option Registration
  log : List Call
  met : ℕ → ℕ → Bool

def initial : Sys :=
  ⟨0,fun _ => none,fun _ => none,0,fun _ => none,fun _ => none,[],fun _ _ => false⟩

variable (clusterKey : String → String)

/-- The request is on the cluster and has not been released. -/
def Request.waitsOn (key : String) (q : Request) : Bool := !q.released && clusterKey q.name = key

/-- The registration is for the cluster and has not been removed. -/
def Registration.standsFor (key : String) (g : Registration) : Bool :=
  !g.removed && clusterKey g.name = key

namespace Sys

/-- The requests on a cluster that are not released. -/
def waiting (s : Sys) (key : String) : Finset ℕ :=
  (Finset.range s.arrived).filter fun r => (s.requests r).any (·.waitsOn clusterKey key)

/-- The critical section of `request`. -/
def request (s : Sys) (name : String) (order : Order ℕ) : Sys :=
  let key := clusterKey name
  { s with
    pending := update s.pending key (some ((s.pending key).getD 0 + 1))
    arrived := s.arrived + 1
    requests := update s.requests s.arrived
      (some ⟨name,(order ((s.interrupts key).getD ∅)).1,false⟩)
    met := fun id r => if r = s.arrived then
        (s.registrations id).any (·.standsFor clusterKey key)
      else s.met id r }

/-- The critical section of the release: the count goes down, and at zero the entry goes. -/
def release (s : Sys) (r : ℕ) (q : Request) : Sys :=
  let key := clusterKey q.name
  let count := (s.pending key).getD 0 - 1
  { s with
    pending := update s.pending key (if count ≤ 0 then none else some count)
    requests := update s.requests r (some { q with released := true }) }

/-- The critical section of `register`. -/
def register (s : Sys) (name : String) : Sys :=
  let key := clusterKey name
  let id := s.sequence + 1
  { s with
    sequence := id
    interrupts := update s.interrupts key (some (insert id ((s.interrupts key).getD ∅)))
    registrations := update s.registrations id
      (some ⟨name,0 < (s.pending key).getD 0,false,(s.waiting clusterKey key).Nonempty⟩)
    met := fun i r => if i = id then (s.requests r).any (·.waitsOn clusterKey key) else s.met i r }

/-- The critical section of the removal. -/
def remove (s : Sys) (id : ℕ) (g : Registration) : Sys :=
  let key := clusterKey g.name
  let left := ((s.interrupts key).getD ∅).erase id
  { s with
    interrupts := update s.interrupts key (if left = ∅ then none else some left)
    registrations := update s.registrations id (some { g with removed := true }) }

end Sys

inductive Move
  | request (name : String) (order : Order ℕ)
  /-- A request calls the next of its copied interrupts. -/
  | call (r : ℕ)
  | release (r : ℕ)
  | register (name : String)
  /-- A registration that found an operation queued runs its interrupt. -/
  | fire (id : ℕ)
  | remove (id : ℕ)

/-- The release and the removal run their critical section the first time only. -/
def step (s : Sys) : Move → Option Sys
  | .request name order => some (s.request clusterKey name order)
  | .call r =>
    match s.requests r with
    | some ⟨name,id::todo,released⟩ => some { s with
        requests := update s.requests r (some ⟨name,todo,released⟩)
        log := ⟨id,.request r⟩::s.log }
    | _ => none
  | .release r =>
    match s.requests r with
    | some q =>
      if q.todo ≠ [] then none
      else if q.released then some s
      else some (s.release clusterKey r q)
    | none => none
  | .register name => some (s.register clusterKey name)
  | .fire id =>
    match s.registrations id with
    | some g =>
      if g.firing then some { s with
        registrations := update s.registrations id (some { g with firing := false })
        log := ⟨id,.register⟩::s.log }
      else none
    | none => none
  | .remove id =>
    match s.registrations id with
    | some g =>
      if g.firing then none
      else if g.removed then some s
      else some (s.remove clusterKey id g)
    | none => none

def run (s : Sys) (moves : List Move) : Option Sys := StepRuns.run (step clusterKey) s moves

/-- What a step does, one case for each move that changes anything. -/
theorem step_cases {s s' : Sys} {m : Move} (h : step clusterKey s m = some s') :
    s' = s ∨
    (∃ name order, s' = s.request clusterKey name order) ∨
    (∃ r q id todo, s.requests r = some q ∧ q.todo = id::todo ∧ s' = { s with
      requests := update s.requests r (some { q with todo := todo })
      log := ⟨id,.request r⟩::s.log }) ∨
    (∃ r q, s.requests r = some q ∧ q.todo = [] ∧ q.released = false ∧
      s' = s.release clusterKey r q) ∨
    (∃ name, s' = s.register clusterKey name) ∨
    (∃ id g, s.registrations id = some g ∧ g.firing ∧ s' = { s with
      registrations := update s.registrations id (some { g with firing := false })
      log := ⟨id,.register⟩::s.log }) ∨
    (∃ id g, s.registrations id = some g ∧ g.firing = false ∧ g.removed = false ∧
      s' = s.remove clusterKey id g) := by
  cases m with
  | request name order => exact .inr (.inl ⟨name,order,(Option.some.inj h).symm⟩)
  | call r =>
    simp only [step] at h
    split at h
    · rename_i name id todo released hq
      exact .inr (.inr (.inl ⟨r,_,id,todo,hq,rfl,(Option.some.inj h).symm⟩))
    · cases h
  | release r =>
    cases hq : s.requests r with
    | none => simp [step,hq] at h
    | some q =>
      simp only [step,hq] at h
      split_ifs at h with htodo hrel
      · exact .inl (Option.some.inj h).symm
      · exact .inr (.inr (.inr (.inl
          ⟨r,q,hq,not_not.1 htodo,by simpa using hrel,(Option.some.inj h).symm⟩)))
  | register name => exact .inr (.inr (.inr (.inr (.inl ⟨name,(Option.some.inj h).symm⟩))))
  | fire id =>
    cases hg : s.registrations id with
    | none => simp [step,hg] at h
    | some g =>
      simp only [step,hg] at h
      split_ifs at h with hfir
      exact .inr (.inr (.inr (.inr (.inr (.inl ⟨id,g,hg,hfir,(Option.some.inj h).symm⟩)))))
  | remove id =>
    cases hg : s.registrations id with
    | none => simp [step,hg] at h
    | some g =>
      simp only [step,hg] at h
      split_ifs at h with hfir hrmd
      · exact .inl (Option.some.inj h).symm
      · exact .inr (.inr (.inr (.inr (.inr (.inr
          ⟨id,g,hg,by simpa using hfir,by simpa using hrmd,(Option.some.inj h).symm⟩)))))

section

/-- A count as the map has it: no entry for zero. -/
def tally (n : ℕ) : Option ℤ := if n = 0 then none else some n

@[simp] lemma getD_tally (n : ℕ) : (tally n).getD 0 = n := by
  unfold tally
  split_ifs with h <;> simp [h]

theorem tally_pred {n : ℕ} (h : 0 < n) :
    (if ((n : ℤ) - 1) ≤ 0 then none else some ((n : ℤ) - 1)) = tally (n-1) := by
  unfold tally
  split_ifs <;> first | rfl | omega | (congr 1; omega)

/-- Every count is the number of unreleased requests. -/
structure Counted (s : Sys) : Prop where
  fresh : ∀ r, s.arrived ≤ r → s.requests r = none
  counts : ∀ key, s.pending key = tally (s.waiting clusterKey key).card

variable {clusterKey} {s s' : Sys} {key : String} {r : ℕ}

theorem Counted.lt_arrived (h : Counted clusterKey s) {q : Request} (hq : s.requests r = some q) :
    r < s.arrived := by
  by_contra hge
  simp [h.fresh r (not_lt.1 hge)] at hq

lemma any_eq_true {α : Type} {o : Option α} {p : α → Bool} :
    o.any p ↔ ∃ a, o = some a ∧ p a := by
  cases o <;> simp

lemma mem_waiting : r ∈ s.waiting clusterKey key ↔
    r < s.arrived ∧ ∃ q, s.requests r = some q ∧ q.waitsOn clusterKey key := by
  simp only [Sys.waiting,Finset.mem_filter,Finset.mem_range,any_eq_true]

theorem Counted.mem_waiting (h : Counted clusterKey s) : r ∈ s.waiting clusterKey key ↔
    ∃ q, s.requests r = some q ∧ q.waitsOn clusterKey key := by
  rw [Preempt.mem_waiting]
  exact and_iff_right_of_imp fun ⟨q,hq,_⟩ => h.lt_arrived hq

lemma initial_counted : Counted clusterKey initial :=
  ⟨fun _ _ => rfl,fun _ => by simp [initial,Sys.waiting,tally]⟩

lemma waitsOn_iff {q : Request} :
    q.waitsOn clusterKey key ↔ q.released = false ∧ clusterKey q.name = key := by
  simp [Request.waitsOn]

theorem Counted.call (h : Counted clusterKey s) {q : Request} {todo : List ℕ} {log : List Call}
    (hq : s.requests r = some q) : Counted clusterKey { s with
      requests := update s.requests r (some { q with todo := todo })
      log := log } := by
  have hlt := h.lt_arrived hq
  constructor
  · intro i hi
    have hne : i ≠ r := by
      rintro rfl
      exact absurd hlt (not_lt.2 hi)
    show update s.requests r _ i = none
    rw [update_of_ne hne]
    exact h.fresh i hi
  · intro key
    rw [show s.pending key = _ from h.counts key]
    congr 2
    ext i
    simp only [Preempt.mem_waiting]
    by_cases hi : i = r
    · subst hi
      simp [hq,waitsOn_iff]
    · simp [hi]

theorem Counted.request (h : Counted clusterKey s) (name : String) (order : Order ℕ) :
    Counted clusterKey (s.request clusterKey name order) := by
  have hnew : s.arrived ∉ s.waiting clusterKey (clusterKey name) :=
    fun hmem => lt_irrefl _ (Preempt.mem_waiting.1 hmem).1
  have hwtg : ∀ key, (s.request clusterKey name order).waiting clusterKey key =
      if key = clusterKey name then insert s.arrived (s.waiting clusterKey key)
      else s.waiting clusterKey key := by
    intro key
    ext i
    by_cases hi : i = s.arrived
    · subst hi
      by_cases hkey : key = clusterKey name
      · simp [Preempt.mem_waiting,Sys.request,waitsOn_iff,hkey]
      · simp [Preempt.mem_waiting,Sys.request,waitsOn_iff,hkey,Ne.symm hkey]
    · have hlt : i < s.arrived + 1 ↔ i < s.arrived := by omega
      by_cases hkey : key = clusterKey name <;>
        simp [Preempt.mem_waiting,Sys.request,hi,hlt,hkey]
  constructor
  · intro i hi
    have hi : s.arrived + 1 ≤ i := hi
    show update s.requests s.arrived _ i = none
    rw [update_of_ne (by omega)]
    exact h.fresh i (by omega)
  · intro key
    rw [hwtg key]
    show update s.pending (clusterKey name) _ key = _
    by_cases hkey : key = clusterKey name
    · subst hkey
      rw [if_pos rfl,update_self,h.counts,getD_tally,Finset.card_insert_of_notMem hnew]
      simp [tally]
    · rw [if_neg hkey,update_of_ne hkey]
      exact h.counts key

theorem Counted.release (h : Counted clusterKey s) {q : Request} (hq : s.requests r = some q)
    (hrel : q.released = false) : Counted clusterKey (s.release clusterKey r q) := by
  have hlt := h.lt_arrived hq
  have hmem : r ∈ s.waiting clusterKey (clusterKey q.name) :=
    h.mem_waiting.2 ⟨q,hq,waitsOn_iff.2 ⟨hrel,rfl⟩⟩
  have hwtg : ∀ key, (s.release clusterKey r q).waiting clusterKey key =
      if key = clusterKey q.name then (s.waiting clusterKey key).erase r
      else s.waiting clusterKey key := by
    intro key
    ext i
    by_cases hi : i = r
    · subst hi
      by_cases hkey : key = clusterKey q.name
      · simp [Preempt.mem_waiting,Sys.release,waitsOn_iff,hkey]
      · simp [Preempt.mem_waiting,Sys.release,waitsOn_iff,hq,Ne.symm hkey]
    · by_cases hkey : key = clusterKey q.name <;>
        simp [Preempt.mem_waiting,Sys.release,hi,hkey]
  constructor
  · intro i hi
    have hne : i ≠ r := by
      rintro rfl
      exact absurd hlt (not_lt.2 hi)
    show update s.requests r _ i = none
    rw [update_of_ne hne]
    exact h.fresh i hi
  · intro key
    rw [hwtg key]
    show update s.pending (clusterKey q.name) _ key = _
    by_cases hkey : key = clusterKey q.name
    · subst hkey
      rw [if_pos rfl,update_self,h.counts,getD_tally,Finset.card_erase_of_mem hmem]
      exact tally_pred (Finset.card_pos.2 ⟨r,hmem⟩)
    · rw [if_neg hkey,update_of_ne hkey]
      exact h.counts key

theorem Counted.step {m : Move} (h : Counted clusterKey s) (hst : step clusterKey s m = some s') :
    Counted clusterKey s' := by
  obtain rfl | ⟨name,order,rfl⟩ | ⟨r,q,id,todo,hq,-,rfl⟩ | ⟨r,q,hq,-,hrel,rfl⟩ | ⟨name,rfl⟩ |
    ⟨id,g,-,-,rfl⟩ | ⟨id,g,-,-,-,rfl⟩ := step_cases clusterKey hst
  · exact h
  · exact h.request name order
  · exact h.call hq
  · exact h.release hq hrel
  -- the registrations do not touch the counts
  · exact ⟨h.fresh,h.counts⟩
  · exact ⟨h.fresh,h.counts⟩
  · exact ⟨h.fresh,h.counts⟩

end

section

/-- The map holds exactly the registrations not removed, and no empty entry. -/
structure Listed (s : Sys) : Prop where
  fresh : ∀ id, s.sequence < id → s.registrations id = none
  listed : ∀ key id, id ∈ (s.interrupts key).getD ∅ ↔
    ∃ g, s.registrations id = some g ∧ g.standsFor clusterKey key
  nonempty : ∀ key, s.interrupts key ≠ some ∅

variable {clusterKey} {s s' : Sys} {key : String} {id : ℕ}

lemma standsFor_iff {g : Registration} :
    g.standsFor clusterKey key ↔ g.removed = false ∧ clusterKey g.name = key := by
  simp [Registration.standsFor]

lemma initial_listed : Listed clusterKey initial :=
  ⟨fun _ _ => rfl,fun _ _ => by simp [initial],fun _ => by simp [initial]⟩

section

variable (h : Listed clusterKey s)
include h

theorem Listed.le_sequence {g : Registration}
    (hg : s.registrations id = some g) : id ≤ s.sequence := by
  by_contra hlt
  simp [h.fresh id (not_le.1 hlt)] at hg

theorem Listed.register (name : String) :
    Listed clusterKey (s.register clusterKey name) := by
  constructor
  · intro id hid
    have hid : s.sequence + 1 < id := hid
    show update s.registrations (s.sequence + 1) _ id = none
    rw [update_of_ne (by omega)]
    exact h.fresh id (by omega)
  · intro key id
    show id ∈ (update s.interrupts (clusterKey name) _ key).getD ∅ ↔
      ∃ g, update s.registrations (s.sequence + 1) _ id = some g ∧ _
    by_cases hid : id = s.sequence + 1
    · subst hid
      have hold : s.sequence + 1 ∉ (s.interrupts key).getD ∅ := by
        rw [h.listed key]
        rintro ⟨g,hg,-⟩
        exact absurd (h.le_sequence hg) (by omega)
      by_cases hkey : key = clusterKey name
      · simp [hkey,standsFor_iff]
      · simp [hkey,standsFor_iff,hold,Ne.symm hkey]
    · by_cases hkey : key = clusterKey name
      · subst hkey
        simp [hid,h.listed]
      · simp [hkey,hid,h.listed]
  · intro key
    show update s.interrupts (clusterKey name) _ key ≠ some ∅
    by_cases hkey : key = clusterKey name
    · simp [hkey]
    · rw [update_of_ne hkey]
      exact h.nonempty key

theorem Listed.remove {g : Registration}
    (hg : s.registrations id = some g) : Listed clusterKey (s.remove clusterKey id g) := by
  have hle := h.le_sequence hg
  constructor
  · intro i hi
    have hi : s.sequence < i := hi
    show update s.registrations id _ i = none
    rw [update_of_ne (by omega)]
    exact h.fresh i hi
  · intro key i
    show i ∈ (update s.interrupts (clusterKey g.name) _ key).getD ∅ ↔
      ∃ g', update s.registrations id _ i = some g' ∧ _
    have hlf : ∀ ids : Finset ℕ, (if ids = ∅ then none else some ids).getD ∅ = ids := by
      intro ids
      split_ifs with hids <;> simp [hids]
    by_cases hi : i = id
    · subst hi
      by_cases hkey : key = clusterKey g.name
      · subst hkey
        simp only [update_self,hlf]
        simp [standsFor_iff]
      · have hnot : i ∉ (s.interrupts key).getD ∅ := by
          rw [h.listed key]
          rintro ⟨g',hg',hstands⟩
          obtain rfl : g = g' := Option.some.inj (hg.symm.trans hg')
          exact hkey (standsFor_iff.1 hstands).2.symm
        simp [hkey,standsFor_iff,hnot]
    · by_cases hkey : key = clusterKey g.name
      · subst hkey
        simp only [update_self,hlf,update_of_ne hi,Finset.mem_erase]
        rw [h.listed]
        exact and_iff_right hi
      · rw [update_of_ne hkey,update_of_ne hi]
        exact h.listed key i
  · intro key
    show update s.interrupts (clusterKey g.name) _ key ≠ some ∅
    by_cases hkey : key = clusterKey g.name
    · subst hkey
      split_ifs with hids
      · simp
      · simpa using hids
    · rw [update_of_ne hkey]
      exact h.nonempty key

theorem Listed.fire {g : Registration} {log : List Call}
    (hg : s.registrations id = some g) : Listed clusterKey { s with
      registrations := update s.registrations id (some { g with firing := false })
      log := log } := by
  have hle := h.le_sequence hg
  constructor
  · intro i hi
    have hi : s.sequence < i := hi
    show update s.registrations id _ i = none
    rw [update_of_ne (by omega)]
    exact h.fresh i hi
  · intro key i
    rw [h.listed key i]
    show _ ↔ ∃ g', update s.registrations id _ i = some g' ∧ _
    by_cases hi : i = id
    · subst hi
      simp [hg,standsFor_iff]
    · rw [update_of_ne hi]
  · exact h.nonempty

theorem Listed.step {m : Move} (hst : step clusterKey s m = some s') :
    Listed clusterKey s' := by
  obtain rfl | ⟨name,order,rfl⟩ | ⟨r,q,id,todo,-,-,rfl⟩ | ⟨r,q,-,-,-,rfl⟩ | ⟨name,rfl⟩ |
    ⟨id,g,hg,-,rfl⟩ | ⟨id,g,hg,-,-,rfl⟩ := step_cases clusterKey hst
  · exact h
  -- the requests do not touch the interrupts
  · exact ⟨h.fresh,h.listed,h.nonempty⟩
  · exact ⟨h.fresh,h.listed,h.nonempty⟩
  · exact ⟨h.fresh,h.listed,h.nonempty⟩
  · exact h.register name
  · exact h.fire hg
  · exact h.remove hg

end

end

section

/-- An interrupt that met a request has run, or one of the two calls has it to run. A registration
runs its interrupt only if an operation was queued. -/
structure Heard (s : Sys) : Prop where
  met : ∀ id r g q, s.registrations id = some g → s.requests r = some q → s.met id r →
    (∃ c ∈ s.log, c.interrupt = id) ∨ id ∈ q.todo ∨ g.firing
  firing : ∀ id g, s.registrations id = some g → g.firing → g.waited
  fired : ∀ c ∈ s.log, c.caller = .register →
    ∃ g, s.registrations c.interrupt = some g ∧ g.waited

variable {clusterKey} {s s' : Sys} {id r : ℕ}

lemma initial_heard : Heard initial :=
  ⟨fun _ _ _ _ h => by simp [initial] at h,fun _ _ h => by simp [initial] at h,
    fun _ h => by simp [initial] at h⟩

theorem Heard.request (h : Heard s) (hl : Listed clusterKey s) (name : String) (order : Order ℕ) :
    Heard (s.request clusterKey name order) := by
  refine ⟨fun id r g q hg hq hmet => ?_,h.firing,h.fired⟩
  have hq : update s.requests s.arrived _ r = some q := hq
  by_cases hr : r = s.arrived
  · subst hr
    cases ((update_self _ _ s.requests).symm.trans hq)
    have hstands : (s.registrations id).any (·.standsFor clusterKey (clusterKey name)) := by
      simpa [Sys.request] using hmet
    right; left
    exact order.mem.2 ((hl.listed _ id).2 (any_eq_true.1 hstands))
  · rw [update_of_ne hr] at hq
    exact h.met id r g q hg hq (by simpa [Sys.request,hr] using hmet)

/-- A registration that meets a request finds its count above zero. -/
theorem Heard.register (h : Heard s) (hc : Counted clusterKey s) (hl : Listed clusterKey s)
    (name : String) : Heard (s.register clusterKey name) := by
  have hpos : 0 < (s.pending (clusterKey name)).getD 0 ↔
      (s.waiting clusterKey (clusterKey name)).Nonempty := by
    rw [hc.counts,getD_tally,Nat.cast_pos,Finset.card_pos]
  refine ⟨fun id r g q hg hq hmet => ?_,fun id g hg hfir => ?_,fun c hcl hby => ?_⟩
  · have hg : update s.registrations (s.sequence + 1) _ id = some g := hg
    by_cases hid : id = s.sequence + 1
    · subst hid
      cases ((update_self _ _ s.registrations).symm.trans hg)
      have hwaits : (s.requests r).any (·.waitsOn clusterKey (clusterKey name)) := by
        simpa [Sys.register] using hmet
      right; right
      exact decide_eq_true (hpos.2 ⟨r,hc.mem_waiting.2 (any_eq_true.1 hwaits)⟩)
    · rw [update_of_ne hid] at hg
      exact h.met id r g q hg hq (by simpa [Sys.register,hid] using hmet)
  · have hg : update s.registrations (s.sequence + 1) _ id = some g := hg
    by_cases hid : id = s.sequence + 1
    · subst hid
      cases ((update_self _ _ s.registrations).symm.trans hg)
      exact decide_eq_true (hpos.1 (of_decide_eq_true hfir))
    · rw [update_of_ne hid] at hg
      exact h.firing id g hg hfir
  · obtain ⟨g,hg,hwai⟩ := h.fired c hcl hby
    have hne : c.interrupt ≠ s.sequence + 1 := fun heq => by
      have := hl.le_sequence hg
      omega
    exact ⟨g,(update_of_ne hne _ _).trans hg,hwai⟩

theorem Heard.call (h : Heard s) {q : Request} {todo : List ℕ} (hq : s.requests r = some q)
    (htodo : q.todo = id::todo) : Heard { s with
      requests := update s.requests r (some { q with todo := todo })
      log := ⟨id,.request r⟩::s.log } := by
  refine ⟨fun i r' g q' hg hq' hmet => ?_,h.firing,fun c hcl hby => ?_⟩
  · have hq' : update s.requests r _ r' = some q' := hq'
    by_cases hi : i = id
    · exact .inl ⟨⟨id,.request r⟩,by simp,hi.symm⟩
    by_cases hr : r' = r
    · subst hr
      cases ((update_self _ _ s.requests).symm.trans hq')
      obtain ⟨c,hcl,heq⟩ | hmem | hfir := h.met i r' g q hg hq hmet
      · exact .inl ⟨c,by simp [hcl],heq⟩
      · rw [htodo] at hmem
        exact .inr (.inl ((List.mem_cons.1 hmem).resolve_left hi))
      · exact .inr (.inr hfir)
    · rw [update_of_ne hr] at hq'
      obtain ⟨c,hcl,heq⟩ | hrs := h.met i r' g q' hg hq' hmet
      · exact .inl ⟨c,by simp [hcl],heq⟩
      · exact .inr hrs
  · obtain rfl | hcl := List.mem_cons.1 hcl
    · cases hby
    · exact h.fired c hcl hby

theorem Heard.release (h : Heard s) {q : Request} (hq : s.requests r = some q) :
    Heard (s.release clusterKey r q) := by
  refine ⟨fun id r' g q' hg hq' hmet => ?_,h.firing,h.fired⟩
  have hq' : update s.requests r _ r' = some q' := hq'
  by_cases hr : r' = r
  · subst hr
    cases ((update_self _ _ s.requests).symm.trans hq')
    exact h.met id r' g q hg hq hmet
  · rw [update_of_ne hr] at hq'
    exact h.met id r' g q' hg hq' hmet

theorem Heard.fire (h : Heard s) {g : Registration} (hg : s.registrations id = some g)
    (hfir : g.firing) : Heard { s with
      registrations := update s.registrations id (some { g with firing := false })
      log := ⟨id,.register⟩::s.log } := by
  have hlk : ∀ i g', update s.registrations id (some { g with firing := false }) i =
      some g' → i ≠ id → s.registrations i = some g' := by
    intro i g' hg' hi
    rwa [update_of_ne hi] at hg'
  refine ⟨fun i r g' q hg' hq hmet => ?_,fun i g' hg' hfir' => ?_,fun c hcl hby => ?_⟩
  · by_cases hi : i = id
    · exact .inl ⟨⟨id,.register⟩,by simp,hi.symm⟩
    · obtain ⟨c,hcl,heq⟩ | hrs := h.met i r g' q (hlk i g' hg' hi) hq hmet
      · exact .inl ⟨c,by simp [hcl],heq⟩
      · exact .inr hrs
  · by_cases hi : i = id
    · subst hi
      cases ((update_self _ _ s.registrations).symm.trans hg')
      cases hfir'
    · exact h.firing i g' (hlk i g' hg' hi) hfir'
  · show ∃ g', update s.registrations id _ c.interrupt = some g' ∧ _
    obtain rfl | hcl := List.mem_cons.1 hcl
    · exact ⟨_,update_self _ _ _,h.firing id g hg hfir⟩
    · obtain ⟨g',hg',hwai⟩ := h.fired c hcl hby
      by_cases hi : c.interrupt = id
      · rw [hi] at hg' ⊢
        cases (hg.symm.trans hg')
        exact ⟨_,update_self _ _ _,hwai⟩
      · exact ⟨g',(update_of_ne hi _ _).trans hg',hwai⟩

theorem Heard.remove (h : Heard s) {g : Registration} (hg : s.registrations id = some g) :
    Heard (s.remove clusterKey id g) := by
  have hlk : ∀ {i g'}, update s.registrations id (some { g with removed := true }) i =
      some g' → ∃ g₀, s.registrations i = some g₀ ∧ g'.firing = g₀.firing ∧
        g'.waited = g₀.waited := by
    intro i g' hg'
    by_cases hi : i = id
    · subst hi
      cases ((update_self _ _ s.registrations).symm.trans hg')
      exact ⟨g,hg,rfl,rfl⟩
    · rw [update_of_ne hi] at hg'
      exact ⟨g',hg',rfl,rfl⟩
  refine ⟨fun i r g' q hg' hq hmet => ?_,fun i g' hg' hfir => ?_,fun c hcl hby => ?_⟩
  · obtain ⟨g₀,hg₀,hfir,-⟩ := hlk hg'
    rw [hfir]
    exact h.met i r g₀ q hg₀ hq hmet
  · obtain ⟨g₀,hg₀,hsm,hwai⟩ := hlk hg'
    rw [hwai]
    exact h.firing i g₀ hg₀ (hsm ▸ hfir)
  · obtain ⟨g',hg',hwai⟩ := h.fired c hcl hby
    by_cases hi : c.interrupt = id
    · rw [hi] at hg' ⊢
      cases (hg.symm.trans hg')
      exact ⟨_,update_self _ _ _,hwai⟩
    · exact ⟨g',(update_of_ne hi _ _).trans hg',hwai⟩

theorem Heard.step {m : Move} (h : Heard s) (hc : Counted clusterKey s) (hl : Listed clusterKey s)
    (hst : step clusterKey s m = some s') : Heard s' := by
  obtain rfl | ⟨name,order,rfl⟩ | ⟨r,q,id,todo,hq,htodo,rfl⟩ | ⟨r,q,hq,-,-,rfl⟩ | ⟨name,rfl⟩ |
    ⟨id,g,hg,hfir,rfl⟩ | ⟨id,g,hg,-,-,rfl⟩ := step_cases clusterKey hst
  · exact h
  · exact h.request hl name order
  · exact h.call hq htodo
  · exact h.release hq
  · exact h.register hc hl name
  · exact h.fire hg hfir
  · exact h.remove hg

end

/-- What every interleaving keeps. -/
structure Inv (s : Sys) : Prop where
  counted : Counted clusterKey s
  listed : Listed clusterKey s
  heard : Heard s

lemma initial_inv : Inv clusterKey initial := ⟨initial_counted,initial_listed,initial_heard⟩

variable {clusterKey}

theorem run_inv {moves : List Move} {s s' : Sys} (h : Inv clusterKey s)
    (hrun : run clusterKey s moves = some s') : Inv clusterKey s' :=
  StepRuns.run_invariant (fun _ _ _ h hst => ⟨h.counted.step hst,h.listed.step hst,
    h.heard.step h.counted h.listed hst⟩) h hrun

/-- An interrupt that met a request has run once both calls have returned; a registration runs its
interrupt only if a request was unreleased; a name's count is that of its unreleased requests; with
all released and removed both maps are empty. -/
theorem preemption_reaches_holder {moves : List Move} {s : Sys}
    (hrun : run clusterKey initial moves = some s) :
    (∀ id r g q, s.registrations id = some g → s.requests r = some q → s.met id r = true →
      g.firing = false → q.todo = [] → ∃ c ∈ s.log, c.interrupt = id) ∧
    (∀ c ∈ s.log, c.caller = .register →
      ∃ g, s.registrations c.interrupt = some g ∧ g.waited = true) ∧
    (∀ name, (s.pending (clusterKey name)).getD 0 = (s.waiting clusterKey (clusterKey name)).card) ∧
    ((∀ r q, s.requests r = some q → q.released = true) →
      (∀ id g, s.registrations id = some g → g.removed = true) →
      (∀ key, s.pending key = none) ∧ ∀ key, s.interrupts key = none) := by
  obtain ⟨hcoun,hlstd,hheard⟩ := run_inv (initial_inv clusterKey) hrun
  refine ⟨fun id r g q hg hq hmet hfir htodo => ?_,hheard.fired,fun name => ?_,
    fun hrel hrmd => ⟨fun key => ?_,fun key => ?_⟩⟩
  · obtain hcalled | hmem | hfires := hheard.met id r g q hg hq hmet
    · exact hcalled
    · simp [htodo] at hmem
    · simp [hfir] at hfires
  · rw [hcoun.counts,getD_tally]
  · have hnone : s.waiting clusterKey key = ∅ := by
      refine Finset.eq_empty_of_forall_notMem fun r hr => ?_
      obtain ⟨q,hq,hwaits⟩ := hcoun.mem_waiting.mp hr
      simp [waitsOn_iff,hrel r q hq] at hwaits
    simp [hcoun.counts key,hnone,tally]
  · cases hids : s.interrupts key with
    | none => rfl
    | some ids =>
      obtain ⟨id,hid⟩ := Finset.nonempty_iff_ne_empty.mpr fun h => hlstd.nonempty key (h ▸ hids)
      obtain ⟨g,hg,hstands⟩ := (hlstd.listed key id).mp (by simpa [hids] using hid)
      simp [standsFor_iff,hrmd id g hg] at hstands

/-- Names compared without regard to the case of one letter. -/
def demoKey (name : String) : String := if name = "Demo" then "demo" else name

/-- A holder offers its work, and an operation queues under the other spelling. -/
def handover : List Move := [.register "Demo",.request "demo" .sorted,.call 0]

theorem handover_calls_interrupt :
    ∃ s, run demoKey initial handover = some s ∧ ∃ c ∈ s.log, c.interrupt = 1 :=
  ⟨_,rfl,(preemption_reaches_holder (show run demoKey initial handover = some _ from rfl)).1 1 0
    ⟨"Demo",false,false,false⟩ ⟨"demo",[],false⟩ (by decide) (by decide) (by decide) rfl rfl⟩

end TalosBox.Preempt
