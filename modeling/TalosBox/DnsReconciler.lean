import TalosBox.MapLoops
import TalosBox.KeyedFold

/-! The reconciler of the clusters' DNS listeners. Its table of listeners is all it remembers of its
registrations, and a failed withdrawal is not in it. -/
namespace TalosBox.DnsReconciler

open MapLoops

structure Cluster where
  name : String
  subnetIndex : ℤ

/-- `ListenDNS` or `RegisterDNS` succeeded, or `UnregisterDNS` was called. -/
inductive Event
  | listened (subnet : ℤ)
  | registered (subnet : ℤ)
  | unregistered (subnet : ℤ) (ok : Bool)

structure Reconciler where
  /-- The cluster of each listener. -/
  listeners : Map ℤ String
  /-- The latest first. No step reads them. -/
  events : List Event

structure Answers where
  close : ℤ → Bool
  unregister : ℤ → Bool
  register : ℤ → Bool
  listen : ℤ → Bool

inductive Problem
  | shared (previous name : String) (subnet : ℤ)
  | close (subnet : ℤ)
  | unregister (subnet : ℤ)
  | register (name : String)
  | listen (subnet : ℤ)

def desired (clusters : List Cluster) : Except Problem (Map ℤ String) :=
  clusters.foldlM (fun desired item =>
    match desired.lookup item.subnetIndex with
    | some previous => .error (.shared previous item.name item.subnetIndex)
    | none => .ok (desired.insert item.subnetIndex item.name)) ∅

def withdraw (desired : Map ℤ String) (a : Answers) (r : Reconciler × List Problem) (subnet : ℤ) :
    Reconciler × List Problem :=
  match r.1.listeners.lookup subnet with
  | none => r
  | some current =>
    if desired.lookup subnet = some current then r
    else
      (⟨r.1.listeners.erase subnet,.unregistered subnet (a.unregister subnet)::r.1.events⟩,
        r.2++(if a.close subnet then [] else [.close subnet]) ++
          if a.unregister subnet then [] else [.unregister subnet])

def serve (reassertRegistration : Bool) (a : Answers) (r : Reconciler × List Problem) (item : Cluster) :
    Reconciler × List Problem :=
  let subnet := item.subnetIndex
  if (r.1.listeners.lookup subnet).isSome then
    if reassertRegistration = false then r
    else if a.register subnet then (⟨r.1.listeners,.registered subnet::r.1.events⟩,r.2)
    else (r.1,r.2++[.register item.name])
  else if a.listen subnet then
    (⟨r.1.listeners.insert subnet item.name,.listened subnet::r.1.events⟩,r.2)
  else (r.1,r.2++[.listen subnet])

structure Round where
  reassertRegistration : Bool
  clusters : List Cluster
  answers : Answers

/-- `reconcileWithRegistration`. -/
def reconcile (r : Reconciler) (round : Round) : Reconciler × List Problem :=
  match desired round.clusters with
  | .error problem => (r,[problem])
  | .ok desired =>
    let withdrawn := (Order.sorted r.listeners.keys).1.foldl (withdraw desired round.answers) (r,[])
    round.clusters.foldl (serve round.reassertRegistration round.answers) withdrawn

def run (rounds : List Round) : Reconciler := rounds.foldl (fun r round => (reconcile r round).1) ⟨∅,[]⟩

/-- `ListenDNS` or `RegisterDNS` succeeded and `UnregisterDNS` has not since. -/
def registered (x : ℤ) : List Event → Bool
  | [] => false
  | .listened subnet::events => x = subnet || registered x events
  | .registered subnet::events => x = subnet || registered x events
  | .unregistered subnet ok::events => !(x = subnet && ok) && registered x events

/-- `UnregisterDNS` failed, and there has been no listener since. -/
def lost (x : ℤ) : List Event → Bool
  | [] => false
  | .listened subnet::events => x ≠ subnet && lost x events
  | .registered _::events => lost x events
  | .unregistered subnet ok::events => if x = subnet then !ok else lost x events

/-- What is registered has a listener or was lost. -/
def Inv (r : Reconciler) : Prop :=
  ∀ x, if (r.listeners.lookup x).isSome then registered x r.events ∧ lost x r.events = false
    else registered x r.events = lost x r.events

variable {r : Reconciler × List Problem}

theorem inv_withdraw (h : Inv r.1) (desired : Map ℤ String) (a : Answers) (subnet : ℤ) :
    Inv (withdraw desired a r subnet).1 := by
  unfold withdraw
  split
  · exact h
  split
  · exact h
  intro x
  have hx := h x
  by_cases heq : x = subnet
  · subst heq
    cases ha : a.unregister x <;> simp_all [registered,lost]
  · simp_all [registered,lost]

theorem inv_serve (h : Inv r.1) (reassert : Bool) (a : Answers) (item : Cluster) :
    Inv (serve reassert a r item).1 := by
  unfold serve
  simp only
  split_ifs with hls hreas hregi hlisten
  · exact h
  · intro x
    have hx := h x
    by_cases heq : x = item.subnetIndex
    · subst heq
      rw [if_pos hls] at hx ⊢
      simp [registered,lost,hx]
    · simpa [registered,lost,heq] using hx
  · exact h
  · intro x
    have hx := h x
    by_cases heq : x = item.subnetIndex
    · subst heq
      simp [registered,lost]
    · simpa [registered,lost,heq] using hx
  · exact h

theorem inv_reconcile {r : Reconciler} (h : Inv r) (round : Round) : Inv (reconcile r round).1 := by
  unfold reconcile
  split
  · exact h
  refine KeyedFold.foldl_invariant (I := Inv ∘ Prod.fst) (fun _ item _ ht => inv_serve ht _ _ item) ?_
  exact KeyedFold.foldl_invariant (I := Inv ∘ Prod.fst) (fun _ subnet _ ht => inv_withdraw ht _ _ subnet) h

lemma inv_run (rounds : List Round) : Inv (run rounds) :=
  KeyedFold.foldl_invariant (I := Inv) (fun _ round _ h => inv_reconcile h round) fun _ => by
    simp [registered,lost]

/-- Every registration has a listener or a listed cluster exactly when the lost ones have a cluster.
-/
theorem registrations_covered_iff (rounds : List Round) (last : Round) :
    let r := run (rounds ++ [last])
    (∀ x, registered x r.events = true →
      (r.listeners.lookup x).isSome = true ∨ ∃ item ∈ last.clusters, item.subnetIndex = x) ↔
    ∀ x, lost x r.events = true → ∃ item ∈ last.clusters, item.subnetIndex = x := by
  intro r
  have hinv : Inv r := inv_run _
  refine forall_congr' fun x => ?_
  have hx := hinv x
  split at hx
  · rename_i hlist
    simp [hlist,hx]
  · rename_i hnone
    simp [hnone,hx]

def allOk : Answers := ⟨fun _ => true,fun _ => true,fun _ => true,fun _ => true⟩

/-- The cluster goes while the helper cannot withdraw, and no later round tries again. -/
theorem destroyed_cluster_stays_registered :
    let r := run [⟨true,[⟨"demo",5⟩],allOk⟩,⟨true,[],{ allOk with unregister := fun _ => false }⟩,⟨true,[],allOk⟩]
    registered 5 r.events = true ∧ r.listeners.lookup 5 = none := by
  decide +kernel

end TalosBox.DnsReconciler
