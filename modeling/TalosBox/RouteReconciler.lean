import TalosBox.KeyedFold
import TalosBox.MapLoops

/-! Routes learned over BGP, reconciled into the host's table. The reconciler records what it
injected; the table answers each write. -/
namespace TalosBox.Routes

open KeyedFold MapLoops List

@[ext]
structure Route where
  pfx : String
  nexthop : String
  deriving DecidableEq

/-- What the host answers to the writes of one call; `none` is success. A call adds and deletes a
prefix at most once. -/
structure Answers (E : Type) where
  add : Route → Option E
  delete : String → Option E

/-- The routes added and not deleted since, and every route ever asked for. -/
structure FIB where
  routes : Map String String
  asked : List Route

variable {E : Type}

def FIB.addHostRoute (fib : FIB) (answers : Answers E) (route : Route) : FIB × Option E :=
  match answers.add route with
  | some e => ({ fib with asked := fib.asked++[route] },some e)
  | none => (⟨fib.routes.insert route.pfx route.nexthop,fib.asked++[route]⟩,none)

def FIB.deleteHostRoute (fib : FIB) (answers : Answers E) (pfx : String) : FIB × Option E :=
  match answers.delete pfx with
  | some e => (fib,some e)
  | none => ({ fib with routes := fib.routes.erase pfx },none)

structure Reconciler where
  injected : Map String String
  fib : FIB

def newReconciler : Reconciler := ⟨∅,⟨∅,[]⟩⟩

/-- The desired next hops; of a repeated prefix the last one. -/
def want (desired : List Route) : Map String String :=
  collect (fun route => some route.pfx) Route.nexthop desired

namespace Reconciler

/-- Delete a route and its record; the answer of the table is dropped. -/
def remove (r : Reconciler) (answers : Answers E) (pfx : String) : Reconciler :=
  ⟨r.injected.erase pfx,(r.fib.deleteHostRoute answers pfx).1⟩

/-- A route that is recorded with another next hop goes first. -/
def clear (r : Reconciler) (answers : Answers E) (pfx : String) : Reconciler :=
  if (r.injected.lookup pfx).isSome then r.remove answers pfx else r

/-- The first loop's pass over one desired prefix. -/
def install (answers : Answers E) (want : Map String String) (acc : Reconciler × List (String × E))
    (pfx : String) : Reconciler × List (String × E) :=
  let (r,errs) := acc
  match want.lookup pfx with
  | none => (r,errs)
  | some nexthop =>
    if r.injected.lookup pfx = some nexthop then (r,errs)
    else
      let r := r.clear answers pfx
      match r.fib.addHostRoute answers ⟨pfx,nexthop⟩ with
      | (fib,some e) => ({ r with fib := fib },errs++[(pfx,e)])
      | (fib,none) => (⟨r.injected.insert pfx nexthop,fib⟩,errs)

def installs (r : Reconciler) (answers : Answers E) (order : Order String) (want : Map String String) :
    Reconciler × List (String × E) :=
  (order want.keys).1.foldl (install answers want) (r,[])

/-- The second loop's pass over one recorded prefix. -/
def withdraw (answers : Answers E) (want : Map String String) (r : Reconciler) (pfx : String) : Reconciler :=
  if (want.lookup pfx).isSome then r else r.remove answers pfx

/-- The errors are those of the additions, joined into one by the source. -/
def reconcile (r : Reconciler) (answers : Answers E) (order : Order String) (desired : List Route) :
    Reconciler × List (String × E) :=
  let want := want desired
  let (r,errs) := r.installs answers order want
  ((order r.injected.keys).1.foldl (withdraw answers want) r,errs)

def withdrawAll (r : Reconciler) (answers : Answers E) (order : Order String) : Reconciler :=
  ⟨∅,(order r.injected.keys).1.foldl (fun fib pfx => (fib.deleteHostRoute answers pfx).1) r.fib⟩

end Reconciler

inductive Call (E : Type)
  | reconcile (answers : Answers E) (order : Order String) (desired : List Route)
  | withdrawAll (answers : Answers E) (order : Order String)

def step (r : Reconciler) : Call E → Reconciler × List (String × E)
  | .reconcile answers order desired => r.reconcile answers order desired
  | .withdrawAll answers order => (r.withdrawAll answers order,[])

def run (calls : List (Call E)) : Reconciler := calls.foldl (fun r c => (step r c).1) newReconciler

theorem FIB.lookup_deleteHostRoute_self (fib : FIB) (answers : Answers E) (pfx : String) :
    (fib.deleteHostRoute answers pfx).1.routes.lookup pfx =
      if (answers.delete pfx).isSome then fib.routes.lookup pfx else none := by
  unfold FIB.deleteHostRoute
  cases answers.delete pfx with
  | none => simp
  | some e => simp

theorem FIB.lookup_deleteHostRoute_of_ne (fib : FIB) (answers : Answers E) {pfx p : String}
    (hp : p ≠ pfx) : (fib.deleteHostRoute answers pfx).1.routes.lookup p = fib.routes.lookup p := by
  unfold FIB.deleteHostRoute
  cases answers.delete pfx with
  | none => exact Finmap.lookup_erase_ne hp
  | some e => rfl

namespace Reconciler

/-- The record and the table at one prefix. -/
def view (r : Reconciler) (pfx : String) : Option String × Option String :=
  (r.injected.lookup pfx,r.fib.routes.lookup pfx)

def removed (answers : Answers E) (pfx : String) (v : Option String × Option String) :
    Option String × Option String :=
  (none,if (answers.delete pfx).isSome then v.2 else none)

def cleared (answers : Answers E) (pfx : String) (v : Option String × Option String) :
    Option String × Option String :=
  if v.1.isSome then removed answers pfx v else v

def installed (answers : Answers E) (pfx : String) (wanted : Option String)
    (v : Option String × Option String) : Option String × Option String :=
  match wanted with
  | none => v
  | some nexthop =>
    if v.1 = some nexthop then v
    else if (answers.add ⟨pfx,nexthop⟩).isSome then cleared answers pfx v
    else (some nexthop,some nexthop)

/-- What both loops leave. -/
def settled (answers : Answers E) (pfx : String) (wanted : Option String)
    (v : Option String × Option String) : Option String × Option String :=
  if wanted.isSome then installed answers pfx wanted v else cleared answers pfx v

theorem cleared_fst (answers : Answers E) (pfx : String) (v : Option String × Option String) :
    (cleared answers pfx v).1 = none := by
  unfold cleared
  split_ifs with hso
  · rfl
  · exact Option.not_isSome_iff_eq_none.1 hso

variable (answers : Answers E) (want : Map String String) (r : Reconciler)

lemma remove_view_self (pfx : String) :
    (r.remove answers pfx).view pfx = removed answers pfx (r.view pfx) := by
  simp [view,removed,remove,FIB.lookup_deleteHostRoute_self]

lemma remove_view_of_ne {pfx p : String} (hp : p ≠ pfx) :
    (r.remove answers pfx).view p = r.view p := by
  simp [view,remove,Finmap.lookup_erase_ne hp,FIB.lookup_deleteHostRoute_of_ne _ _ hp]

theorem clear_view_self (pfx : String) :
    (r.clear answers pfx).view pfx = cleared answers pfx (r.view pfx) := by
  unfold clear cleared
  rw [← remove_view_self]
  exact apply_ite (fun r : Reconciler => r.view pfx) _ _ _

theorem clear_view_of_ne {pfx p : String} (hp : p ≠ pfx) : (r.clear answers pfx).view p = r.view p := by
  unfold clear
  split_ifs
  · exact remove_view_of_ne answers r hp
  · rfl

/-- A prefix recorded as wanted is passed over; otherwise its old route is cleared and the new one
asked for. -/
theorem install_cases (errs : List (String × E)) (pfx : String) :
    (install answers want (r,errs) pfx = (r,errs) ∧
      ∀ nexthop, want.lookup pfx = some nexthop → r.injected.lookup pfx = some nexthop) ∨
    ∃ nexthop, want.lookup pfx = some nexthop ∧ r.injected.lookup pfx ≠ some nexthop ∧
      let r' := r.clear answers pfx
      (∃ e, answers.add ⟨pfx,nexthop⟩ = some e ∧ install answers want (r,errs) pfx =
        (⟨r'.injected,⟨r'.fib.routes,r'.fib.asked++[⟨pfx,nexthop⟩]⟩⟩,errs++[(pfx,e)])) ∨
      answers.add ⟨pfx,nexthop⟩ = none ∧ install answers want (r,errs) pfx =
        (⟨r'.injected.insert pfx nexthop,
          ⟨r'.fib.routes.insert pfx nexthop,r'.fib.asked++[⟨pfx,nexthop⟩]⟩⟩,errs) := by
  unfold install
  cases hwa : want.lookup pfx with
  | none => exact .inl ⟨rfl,by simp⟩
  | some nexthop =>
    by_cases hsm : r.injected.lookup pfx = some nexthop
    · refine .inl ⟨by simp [hsm],fun n hn => ?_⟩
      rw [hsm,hn]
    · refine .inr ⟨nexthop,rfl,hsm,?_⟩
      cases hadd : answers.add ⟨pfx,nexthop⟩ with
      | none => exact .inr ⟨rfl,by simp [hsm,FIB.addHostRoute,hadd]⟩
      | some e => exact .inl ⟨e,rfl,by simp [hsm,FIB.addHostRoute,hadd]⟩

theorem install_view_self (errs : List (String × E)) (pfx : String) :
    (install answers want (r,errs) pfx).1.view pfx =
      installed answers pfx (want.lookup pfx) (r.view pfx) := by
  have hvw : (r.view pfx).1 = r.injected.lookup pfx := rfl
  obtain ⟨heq,hsm⟩ | ⟨nexthop,hwa,hoth,⟨e,hadd,heq⟩ | ⟨hadd,heq⟩⟩ :=
    install_cases answers want r errs pfx
  · rw [heq]
    cases hwa : want.lookup pfx with
    | none => rfl
    | some nexthop => rw [installed,hvw,if_pos (hsm nexthop hwa)]
  · rw [heq,hwa,installed,hvw,if_neg hoth,hadd,Option.isSome_some,if_pos rfl,← clear_view_self]
    rfl
  · rw [heq,hwa,installed,hvw,if_neg hoth,hadd,if_neg (by simp)]
    simp [view]

theorem install_view_of_ne {pfx p : String} (errs : List (String × E)) (hp : p ≠ pfx) :
    (install answers want (r,errs) pfx).1.view p = r.view p := by
  obtain ⟨heq,-⟩ | ⟨n,-,-,⟨e,-,heq⟩ | ⟨-,heq⟩⟩ := install_cases answers want r errs pfx
  · rw [heq]
  · rw [heq,← clear_view_of_ne answers r hp]
    rfl
  · rw [heq,← clear_view_of_ne answers r hp]
    simp [view,Finmap.lookup_insert_of_ne _ hp]

theorem installs_view (order : Order String) (p : String) :
    (r.installs answers order want).1.view p = installed answers p (want.lookup p) (r.view p) := by
  have hlp := foldl_pointwise
    (v := fun (acc : Reconciler × List (String × E)) q => acc.1.view q)
    (g := fun q => installed answers q (want.lookup q))
    (fun acc pfx _ => install_view_self answers want acc.1 acc.2 pfx)
    (fun acc pfx _ q hq => install_view_of_ne answers want acc.1 acc.2 hq) (order.nodup want.keys) (r,[]) p
  refine hlp.trans ?_
  split_ifs with hp
  · rfl
  · rw [Order.mem_keys,Option.not_isSome_iff_eq_none] at hp
    rw [hp]
    rfl

theorem withdraws_view (order : Order String) (p : String) :
    ((order r.injected.keys).1.foldl (withdraw answers want) r).view p =
      if (want.lookup p).isSome then r.view p else cleared answers p (r.view p) := by
  have hsf : ∀ (r' : Reconciler) pfx, (withdraw answers want r' pfx).view pfx =
      if (want.lookup pfx).isSome then r'.view pfx else removed answers pfx (r'.view pfx) := by
    intro r' pfx
    rw [← remove_view_self]
    exact apply_ite (fun r : Reconciler => r.view pfx) _ _ _
  have hoth : ∀ (r' : Reconciler) pfx q, q ≠ pfx → (withdraw answers want r' pfx).view q = r'.view q := by
    intro r' pfx q hq
    unfold withdraw
    split_ifs
    · rfl
    · exact remove_view_of_ne answers r' hq
  have hlp := foldl_pointwise
    (g := fun q v => if (want.lookup q).isSome then v else removed answers q v)
    (fun r' pfx _ => hsf r' pfx) (fun r' pfx _ => hoth r' pfx) (order.nodup r.injected.keys) r p
  refine hlp.trans ?_
  have hrec : p ∈ (order r.injected.keys).1 ↔ (r.view p).1.isSome := order.mem_keys
  by_cases hp : (r.view p).1.isSome
  · rw [if_pos (hrec.2 hp),cleared,if_pos hp]
  · rw [if_neg (fun h => hp (hrec.1 h)),cleared,if_neg hp,ite_self]

theorem reconcile_view (order : Order String) (desired : List Route) (p : String) :
    (r.reconcile answers order desired).1.view p =
      settled answers p ((Routes.want desired).lookup p) (r.view p) := by
  unfold reconcile
  rw [withdraws_view,installs_view]
  cases (Routes.want desired).lookup p with
  | none => rfl
  | some nexthop => rfl

/-- Without an error every wanted prefix was recorded already or could be added. -/
theorem installs_errs {order : Order String} (h : (r.installs answers order want).2 = [])
    {p nexthop : String} (hwa : want.lookup p = some nexthop) :
    r.injected.lookup p = some nexthop ∨ answers.add ⟨p,nexthop⟩ = none := by
  have hmem : p ∈ (order want.keys).1 := order.mem_keys.2 (by rw [hwa]; rfl)
  refine foldl_settles (I := fun _ => True)
    (P := fun p (acc : Reconciler × List (String × E)) => acc.1.view p = r.view p)
    (Q := fun p (acc : Reconciler × List (String × E)) => acc.2 = [] → ∀ n, want.lookup p = some n →
      r.injected.lookup p = some n ∨ answers.add ⟨p,n⟩ = none)
    (fun _ _ _ _ => trivial) ?_ ?_ ?_ (order.nodup _) trivial (fun _ _ => rfl) p hmem h nexthop hwa
  · intro acc q pfx _ hne hbef
    exact (install_view_of_ne answers want acc.1 acc.2 hne.symm).trans hbef
  · -- an error that is there stays
    intro acc q pfx _ _ haft herrs
    refine haft ?_
    obtain ⟨heq,-⟩ | ⟨n,-,-,⟨e,-,heq⟩ | ⟨-,heq⟩⟩ := install_cases answers want acc.1 acc.2 pfx
    · simpa [heq] using herrs
    · simp [heq] at herrs
    · simpa [heq] using herrs
  · intro acc q _ _ hbef herrs n hn
    have hinje : acc.1.injected.lookup q = r.injected.lookup q := congrArg Prod.fst hbef
    obtain ⟨-,hsm⟩ | ⟨m,hm,-,⟨e,-,heq⟩ | ⟨hadd,-⟩⟩ := install_cases answers want acc.1 acc.2 q
    · exact .inl (hinje.symm.trans (hsm n hn))
    · simp [heq] at herrs
    · obtain rfl : n = m := Option.some.inj (hn.symm.trans hm)
      exact .inr hadd

theorem withdrawAll_view (order : Order String) (p : String) :
    (r.withdrawAll answers order).view p = (none,(cleared answers p (r.view p)).2) := by
  have hlp := foldl_pointwise (f := fun (fib : FIB) pfx => (fib.deleteHostRoute answers pfx).1)
    (v := fun fib q => fib.routes.lookup q) (g := fun q v => if (answers.delete q).isSome then v else none)
    (fun fib pfx _ => fib.lookup_deleteHostRoute_self answers pfx)
    (fun fib pfx _ q hq => fib.lookup_deleteHostRoute_of_ne answers hq) (order.nodup r.injected.keys) r.fib p
  refine Prod.ext (by simp [view,withdrawAll]) (hlp.trans ?_)
  have hrec : p ∈ (order r.injected.keys).1 ↔ (r.view p).1.isSome := order.mem_keys
  by_cases hp : (r.view p).1.isSome
  · rw [if_pos (hrec.2 hp),cleared,if_pos hp]
    rfl
  · rw [if_neg (fun h => hp (hrec.1 h)),cleared,if_neg hp]
    rfl

end Reconciler

/-- The next hop of a prefix in a list, the last one where it is repeated. -/
def lastNexthop (desired : List Route) (pfx : String) : Option String :=
  (desired.reverse.find? fun route => route.pfx = pfx).map Route.nexthop

theorem lookup_want (desired : List Route) (pfx : String) :
    (want desired).lookup pfx = lastNexthop desired pfx := by
  rw [want,lookup_collect_last,lastNexthop]
  simp only [Option.some.injEq]

/-- What is recorded is what the table has. -/
def Reconciler.Recorded (r : Reconciler) : Prop :=
  ∀ pfx nexthop, r.fib.routes.lookup pfx = some nexthop ↔ r.injected.lookup pfx = some nexthop

/-- The routes added and not deleted are those on record, and a reconciliation without an error
leaves the desired ones. -/
structure Tracks (r : Reconciler) (c : Call E) : Prop where
  recorded : (step r c).1.Recorded
  exactly : ∀ answers order desired, c = .reconcile answers order desired → (step r c).2 = [] →
    ∀ pfx, (step r c).1.fib.routes.lookup pfx = lastNexthop desired pfx

/-- Every route that has to go can be deleted, or else is replaced. -/
def Call.clean (r : Reconciler) : Call E → Prop
  | .reconcile answers _ desired => ∀ pfx nexthop, r.injected.lookup pfx = some nexthop →
    lastNexthop desired pfx = some nexthop ∨ answers.delete pfx = none ∨
      ∃ nexthop', lastNexthop desired pfx = some nexthop' ∧ answers.add ⟨pfx,nexthop'⟩ = none
  | .withdrawAll answers _ => ∀ pfx nexthop, r.injected.lookup pfx = some nexthop → answers.delete pfx = none

theorem Reconciler.recorded_iff (r : Reconciler) : r.Recorded ↔ ∀ pfx, (r.view pfx).1 = (r.view pfx).2 := by
  constructor
  · intro h pfx
    exact Option.ext fun nexthop => (h pfx nexthop).symm
  · intro h pfx nexthop
    show (r.view pfx).2 = some nexthop ↔ (r.view pfx).1 = some nexthop
    rw [h pfx]

namespace Reconciler

variable {answers : Answers E} {pfx : String} {x : Option String}

theorem settled_some (nexthop : String) (v : Option String × Option String) :
    settled answers pfx (some nexthop) v =
      if v.1 = some nexthop then v
      else if (answers.add ⟨pfx,nexthop⟩).isSome then cleared answers pfx v
      else (some nexthop,some nexthop) :=
  rfl

/-- Clearing leaves a record behind only with its route. -/
theorem cleared_agrees : (cleared answers pfx (x,x)).2 = none ↔
    ∀ nexthop, x = some nexthop → answers.delete pfx = none := by
  cases x with
  | none => simp [cleared]
  | some nexthop => cases h : answers.delete pfx <;> simp [cleared,removed,h]

theorem settled_agrees {wanted : Option String} :
    (settled answers pfx wanted (x,x)).1 = (settled answers pfx wanted (x,x)).2 ↔
      ∀ nexthop, x = some nexthop → wanted = some nexthop ∨ answers.delete pfx = none ∨
        ∃ nexthop', wanted = some nexthop' ∧ answers.add ⟨pfx,nexthop'⟩ = none := by
  have hclea : (cleared answers pfx (x,x)).1 = (cleared answers pfx (x,x)).2 ↔
      ∀ nexthop, x = some nexthop → answers.delete pfx = none := by
    rw [← cleared_agrees,cleared_fst]
    exact eq_comm
  cases wanted with
  | none => simpa [settled] using hclea
  | some n =>
    rw [settled_some]
    split_ifs with hsm hadd
    · simp [show x = some n from hsm]
    · rw [hclea]
      grind
    · rw [Option.not_isSome_iff_eq_none] at hadd
      simp [hadd]

theorem settled_wanted {wanted : Option String} {v : Option String × Option String}
    (h : ∀ nexthop, wanted = some nexthop → v.1 = some nexthop ∨ answers.add ⟨pfx,nexthop⟩ = none) :
    (settled answers pfx wanted v).1 = wanted := by
  cases wanted with
  | none => exact cleared_fst answers pfx v
  | some nexthop =>
    rw [settled_some]
    split_ifs with hsm hadd
    · exact hsm
    · rcases h nexthop rfl with hv | hno
      · exact absurd hv hsm
      · simp [hno] at hadd
    · rfl

lemma Recorded.view_eq {r : Reconciler} (hr : r.Recorded) (p : String) :
    r.view p = (r.injected.lookup p,r.injected.lookup p) :=
  Prod.ext rfl (r.recorded_iff.1 hr p).symm

end Reconciler

/-- From a true record, a call keeps what is asked of it exactly if it is clean. -/
theorem tracks_iff {r : Reconciler} (hr : r.Recorded) (c : Call E) : Tracks r c ↔ c.clean r := by
  cases c with
  | reconcile answers order desired =>
    have hrec : (step r (.reconcile answers order desired)).1.Recorded ↔
        (Call.reconcile answers order desired).clean r := by
      rw [Reconciler.recorded_iff]
      refine forall_congr' fun p => ?_
      rw [step,Reconciler.reconcile_view,hr.view_eq,lookup_want]
      exact Reconciler.settled_agrees
    refine ⟨fun h => hrec.1 h.recorded,fun h => ⟨hrec.2 h,?_⟩⟩
    intro answers' order' desired' heq herrs p
    obtain ⟨rfl,rfl,rfl⟩ := Call.reconcile.inj heq
    have hvw := Reconciler.reconcile_view answers r order desired p
    have hwanted : ((r.reconcile answers order desired).1.view p).1 = lastNexthop desired p := by
      rw [hvw,lookup_want]
      refine Reconciler.settled_wanted fun nexthop hn => ?_
      exact Reconciler.installs_errs answers _ r herrs ((lookup_want desired p).trans hn)
    exact ((Reconciler.recorded_iff _).1 (hrec.2 h) p).symm.trans hwanted
  | withdrawAll answers order =>
    have hrec : (step r (.withdrawAll answers order)).1.Recorded ↔
        (Call.withdrawAll answers order).clean r := by
      rw [Reconciler.recorded_iff]
      refine forall_congr' fun p => ?_
      rw [step,Reconciler.withdrawAll_view,hr.view_eq,eq_comm]
      exact Reconciler.cleared_agrees
    exact ⟨fun h => hrec.1 h.recorded,fun h => ⟨hrec.2 h,fun _ _ _ heq => by cases heq⟩⟩

namespace Sample

def sorted : Order String := fun keys => ⟨keys.sort (· ≤ ·),keys.sort_nodup _,fun _ => Finset.mem_sort _⟩

def vip : String := "172.30.0.200/32"

def accepting : Answers Unit := ⟨fun _ => none,fun _ => none⟩
def keeping : Answers Unit := ⟨fun _ => none,fun _ => some ()⟩

def announce : Call Unit := .reconcile accepting sorted [⟨vip,"172.30.0.2"⟩]
def retract : Call Unit := .reconcile keeping sorted []

theorem announce_view : (run [announce]).view vip = (some "172.30.0.2",some "172.30.0.2") := by
  show (newReconciler.reconcile accepting sorted [⟨vip,"172.30.0.2"⟩]).1.view vip = _
  rw [Reconciler.reconcile_view,lookup_want]
  decide

theorem retract_view : (run [announce,retract]).view vip = (none,some "172.30.0.2") := by
  show ((run [announce]).reconcile keeping sorted []).1.view vip = _
  rw [Reconciler.reconcile_view,lookup_want,announce_view]
  decide

end Sample

end TalosBox.Routes
