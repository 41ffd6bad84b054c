import TalosBox.RouteReconciler
import TalosBox.RouterOwnership

/-! The BGP speaker of one cluster: from the paths the nodes advertise to the routes the host is
asked to take. -/
namespace TalosBox.Routes

open KeyedFold MapLoops List
open Router (IP belongsToSubnet isNodeIP dottedIP4)

/-- A path attribute, by the message it unpacks as. -/
inductive Attr
  | nextHop (address : String)
  | mpReachNLRI (addresses : List String)
  | other
  deriving DecidableEq

structure Path where
  isWithdraw : Bool
  pattrs : List Attr
  deriving DecidableEq

structure Destination where
  pfx : String
  paths : List Path
  deriving DecidableEq

/-- The speaker's table: one destination for each prefix. -/
structure RIB where
  destinations : List Destination
  nodup : (destinations.map Destination.pfx).Nodup

/-- An empty text where the attribute has no next hop. -/
def nexthopFromAttr : Attr → String
  | .nextHop address => address
  | .mpReachNLRI (address::_) => address
  | .mpReachNLRI [] => ""
  | .other => ""

def firstNexthop : List Attr → String
  | [] => ""
  | attr::pattrs => if nexthopFromAttr attr ≠ "" then nexthopFromAttr attr else firstNexthop pattrs

def bestNexthop : List Path → String
  | [] => ""
  | path::paths =>
    if path.isWithdraw then bestNexthop paths
    else if firstNexthop path.pattrs ≠ "" then firstNexthop path.pattrs
    else bestNexthop paths

def isHostPrefix (pfx : String) : Bool := "/32".toList.isSuffixOf pfx.toList

def currentRoutes (rib : RIB) : List Route :=
  rib.destinations.filterMap fun d =>
    if !isHostPrefix d.pfx then none
    else if bestNexthop d.paths = "" then none
    else some ⟨d.pfx,bestNexthop d.paths⟩

def Path.nexthops (path : Path) : List String :=
  if path.isWithdraw then [] else (path.pattrs.map nexthopFromAttr).filter (· ≠ "")

/-- The next hops a destination is advertised with, in order. -/
def Destination.nexthops (d : Destination) : List String := d.paths.flatMap Path.nexthops

/-- The library's parsers. A network that is not IPv4 is `some none`, an IPv4 one has its mask's
length. -/
structure RouteParsers where
  parseCIDR : String → Option (Option (IP × ℕ))
  parseIP4 : String → Option IP

inductive Operation
  | parsePrefix
  | parseNexthop
  | replace
  | delete
  deriving DecidableEq

inductive Errno
  | noEntry
  | noProcess
  | other (code : ℕ)
  deriving DecidableEq

inductive RouteCause
  | unparsed
  | notIPv4Host
  | nextHopNotIPv4
  | kernel (errno : Errno)
  deriving DecidableEq

structure RouteFIBError where
  operation : Operation
  pfx : String
  nexthop : String
  cause : RouteCause
  deriving DecidableEq

def linuxRoute (lib : RouteParsers) (pfx nexthop : String) : Except RouteFIBError (IP × Option IP) :=
  match lib.parseCIDR pfx with
  | none => .error ⟨.parsePrefix,pfx,nexthop,.unparsed⟩
  | some none => .error ⟨.parsePrefix,pfx,nexthop,.notIPv4Host⟩
  | some (some (ip,ones)) =>
    if ones ≠ 32 then .error ⟨.parsePrefix,pfx,nexthop,.notIPv4Host⟩
    else if nexthop = "" then .ok (ip,none)
    else
      match lib.parseIP4 nexthop with
      | none => .error ⟨.parseNexthop,pfx,nexthop,.nextHopNotIPv4⟩
      | some gateway => .ok (ip,some gateway)

/-- What the kernel answers; `none` is success. -/
structure Kernel where
  replace : IP → Option IP → Option Errno
  delete : IP → Option Errno

def linuxFIB (lib : RouteParsers) (kernel : Kernel) : Answers RouteFIBError where
  add route :=
    match linuxRoute lib route.pfx route.nexthop with
    | .error e => some e
    | .ok (destination,gateway) =>
      (kernel.replace destination gateway).map fun errno =>
        ⟨.replace,route.pfx,route.nexthop,.kernel errno⟩
  delete pfx :=
    match linuxRoute lib pfx "" with
    | .error e => some e
    | .ok (destination,_) =>
      match kernel.delete destination with
      | none => none
      | some errno =>
        if errno = .noEntry ∨ errno = .noProcess then none else some ⟨.delete,pfx,"",.kernel errno⟩

/-- The table is read after a change or on the timer, or the speaker is stopped. -/
inductive Event (E : Type)
  | table (rib : RIB) (answers : Answers E) (order : Order String)
  | stop (answers : Answers E) (order : Order String)

variable {E : Type}

def Event.call : Event E → Call E
  | .table rib answers order => .reconcile answers order (currentRoutes rib)
  | .stop answers order => .withdrawAll answers order

def watch (events : List (Event E)) : Reconciler := run (events.map Event.call)

/-- A /32 of the cluster's subnet by way of a node address of the same subnet. -/
def Route.isLocal (parseIP4 : String → Option IP) (subnet : ℤ) (route : Route) : Bool :=
  let (address,suffix) := route.pfx.toList.span (· ≠ '/')
  suffix = "/32".toList && (parseIP4 (.ofList address)).any (belongsToSubnet · subnet) &&
    (parseIP4 route.nexthop).any (isNodeIP · subnet)

theorem firstNexthop_eq (pattrs : List Attr) :
    firstNexthop pattrs = (((pattrs.map nexthopFromAttr).filter (· ≠ "")).head?).getD "" := by
  induction pattrs with
  | nil => rfl
  | cons attr pattrs ih =>
    by_cases h : nexthopFromAttr attr = "" <;> simp [firstNexthop,h,ih]

theorem Path.nexthops_ne_empty {path : Path} {nexthop : String} (h : nexthop ∈ path.nexthops) :
    nexthop ≠ "" := by
  unfold Path.nexthops at h
  split_ifs at h
  · cases h
  · simpa using (mem_filter.1 h).2

/-- The best next hop is the first one of the first path that is not withdrawn and has one. -/
theorem bestNexthop_eq (paths : List Path) :
    bestNexthop paths = (paths.flatMap Path.nexthops).head?.getD "" := by
  induction paths with
  | nil => rfl
  | cons path paths ih =>
    rw [bestNexthop,flatMap_cons]
    cases hw : path.isWithdraw with
    | true =>
      rw [if_pos rfl,ih,show path.nexthops = [] by rw [Path.nexthops,if_pos hw],nil_append]
    | false =>
      have hown : path.nexthops = (path.pattrs.map nexthopFromAttr).filter (· ≠ "") := by
        simp [Path.nexthops,hw]
      rw [if_neg (by simp),firstNexthop_eq,← hown]
      cases hls : path.nexthops with
      | nil => simpa using ih
      | cons nexthop rest =>
        have hmem : nexthop ∈ path.nexthops := by simp [hls]
        simp [Path.nexthops_ne_empty hmem]

/-- A destination is a host prefix and the first next hop it is advertised with. -/
theorem mem_currentRoutes {rib : RIB} {route : Route} :
    route ∈ currentRoutes rib ↔ ∃ d ∈ rib.destinations,
      isHostPrefix d.pfx ∧ d.nexthops.head? = some route.nexthop ∧ d.pfx = route.pfx := by
  rw [currentRoutes,mem_filterMap]
  refine exists_congr fun d => and_congr_right fun _ => ?_
  rw [bestNexthop_eq,← Destination.nexthops]
  cases hhd : d.nexthops.head? with
  | none => simp
  | some nexthop =>
    have hne : nexthop ≠ "" := by
      obtain ⟨path,-,hmem⟩ := mem_flatMap.1 (mem_of_mem_head? hhd)
      exact Path.nexthops_ne_empty hmem
    obtain ⟨pfx,nexthop'⟩ := route
    cases hho : isHostPrefix d.pfx with
    | false => simp
    | true => simp [hne,and_comm]

theorem currentRoutes_unique {rib : RIB} {route route' : Route} (h : route ∈ currentRoutes rib)
    (h' : route' ∈ currentRoutes rib) (hpfx : route'.pfx = route.pfx) : route' = route := by
  obtain ⟨d,hd,-,hhd,hd'⟩ := mem_currentRoutes.1 h
  obtain ⟨e,he,-,hhd',he'⟩ := mem_currentRoutes.1 h'
  have hsm : e = d := inj_on_of_nodup_map rib.nodup he hd (by rw [he',hd',hpfx])
  rw [hsm,hhd] at hhd'
  exact Route.ext hpfx (Option.some.inj hhd').symm

theorem lookup_want_currentRoutes {rib : RIB} {route : Route} :
    (want (currentRoutes rib)).lookup route.pfx = some route.nexthop ↔ route ∈ currentRoutes rib := by
  constructor
  · intro h
    rw [lookup_want,lastNexthop,Option.map_eq_some_iff] at h
    obtain ⟨route',hfi,hnx⟩ := h
    have hmem : route' ∈ currentRoutes rib := mem_reverse.1 (mem_of_find?_eq_some hfi)
    have hpfx : route'.pfx = route.pfx := by simpa using find?_some hfi
    rwa [← Route.ext hpfx hnx]
  · intro h
    exact lookup_collect h rfl fun route' hmem hpfx => currentRoutes_unique h hmem (Option.some.inj hpfx)

namespace Reconciler

/-- Every record was asked for. -/
def Justified (r : Reconciler) : Prop :=
  ∀ pfx nexthop, r.injected.lookup pfx = some nexthop → ⟨pfx,nexthop⟩ ∈ r.fib.asked

end Reconciler

theorem FIB.deleteHostRoute_asked (fib : FIB) (answers : Answers E) (pfx : String) :
    (fib.deleteHostRoute answers pfx).1.asked = fib.asked := by
  unfold FIB.deleteHostRoute
  cases answers.delete pfx <;> rfl

namespace Reconciler

variable (answers : Answers E) (want : Map String String) {r : Reconciler}

lemma remove_asked (r : Reconciler) (pfx : String) : (r.remove answers pfx).fib.asked = r.fib.asked :=
  r.fib.deleteHostRoute_asked answers pfx

theorem clear_asked (r : Reconciler) (pfx : String) : (r.clear answers pfx).fib.asked = r.fib.asked := by
  unfold clear
  split_ifs
  · exact remove_asked answers r pfx
  · rfl

lemma clear_lookup_self (r : Reconciler) (pfx : String) : (r.clear answers pfx).injected.lookup pfx = none := by
  have hvw := congrArg Prod.fst (r.clear_view_self answers pfx)
  exact hvw.trans (cleared_fst answers pfx (r.view pfx))

theorem Justified.remove (h : r.Justified) (pfx : String) : (r.remove answers pfx).Justified := by
  intro p nexthop hp
  rw [remove_asked]
  by_cases heq : p = pfx
  · subst heq
    simp [Reconciler.remove] at hp
  · exact h p nexthop ((Finmap.lookup_erase_ne heq).symm.trans hp)

/-- A pass of the first loop asks for its own wanted route alone, if it is not on record. -/
theorem install_asked (r : Reconciler) (errs : List (String × E)) (pfx : String) :
    let r' := (install answers want (r,errs) pfx).1
    (r'.fib.asked = r.fib.asked ∧
      ∀ nexthop, want.lookup pfx = some nexthop → r.injected.lookup pfx = some nexthop) ∨
    ∃ nexthop, want.lookup pfx = some nexthop ∧ r'.fib.asked = r.fib.asked++[⟨pfx,nexthop⟩] := by
  obtain ⟨heq,hsm⟩ | ⟨nexthop,hwa,-,⟨e,-,heq⟩ | ⟨-,heq⟩⟩ := install_cases answers want r errs pfx
  · exact .inl ⟨by rw [heq],hsm⟩
  · exact .inr ⟨nexthop,hwa,by rw [heq,← clear_asked answers r pfx]⟩
  · exact .inr ⟨nexthop,hwa,by rw [heq,← clear_asked answers r pfx]⟩

theorem subset_install_asked (r : Reconciler) (errs : List (String × E)) (pfx : String) :
    r.fib.asked ⊆ (install answers want (r,errs) pfx).1.fib.asked := by
  obtain ⟨heq,-⟩ | ⟨nexthop,-,heq⟩ := install_asked answers want r errs pfx
  · rw [heq]
    exact Subset.refl _
  · rw [heq]
    exact subset_append_left _ _

theorem Justified.install (h : r.Justified) (errs : List (String × E)) (pfx : String) :
    (install answers want (r,errs) pfx).1.Justified := by
  intro p nexthop hp
  by_cases heq : p = pfx
  · subst heq
    obtain ⟨hsk,-⟩ | ⟨n,-,-,⟨e,-,hfa⟩ | ⟨-,hok⟩⟩ := install_cases answers want r errs p
    · rw [hsk] at hp ⊢
      exact h p nexthop hp
    · rw [hfa] at hp
      rw [clear_lookup_self] at hp
      cases hp
    · rw [hok] at hp ⊢
      rw [Finmap.lookup_insert] at hp
      cases hp
      simp
  · have hvw := congrArg Prod.fst (install_view_of_ne answers want r errs heq)
    exact subset_install_asked answers want r errs pfx (h p nexthop (hvw.symm.trans hp))

theorem Justified.installs (h : r.Justified) (order : Order String) :
    (r.installs answers order want).1.Justified ∧ ∀ route, route ∈ (r.installs answers order want).1.fib.asked ↔
      route ∈ r.fib.asked ∨ want.lookup route.pfx = some route.nexthop := by
  have hinv : (r.installs answers order want).1.Justified ∧
      r.fib.asked ⊆ (r.installs answers order want).1.fib.asked ∧
      ∀ route ∈ (r.installs answers order want).1.fib.asked,
        route ∈ r.fib.asked ∨ want.lookup route.pfx = some route.nexthop := by
    refine foldl_invariant (I := fun acc : Reconciler × List (String × E) => acc.1.Justified ∧
      r.fib.asked ⊆ acc.1.fib.asked ∧ ∀ route ∈ acc.1.fib.asked,
        route ∈ r.fib.asked ∨ want.lookup route.pfx = some route.nexthop) ?_
      ⟨h,Subset.refl _,fun _ hrt => .inl hrt⟩
    rintro acc pfx - ⟨hj,hsub,hask⟩
    refine ⟨hj.install answers want acc.2 pfx,
      Subset.trans hsub (subset_install_asked answers want acc.1 acc.2 pfx),fun route hrt => ?_⟩
    obtain ⟨heq,-⟩ | ⟨nexthop,hwa,heq⟩ := install_asked answers want acc.1 acc.2 pfx
    · rw [heq] at hrt
      exact hask route hrt
    · rw [heq,mem_append,mem_singleton] at hrt
      rcases hrt with hrt | rfl
      · exact hask route hrt
      · exact .inr hwa
  obtain ⟨hj,hsub,hask⟩ := hinv
  refine ⟨hj,fun route => ⟨hask route,?_⟩⟩
  rintro (hrt | hwa)
  · exact hsub hrt
  -- a wanted route is asked for by its own pass, and stays asked for
  · have hmem : route.pfx ∈ (order want.keys).1 := order.mem_keys.2 (by rw [hwa]; rfl)
    refine foldl_settles (s := (r,[])) (I := fun acc : Reconciler × List (String × E) => acc.1.Justified)
      (P := fun _ _ => True)
      (Q := fun pfx (acc : Reconciler × List (String × E)) => ∀ nexthop,
        want.lookup pfx = some nexthop → ⟨pfx,nexthop⟩ ∈ acc.1.fib.asked)
      (fun acc pfx _ hj => hj.install answers want acc.2 pfx) (fun _ _ _ _ _ _ => trivial)
      ?_ ?_ (order.nodup _) h (fun _ _ => trivial) route.pfx hmem route.nexthop hwa
    · intro acc q pfx _ _ hq nexthop hn
      exact subset_install_asked answers want acc.1 acc.2 pfx (hq nexthop hn)
    · intro acc q _ hj _ nexthop hn
      obtain ⟨heq,hsm⟩ | ⟨n,hn',heq⟩ := install_asked answers want acc.1 acc.2 q
      · rw [heq]
        exact hj q nexthop (hsm nexthop hn)
      · obtain rfl : nexthop = n := Option.some.inj (hn.symm.trans hn')
        rw [heq]
        simp

theorem Justified.reconcile (h : r.Justified) (order : Order String) (desired : List Route) :
    (r.reconcile answers order desired).1.Justified ∧
      ∀ route, route ∈ (r.reconcile answers order desired).1.fib.asked ↔
        route ∈ r.fib.asked ∨ (Routes.want desired).lookup route.pfx = some route.nexthop := by
  obtain ⟨hj,hask⟩ := h.installs answers (Routes.want desired) order
  simp only [← hask]
  refine foldl_invariant (I := fun r' : Reconciler => r'.Justified ∧ ∀ route, route ∈ r'.fib.asked ↔
    route ∈ (r.installs answers order (Routes.want desired)).1.fib.asked) ?_ ⟨hj,fun _ => Iff.rfl⟩
  rintro r' pfx - ⟨hj',hask'⟩
  unfold withdraw
  split_ifs
  · exact ⟨hj',hask'⟩
  · exact ⟨hj'.remove answers pfx,fun route => by rw [remove_asked,hask']⟩

lemma withdrawAll_asked (r : Reconciler) (order : Order String) :
    (r.withdrawAll answers order).fib.asked = r.fib.asked :=
  foldl_frame (fun fib pfx _ => fib.deleteHostRoute_asked answers pfx) r.fib

end Reconciler

/-- The speaker asks for the routes of the tables it reads, all of them and no others. -/
theorem mem_asked_iff (events : List (Event E)) (route : Route) :
    route ∈ (watch events).fib.asked ↔
      ∃ rib answers order, Event.table rib answers order ∈ events ∧ route ∈ currentRoutes rib := by
  suffices h : (watch events).Justified ∧ ∀ route, route ∈ (watch events).fib.asked ↔
      ∃ rib answers order, Event.table rib answers order ∈ events ∧ route ∈ currentRoutes rib from h.2 route
  induction events using reverseRecOn with
  | nil =>
    refine ⟨fun pfx nexthop h => ?_,fun route => by simp [watch,run,newReconciler]⟩
    cases h
  | append_singleton events event ih =>
    obtain ⟨hj,hask⟩ := ih
    have hwt : watch (events++[event]) = (step (watch events) event.call).1 := by
      simp [watch,run]
    rw [hwt]
    cases event with
    | table rib answers order =>
      obtain ⟨hj',hask'⟩ := hj.reconcile answers order (currentRoutes rib)
      refine ⟨hj',fun route => ?_⟩
      show route ∈ ((watch events).reconcile answers order (currentRoutes rib)).1.fib.asked ↔ _
      rw [hask',hask,lookup_want_currentRoutes]
      constructor
      · rintro (⟨rib',a,o,hmem,hrt⟩ | hrt)
        · exact ⟨rib',a,o,mem_append_left _ hmem,hrt⟩
        · exact ⟨rib,answers,order,by simp,hrt⟩
      · rintro ⟨rib',a,o,hmem,hrt⟩
        rcases mem_append.1 hmem with hmem | hmem
        · exact .inl ⟨rib',a,o,hmem,hrt⟩
        · obtain ⟨rfl,-,-⟩ := Event.table.inj (mem_singleton.1 hmem)
          exact .inr hrt
    | stop answers order =>
      refine ⟨fun pfx nexthop h => ?_,fun route => ?_⟩
      · rw [show (step (watch events) (Event.stop answers order).call).1.injected = ∅ from rfl,
          Finmap.lookup_empty] at h
        cases h
      · show route ∈ ((watch events).withdrawAll answers order).fib.asked ↔ _
        rw [Reconciler.withdrawAll_asked,hask]
        simp

/-- Every route asked for is a /32 of the cluster's subnet by way of one of its nodes, if and only
if every advertised host route is. -/
theorem asked_routes_local_iff (parseIP4 : String → Option IP) (subnet : ℤ) (events : List (Event E)) :
    (∀ route ∈ (watch events).fib.asked, route.isLocal parseIP4 subnet) ↔
      ∀ rib answers order, Event.table rib answers order ∈ events → ∀ d ∈ rib.destinations,
        isHostPrefix d.pfx → ∀ nexthop, d.nexthops.head? = some nexthop →
          Route.isLocal parseIP4 subnet ⟨d.pfx,nexthop⟩ := by
  simp only [mem_asked_iff,mem_currentRoutes]
  constructor
  · intro h rib answers order hmem d hd hhost nexthop hhead
    exact h ⟨d.pfx,nexthop⟩ ⟨rib,answers,order,hmem,d,hd,hhost,hhead,rfl⟩
  · rintro h ⟨pfx,nexthop⟩ ⟨rib,answers,order,hmem,d,hd,hhost,hhead,rfl⟩
    exact h rib answers order hmem d hd hhost nexthop hhead

namespace Sample

def parseCIDR (pfx : String) : Option (Option (IP × ℕ)) :=
  let (address,suffix) := pfx.toList.span (· ≠ '/')
  if suffix = "/32".toList then (dottedIP4 (.ofList address)).map fun ip => some (ip,32) else none

def kernel : Kernel := ⟨fun _ _ => none,fun _ => none⟩

def hijack : Destination := ⟨"8.8.8.8/32",[⟨false,[.other,.nextHop "172.30.0.2"]⟩]⟩

def hijackEvent : Event RouteFIBError :=
  .table ⟨[hijack],by decide⟩ (linuxFIB ⟨parseCIDR,dottedIP4⟩ kernel) sorted

end Sample

/-- The Linux table takes it. -/
theorem foreign_route_installed :
    (⟨"8.8.8.8/32","172.30.0.2"⟩ : Route) ∈ (watch [Sample.hijackEvent]).fib.asked ∧
    (watch [Sample.hijackEvent]).fib.routes.lookup "8.8.8.8/32" = some "172.30.0.2" ∧
    Route.isLocal dottedIP4 0 ⟨"8.8.8.8/32","172.30.0.2"⟩ = false := by
  refine ⟨?_,?_,by decide⟩
  · rw [mem_asked_iff]
    exact ⟨_,_,_,mem_singleton_self _,by decide⟩
  · have hview := Reconciler.reconcile_view (linuxFIB ⟨Sample.parseCIDR,dottedIP4⟩ Sample.kernel)
      newReconciler Sample.sorted (currentRoutes ⟨[Sample.hijack],by decide⟩) "8.8.8.8/32"
    refine (congrArg Prod.snd hview).trans ?_
    decide

end TalosBox.Routes
