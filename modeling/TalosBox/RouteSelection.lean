import TalosBox.HostSubnets

/-! The most specific route of a table, and the search for a subnet nothing on the host uses. -/
namespace TalosBox.Subnets

open List
open Router (IP)
open Reservations (maxSubnetIndex)

/-- The network is `none` if there is none or it is not IPv4: the loop skips both. -/
structure Route extends HostRoute where
  metric : ℤ

def Route.empty : Route := ⟨⟨"",none,false⟩,0⟩

/-- The prefix length of a route that is not skipped. A destination that is not IPv4 is `none`. -/
def Route.considered (destination : Option IP) (ignoredInterfaces : String → Bool) (route : Route) : Option ℕ :=
  if ignoredInterfaces route.interface then none
  else route.network.bind fun network =>
    if destination.any network.contains then maskSize network.mask else none

def selectRoute (size : Route → Option ℕ) (s : Route × ℤ) (route : Route) : Route × ℤ :=
  match size route with
  | none => s
  | some ones =>
    if ones < s.2 then s
    else if s.2 < ones ∨ route.metric < s.1.metric then (route,ones)
    else if route.metric = s.1.metric then
      ({ s.1 with looksLikeTunnel := s.1.looksLikeTunnel || route.looksLikeTunnel },s.2)
    else s

def selectMostSpecificRoute (destination : Option IP) (routes : List Route) (ignoredInterfaces : String → Bool) :
    Route :=
  (routes.foldl (selectRoute (Route.considered destination ignoredInterfaces)) (.empty,-1)).1

/-- The longest prefix, of the lowest metric there, a tunnel if one tied on both is. -/
structure Picks (size : Route → Option ℕ) (routes : List Route) (r : Route) (ones : ℕ) : Prop where
  attained : ∃ route ∈ routes, size route = some ones ∧ r = { route with looksLikeTunnel := r.looksLikeTunnel }
  longest : ∀ route ∈ routes, ∀ n, size route = some n → n ≤ ones
  lowest : ∀ route ∈ routes, size route = some ones → r.metric ≤ route.metric
  tunnel : r.looksLikeTunnel ↔
    ∃ route ∈ routes, size route = some ones ∧ route.metric = r.metric ∧ route.looksLikeTunnel

section

variable {size : Route → Option ℕ} {routes routes' : List Route} {r r' route : Route} {n n' : ℕ}

lemma forall_mem_concat {P : Route → Prop} (h : ∀ other ∈ routes, P other) (hrt : P route) :
    ∀ other ∈ routes++[route], P other := by
  simpa [or_imp,forall_and] using ⟨h,hrt⟩

lemma exists_mem_concat {P : Route → Prop} :
    (∃ other ∈ routes++[route], P other) ↔ (∃ other ∈ routes, P other) ∨ P route := by
  simp

theorem Picks.skip (h : Picks size routes r n)
    (hn : ∀ m, size route = some m → m < n ∨ m = n ∧ r.metric < route.metric) :
    Picks size (routes++[route]) r n := by
  refine ⟨exists_mem_concat.2 (.inl h.attained),forall_mem_concat h.longest fun m hm => ?_,
    forall_mem_concat h.lowest fun hm => ?_,?_⟩
  · have := hn m hm
    omega
  · have := hn n hm
    omega
  · rw [h.tunnel,exists_mem_concat]
    refine (or_iff_left ?_).symm
    rintro ⟨hm,hmet,-⟩
    have := hn n hm
    omega

theorem Picks.replace (hn : size route = some n)
    (h : ∀ other ∈ routes, ∀ m, size other = some m → m < n ∨ m = n ∧ route.metric < other.metric) :
    Picks size (routes++[route]) route n := by
  refine ⟨⟨route,by simp,hn,rfl⟩,forall_mem_concat (fun other hmem m hm => ?_) fun m hm => ?_,
    forall_mem_concat (fun other hmem hm => ?_) fun _ => le_rfl,?_⟩
  · have := h other hmem m hm
    omega
  · exact (Option.some.inj (hm.symm.trans hn)).le
  · have := h other hmem n hm
    omega
  · rw [exists_mem_concat]
    refine ⟨fun ht => .inr ⟨hn,rfl,ht⟩,?_⟩
    rintro (⟨other,hmem,hm,hmet,-⟩ | ⟨-,-,ht⟩)
    · have := h other hmem n hm
      omega
    · exact ht

theorem Picks.merge (h : Picks size routes r n) (hn : size route = some n) (hmet : route.metric = r.metric) :
    Picks size (routes++[route]) { r with looksLikeTunnel := r.looksLikeTunnel || route.looksLikeTunnel } n := by
  obtain ⟨chosen,hmem,hchosen,hr⟩ := h.attained
  refine ⟨⟨chosen,by simp [hmem],hchosen,by rw [hr]⟩,forall_mem_concat h.longest fun m hm => ?_,
    forall_mem_concat h.lowest fun _ => hmet.ge,?_⟩
  · exact (Option.some.inj (hm.symm.trans hn)).le
  · simp [h.tunnel,hn,hmet]

/-- The loop has considered nothing, or its route is the choice so far. -/
theorem foldl_selectRoute (size : Route → Option ℕ) (routes : List Route) :
    let s := routes.foldl (selectRoute size) (.empty,-1)
    s = (.empty,-1) ∧ (∀ route ∈ routes, size route = none) ∨ ∃ n : ℕ, s.2 = n ∧ Picks size routes s.1 n := by
  induction routes using reverseRecOn with
  | nil => exact .inl ⟨rfl,by simp⟩
  | append_singleton routes route ih =>
    rw [foldl_append,foldl_cons,foldl_nil]
    generalize routes.foldl (selectRoute size) (.empty,-1) = s at ih
    simp only [selectRoute]
    cases hrt : size route with
    | none =>
      refine ih.imp (fun ⟨hs,hno⟩ => ⟨hs,forall_mem_concat hno hrt⟩) ?_
      exact fun ⟨n,hn,hpik⟩ => ⟨n,hn,hpik.skip (by simp [hrt])⟩
    | some m =>
      right
      dsimp only
      rcases ih with ⟨rfl,hno⟩ | ⟨n,hn,hpik⟩
      · have hlt : (-1 : ℤ) < m := by omega
        exact ⟨m,rfl,.replace hrt fun other hmem k hk => by simp [hno other hmem] at hk⟩
      · rw [hn]
        split_ifs with hsh hbetter htie
        · refine ⟨n,hn,hpik.skip fun k hk => ?_⟩
          have := Option.some.inj (hrt.symm.trans hk)
          omega
        · refine ⟨m,rfl,.replace hrt fun other hmem k hk => ?_⟩
          have := hpik.longest other hmem k hk
          have := fun hkn : k = n => hpik.lowest other hmem (hkn ▸ hk)
          omega
        · obtain rfl : m = n := by omega
          exact ⟨m,rfl,hpik.merge hrt htie⟩
        · refine ⟨n,hn,hpik.skip fun k hk => ?_⟩
          have := Option.some.inj (hrt.symm.trans hk)
          omega

theorem Picks.unique (h : Picks size routes r n) (h' : Picks size routes' r' n')
    (hmem : ∀ route, route ∈ routes ↔ route ∈ routes') :
    n = n' ∧ r.metric = r'.metric ∧ r.looksLikeTunnel = r'.looksLikeTunnel := by
  obtain ⟨route,hrt,hn,hr⟩ := h.attained
  obtain ⟨route',hrt',hn',hr'⟩ := h'.attained
  rw [← hmem] at hrt'
  obtain rfl : n = n' := le_antisymm (h'.longest route ((hmem _).1 hrt) n hn)
    (h.longest route' hrt' n' hn')
  have hmet : r.metric = r'.metric := by
    apply le_antisymm
    · rw [hr']
      exact h.lowest route' hrt' hn'
    · rw [hr]
      exact h'.lowest route ((hmem _).1 hrt) hn
  refine ⟨rfl,hmet,Bool.eq_iff_iff.2 ?_⟩
  simp only [h.tunnel,h'.tunnel,hmem,hmet]

end

section

variable (destination : Option IP) (routes : List Route) (ignoredInterfaces : String → Bool)

theorem selectMostSpecificRoute_cases :
    let r := selectMostSpecificRoute destination routes ignoredInterfaces
    r = .empty ∧ (∀ route ∈ routes, route.considered destination ignoredInterfaces = none) ∨
      ∃ n, Picks (Route.considered destination ignoredInterfaces) routes r n :=
  (foldl_selectRoute _ routes).imp (fun ⟨hs,hno⟩ => ⟨congrArg Prod.fst hs,hno⟩)
    fun ⟨n,_,hpik⟩ => ⟨n,hpik⟩

theorem Picks.considered {r : Route} {n : ℕ}
    (h : Picks (Route.considered destination ignoredInterfaces) routes r n) :
    r.considered destination ignoredInterfaces = some n := by
  obtain ⟨route,-,hrt,hr⟩ := h.attained
  rw [hr]
  exact hrt

/-- The list's order is in neither the choice's prefix length nor its metric and flag. -/
theorem selectMostSpecificRoute_order_free (routes' : List Route) (h : routes.Perm routes') :
    let size := Route.considered destination ignoredInterfaces
    let r := selectMostSpecificRoute destination routes ignoredInterfaces
    let r' := selectMostSpecificRoute destination routes' ignoredInterfaces
    (r = .empty ∧ (∀ route ∈ routes, size route = none) ∨ ∃ n, Picks size routes r n ∧ size r = some n) ∧
    size r = size r' ∧ r.metric = r'.metric ∧ r.looksLikeTunnel = r'.looksLikeTunnel := by
  intro size r r'
  have hr' := selectMostSpecificRoute_cases destination routes' ignoredInterfaces
  rcases selectMostSpecificRoute_cases destination routes ignoredInterfaces with ⟨hr,hnone⟩ | ⟨n,hr⟩
  · refine ⟨.inl ⟨hr,hnone⟩,?_⟩
    rcases hr' with ⟨hr',-⟩ | ⟨n',hr'⟩
    · rw [show r = r' from hr.trans hr'.symm]
      simp
    · obtain ⟨route,hmem,hrt,-⟩ := hr'.attained
      simp [hnone route (h.mem_iff.mpr hmem)] at hrt
  · have hsize := Picks.considered _ _ _ hr
    refine ⟨.inr ⟨n,hr,hsize⟩,?_⟩
    rcases hr' with ⟨-,hnone⟩ | ⟨n',hr'⟩
    · obtain ⟨route,hmem,hrt,-⟩ := hr.attained
      simp [hnone route (h.mem_iff.mp hmem)] at hrt
    · obtain ⟨rfl,hsame⟩ := hr.unique hr' fun _ => h.mem_iff
      exact ⟨hsize.trans (Picks.considered _ _ _ hr').symm,hsame⟩

theorem selectMostSpecificRoute_tie :
    let routes : List Route := [⟨⟨"en0",some ⟨⟨0,0,0,0⟩,cidrMask 0⟩,false⟩,0⟩,⟨⟨"utun3",some ⟨⟨0,0,0,0⟩,cidrMask 0⟩,true⟩,0⟩]
    let r := selectMostSpecificRoute (some ⟨10,0,0,1⟩) routes fun _ => false
    r.interface = "en0" ∧ r.looksLikeTunnel = true ∧
      (selectMostSpecificRoute (some ⟨10,0,0,1⟩) routes.reverse fun _ => false).looksLikeTunnel = true := by
  refine ⟨by decide +kernel,by decide +kernel,?_⟩
  exact (selectMostSpecificRoute_order_free _ _ _ _ (reverse_perm _).symm).2.2.2.symm.trans (by decide +kernel)

end

inductive SearchError
  | allocated
  | inspect (cause : InspectError)
  | overlap

/-- The loop over the indexes, with the interface of the warning. -/
def searchSubnets (used : ℕ → Bool) (interfaces : List HostInterface)
    (routeSource : Option (IP → Except String HostRoute)) : List ℕ → Except SearchError (ℕ × Option String)
  | [] => .error .overlap
  | index::rest =>
    if used index then searchSubnets used interfaces routeSource rest
    else
      match inspectSubnet index interfaces routeSource false false with
      | .error e => .error (.inspect e)
      | .ok (.conflict _) => searchSubnets used interfaces routeSource rest
      | .ok (.warning interface) => .ok (index,some interface)
      | .ok .usable => .ok (index,none)

def lowestUsableSubnetIndex (clusters : List Reservations.Cluster) (sources : Sources) :
    Except SearchError (ℕ × Option String) :=
  let used (index : ℕ) := clusters.any fun item => item.subnetIndex = index
  if (range 256).all used then .error .allocated
  else
    match readHostInterfaces sources with
    | .error e => .error (.inspect e)
    | .ok interfaces => searchSubnets used interfaces sources.route (range 256)

/-- A host whose lookups are answered from a table, without the interfaces ignored for the address.
-/
structure Host where
  interfaces : List HostInterface
  table : List Route
  ignoredInterfaces : IP → String → Bool
  /-- A route without an interface would be an incomplete answer. -/
  named : ∀ route ∈ table, route.interface ≠ ""

def Host.route (host : Host) (ip : IP) : HostRoute :=
  (selectMostSpecificRoute (some ip) host.table (host.ignoredInterfaces ip)).toHostRoute

def Host.sources (host : Host) : Sources := ⟨some (.ok host.interfaces),some fun ip => .ok (host.route ip)⟩

def slash24 (n : ℕ) : Network := ⟨⟨172,30,.ofNat n,0⟩,cidrMask 24⟩

/-- The prefix length of a route to the subnet's first node. -/
def Host.size (host : Host) (n : ℕ) : Route → Option ℕ :=
  Route.considered (some (firstNode n)) (host.ignoredInterfaces (firstNode n))

/-- No interface network overlaps the subnet and no specific route leads into it. -/
structure Host.Free (host : Host) (n : ℕ) : Prop where
  interface : ∀ current ∈ host.interfaces, ∀ address ∈ current.addrs, ∀ ip network,
    ipv4Network address = some (ip,network) →
      (slash24 n).contains network.ip = false ∧ network.contains (slash24 n).ip = false
  route : ∀ route ∈ host.table, ∀ ones, host.size n route = some ones → ones < 24

variable {host : Host} {n : ℕ}

theorem inspectAddrs_strict (index : ℤ) (candidate : Network) (addrs : List (String × Addr)) :
    let clear := ∀ a ∈ addrs, ∀ ip network, ipv4Network a.2 = some (ip,network) →
      networksOverlap candidate network = false
    inspectAddrs index candidate false false addrs [] = .ok [] ∧ clear ∨
      (∃ cause, inspectAddrs index candidate false false addrs [] = .error cause) ∧ ¬ clear := by
  induction addrs with
  | nil => exact .inl ⟨rfl,by simp⟩
  | cons a rest ih =>
    cases hnet : ipv4Network a.2 with
    | none => simpa [inspectAddrs,hnet] using ih
    | some found =>
      obtain ⟨ip,network⟩ := found
      cases hov : networksOverlap candidate network with
      | false => simpa [inspectAddrs,hnet,hov] using ih
      | true =>
        refine .inr ⟨⟨.interface a.1 a.2,?_⟩,fun h => ?_⟩
        · simp [inspectAddrs,hnet,hov]
        · simp [h a (by simp) ip network hnet] at hov

theorem contains_of_specific {network : Network} {ones : ℕ} (hsz : maskSize network.mask = some ones)
    (hones : 24 ≤ ones) (h : network.contains (firstNode n)) : (slash24 n).contains network.ip := by
  have hmask : cidrMask ones = network.mask := by simpa using find?_some hsz
  have hle : ones ≤ 32 := by
    have := mem_of_find?_eq_some hsz
    simp only [mem_range] at this
    omega
  have hbs : ∀ k ∈ Finset.Icc 24 32, (cidrMask k).a = 255 ∧ (cidrMask k).b = 255 ∧ (cidrMask k).c = 255 := by
    decide
  have hand : ∀ x : UInt8, x &&& 255 = x := by decide +kernel
  obtain ⟨ha,hb,hc⟩ := hbs ones (Finset.mem_Icc.mpr ⟨hones,hle⟩)
  obtain ⟨ha',hb',hc'⟩ := hbs 24 (by decide)
  have hd : (cidrMask 24).d = 0 := by decide
  simp only [Network.contains,slash24,firstNode,IP.mask,← hmask,ha,hb,hc,ha',hb',hc',hd,decide_eq_true_eq,
    Router.IP.mk.injEq] at h ⊢
  simp [h]

theorem inspectRoute_host (host : Host) (n : ℕ) :
    ∃ answer, inspectRoute n (slash24 n) (host.route (firstNode n)) false false [] = .ok answer ∧
      ((∀ cause, answer ≠ .conflict cause) ↔ ∀ route ∈ host.table, ∀ ones, host.size n route = some ones → ones < 24) := by
  rcases selectMostSpecificRoute_cases (some (firstNode n)) host.table (host.ignoredInterfaces (firstNode n)) with
    ⟨hr,hno⟩ | ⟨ones,hpik⟩
  · refine ⟨.usable,?_,?_⟩
    · simp [inspectRoute,Host.route,hr,Route.empty]
    · simp +contextual [Host.size,hno]
  obtain ⟨route,hmem,hrt,hr⟩ := hpik.attained
  have hspec : (∀ route ∈ host.table, ∀ ones, host.size n route = some ones → ones < 24) ↔ ones < 24 :=
    ⟨fun h => h route hmem ones hrt,fun h other hoth k hk => (hpik.longest other hoth k hk).trans_lt h⟩
  obtain ⟨network,hnetw,hcont,hsz⟩ : ∃ network, route.network = some network ∧
      network.contains (firstNode n) ∧ maskSize network.mask = some ones := by
    simp only [Route.considered,Option.bind_eq_some_iff,Option.ite_none_right_eq_some,
      Option.ite_none_left_eq_some] at hrt
    exact hrt.2
  have hnm := host.named route hmem
  rw [hspec,Host.route,hr]
  simp only [inspectRoute,hnetw,hnm,hsz]
  by_cases hones : 24 ≤ ones
  · have hov : networksOverlap (slash24 n) network := by
      simp [networksOverlap,contains_of_specific hsz hones hcont]
    have hpos : ones ≠ 0 := by omega
    simp [hones,hpos,hov]
  · simp only [hones,if_false]
    split_ifs <;> simp [not_le.1 hones]

variable (host) in
theorem inspectSubnet_host (hn : n ≤ 255) :
    ∃ answer, inspectSubnet n host.interfaces host.sources.route false false = .ok answer ∧
      ((∀ cause, answer ≠ .conflict cause) ↔ host.Free n) := by
  have hcidr : subnetCIDR n = some (slash24 n) := by
    simp only [subnetCIDR,maxSubnetIndex]
    exact if_pos (by omega)
  obtain ⟨answer,hans,hiff⟩ := inspectRoute_host host n
  simp only [inspectSubnet,hcidr]
  rcases inspectAddrs_strict n (slash24 n)
    (host.interfaces.flatMap fun current => current.addrs.map fun address => (current.name,address)) with
    ⟨hok,hclr⟩ | ⟨⟨cause,herr⟩,hclr⟩
  all_goals
    simp only [forall_mem_flatMap,forall_mem_map,networksOverlap,Bool.or_eq_false_iff] at hclr
  · rw [hok]
    exact ⟨answer,hans,hiff.trans ⟨fun h => ⟨hclr,h⟩,Host.Free.route⟩⟩
  · rw [herr]
    exact ⟨_,rfl,fun h => absurd rfl (h cause),fun h => absurd h.interface hclr⟩

/-- The answer is the least of the usable indexes, or none is. -/
def Answers (usable : Set ℕ) : Except SearchError (ℕ × Option String) → Prop
  | .ok (n,_) => IsLeast usable n
  | .error _ => usable = ∅

theorem searchSubnets_host (used : ℕ → Bool) {l : List ℕ} (hl : ∀ n ∈ l, n ≤ 255) (hsrt : l.Pairwise (· < ·)) :
    Answers { n | n ∈ l ∧ used n = false ∧ host.Free n }
      (searchSubnets used host.interfaces host.sources.route l) := by
  induction l with
  | nil => simp [searchSubnets,Answers]
  | cons index rest ih =>
    obtain ⟨hlt,hrs⟩ := pairwise_cons.1 hsrt
    replace ih := ih (fun n hn => hl n (by simp [hn])) hrs
    obtain ⟨answer,hans,hfr⟩ := inspectSubnet_host host (hl index (by simp))
    have hsk (h : ¬ (used index = false ∧ host.Free index)) :
        { n | n ∈ index::rest ∧ used n = false ∧ host.Free n } = { n | n ∈ rest ∧ used n = false ∧ host.Free n } := by
      ext n
      simp only [Set.mem_ofPred_eq,mem_cons,or_and_right,or_iff_right_iff_imp]
      rintro ⟨rfl,hn⟩
      exact absurd hn h
    have hlst (hus : used index = false) (h : ∀ cause, answer ≠ .conflict cause) :
        IsLeast { n | n ∈ index::rest ∧ used n = false ∧ host.Free n } index := by
      refine ⟨⟨by simp,hus,hfr.1 h⟩,fun n hn => ?_⟩
      rcases mem_cons.1 hn.1 with rfl | hn
      · exact le_rfl
      · exact (hlt n hn).le
    rw [searchSubnets,hans]
    cases hus : used index with
    | true =>
      rw [hsk fun h => by simp [hus] at h]
      exact ih
    | false =>
      cases answer with
      | conflict cause =>
        rw [hsk fun h => hfr.2 h.2 cause rfl]
        exact ih
      | warning interface => exact hlst hus (by simp)
      | usable => exact hlst hus (by simp)

theorem lowestUsableSubnetIndex_least (clusters : List Reservations.Cluster) (host : Host) :
    Answers { n | n ≤ 255 ∧ (∀ item ∈ clusters, item.subnetIndex ≠ n) ∧ host.Free n }
      (lowestUsableSubnetIndex clusters host.sources) := by
  have hused (n : ℕ) : (∀ item ∈ clusters, item.subnetIndex ≠ n) ↔
      (clusters.any fun item => item.subnetIndex = n) = false := by simp
  have hrange (n : ℕ) : n ≤ 255 ↔ n ∈ List.range 256 := by
    rw [mem_range]
    omega
  simp only [hused,hrange]
  unfold lowestUsableSubnetIndex
  dsimp only
  split_ifs with hall
  · rw [all_eq_true] at hall
    exact Set.eq_empty_of_forall_notMem fun n hn => absurd (hall n hn.1) (by rw [hn.2.1]; decide)
  · exact searchSubnets_host _ (fun n hn => (hrange n).mpr hn) pairwise_lt_range

end TalosBox.Subnets
