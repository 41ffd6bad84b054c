import TalosBox.RouterForwarding

/-! Guests of different subnets do not touch each other: addresses of other subnets keep their
owners, other ports their MACs, and a leased node address stays with its port. -/
namespace TalosBox.Router

open KeyedFold Option

theorem belongsToSubnet_unique {ip : IP} {s n : ℤ} (hs : belongsToSubnet ip s)
    (hn : belongsToSubnet ip n) : s = n := by
  simp only [belongsToSubnet,decide_eq_true_eq] at hs hn
  exact hs.2.2.symm.trans hn.2.2

theorem belongsToSubnet_of_isVIP {ip : IP} {s : ℤ} (h : isVIP ip s) :
    belongsToSubnet ip s := by
  simp only [isVIP,Bool.and_eq_true] at h
  exact h.1

theorem belongsToSubnet_of_isNodeIP {ip : IP} {s : ℤ} (h : isNodeIP ip s) :
    belongsToSubnet ip s := by
  simp only [isNodeIP,Bool.and_eq_true] at h
  exact h.1

theorem belongsToSubnet_of_isOwned {ip : IP} {s : ℤ} (h : isOwnedTalosboxIP ip s) :
    belongsToSubnet ip s := by
  simp only [isOwnedTalosboxIP,Bool.or_eq_true] at h
  exact h.elim belongsToSubnet_of_isNodeIP belongsToSubnet_of_isVIP

namespace FrameRouter

variable {r r' : FrameRouter} {p : ℕ} {ip : IP}

/-- How a frame through a port can change who owns an address. -/
inductive Rebinds (r : FrameRouter) (p : ℕ) (r' : FrameRouter) (ip : IP) : Prop
  | kept (same : r'.ipToPort ip = r.ipToPort ip)
  | announced (vip : isVIP ip (r.heap p).subnet) (taken : r'.ipToPort ip = some p)
  | leased (node : isNodeIP ip (r.heap p).subnet)
      (free : ∀ q, r.ipToPort ip = some q → q = p) (taken : r'.ipToPort ip = some p)
  | left (held : r.ipToPort ip = some p) (gone : r'.ipToPort ip = none)
      (moved : ∃ ip', ip' ≠ ip ∧ (r'.heap p).nodeIP = some ip' ∧
        isNodeIP ip' (r.heap p).subnet)

theorem Rebinds.congr {r₀ r₁ : FrameRouter} (htab : r₀.ipToPort = r.ipToPort)
    (hsub : (r₀.heap p).subnet = (r.heap p).subnet) (htab' : r₁.ipToPort = r'.ipToPort)
    (hnd : (r₁.heap p).nodeIP = (r'.heap p).nodeIP) (h : Rebinds r p r' ip) :
    Rebinds r₀ p r₁ ip := by
  cases h with
  | kept same => exact .kept (by rw [htab,htab',same])
  | announced vip taken => exact .announced (by rwa [hsub]) (by rwa [htab'])
  | leased node free taken =>
    exact .leased (by rwa [hsub]) (by rwa [htab]) (by rwa [htab'])
  | left held gone moved =>
    exact .left (by rwa [htab]) (by rwa [htab']) (by rwa [hnd,hsub])

theorem learnVIPIP_rebinds (r : FrameRouter) (p : ℕ) (ip ip' : IP) :
    Rebinds r p (r.learnVIPIP p ip) ip' := by
  by_cases hip : isVIP ip (r.heap p).subnet
  · have htab : (r.learnVIPIP p ip).ipToPort = Function.update r.ipToPort ip (some p) :=
      congrArg TwoWayIndex.owner (learnVIPIP_index hip)
    by_cases heq : ip' = ip
    · subst heq
      exact .announced hip (by rw [htab,Function.update_self])
    · exact .kept (by rw [htab,Function.update_of_ne heq])
  · exact .kept (by simp only [learnVIPIP,hip,Bool.not_false,↓reduceIte])

theorem dropLease_table (r : FrameRouter) (p : ℕ) (ip : IP) :
    (r.dropLease p).ipToPort ip = r.ipToPort ip ∨
      r.ipToPort ip = some p ∧ (r.dropLease p).ipToPort ip = none := by
  cases hnd : (r.heap p).nodeIP with
  | none => exact .inl (by simp only [dropLease,hnd])
  | some old =>
    simp only [dropLease,hnd]
    by_cases hold : r.ipToPort old = some p
    · by_cases heq : ip = old
      · subst heq
        exact .inr ⟨hold,by simp [hold]⟩
      · exact .inl (by simp [hold,heq])
    · exact .inl (by simp [hold])

theorem learnNodeIP_rebinds (r : FrameRouter) (p : ℕ) (ip ip' : IP) :
    Rebinds r p (r.learnNodeIP p ip) ip' := by
  simp only [learnNodeIP]
  split_ifs with hip hsm hod
  · exact .kept rfl
  · exact .kept rfl
  · exact .kept rfl
  · have hnd : isNodeIP ip (r.heap p).subnet := by simpa using hip
    by_cases heq : ip' = ip
    · subst heq
      refine .leased hnd (fun q hq => ?_) (Function.update_self _ _ _)
      by_contra hne
      exact hod (by simp [hq,hne])
    · have htab : Function.update (r.dropLease p).ipToPort ip (some p) ip' =
          (r.dropLease p).ipToPort ip' := Function.update_of_ne heq _ _
      rcases r.dropLease_table p ip' with hkp | ⟨hhl,hgn⟩
      · exact .kept (htab.trans hkp)
      · exact .left hhl (htab.trans hgn) ⟨ip,Ne.symm heq,by simp,hnd⟩

theorem learnLease_rebinds (r : FrameRouter) (p : ℕ) (src : MAC) (pkt : IPv4Packet) (ip : IP) :
    Rebinds r p (r.learnLease p src pkt) ip := by
  rcases r.learnLease_cases p src pkt with heq | ⟨ip',heq⟩
  · rw [heq]
    exact .kept rfl
  · rw [heq]
    exact learnNodeIP_rebinds r p ip' ip

theorem learnARPSender_rebinds (r : FrameRouter) (p : ℕ) (src : MAC) (pay : Bytes) (ip : IP) :
    Rebinds r p (r.learnARPSender p src pay) ip := by
  rcases r.learnARPSender_cases p src pay with heq | ⟨ip',heq⟩
  · rw [heq]
    exact .kept rfl
  · rw [heq]
    exact learnVIPIP_rebinds r p ip' ip

theorem learnGateway_table (r : FrameRouter) (p : ℕ) (dst : MAC) :
    (r.learnGateway p dst).ipToPort = r.ipToPort ∧
      ((r.learnGateway p dst).heap p).nodeIP = (r.heap p).nodeIP := by
  simp only [learnGateway]
  split_ifs
  · exact ⟨rfl,by simp⟩
  · exact ⟨rfl,rfl⟩

theorem routeIPv4_rebinds (r : FrameRouter) (p : ℕ) (f : EthernetFrame) (pkt : IPv4Packet)
    (frame : Bytes) (ip : IP) : Rebinds r p (r.routeIPv4 p f pkt frame).router ip := by
  have hlse := learnLease_rebinds r p f.src pkt ip
  rcases r.routeIPv4_cases p f pkt frame with heq | ⟨sub,-,-,-,heq⟩
  · rw [heq]
    exact hlse
  · rw [heq,(forward_cases _ p f pkt sub frame).1]
    obtain ⟨htab,hnd⟩ := learnGateway_table (r.learnLease p f.src pkt) p f.dst
    exact hlse.congr rfl rfl htab hnd

/-- What a frame does to the address table. -/
theorem route_rebinds (r : FrameRouter) (port : Option ℕ) (frame : Bytes) (ip : IP) :
    (r.route port frame).router.ipToPort ip = r.ipToPort ip ∨
      ∃ p, port = some p ∧ Rebinds r p (r.route port frame).router ip := by
  rcases r.route_cases port frame with heq | ⟨f,p,r₁,-,hing,hrs⟩
  · rw [heq]
    exact .inl rfl
  · obtain ⟨hpo,-,hacc⟩ := ingress_cases hing
    have hsm : r₁.ipToPort = r.ipToPort ∧ (r₁.heap p).subnet = (r.heap p).subnet := by
      rcases acceptPortSourceMAC_cases hacc with ⟨rfl,-⟩ | rfl
      · exact ⟨rfl,rfl⟩
      · exact ⟨rfl,by simp⟩
    refine .inr ⟨p,hpo,?_⟩
    have hrebi : Rebinds r₁ p (r.route port frame).router ip := by
      rcases hrs with heq | ⟨pkt,-,heq⟩
      · rw [heq]
        exact learnARPSender_rebinds r₁ p f.src f.payload ip
      · rw [heq]
        exact routeIPv4_rebinds r₁ p f pkt frame ip
    exact hrebi.congr hsm.1.symm hsm.2.symm rfl rfl

lemma Bound.subnet (h : r.Bound) (hip : r.ipToPort ip = some p) :
    belongsToSubnet ip (r.heap p).subnet :=
  belongsToSubnet_of_isOwned ((h.sound p).address ip ((h.agrees ip p).1 hip).2)

/-- Every routed address is a VIP, routed to a node of its subnet or to the zero address. -/
def Routes (r : FrameRouter) : Prop := ∀ vip node, r.routedVIPs vip = some node →
  ∃ subnet, isVIP vip subnet ∧ (node = .zero ∨ isNodeIP node subnet)

/-- The nexthop of an address off a subnet is off it too. -/
theorem Routes.foreign (h : r.Routes) {vip node : IP} {s : ℤ} (hrt : r.routedVIPs vip = some node)
    (hvip : belongsToSubnet vip s = false) : belongsToSubnet node s = false := by
  obtain ⟨subnet,hv,rfl | hnd⟩ := h vip node hrt
  · rfl
  · by_contra hs
    obtain rfl := belongsToSubnet_unique (belongsToSubnet_of_isNodeIP hnd) (by simpa using hs)
    simp [belongsToSubnet_of_isVIP hv] at hvip

theorem owner_congr {n : ℤ} (hsub : ∀ q, (r'.heap q).subnet = (r.heap q).subnet)
    (hrts : r'.routedVIPs = r.routedVIPs) (hip : r'.ipToPort ip = r.ipToPort ip)
    (hnd : ∀ node, r.routedVIPs ip = some node → r'.ipToPort node = r.ipToPort node) :
    r'.owner ip n = r.owner ip n := by
  simp only [owner,boundPort,hsub,hrts,hip]
  cases hrt : r.routedVIPs ip with
  | none => rfl
  | some node => simp only [hnd node hrt]

theorem route_subnet (r : FrameRouter) (port : Option ℕ) (frame : Bytes) (q : ℕ) :
    ((r.route port frame).router.heap q).subnet = (r.heap q).subnet := by
  have h : (r.route port frame).router.beside (port.getD 0) = r.beside (port.getD 0) :=
    route_beside (fun q hq => by simp [hq]) frame
  exact congrFun (congrArg Beside.subnet h) q

/-- A frame leaves the addresses of other subnets where they are. -/
theorem Bound.route_foreign (h : r.Bound) {port : Option ℕ}
    (hip : ∀ p, port = some p → belongsToSubnet ip (r.heap p).subnet = false) (frame : Bytes) :
    (r.route port frame).router.ipToPort ip = r.ipToPort ip := by
  rcases r.route_rebinds port frame ip with hsm | ⟨p,hpo,hrebi⟩
  · exact hsm
  · have hoff := hip p hpo
    cases hrebi with
    | kept same => exact same
    | announced vip _ => simp [belongsToSubnet_of_isVIP vip] at hoff
    | leased node _ _ => simp [belongsToSubnet_of_isNodeIP node] at hoff
    | left held _ _ => simp [h.subnet held] at hoff

theorem Bound.route_owner (h : r.Bound) (hrts : r.Routes) {port : Option ℕ}
    (hip : ∀ p, port = some p → belongsToSubnet ip (r.heap p).subnet = false) (frame : Bytes) (n : ℤ) :
    (r.route port frame).router.owner ip n = r.owner ip n := by
  refine owner_congr (r.route_subnet port frame) (r.route_routedVIPs port frame)
    (h.route_foreign hip frame) fun node hrt => ?_
  exact h.route_foreign (fun p hpo => hrts.foreign hrt (hip p hpo)) frame

/-- Frames, each with the port it comes in through. -/
def routeAll (r : FrameRouter) (frames : List (Option ℕ × Bytes)) : FrameRouter :=
  frames.foldl (fun r f => (r.route f.1 f.2).router) r

lemma Bound.routeAll (h : r.Bound) (frames : List (Option ℕ × Bytes)) :
    (r.routeAll frames).Bound :=
  foldl_invariant (fun _ f _ h => h.route f.1 f.2) h

theorem Routes.routeAll (h : r.Routes) (frames : List (Option ℕ × Bytes)) :
    (r.routeAll frames).Routes := by
  refine foldl_invariant (fun s f _ hs => ?_) h
  intro vip node hrt
  rw [route_routedVIPs] at hrt
  exact hs vip node hrt

/-- No sequence of frames on other subnets' ports changes who owns an address. -/
theorem Bound.routeAll_foreign (h : r.Bound) (hrts : r.Routes)
    {frames : List (Option ℕ × Bytes)}
    (hip : ∀ f ∈ frames, ∀ p, f.1 = some p → belongsToSubnet ip (r.heap p).subnet = false) :
    (r.routeAll frames).ipToPort ip = r.ipToPort ip ∧
      ∀ n, (r.routeAll frames).owner ip n = r.owner ip n := by
  induction frames generalizing r with
  | nil => exact ⟨rfl,fun _ => rfl⟩
  | cons f frames ih =>
    have hfst := hip f (by simp)
    have hrts' : (r.route f.1 f.2).router.Routes := hrts.routeAll [f]
    obtain ⟨htab,how⟩ := ih (h.route f.1 f.2) hrts' fun g hg p hp => by
      rw [route_subnet]
      exact hip g (List.mem_cons_of_mem _ hg) p hp
    exact ⟨htab.trans (h.route_foreign hfst f.2),
      fun n => (how n).trans (h.route_owner hrts hfst f.2 n)⟩

theorem routeAll_macs {frames : List (Option ℕ × Bytes)} {q : ℕ}
    (hq : ∀ f ∈ frames, f.1 ≠ some q) :
    ((r.routeAll frames).heap q).mac = (r.heap q).mac ∧
      ((r.routeAll frames).heap q).gateway = (r.heap q).gateway := by
  have hvw : (fun r : FrameRouter => ((r.heap q).mac,(r.heap q).gateway)) (r.routeAll frames) =
      ((r.heap q).mac,(r.heap q).gateway) := by
    refine foldl_frame (v := fun r : FrameRouter => ((r.heap q).mac,(r.heap q).gateway))
      (fun r f hf => ?_) r
    have hbeside : (r.route f.1 f.2).router.beside (f.1.getD (q+1)) = r.beside (f.1.getD (q+1)) :=
      route_beside (fun p hp => by simp [hp]) f.2
    have hne : q ≠ f.1.getD (q+1) := by
      intro heq
      cases hpo : f.1 with
      | none => simp [hpo] at heq
      | some p => exact hq f hf (by rw [hpo] at heq ⊢; simpa using heq.symm)
    have hos := congrFun (congrArg Beside.others hbeside) q
    simp only [beside,if_neg hne,some.injEq,Prod.mk.injEq] at hos
    simp only [hos.1,hos.2.1]
  exact Prod.mk.inj hvw

variable (parseIP4 : String → Option IP)

theorem routedVIPPair_vip {hostRoute hop : String} {vip node : IP}
    (h : routedVIPPair parseIP4 hostRoute hop = some (vip,node)) :
    ∃ subnet, isVIP vip subnet ∧ (node = .zero ∨ isNodeIP node subnet) := by
  by_cases hnx : hop = ""
  · simp only [routedVIPPair] at h
    split_ifs at h
    simp only [bind_eq_bind,bind_eq_some_iff] at h
    obtain ⟨vip',-,subnet,-,h⟩ := h
    split_ifs at h with hvip
    cases h
    exact ⟨subnet,by simpa using hvip,.inl rfl⟩
  · obtain ⟨subnet,hvip,hnd⟩ := routedVIPPair_eq_some parseIP4 hnx h
    exact ⟨subnet,hvip,.inr hnd⟩

theorem Routes.step (h : r.Routes) (op : Op) : (r.step parseIP4 op).Routes := by
  refine step_routedVIPs parseIP4 ?_ h
  rintro hostRoute hop vip node rfl hpair
  exact routedVIPPair_vip parseIP4 hpair

lemma run_routes (ops : List Op) : (run parseIP4 ops).Routes :=
  foldl_invariant (fun _ op _ h => h.step parseIP4 op)
    (by simp [Routes,newFrameRouter])

theorem Routes.owner_node (h : r.Routes) {n : ℤ} (hnd : isNodeIP ip n) :
    r.owner ip n = r.boundPort ip n := by
  have hrt : r.routedVIPs ip = none := by
    cases hrt : r.routedVIPs ip with
    | none => rfl
    | some node =>
      obtain ⟨subnet,hvip,-⟩ := h ip node hrt
      obtain rfl := belongsToSubnet_unique (belongsToSubnet_of_isVIP hvip)
        (belongsToSubnet_of_isNodeIP hnd)
      simp [not_isNodeIP_of_isVIP hvip] at hnd
  simp only [owner,hrt]
  cases r.boundPort ip n <;> rfl

/-- The port was removed, or leased another node address. -/
def Leaves (r : FrameRouter) (p : ℕ) (ip : IP) (n : ℤ) : Prop :=
  p ∉ r.ports ∨ ∃ ip', ip' ≠ ip ∧ (r.heap p).nodeIP = some ip' ∧ isNodeIP ip' n

theorem Bound.step_subnet (h : r.Bound) (hp : p ∈ r.ports) (op : Op) :
    ((r.step parseIP4 op).heap p).subnet = (r.heap p).subnet := by
  cases op with
  | addPort subnet =>
    have hne : p ≠ r.nextPort+1 := by
      have := h.fresh p hp
      omega
    simp [FrameRouter.step,FrameRouter.addPort,hne]
  | route port frame => exact r.route_subnet port frame p
  | learnRoutedVIP hostRoute hop =>
    rw [FrameRouter.step]
    rcases learnRoutedVIP_cases parseIP4 r hostRoute hop with heq | ⟨pair,-,heq⟩ <;> rw [heq]
  | forgetRoutedVIP hostRoute =>
    rw [FrameRouter.step]
    rcases forgetRoutedVIP_cases parseIP4 r hostRoute with heq | ⟨vip,heq⟩ <;> rw [heq]
  | removePort port =>
    rw [FrameRouter.step]
    rcases r.removePort_cases port with heq | ⟨q,-,-,heq⟩
    · rw [heq]
    · rw [heq]
      by_cases hpq : p = q
      · subst hpq
        rw [modify_heap_self]
      · rw [modify_heap_of_ne _ hpq]

/-- A port keeps its leased node address, or gives it up by leaving, and then nobody has it. -/
theorem Bound.step_node (h : r.Bound) {n : ℤ} (hnd : isNodeIP ip n)
    (hsub : (r.heap p).subnet = n) (hip : r.ipToPort ip = some p) (op : Op) :
    (r.step parseIP4 op).ipToPort ip = some p ∨
      (r.step parseIP4 op).ipToPort ip = none ∧ (r.step parseIP4 op).Leaves p ip n := by
  cases op with
  | addPort subnet => exact .inl hip
  | route port frame =>
    rcases r.route_rebinds port frame ip with hsm | ⟨q,hpo,hrebi⟩
    · exact .inl (hsm.trans hip)
    · cases hrebi with
      | kept same => exact .inl (same.trans hip)
      | announced vip _ =>
        -- a VIP of the frame's subnet is no node address
        obtain rfl := belongsToSubnet_unique (belongsToSubnet_of_isVIP vip)
          (belongsToSubnet_of_isNodeIP hnd)
        simp [not_isNodeIP_of_isVIP vip] at hnd
      | leased _ free taken => exact .inl (free p hip ▸ taken)
      | left held gone moved =>
        obtain rfl : p = q := by simpa [hip] using held
        rw [hsub] at moved
        exact .inr ⟨gone,.inr moved⟩
  | learnRoutedVIP hostRoute hop =>
    rw [FrameRouter.step]
    rcases learnRoutedVIP_cases parseIP4 r hostRoute hop with heq | ⟨pair,-,heq⟩
    · rw [heq]
      exact .inl hip
    · rw [heq]
      exact .inl hip
  | forgetRoutedVIP hostRoute =>
    rw [FrameRouter.step]
    rcases forgetRoutedVIP_cases parseIP4 r hostRoute with heq | ⟨vip,heq⟩
    · rw [heq]
      exact .inl hip
    · rw [heq]
      exact .inl hip
  | removePort port =>
    rw [FrameRouter.step]
    rcases r.removePort_cases port with heq | ⟨q,-,-,heq⟩
    · rw [heq]
      exact .inl hip
    · rw [heq]
      by_cases hpq : p = q
      · subst hpq
        have hmem := ((h.agrees ip p).1 hip).2
        exact .inr ⟨if_pos ⟨hmem,hip⟩,.inl (by simp)⟩
      · refine .inl ((if_neg ?_).trans hip)
        rintro ⟨-,hown⟩
        rw [hip] at hown
        exact hpq (some.inj hown)

/-- The router after further operations. -/
def runFrom (r : FrameRouter) (ops : List Op) : FrameRouter := ops.foldl (step parseIP4) r

/-- A node address stays with its port up to the operation in which the port leaves. -/
theorem Bound.node_tenure (h : r.Bound) (hrts : r.Routes) {n : ℤ} (hnd : isNodeIP ip n)
    (hown : r.owner ip n = some p) (later : List Op) :
    (r.runFrom parseIP4 later).owner ip n = some p ∨
      ∃ before op after, later = before++op::after ∧
        (r.runFrom parseIP4 before).owner ip n = some p ∧
        (r.runFrom parseIP4 (before++[op])).owner ip n = none ∧
        (r.runFrom parseIP4 (before++[op])).Leaves p ip n := by
  induction later generalizing r with
  | nil => exact .inl hown
  | cons op later ih =>
    have hbd := hown
    rw [hrts.owner_node hnd] at hbd
    obtain ⟨hip,-⟩ := filter_eq_some_iff.1 hbd
    have hsub := boundPort_subnet hbd
    have hst := h.step parseIP4 op
    have hrts' := hrts.step parseIP4 op
    have hlv : p ∈ r.ports := ((h.agrees ip p).1 hip).1
    rcases h.step_node parseIP4 hnd hsub hip op with hkp | ⟨hgn,hleaves⟩
    · have hown' : (r.step parseIP4 op).owner ip n = some p := by
        rw [hrts'.owner_node hnd]
        refine filter_eq_some_iff.2 ⟨hkp,?_⟩
        rw [h.step_subnet parseIP4 hlv op,hsub]
        exact decide_eq_true rfl
      rcases ih hst hrts' hown' with hdn | ⟨before,op',after,rfl,hbef,hno,hleaves⟩
      · exact .inl hdn
      · exact .inr ⟨op::before,op',after,rfl,hbef,hno,hleaves⟩
    · refine .inr ⟨[],op,later,rfl,hown,?_,hleaves⟩
      show (r.step parseIP4 op).owner ip n = none
      rw [hrts'.owner_node hnd,boundPort,hgn]
      rfl

theorem Bound.owner_vip (h : r.Bound) (hrts : r.Routes) {vip : IP} {m n : ℤ}
    (hvip : isVIP vip m) (hown : r.owner vip n = some p) : (r.heap p).subnet = m := by
  have hm := belongsToSubnet_of_isVIP hvip
  simp only [owner] at hown
  cases hbd : r.boundPort vip n with
  | some q =>
    simp only [hbd,some.injEq] at hown
    subst hown
    exact belongsToSubnet_unique (h.subnet (filter_eq_some_iff.1 hbd).1) hm
  | none =>
    simp only [hbd] at hown
    cases hrt : r.routedVIPs vip with
    | none => simp [hrt] at hown
    | some node =>
      simp only [hrt] at hown
      have hnd := h.subnet (filter_eq_some_iff.1 hown).1
      by_contra hne
      have hoff : belongsToSubnet vip (r.heap p).subnet = false := by
        by_contra hs
        exact hne (belongsToSubnet_unique (by simpa using hs) hm)
      simp [hrts.foreign hrt hoff] at hnd

end FrameRouter

/-- Guest isolation in every reachable state. Frames on one subnet's ports change no ownership off
it, and no MAC or gateway but of the ports they come in through; a node address leaves its port only
when that moves or is removed; a VIP is owned by ports of its subnet only, and changes owner only by
a frame from one of them. -/
theorem guest_isolation (parseIP4 : String → Option IP) (ops : List Op) :
    let r := FrameRouter.run parseIP4 ops
    (∀ s frames, (∀ f ∈ frames, ∀ p, f.1 = some p → (r.heap p).subnet = s) →
      (∀ ip, belongsToSubnet ip s = false →
        (r.routeAll frames).ipToPort ip = r.ipToPort ip ∧
          ∀ n, (r.routeAll frames).owner ip n = r.owner ip n) ∧
      ∀ q, (∀ f ∈ frames, f.1 ≠ some q) →
        ((r.routeAll frames).heap q).mac = (r.heap q).mac ∧
          ((r.routeAll frames).heap q).gateway = (r.heap q).gateway) ∧
    (∀ ip n p, isNodeIP ip n = true → r.owner ip n = some p → ∀ later,
      (r.runFrom parseIP4 later).owner ip n = some p ∨
        ∃ before op after, later = before ++ op :: after ∧
          (r.runFrom parseIP4 before).owner ip n = some p ∧
          (r.runFrom parseIP4 (before ++ [op])).owner ip n = none ∧
          (r.runFrom parseIP4 (before ++ [op])).Leaves p ip n) ∧
    ∀ vip m, isVIP vip m = true → ∀ frames,
      (∀ n p, r.owner vip n = some p → (r.heap p).subnet = m) ∧
      (∀ n p, (r.routeAll frames).owner vip n = some p →
        ((r.routeAll frames).heap p).subnet = m) ∧
      ∀ n, (r.routeAll frames).owner vip n ≠ r.owner vip n →
        ∃ f ∈ frames, ∃ p, f.1 = some p ∧ (r.heap p).subnet = m := by
  intro r
  have h : r.Bound := FrameRouter.run_bound parseIP4 ops
  have hrts : r.Routes := FrameRouter.run_routes parseIP4 ops
  refine ⟨fun s frames hframes => ⟨fun ip hip => ?_,fun q hq => FrameRouter.routeAll_macs hq⟩,
    fun ip n p hnode hown later => h.node_tenure parseIP4 hrts hnode hown later,
    fun vip m hvip frames => ⟨fun n p hown => h.owner_vip hrts hvip hown,
      fun n p hown => (h.routeAll frames).owner_vip (hrts.routeAll frames) hvip hown,
      fun n hchan => ?_⟩⟩
  · exact h.routeAll_foreign hrts fun f hf p hp => by rwa [hframes f hf p hp]
  · by_contra hnone
    refine hchan ((h.routeAll_foreign hrts fun f hf p hp => ?_).2 n)
    by_contra hon
    exact hnone ⟨f,hf,p,hp,belongsToSubnet_unique (by simpa using hon)
      (belongsToSubnet_of_isVIP hvip)⟩

/-- The first port announces the second one's VIP, under its own MAC. -/
def spoofedFrames : List (Option ℕ × Bytes) :=
  [(some 1,announceARP ⟨2,0,0,0,0xf0,2⟩ ⟨172,30,241,200⟩)]

theorem spoofed_vip_stays :
    (pairRouter.routeAll spoofedFrames).owner ⟨172,30,241,200⟩ 241 = some 2 := by
  have hframes : ∀ f ∈ spoofedFrames, ∀ p, f.1 = some p → (pairRouter.heap p).subnet = 240 := by
    intro f hf p hp
    obtain rfl := List.mem_singleton.mp hf
    obtain rfl := Option.some.inj hp
    decide
  have how : pairRouter.owner ⟨172,30,241,200⟩ 241 = some 2 := by decide
  exact ((((guest_isolation dottedIP4 _).1 240 spoofedFrames hframes).1 _ (by decide)).2 241).trans
    how

end TalosBox.Router
