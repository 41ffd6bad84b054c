import TalosBox.RouterFrame

/-! The helper's frame router. Ports are objects on a heap under the id `addPort` gave them; the
router knows which are registered, which address each has shown it owns, and which routed addresses
were announced. Every operation runs under the mutex and is one step. -/
namespace TalosBox.Router

open Function (update)

def MAC.zero : MAC := ⟨0,0,0,0,0,0⟩
def IP.zero : IP := ⟨0,0,0,0⟩

def talosboxSubnet (ip : IP) : Option ℤ :=
  if ip.a = 172 ∧ ip.b = 30 then some ip.c.toNat else none

def belongsToSubnet (ip : IP) (subnet : ℤ) : Bool :=
  ip.a = 172 ∧ ip.b = 30 ∧ (ip.c.toNat : ℤ) = subnet

def isNodeIP (ip : IP) (subnet : ℤ) : Bool :=
  belongsToSubnet ip subnet && decide (2 ≤ ip.d ∧ ip.d ≤ 179)

def isVIP (ip : IP) (subnet : ℤ) : Bool :=
  belongsToSubnet ip subnet && decide (200 ≤ ip.d ∧ ip.d ≤ 239)

def isOwnedTalosboxIP (ip : IP) (subnet : ℤ) : Bool := isNodeIP ip subnet || isVIP ip subnet

def isUnicastMAC (mac : MAC) : Bool := mac.m₀ &&& 1 = 0

def routerDHCPServerIDMatchesSubnet (serverIP : Option IP) (subnet : ℤ) : Bool :=
  match serverIP with
  | some ip => belongsToSubnet ip subnet && decide (ip.d = 1)
  | none => false

/-- A port; an address or MAC that was never set is `none`. -/
structure Port where
  subnet : ℤ
  closed : Bool
  mac : Option MAC
  gateway : Option MAC
  nodeIP : Option IP
  ips : Finset IP

def routerGatewayMACKey (subnet : ℤ) : MAC := ⟨0x02,0x54,0x30,0x00,.ofNat (subnet%256).toNat,0x01⟩

def Port.sourceMAC (p : Port) : MAC := p.gateway.getD (routerGatewayMACKey p.subnet)

structure FrameRouter where
  nextPort : ℕ
  heap : ℕ → Port
  ports : Finset ℕ
  ipToPort : IP → Option ℕ
  routedVIPs : IP → Option IP

def newFrameRouter : FrameRouter where
  nextPort := 0
  heap _ := ⟨0,false,none,none,none,∅⟩
  ports := ∅
  ipToPort _ := none
  routedVIPs _ := none

namespace FrameRouter

/-- Write through a port pointer. -/
def modify (r : FrameRouter) (p : ℕ) (f : Port → Port) : FrameRouter :=
  { r with heap := update r.heap p (f (r.heap p)) }

/-- Register a new port; its id is the new `nextPort`. -/
def addPort (r : FrameRouter) (subnet : ℤ) : FrameRouter :=
  { r with
    nextPort := r.nextPort+1
    heap := update r.heap (r.nextPort+1) ⟨subnet,false,none,none,none,∅⟩
    ports := insert (r.nextPort+1) r.ports }

/-- The first unicast source pins the port's MAC; later frames must carry it. -/
def acceptPortSourceMAC (r : FrameRouter) (p : ℕ) (mac : MAC) : Option FrameRouter :=
  if !isUnicastMAC mac then none
  else match (r.heap p).mac with
    | none => some (r.modify p fun port => { port with mac := some mac })
    | some pinned => if pinned = mac then some r else none

/-- Forget the lease the port had. -/
def dropLease (r : FrameRouter) (p : ℕ) : FrameRouter :=
  match (r.heap p).nodeIP with
  | some old => { r.modify p fun port => { port with ips := port.ips.erase old } with
      ipToPort := if r.ipToPort old = some p then update r.ipToPort old none
        else r.ipToPort }
  | none => r

def learnNodeIP (r : FrameRouter) (p : ℕ) (ip : IP) : FrameRouter :=
  if !isNodeIP ip (r.heap p).subnet then r
  else if (r.heap p).nodeIP = some ip then r
  else if (r.ipToPort ip).any (· ≠ p) then r
  else
    let r := r.dropLease p
    { r.modify p fun port => { port with nodeIP := some ip,ips := insert ip port.ips } with
      ipToPort := update r.ipToPort ip (some p) }

def learnVIPIP (r : FrameRouter) (p : ℕ) (ip : IP) : FrameRouter :=
  if !isVIP ip (r.heap p).subnet then r
  else
    let r := match r.ipToPort ip with
      | some owner =>
        if owner ≠ p then r.modify owner fun port => { port with ips := port.ips.erase ip } else r
      | none => r
    { r.modify p fun port => { port with ips := insert ip port.ips } with
      ipToPort := update r.ipToPort ip (some p) }

def learnARPSender (r : FrameRouter) (p : ℕ) (frameSrcMAC : MAC) (payload : Bytes) : FrameRouter :=
  match parseRouterARP payload with
  | none => r
  | some arp =>
    if arp.senderMAC ≠ frameSrcMAC ∨ isVIP arp.senderIP (r.heap p).subnet = false then r
    else if arp.op = routerARPOpRequest ∨ arp.op = routerARPOpReply then r.learnVIPIP p arp.senderIP
    else r

def learnDHCPRequestedIP (r : FrameRouter) (p : ℕ) (frameSrcMAC : MAC) (payload : Bytes) :
    FrameRouter :=
  match parseRouterUDP payload with
  | none => r
  | some udp =>
    if udp.srcPort ≠ routerDHCPClientPort ∨ udp.dstPort ≠ routerDHCPServerPort then r
    else match parseRouterDHCPRequest udp.body with
      | none => r
      | some request =>
        if request.messageType ≠ routerDHCPMessageRequest ∨ request.clientMAC ≠ frameSrcMAC ∨
            request.clientMAC ≠ (r.heap p).mac.getD .zero ∨
            isNodeIP request.requestedIP (r.heap p).subnet = false ∨
            routerDHCPServerIDMatchesSubnet request.serverIP (r.heap p).subnet = false then r
        else r.learnNodeIP p request.requestedIP

/-- The port an address resolves to on a subnet, as long as it is a port of that subnet. -/
def boundPort (r : FrameRouter) (ip : IP) (subnet : ℤ) : Option ℕ :=
  (r.ipToPort ip).filter fun p => (r.heap p).subnet = subnet

/-- The port that learned the address, or for a routed VIP the port of the node the speaker named.
-/
def owner (r : FrameRouter) (ip : IP) (subnet : ℤ) : Option ℕ :=
  match r.boundPort ip subnet with
  | some p => some p
  | none =>
    match r.routedVIPs ip with
    | some nexthop => r.boundPort nexthop subnet
    | none => none

def targetFor (r : FrameRouter) (ip : IP) (subnet : ℤ) : Option ℕ :=
  (r.owner ip subnet).filter fun p => (r.heap p).mac.isSome

end FrameRouter

/-- What `route` returns, the frame it handed to a target port, and the router after. -/
structure Routed where
  router : FrameRouter
  handled : Bool
  forwarded : Option (ℕ × Bytes)

namespace FrameRouter

/-- A frame for another subnet is addressed to the port's gateway. -/
def learnGateway (r : FrameRouter) (p : ℕ) (dst : MAC) : FrameRouter :=
  if isUnicastMAC dst then r.modify p fun port => { port with gateway := some dst } else r

/-- Only an unfragmented UDP packet can be a lease request. -/
def learnLease (r : FrameRouter) (p : ℕ) (src : MAC) (packet : IPv4Packet) : FrameRouter :=
  if packet.protocol = routerIPProtocolUDP ∧ !packet.fragmented then
    r.learnDHCPRequestedIP p src packet.l4Payload
  else r

/-- The packet's addresses are known; look the target up and forward. -/
def forward (r : FrameRouter) (p : ℕ) (f : EthernetFrame) (packet : IPv4Packet) (dstSubnet : ℤ)
    (frame : Bytes) : Routed :=
  let r := r.learnGateway p f.dst
  match r.targetFor packet.dstIP dstSubnet with
  | none => ⟨r,false,none⟩
  | some target =>
    if packet.ttl ≤ 1 then ⟨r,true,none⟩
    else ⟨r,true,some (target,forwardFrame frame packet.headerLen packet.ttl
      ((r.heap target).mac.getD .zero) (r.heap target).sourceMAC)⟩

def routeIPv4 (r : FrameRouter) (p : ℕ) (f : EthernetFrame) (packet : IPv4Packet)
    (frame : Bytes) : Routed :=
  let r := r.learnLease p f.src packet
  if r.owner packet.srcIP (r.heap p).subnet ≠ some p then ⟨r,false,none⟩
  else match talosboxSubnet packet.dstIP with
    | none => ⟨r,false,none⟩
    | some dstSubnet =>
      if dstSubnet = (r.heap p).subnet ∨ isOwnedTalosboxIP packet.dstIP dstSubnet = false then
        ⟨r,false,none⟩
      else r.forward p f packet dstSubnet frame

/-- The port may speak: it is registered, and the source MAC is its own. -/
def ingress (r : FrameRouter) (port : Option ℕ) (src : MAC) : Option (ℕ × FrameRouter) :=
  match port with
  | none => none
  | some p => if p ∈ r.ports then (r.acceptPortSourceMAC p src).map (p,·) else none

def route (r : FrameRouter) (port : Option ℕ) (frame : Bytes) : Routed :=
  match parseRouterEthernetFrame frame with
  | none => ⟨r,false,none⟩
  | some f =>
    if f.etherType = routerEtherTypeARP then
      match r.ingress port f.src with
      | none => ⟨r,false,none⟩
      | some (p,r) => ⟨r.learnARPSender p f.src f.payload,false,none⟩
    else if f.etherType = routerEtherTypeIPv4 then
      match parseRouterIPv4Packet f.payload with
      | none => ⟨r,false,none⟩
      | some packet =>
        match r.ingress port f.src with
        | none => ⟨r,false,none⟩
        | some (p,r) => r.routeIPv4 p f packet frame
    else ⟨r,false,none⟩

/-- Validate a FIB write; `parseIP4` is the address parser followed by `To4`, an empty nexthop a
withdrawal. -/
def routedVIPPair (parseIP4 : String → Option IP) (hostRoute nexthop : String) : Option (IP × IP) :=
  let (address,suffix) := hostRoute.toList.span (· ≠ '/')
  if suffix ≠ "/32".toList then none
  else do
    let vip ← parseIP4 (.ofList address)
    let subnet ← talosboxSubnet vip
    if !isVIP vip subnet then none
    else if nexthop = "" then return (vip,.zero)
    else
      let node ← parseIP4 nexthop
      if !isNodeIP node subnet then none else return (vip,node)

def learnRoutedVIP (parseIP4 : String → Option IP) (r : FrameRouter)
    (hostRoute nexthop : String) : FrameRouter :=
  match routedVIPPair parseIP4 hostRoute nexthop with
  | none => r
  | some (vip,node) => { r with routedVIPs := update r.routedVIPs vip (some node) }

def forgetRoutedVIP (parseIP4 : String → Option IP) (r : FrameRouter) (hostRoute : String) :
    FrameRouter :=
  match routedVIPPair parseIP4 hostRoute "" with
  | none => r
  | some (vip,_) => { r with routedVIPs := update r.routedVIPs vip none }

/-- Unregister a port, drop the addresses it still owns, and close its send side. -/
def removePort (r : FrameRouter) (port : Option ℕ) : FrameRouter :=
  match port with
  | none => r
  | some p =>
    if p ∉ r.ports then r
    else
      let ips := (r.heap p).ips
      { r.modify p fun port => { port with closed := true } with
        ports := r.ports.erase p
        ipToPort := fun ip => if ip ∈ ips ∧ r.ipToPort ip = some p then none else r.ipToPort ip }

section

variable {r r' : FrameRouter} {p : ℕ}

theorem acceptPortSourceMAC_cases {mac : MAC} (h : r.acceptPortSourceMAC p mac = some r') :
    (r' = r ∧ (r.heap p).mac = some mac) ∨
      r' = r.modify p fun port => { port with mac := some mac } := by
  simp only [acceptPortSourceMAC] at h
  split_ifs at h
  cases hmac : (r.heap p).mac with
  | none =>
    simp only [hmac,Option.some.injEq] at h
    exact .inr h.symm
  | some pinned =>
    simp only [hmac] at h
    split_ifs at h with hpin
    simp only [Option.some.injEq] at h
    exact .inl ⟨h.symm,congrArg some hpin⟩

theorem ingress_cases {port : Option ℕ} {src : MAC} (h : r.ingress port src = some (p,r')) :
    port = some p ∧ p ∈ r.ports ∧ r.acceptPortSourceMAC p src = some r' := by
  cases port with
  | none => simp [ingress] at h
  | some q =>
    simp only [ingress] at h
    split_ifs at h with hq
    obtain ⟨r₁,hacc,heq⟩ := Option.map_eq_some_iff.1 h
    cases heq
    exact ⟨rfl,hq,hacc⟩

theorem learnLease_cases (r : FrameRouter) (p : ℕ) (src : MAC) (pkt : IPv4Packet) :
    r.learnLease p src pkt = r ∨ ∃ ip, r.learnLease p src pkt = r.learnNodeIP p ip := by
  simp only [learnLease,learnDHCPRequestedIP]
  split_ifs
  · cases parseRouterUDP pkt.l4Payload with
    | none => exact .inl rfl
    | some udp =>
      simp only
      split_ifs
      · exact .inl rfl
      · cases parseRouterDHCPRequest udp.body with
        | none => exact .inl rfl
        | some request =>
          simp only
          split_ifs
          · exact .inl rfl
          · exact .inr ⟨_,rfl⟩
  · exact .inl rfl

theorem forward_cases (r : FrameRouter) (p : ℕ) (f : EthernetFrame) (pkt : IPv4Packet)
    (sub : ℤ) (frame : Bytes) :
    let s := r.learnGateway p f.dst
    let sent := r.forward p f pkt sub frame
    sent.router = s ∧ (sent.forwarded = none ∨
      ∃ tgt, s.targetFor pkt.dstIP sub = some tgt ∧ 1 < pkt.ttl ∧
        sent.forwarded = some (tgt,forwardFrame frame pkt.headerLen pkt.ttl
          ((s.heap tgt).mac.getD .zero) (s.heap tgt).sourceMAC)) := by
  simp only [forward]
  cases (r.learnGateway p f.dst).targetFor pkt.dstIP sub with
  | none => simp
  | some tgt =>
    simp only
    split_ifs with httl
    · simp
    · exact ⟨rfl,.inr ⟨tgt,rfl,UInt8.not_le.1 httl,rfl⟩⟩

theorem routeIPv4_cases (r : FrameRouter) (p : ℕ) (f : EthernetFrame) (pkt : IPv4Packet)
    (frame : Bytes) :
    let s := r.learnLease p f.src pkt
    r.routeIPv4 p f pkt frame = ⟨s,false,none⟩ ∨
      ∃ sub, s.owner pkt.srcIP (s.heap p).subnet = some p ∧
        talosboxSubnet pkt.dstIP = some sub ∧ sub ≠ (s.heap p).subnet ∧
        r.routeIPv4 p f pkt frame = s.forward p f pkt sub frame := by
  simp only [routeIPv4]
  split_ifs with hsrc
  · exact .inl rfl
  · cases talosboxSubnet pkt.dstIP with
    | none => exact .inl rfl
    | some sub =>
      simp only
      split_ifs with hoth
      · exact .inl rfl
      · exact .inr ⟨sub,not_not.1 hsrc,rfl,fun heq => hoth (.inl heq),rfl⟩

/-- A frame is ignored, or comes through a port that may speak and is an ARP message or a packet. -/
theorem route_cases (r : FrameRouter) (port : Option ℕ) (frame : Bytes) :
    r.route port frame = ⟨r,false,none⟩ ∨
      ∃ f p r₁, parseRouterEthernetFrame frame = some f ∧ r.ingress port f.src = some (p,r₁) ∧
        (r.route port frame = ⟨r₁.learnARPSender p f.src f.payload,false,none⟩ ∨
          ∃ pkt, parseRouterIPv4Packet f.payload = some pkt ∧
            r.route port frame = r₁.routeIPv4 p f pkt frame) := by
  simp only [route]
  cases parseRouterEthernetFrame frame with
  | none => exact .inl rfl
  | some f =>
    simp only
    split_ifs
    · cases hing : r.ingress port f.src with
      | none => exact .inl rfl
      | some a => exact .inr ⟨f,a.1,a.2,rfl,hing,.inl rfl⟩
    · cases hpkt : parseRouterIPv4Packet f.payload with
      | none => exact .inl rfl
      | some pkt =>
        simp only
        cases hing : r.ingress port f.src with
        | none => exact .inl rfl
        | some a => exact .inr ⟨f,a.1,a.2,rfl,hing,.inr ⟨pkt,hpkt,rfl⟩⟩
    · exact .inl rfl

theorem removePort_cases (r : FrameRouter) (port : Option ℕ) :
    r.removePort port = r ∨ ∃ p, port = some p ∧ p ∈ r.ports ∧
      r.removePort port = { r.modify p fun port => { port with closed := true } with
        ports := r.ports.erase p
        ipToPort := fun ip =>
          if ip ∈ (r.heap p).ips ∧ r.ipToPort ip = some p then none else r.ipToPort ip } := by
  cases port with
  | none => exact .inl rfl
  | some p =>
    by_cases hp : p ∈ r.ports
    · exact .inr ⟨p,rfl,hp,by simp only [removePort,hp,not_true_eq_false,↓reduceIte]⟩
    · exact .inl (by simp only [removePort,hp,not_false_eq_true,↓reduceIte])

end

end FrameRouter

/-- The operations that reach the router. -/
inductive Op
  | addPort (subnet : ℤ)
  | route (port : Option ℕ) (frame : Bytes)
  | learnRoutedVIP (hostRoute nexthop : String)
  | forgetRoutedVIP (hostRoute : String)
  | removePort (port : Option ℕ)

def FrameRouter.step (parseIP4 : String → Option IP) (r : FrameRouter) : Op → FrameRouter
  | .addPort subnet => r.addPort subnet
  | .route port frame => (r.route port frame).router
  | .learnRoutedVIP hostRoute nexthop => r.learnRoutedVIP parseIP4 hostRoute nexthop
  | .forgetRoutedVIP hostRoute => r.forgetRoutedVIP parseIP4 hostRoute
  | .removePort port => r.removePort port

/-- The router after any interleaving of operations. -/
def FrameRouter.run (parseIP4 : String → Option IP) (ops : List Op) : FrameRouter :=
  ops.foldl (FrameRouter.step parseIP4) newFrameRouter

end TalosBox.Router
