import TalosBox.RouterOwnership

/-! Who may send a forwarded frame, who receives it, and that it is the packet that came in, one hop
older. -/
namespace TalosBox.Router
namespace FrameRouter

variable {r : FrameRouter} {p : ℕ}

/-- The part of a port that leases, VIPs and gateways do not touch. -/
def identity (r : FrameRouter) (q : ℕ) : ℤ × Option MAC := ((r.heap q).subnet,(r.heap q).mac)

theorem modify_identity {f : Port → Port} (hsub : (f (r.heap p)).subnet = (r.heap p).subnet)
    (hmac : (f (r.heap p)).mac = (r.heap p).mac) : (r.modify p f).identity = r.identity := by
  funext q
  by_cases hq : q = p
  · subst hq
    simp only [identity,modify_heap_self,hsub,hmac]
  · simp only [identity,modify_heap_of_ne f hq]

theorem dropLease_identity (r : FrameRouter) (p : ℕ) : (r.dropLease p).identity = r.identity := by
  cases hnd : (r.heap p).nodeIP with
  | none => simp [dropLease,hnd]
  | some old =>
    simp only [dropLease,hnd]
    exact modify_identity (f := fun port => { port with ips := port.ips.erase old }) rfl rfl

theorem learnNodeIP_identity (ip : IP) : (r.learnNodeIP p ip).identity = r.identity := by
  simp only [learnNodeIP]
  split_ifs
  · rfl
  · rfl
  · rfl
  · refine Eq.trans ?_ (dropLease_identity r p)
    exact modify_identity
      (f := fun port => { port with nodeIP := some ip,ips := insert ip port.ips }) rfl rfl

theorem learnLease_identity (src : MAC) (pkt : IPv4Packet) :
    (r.learnLease p src pkt).identity = r.identity := by
  rcases r.learnLease_cases p src pkt with heq | ⟨ip,heq⟩
  · rw [heq]
  · rw [heq]
    exact learnNodeIP_identity ip

theorem learnGateway_identity (dst : MAC) : (r.learnGateway p dst).identity = r.identity := by
  simp only [learnGateway]
  split_ifs
  · exact modify_identity rfl rfl
  · rfl

lemma subnet_of_identity {r₁ r₂ : FrameRouter} (h : r₁.identity = r₂.identity) (q : ℕ) :
    (r₁.heap q).subnet = (r₂.heap q).subnet := congrArg Prod.fst (congrFun h q)

lemma mac_of_identity {r₁ r₂ : FrameRouter} (h : r₁.identity = r₂.identity) (q : ℕ) :
    (r₁.heap q).mac = (r₂.heap q).mac := congrArg Prod.snd (congrFun h q)

theorem learnGateway_owner (dst : MAC) (ip : IP) (subnet : ℤ) :
    (r.learnGateway p dst).owner ip subnet = r.owner ip subnet := by
  have hsub := subnet_of_identity (learnGateway_identity (r := r) (p := p) dst)
  have htables : (r.learnGateway p dst).ipToPort = r.ipToPort ∧
      (r.learnGateway p dst).routedVIPs = r.routedVIPs := by
    simp only [learnGateway]
    split_ifs <;> exact ⟨rfl,rfl⟩
  simp only [owner,boundPort,hsub,htables]

lemma boundPort_subnet {ip : IP} {subnet : ℤ} (h : r.boundPort ip subnet = some p) :
    (r.heap p).subnet = subnet := by
  simpa using (Option.filter_eq_some_iff.1 h).2

theorem owner_subnet {ip : IP} {subnet : ℤ} (h : r.owner ip subnet = some p) :
    (r.heap p).subnet = subnet := by
  simp only [owner] at h
  cases hbd : r.boundPort ip subnet with
  | some q =>
    simp only [hbd] at h
    exact boundPort_subnet (h ▸ hbd)
  | none =>
    simp only [hbd] at h
    cases hrt : r.routedVIPs ip with
    | none => simp [hrt] at h
    | some nexthop =>
      simp only [hrt] at h
      exact boundPort_subnet h

/-- A port that may speak is registered and carries its frame's source MAC. -/
theorem ingress_eq_some {port : Option ℕ} {src : MAC} {r₁ : FrameRouter}
    (h : r.ingress port src = some (p,r₁)) :
    port = some p ∧ p ∈ r.ports ∧ (r₁.heap p).mac = some src := by
  obtain ⟨hpo,hp,hacc⟩ := ingress_cases h
  refine ⟨hpo,hp,?_⟩
  rcases acceptPortSourceMAC_cases hacc with ⟨rfl,hmac⟩ | rfl
  · exact hmac
  · simp

/-- What it takes to forward a packet, in the router as it stands when it is sent. -/
structure Forwards (r : FrameRouter) (p : ℕ) (packet : IPv4Packet) (target : ℕ) : Prop where
  source : r.owner packet.srcIP (r.heap p).subnet = some p
  destination : ∃ dstSubnet, talosboxSubnet packet.dstIP = some dstSubnet ∧
    dstSubnet ≠ (r.heap p).subnet ∧ r.owner packet.dstIP dstSubnet = some target
  other : target ≠ p
  known : (r.heap target).mac.isSome
  alive : 1 < packet.ttl

theorem routeIPv4_forwarded {f : EthernetFrame} {pkt : IPv4Packet} {frame out : Bytes} {tgt : ℕ}
    (h : (r.routeIPv4 p f pkt frame).forwarded = some (tgt,out)) :
    (r.routeIPv4 p f pkt frame).router.identity = r.identity ∧
    (r.routeIPv4 p f pkt frame).router.Forwards p pkt tgt ∧
    out = forwardFrame frame pkt.headerLen pkt.ttl
      (((r.routeIPv4 p f pkt frame).router.heap tgt).mac.getD .zero)
      ((r.routeIPv4 p f pkt frame).router.heap tgt).sourceMAC := by
  have hlse := learnLease_identity (r := r) (p := p) f.src pkt
  rcases r.routeIPv4_cases p f pkt frame with heq | ⟨sub,hsrc,hdst,hoth,heq⟩
  · simp [heq] at h
  rw [heq] at h ⊢
  generalize r.learnLease p f.src pkt = s at *
  have hgate := learnGateway_identity (r := s) (p := p) f.dst
  have how := learnGateway_owner (r := s) (p := p) f.dst
  have hsub := subnet_of_identity hgate
  obtain ⟨hrouter,hno | ⟨q,htg,httl,hsent⟩⟩ := s.forward_cases p f pkt sub frame
  · simp [hno] at h
  rw [hrouter]
  cases (hsent.symm.trans h)
  obtain ⟨hq,hmac⟩ := Option.filter_eq_some_iff.1 htg
  have hdiffer : sub ≠ ((s.learnGateway p f.dst).heap p).subnet := by rwa [hsub]
  refine ⟨hgate.trans hlse,⟨?_,⟨sub,hdst,hdiffer,hq⟩,?_,hmac,httl⟩,rfl⟩
  · rw [how,hsub]
    exact hsrc
  · rintro rfl
    exact hdiffer (owner_subnet hq).symm

end FrameRouter

/-- The frame sent out is the one that came in but for addresses, TTL and header checksum. -/
structure Rewritten (frame out : Bytes) (packet : IPv4Packet) (targetMAC sourceMAC : MAC) : Prop where
  length : out.length = frame.length
  unchanged : ∀ k, 12 ≤ k → k ≠ 22 → k ≠ 24 → k ≠ 25 → byteAt out k = byteAt frame k
  destination : macAt out 0 = targetMAC
  source : macAt out 6 = sourceMAC
  ttl : byteAt out 22 = packet.ttl-1
  checksum : uint16At out 24 =
    routerInternetChecksum (((putUint16 out 24 0).drop 14).take packet.headerLen)

lemma routerInternetChecksum_lt (l : Bytes) : routerInternetChecksum l < 65536 := by
  simp only [routerInternetChecksum]
  omega

theorem forwardFrame_rewritten {frame : Bytes} {f : EthernetFrame} {pkt : IPv4Packet}
    {targetMAC sourceMAC : MAC} (hf : parseRouterEthernetFrame frame = some f)
    (hpkt : parseRouterIPv4Packet f.payload = some pkt) :
    Rewritten frame (forwardFrame frame pkt.headerLen pkt.ttl targetMAC sourceMAC) pkt
      targetMAC sourceMAC := by
  have hmacs := (parseRouterEthernetFrame_eq_some (parseRouterEthernetFrame_forwardFrame
    pkt.headerLen pkt.ttl targetMAC sourceMAC hf)).2
  simp only [EthernetFrame.mk.injEq] at hmacs
  obtain ⟨hmin,-,hfits⟩ := parseRouterIPv4Packet_headerLen hpkt
  obtain ⟨hlen,rfl⟩ := parseRouterEthernetFrame_eq_some hf
  simp only [List.length_drop] at hfits
  refine ⟨length_forwardFrame (by omega),fun k h httl hhigh hlow => byteAt_forwardFrame h httl hhigh hlow,
    hmacs.1.symm,hmacs.2.1.symm,?_,?_⟩
  · simp only [forwardFrame,routerEthernetHeaderLen]
    rw [byteAt_putUint16_of_ne (by omega) (by omega),byteAt_set_of_ne (by omega),
      byteAt_set_of_ne (by omega),byteAt_set_self (by simp [MAC.toList]; omega)]
  · -- zeroing the field again gives back the header the checksum was taken over
    have hz : ∀ l : Bytes, (l.set 24 0).set 25 0 = putUint16 l 24 0 := fun _ => rfl
    simp only [forwardFrame,routerEthernetHeaderLen,hz,putUint16_putUint16]
    apply uint16At_putUint16 _ (routerInternetChecksum_lt _)
    simp [MAC.toList]
    omega

/-- A frame is forwarded only from a registered port, under its pinned MAC and an address it owns,
to another subnet's owner with a known MAC, and with hops left. What is sent is the frame rewritten
for the target, and parses as the same packet one hop older, with a header that checks. -/
theorem route_forwarded_sound (r : FrameRouter) {port : Option ℕ} {frame out : Bytes} {target : ℕ}
    (h : (r.route port frame).forwarded = some (target,out)) :
    let r' := (r.route port frame).router
    ∃ p f packet targetMAC, port = some p ∧ p ∈ r.ports ∧
      parseRouterEthernetFrame frame = some f ∧ parseRouterIPv4Packet f.payload = some packet ∧
      (r'.heap p).mac = some f.src ∧ r'.Forwards p packet target ∧
      (r'.heap target).mac = some targetMAC ∧
      Rewritten frame out packet targetMAC (r'.heap target).sourceMAC ∧
      ∃ g, parseRouterEthernetFrame out = some g ∧
        parseRouterIPv4Packet g.payload = some { packet with ttl := packet.ttl-1 } ∧
        routerInternetChecksum (g.payload.take packet.headerLen) = 0 := by
  intro r'
  obtain heq | ⟨f,p,r₁,hf,hing,heq | ⟨packet,hpkt,heq⟩⟩ := r.route_cases port frame
  · simp [heq] at h
  · simp [heq] at h
  simp only [r',heq] at h ⊢
  obtain ⟨hport,hregi,hpin⟩ := FrameRouter.ingress_eq_some hing
  obtain ⟨hiden,hforw,rfl⟩ := FrameRouter.routeIPv4_forwarded h
  obtain ⟨targetMAC,hmac⟩ := Option.isSome_iff_exists.mp hforw.known
  rw [hmac,Option.getD_some]
  obtain ⟨hmin,hmax,hfits⟩ := parseRouterIPv4Packet_headerLen hpkt
  exact ⟨p,f,packet,targetMAC,hport,hregi,hf,hpkt,
    (FrameRouter.mac_of_identity hiden p).trans hpin,hforw,rfl,
    forwardFrame_rewritten hf hpkt,_,
    parseRouterEthernetFrame_forwardFrame _ _ _ _ hf,
    parseRouterIPv4Packet_agedPacket hpkt,agedPacket_checksum hmin hmax hfits⟩

/-- Two ports that each announced a VIP. -/
def pairRouter : FrameRouter :=
  FrameRouter.run dottedIP4 [.addPort 240,.addPort 241,
    .route (some 1) (announceARP ⟨2,0,0,0,0xf0,2⟩ ⟨172,30,240,200⟩),
    .route (some 2) (announceARP ⟨2,0,0,0,0xf1,2⟩ ⟨172,30,241,200⟩)]

/-- An echo request between the VIPs, with 64 hops left and one word of options. -/
def echoFrame : Bytes :=
  let header := [0x46,0,0,32,0,0,0,0,64,1,0,0,172,30,240,200,172,30,241,200,1,1,1,0]
  [2,0,0,0,0xf0,1]++[2,0,0,0,0xf0,2]++[0x08,0x00] ++
    putUint16 header 10 (routerInternetChecksum header)++[8,0,0xf7,0xff,0,0,0,0]

/-- The frame the second port is handed. -/
def echoForwarded : Bytes :=
  forwardFrame echoFrame 24 64 ⟨2,0,0,0,0xf1,2⟩ (routerGatewayMACKey 241)

theorem echo_forwarded :
    (pairRouter.route (some 1) echoFrame).forwarded = some (2,echoForwarded) ∧
      ∃ f packet, parseRouterEthernetFrame echoForwarded = some f ∧
        parseRouterIPv4Packet f.payload = some packet := by
  have hsent : (pairRouter.route (some 1) echoFrame).forwarded = some (2,echoForwarded) := by
    decide
  obtain ⟨p,f,packet,targetMAC,-,-,-,-,-,-,-,-,g,hg,hpkt,-⟩ :=
    route_forwarded_sound pairRouter hsent
  exact ⟨hsent,g,_,hg,hpkt⟩

end TalosBox.Router
