import TalosBox.OnesComplement

/-! The frames the router reads and writes: Ethernet, IPv4, ARP, UDP and DHCP, and the rewriting of
a forwarded frame, which parses again as the same packet one hop older. -/
namespace TalosBox.Router

open OnesComplement List

abbrev Bytes := List UInt8

structure IP where
  a : UInt8
  b : UInt8
  c : UInt8
  d : UInt8
  deriving DecidableEq, Repr

structure MAC where
  m₀ : UInt8
  m₁ : UInt8
  m₂ : UInt8
  m₃ : UInt8
  m₄ : UInt8
  m₅ : UInt8
  deriving DecidableEq, Repr

def MAC.toList (m : MAC) : Bytes := [m.m₀,m.m₁,m.m₂,m.m₃,m.m₄,m.m₅]

/-- The byte at an offset the parsers have checked to be in range. -/
def byteAt (l : Bytes) (i : ℕ) : UInt8 := l.getD i 0

def uint16At (l : Bytes) (i : ℕ) : ℕ := (byteAt l i).toNat*256+(byteAt l (i+1)).toNat

def uint32At (l : Bytes) (i : ℕ) : ℕ := uint16At l i*65536+uint16At l (i+2)

def ipAt (l : Bytes) (i : ℕ) : IP := ⟨byteAt l i,byteAt l (i+1),byteAt l (i+2),byteAt l (i+3)⟩

def macAt (l : Bytes) (i : ℕ) : MAC :=
  ⟨byteAt l i,byteAt l (i+1),byteAt l (i+2),byteAt l (i+3),byteAt l (i+4),byteAt l (i+5)⟩

def routerEthernetHeaderLen : ℕ := 14
def routerEtherTypeIPv4 : ℕ := 0x0800
def routerEtherTypeARP : ℕ := 0x0806
def routerIPv4MinHeaderLen : ℕ := 20
def routerIPProtocolUDP : UInt8 := 17
def routerIPv4FlagMoreFragments : ℕ := 0x2000
def routerIPv4FragmentOffsetMask : ℕ := 0x1fff
def routerDHCPClientPort : ℕ := 68
def routerDHCPServerPort : ℕ := 67
def routerDHCPOptionMessageType : UInt8 := 53
def routerDHCPOptionRequestedIP : UInt8 := 50
def routerDHCPOptionServerID : UInt8 := 54
def routerDHCPOptionEnd : UInt8 := 255
def routerDHCPMessageRequest : UInt8 := 3
def routerDHCPMagicCookie : ℕ := 0x63825363
def routerARPOpRequest : ℕ := 1
def routerARPOpReply : ℕ := 2

/-- The checksum's loop over the words, in a 32-bit accumulator. -/
def addWords : Bytes → ℕ → ℕ
  | a::b::rest, sum => addWords rest ((sum+(a.toNat*256+b.toNat))%2^32)
  | [a], sum => (sum+a.toNat*256)%2^32
  | [], sum => sum

/-- Two end-around carries are all a 32-bit sum needs. -/
def routerInternetChecksum (payload : Bytes) : ℕ := 65535-fold 65536 2 (addWords payload 0)

structure EthernetFrame where
  dst : MAC
  src : MAC
  etherType : ℕ
  payload : Bytes

def parseRouterEthernetFrame (frame : Bytes) : Option EthernetFrame :=
  if frame.length < routerEthernetHeaderLen then none
  else some ⟨macAt frame 0,macAt frame 6,uint16At frame 12,frame.drop 14⟩

structure IPv4Packet where
  headerLen : ℕ
  ttl : UInt8
  protocol : UInt8
  fragmented : Bool
  srcIP : IP
  dstIP : IP
  l4Payload : Bytes

def parseRouterIPv4Packet (payload : Bytes) : Option IPv4Packet :=
  if payload.length < routerIPv4MinHeaderLen ∨ byteAt payload 0 >>> 4 ≠ 4 then none
  else
    let headerLen := (byteAt payload 0 &&& 0x0f).toNat*4
    if headerLen < routerIPv4MinHeaderLen ∨ payload.length < headerLen then none
    else
      let totalLen := uint16At payload 2
      if totalLen < headerLen ∨ payload.length < totalLen then none
      else if routerInternetChecksum (payload.take headerLen) ≠ 0 then none
      else
        let flagsOffset := uint16At payload 6
        some {
          headerLen := headerLen
          ttl := byteAt payload 8
          protocol := byteAt payload 9
          fragmented := flagsOffset &&& routerIPv4FlagMoreFragments ≠ 0 ∨
            flagsOffset &&& routerIPv4FragmentOffsetMask ≠ 0
          srcIP := ipAt payload 12
          dstIP := ipAt payload 16
          l4Payload := (payload.take totalLen).drop headerLen }

structure ARP where
  op : ℕ
  senderMAC : MAC
  senderIP : IP
  targetIP : IP

def parseRouterARP (payload : Bytes) : Option ARP :=
  if payload.length < 28 then none
  else if uint16At payload 0 ≠ 1 ∨ uint16At payload 2 ≠ routerEtherTypeIPv4 ∨
      byteAt payload 4 ≠ 6 ∨ byteAt payload 5 ≠ 4 then none
  else some ⟨uint16At payload 6,macAt payload 8,ipAt payload 14,ipAt payload 24⟩

structure UDP where
  srcPort : ℕ
  dstPort : ℕ
  body : Bytes

def parseRouterUDP (payload : Bytes) : Option UDP :=
  if payload.length < 8 then none
  else
    let length := uint16At payload 4
    if length < 8 ∨ payload.length < length then none
    else some ⟨uint16At payload 0,uint16At payload 2,(payload.take length).drop 8⟩

/-- What the option loop has seen so far. -/
structure DHCPOptions where
  requestedIP : Option IP
  serverIP : Option IP
  messageType : UInt8

def DHCPOptions.record (o : DHCPOptions) (option : UInt8) (value : Bytes) : DHCPOptions :=
  if option = routerDHCPOptionMessageType then
    if value.length = 1 then { o with messageType := byteAt value 0 } else o
  else if option = routerDHCPOptionRequestedIP then
    if value.length = 4 then { o with requestedIP := some (ipAt value 0) } else o
  else if option = routerDHCPOptionServerID then
    if value.length = 4 then { o with serverIP := some (ipAt value 0) } else o
  else o

def dhcpOptions (payload : Bytes) (i : ℕ) (o : DHCPOptions) : Option DHCPOptions :=
  if i < payload.length then
    let option := byteAt payload i
    if option = 0 then dhcpOptions payload (i+1) o
    else if option = routerDHCPOptionEnd then some o
    else if payload.length ≤ i+1 then none
    else
      let length := (byteAt payload (i+1)).toNat
      if payload.length < i+2+length then none
      else dhcpOptions payload (i+2+length)
        (o.record option ((payload.drop (i+2)).take length))
  else some o
termination_by payload.length-i

structure DHCPRequest where
  requestedIP : IP
  serverIP : Option IP
  clientMAC : MAC
  messageType : UInt8

def parseRouterDHCPRequest (payload : Bytes) : Option DHCPRequest :=
  if payload.length < 240 ∨ byteAt payload 0 ≠ 1 ∨ byteAt payload 1 ≠ 1 ∨ byteAt payload 2 ≠ 6 then
    none
  else if uint32At payload 236 ≠ routerDHCPMagicCookie then none
  else do
    let o ← dhcpOptions payload 240 ⟨none,none,0⟩
    let requestedIP ← o.requestedIP
    return ⟨requestedIP,o.serverIP,macAt payload 28,o.messageType⟩

/-- `PutUint16` over the two bytes at an offset. -/
def putUint16 (l : Bytes) (i c : ℕ) : Bytes := (l.set i (.ofNat (c/256))).set (i+1) (.ofNat (c%256))

/-- The copy `route` sends on: new addresses, one hop less, a fresh header checksum. -/
def forwardFrame (frame : Bytes) (headerLen : ℕ) (ttl : UInt8) (targetMAC sourceMAC : MAC) : Bytes :=
  let forwarded := targetMAC.toList++sourceMAC.toList++frame.drop 12
  let forwarded := forwarded.set (routerEthernetHeaderLen+8) (ttl-1)
  let forwarded := (forwarded.set (routerEthernetHeaderLen+10) 0).set (routerEthernetHeaderLen+11) 0
  let header := (forwarded.drop routerEthernetHeaderLen).take headerLen
  putUint16 forwarded (routerEthernetHeaderLen+10) (routerInternetChecksum header)

section

theorem addWords_eq (l : Bytes) (sum : ℕ) (hsum : sum+wordSum l < 2^32) :
    addWords l sum = sum+wordSum l := by
  fun_induction addWords l sum with
  | case1 a b rest sum ih =>
    simp only [wordSum] at hsum ⊢
    have hmod : (sum+(a.toNat*256+b.toNat))%2^32 = sum+(a.toNat*256+b.toNat) :=
      Nat.mod_eq_of_lt (lt_of_le_of_lt (Nat.add_le_add_left (Nat.le_add_right _ _) _) hsum)
    rw [← add_assoc] at hsum
    rw [hmod] at ih ⊢
    rw [ih hsum,add_assoc]
  | case2 a sum =>
    exact Nat.mod_eq_of_lt hsum
  | case3 => simp [wordSum]

/-- An IPv4 header is too short for the 32-bit accumulator to wrap. -/
theorem routerInternetChecksum_eq {l : Bytes} (hl : l.length ≤ 60) :
    routerInternetChecksum l = 65535-fold 65536 2 (wordSum l) := by
  have hle := wordSum_le l
  rw [routerInternetChecksum,addWords_eq l 0 (by omega),zero_add]

/-- A header that carries the checksum of itself with the field zeroed checks. -/
theorem routerInternetChecksum_putUint16 {header : Bytes} (hlen : 20 ≤ header.length)
    (hmax : header.length ≤ 60) (hhigh : byteAt header 10 = 0) (hlow : byteAt header 11 = 0) :
    routerInternetChecksum (putUint16 header 10 (routerInternetChecksum header)) = 0 := by
  have hsum := wordSum_le header
  obtain ⟨c,hc⟩ : ∃ c, c = 65535-fold 65536 2 (wordSum header) := ⟨_,rfl⟩
  have hset := wordSum_set header 5 (.ofNat (c/256)) (.ofNat (c%256)) (by omega)
  simp only [byteAt] at hhigh hlow
  simp only [Nat.reduceMul,Nat.reduceAdd,hhigh,hlow,UInt8.toNat_zero,UInt8.toNat_ofNat'] at hset
  have hword : wordSum (putUint16 header 10 c) = wordSum header+c := by
    simp only [putUint16,Nat.reduceAdd]
    omega
  rw [routerInternetChecksum_eq hmax,← hc,routerInternetChecksum_eq (by simp [putUint16,hmax]),
    hword,hc]
  have hones := fold_add_complement (B := 65536) (s := wordSum header) (by norm_num) (by omega)
  rw [hones]

end

section

variable {l : Bytes} {i j c : ℕ} {x : UInt8}

lemma byteAt_set_of_ne (h : i ≠ j) : byteAt (l.set i x) j = byteAt l j := by
  simp only [byteAt,getD_eq_getElem?_getD,getElem?_set_ne h]

lemma byteAt_set_self (h : i < l.length) : byteAt (l.set i x) i = x := by
  simp [byteAt,h]

lemma byteAt_drop (n : ℕ) : byteAt (l.drop n) i = byteAt l (n+i) := by
  simp [byteAt]

@[simp] lemma length_putUint16 : (putUint16 l i c).length = l.length := by simp [putUint16]

lemma byteAt_putUint16_of_ne (h : j ≠ i) (h' : j ≠ i+1) :
    byteAt (putUint16 l i c) j = byteAt l j := by
  rw [putUint16,byteAt_set_of_ne h'.symm,byteAt_set_of_ne h.symm]

theorem uint16At_putUint16 (hi : i+1 < l.length) (hc : c < 65536) :
    uint16At (putUint16 l i c) i = c := by
  have hhigh : byteAt (putUint16 l i c) i = .ofNat (c/256) := by
    rw [putUint16,byteAt_set_of_ne (by omega),byteAt_set_self (by omega)]
  have hlow : byteAt (putUint16 l i c) (i+1) = .ofNat (c%256) := by
    rw [putUint16,byteAt_set_self (by simpa using hi)]
  simp only [uint16At,hhigh,hlow,UInt8.toNat_ofNat']
  omega

lemma putUint16_putUint16 (c d : ℕ) : putUint16 (putUint16 l i c) i d = putUint16 l i d := by
  have hne : i+1 ≠ i := by omega
  simp only [putUint16,set_comm _ _ hne,set_set]

lemma take_putUint16 (n : ℕ) : (putUint16 l i c).take n = putUint16 (l.take n) i c := by
  simp only [putUint16,take_set]

lemma drop_putUint16 {n : ℕ} (h : i+1 < n) : (putUint16 l i c).drop n = l.drop n := by
  simp only [putUint16,drop_set,h,(by omega : i < n),↓reduceIte]

end

/-- The rewriting as it changes the packet: one hop less, a zeroed checksum. -/
def agedHeader (payload : Bytes) (ttl : UInt8) : Bytes := ((payload.set 8 (ttl-1)).set 10 0).set 11 0

/-- The packet of a forwarded frame. -/
def agedPacket (payload : Bytes) (headerLen : ℕ) (ttl : UInt8) : Bytes :=
  putUint16 (agedHeader payload ttl) 10
    (routerInternetChecksum ((agedHeader payload ttl).take headerLen))

section

variable {frame payload : Bytes} {headerLen : ℕ} {ttl : UInt8} {mac sourceMAC : MAC}

@[simp] lemma length_agedHeader : (agedHeader payload ttl).length = payload.length := by
  simp [agedHeader]

@[simp] lemma length_agedPacket : (agedPacket payload headerLen ttl).length = payload.length := by
  simp [agedPacket]

theorem byteAt_agedPacket {k : ℕ} (h₈ : k ≠ 8) (h₁₀ : k ≠ 10) (h₁₁ : k ≠ 11) :
    byteAt (agedPacket payload headerLen ttl) k = byteAt payload k := by
  rw [agedPacket,byteAt_putUint16_of_ne h₁₀ h₁₁,agedHeader,byteAt_set_of_ne h₁₁.symm,
    byteAt_set_of_ne h₁₀.symm,byteAt_set_of_ne h₈.symm]

theorem byteAt_agedPacket_ttl (hlen : 8 < payload.length) :
    byteAt (agedPacket payload headerLen ttl) 8 = ttl-1 := by
  rw [agedPacket,byteAt_putUint16_of_ne (by omega) (by omega),agedHeader,
    byteAt_set_of_ne (by omega),byteAt_set_of_ne (by omega),byteAt_set_self hlen]

theorem drop_agedPacket {n : ℕ} (h : 11 < n) (m : ℕ) :
    ((agedPacket payload headerLen ttl).take m).drop n = (payload.take m).drop n := by
  rw [agedPacket,take_putUint16,drop_putUint16 h]
  simp only [agedHeader,take_set,drop_set,h,(by omega : 10 < n),(by omega : 8 < n),
    ↓reduceIte]

/-- The aged header checks, whatever its options. -/
theorem agedPacket_checksum (hlen : 20 ≤ headerLen) (hmax : headerLen ≤ 60)
    (hpayl : headerLen ≤ payload.length) :
    routerInternetChecksum ((agedPacket payload headerLen ttl).take headerLen) = 0 := by
  rw [agedPacket,take_putUint16]
  apply routerInternetChecksum_putUint16
  · simpa using ⟨hlen,by omega⟩
  · simp [hmax]
  · rw [agedHeader,take_set,byteAt_set_of_ne (by omega),take_set,
      byteAt_set_self (by simp; omega)]
  · rw [agedHeader,take_set,byteAt_set_self (by simp; omega)]

theorem parseRouterIPv4Packet_headerLen {pkt : IPv4Packet}
    (h : parseRouterIPv4Packet payload = some pkt) :
    20 ≤ pkt.headerLen ∧ pkt.headerLen ≤ 60 ∧ pkt.headerLen ≤ payload.length := by
  simp only [parseRouterIPv4Packet] at h
  split_ifs at h with hver hhdr htot hchec
  cases h
  have hmax : (byteAt payload 0 &&& 0x0f).toNat*4 ≤ 60 := by
    have := Nat.and_le_right (n := (byteAt payload 0).toNat) (m := 15)
    simpa using Nat.mul_le_mul_right 4 this
  simp only [not_or,not_lt] at hhdr
  exact ⟨hhdr.1,hmax,hhdr.2⟩

/-- An aged packet parses as the packet it was, one hop older. -/
theorem parseRouterIPv4Packet_agedPacket {pkt : IPv4Packet}
    (h : parseRouterIPv4Packet payload = some pkt) :
    parseRouterIPv4Packet (agedPacket payload pkt.headerLen pkt.ttl) =
      some { pkt with ttl := pkt.ttl-1 } := by
  obtain ⟨-,hmax,-⟩ := parseRouterIPv4Packet_headerLen h
  simp only [parseRouterIPv4Packet] at h
  split_ifs at h with hver hhdr htot hchec
  cases h
  simp only [routerIPv4MinHeaderLen,not_or] at hver hhdr htot
  obtain ⟨hlen,hver⟩ := hver
  simp (disch := omega) only [parseRouterIPv4Packet,uint16At,ipAt,length_agedPacket,
    byteAt_agedPacket,byteAt_agedPacket_ttl,agedPacket_checksum,drop_agedPacket,
    routerIPv4MinHeaderLen]
  simp only [uint16At] at htot
  rw [if_neg (not_or.2 ⟨by omega,hver⟩),if_neg (by omega),if_neg (by omega),if_neg (by simp)]
  rfl

theorem byteAt_readdressed {k : ℕ} (h : 12 ≤ k) :
    byteAt (mac.toList++sourceMAC.toList++frame.drop 12) k = byteAt frame k := by
  have hlen : (mac.toList++sourceMAC.toList).length = 12 := rfl
  simp only [byteAt]
  rw [getD_append_right _ _ _ _ (by omega),hlen]
  have := byteAt_drop (l := frame) (i := k-12) 12
  rwa [byteAt,byteAt,Nat.add_sub_cancel' h] at this

/-- Outside the addresses, the TTL and the checksum nothing changes. -/
theorem byteAt_forwardFrame {k : ℕ} (h : 12 ≤ k) (httl : k ≠ 22) (hhigh : k ≠ 24) (hlow : k ≠ 25) :
    byteAt (forwardFrame frame headerLen ttl mac sourceMAC) k = byteAt frame k := by
  simp only [forwardFrame,routerEthernetHeaderLen]
  rw [byteAt_putUint16_of_ne hhigh hlow,byteAt_set_of_ne hlow.symm,byteAt_set_of_ne hhigh.symm,
    byteAt_set_of_ne httl.symm,byteAt_readdressed h]

@[simp] theorem length_forwardFrame (hlen : 12 ≤ frame.length) :
    (forwardFrame frame headerLen ttl mac sourceMAC).length = frame.length := by
  simp [forwardFrame,MAC.toList]
  omega

theorem drop_forwardFrame : (forwardFrame frame headerLen ttl mac sourceMAC).drop 14 =
    agedPacket (frame.drop 14) headerLen ttl := by
  have hbase : (mac.toList++(sourceMAC.toList++frame.drop 12)).drop 14 =
      frame.drop 14 := by
    simp [MAC.toList]
  simp [forwardFrame,agedPacket,agedHeader,putUint16,routerEthernetHeaderLen,drop_set,hbase]

theorem parseRouterEthernetFrame_eq_some {f : EthernetFrame}
    (h : parseRouterEthernetFrame frame = some f) :
    14 ≤ frame.length ∧ f = ⟨macAt frame 0,macAt frame 6,uint16At frame 12,frame.drop 14⟩ := by
  by_cases hsh : frame.length < routerEthernetHeaderLen
  · simp [parseRouterEthernetFrame,hsh] at h
  · rw [parseRouterEthernetFrame,if_neg hsh] at h
    exact ⟨not_lt.1 hsh,(Option.some.inj h).symm⟩

/-- A forwarded frame is addressed as told and carries the aged packet. -/
theorem parseRouterEthernetFrame_forwardFrame (headerLen : ℕ) (ttl : UInt8)
    (mac sourceMAC : MAC) {f : EthernetFrame}
    (h : parseRouterEthernetFrame frame = some f) :
    parseRouterEthernetFrame (forwardFrame frame headerLen ttl mac sourceMAC) =
      some ⟨mac,sourceMAC,f.etherType,agedPacket f.payload headerLen ttl⟩ := by
  obtain ⟨hlen,rfl⟩ := parseRouterEthernetFrame_eq_some h
  have hmac : ∀ k < 12, byteAt (forwardFrame frame headerLen ttl mac sourceMAC) k =
      byteAt (mac.toList++sourceMAC.toList++frame.drop 12) k := by
    intro k hk
    simp only [forwardFrame,routerEthernetHeaderLen]
    rw [byteAt_putUint16_of_ne (by omega) (by omega),byteAt_set_of_ne (by omega),
      byteAt_set_of_ne (by omega),byteAt_set_of_ne (by omega)]
  rw [parseRouterEthernetFrame,length_forwardFrame (by omega),
    if_neg (show ¬frame.length < routerEthernetHeaderLen from not_lt.2 hlen),drop_forwardFrame]
  simp (disch := omega) only [macAt,uint16At,hmac,byteAt_forwardFrame]
  rfl

end

end TalosBox.Router
