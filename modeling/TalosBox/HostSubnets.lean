import TalosBox.ReservationTable

/-! Whether a cluster's subnet is free on the host: the interfaces' addresses and the route into the
subnet. -/
namespace TalosBox.Subnets

open Router (IP)
open Reservations (maxSubnetIndex)

def IP.mask (ip m : IP) : IP := ⟨ip.a &&& m.a,ip.b &&& m.b,ip.c &&& m.c,ip.d &&& m.d⟩

structure Network where
  ip : IP
  mask : IP
  deriving DecidableEq

def Network.contains (n : Network) (ip : IP) : Bool := IP.mask n.ip n.mask = IP.mask ip n.mask

def networksOverlap (left right : Network) : Bool := left.contains right.ip || right.contains left.ip

/-- The mask of a prefix length. -/
def cidrMask (ones : ℕ) : IP :=
  let byte (i : ℕ) : UInt8 := .ofNat (256-2^(8-min 8 (ones-8*i)))
  ⟨byte 0,byte 1,byte 2,byte 3⟩

/-- The prefix length of a mask, if it is one. -/
def maskSize (mask : IP) : Option ℕ := (List.range 33).find? fun ones => cidrMask ones = mask

/-- One that is not IPv4 is `none`; an address of another type is given by what its text parses as.
-/
inductive Addr
  | ipNet (ip : Option IP) (mask : IP)
  | ipAddr (ip : Option IP)
  | other (parsed : Option (IP × Network))
  deriving DecidableEq

def ipv4Network : Addr → Option (IP × Network)
  | .ipNet ip mask => ip.map fun ip => (ip,⟨IP.mask ip mask,mask⟩)
  | .ipAddr ip => ip.map fun ip => (ip,⟨ip,cidrMask 32⟩)
  | .other parsed => parsed

def subnetCIDR (index : ℤ) : Option Network :=
  if 0 ≤ index ∧ index ≤ maxSubnetIndex then
    some ⟨⟨172,30,.ofNat index.toNat,0⟩,cidrMask 24⟩
  else none

def gateway (index : ℤ) : IP := ⟨172,30,.ofNat index.toNat,1⟩

/-- The address whose route is asked for. -/
def firstNode (index : ℤ) : IP := ⟨172,30,.ofNat index.toNat,2⟩

def linuxBridgeName (index : ℤ) : String := "br-tbx" ++ toString index
def linuxBridgeAlias (index : ℤ) : String := "talos-box:bridge:" ++ toString index

theorem toDigits_injective : Function.Injective (Nat.toDigits 10) := by
  intro m n h
  have := congrArg (fun ds => Nat.ofDigitChars 10 ds 0) h
  simpa using this

theorem toString_int_injective : Function.Injective (toString : ℤ → String) := by
  have hnat : ∀ n : ℕ, (toString (n : ℤ)).toList = Nat.toDigits 10 n := fun n => Nat.toList_repr
  have hneg : ∀ n : ℕ, (toString (Int.negSucc n)).toList = '-' :: Nat.toDigits 10 (n+1) := by
    intro n
    show ("-" ++ Nat.repr (n+1)).toList = _
    rw [String.toList_append,Nat.toList_repr]
    rfl
  have hsign : ∀ m n : ℕ, Nat.toDigits 10 m ≠ '-' :: Nat.toDigits 10 n := by
    intro m n h
    have hdg : Char.isDigit '-' :=
      Nat.isDigit_of_mem_toDigits (b := 10) (by decide) (by decide) (by rw [h]; simp)
    exact absurd hdg (by decide)
  intro i j h
  have hls := congrArg String.toList h
  cases i with
  | ofNat m =>
    cases j with
    | ofNat n =>
      rw [Int.ofNat_eq_natCast,Int.ofNat_eq_natCast,hnat,hnat] at hls
      rw [toDigits_injective hls]
    | negSucc n =>
      rw [Int.ofNat_eq_natCast,hnat,hneg] at hls
      exact absurd hls (hsign _ _)
  | negSucc m =>
    cases j with
    | ofNat n =>
      rw [Int.ofNat_eq_natCast,hnat,hneg] at hls
      exact absurd hls.symm (hsign _ _)
    | negSucc n =>
      rw [hneg,hneg,List.cons.injEq] at hls
      have := toDigits_injective hls.2
      omega

theorem linuxBridgeName_injective : Function.Injective linuxBridgeName := by
  intro i j h
  have hls := congrArg String.toList h
  rw [linuxBridgeName,linuxBridgeName,String.toList_append,String.toList_append] at hls
  exact toString_int_injective (String.toList_inj.1 (List.append_cancel_left hls))

/-- `strconv.Atoi`: an optional sign and decimal digits, within 64 bits. -/
def atoi (s : List Char) : Option ℤ :=
  let digits (ds : List Char) : Option ℤ :=
    if ds ≠ [] ∧ ds.all Char.isDigit then some (Nat.ofDigitChars 10 ds 0) else none
  let value : Option ℤ :=
    match s with
    | '-' :: ds => (digits ds).map fun n => -n
    | '+' :: ds => digits ds
    | ds => digits ds
  value.filter fun n => -2^63 ≤ n ∧ n < 2^63

def hasPrefix (s p : String) : Bool := p.toList.isPrefixOf s.toList

/-- Without the prefix, if it is there. -/
def trimPrefix (s p : String) : List Char :=
  if hasPrefix s p then s.toList.drop p.length else s.toList

def isVMNetBridgeName (name : String) : Bool :=
  let digits := trimPrefix name "bridge"
  digits ≠ name.toList && digits ≠ [] && digits.all Char.isDigit &&
    (atoi digits).any fun number => 100 ≤ number

def isHostBridgeName (name : String) (index : ℤ) : Bool :=
  name = linuxBridgeName index || isVMNetBridgeName name

def isTalosBoxBridgeName (name : String) (index : ℤ) : Bool :=
  name = linuxBridgeName index ||
    ((atoi (trimPrefix name "bridge")).any fun bridgeIndex =>
      hasPrefix name "bridge" && bridgeIndex = 100+index)

def isOwnBridgeAddress (ip : IP) (network : Network) (index : ℤ) : Bool :=
  maskSize network.mask = some 24 && ip = gateway index

def isTalosBoxBridge (name : String) (ip : IP) (network : Network) (index : ℤ) : Bool :=
  isOwnBridgeAddress ip network index && isTalosBoxBridgeName name index

structure HostInterface where
  name : String
  addrs : List Addr

/-- The route selected for an address; without one both its name and its network are empty. -/
structure HostRoute where
  interface : String
  network : Option Network
  looksLikeTunnel : Bool

/-- What the host answers; a source that is not configured is `none`. -/
structure Sources where
  interfaces : Option (Except String (List HostInterface))
  route : Option (IP → Except String HostRoute)

inductive InspectError
  | index
  | noInterfaces
  | interfaces (cause : String)
  | noRoutes
  | route (destination : IP) (cause : String)
  | incomplete (destination : IP)
  | mask (destination : IP)
  deriving DecidableEq

inductive Conflict
  | interface (name : String) (address : Addr)
  | route (network : Network) (interface : String)
  deriving DecidableEq

/-- A broader route than the subnet is no conflict, but a VPN may capture the traffic. -/
inductive Inspection
  | usable
  | warning (interface : String)
  | conflict (cause : Conflict)
  deriving DecidableEq

/-- The first address in the subnet that is not the cluster's own, or the own bridges. -/
def inspectAddrs (index : ℤ) (candidate : Network) (allowTalosBoxBridge attached : Bool) :
    List (String × Addr) → List String → Except Conflict (List String)
  | [],ownBridges => .ok ownBridges
  | (name,address)::rest,ownBridges =>
    let next := inspectAddrs index candidate allowTalosBoxBridge attached rest
    match ipv4Network address with
    | none => next ownBridges
    | some (ip,network) =>
      if !networksOverlap candidate network then next ownBridges
      else if allowTalosBoxBridge && isTalosBoxBridge name ip network index then next ownBridges
      else if attached && isOwnBridgeAddress ip network index && isHostBridgeName name index then
        next (name::ownBridges)
      else .error (.interface name address)

def inspectRoute (index : ℤ) (candidate : Network) (route : HostRoute) (allowTalosBoxBridge attached : Bool)
    (ownBridges : List String) : Except InspectError Inspection :=
  match route.network with
  | none => if route.interface = "" then .ok .usable else .error (.incomplete (firstNode index))
  | some network =>
    if route.interface = "" then .error (.incomplete (firstNode index))
    else if !networksOverlap candidate network then .ok .usable
    else if allowTalosBoxBridge && isTalosBoxBridgeName route.interface index then .ok .usable
    else if attached && route.interface ∈ ownBridges then .ok .usable
    else
      match maskSize network.mask with
      | none => .error (.mask (firstNode index))
      | some ones =>
        if ones = 0 then .ok (if route.looksLikeTunnel then .warning route.interface else .usable)
        else if 24 ≤ ones then .ok (.conflict (.route network route.interface))
        else .ok (.warning route.interface)

def inspectSubnet (index : ℤ) (interfaces : List HostInterface)
    (routeSource : Option (IP → Except String HostRoute)) (allowTalosBoxBridge attached : Bool) :
    Except InspectError Inspection :=
  match subnetCIDR index with
  | none => .error .index
  | some candidate =>
    let addrs := interfaces.flatMap fun current => current.addrs.map fun address => (current.name,address)
    match inspectAddrs index candidate allowTalosBoxBridge attached addrs [] with
    | .error cause => .ok (.conflict cause)
    | .ok ownBridges =>
      match routeSource with
      | none => .error .noRoutes
      | some routeOf =>
        match routeOf (firstNode index) with
        | .error cause => .error (.route (firstNode index) cause)
        | .ok route => inspectRoute index candidate route allowTalosBoxBridge attached ownBridges

inductive CheckError
  | inspect (cause : InspectError)
  | conflict (index : ℤ) (cause : Conflict)
  deriving DecidableEq

def readHostInterfaces (sources : Sources) : Except InspectError (List HostInterface) :=
  match sources.interfaces with
  | none => .error .noInterfaces
  | some (.error cause) => .error (.interfaces cause)
  | some (.ok interfaces) => .ok interfaces

/-- The guard in front of a new bridge; the answer is a warning's interface, if any. -/
def checkSubnetIndex (index : ℤ) (sources : Sources) : Except CheckError (Option String) :=
  if index < 0 ∨ maxSubnetIndex < index then .error (.inspect .index)
  else
    match readHostInterfaces sources with
    | .error e => .error (.inspect e)
    | .ok interfaces =>
      match inspectSubnet index interfaces sources.route true false with
      | .error e => .error (.inspect e)
      | .ok (.conflict cause) => .error (.conflict index cause)
      | .ok (.warning interface) => .ok (some interface)
      | .ok .usable => .ok none

end TalosBox.Subnets
