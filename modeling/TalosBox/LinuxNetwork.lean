import TalosBox.KeyedFold
import TalosBox.HostSubnets

/-! The Linux helper's networking: which subnets get a bridge and which the nftables table forwards
and masquerades. Two calls converge the table, each from its own list of subnets. -/
namespace TalosBox.LinuxNetwork

open KeyedFold List
open Router (IP)
open Reservations (maxSubnetIndex)
open Subnets

structure LinkState where
  name : String
  aliasName : String
  addrs : List Addr

def linuxBridgePrefix : String := "br-tbx"
def linuxLinkAliasPrefix : String := "talos-box:"

def bridgeNameForSubnet (index : ℤ) : String := linuxBridgeName index
def bridgeAliasForSubnet (index : ℤ) : String := linuxBridgeAlias index
def tapAliasForSubnet (index : ℤ) : String := linuxLinkAliasPrefix ++ "tap:" ++ toString index

def hexDigits : List Char := "0123456789abcdef".toList

/-- The 32-bit FNV-1a sum. -/
def fnv32a (bytes : List UInt8) : UInt32 :=
  bytes.foldl (fun sum b => (sum ^^^ b.toUInt32) * 16777619) 2166136261

def tapNameForNode (subnetIndex : ℤ) (clusterName node : String) : String :=
  let sum := fnv32a (clusterName.toUTF8.toList++0::node.toUTF8.toList)
  let hex := (range 8).reverse.map fun i => hexDigits.getD (sum.toNat / 16^i % 16) '0'
  "tbx" ++ toString subnetIndex ++ "-" ++ String.ofList hex

def inRange (index : ℤ) : Bool := 0 ≤ index ∧ index ≤ maxSubnetIndex

def subnetIndexFromBridgeName (name : String) : Option ℤ :=
  if hasPrefix name linuxBridgePrefix then (atoi (trimPrefix name linuxBridgePrefix)).filter inRange
  else none

def subnetIndexFromTapName (name : String) : Option ℤ :=
  if hasPrefix name "tbx" then
    let text := trimPrefix name "tbx"
    match text.dropWhile (· ≠ '-') with
    | [] => none
    | _::hash =>
      if hash.length = 8 ∧ hash.all (fun c => c.toLower ∈ hexDigits) then
        (atoi (text.takeWhile (· ≠ '-'))).filter inRange
      else none
  else none

def ownedBridgeIndex (link : LinkState) : Option ℤ :=
  (subnetIndexFromBridgeName link.name).filter fun index => link.aliasName = bridgeAliasForSubnet index

def ownedTapIndex (link : LinkState) : Option ℤ :=
  (subnetIndexFromTapName link.name).filter fun index => link.aliasName = tapAliasForSubnet index

/-- `slices.Compact`: of equal neighbours one stays. -/
def compact : List ℤ → List ℤ
  | [] => []
  | [i] => [i]
  | i::j::l => if i = j then compact (j::l) else i::compact (j::l)

def sortCompact (indexes : List ℤ) : List ℤ := compact (indexes.insertionSort (· ≤ ·))

def managedSubnetIndexes (links : List LinkState) : List ℤ :=
  sortCompact (links.filterMap fun link => (ownedBridgeIndex link).or (ownedTapIndex link))

def normalizeLinuxSubnetIndexes (indexes : List ℤ) : List ℤ := sortCompact (indexes.filter inRange)

/-- What the host shows to one call. -/
structure Inspector where
  interfaces : Except String (List LinkState)
  route : IP → Except String HostRoute

/-- The host as the shared check sees it: an owned bridge goes by the exempted name, a foreign link
of that name does not. -/
def linuxClusterSources (inspector : Inspector) : Sources where
  interfaces := some (inspector.interfaces.map fun links => links.map fun link =>
    match ownedBridgeIndex link with
    | some index => ⟨"bridge" ++ toString (100+index),link.addrs⟩
    | none => ⟨link.name,link.addrs⟩)
  route := some fun destination =>
    (inspector.route destination).map fun route =>
      let links := inspector.interfaces.toOption.getD []
      match links.findSome? fun link => if link.name = route.interface then ownedBridgeIndex link else none with
      | some index => { route with interface := "bridge" ++ toString (100+index) }
      | none =>
        if (subnetIndexFromBridgeName route.interface).isSome then
          { route with interface := "foreign:" ++ route.interface }
        else route

def lowestSafeLinuxSubnet (inspector : Inspector) (reserved : List ℤ) : Option ℤ :=
  match inspector.interfaces with
  | .error _ => none
  | .ok links =>
    let managed := normalizeLinuxSubnetIndexes reserved++managedSubnetIndexes links
    let indexes := (range 256).map (fun n : ℕ => (n : ℤ))
    indexes.find? fun index =>
      index ∉ managed && match checkSubnetIndex index (linuxClusterSources inspector) with
        | .ok none => true
        | _ => false

inductive Refusal
  | check (cause : CheckError)
  /-- A broader route, through this interface. -/
  | warning (interface : String)
  deriving DecidableEq

/-- Why a subnet is refused, and the subnet to try instead. -/
structure PreflightError where
  conflict : Refusal
  hint : Option ℤ
  deriving DecidableEq

def preflightLinuxSubnet (index : ℤ) (inspector : Inspector) (reserved : List ℤ) : Except PreflightError Unit :=
  let refuse (conflict : Refusal) : Except PreflightError Unit :=
    .error ⟨conflict,(lowestSafeLinuxSubnet inspector reserved).filter (· ≠ index)⟩
  match checkSubnetIndex index (linuxClusterSources inspector) with
  | .ok none => .ok ()
  | .ok (some interface) => refuse (.warning interface)
  | .error e => refuse (.check e)

inductive NFTRuleKind
  | masquerade
  | forwardIn
  | forwardOut
  deriving DecidableEq

structure NFTRule where
  kind : NFTRuleKind
  chain : String
  bridge : String
  source : Option Network
  deriving DecidableEq

def linuxNFTRules (index : ℤ) : List NFTRule :=
  let bridge := bridgeNameForSubnet index
  [⟨.masquerade,"postrouting",bridge,subnetCIDR index⟩,⟨.forwardIn,"forward",bridge,none⟩,
    ⟨.forwardOut,"forward",bridge,none⟩]

def buildLinuxNFTPlan (subnetIndexes : List ℤ) : List NFTRule :=
  (normalizeLinuxSubnetIndexes subnetIndexes).flatMap linuxNFTRules

/-- What the host's operations answer to one call; `none` is success. -/
structure NetOps where
  ensureIPv4Forwarding : Option String
  ensureBridge : String → Option String
  ensureBridgeSTP : String → Bool → Option String
  ensureBridgeAddress : String → Network → Option String
  ensureLinkUp : String → Option String
  ensureInterfaceForwarding : String → Option String
  ensureManagedTaps : List ℤ → Option String
  createTap : String → String → Except String ℕ
  nftConverge : List ℤ → Option String

inductive CallError
  | host (cause : String)
  | preflight (cause : PreflightError)
  /-- Everything but these subnets was converged. -/
  | skipped (subnets : List (ℤ × PreflightError))

/-- The first failure of operations in order. -/
def firstFailure : List (Option String) → Option String := findSome? id

def ensureLinuxBridge (ops : NetOps) (subnetIndex : ℤ) : Option String :=
  let name := bridgeNameForSubnet subnetIndex
  firstFailure [ops.ensureBridge name,ops.ensureBridgeSTP name false,
    ops.ensureBridgeAddress name ⟨gateway subnetIndex,cidrMask 24⟩,ops.ensureLinkUp name,
    ops.ensureInterfaceForwarding name]

/-- The subnets the table was converged to, if it took them, and the answer. -/
structure Outcome (α : Type) where
  converged : Option (List ℤ)
  answer : Except CallError α

def convergeLinuxSubnets (ops : NetOps) (desired : List ℤ) : Outcome Unit :=
  match firstFailure (ops.ensureIPv4Forwarding::desired.map (ensureLinuxBridge ops) ++
      [ops.ensureManagedTaps desired,ops.nftConverge desired]) with
  | some cause => ⟨none,.error (.host cause)⟩
  | none => ⟨some desired,.ok ()⟩

/-- What the helper owns is kept, the others have to pass their preflight. -/
def selectSubnets (inspector : Inspector) (owned reserved : List ℤ) :
    List ℤ → List ℤ × List (ℤ × PreflightError)
  | [] => ([],[])
  | index::rest =>
    let (desired,skipped) := selectSubnets inspector owned reserved rest
    if index ∈ owned then (index::desired,skipped)
    else
      match preflightLinuxSubnet index inspector reserved with
      | .error e => (desired,(index,e)::skipped)
      | .ok () => (index::desired,skipped)

def convergeLinuxManagedState (inspector : Inspector) (ops : NetOps) (configured : List ℤ) : Outcome Unit :=
  let reserved := normalizeLinuxSubnetIndexes configured
  match inspector.interfaces with
  | .error cause => ⟨none,.error (.host cause)⟩
  | .ok links =>
    let (desired,skipped) := selectSubnets inspector (managedSubnetIndexes links) reserved reserved
    match convergeLinuxSubnets ops desired with
    | ⟨converged,.error e⟩ => ⟨converged,.error e⟩
    | ⟨converged,.ok ()⟩ => ⟨converged,if skipped = [] then .ok () else .error (.skipped skipped)⟩

def startLinuxAttachment (inspector : Inspector) (ops : NetOps) (configured : List ℤ) (subnetIndex : ℤ)
    (clusterName node : String) : Outcome ℕ :=
  match preflightLinuxSubnet subnetIndex inspector configured with
  | .error e => ⟨none,.error (.preflight e)⟩
  | .ok () =>
    match firstFailure [ops.ensureIPv4Forwarding,ensureLinuxBridge ops subnetIndex] with
    | some cause => ⟨none,.error (.host cause)⟩
    | none =>
      let normalized := normalizeLinuxSubnetIndexes configured
      let desired := if subnetIndex ∈ normalized then normalized
        else (normalized++[subnetIndex]).insertionSort (· ≤ ·)
      match ops.nftConverge desired with
      | some cause => ⟨none,.error (.host cause)⟩
      | none =>
        match ops.createTap (tapNameForNode subnetIndex clusterName node) (bridgeNameForSubnet subnetIndex) with
        | .error cause => ⟨some desired,.error (.host cause)⟩
        | .ok file => ⟨some desired,.ok file⟩

/-- A call with what the host answers to it. Between calls the host may change in any way. -/
inductive Call
  | converge (inspector : Inspector) (ops : NetOps) (configured : List ℤ)
  | attach (inspector : Inspector) (ops : NetOps) (configured : List ℤ) (subnetIndex : ℤ)
      (clusterName node : String)

namespace Call

def inspector : Call → Inspector
  | converge inspector .. => inspector
  | attach inspector .. => inspector

def converged : Call → Option (List ℤ)
  | converge inspector ops configured => (convergeLinuxManagedState inspector ops configured).converged
  | attach inspector ops configured subnetIndex clusterName node =>
    (startLinuxAttachment inspector ops configured subnetIndex clusterName node).converged

end Call

/-- The table, and the call that converged it last with the subnets it asked for. -/
structure Table where
  last : Option (Call × List ℤ)
  rules : List NFTRule

def step (t : Table) (c : Call) : Table :=
  match c.converged with
  | none => t
  | some asked => ⟨some (c,asked),buildLinuxNFTPlan asked⟩

def run (calls : List Call) : Table := calls.foldl step ⟨none,[]⟩

/-- A bridge or a tap of the subnet carries the alias of talosbox. -/
def Inspector.owns (inspector : Inspector) (index : ℤ) : Bool :=
  match inspector.interfaces with
  | .ok links => index ∈ managedSubnetIndexes links
  | .error _ => false

/-- Nothing else on the host uses the subnet. -/
def Inspector.safe (inspector : Inspector) (index : ℤ) : Bool :=
  checkSubnetIndex index (linuxClusterSources inspector) = .ok none

namespace Call

/-- The subnets whose preflight the call makes. -/
def preflights : Call → List ℤ
  | converge inspector _ configured =>
    (normalizeLinuxSubnetIndexes configured).filter fun index => !inspector.owns index
  | attach _ _ _ subnetIndex _ _ => [subnetIndex]

def passes : Call → ℤ → Bool
  | converge inspector _ configured,index =>
    preflightLinuxSubnet index inspector (normalizeLinuxSubnetIndexes configured) = .ok ()
  | attach inspector _ configured _ _ _,index => preflightLinuxSubnet index inspector configured = .ok ()

/-- Every subnet with rules was the helper's or passed a preflight, and one that is not and would
not has none. -/
structure Admits (c : Call) (asked : List ℤ) (rules : List NFTRule) : Prop where
  asked : ∀ index ∈ asked, c.inspector.owns index ∨ index ∈ c.preflights ∧ c.passes index
  rules : ∀ index, !c.inspector.owns index → !c.passes index →
    ∀ rule ∈ linuxNFTRules index, rule ∉ rules

/-- An attachment finds every other reserved subnet owned. -/
def vetted : Call → Bool
  | converge .. => true
  | attach inspector _ configured subnetIndex _ _ =>
    configured.all fun index => !inRange index || index = subnetIndex || inspector.owns index

end Call

theorem mem_compact {i : ℤ} : ∀ {l : List ℤ}, i ∈ compact l ↔ i ∈ l
  | [] => Iff.rfl
  | [_] => Iff.rfl
  | j::k::l => by
    have ih : i ∈ compact (k::l) ↔ i ∈ k::l := mem_compact
    rw [compact]
    split_ifs with h
    · subst h
      rw [ih]
      simp
    · simp only [mem_cons,ih]

@[simp] lemma mem_sortCompact {i : ℤ} {l : List ℤ} : i ∈ sortCompact l ↔ i ∈ l := by
  rw [sortCompact,mem_compact,mem_insertionSort]

@[simp] lemma mem_normalizeLinuxSubnetIndexes {i : ℤ} {l : List ℤ} :
    i ∈ normalizeLinuxSubnetIndexes l ↔ i ∈ l ∧ inRange i := by
  rw [normalizeLinuxSubnetIndexes,mem_sortCompact,mem_filter]

theorem preflightLinuxSubnet_eq_ok {index : ℤ} {insp : Inspector} {reserved : List ℤ} :
    preflightLinuxSubnet index insp reserved = .ok () ↔ insp.safe index := by
  unfold preflightLinuxSubnet Inspector.safe
  split <;> simp [*]

theorem Call.passes_eq (c : Call) (index : ℤ) : c.passes index = c.inspector.safe index := by
  cases c with
  | converge insp ops configured => simp [Call.passes,Call.inspector,preflightLinuxSubnet_eq_ok]
  | attach insp ops configured subnetIndex clusterName node =>
    simp [Call.passes,Call.inspector,preflightLinuxSubnet_eq_ok]

theorem mem_selectSubnets {insp : Inspector} {owned reserved l : List ℤ} {i : ℤ} :
    i ∈ (selectSubnets insp owned reserved l).1 ↔ i ∈ l ∧ (i ∈ owned ∨ insp.safe i) := by
  induction l with
  | nil => simp [selectSubnets]
  | cons index rest ih =>
    unfold selectSubnets
    split_ifs with hod
    · rw [mem_cons,ih,mem_cons]
      grind
    · cases hchk : preflightLinuxSubnet index insp reserved with
      | error e =>
        have hunsafe : ¬ insp.safe index := by
          intro hsafe
          have hok : preflightLinuxSubnet index insp reserved = .ok () :=
            preflightLinuxSubnet_eq_ok.2 hsafe
          rw [hchk] at hok
          cases hok
        grind
      | ok _ =>
        have hsafe := preflightLinuxSubnet_eq_ok.1 hchk
        grind

theorem convergeLinuxSubnets_converged {ops : NetOps} {desired asked : List ℤ}
    (h : (convergeLinuxSubnets ops desired).converged = some asked) : asked = desired := by
  unfold convergeLinuxSubnets at h
  split at h
  · cases h
  · exact (Option.some.inj h).symm

theorem mem_converged_of_converge {insp : Inspector} {ops : NetOps} {configured asked : List ℤ}
    (h : (convergeLinuxManagedState insp ops configured).converged = some asked) (i : ℤ) :
    i ∈ asked ↔ (i ∈ configured ∧ inRange i) ∧ (insp.owns i ∨ insp.safe i) := by
  unfold convergeLinuxManagedState at h
  cases hlinks : insp.interfaces with
  | error cause => simp [hlinks] at h
  | ok links =>
    have howns : insp.owns i ↔ i ∈ managedSubnetIndexes links := by
      simp [Inspector.owns,hlinks]
    simp only [hlinks] at h
    have hask : asked = (selectSubnets insp (managedSubnetIndexes links)
        (normalizeLinuxSubnetIndexes configured) (normalizeLinuxSubnetIndexes configured)).1 := by
      split at h
      · rename_i converged e heq
        exact convergeLinuxSubnets_converged (by rw [heq]; exact h)
      · rename_i converged heq
        exact convergeLinuxSubnets_converged (by rw [heq]; exact h)
    rw [hask,mem_selectSubnets,mem_normalizeLinuxSubnetIndexes,howns]

theorem mem_converged_of_attach {insp : Inspector} {ops : NetOps} {configured asked : List ℤ}
    {subnetIndex : ℤ} {clusterName node : String}
    (h : (startLinuxAttachment insp ops configured subnetIndex clusterName node).converged = some asked) :
    insp.safe subnetIndex ∧ ∀ i, i ∈ asked ↔ (i ∈ configured ∧ inRange i) ∨ i = subnetIndex := by
  unfold startLinuxAttachment at h
  split at h
  · cases h
  rename_i hpref
  split at h
  · cases h
  dsimp only at h
  refine ⟨preflightLinuxSubnet_eq_ok.1 hpref,fun i => ?_⟩
  have hask : asked = if subnetIndex ∈ normalizeLinuxSubnetIndexes configured then
      normalizeLinuxSubnetIndexes configured
      else (normalizeLinuxSubnetIndexes configured++[subnetIndex]).insertionSort (· ≤ ·) := by
    split at h
    · cases h
    · split at h <;> exact (Option.some.inj h).symm
  rw [hask]
  split_ifs with hmem
  · rw [mem_normalizeLinuxSubnetIndexes] at hmem ⊢
    constructor
    · exact .inl
    · rintro (hi | rfl)
      · exact hi
      · exact hmem
  · rw [mem_insertionSort,mem_append,mem_normalizeLinuxSubnetIndexes,mem_singleton]

/-- Rules name their subnet's bridge, so each belongs to one subnet. -/
theorem mem_buildLinuxNFTPlan {index : ℤ} {rule : NFTRule} {asked : List ℤ}
    (hrule : rule ∈ linuxNFTRules index) (hpn : rule ∈ buildLinuxNFTPlan asked) : index ∈ asked := by
  have hbridge : ∀ j, rule ∈ linuxNFTRules j → rule.bridge = bridgeNameForSubnet j := by
    intro j hj
    simp only [linuxNFTRules,mem_cons,not_mem_nil,or_false] at hj
    rcases hj with rfl | rfl | rfl <;> rfl
  obtain ⟨j,hj,hmem⟩ := mem_flatMap.1 hpn
  have hnm : linuxBridgeName index = linuxBridgeName j := (hbridge index hrule).symm.trans (hbridge j hmem)
  rw [linuxBridgeName_injective hnm]
  exact (mem_normalizeLinuxSubnetIndexes.1 hj).1

/-- The table is what the last converging call asked for. -/
def Table.Current (t : Table) : Prop :=
  ∀ c asked, t.last = some (c,asked) → c.converged = some asked ∧ t.rules = buildLinuxNFTPlan asked

theorem Table.Current.step {t : Table} (h : t.Current) (c : Call) : (step t c).Current := by
  intro c' asked' hla
  unfold LinuxNetwork.step at hla ⊢
  cases hc : c.converged with
  | none =>
    rw [hc] at hla
    exact h c' asked' hla
  | some asked =>
    rw [hc] at hla
    cases hla
    exact ⟨hc,rfl⟩

lemma run_current (calls : List Call) : (run calls).Current :=
  foldl_invariant (fun _ c _ h => h.step c) (fun _ _ h => by cases h)

/-- The subnets the table was last converged to were all the helper's or passed a preflight of that
call exactly if it found the other reserved subnets owned or was no attachment. -/
theorem last_convergence_admits (calls : List Call) (c : Call) (asked : List ℤ)
    (hlast : (run calls).last = some (c,asked)) :
    c.Admits asked (run calls).rules ↔ c.vetted := by
  obtain ⟨hconv,hrules⟩ := run_current calls c asked hlast
  suffices hask : (∀ i ∈ asked, c.inspector.owns i ∨ i ∈ c.preflights ∧ c.passes i) ↔ c.vetted by
    rw [← hask]
    refine ⟨Call.Admits.asked,fun h => ⟨h,fun index hownd hsafe rule hrule hmem => ?_⟩⟩
    rw [hrules] at hmem
    rcases h index (mem_buildLinuxNFTPlan hrule hmem) with ho | ⟨-,hs⟩
    · simp [ho] at hownd
    · simp [hs] at hsafe
  simp only [Call.passes_eq]
  cases c with
  | converge inspector ops configured =>
    refine ⟨fun _ => rfl,fun _ i hi => ?_⟩
    obtain ⟨hrese,hownd | hsafe⟩ := (mem_converged_of_converge hconv i).mp hi
    · exact .inl hownd
    · by_cases hownd : inspector.owns i = true
      · exact .inl hownd
      · refine .inr ⟨mem_filter.mpr ⟨mem_normalizeLinuxSubnetIndexes.mpr hrese,?_⟩,hsafe⟩
        simpa using hownd
  | attach inspector ops configured subnetIndex clusterName node =>
    obtain ⟨hsafe,hmem⟩ := mem_converged_of_attach hconv
    simp only [Call.vetted,all_eq_true,Bool.or_eq_true,decide_eq_true_eq]
    constructor
    · intro h i hi
      cases hrange : inRange i with
      | false => simp
      | true =>
        rcases h i ((hmem i).mpr (.inl ⟨hi,hrange⟩)) with hownd | ⟨hpre,-⟩
        · exact .inr hownd
        · exact .inl (.inr (mem_singleton.mp hpre))
    · intro h i hi
      have hself : i = subnetIndex → inspector.owns i = true ∨ i ∈ [subnetIndex] ∧ inspector.safe i = true := by
        rintro rfl
        exact .inr ⟨mem_singleton_self _,hsafe⟩
      rcases (hmem i).mp hi with ⟨hconf,hrange⟩ | heq
      · rcases h i hconf with (hout | heq) | hownd
        · simp [hrange] at hout
        · exact hself heq
        · exact .inl hownd
      · exact hself heq

/-! Two clusters are reserved, and something else has a route into the second one's subnet. -/

namespace Sample

def ops : NetOps where
  ensureIPv4Forwarding := none
  ensureBridge _ := none
  ensureBridgeSTP _ _ := none
  ensureBridgeAddress _ _ := none
  ensureLinkUp _ := none
  ensureInterfaceForwarding _ := none
  ensureManagedTaps _ := none
  createTap _ _ := .ok 7
  nftConverge _ := none

def foreignRoute (destination : IP) : Except String HostRoute :=
  .ok (if destination = firstNode 1 then ⟨"wg0",subnetCIDR 1,false⟩ else ⟨"",none,false⟩)

def bridge (index : ℤ) : LinkState :=
  ⟨bridgeNameForSubnet index,bridgeAliasForSubnet index,[.ipNet (some (gateway index)) (cidrMask 24)]⟩

/-- The host with these bridges on it. -/
def host (bridges : List ℤ) : Inspector := ⟨.ok (bridges.map bridge),foreignRoute⟩

def converge : Call := .converge (host []) ops [0,1]
def attach (bridges : List ℤ) : Call := .attach (host bridges) ops [0,1] 0 "demo" "cp-1"

end Sample

theorem owned_subnet_admitted :
    (run [Sample.converge,Sample.attach [0,1]]).last = some (Sample.attach [0,1],[0,1]) ∧
    (Sample.attach [0,1]).Admits [0,1] (run [Sample.converge,Sample.attach [0,1]]).rules := by
  have hlast : (run [Sample.converge,Sample.attach [0,1]]).last = some (Sample.attach [0,1],[0,1]) := by
    have hconv : (Sample.attach [0,1]).converged = some [0,1] := by decide
    simp [run,step,hconv]
  exact ⟨hlast,(last_convergence_admits _ _ _ hlast).mpr (by decide)⟩

/-- The attachment on the other subnet forwards and masquerades the captured one. -/
theorem captured_subnet_gets_rules :
    Sample.converge.converged = some [0] ∧ (Sample.attach [0]).converged = some [0,1] ∧
    (Sample.attach [0]).inspector.owns 1 = false ∧ (Sample.attach [0]).passes 1 = false ∧
    (∀ rule ∈ linuxNFTRules 1, rule ∈ (run [Sample.converge,Sample.attach [0]]).rules) ∧
    ¬ (Sample.attach [0]).Admits [0,1] (run [Sample.converge,Sample.attach [0]]).rules := by
  have hatta : (Sample.attach [0]).converged = some [0,1] := by decide
  have hownd : (Sample.attach [0]).inspector.owns 1 = false := by decide
  have hpss : (Sample.attach [0]).passes 1 = false := by decide
  refine ⟨by decide,hatta,hownd,hpss,?_,fun h => ?_⟩
  · simp only [run]
    decide
  · rcases h.asked 1 (by decide) with ho | ⟨-,hp⟩
    · simp [hownd] at ho
    · simp [hpss] at hp

end TalosBox.LinuxNetwork
