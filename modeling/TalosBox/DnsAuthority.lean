import TalosBox.DnsRoundTrip
import TalosBox.ReservationTable
import TalosBox.KeyedFold

/-! Which names the daemon answers itself. An address comes from the clusters' state, authority from
the domains of its last successful read; a name with an address must not be sent to another
resolver. -/
namespace TalosBox.Dns

open List
open Router (Bytes IP)
open Reservations (maxSubnetIndex)

def ascii (s : String) : Bytes := s.toList.map fun c => .ofNat c.toNat

/-- `strings.ToLower` goes character by character, leaves the dot and lower case, and maps ASCII
letters as usual. -/
structure Lowering where
  toLower : Bytes → Bytes
  lowered : ∀ s, toLower (toLower s) = toLower s
  dotted : ∀ s t, toLower (s++dot::t) = toLower s++dot::toLower t
  plain : ∀ s : Bytes, (∀ c ∈ s, c < 128) → toLower s = s.map fun c => if 65 ≤ c ∧ c ≤ 90 then c+32 else c

structure Node where
  name : Bytes
  mac : Bytes

structure Cluster where
  name : Bytes
  domain : Bytes
  subnetIndex : ℤ
  nodes : List Node

def defaultDomainSuffix : Bytes := ascii "k8s.test"

def Cluster.effectiveDomain (c : Cluster) : Bytes :=
  if c.domain ≠ [] then c.domain else c.name++dot::defaultDomainSuffix

/-- Equal to the domain, or ending in a dot and the domain. -/
def underDomain (name domain : Bytes) : Bool := name = domain ∨ dot::domain <:+ name

inductive DomainError
  | long (name : Bytes)
  | fewLabels (name : Bytes)
  | labelLong (label : Bytes)
  | labelInvalid (label : Bytes)
  | rejectedTLD (name : Bytes)
  | reserved (name : Bytes)
  | shadowsDNS (name : Bytes)
  deriving DecidableEq

def isLowerAlphaNumeric (c : UInt8) : Bool := (97 ≤ c && c ≤ 122) || (48 ≤ c && c ≤ 57)

/-- `labelRe`: lower-case letters and digits, with hyphens inside. -/
def labelRe (label : Bytes) : Bool :=
  label.all (fun c => isLowerAlphaNumeric c || c = 45) && label.head?.any isLowerAlphaNumeric &&
    label.getLast?.any isLowerAlphaNumeric

def labelError (label : Bytes) : Option DomainError :=
  if 63 < label.length then some (.labelLong label)
  else if labelRe label = false then some (.labelInvalid label)
  else none

def rejectedTLDs : List Bytes := [ascii "local",ascii "localhost",ascii "invalid"]

def safe (name : Bytes) : Bool :=
  (name.splitOn dot).getLast?.any (fun tld => tld = ascii "test" || tld = ascii "internal") ||
    underDomain name (ascii "home.arpa")

variable (lib : Lowering)

def validate (input : Bytes) (allowUnsafe : Bool) : Except DomainError Bytes :=
  let name := lib.toLower (trimDot input)
  let labels := name.splitOn dot
  if 253 < name.length then .error (.long name)
  else if labels.length < 2 then .error (.fewLabels name)
  else
    match labels.findSome? labelError with
    | some e => .error e
    | none =>
      if labels.getLast?.any (· ∈ rejectedTLDs) then .error (.rejectedTLD name)
      else if name = defaultDomainSuffix then .error (.reserved name)
      else if safe name = false ∧ allowUnsafe = false then .error (.shadowsDNS name)
      else .ok name

def canonicalName (name : Bytes) : Bytes := lib.toLower (trimDot name)

/-- The loop of `Resolve`: the first cluster with the longest domain over the name. -/
def ownerStep (name : Bytes) (owner : Option Cluster × Bytes) (item : Cluster) : Option Cluster × Bytes :=
  let domain := lib.toLower item.effectiveDomain
  if domain.length ≤ owner.2.length then owner
  else if underDomain name domain then (some item,domain)
  else owner

/-- `lease` is the address read for a node's hardware address in a subnet, if it is IPv4. -/
def resolve (name : Bytes) (clusters : List Cluster) (lease : Bytes → ℤ → Option IP) : Option IP :=
  let name := canonicalName lib name
  match clusters.foldl (ownerStep lib name) (none,[]) with
  | (none,_) => none
  | (some owner,ownerDomain) =>
    if name = ownerDomain then none
    else if owner.subnetIndex < 0 ∨ maxSubnetIndex < owner.subnetIndex then none
    else
      match owner.nodes.find? fun node => name = lib.toLower node.name++dot::ownerDomain with
      | some node => lease node.mac owner.subnetIndex
      | none => some ⟨172,30,.ofNat owner.subnetIndex.toNat,200⟩

/-- The sentinel that claims every name. -/
def everyName : Bytes := ascii "*"

def authority (domains : List Bytes) (name : Bytes) : Bool :=
  let name := canonicalName lib name
  underDomain name defaultDomainSuffix || domains.any fun domain => domain = everyName || underDomain name domain

/-- The loop of `zone`, from suffix `i` up to the whole name. -/
def zoneFrom (authoritative : Bytes → Bool) (name : Bytes) (labels : List Bytes) : ℕ → Bytes
  | 0 => name
  | i+1 =>
    let candidate := joinLabels (labels.drop (i+1))
    if authoritative candidate then candidate else zoneFrom authoritative name labels i

def zone (authoritative : Bytes → Bool) (name : Bytes) : Bytes :=
  let name := canonicalName lib name
  let labels := name.splitOn dot
  zoneFrom authoritative name labels (labels.length-2)

structure Reply where
  forwarded : Bool
  message : Bytes

/-- `forward` is the resolver names are passed on to, if there is one, and what it answers. -/
def response (authoritative : Bytes → Bool) (lookup : Bytes → Bytes) (forward : Option (Bytes → Option Bytes))
    (query : Bytes) : Except MessageError Reply :=
  match parseQuestion query with
  | .error e => .error e
  | .ok q =>
    if authoritative q.name then (answer query lookup (zone lib authoritative q.name)).map (⟨false,·⟩)
    else
      match forward with
      | none => (answer query lookup []).map (⟨false,·⟩)
      | some forward =>
        match forward query with
        | some message => .ok ⟨true,message⟩
        | none => (errorAnswer query 2).map (⟨true,·⟩)

structure DomainSource where
  last : List Bytes
  everRead : Bool

def newDomainSource : DomainSource := ⟨[],false⟩

namespace DomainSource

def snapshot (s : DomainSource) : List Bytes := if s.everRead then s.last else [everyName]

/-- A read that fails changes nothing. -/
def refresh (s : DomainSource) : Option (List Cluster) → DomainSource
  | none => s
  | some clusters => ⟨clusters.map Cluster.effectiveDomain,true⟩

def run (reads : List (Option (List Cluster))) : DomainSource := reads.foldl refresh newDomainSource

end DomainSource

/-- The clusters of the last read that succeeded. -/
def lastRead (reads : List (Option (List Cluster))) : Option (List Cluster) := (reads.filterMap id).getLast?

variable {domain name : Bytes}

lemma underDomain_eq_true :
    underDomain name domain ↔ name = domain ∨ dot::domain <:+ name := by
  simp [underDomain]

theorem underDomain_of_dotted {front : Bytes} (h : underDomain name (front++dot::domain)) :
    underDomain name domain := by
  rw [underDomain_eq_true] at h ⊢
  right
  rcases h with rfl | h
  · exact suffix_append _ _
  · exact ((suffix_append front (dot::domain)).trans (suffix_cons dot _)).trans h

theorem getLast_of_underDomain (hdom : domain ≠ [])
    (h : underDomain name domain) : name.getLast? = domain.getLast? := by
  rcases underDomain_eq_true.1 h with rfl | ⟨front,rfl⟩
  · rfl
  · obtain ⟨c,tail,rfl⟩ := exists_cons_of_ne_nil hdom
    rw [getLast?_append_cons,getLast?_cons_cons]

/-- What a cluster's domain is once it has been validated: lower case and without a final dot. -/
structure Canonical (domain : Bytes) : Prop where
  lower : lib.toLower domain = domain
  bare : domain.getLast? ≠ some dot

lemma labelRe_nil : labelRe [] = false := rfl

theorem validate_canonical {input : Bytes} {allowUnsafe : Bool}
    (h : validate lib input allowUnsafe = .ok domain) : Canonical lib domain := by
  simp only [validate] at h
  cases hlbs : ((lib.toLower (trimDot input)).splitOn dot).findSome? labelError with
  | some e =>
    rw [hlbs] at h
    split_ifs at h
  | none =>
    rw [hlbs] at h
    split_ifs at h
    cases h
    refine ⟨lib.lowered _,fun hla => ?_⟩
    -- a final dot leaves an empty last label, which the pattern refuses
    obtain ⟨front,hfrt⟩ := getLast?_eq_some_iff.1 hla
    have hemp : [] ∈ (lib.toLower (trimDot input)).splitOn dot := by
      rw [hfrt,splitOn_append_cons_self]
      simp
    have hno := findSome?_eq_none_iff.1 hlbs [] hemp
    simp [labelError,labelRe_nil] at hno

/-- The state of a cluster as creation leaves it: the domain is empty or was validated. -/
def Stored (c : Cluster) : Prop := c.domain = [] ∨ ∃ input allowUnsafe, validate lib input allowUnsafe = .ok c.domain

variable {lib}

lemma defaultDomainSuffix_plain : lib.toLower defaultDomainSuffix = defaultDomainSuffix := by
  rw [lib.plain _ (by decide +kernel)]
  decide

theorem Stored.effectiveDomain_bare {c : Cluster} (h : Stored lib c) : c.effectiveDomain.getLast? ≠ some dot := by
  unfold Cluster.effectiveDomain
  split_ifs with hdom
  · obtain hnil | ⟨input,allowUnsafe,hval⟩ := h
    · exact absurd hnil hdom
    · exact (validate_canonical lib hval).bare
  · rw [getLast?_append_cons]
    decide

theorem effectiveDomain_ne_nil (c : Cluster) : c.effectiveDomain ≠ [] := by
  unfold Cluster.effectiveDomain
  split_ifs with hdom
  · exact hdom
  · simp

/-- A lower-cased domain covers nothing that the stored one, or the shared suffix, does not. -/
theorem Stored.underDomain_of_toLower {c : Cluster} (h : Stored lib c)
    (hnm : underDomain name (lib.toLower c.effectiveDomain)) :
    underDomain name defaultDomainSuffix ∨ underDomain name c.effectiveDomain := by
  by_cases hdom : c.domain = []
  · left
    have heff : c.effectiveDomain = c.name++dot::defaultDomainSuffix := by
      simp [Cluster.effectiveDomain,hdom]
    rw [heff,lib.dotted,defaultDomainSuffix_plain] at hnm
    exact underDomain_of_dotted hnm
  · right
    obtain hnil | ⟨input,allowUnsafe,hval⟩ := h
    · exact absurd hnil hdom
    · have heff : c.effectiveDomain = c.domain := by simp [Cluster.effectiveDomain,hdom]
      rwa [heff,(validate_canonical lib hval).lower,← heff] at hnm

theorem owner_underDomain (name : Bytes) (cls : List Cluster) {owner : Cluster}
    (h : cls.foldl (ownerStep lib name) (none,[]) = (some owner,domain)) :
    owner ∈ cls ∧ underDomain name (lib.toLower owner.effectiveDomain) := by
  have hinv : ∀ owner ∈ (cls.foldl (ownerStep lib name) (none,[])).1,
      owner ∈ cls ∧ underDomain name (lib.toLower owner.effectiveDomain) := by
    refine KeyedFold.foldl_invariant (I := fun s : Option Cluster × Bytes => ∀ owner ∈ s.1, owner ∈ cls ∧
      underDomain name (lib.toLower owner.effectiveDomain)) ?_ (by simp)
    intro s item hitem hs
    unfold ownerStep
    simp only
    split_ifs with hlen hund
    · exact hs
    · rintro _ ⟨⟩
      exact ⟨hitem,hund⟩
    · exact hs
  exact hinv owner (by simp [h])

theorem resolve_isSome {cls : List Cluster} {lease : Bytes → ℤ → Option IP}
    (h : (resolve lib name cls lease).isSome) :
    ∃ owner ∈ cls, underDomain (canonicalName lib name) (lib.toLower owner.effectiveDomain) := by
  unfold resolve at h
  simp only at h
  split at h
  · cases h
  · rename_i owner domain hfo
    exact ⟨owner,owner_underDomain _ cls hfo⟩

theorem authority_eq_true {doms : List Bytes} :
    authority lib doms name ↔
      underDomain (canonicalName lib name) defaultDomainSuffix ∨
        ∃ domain ∈ doms, domain = everyName ∨ underDomain (canonicalName lib name) domain := by
  simp [authority]

/-- Resolution lower-cases the domains, authority does not; on stored clusters that is the same. -/
theorem authority_of_resolve {cls : List Cluster} (hsr : ∀ c ∈ cls, Stored lib c)
    {lease : Bytes → ℤ → Option IP} (h : (resolve lib name cls lease).isSome) :
    authority lib (cls.map Cluster.effectiveDomain) name := by
  obtain ⟨owner,how,hund⟩ := resolve_isSome h
  rw [authority_eq_true]
  rcases (hsr owner how).underDomain_of_toLower hund with hsuf | hdom
  · exact .inl hsuf
  · exact .inr ⟨owner.effectiveDomain,mem_map_of_mem how,.inr hdom⟩

theorem run_eq (reads : List (Option (List Cluster))) :
    DomainSource.run reads = (lastRead reads).elim newDomainSource
      fun cls => ⟨cls.map Cluster.effectiveDomain,true⟩ := by
  induction reads using reverseRecOn with
  | nil => rfl
  | append_singleton reads read ih =>
    rw [DomainSource.run,foldl_append]
    change DomainSource.refresh (DomainSource.run reads) read = _
    cases read with
    | none => simpa [lastRead,DomainSource.refresh] using ih
    | some cls => simp [lastRead,DomainSource.refresh]

theorem snapshot_run (reads : List (Option (List Cluster))) :
    (DomainSource.run reads).snapshot =
      (lastRead reads).elim [everyName] fun cls => cls.map Cluster.effectiveDomain := by
  rw [run_eq]
  cases lastRead reads <;> rfl

theorem mem_of_lastRead {reads : List (Option (List Cluster))} {cls : List Cluster}
    (h : lastRead reads = some cls) : some cls ∈ reads := by
  have hmem := mem_of_getLast? h
  simpa using hmem

theorem joinLabels_drop_suffix {labels : List Bytes} {i : ℕ} (h : i+1 < labels.length) :
    dot::joinLabels (labels.drop (i+1)) <:+ joinLabels labels := by
  induction labels generalizing i with
  | nil => simp at h
  | cons label labels ih =>
    obtain ⟨next,rest,rfl⟩ := exists_cons_of_ne_nil (show labels ≠ [] by rintro rfl; simp at h)
    cases i with
    | zero => exact suffix_append _ _
    | succ i =>
      refine (ih (by simpa using h)).trans ?_
      exact (suffix_cons dot _).trans (suffix_append label _)

theorem zoneFrom_cases (authoritative : Bytes → Bool) (name : Bytes) (labels : List Bytes) (i : ℕ)
    (hi : i+1 < labels.length ∨ i = 0) :
    zoneFrom authoritative name labels i = name ∨
      authoritative (zoneFrom authoritative name labels i) ∧
        dot::zoneFrom authoritative name labels i <:+ joinLabels labels := by
  induction i with
  | zero => exact .inl rfl
  | succ i ih =>
    rw [zoneFrom]
    split_ifs with hcand
    · exact .inr ⟨hcand,joinLabels_drop_suffix (by omega)⟩
    · exact ih (by omega)

lemma trimDot_of_bare (h : name.getLast? ≠ some dot) : trimDot name = name := if_neg h

/-- A name that is authoritative stays so in canonical form, if the domains have no final dot. -/
theorem authority_canonicalName {doms : List Bytes} (hba : ∀ d ∈ doms, d ≠ [] ∧ d.getLast? ≠ some dot) (h : authority lib doms name) :
    authority lib doms (canonicalName lib name) := by
  -- a name under such a domain has no final dot either, so there is nothing left to trim
  have hcan {domain : Bytes} (hne : domain ≠ []) (hla : domain.getLast? ≠ some dot)
      (hund : underDomain (canonicalName lib name) domain) :
      canonicalName lib (canonicalName lib name) = canonicalName lib name := by
    have htrim := trimDot_of_bare (getLast_of_underDomain hne hund ▸ hla)
    conv_lhs => rw [canonicalName,htrim]
    exact lib.lowered _
  rw [authority_eq_true] at h ⊢
  rcases h with hsuf | ⟨domain,hmem,hevery | hund⟩
  · exact .inl (by rwa [hcan (by decide) (by decide) hsuf])
  · exact .inr ⟨domain,hmem,.inl hevery⟩
  · exact .inr ⟨domain,hmem,.inr (by rwa [hcan (hba domain hmem).1 (hba domain hmem).2 hund])⟩

theorem zone_spec {doms : List Bytes} (hba : ∀ d ∈ doms, d ≠ [] ∧ d.getLast? ≠ some dot)
    (h : authority lib doms name) :
    authority lib doms (zone lib (authority lib doms) name) ∧
      underDomain (canonicalName lib name) (zone lib (authority lib doms) name) := by
  have hjo : joinLabels ((canonicalName lib name).splitOn dot) = canonicalName lib name :=
    intercalate_splitOn dot
  rw [underDomain_eq_true]
  rcases zoneFrom_cases (authority lib doms) (canonicalName lib name) ((canonicalName lib name).splitOn dot)
      (((canonicalName lib name).splitOn dot).length-2) (by omega) with heq | ⟨hcand,hsuf⟩
  · rw [zone,heq]
    exact ⟨authority_canonicalName hba h,.inl rfl⟩
  · rw [hjo] at hsuf
    exact ⟨hcand,.inr hsuf⟩

theorem response_of_authoritative {authoritative : Bytes → Bool} {lookup : Bytes → Bytes}
    {forward : Option (Bytes → Option Bytes)} {query : Bytes} {q : Question} {reply : Reply}
    (hquery : parseQuestion query = .ok q) (hq : authoritative q.name)
    (h : response lib authoritative lookup forward query = .ok reply) : reply.forwarded = false := by
  simp only [response,hquery,hq,if_true] at h
  cases hans : answer query lookup (zone lib authoritative q.name) with
  | error e => simp [hans,Except.map] at h
  | ok message =>
    simp only [hans,Except.map,Except.ok.injEq] at h
    rw [← h]

theorem bare_snapshot_run {reads : List (Option (List Cluster))}
    (hsr : ∀ cls, some cls ∈ reads → ∀ c ∈ cls, Stored lib c) :
    ∀ d ∈ (DomainSource.run reads).snapshot, d ≠ [] ∧ d.getLast? ≠ some dot := by
  rw [snapshot_run]
  cases hrd : lastRead reads with
  | none => decide
  | some cls =>
    simp only [Option.elim_some,mem_map]
    rintro _ ⟨c,hc,rfl⟩
    exact ⟨effectiveDomain_ne_nil c,(hsr cls (mem_of_lastRead hrd) c hc).effectiveDomain_bare⟩

variable (lib) in
/-- Over all reads of stored clusters: a name with an address is authoritative and not forwarded,
every name is authoritative until a read succeeds, and the zone of an authoritative name is
authoritative and a suffix of it by labels. -/
theorem resolved_names_stay_local (reads : List (Option (List Cluster)))
    (hstor : ∀ clusters, some clusters ∈ reads → ∀ c ∈ clusters, Stored lib c) (name : Bytes) :
    let authoritative := authority lib (DomainSource.run reads).snapshot
    (∀ clusters lease, lastRead reads = some clusters → (resolve lib name clusters lease).isSome →
      authoritative name = true) ∧
    (lastRead reads = none → authoritative name = true) ∧
    (authoritative name = true →
      authoritative (zone lib authoritative name) = true ∧
      underDomain (canonicalName lib name) (zone lib authoritative name) = true ∧
      ∀ lookup forward query q reply, parseQuestion query = .ok q → q.name = name →
        response lib authoritative lookup forward query = .ok reply → reply.forwarded = false) := by
  refine ⟨?_,?_,?_⟩
  · intro clusters lease hread hreso
    rw [snapshot_run,hread]
    exact authority_of_resolve (hstor clusters (mem_of_lastRead hread)) hreso
  · intro hread
    rw [snapshot_run,hread,authority_eq_true]
    exact .inr ⟨everyName,by simp,.inl rfl⟩
  · intro hname
    obtain ⟨hzone,hund⟩ := zone_spec (bare_snapshot_run hstor) hname
    refine ⟨hzone,hund,?_⟩
    rintro lookup forward query q reply hquery rfl hrsp
    exact response_of_authoritative hquery hname hrsp

def lowerByte (c : UInt8) : UInt8 := if 65 ≤ c ∧ c ≤ 90 then c+32 else c

theorem lowerByte_lowerByte : ∀ c, lowerByte (lowerByte c) = lowerByte c := by
  rintro ⟨⟨c⟩⟩
  revert c
  decide +kernel

/-- Lower case on names of ASCII bytes. -/
def asciiLowering : Lowering where
  toLower := map lowerByte
  lowered s := by simp [lowerByte_lowerByte]
  dotted s t := by simp [show lowerByte dot = dot by decide]
  plain _ _ := rfl

def labCluster (domain : Bytes) : Cluster := ⟨ascii "demo",domain,1,[]⟩

theorem wildcard_name_stays_local :
    (resolve asciiLowering (ascii "Web.LAB.test.") [labCluster (ascii "lab.test")] fun _ _ => none).isSome ∧
      authority asciiLowering (DomainSource.run [none,some [labCluster (ascii "lab.test")],none]).snapshot
        (ascii "Web.LAB.test.") = true := by
  refine ⟨by decide +kernel,?_⟩
  refine (resolved_names_stay_local asciiLowering [none,some [labCluster (ascii "lab.test")],none] ?_
    (ascii "Web.LAB.test.")).1 [labCluster (ascii "lab.test")] (fun _ _ => none) rfl (by decide +kernel)
  simp only [mem_cons,not_mem_nil,or_false,reduceCtorEq,false_or,Option.some.injEq]
  rintro _ rfl c hc
  rw [mem_singleton.mp hc]
  exact .inr ⟨ascii "Lab.test.",false,by decide +kernel⟩

/-- A domain in upper case gives addresses to names it has no authority over. -/
theorem uppercase_domain_forwarded :
    let reads := [some [labCluster (ascii "Lab.test")]]
    lastRead reads = some [labCluster (ascii "Lab.test")] ∧
      (resolve asciiLowering (ascii "web.lab.test") [labCluster (ascii "Lab.test")] fun _ _ => none).isSome ∧
      authority asciiLowering (DomainSource.run reads).snapshot (ascii "web.lab.test") = false := by
  refine ⟨rfl,by decide +kernel,by decide +kernel⟩

end TalosBox.Dns
