import TalosBox.FrameRouter

/-! The reservation table: every node has one MAC and one address of its cluster's subnet, and no
two share either. -/
namespace TalosBox.Reservations

open List
open Router (IP MAC)

structure Node where
  name : String
  mac : String
  ip : String
  deriving DecidableEq

structure Cluster where
  name : String
  subnetIndex : ℤ
  nodes : List Node
  deriving DecidableEq

def maxSubnetIndex : ℤ := 255
def firstNodeHost : UInt8 := 2
def lastNodeHost : UInt8 := 179

/-- The standard library's parsers. `parseIP4` is the address parser followed by `To4`. -/
structure Parsers where
  trimSpace : String → String
  parseMAC : String → Option (List UInt8)
  parseIP4 : String → Option IP

inductive MACError
  | unparsed
  | octets
  deriving DecidableEq

inductive ReservationError
  | subnetIndex (cluster : String) (index : ℤ)
  | mac (cluster node value : String) (cause : MACError)
  | address (cluster node value : String) (subnet : ℤ)
  /-- The address of the node that has the MAC already. -/
  | macTaken (mac : MAC) (holder : IP) (cluster node : String)
  | addressTaken (ip : IP) (holder cluster node : String)
  deriving DecidableEq

variable (lib : Parsers)

def canonicalMAC (value : String) : Except MACError MAC :=
  match lib.parseMAC (lib.trimSpace value) with
  | none => .error .unparsed
  | some [m₀,m₁,m₂,m₃,m₄,m₅] => .ok ⟨m₀,m₁,m₂,m₃,m₄,m₅⟩
  | some _ => .error .octets

def validReservationIP (ip : IP) (subnetIndex : ℤ) : Bool :=
  0 ≤ subnetIndex ∧ subnetIndex ≤ maxSubnetIndex ∧ ip.a = 172 ∧ ip.b = 30 ∧
    (ip.c.toNat : ℤ) = subnetIndex ∧ firstNodeHost ≤ ip.d ∧ ip.d ≤ lastNodeHost

structure Reservation where
  mac : MAC
  ip : IP
  subnetIndex : ℤ

/-- The two indexes under construction; the second keeps the names of the nodes. -/
structure Table where
  byMAC : MAC → Option Reservation
  byIP : IP → Option String

def Table.empty : Table := ⟨fun _ => none,fun _ => none⟩

def reserve (item : Cluster) (t : Table) (node : Node) : Except ReservationError Table :=
  match canonicalMAC lib node.mac with
  | .error e => .error (.mac item.name node.name node.mac e)
  | .ok mac =>
    match (lib.parseIP4 node.ip).filter (validReservationIP · item.subnetIndex) with
    | none => .error (.address item.name node.name node.ip item.subnetIndex)
    | some ip =>
      match t.byMAC mac with
      | some previous => .error (.macTaken mac previous.ip item.name node.name)
      | none =>
        match t.byIP ip with
        | some previous => .error (.addressTaken ip previous item.name node.name)
        | none => .ok ⟨Function.update t.byMAC mac (some ⟨mac,ip,item.subnetIndex⟩),
            Function.update t.byIP ip (some (item.name ++ "/" ++ node.name))⟩

def reserveCluster (t : Table) (item : Cluster) : Except ReservationError Table :=
  if item.subnetIndex < 0 ∨ maxSubnetIndex < item.subnetIndex then
    .error (.subnetIndex item.name item.subnetIndex)
  else item.nodes.foldlM (reserve lib item) t

def newReservationTable (clusters : List Cluster) : Except ReservationError Table :=
  clusters.foldlM (reserveCluster lib) Table.empty

/-- The MAC and the address of a node, where both are well formed. -/
def identity (item : Cluster) (node : Node) : Option (MAC × IP) :=
  match canonicalMAC lib node.mac,lib.parseIP4 node.ip with
  | .ok mac,some ip => if validReservationIP ip item.subnetIndex then some (mac,ip) else none
  | _,_ => none

def identities (clusters : List Cluster) : List (Option (MAC × IP)) :=
  clusters.flatMap fun item => item.nodes.map (identity lib item)

/-- Every cluster is on a subnet, every node has a MAC and an address of it, and no two share
either. -/
structure Valid (clusters : List Cluster) : Prop where
  subnet : ∀ item ∈ clusters, 0 ≤ item.subnetIndex ∧ item.subnetIndex ≤ maxSubnetIndex
  distinct : ∃ ids : List (MAC × IP), identities lib clusters = ids.map some ∧
    (ids.map Prod.fst).Nodup ∧ (ids.map Prod.snd).Nodup

/-- The indexes hold exactly these nodes. -/
structure Holds (t : Table) (ids : List (MAC × IP)) : Prop where
  byMAC : ∀ mac, t.byMAC mac = none ↔ mac ∉ ids.map Prod.fst
  byIP : ∀ ip, t.byIP ip = none ↔ ip ∉ ids.map Prod.snd
  macs : (ids.map Prod.fst).Nodup
  ips : (ids.map Prod.snd).Nodup

theorem update_eq_none_iff {κ ν : Type*} [DecidableEq κ] {f : κ → Option ν} {keys : List κ}
    (h : ∀ k, f k = none ↔ k ∉ keys) (key : κ) (value : ν) (k : κ) :
    Function.update f key (some value) k = none ↔ k ∉ keys++[key] := by
  by_cases hk : k = key
  · simp [hk]
  · rw [Function.update_of_ne hk,h k]
    simp [hk]

lemma holds_empty : Holds Table.empty [] :=
  ⟨by simp [Table.empty],by simp [Table.empty],nodup_nil,nodup_nil⟩

variable {lib} {item : Cluster} {t t' : Table} {ids : List (MAC × IP)}

theorem reserve_eq_ok {node : Node} (h : reserve lib item t node = .ok t') :
    ∃ mac ip, identity lib item node = some (mac,ip) ∧ t.byMAC mac = none ∧ t.byIP ip = none ∧
      t' = ⟨Function.update t.byMAC mac (some ⟨mac,ip,item.subnetIndex⟩),
        Function.update t.byIP ip (some (item.name ++ "/" ++ node.name))⟩ := by
  unfold reserve at h
  split at h
  · cases h
  rename_i mac hmac
  split at h
  · cases h
  rename_i ip hip
  obtain ⟨hprs,hval⟩ := Option.filter_eq_some_iff.1 hip
  split at h
  · cases h
  rename_i hfr
  split at h
  · cases h
  rename_i hfr'
  refine ⟨mac,ip,?_,hfr,hfr',by simpa using h.symm⟩
  simp only [identity,hmac,hprs]
  rw [if_pos hval]

theorem Holds.node (hh : Holds t ids) {node : Node} (h : reserve lib item t node = .ok t') :
    ∃ id, identity lib item node = some id ∧ Holds t' (ids++[id]) := by
  obtain ⟨mac,ip,hid,hmac,hip,rfl⟩ := reserve_eq_ok h
  refine ⟨(mac,ip),hid,?_⟩
  have hmac' := (hh.byMAC mac).1 hmac
  have hip' := (hh.byIP ip).1 hip
  refine ⟨?_,?_,?_,?_⟩
  · rw [map_append]
    exact update_eq_none_iff hh.byMAC mac _
  · rw [map_append]
    exact update_eq_none_iff hh.byIP ip _
  · rw [map_append,nodup_append_comm]
    exact nodup_cons.2 ⟨hmac',hh.macs⟩
  · rw [map_append,nodup_append_comm]
    exact nodup_cons.2 ⟨hip',hh.ips⟩

theorem Holds.nodes {nodes : List Node} (hh : Holds t ids)
    (h : nodes.foldlM (reserve lib item) t = .ok t') :
    ∃ new, nodes.map (identity lib item) = new.map some ∧ Holds t' (ids++new) := by
  induction nodes generalizing t ids with
  | nil =>
    obtain rfl : t = t' := by simpa [pure,Except.pure] using h
    exact ⟨[],rfl,by simpa using hh⟩
  | cons node nodes ih =>
    rw [foldlM_cons] at h
    cases hst : reserve lib item t node with
    | error e => simp [hst,bind,Except.bind] at h
    | ok t₁ =>
      simp only [hst] at h
      obtain ⟨id,hid,hh₁⟩ := hh.node hst
      obtain ⟨new,hnew,hh'⟩ := ih hh₁ h
      refine ⟨id::new,by simp [hid,hnew],?_⟩
      simpa using hh'

theorem Holds.clusters {clusters : List Cluster} (hh : Holds t ids)
    (h : clusters.foldlM (reserveCluster lib) t = .ok t') :
    (∀ item ∈ clusters, 0 ≤ item.subnetIndex ∧ item.subnetIndex ≤ maxSubnetIndex) ∧
      ∃ new, identities lib clusters = new.map some ∧ Holds t' (ids++new) := by
  induction clusters generalizing t ids with
  | nil =>
    obtain rfl : t = t' := by simpa [pure,Except.pure] using h
    exact ⟨by simp,[],rfl,by simpa using hh⟩
  | cons item clusters ih =>
    rw [foldlM_cons] at h
    cases hst : reserveCluster lib t item with
    | error e => simp [hst,bind,Except.bind] at h
    | ok t₁ =>
      simp only [hst] at h
      unfold reserveCluster at hst
      split at hst
      · cases hst
      obtain ⟨first,hfst,hh₁⟩ := hh.nodes hst
      obtain ⟨hrs,new,hnew,hh'⟩ := ih hh₁ h
      refine ⟨?_,first++new,?_,by simpa using hh'⟩
      · intro other hm
        rcases mem_cons.1 hm with rfl | hm
        · omega
        · exact hrs other hm
      · rw [identities,flatMap_cons,hfst,map_append,← hnew]
        rfl

theorem newReservationTable_valid {clusters : List Cluster}
    (h : newReservationTable lib clusters = .ok t) : Valid lib clusters := by
  obtain ⟨hsub,ids,hids,hh⟩ := holds_empty.clusters h
  exact ⟨hsub,ids,hids,by simpa using hh.macs,by simpa using hh.ips⟩

end TalosBox.Reservations
