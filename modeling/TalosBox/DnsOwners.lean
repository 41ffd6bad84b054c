import TalosBox.DnsAuthority

/-! Which cluster resolves a name. Domains may nest; a name belongs to the cluster whose domain,
label for label, is its longest end. -/
namespace TalosBox.Dns

open List
open Router (Bytes IP)
open Reservations (maxSubnetIndex)

lemma splitOn_dotted (front domain : Bytes) :
    (front++dot::domain).splitOn dot = front.splitOn dot++domain.splitOn dot :=
  splitOn_append_cons_self front domain

/-- A name is under a domain exactly if it ends in the domain's labels. -/
theorem underDomain_iff_labels {name domain : Bytes} :
    underDomain name domain ↔ domain.splitOn dot <:+ name.splitOn dot := by
  rw [underDomain_eq_true]
  constructor
  · rintro (rfl | ⟨front,rfl⟩)
    · exact suffix_rfl
    · rw [splitOn_dotted]
      exact suffix_append _ _
  · intro hsuf
    have hlbs := suffix_iff_eq_drop.1 hsuf
    have hdom : joinLabels (domain.splitOn dot) = domain := intercalate_splitOn dot
    have hnm : joinLabels (name.splitOn dot) = name := intercalate_splitOn dot
    have hpos : 0 < (domain.splitOn dot).length := length_pos_of_ne_nil (splitOn_ne_nil _ _)
    cases hfrt : (name.splitOn dot).length - (domain.splitOn dot).length with
    | zero =>
      left
      rw [hfrt,drop_zero] at hlbs
      rw [← hnm,← hdom,hlbs]
    | succ i =>
      right
      rw [hfrt] at hlbs
      have hjo := joinLabels_drop_suffix (show i+1 < (name.splitOn dot).length by omega)
      rwa [← hlbs,hdom,hnm] at hjo

variable (lib : Lowering)

/-- A cluster's domain as it is compared with names. -/
def Cluster.zone (c : Cluster) : Bytes := lib.toLower c.effectiveDomain

/-- The cluster has a domain, and the name ends in its labels. -/
def Cluster.Over (c : Cluster) (name : Bytes) : Prop :=
  c.zone lib ≠ [] ∧ (c.zone lib).splitOn dot <:+ (canonicalName lib name).splitOn dot

/-- The cluster with the longest domain the name ends in. -/
structure Owner (clusters : List Cluster) (name : Bytes) (owner : Cluster) : Prop where
  mem : owner ∈ clusters
  covers : owner.Over lib name
  longest : ∀ c ∈ clusters, c.Over lib name → (c.zone lib).length ≤ (owner.zone lib).length

variable {lib} {clusters : List Cluster} {name : Bytes}

lemma over_iff {c : Cluster} : c.Over lib name ↔
    c.zone lib ≠ [] ∧ underDomain (canonicalName lib name) (c.zone lib) := by
  rw [Cluster.Over,underDomain_iff_labels]

/-- Of the domains a name ends in there is one of each length. -/
theorem zone_eq_of_length {c d : Cluster} (hc : c.Over lib name) (hd : d.Over lib name)
    (hlen : (c.zone lib).length = (d.zone lib).length) : c.zone lib = d.zone lib := by
  have hen : ∀ {e : Cluster}, e.Over lib name → e.zone lib <:+ canonicalName lib name := by
    intro e he
    rcases underDomain_eq_true.1 (over_iff.1 he).2 with heq | hsuf
    · rw [heq]
    · exact (suffix_cons dot _).trans hsuf
  exact (suffix_of_suffix_length_le (hen hc) (hen hd) hlen.le).eq_of_length hlen

theorem Owner.unique (hdst : (clusters.map (Cluster.zone lib)).Nodup) {c d : Cluster}
    (hc : Owner lib clusters name c) (hd : Owner lib clusters name d) : c = d := by
  have hlen := le_antisymm (hd.longest c hc.mem hc.covers) (hc.longest d hd.mem hd.covers)
  exact inj_on_of_nodup_map hdst hc.mem hd.mem (zone_eq_of_length hc.covers hd.covers hlen)

/-- What the loop of `Resolve` has found among the clusters it has seen. -/
def Found (lib : Lowering) (clusters : List Cluster) (name : Bytes) (found : Option Cluster × Bytes) : Prop :=
  (∀ owner, found.1 = some owner → Owner lib clusters name owner ∧ found.2 = owner.zone lib) ∧
    (found.1 = none → found.2 = [] ∧ ∀ c ∈ clusters, ¬ c.Over lib name)

variable {found : Option Cluster × Bytes}

/-- A cluster is passed over that does not cover the name or is no longer than what was found. -/
theorem ownerStep_keep {item : Cluster}
    (h : item.Over lib name → (item.zone lib).length ≤ found.2.length) :
    ownerStep lib (canonicalName lib name) found item = found := by
  show (if (item.zone lib).length ≤ found.2.length then found
    else if underDomain (canonicalName lib name) (item.zone lib) then (some item,item.zone lib) else found) = found
  split_ifs with hle hund
  · rfl
  · have hne : item.zone lib ≠ [] := by
      intro hnil
      rw [hnil] at hle
      exact hle (Nat.zero_le _)
    exact absurd (h (over_iff.2 ⟨hne,hund⟩)) hle
  · rfl

theorem ownerStep_take {item : Cluster} (hov : item.Over lib name)
    (h : found.2.length < (item.zone lib).length) :
    ownerStep lib (canonicalName lib name) found item = (some item,item.zone lib) := by
  show (if (item.zone lib).length ≤ found.2.length then found
    else if underDomain (canonicalName lib name) (item.zone lib) then (some item,item.zone lib) else found) = _
  rw [if_neg (not_le.2 h),if_pos (over_iff.1 hov).2]

theorem found_ownerStep (h : Found lib clusters name found) (item : Cluster) :
    Found lib (clusters++[item]) name (ownerStep lib (canonicalName lib name) found item) := by
  obtain ⟨hso,hnn⟩ := h
  by_cases hke : item.Over lib name → (item.zone lib).length ≤ found.2.length
  · rw [ownerStep_keep hke]
    refine ⟨fun owner how => ?_,fun hno => ?_⟩
    · obtain ⟨ho,hzo⟩ := hso owner how
      refine ⟨⟨mem_append_left _ ho.mem,ho.covers,fun c hc hov => ?_⟩,hzo⟩
      rcases mem_append.1 hc with hc | hc
      · exact ho.longest c hc hov
      · obtain rfl := mem_singleton.1 hc
        rw [← hzo]
        exact hke hov
    · obtain ⟨hnil,hnob⟩ := hnn hno
      refine ⟨hnil,fun c hc hov => ?_⟩
      rcases mem_append.1 hc with hc | hc
      · exact hnob c hc hov
      · obtain rfl := mem_singleton.1 hc
        have hle := hke hov
        rw [hnil,length_nil,Nat.le_zero,length_eq_zero_iff] at hle
        exact hov.1 hle
  · obtain ⟨hov,hlonger⟩ := Classical.not_imp.1 hke
    rw [ownerStep_take hov (not_le.1 hlonger)]
    refine ⟨fun owner how => ?_,nofun⟩
    cases how
    refine ⟨⟨by simp,hov,fun c hc hc' => ?_⟩,rfl⟩
    rcases mem_append.1 hc with hc | hc
    · cases hfnd : found.1 with
      | none => exact absurd hc' ((hnn hfnd).2 c hc)
      | some owner =>
        obtain ⟨ho,hzo⟩ := hso owner hfnd
        rw [hzo] at hlonger
        exact (ho.longest c hc hc').trans (not_le.1 hlonger).le
    · rw [mem_singleton.1 hc]

theorem found_foldl (lib : Lowering) (clusters : List Cluster) (name : Bytes) :
    Found lib clusters name (clusters.foldl (ownerStep lib (canonicalName lib name)) (none,[])) := by
  induction clusters using reverseRecOn with
  | nil => exact ⟨nofun,fun _ => ⟨rfl,nofun⟩⟩
  | append_singleton clusters item ih =>
    rw [foldl_append]
    exact found_ownerStep ih item

variable {owner : Cluster}

theorem foldl_of_owner (hdst : (clusters.map (Cluster.zone lib)).Nodup)
    (how : Owner lib clusters name owner) :
    clusters.foldl (ownerStep lib (canonicalName lib name)) (none,[]) = (some owner,owner.zone lib) := by
  obtain ⟨hso,hnn⟩ := found_foldl lib clusters name
  rcases hfo : clusters.foldl (ownerStep lib (canonicalName lib name)) (none,[]) with ⟨found,zone⟩
  rw [hfo] at hso hnn
  cases found with
  | none => exact absurd how.covers ((hnn rfl).2 owner how.mem)
  | some other =>
    obtain ⟨hoth,hzo⟩ := hso other rfl
    obtain rfl := hoth.unique hdst how
    rw [show zone = _ from hzo]

theorem Owner.singleton (h : Owner lib clusters name owner) : Owner lib [owner] name owner where
  mem := mem_singleton_self owner
  covers := h.covers
  longest c hc _ := by rw [mem_singleton.1 hc]

theorem Owner.perm {clusters' : List Cluster} (hpe : clusters.Perm clusters')
    (h : Owner lib clusters name owner) : Owner lib clusters' name owner where
  mem := hpe.subset h.mem
  covers := h.covers
  longest c hc := h.longest c (hpe.symm.subset hc)

theorem exists_owner (lib : Lowering) (clusters : List Cluster) (name : Bytes) :
    (∃ owner, Owner lib clusters name owner) ∨ ∀ c ∈ clusters, ¬ c.Over lib name := by
  obtain ⟨hso,hnn⟩ := found_foldl lib clusters name
  cases hfnd : (clusters.foldl (ownerStep lib (canonicalName lib name)) (none,[])).1 with
  | none => exact .inr (hnn hfnd).2
  | some owner => exact .inl ⟨owner,(hso owner hfnd).1⟩

variable {lease : Bytes → ℤ → Option IP}

theorem resolve_of_owner (hdst : (clusters.map (Cluster.zone lib)).Nodup)
    (how : Owner lib clusters name owner) :
    resolve lib name clusters lease = resolve lib name [owner] lease := by
  have hfo := foldl_of_owner hdst how
  have hone : ([owner].map (Cluster.zone lib)).Nodup := nodup_singleton _
  have hsingle := foldl_of_owner hone how.singleton
  simp only [resolve,hfo,hsingle]

theorem resolve_of_nobody (h : ∀ c ∈ clusters, ¬ c.Over lib name) : resolve lib name clusters lease = none := by
  obtain ⟨hso,-⟩ := found_foldl lib clusters name
  simp only [resolve]
  split
  · rfl
  · rename_i owner zone hfo
    rw [hfo] at hso
    exact absurd (hso owner rfl).1.covers (h owner (hso owner rfl).1.mem)

/-- A node goes by the name in its cluster. -/
def Cluster.Named (lib : Lowering) (owner : Cluster) (name : Bytes) (node : Node) : Prop :=
  canonicalName lib name = lib.toLower node.name++dot::owner.zone lib

theorem resolve_eq_some (hdst : (clusters.map (Cluster.zone lib)).Nodup)
    (how : Owner lib clusters name owner) {ip : IP} (h : resolve lib name clusters lease = some ip) :
    (∃ node ∈ owner.nodes, owner.Named lib name node ∧ lease node.mac owner.subnetIndex = some ip) ∨
      (∀ node ∈ owner.nodes, ¬ owner.Named lib name node) ∧ ip = ⟨172,30,.ofNat owner.subnetIndex.toNat,200⟩ := by
  simp only [resolve,foldl_of_owner hdst how] at h
  by_cases hapex : canonicalName lib name = owner.zone lib
  · rw [if_pos hapex] at h
    cases h
  rw [if_neg hapex] at h
  by_cases hidx : owner.subnetIndex < 0 ∨ maxSubnetIndex < owner.subnetIndex
  · rw [if_pos hidx] at h
    cases h
  rw [if_neg hidx] at h
  split at h
  · rename_i node hnd
    have hnamed := find?_some hnd
    rw [decide_eq_true_iff] at hnamed
    exact .inl ⟨node,mem_of_find?_eq_some hnd,hnamed,h⟩
  · rename_i hnn
    refine .inr ⟨fun node hnd hnamed => ?_,(Option.some.inj h).symm⟩
    exact find?_eq_none.1 hnn node hnd (decide_eq_true hnamed)

/-- A cluster and one whose domain is inside the other's, both with a node. -/
def nested : List Cluster :=
  [⟨ascii "demo",ascii "lab.test",1,[⟨ascii "cp-1",ascii "52:54:00:00:00:01"⟩]⟩,
    ⟨ascii "stage",ascii "staging.lab.test",2,[⟨ascii "cp-1",ascii "52:54:00:00:00:02"⟩]⟩]

/-- Only the leases of the first subnet are there. -/
def firstSubnet (_ : Bytes) (index : ℤ) : Option IP := if index = 1 then some ⟨172,30,1,10⟩ else none

end TalosBox.Dns
