import TalosBox.HelperState

/-! Which subnets the helper's clusters are on. Bridges, gateways, DNS listeners and teardowns go by
subnet index alone, so they belong to one cluster only while no two have the same; no push is
checked for that. -/
namespace TalosBox.HelperState

open List
open Reservations (Cluster Parsers)

/-- No two clusters are on one subnet. -/
def SubnetsDistinct (clusters : List Cluster) : Prop := (clusters.map (·.subnetIndex)).Nodup

/-- The subnets of one owner's clusters. -/
def subnetsOf (partitions : Partitions) (owner : UID) : List ℤ :=
  (clustersOf partitions owner).map (·.subnetIndex)

section

variable {lib : Parsers} {partitions : Partitions} {union : List Cluster}

theorem subnetsOf_of_lookup {partitions' : Partitions} {owner : UID}
    (h : partitions'.lookup owner = partitions.lookup owner) :
    subnetsOf partitions' owner = subnetsOf partitions owner := by
  simp only [subnetsOf,clustersOf,h]

theorem subnetsOf_insert (partitions : Partitions) (owner : UID) (input : List SyncedCluster) :
    subnetsOf (partitions.insert owner input) owner = input.map (·.subnetIndex) := by
  simp only [subnetsOf,clustersOf,Finmap.lookup_insert,map_map]
  rfl

lemma subnetsOf_eq_nil {owner : UID} (h : owner ∉ partitions) : subnetsOf partitions owner = [] := by
  simp [subnetsOf,clustersOf,Finmap.lookup_eq_none.2 h]

/-- The union's subnets are distinct exactly if every owner's are and no two owners share
one. -/
theorem Coherent.subnetsDistinct_iff (h : Coherent lib partitions union) :
    SubnetsDistinct union ↔ (∀ u, (subnetsOf partitions u).Nodup) ∧
      ∀ u v, u ≠ v → Disjoint (subnetsOf partitions u) (subnetsOf partitions v) := by
  have hmap : union.map (·.subnetIndex) =
      (partitions.keys.sort (· ≤ ·)).flatMap (subnetsOf partitions) := by
    rw [h.union_eq,map_flatMap]
    rfl
  unfold SubnetsDistinct
  rw [hmap,nodup_flatMap]
  have hmem : ∀ u, u ∈ partitions.keys.sort (· ≤ ·) ↔ u ∈ partitions := by
    intro u
    rw [Finset.mem_sort,Finmap.mem_keys]
  constructor
  · rintro ⟨hown,hpairs⟩
    have : Std.Symm (Function.onFun Disjoint (subnetsOf partitions)) :=
      ⟨fun _ _ hab => List.Disjoint.symm hab⟩
    refine ⟨fun u => ?_,fun u v huv => ?_⟩
    · by_cases hu : u ∈ partitions
      · exact hown u ((hmem u).2 hu)
      · rw [subnetsOf_eq_nil hu]
        exact nodup_nil
    · by_cases hu : u ∈ partitions
      · by_cases hv : v ∈ partitions
        · exact hpairs.forall ((hmem u).2 hu) ((hmem v).2 hv) huv
        · rw [subnetsOf_eq_nil hv]
          exact disjoint_nil_right _
      · rw [subnetsOf_eq_nil hu]
        exact disjoint_nil_left _
  · rintro ⟨hown,hpairs⟩
    refine ⟨fun u _ => hown u,?_⟩
    exact (partitions.keys.sort_nodup (· ≤ ·)).imp fun huv => hpairs _ _ huv

end

section

variable {Raw : Type} (lib : Parsers) (codec : StateCodec Raw)

/-- If the push is taken, its subnets are distinct and none is another owner's. -/
def Separate (s : State Raw) : Op → Prop
  | .replace owner input order fault =>
    (replace lib codec s owner input order fault).2 = none →
      (input.map (·.subnetIndex)).Nodup ∧ ∀ u, u ≠ owner →
        Disjoint (input.map (·.subnetIndex)) (subnetsOf s.memory.partitions u)
  | .restart _ => True

def SeparateRun : State Raw → List Op → Prop
  | _, [] => True
  | s, op::ops => Separate lib codec s op ∧ SeparateRun (step lib codec s op) ops

variable {lib codec} {s : State Raw}

/-- A push keeps the subnets distinct exactly if it is refused or keeps to itself. -/
theorem replace_subnetsDistinct_iff (huni : s.memory.United lib)
    (h : SubnetsDistinct s.memory.clusters) (owner : UID) (input : List SyncedCluster)
    (order : MapLoops.Order UID) (fault : Option Stage) :
    SubnetsDistinct (step lib codec s (.replace owner input order fault)).memory.clusters ↔
      Separate lib codec s (.replace owner input order fault) := by
  show SubnetsDistinct (replace lib codec s owner input order fault).1.memory.clusters ↔
    ((replace lib codec s owner input order fault).2 = none → _)
  obtain ⟨hown,hpairs⟩ := (unionClusters_coherent huni).subnetsDistinct_iff.1 h
  obtain ⟨e,heq⟩ | ⟨union,hun,-,heq⟩ := replace_cases lib codec s owner input order fault
  · rw [heq]
    exact iff_of_true h nofun
  · rw [heq]
    have hos : ∀ u, u ≠ owner → subnetsOf (s.memory.partitions.insert owner input) u =
        subnetsOf s.memory.partitions u :=
      fun u hu => subnetsOf_of_lookup (Finmap.lookup_insert_of_ne _ hu)
    have hinput := subnetsOf_insert s.memory.partitions owner input
    simp only [(unionClusters_coherent hun).subnetsDistinct_iff,true_imp_iff]
    constructor
    · rintro ⟨hown',hpairs'⟩
      refine ⟨hinput ▸ hown' owner,fun u hu => ?_⟩
      rw [← hinput,← hos u hu]
      exact hpairs' owner u hu.symm
    · rintro ⟨hnd,hapart⟩
      refine ⟨fun u => ?_,fun u v huv => ?_⟩
      · by_cases hu : u = owner
        · rwa [hu,hinput]
        · rw [hos u hu]
          exact hown u
      · by_cases hu : u = owner
        · subst hu
          rw [hinput,hos v huv.symm]
          exact hapart v huv.symm
        · rw [hos u hu]
          by_cases hv : v = owner
          · rw [hv,hinput]
            exact (hapart u hu).symm
          · rw [hos v hv]
            exact hpairs u v huv

theorem restart_subnetsDistinct (hsr : Stored lib codec s)
    (h : SubnetsDistinct s.memory.clusters) (order : MapLoops.Order String) :
    SubnetsDistinct (step lib codec s (.restart order)).memory.clusters := by
  show SubnetsDistinct (load lib codec s.persistent order s.file).clusters
  cases hp : s.persistent with
  | false => simp [load,Memory.empty,SubnetsDistinct]
  | true =>
    rw [hsr hp order]
    exact h

theorem step_subnetsDistinct_iff (huni : s.memory.United lib) (hsr : Stored lib codec s)
    (h : SubnetsDistinct s.memory.clusters) (op : Op) :
    SubnetsDistinct (step lib codec s op).memory.clusters ↔ Separate lib codec s op := by
  cases op with
  | replace owner input order fault => exact replace_subnetsDistinct_iff huni h owner input order fault
  | restart order => exact iff_of_true (restart_subnetsDistinct hsr h order) trivial

/-- The subnets stay distinct exactly as long as every push that is taken keeps to itself. -/
theorem run_subnetsDistinct_iff (ops : List Op) : ∀ {s : State Raw}, s.memory.United lib →
    Stored lib codec s → SubnetsDistinct s.memory.clusters →
    ((∀ done, done <+: ops → SubnetsDistinct (run lib codec s done).memory.clusters) ↔
      SeparateRun lib codec s ops) := by
  induction ops with
  | nil =>
    intro s _ _ h
    refine iff_of_true (fun done hdn => ?_) trivial
    obtain rfl := prefix_nil.1 hdn
    exact h
  | cons op ops ih =>
    intro s huni hsr h
    have hst := step_subnetsDistinct_iff huni hsr h op
    constructor
    · intro hall
      have hfst : SubnetsDistinct (step lib codec s op).memory.clusters :=
        hall [op] (by simp)
      refine ⟨hst.1 hfst,(ih (huni.step op) (hsr.step op) hfst).1 ?_⟩
      intro done hdn
      exact hall (op::done) ((prefix_cons_inj op).2 hdn)
    · rintro ⟨hop,hrs⟩ done hdn
      have hfst := hst.2 hop
      cases done with
      | nil => exact h
      | cons op' done =>
        obtain ⟨rfl,hrs'⟩ := cons_prefix_cons.1 hdn
        exact (ih (huni.step _) (hsr.step _) hfst).2 hrs done hrs'

end

/-- A helper that starts empty has its clusters on distinct subnets exactly if every push taken
brings distinct subnets of which none is another owner's. -/
theorem subnets_distinct_iff_separate {Raw : Type} (lib : Parsers) (codec : StateCodec Raw)
    (persistent : Bool) (order : MapLoops.Order String) (ops : List Op) :
    (∀ done, done <+: ops → SubnetsDistinct
      (run lib codec (start lib codec persistent order .missing) done).memory.clusters) ↔
      SeparateRun lib codec (start lib codec persistent order .missing) ops := by
  have hemp : (start lib codec persistent order .missing).memory = .empty := by
    cases persistent <;> rfl
  refine run_subnetsDistinct_iff ops ?_ ?_ ?_
  · rw [hemp]
    exact unionClusters_empty lib
  · intro _ order'
    rw [hemp]
    rfl
  · rw [hemp]
    exact nodup_nil

/-- Parsers that know two MACs and two addresses of the first subnet. -/
def pairParsers : Parsers where
  trimSpace := id
  parseMAC value :=
    if value = "52:54:00:00:00:01" then some [0x52,0x54,0,0,0,1]
    else if value = "52:54:00:00:00:02" then some [0x52,0x54,0,0,0,2]
    else none
  parseIP4 value :=
    if value = "172.30.0.2" then some ⟨172,30,0,2⟩
    else if value = "172.30.0.3" then some ⟨172,30,0,3⟩
    else none

/-- The stored state as it is. -/
def plainCodec : StateCodec SyncedState := ⟨id,some,fun _ => rfl⟩

def pushA : List SyncedCluster := [⟨"a",0,[⟨"a-cp-1","52:54:00:00:00:01","172.30.0.2"⟩]⟩]

def pushB : List SyncedCluster := [⟨"b",0,[⟨"b-cp-1","52:54:00:00:00:02","172.30.0.3"⟩]⟩]

/-- Two users push a cluster each, both on the first subnet and with nothing else in
common. -/
def sharedSubnet : List Op :=
  [.replace 501 pushA .sorted none,.replace 502 pushB .sorted none]

def firstPushed : Partitions := (∅ : Partitions).insert 501 pushA

def bothPushed : Partitions := firstPushed.insert 502 pushB

lemma keys_firstPushed : firstPushed.keys.sort (· ≤ ·) = [501] := by
  have hks : firstPushed.keys = {501} := by decide
  rw [hks,Finset.sort_singleton]

lemma keys_bothPushed : bothPushed.keys.sort (· ≤ ·) = [501,502] := by
  have hks : bothPushed.keys = insert 501 {502} := by decide
  rw [hks,Finset.sort_insert _ (by simp) (by simp),Finset.sort_singleton]

theorem union_firstPushed :
    unionClusters pairParsers firstPushed = .ok (pushA.map SyncedCluster.convert) := by
  unfold unionClusters
  rw [keys_firstPushed]
  rfl

theorem union_bothPushed : unionClusters pairParsers bothPushed =
    .ok (pushA.map SyncedCluster.convert++pushB.map SyncedCluster.convert) := by
  unfold unionClusters
  rw [keys_bothPushed]
  rfl

theorem step_taken {Raw : Type} {lib : Parsers} {codec : StateCodec Raw} {m : Memory}
    {file : File Raw} {owner : UID} {input : List SyncedCluster} {clusters union : List Cluster}
    (hsyn : syncedClusters lib input = .ok clusters)
    (hun : unionClusters lib (m.partitions.insert owner input) = .ok union)
    (order : MapLoops.Order UID) :
    step lib codec ⟨false,m,file⟩ (.replace owner input order none) =
      ⟨false,⟨m.partitions.insert owner input,union⟩,file⟩ := by
  simp [step,replace,hsyn,hun,persist]

/-- Both pushes are taken, and both clusters are on the first subnet. -/
theorem two_users_share_a_subnet :
    (run pairParsers plainCodec (start pairParsers plainCodec false .sorted .missing)
      sharedSubnet).memory.clusters.map (fun c => (c.name,c.subnetIndex)) = [("a",0),("b",0)] ∧
    ¬SubnetsDistinct (run pairParsers plainCodec
      (start pairParsers plainCodec false .sorted .missing) sharedSubnet).memory.clusters := by
  have hrun : (run pairParsers plainCodec (start pairParsers plainCodec false .sorted .missing)
      sharedSubnet).memory.clusters =
        pushA.map SyncedCluster.convert ++ pushB.map SyncedCluster.convert := by
    have hfst : step pairParsers plainCodec ⟨false,.empty,.missing⟩
        (.replace 501 pushA .sorted none) =
          ⟨false,⟨firstPushed,pushA.map SyncedCluster.convert⟩,.missing⟩ :=
      step_taken rfl union_firstPushed _
    have hsec : step pairParsers plainCodec
        ⟨false,⟨firstPushed,pushA.map SyncedCluster.convert⟩,.missing⟩
        (.replace 502 pushB .sorted none) = ⟨false,⟨bothPushed,
          pushA.map SyncedCluster.convert ++ pushB.map SyncedCluster.convert⟩,.missing⟩ :=
      step_taken rfl union_bothPushed _
    have hstr : start pairParsers plainCodec false .sorted .missing =
        ⟨false,.empty,.missing⟩ := rfl
    simp only [run,sharedSubnet,List.foldl,hstr,hfst,hsec]
  rw [hrun]
  exact ⟨by decide,by unfold SubnetsDistinct; decide⟩

end TalosBox.HelperState
