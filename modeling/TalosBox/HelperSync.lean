import TalosBox.SubnetOwners
import TalosBox.LinuxNetwork

/-! `net.sync`: a push is committed, the host converged to it, and if that fails the owner's former
partition is committed again. -/
namespace TalosBox.HelperState

open MapLoops
open Reservations (Cluster Parsers newReservationTable)
open LinuxNetwork (sortCompact)

def Memory.partition (m : Memory) (owner : UID) : List SyncedCluster := (m.partitions.lookup owner).getD []

def Memory.subnetIndexes (m : Memory) : List ℤ := sortCompact (m.clusters.map Cluster.subnetIndex)

/-- Nothing that is served differs; an owner without a partition has an empty one. -/
structure Memory.Serves (m m' : Memory) : Prop where
  clusters : m'.clusters = m.clusters
  subnetIndexes : m'.subnetIndexes = m.subnetIndexes
  partition : ∀ owner, m'.partition owner = m.partition owner

/-- The outcome of `convergeHostNetworking`. -/
inductive Networking
  | converged
  /-- Only subnets of other uses were in the way, which is logged. -/
  | preflight
  | failed
  deriving DecidableEq

structure Convergence where
  networking : Networking
  dhcp : Bool
  deriving DecidableEq

inductive SyncError
  | arguments
  | replace (cause : ReplaceError)
  | networking
  | dhcp
  deriving DecidableEq

def convergeSynced (c : Convergence) : Option SyncError :=
  match c.networking with
  | .failed => some .networking
  | .converged | .preflight => if c.dhcp then none else some .dhcp

/-- The orders and faults of the two writes, and how the host converges to the push; for the former
partition that is only logged. -/
structure SyncAnswers where
  order : Order UID
  fault : Option Stage
  pushed : Convergence
  restoreOrder : Order UID
  restoreFault : Option Stage

section

variable {Raw : Type} (lib : Parsers) (codec : StateCodec Raw)

/-- The push is `none` where the arguments do not decode. -/
def sync (s : State Raw) (owner : UID) (push : Option (List SyncedCluster)) (a : SyncAnswers) :
    State Raw × Option SyncError :=
  match push with
  | none => (s,some .arguments)
  | some clusters =>
    let previous := s.memory.partition owner
    match replace lib codec s owner clusters a.order a.fault with
    | (s,some e) => (s,some (.replace e))
    | (s,none) =>
      match convergeSynced a.pushed with
      | none => (s,none)
      | some e => ((replace lib codec s owner previous a.restoreOrder a.restoreFault).1,some e)

inductive SyncEvent
  | sync (owner : UID) (push : Option (List SyncedCluster)) (a : SyncAnswers)
  | restart (order : Order String)

def serve (s : State Raw) : SyncEvent → State Raw
  | .sync owner push a => (sync lib codec s owner push a).1
  | .restart order => step lib codec s (.restart order)

/-- The helper after it has started and met the events. -/
def served (persistent : Bool) (order : Order String) (file : File Raw) (events : List SyncEvent) : State Raw :=
  events.foldl (serve lib codec) (start lib codec persistent order file)

end

section

variable {lib : Parsers} {partitions : Partitions}

lemma syncedClusters_nil (lib : Parsers) : syncedClusters lib [] = .ok [] := rfl

theorem unionOwners_filter (lib : Parsers) (partitions : Partitions) (owners : List UID)
    (claimed : String → Option UID) (union : List Cluster) :
    unionOwners lib partitions (owners.filter fun u => (partitions.lookup u).getD [] ≠ []) claimed union =
      unionOwners lib partitions owners claimed union := by
  induction owners generalizing claimed union with
  | nil => rfl
  | cons owner owners ih =>
    by_cases hemp : (partitions.lookup owner).getD [] = []
    · rw [List.filter_cons_of_neg (by simp [hemp]),unionOwners,hemp,syncedClusters_nil]
      simp only [List.append_nil]
      exact ih claimed union
    · rw [List.filter_cons_of_pos (by simp [hemp]),unionOwners,unionOwners]
      simp only [ih]

theorem unionOwners_congr {partitions' : Partitions}
    (h : ∀ u, (partitions'.lookup u).getD [] = (partitions.lookup u).getD []) (owners : List UID)
    (claimed : String → Option UID) (union : List Cluster) :
    unionOwners lib partitions' owners claimed union = unionOwners lib partitions owners claimed union := by
  induction owners generalizing claimed union with
  | nil => rfl
  | cons owner owners ih =>
    rw [unionOwners,unionOwners,h owner]
    simp only [ih]

theorem unionClusters_congr {partitions' : Partitions}
    (h : ∀ u, (partitions'.lookup u).getD [] = (partitions.lookup u).getD []) :
    unionClusters lib partitions' = unionClusters lib partitions := by
  have hmem : ∀ (p : Partitions) u, u ∈ (p.keys.sort (· ≤ ·)).filter
      (fun u => (partitions.lookup u).getD [] ≠ []) ↔ u ∈ p.keys ∧ (partitions.lookup u).getD [] ≠ [] := by
    intro p u
    rw [List.mem_filter,Finset.mem_sort,decide_eq_true_eq]
  have hkey : ∀ (p : Partitions) u, (p.lookup u).getD [] ≠ [] → u ∈ p.keys := by
    intro p u hu
    rw [Finmap.mem_keys,← Finmap.lookup_isSome]
    cases hl : p.lookup u with
    | none => simp [hl] at hu
    | some synced => rfl
  have hks : (partitions'.keys.sort (· ≤ ·)).filter (fun u => (partitions.lookup u).getD [] ≠ []) =
      (partitions.keys.sort (· ≤ ·)).filter (fun u => (partitions.lookup u).getD [] ≠ []) := by
    refine List.Perm.eq_of_pairwise (fun _ _ _ _ => le_antisymm)
      ((Finset.pairwise_sort _ _).filter _) ((Finset.pairwise_sort _ _).filter _) ?_
    refine (List.perm_ext_iff_of_nodup ((Finset.sort_nodup _ _).filter _) ((Finset.sort_nodup _ _).filter _)).2 ?_
    intro u
    rw [hmem,hmem]
    exact ⟨fun hu => ⟨hkey partitions u hu.2,hu.2⟩,fun hu => ⟨hkey partitions' u (h u ▸ hu.2),hu.2⟩⟩
  have hun : unionOwners lib partitions' (partitions'.keys.sort (· ≤ ·)) (fun _ => none) [] =
      unionOwners lib partitions (partitions.keys.sort (· ≤ ·)) (fun _ => none) [] := by
    rw [unionOwners_congr h,← unionOwners_filter lib partitions (partitions'.keys.sort (· ≤ ·)),hks,
      unionOwners_filter]
  unfold unionClusters
  rw [hun]

theorem unionOwners_valid {owners : List UID} {claimed : String → Option UID} {union union' : List Cluster}
    (h : unionOwners lib partitions owners claimed union = .ok union') {owner : UID} (hmem : owner ∈ owners) :
    ∃ clusters, syncedClusters lib ((partitions.lookup owner).getD []) = .ok clusters := by
  induction owners generalizing claimed union with
  | nil => cases hmem
  | cons other owners ih =>
    unfold unionOwners at h
    split at h
    · cases h
    rename_i clusters hsyn
    split at h
    · cases h
    rcases List.mem_cons.1 hmem with rfl | hmem
    · exact ⟨clusters,hsyn⟩
    · exact ih h hmem

end

section

variable {Raw : Type} {lib : Parsers} {codec : StateCodec Raw} {s : State Raw}

theorem Memory.United.partition_valid {m : Memory} (h : m.United lib) (owner : UID) :
    ∃ clusters, syncedClusters lib (m.partition owner) = .ok clusters := by
  unfold Memory.partition
  cases hl : m.partitions.lookup owner with
  | none => exact ⟨[],syncedClusters_nil lib⟩
  | some synced =>
    unfold Memory.United unionClusters at h
    split at h
    · cases h
    rename_i union hows
    have hmem : owner ∈ m.partitions.keys.sort (· ≤ ·) := by
      rw [Finset.mem_sort,Finmap.mem_keys,← Finmap.lookup_isSome,hl]
      rfl
    have hval := unionOwners_valid hows hmem
    rwa [hl] at hval

/-- With a partition put back that an owner had in a united state, the union is that state's. -/
theorem Memory.United.insert_partition {m : Memory} (h : m.United lib) (owner : UID) :
    unionClusters lib (m.partitions.insert owner (m.partition owner)) = .ok m.clusters := by
  refine (unionClusters_congr fun u => ?_).trans h
  by_cases hu : u = owner
  · rw [hu,Finmap.lookup_insert]
    rfl
  · rw [Finmap.lookup_insert_of_ne _ hu]

/-- A push that was committed is undone by committing the former partition. -/
theorem replace_partition (h : s.memory.United lib) (owner : UID) {s₁ : State Raw} {clusters : List SyncedCluster}
    {union : List Cluster} (hpr : s₁.persistent = s.persistent)
    (hmemory : s₁.memory = ⟨s.memory.partitions.insert owner clusters,union⟩) (order : Order UID) :
    replace lib codec s₁ owner (s.memory.partition owner) order none =
      (⟨s.persistent,⟨s.memory.partitions.insert owner (s.memory.partition owner),s.memory.clusters⟩,
        if s.persistent then
          .content (codec.marshal (encodeOwners order (s.memory.partitions.insert owner (s.memory.partition owner))))
        else s₁.file⟩,none) := by
  obtain ⟨valid,hval⟩ := h.partition_valid owner
  have hinsert : s₁.memory.partitions.insert owner (s.memory.partition owner) =
      s.memory.partitions.insert owner (s.memory.partition owner) := by
    rw [hmemory]
    exact Finmap.insert_insert _
  unfold replace persist
  simp only [hval,hinsert,h.insert_partition owner,hpr]
  cases s.persistent <;> rfl

theorem serves_insert_partition (m : Memory) (owner : UID) :
    m.Serves ⟨m.partitions.insert owner (m.partition owner),m.clusters⟩ where
  clusters := rfl
  subnetIndexes := rfl
  partition u := by
    unfold Memory.partition
    by_cases hu : u = owner
    · rw [hu,Finmap.lookup_insert]
      rfl
    · rw [Finmap.lookup_insert_of_ne _ hu]

theorem sync_of_failed_convergence (h : s.memory.United lib) {owner : UID} {clusters : List SyncedCluster}
    {a : SyncAnswers} {e : SyncError} (hadop : (replace lib codec s owner clusters a.order a.fault).2 = none)
    (hconv : convergeSynced a.pushed = some e) (hrs : a.restoreFault = none) :
    ∃ file, sync lib codec s owner (some clusters) a =
        (⟨s.persistent,⟨s.memory.partitions.insert owner (s.memory.partition owner),s.memory.clusters⟩,file⟩,some e) ∧
      file = if s.persistent then .content (codec.marshal (encodeOwners a.restoreOrder
        (s.memory.partitions.insert owner (s.memory.partition owner)))) else s.file := by
  obtain ⟨e',heq⟩ | ⟨union,-,-,heq⟩ := replace_cases lib codec s owner clusters a.order a.fault
  · rw [heq] at hadop
    cases hadop
  · refine ⟨_,?_,rfl⟩
    obtain ⟨s₁,hs₁⟩ : ∃ s₁, s₁ = (replace lib codec s owner clusters a.order a.fault).1 := ⟨_,rfl⟩
    have hpr : s₁.persistent = s.persistent := by rw [hs₁,heq]
    have hmemory : s₁.memory = ⟨s.memory.partitions.insert owner clusters,union⟩ := by rw [hs₁,heq]
    have hfl : (if s.persistent then s.file else s₁.file) = s.file := by
      rw [hs₁,heq]
      cases s.persistent <;> rfl
    have hpu : replace lib codec s owner clusters a.order a.fault = (s₁,none) := by rw [hs₁,heq]
    simp only [sync,hpu,hconv,hrs,replace_partition h owner hpr hmemory]
    cases hp : s.persistent with
    | true => rfl
    | false =>
      rw [hp] at hfl
      exact congrArg (fun file => ((⟨false,_,file⟩ : State Raw),some e)) hfl

theorem serve_united (h : s.memory.United lib) (event : SyncEvent) : (serve lib codec s event).memory.United lib := by
  cases event with
  | restart order => exact h.step (.restart order)
  | sync owner push a =>
    show (sync lib codec s owner push a).1.memory.United lib
    cases push with
    | none => exact h
    | some clusters =>
      have hpu : (replace lib codec s owner clusters a.order a.fault).1.memory.United lib :=
        h.step (.replace owner clusters a.order a.fault)
      simp only [sync]
      rcases hrepl : replace lib codec s owner clusters a.order a.fault with ⟨s₁,failure⟩
      rw [hrepl] at hpu
      cases failure with
      | some e => exact hpu
      | none =>
        cases hconv : convergeSynced a.pushed with
        | none => exact hpu
        | some e =>
          exact hpu.step (.replace owner (s.memory.partition owner) a.restoreOrder a.restoreFault)

theorem serve_persistent (s : State Raw) (event : SyncEvent) :
    (serve lib codec s event).persistent = s.persistent := by
  cases event with
  | restart order => rfl
  | sync owner push a =>
    have hst : ∀ (t : State Raw) input order fault,
        (replace lib codec t owner input order fault).1.persistent = t.persistent :=
      fun t input order fault => step_persistent lib codec t (.replace owner input order fault)
    show (sync lib codec s owner push a).1.persistent = s.persistent
    cases push with
    | none => rfl
    | some clusters =>
      have hpu := hst s clusters a.order a.fault
      simp only [sync]
      rcases hrepl : replace lib codec s owner clusters a.order a.fault with ⟨s₁,failure⟩
      rw [hrepl] at hpu
      cases failure with
      | some e => exact hpu
      | none =>
        cases hconv : convergeSynced a.pushed with
        | none => exact hpu
        | some e => exact (hst s₁ _ _ _).trans hpu

end

/-- A push to which the host does not converge, with writes that succeed, returns the convergence's
error and leaves what is served as it was, in memory and in what a restart loads; without a state
directory there is no file. -/
theorem failed_convergence_rolled_back {Raw : Type} (lib : Parsers) (codec : StateCodec Raw) (persistent : Bool)
    (order₀ : Order String) (file : File Raw) (events : List SyncEvent) (owner : UID)
    (clusters : List SyncedCluster) (a : SyncAnswers) (hrest : a.restoreFault = none)
    (hadop : (replace lib codec (served lib codec persistent order₀ file events) owner clusters a.order
      a.fault).2 = none)
    (hconv : convergeSynced a.pushed ≠ none) :
    let s := served lib codec persistent order₀ file events
    let (s',failure) := sync lib codec s owner (some clusters) a
    failure = convergeSynced a.pushed ∧ failure ≠ none ∧ s.memory.Serves s'.memory ∧
      (persistent = true → ∀ order, s.memory.Serves (load lib codec true order s'.file)) ∧
      (persistent = false → s'.file = s.file) := by
  intro s
  have huni : s.memory.United lib :=
    KeyedFold.foldl_invariant (I := fun s : State Raw => s.memory.United lib)
      (fun _ event _ h => serve_united h event) (load_united lib codec persistent order₀ file)
  have hpers : s.persistent = persistent :=
    KeyedFold.foldl_frame (v := State.persistent) (fun s event _ => serve_persistent s event) _
  obtain ⟨e,he⟩ := Option.ne_none_iff_exists'.mp hconv
  obtain ⟨file',hsync,hfile⟩ := sync_of_failed_convergence huni hadop he hrest
  rw [hsync,he]
  have hserves := serves_insert_partition s.memory owner
  refine ⟨rfl,nofun,hserves,fun hp order => ?_,fun hp => ?_⟩
  · rw [hpers,hp,if_pos rfl] at hfile
    rw [hfile,load_marshal (huni.insert_partition owner)]
    exact hserves
  · rw [hpers,hp] at hfile
    exact hfile

def converges : SyncAnswers := ⟨.sorted,none,⟨.converged,true⟩,.sorted,none⟩

def dhcpFails : SyncAnswers := { converges with pushed := ⟨.converged,false⟩ }

theorem served_pushA : (served pairParsers plainCodec true .sorted .missing
    [.sync 501 (some pushA) converges]).memory = ⟨firstPushed,pushA.map SyncedCluster.convert⟩ := by
  have hsyn : syncedClusters pairParsers pushA = .ok (pushA.map SyncedCluster.convert) := rfl
  have hun : unionClusters pairParsers (Memory.empty.partitions.insert 501 pushA) =
      .ok (pushA.map SyncedCluster.convert) := union_firstPushed
  have hstr : start pairParsers plainCodec true .sorted .missing = ⟨true,.empty,.missing⟩ := rfl
  simp only [served,List.foldl,hstr,serve,sync,replace,hun]
  rfl

theorem second_push_rolled_back :
    let s := served pairParsers plainCodec true .sorted .missing [.sync 501 (some pushA) converges]
    (sync pairParsers plainCodec s 502 (some pushB) dhcpFails).2 = some .dhcp ∧
      s.memory.clusters = pushA.map SyncedCluster.convert ∧
      s.memory.Serves (sync pairParsers plainCodec s 502 (some pushB) dhcpFails).1.memory ∧
      ∀ order, s.memory.Serves (load pairParsers plainCodec true order
        (sync pairParsers plainCodec s 502 (some pushB) dhcpFails).1.file) := by
  intro s
  have hmemory : s.memory = ⟨firstPushed,pushA.map SyncedCluster.convert⟩ := served_pushA
  have hadop : (replace pairParsers plainCodec s 502 pushB dhcpFails.order dhcpFails.fault).2 = none := by
    have hsyn : syncedClusters pairParsers pushB = .ok (pushB.map SyncedCluster.convert) := rfl
    have hun : unionClusters pairParsers (s.memory.partitions.insert 502 pushB) =
        .ok (pushA.map SyncedCluster.convert ++ pushB.map SyncedCluster.convert) := by
      rw [hmemory]
      exact union_bothPushed
    simp only [replace,hun,persist]
    cases s.persistent <;> rfl
  obtain ⟨hfail,-,hserves,hload,-⟩ := failed_convergence_rolled_back pairParsers plainCodec true .sorted .missing
    [.sync 501 (some pushA) converges] 502 pushB dhcpFails rfl hadop (by decide)
  exact ⟨hfail,by rw [hmemory],hserves,hload rfl⟩

end TalosBox.HelperState
