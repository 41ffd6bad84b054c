import TalosBox.StoragePasses

/-! Removing nodes that hold volume data: what the gate counts, and what is left after any removals
it let pass. -/

namespace TalosBox.ReplicaGate

open StoragePasses (CSI)

/-- A field of an unstructured object's `spec`. -/
inductive Field
  | text (s : String)
  | flag (b : Bool)
  | other
  deriving DecidableEq

structure Replica where
  /-- A deletion timestamp is set. -/
  terminating : Bool
  spec : String → Option Field

/-- `nestedString` below `spec`: a field that is missing or no string reads as empty. -/
def nestedString (r : Replica) (field : String) : String :=
  match r.spec field with
  | some (.text s) => s
  | _ => ""

/-- A missing active field, or one that is no flag, counts as active. -/
def replicaActive (r : Replica) : Bool :=
  match r.spec "active" with
  | some (.flag b) => b
  | _ => true

namespace Replica

def volumeName (r : Replica) : String := nestedString r "volumeName"

def nodeID (r : Replica) : String := nestedString r "nodeID"

def healthy (r : Replica) : Bool :=
  !r.terminating && replicaActive r && nestedString r "failedAt" = "" &&
    nestedString r "healthyAt" ≠ ""

end Replica

inductive Operator
  | within
  | other
  deriving DecidableEq

structure Requirement where
  key : String
  operator : Operator
  values : List String

structure PersistentVolume where
  storageClassName : String
  /-- Namespace and name of the claim. -/
  claimRef : Option (String × String)
  /-- The volume handle, if the volume has a CSI source. -/
  volumeHandle : Option String
  /-- The match expressions of the terms the node affinity requires. -/
  affinity : Option (List (List Requirement))

def storageProbePVResidue (pv : PersistentVolume) : Bool :=
  pv.claimRef = some ("talosbox-system","storage-probe")

/-- What the two lists of the API server answer. -/
structure Answers where
  volumes : Option (List PersistentVolume)
  replicas : Option (List Replica)

inductive CountError
  | kubeconfig
  | listVolumes
  | listReplicas
  | unsupported
  deriving DecidableEq

def storageClassForEngine : CSI → Option String
  | .localPath => some "local-path"
  | .longhorn => some "longhorn"
  | .none => none

def enginePersistentVolumes (answers : Answers) (engine : CSI) :
    Except CountError (List PersistentVolume) :=
  match storageClassForEngine engine with
  | none => .error .unsupported
  | some storageClass =>
    match answers.volumes with
    | none => .error .listVolumes
    | some volumes => .ok (volumes.filter fun pv =>
        pv.storageClassName = storageClass && !storageProbePVResidue pv)

def persistentVolumePinnedToNode (pv : PersistentVolume) (nodeName : String) : Bool :=
  match pv.affinity with
  | none => false
  | some terms => terms.any fun term => term.any fun requirement =>
      requirement.key = "kubernetes.io/hostname" && requirement.operator = .within &&
        requirement.values.contains nodeName

def countLocalPathNodeVolumes (volumes : List PersistentVolume) (nodeName : String) : ℕ :=
  volumes.countP fun pv => persistentVolumePinnedToNode pv nodeName

def longhornProbeVolumeHandles (volumes : List PersistentVolume) : Finset String :=
  (volumes.filterMap fun pv => if storageProbePVResidue pv then pv.volumeHandle else none).toFinset

/-- The two maps of `countLonghornNodeVolumes`. -/
structure Tally where
  onNode : Finset String
  survivorElsewhere : Finset String

/-- One replica of its loop. -/
def Tally.visit (probeVolumes : Finset String) (nodeName : String) (remainingNodes : List String)
    (t : Tally) (r : Replica) : Tally :=
  if r.volumeName = "" ∨ r.nodeID = "" ∨ r.volumeName ∈ probeVolumes then t
  else if r.nodeID = nodeName then { t with onNode := insert r.volumeName t.onNode }
  else if r.nodeID ∉ remainingNodes then t
  else if r.healthy then
    { t with survivorElsewhere := insert r.volumeName t.survivorElsewhere }
  else t

def tally (probeVolumes : Finset String) (nodeName : String) (remainingNodes : List String)
    (replicas : List Replica) : Tally :=
  replicas.foldl (Tally.visit probeVolumes nodeName remainingNodes) ⟨∅,∅⟩

def Tally.count (t : Tally) : ℕ := (t.onNode.filter (· ∉ t.survivorElsewhere)).card

def countLonghornNodeVolumes (answers : Answers) (nodeName : String)
    (remainingNodes : List String) : Except CountError ℕ :=
  match answers.volumes with
  | none => .error .listVolumes
  | some volumes =>
    match answers.replicas with
    | none => .error .listReplicas
    | some replicas =>
      .ok (tally (longhornProbeVolumeHandles volumes) nodeName remainingNodes replicas).count

def countNodeStorageVolumes (answers : Answers) (engine : CSI) (nodeName : String)
    (remainingNodes : List String) : Except CountError ℕ :=
  match engine with
  | .localPath =>
    match enginePersistentVolumes answers engine with
    | .error e => .error e
    | .ok volumes => .ok (countLocalPathNodeVolumes volumes nodeName)
  | .longhorn => countLonghornNodeVolumes answers nodeName remainingNodes
  | .none => .error .unsupported

/-- A stored cluster; its nodes have names, each its own. -/
structure Cluster where
  csi : CSI
  nodes : List String
  nodup : nodes.Nodup
  named : ∀ name ∈ nodes, name ≠ ""

lemma Cluster.nodup_erase (c : Cluster) (name : String) : (c.nodes.erase name).Nodup :=
  c.nodup.erase name

lemma Cluster.named_erase (c : Cluster) (name : String) :
    ∀ other ∈ c.nodes.erase name, other ≠ "" :=
  fun other hoth => c.named other (List.mem_of_mem_erase hoth)

/-- `RemoveNode`, for a member. -/
def Cluster.removeNode (c : Cluster) (name : String) : Cluster :=
  ⟨c.csi,c.nodes.erase name,c.nodup_erase name,c.named_erase name⟩

def countNodeRemovalStorageVolumes (kubeconfig : Bool) (answers : Answers) (item : Cluster)
    (nodeName : String) : Except CountError ℕ :=
  if kubeconfig then
    countNodeStorageVolumes answers item.csi nodeName (item.nodes.filter (· ≠ nodeName))
  else .error .kubeconfig

inductive Admission
  | plain
  /-- With the warning that the data could not be verified. -/
  | unverified
  /-- With the warning that the only copy of so many volumes goes. -/
  | loses (count : ℕ)
  | refused (count : ℕ)
  deriving DecidableEq

def gateNodeRemoval (load : Option Cluster) (name : String) (force running : Bool)
    (countVolumes : Cluster → String → Except CountError ℕ) : Admission :=
  match load with
  | none => .plain
  | some item =>
    if item.csi = .none then .plain
    else if name ∉ item.nodes then .plain
    else if running = false then .unverified
    else
      match countVolumes item name with
      | .error _ => .unverified
      | .ok count =>
        if count = 0 then .plain
        else if force = false then .refused count
        else .loses count

section

variable {probeVolumes : Finset String} {nodeName volume : String} {rest : List String}

/-- The replica is of the volume and lies on the node. -/
structure Replica.On (r : Replica) (volume node : String) : Prop where
  volume : r.volumeName = volume
  node : r.nodeID = node

/-- A volume the count looks at. -/
structure Counted (probeVolumes : Finset String) (volume : String) : Prop where
  named : volume ≠ ""
  notProbe : volume ∉ probeVolumes

theorem mem_onNode_iff (hvol : Counted probeVolumes volume) (hnd : nodeName ≠ "")
    (replicas : List Replica) (t : Tally) :
    volume ∈ (replicas.foldl (Tally.visit probeVolumes nodeName rest) t).onNode ↔
      volume ∈ t.onNode ∨ ∃ r ∈ replicas, r.On volume nodeName := by
  induction replicas generalizing t with
  | nil => simp
  | cons r replicas ih =>
    have hvis : volume ∈ (t.visit probeVolumes nodeName rest r).onNode ↔
        volume ∈ t.onNode ∨ r.On volume nodeName := by
      unfold Tally.visit
      split_ifs with hsk hon hgn hheal
      · refine (or_iff_left fun ⟨hv,hn⟩ => ?_).symm
        obtain hv' | hn' | hp := hsk
        · exact hvol.named (hv.symm.trans hv')
        · exact hnd (hn.symm.trans hn')
        · exact hvol.notProbe (hv ▸ hp)
      · rw [Finset.mem_insert,or_comm]
        exact or_congr_right ⟨fun hv => ⟨hv.symm,hon⟩,fun h => h.volume.symm⟩
      all_goals exact (or_iff_left fun h => hon h.node).symm
    rw [List.foldl_cons,ih,hvis,or_assoc,List.exists_mem_cons_iff]

theorem mem_survivors_iff (hvol : Counted probeVolumes volume)
    (hrema : ∀ node ∈ rest, node ≠ "" ∧ node ≠ nodeName)
    (replicas : List Replica) (t : Tally) :
    volume ∈ (replicas.foldl (Tally.visit probeVolumes nodeName rest)
        t).survivorElsewhere ↔
      volume ∈ t.survivorElsewhere ∨
        ∃ r ∈ replicas, r.volumeName = volume ∧ r.nodeID ∈ rest ∧ r.healthy := by
  induction replicas generalizing t with
  | nil => simp
  | cons r replicas ih =>
    have hvis : volume ∈ (t.visit probeVolumes nodeName rest r).survivorElsewhere ↔
        volume ∈ t.survivorElsewhere ∨
          r.volumeName = volume ∧ r.nodeID ∈ rest ∧ r.healthy := by
      unfold Tally.visit
      split_ifs with hsk hon hgn hheal
      · refine (or_iff_left fun ⟨hv,hn,_⟩ => ?_).symm
        obtain hv' | hn' | hp := hsk
        · exact hvol.named (hv.symm.trans hv')
        · exact (hrema _ hn).1 hn'
        · exact hvol.notProbe (hv ▸ hp)
      · exact (or_iff_left fun h => (hrema _ h.2.1).2 hon).symm
      · rw [Finset.mem_insert,or_comm]
        exact or_congr_right ⟨fun hv => ⟨hv.symm,hgn,hheal⟩,fun h => h.1.symm⟩
      · exact (or_iff_left fun h => hheal h.2.2).symm
      · exact (or_iff_left fun h => hgn h.2.1).symm
    rw [List.foldl_cons,ih,hvis,or_assoc,List.exists_mem_cons_iff]

/-- If the count is zero, every volume with a replica on the node has a healthy one elsewhere. -/
theorem survivor_of_count_zero {replicas : List Replica}
    (hcnt : (tally probeVolumes nodeName rest replicas).count = 0)
    (hvol : Counted probeVolumes volume) (hnd : nodeName ≠ "")
    (hrema : ∀ node ∈ rest, node ≠ "" ∧ node ≠ nodeName)
    (hon : ∃ r ∈ replicas, r.On volume nodeName) :
    ∃ r ∈ replicas, r.volumeName = volume ∧ r.nodeID ∈ rest ∧ r.healthy := by
  have hmem : volume ∈ (tally probeVolumes nodeName rest replicas).onNode :=
    (mem_onNode_iff hvol hnd replicas _).2 (.inr hon)
  have hsurv : volume ∈ (tally probeVolumes nodeName rest replicas).survivorElsewhere := by
    by_contra hnot
    have hemp := Finset.card_eq_zero.1 hcnt
    exact Finset.notMem_empty volume (hemp ▸ Finset.mem_filter.2 ⟨hmem,hnot⟩)
  obtain hno | hr := (mem_survivors_iff hvol hrema replicas _).1 hsurv
  · exact absurd hno (Finset.notMem_empty _)
  · exact hr

end

/-- A volume has a name. -/
abbrev Volume := { name : String // name ≠ "" }

structure Storage where
  item : Cluster
  replicas : List Replica
  /-- The nodes removed so far. -/
  removed : Finset String

def start (item : Cluster) (replicas : List Replica) : Storage := ⟨item,replicas,∅⟩

inductive Move
  /-- An unforced removal of a member, with the persistent volumes the gate finds. -/
  | remove (name : String) (volumes : List PersistentVolume)
  /-- A replica of a removed node disappears. -/
  | vanish (position : ℕ)

/-- A removal is made if the gate counted no volume; the mutation lock is held from the count to its
end. -/
def step (s : Storage) : Move → Option Storage
  | .remove name volumes =>
    if name ∈ s.item.nodes ∧ s.item.csi = .longhorn ∧
        gateNodeRemoval (some s.item) name false true
          (countNodeRemovalStorageVolumes true ⟨some volumes,some s.replicas⟩) = .plain then
      some { s with item := s.item.removeNode name, removed := insert name s.removed }
    else none
  | .vanish position =>
    match s.replicas[position]? with
    | some r =>
      if r.nodeID ∈ s.removed then some { s with replicas := s.replicas.eraseIdx position } else none
    | none => none

def run (s : Storage) (moves : List Move) : Option Storage := StepRuns.run step s moves

/-- A healthy, active replica of the volume that is not terminating lies on a member. -/
def Storage.Holds (s : Storage) (volume : Volume) : Prop :=
  ∃ r ∈ s.replicas, r.volumeName = volume.1 ∧ r.nodeID ∈ s.item.nodes ∧ r.healthy

/-- The volume is not the probe's when the gate looks. -/
def Move.NotProbe (volume : Volume) : Move → Prop
  | .remove _ volumes => volume.1 ∉ longhornProbeVolumeHandles volumes
  | .vanish _ => True

/-- What one move keeps: no removed node is a member, and the volume is held. -/
structure Kept (volume : Volume) (s : Storage) : Prop where
  apart : ∀ name ∈ s.removed, name ∉ s.item.nodes
  holds : s.Holds volume

theorem filter_ne_eq_erase (c : Cluster) (name : String) :
    c.nodes.filter (· ≠ name) = c.nodes.erase name := by
  rw [c.nodup.erase_eq_filter]
  exact List.filter_congr fun other _ => by simp [bne,beq_eq_decide]

/-- The gate lets an unforced removal pass without a warning exactly if it counts no volume. -/
theorem gate_plain_iff {item : Cluster} {name : String}
    {countVolumes : Cluster → String → Except CountError ℕ} (hcsi : item.csi ≠ .none)
    (hmember : name ∈ item.nodes) :
    gateNodeRemoval (some item) name false true countVolumes = .plain ↔
      countVolumes item name = .ok 0 := by
  unfold gateNodeRemoval
  simp only [hcsi,hmember]
  cases countVolumes item name with
  | error e => simp
  | ok count => by_cases hcnt : count = 0 <;> simp

variable {volume : Volume} {s s' : Storage}

theorem Kept.remove {name : String}
    {volumes : List PersistentVolume} (h : Kept volume s)
    (hprb : volume.1 ∉ longhornProbeVolumeHandles volumes)
    (hst : step s (.remove name volumes) = some s') : Kept volume s' := by
  simp only [step] at hst
  split_ifs at hst with hadm
  cases hst
  obtain ⟨hmember,hcsi,hgate⟩ := hadm
  have hcnt := (gate_plain_iff (by simp [hcsi]) hmember).1 hgate
  simp only [countNodeRemovalStorageVolumes,if_true,hcsi,countNodeStorageVolumes,
    countLonghornNodeVolumes,Except.ok.injEq,filter_ne_eq_erase] at hcnt
  have hle : ∀ {node}, node ∈ s.item.nodes → node ≠ name → node ∈ s.item.nodes.erase name :=
    fun hnd hne => (List.mem_erase_of_ne hne).2 hnd
  constructor
  · intro other hoth
    obtain rfl | hoth := Finset.mem_insert.1 hoth
    · exact s.item.nodup.not_mem_erase
    · exact fun hmem => h.apart other hoth (List.mem_of_mem_erase hmem)
  · obtain ⟨r,hr,hvol,hnd,hheal⟩ := h.holds
    by_cases hon : r.nodeID = name
    · -- The replica goes with the node, so the count has found another one.
      refine survivor_of_count_zero hcnt ⟨volume.2,hprb⟩ (s.item.named name hmember)
        (fun node hnd => ⟨s.item.named_erase name node hnd,?_⟩) ⟨r,hr,hvol,hon⟩
      rintro rfl
      exact s.item.nodup.not_mem_erase hnd
    · exact ⟨r,hr,hvol,hle hnd hon,hheal⟩

theorem Kept.vanish {position : ℕ} (h : Kept volume s)
    (hst : step s (.vanish position) = some s') : Kept volume s' := by
  simp only [step] at hst
  split at hst
  · rename_i gone hgn
    split_ifs at hst with hrmd
    cases hst
    refine ⟨h.apart,?_⟩
    obtain ⟨r,hr,hvol,hnd,hheal⟩ := h.holds
    -- The replica that holds the volume is on a member, so it is not the one that goes.
    refine ⟨r,?_,hvol,hnd,hheal⟩
    obtain ⟨q,hq⟩ := List.mem_iff_getElem?.1 hr
    refine List.mem_eraseIdx_iff_getElem?.2 ⟨q,?_,hq⟩
    rintro rfl
    obtain rfl : r = gone := Option.some.inj (hq.symm.trans hgn)
    exact h.apart _ hrmd hnd
  · cases hst

theorem Kept.step {m : Move} (h : Kept volume s)
    (hprb : m.NotProbe volume) (hst : step s m = some s') : Kept volume s' := by
  cases m with
  | remove name volumes => exact h.remove hprb hst
  | vanish position => exact h.vanish hst

/-- Whatever nodes are removed because the gate counted no volume on them, and whichever of their
replicas disappear: a volume not the probe's with a healthy replica on a member still has one on a
remaining member. -/
theorem removals_keep_healthy_replica {item : Cluster} {replicas : List Replica}
    {moves : List Move} {s : Storage} (hrun : run (start item replicas) moves = some s)
    (volume : Volume) (hprb : ∀ m ∈ moves, m.NotProbe volume)
    (hheld : (start item replicas).Holds volume) : s.Holds volume := by
  have hstr : Kept volume (start item replicas) :=
    ⟨fun name hname => absurd hname (Finset.notMem_empty name),hheld⟩
  generalize start item replicas = s₀ at hrun hstr
  suffices hkept : Kept volume s from hkept.holds
  induction moves generalizing s₀ with
  | nil =>
    cases hrun
    exact hstr
  | cons m moves ih =>
    obtain ⟨s₁,hfst,hrest⟩ := StepRuns.run_cons_eq_some.mp hrun
    exact ih (fun m hm => hprb m (List.mem_cons_of_mem _ hm)) s₁ hrest
      (hstr.step (hprb m List.mem_cons_self) hfst)

/-- A healthy replica. -/
def replicaOf (volume node : String) : Replica :=
  ⟨false,fun field =>
    if field = "volumeName" then some (.text volume)
    else if field = "nodeID" then some (.text node)
    else if field = "healthyAt" then some (.text "2026-01-01T00:00:00Z")
    else none⟩

lemma nodup_three : ["a","b","c"].Nodup := by decide

lemma named_three : ∀ name ∈ ["a","b","c"], name ≠ "" := by decide

def threeNodes : Cluster := ⟨.longhorn,["a","b","c"],nodup_three,named_three⟩

def twoReplicas : List Replica := [replicaOf "v" "a",replicaOf "v" "b"]

/-- The gate refuses the second of the two nodes that hold a volume. -/
theorem second_holder_refused : ∃ s, run (start threeNodes twoReplicas)
    [.remove "a" [],.vanish 0,.remove "c" []] = some s ∧ s.Holds ⟨"v",by decide⟩ ∧
      step s (.remove "b" []) = none := by
  have hend : ((run (start threeNodes twoReplicas) [.remove "a" [],.vanish 0,.remove "c" []]).map
      fun s => (step s (.remove "b" [])).isNone) = some true := by
    decide +kernel
  obtain ⟨s,hrun,hnone⟩ := Option.map_eq_some_iff.mp hend
  refine ⟨s,hrun,removals_keep_healthy_replica hrun ⟨"v",by decide⟩ ?_ ?_,
    Option.isNone_iff_eq_none.mp hnone⟩
  · simp [Move.NotProbe,longhornProbeVolumeHandles]
  · refine ⟨replicaOf "v" "a",by simp [start,twoReplicas],rfl,?_,?_⟩
    · change "a" ∈ ["a","b","c"]
      simp
    · decide +kernel

end TalosBox.ReplicaGate
