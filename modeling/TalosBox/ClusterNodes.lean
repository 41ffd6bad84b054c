import TalosBox.SnapshotRestore
import TalosBox.HostSubnets
import TalosBox.DestroyCluster

/-! Adding and removing nodes of a stored cluster, and the order in which the daemon writes. -/
namespace TalosBox.Snapshots

variable {Data : Type}

def Cluster.diskGiB (c : Cluster) : Role → ℤ
  | .controlPlane => c.controlPlaneDiskGiB
  | .worker => c.workerDiskGiB

inductive NodeError
  | role
  | name (name : FileName)
  | taken (name : FileName)
  | reservation
  | missing (name : FileName)
  deriving DecidableEq

scoped instance lawfulBEqFileName : LawfulBEq FileName := inferInstance

def validName (name : FileName) : Bool := Daemon.validName (.ofList name)

/-- The address and the hardware address a new node gets. -/
structure Identities where
  nextReservationIP : Cluster → Option FileName
  deterministicMAC : FileName → FileName → FileName

def nextNodeName (c : Cluster) (role : Role) : FileName :=
  let label := match role with
    | .controlPlane => "cp".toList
    | .worker => "worker".toList
  let start := c.name ++ '-' :: label++['-']
  let maxIndex := c.nodes.foldl (fun maxIndex node =>
    if start <+: node.name then
      match Subnets.atoi (node.name.drop start.length) with
      | some index => if maxIndex < index then index else maxIndex
      | none => maxIndex
    else maxIndex) (0 : ℤ)
  start++(toString (maxIndex+1)).toList

/-- What a generated name of the role begins with. -/
def nameStart (name : FileName) (role : Role) : FileName :=
  name ++ '-' :: (match role with
    | .controlPlane => "cp".toList
    | .worker => "worker".toList)++['-']

/-- The number a node's name ends in. -/
def suffixIndex (start : FileName) (node : Node) : Option ℤ :=
  if start <+: node.name then Subnets.atoi (node.name.drop start.length) else none

def maxSuffix (start : FileName) (nodes : List Node) : ℤ :=
  nodes.foldl (fun maxIndex node => (suffixIndex start node).elim maxIndex (max maxIndex)) 0

theorem nextNodeName_eq (c : Cluster) (role : Role) :
    nextNodeName c role =
      nameStart c.name role++(toString (maxSuffix (nameStart c.name role) c.nodes+1)).toList := by
  have hst (start : FileName) : (fun (maxIndex : ℤ) (node : Node) =>
      (suffixIndex start node).elim maxIndex (max maxIndex)) = fun maxIndex node =>
      if start <+: node.name then
        match Subnets.atoi (node.name.drop start.length) with
        | some index => if maxIndex < index then index else maxIndex
        | none => maxIndex
      else maxIndex := by
    funext maxIndex node
    unfold suffixIndex
    split
    · cases Subnets.atoi (node.name.drop start.length) with
      | none => rfl
      | some index => exact max_def_lt maxIndex index
    · rfl
  rw [maxSuffix,hst]
  rfl

/-- `AddNode`, for a role that is none of the two if it is `none`. -/
def addNode (ids : Identities) (c : Cluster) (role : Option Role) (name : FileName) :
    Except NodeError (Cluster × Node) :=
  match role with
  | none => .error .role
  | some role =>
    let name := if name = [] then nextNodeName c role else name
    if validName name = false then .error (.name name)
    else if name ∈ c.nodeNames then .error (.taken name)
    else
      match ids.nextReservationIP c with
      | none => .error .reservation
      | some ip =>
        let node : Node := ⟨name,role,ids.deterministicMAC c.name name,ip⟩
        let c := { c with nodes := c.nodes++[node] }
        match role with
        | .controlPlane => .ok ({ c with controlPlanes := c.controlPlanes+1 },node)
        | .worker => .ok ({ c with workers := c.workers+1 },node)

def removeNode (c : Cluster) (name : FileName) : Except NodeError (Cluster × Node) :=
  match c.nodes.find? (·.name = name) with
  | none => .error (.missing name)
  | some node =>
    let c := { c with nodes := c.nodes.erase node }
    match node.role with
    | .controlPlane => .ok ({ c with controlPlanes := c.controlPlanes-1 },node)
    | .worker => .ok ({ c with workers := c.workers-1 },node)

/-- Sizes of disks, and `os.Truncate`. -/
structure Disks (Data : Type) where
  size : Data → ℤ
  truncate : Data → ℤ → Data

variable (disks : Disks Data) (codec : Codec Data)

/-- `Load`, which saves a state it had to bring up to date. -/
def load (saves : Bool) (live : Dir Data) : Dir Data × Option Cluster :=
  match live.lookup stateFile with
  | none => (live,none)
  | some data =>
    match (codec.unmarshal data).bind (codec.upgrade data) with
    | none => (live,none)
    | some (c,false) => (live,some c)
    | some (c,true) => if saves then (live.insert stateFile (codec.marshal c),some c) else (live,none)

/-- `Save`, which replaces the state file by a rename. -/
def save (saves : Bool) (live : Dir Data) (c : Cluster) : Dir Data × Bool :=
  if saves then (live.insert stateFile (codec.marshal c),true) else (live,false)

/-- A disk that exists is only ever extended, a new one is prepared aside and renamed. -/
def provisionDisk (cached : Data) (live : Dir Data) (destination : FileName) (size : ℤ) (works : Bool) :
    Dir Data × Bool :=
  match live.lookup destination with
  | some disk =>
    if disks.size disk < size then
      if works then (live.insert destination (disks.truncate disk size),true) else (live,false)
    else (live,true)
  | none => if works then (live.insert destination (disks.truncate cached size),true) else (live,false)

def provisionNodes (cached : Data) (works : FileName → Bool) (c : Cluster) (live : Dir Data) :
    List Node → Dir Data × Bool
  | [] => (live,true)
  | node::nodes =>
    if validName node.name = false then (live,false)
    else
      match provisionDisk disks cached live (diskName node.name) (c.diskGiB node.role*2^30) (works node.name) with
      | (live,true) => provisionNodes cached works c live nodes
      | (live,false) => (live,false)

def provisionDisks (cached : Data) (works : FileName → Bool) (c : Cluster) (live : Dir Data) : Dir Data × Bool :=
  if [c.controlPlaneDiskGiB,c.workerDiskGiB].any fun gib => gib ≤ 0 || (2^63-1)/2^30 < gib then (live,false)
  else provisionNodes disks cached works c live c.nodes

def nodeSuffixes : List FileName :=
  [".img".toList,".efi".toList,".console.sock".toList,".qga.sock".toList,".vzstate".toList,".vzstate.owner".toList,
    ".vzstate.noballoon".toList]

/-- `removeNodeFiles`, which stops at the first file that stays. -/
def removeNodeFiles (removes : FileName → Bool) (node : FileName) (live : Dir Data) : List FileName → Dir Data × Bool
  | [] => (live,true)
  | suffix::suffixes =>
    let file := (node++suffix).dropWhile (· = '/')
    if removes file then removeNodeFiles removes node (live.erase file) suffixes else (live,false)

/-- The host's answers to one request of the daemon. -/
structure NodeAnswers (Data : Type) where
  /-- The checks of the host's memory, the subnet and the image cache pass. -/
  admitted : Bool
  cachedDisk : Data
  upgrades : Bool
  provisions : FileName → Bool
  /-- The helper takes the new reservations. -/
  synced : Bool
  stops : Bool
  saves : Bool
  removes : FileName → Bool

/-- `addNodeLocked`: the files it leaves. -/
def addNodeLocked (ids : Identities) (a : NodeAnswers Data) (role : Option Role) (name : FileName) (live : Dir Data) :
    Dir Data :=
  match load codec a.upgrades live with
  | (live,none) => live
  | (live,some item) =>
    if a.admitted = false then live
    else
      match addNode ids item role name with
      | .error _ => live
      | .ok (item,node) =>
        let undo (live : Dir Data) : Dir Data := (removeNodeFiles a.removes node.name live nodeSuffixes).1
        match provisionDisks disks a.cachedDisk a.provisions item live with
        | (live,false) => undo live
        | (live,true) =>
          if a.synced = false then undo live
          else
            match save codec a.saves live item with
            | (live,true) => live
            | (live,false) => undo live

/-- `removeNodeLocked`: the files it leaves. -/
def removeNodeLocked (a : NodeAnswers Data) (name : FileName) (live : Dir Data) : Dir Data :=
  match load codec a.upgrades live with
  | (live,none) => live
  | (live,some item) =>
    match removeNode item name with
    | .error _ => live
    | .ok (item,node) =>
      if a.stops = false then live
      else
        match save codec a.saves live item with
        | (live,false) => live
        | (live,true) => (removeNodeFiles a.removes node.name live nodeSuffixes).1

def nodeExtensions : List FileName :=
  [".img".toList,".efi".toList,".sock".toList,".vzstate".toList,".owner".toList,".noballoon".toList]

theorem ext_nodeFile (node : FileName) {suffix : FileName} (h : suffix ∈ nodeSuffixes) :
    ext ((node++suffix).dropWhile (· = '/')) ∈ nodeExtensions := by
  have hext : ∀ suffix ∈ nodeSuffixes, suffix.head? ≠ some '/' ∧
      ∃ e ∈ nodeExtensions, e <:+ suffix ∧ e.head? = some '.' ∧ '.' ∉ e.tail := by
    decide +kernel
  obtain ⟨hhd,e,hmem,he,hdot,hpl⟩ := hext suffix h
  obtain ⟨e,rfl⟩ := List.head?_eq_some_iff.1 hdot
  rw [ext_of_suffix (he.trans (suffix_dropWhile node hhd)) hpl]
  exact hmem

theorem ext_restoring_not_mem (image : FileName) : ext (restoring image) ∉ nodeExtensions := by
  have hext : ext (restoring image) = ".restoring".toList := ext_append (by decide)
  rw [hext]
  decide

variable {disks codec}

section

variable (live : Dir Data)

theorem lookup_load_of_ne (saves : Bool) {k : FileName} (hk : k ≠ stateFile) :
    (load codec saves live).1.lookup k = live.lookup k := by
  unfold load
  split
  · rfl
  split
  · rfl
  · rfl
  · split
    · exact Finmap.lookup_insert_of_ne _ hk
    · rfl

theorem lookup_save_of_ne (saves : Bool) (c : Cluster) {k : FileName} (hk : k ≠ stateFile) :
    (save codec saves live c).1.lookup k = live.lookup k := by
  unfold save
  split
  · exact Finmap.lookup_insert_of_ne _ hk
  · rfl

theorem lookup_provisionDisk_of_ne (cached : Data) {dst : FileName} (size : ℤ) (works : Bool) {k : FileName}
    (hk : k ≠ dst) : (provisionDisk disks cached live dst size works).1.lookup k = live.lookup k := by
  unfold provisionDisk
  split <;> split_ifs <;> first | rfl | exact Finmap.lookup_insert_of_ne _ hk

theorem lookup_provisionDisks_of_not_image (cached : Data) (works : FileName → Bool) (c : Cluster) {k : FileName}
    (hk : isImage k = false) : (provisionDisks disks cached works c live).1.lookup k = live.lookup k := by
  have hlp : ∀ nodes : List Node, ∀ live : Dir Data,
      (provisionNodes disks cached works c live nodes).1.lookup k = live.lookup k := by
    intro nodes
    induction nodes with
    | nil => exact fun _ => rfl
    | cons node nodes ih =>
      intro live
      have hne : k ≠ diskName node.name := fun heq => by simp [heq,isImage_diskName] at hk
      have hdk : (provisionDisk disks cached live (diskName node.name) (c.diskGiB node.role*2^30)
          (works node.name)).1.lookup k = live.lookup k := lookup_provisionDisk_of_ne live cached _ _ hne
      rw [provisionNodes]
      split
      · rfl
      · split
        · rename_i heq
          rw [heq] at hdk
          rw [ih,hdk]
        · rename_i heq
          rw [heq] at hdk
          exact hdk
  unfold provisionDisks
  split
  · rfl
  · exact hlp c.nodes live

theorem lookup_removeNodeFiles_of_ext (removes : FileName → Bool) (node : FileName) {k : FileName}
    (hk : ext k ∉ nodeExtensions) {suffixes : List FileName} (h : ∀ suffix ∈ suffixes, suffix ∈ nodeSuffixes) :
    (removeNodeFiles removes node live suffixes).1.lookup k = live.lookup k := by
  induction suffixes generalizing live with
  | nil => rfl
  | cons suffix suffixes ih =>
    simp only [removeNodeFiles]
    split
    · rw [ih _ fun s hs => h s (by simp [hs])]
      refine Finmap.lookup_erase_ne ?_
      rintro rfl
      exact hk (ext_nodeFile node (h suffix (by simp)))
    · rfl

end

theorem lookup_addNodeLocked_restoring (ids : Identities) (a : NodeAnswers Data) (role : Option Role) (name : FileName)
    (live : Dir Data) (image : FileName) :
    (addNodeLocked disks codec ids a role name live).lookup (restoring image) = live.lookup (restoring image) := by
  have hlo : (load codec a.upgrades live).1.lookup (restoring image) = live.lookup (restoring image) :=
    lookup_load_of_ne live a.upgrades (restoring_ne_stateFile image)
  rw [← hlo]
  unfold addNodeLocked
  generalize load codec a.upgrades live = loaded
  obtain ⟨live₁,item⟩ := loaded
  cases item with
  | none => rfl
  | some item =>
    simp only
    split
    · rfl
    split
    · rfl
    rename_i item' node _
    have hundo : ∀ d : Dir Data, (removeNodeFiles a.removes node.name d nodeSuffixes).1.lookup (restoring image) =
        d.lookup (restoring image) := fun d =>
      lookup_removeNodeFiles_of_ext d a.removes node.name (ext_restoring_not_mem image) fun _ hs => hs
    have hdks : (provisionDisks disks a.cachedDisk a.provisions item' live₁).1.lookup (restoring image) =
        live₁.lookup (restoring image) :=
      lookup_provisionDisks_of_not_image live₁ a.cachedDisk a.provisions item' (not_isImage_restoring image)
    rw [← hdks]
    generalize provisionDisks disks a.cachedDisk a.provisions item' live₁ = provisioned
    obtain ⟨live₂,ok⟩ := provisioned
    cases ok with
    | false => exact hundo live₂
    | true =>
      simp only
      split
      · exact hundo live₂
      have hsv : (save codec a.saves live₂ item').1.lookup (restoring image) = live₂.lookup (restoring image) :=
        lookup_save_of_ne live₂ a.saves item' (restoring_ne_stateFile image)
      rw [← hsv]
      generalize save codec a.saves live₂ item' = saved
      obtain ⟨live₃,ok⟩ := saved
      cases ok with
      | false => exact hundo live₃
      | true => rfl

theorem lookup_removeNodeLocked_restoring (a : NodeAnswers Data) (name : FileName) (live : Dir Data) (image : FileName) :
    (removeNodeLocked codec a name live).lookup (restoring image) = live.lookup (restoring image) := by
  have hlo : (load codec a.upgrades live).1.lookup (restoring image) = live.lookup (restoring image) :=
    lookup_load_of_ne live a.upgrades (restoring_ne_stateFile image)
  rw [← hlo]
  unfold removeNodeLocked
  generalize load codec a.upgrades live = loaded
  obtain ⟨live₁,item⟩ := loaded
  cases item with
  | none => rfl
  | some item =>
    simp only
    split
    · rfl
    rename_i item' node _
    split
    · rfl
    have hsv : (save codec a.saves live₁ item').1.lookup (restoring image) = live₁.lookup (restoring image) :=
      lookup_save_of_ne live₁ a.saves item' (restoring_ne_stateFile image)
    rw [← hsv]
    generalize save codec a.saves live₁ item' = saved
    obtain ⟨live₂,ok⟩ := saved
    cases ok with
    | false => rfl
    | true => exact lookup_removeNodeFiles_of_ext live₂ a.removes node.name (ext_restoring_not_mem image) fun _ hs => hs

/-- A state that is loaded has the nodes that its file records. -/
theorem load_eq_some {saves : Bool} {live live' : Dir Data} {c : Cluster} (h : load codec saves live = (live',some c)) :
    ∃ raw, (live'.lookup stateFile).bind codec.unmarshal = some raw ∧ raw.nodeNames = c.nodeNames := by
  unfold load at h
  split at h
  · cases h
  rename_i data hda
  split at h
  · cases h
  · rename_i c' hlo
    obtain ⟨rfl,hc⟩ := Prod.mk.inj h
    cases hc
    obtain ⟨raw,hraw,hupgr⟩ := Option.bind_eq_some_iff.1 hlo
    exact ⟨raw,by simp [hda,hraw],(codec.upgrade_nodeNames hupgr).symm⟩
  · rename_i c' hlo
    split_ifs at h
    · obtain ⟨rfl,hc⟩ := Prod.mk.inj h
      obtain rfl := Option.some.inj hc
      exact ⟨c',by simp [codec.unmarshal_marshal],rfl⟩
    · cases h

end TalosBox.Snapshots
