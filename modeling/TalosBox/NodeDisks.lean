import TalosBox.SnapshotRoundTrip

/-! The disks of added nodes. A disk goes by its node's name, names are given out again, and a disk
that is there is kept: whether a new node gets a new disk depends on what earlier requests left. -/
namespace TalosBox.Snapshots

open Finmap (lookup_erase lookup_insert lookup_insert_of_ne)
open MapLoops KeyedFold List Option

variable {Data : Type} (codec : Codec Data) (disks : Disks Data) (ids : Identities)
  (order : Order FileName)

inductive Request (Data : Type)
  | event (e : Event Data)
  | restore (a : RestoreAnswers Data) (name : FileName)

def serve (w : World Data) : Request Data → World Data
  | .event e => step codec disks ids w e
  | .restore a name => ⟨(restoreSnapshot codec order a name w.snapshots w.live).live,w.snapshots⟩

def served (w : World Data) (requests : List (Request Data)) : World Data :=
  requests.foldl (serve codec disks ids order) w

/-- The node `addNodeLocked` adds and the state it saves. Behind that only the machine's creation
can fail. -/
def addedNode (a : NodeAnswers Data) (role : Option Role) (name : FileName) (live : Dir Data) :
    Option (Cluster × Node) :=
  match load codec a.upgrades live with
  | (_,none) => none
  | (live,some item) =>
    if a.admitted = false then none
    else
      match addNode ids item role name with
      | .error _ => none
      | .ok (item,node) =>
        if (provisionDisks disks a.cachedDisk a.provisions item live).2 ∧ a.synced ∧
          a.saves then some (item,node) else none

/-- The names of the nodes the state file records. -/
def recorded (live : Dir Data) : List FileName :=
  ((live.lookup stateFile).bind codec.unmarshal).elim [] Cluster.nodeNames

/-- A file is where the disk of a node of this name would be, and is no recorded node's disk. -/
def Leftover (live : Dir Data) (name : FileName) : Prop :=
  (live.lookup (diskName name)).isSome ∧ ∀ node ∈ recorded codec live, diskName node ≠ diskName name

/-- The request has made the disk, as a clone of the cached image. -/
def Fresh (a : NodeAnswers Data) (item : Cluster) (node : Node) (before after : Dir Data) : Prop :=
  before.lookup (diskName node.name) = none ∧
    after.lookup (diskName node.name) = some (disks.truncate a.cachedDisk (item.diskGiB node.role*2^30))

/-- No file that has to go stays, and a restore that has come to the swaps gets through. -/
def Request.Clears : Request Data → Prop
  | .event (.addNode a _ _) | .event (.removeNode a _) => ∀ image, isImage image → a.removes image
  | .event _ => True
  | .restore a _ => (∀ image, a.rename image ∧ a.listed image ∧ a.delete image) ∧
    a.removeState ∧ a.copyState = .done

variable {codec disks ids order} {name : FileName}

theorem slash_not_mem_base (h : validName name) : name = ['/'] ∨ '/' ∉ name ∧ name ≠ [] := by
  simp only [validName,Daemon.validName,Daemon.base,Bool.and_eq_true,decide_eq_true_eq] at h
  obtain ⟨⟨⟨hne,hbase⟩,-⟩,-⟩ := h
  rw [if_neg (by simpa using hne)] at hbase
  simp only [String.toList_ofList] at hbase
  split_ifs at hbase with hla
  · left
    have hls := congrArg String.toList hbase
    simpa using hls.symm
  · right
    have hls := congrArg String.toList hbase
    simp only [String.toList_ofList] at hls
    refine ⟨fun hmem => ?_,fun hnil => hla (by rw [hls,hnil])⟩
    rw [← hls,mem_reverse] at hmem
    simpa using mem_takeWhile_imp hmem

lemma diskName_of_slash_not_mem (h : '/' ∉ name) : diskName name = imageName name := by
  refine diskName_eq_imageName_iff.2 fun hhd => h ?_
  exact mem_of_mem_head? hhd

/-- Valid names have their own disks. -/
theorem diskName_inj_of_valid {i j : FileName} (hi : validName i) (hj : validName j)
    (h : diskName i = diskName j) : i = j := by
  have hsl : diskName ['/'] = imageName [] := by decide
  rcases slash_not_mem_base hi with rfl | ⟨hi,hi'⟩ <;> rcases slash_not_mem_base hj with rfl | ⟨hj,hj'⟩
  · rfl
  · rw [hsl,diskName_of_slash_not_mem hj,imageName_inj] at h
    exact absurd h.symm hj'
  · rw [hsl,diskName_of_slash_not_mem hi,imageName_inj] at h
    exact absurd h hi'
  · rwa [diskName_of_slash_not_mem hi,diskName_of_slash_not_mem hj,imageName_inj] at h

theorem diskName_of_imageName_eq {node : FileName} (h : imageName node = diskName name) :
    diskName node = diskName name := by
  rw [diskName,h]
  cases hnm : diskName name with
  | nil => rfl
  | cons c rest =>
    have hc : c ≠ '/' := fun heq => head_diskName name (by rw [hnm,heq]; rfl)
    simp [hc]

variable {role : Option Role} {c : Cluster}

theorem addNode_eq_ok {c' : Cluster} {node : Node}
    (h : addNode ids c role name = .ok (c',node)) : c'.nodes = c.nodes++[node] ∧ node.name ∉ c.nodeNames := by
  cases role with
  | none => cases h
  | some role =>
    simp only [addNode] at h
    generalize (if name = [] then nextNodeName c role else name) = name at h
    split at h
    · cases h
    · split at h
      · cases h
      · rename_i hnew
        split at h
        · cases h
        · cases role with
          | controlPlane =>
            cases h
            exact ⟨rfl,hnew⟩
          | worker =>
            cases h
            exact ⟨rfl,hnew⟩

theorem removeNode_eq_ok {c' : Cluster} {node : Node} (h : removeNode c name = .ok (c',node)) :
    c'.nodes = c.nodes.erase node := by
  unfold removeNode at h
  split at h
  · cases h
  · rename_i found _
    cases hrole : found.role with
    | controlPlane =>
      simp only [hrole] at h
      cases h
      rfl
    | worker =>
      simp only [hrole] at h
      cases h
      rfl

section

variable {cached : Data} {works : FileName → Bool} {c : Cluster}

/-- What becomes of a disk, or of none. -/
def provisioned (disks : Disks Data) (cached : Data) (size : ℤ) : Option Data → Data
  | none => disks.truncate cached size
  | some disk => if disks.size disk < size then disks.truncate disk size else disk

variable {live live' : Dir Data}

theorem provisionDisk_eq_true {dst : FileName} {size : ℤ} {works : Bool}
    (h : provisionDisk disks cached live dst size works = (live',true)) :
    live'.lookup dst = some (provisioned disks cached size (live.lookup dst)) := by
  unfold provisionDisk at h
  cases hdk : live.lookup dst with
  | none =>
    simp only [hdk] at h
    split_ifs at h
    · obtain ⟨rfl,-⟩ := Prod.mk.inj h
      exact lookup_insert _
    · cases h
  | some disk =>
    simp only [hdk] at h
    simp only [provisioned]
    split_ifs at h ⊢
    · obtain ⟨rfl,-⟩ := Prod.mk.inj h
      exact lookup_insert _
    · cases h
    · obtain ⟨rfl,-⟩ := Prod.mk.inj h
      exact hdk

theorem provisionNodes_cons_eq_true {node : Node} {nodes : List Node}
    (h : provisionNodes disks cached works c live (node::nodes) = (live',true)) :
    validName node.name ∧ ∃ live₁,
      provisionDisk disks cached live (diskName node.name) (c.diskGiB node.role*2^30) (works node.name) = (live₁,true) ∧
      provisionNodes disks cached works c live₁ nodes = (live',true) := by
  rw [provisionNodes] at h
  split_ifs at h with hval
  · cases h
  · split at h
    · rename_i live₁ hdk
      exact ⟨by simpa using hval,live₁,hdk,h⟩
    · cases h

theorem provisionNodes_valid {nodes : List Node}
    (h : provisionNodes disks cached works c live nodes = (live',true)) : ∀ node ∈ nodes, validName node.name := by
  induction nodes generalizing live with
  | nil => simp
  | cons node nodes ih =>
    obtain ⟨hval,live₁,-,hrs⟩ := provisionNodes_cons_eq_true h
    rintro other (_ | ⟨_,hoth⟩)
    · exact hval
    · exact ih hrs other hoth

theorem provisionNodes_last {nodes : List Node} {node : Node}
    (hnew : ∀ other ∈ nodes, diskName other.name ≠ diskName node.name)
    (h : provisionNodes disks cached works c live (nodes++[node]) = (live',true)) :
    live'.lookup (diskName node.name) =
      some (provisioned disks cached (c.diskGiB node.role*2^30) (live.lookup (diskName node.name))) := by
  induction nodes generalizing live with
  | nil =>
    obtain ⟨-,live₁,hdk,hrs⟩ := provisionNodes_cons_eq_true h
    obtain ⟨rfl,-⟩ := Prod.mk.inj hrs
    exact provisionDisk_eq_true hdk
  | cons other nodes ih =>
    obtain ⟨-,live₁,hdk,hrs⟩ := provisionNodes_cons_eq_true h
    have hfrm : live₁.lookup (diskName node.name) = live.lookup (diskName node.name) := by
      have hne : (provisionDisk disks cached live (diskName other.name) (c.diskGiB other.role*2^30)
          (works other.name)).1.lookup (diskName node.name) = live.lookup (diskName node.name) :=
        lookup_provisionDisk_of_ne live cached _ _ (hnew other (by simp)).symm
      rwa [hdk] at hne
    rw [← hfrm]
    exact ih (fun other hoth => hnew other (by simp [hoth])) hrs

theorem provisionDisks_made {k : FileName}
    (h : ((provisionDisks disks cached works c live).1.lookup k).isSome) :
    (live.lookup k).isSome ∨ ∃ node ∈ c.nodes, diskName node.name = k := by
  have hlp : ∀ nodes : List Node, ∀ live : Dir Data,
      ((provisionNodes disks cached works c live nodes).1.lookup k).isSome →
      (live.lookup k).isSome ∨ ∃ node ∈ nodes, diskName node.name = k := by
    intro nodes
    induction nodes with
    | nil => exact fun live h => .inl h
    | cons node nodes ih =>
      intro live h
      by_cases hk : diskName node.name = k
      · exact .inr ⟨node,by simp,hk⟩
      · have hdk : (provisionDisk disks cached live (diskName node.name) (c.diskGiB node.role*2^30)
            (works node.name)).1.lookup k = live.lookup k := lookup_provisionDisk_of_ne live cached _ _ (Ne.symm hk)
        rw [provisionNodes] at h
        split_ifs at h
        · exact .inl h
        · split at h
          · rename_i live₁ heq
            rw [heq] at hdk
            rcases ih live₁ h with hso | ⟨other,hoth,rfl⟩
            · exact .inl (hdk ▸ hso)
            · exact .inr ⟨other,by simp [hoth],rfl⟩
          · rename_i live₁ heq
            rw [heq] at hdk
            exact .inl (hdk ▸ h)
  unfold provisionDisks at h
  split_ifs at h
  · exact .inl h
  · exact hlp c.nodes live h

theorem provisionDisks_eq_true (h : provisionDisks disks cached works c live = (live',true)) :
    provisionNodes disks cached works c live c.nodes = (live',true) := by
  unfold provisionDisks at h
  split_ifs at h
  · cases h
  · exact h

end

variable {live : Dir Data}

/-- Removing files leaves no more than there was, and the disk goes first. -/
theorem removeNodeFiles_sublist (removes : FileName → Bool) (node : FileName) {k : FileName} {suffixes : List FileName} (h : ((removeNodeFiles removes node live suffixes).1.lookup k).isSome) : (live.lookup k).isSome := by
  induction suffixes generalizing live with
  | nil => exact h
  | cons suffix suffixes ih =>
    simp only [removeNodeFiles] at h
    split_ifs at h
    · have hers := ih h
      by_cases hk : k = (node++suffix).dropWhile (· = '/')
      · rw [hk,lookup_erase] at hers
        cases hers
      · rwa [Finmap.lookup_erase_ne hk] at hers
    · exact h

theorem removeNodeFiles_disk {removes : FileName → Bool} (h : ∀ image, isImage image → removes image)
    (node : FileName) (live : Dir Data) :
    (removeNodeFiles removes node live nodeSuffixes).1.lookup (diskName node) = none := by
  have hdk : removes ((node ++ ".img".toList).dropWhile (· = '/')) := h _ (isImage_diskName node)
  rw [← not_isSome_iff_eq_none]
  intro hso
  rw [nodeSuffixes,removeNodeFiles] at hso
  simp only [hdk] at hso
  have hers := removeNodeFiles_sublist removes node hso
  change ((live.erase (diskName node)).lookup (diskName node)).isSome at hers
  rw [lookup_erase] at hers
  cases hers

/-- What an addition comes to. -/
inductive Addition (codec : Codec Data) (disks : Disks Data) (ids : Identities) (a : NodeAnswers Data)
    (role : Option Role) (name : FileName) (live : Dir Data) : Dir Data → Option (Cluster × Node) → Prop
  | refused : Addition codec disks ids a role name live (load codec a.upgrades live).1 none
  | undone {live₁ : Dir Data} {item item' : Cluster} {node : Node}
      (hlo : load codec a.upgrades live = (live₁,some item)) (hadd : addNode ids item role name = .ok (item',node)) :
      Addition codec disks ids a role name live
        (removeNodeFiles a.removes node.name (provisionDisks disks a.cachedDisk a.provisions item' live₁).1
          nodeSuffixes).1 none
  | added {live₁ live₂ : Dir Data} {item item' : Cluster} {node : Node}
      (hlo : load codec a.upgrades live = (live₁,some item)) (hadd : addNode ids item role name = .ok (item',node))
      (hdks : provisionDisks disks a.cachedDisk a.provisions item' live₁ = (live₂,true)) :
      Addition codec disks ids a role name live (live₂.insert stateFile (codec.marshal item')) (some (item',node))

variable (codec disks ids) in
theorem addition (a : NodeAnswers Data) (role : Option Role) (name : FileName) (live : Dir Data) :
    Addition codec disks ids a role name live (addNodeLocked disks codec ids a role name live)
      (addedNode codec disks ids a role name live) := by
  have hrf : Addition codec disks ids a role name live (load codec a.upgrades live).1 none := .refused
  unfold addNodeLocked addedNode
  rcases hlo : load codec a.upgrades live with ⟨live₁,item⟩
  rw [hlo] at hrf
  cases item with
  | none => exact hrf
  | some item =>
    simp only
    by_cases hadm : a.admitted = false
    · rw [if_pos hadm,if_pos hadm]
      exact hrf
    · rw [if_neg hadm,if_neg hadm]
      rcases hadd : addNode ids item role name with e | ⟨item',node⟩
      · exact hrf
      · have hundone : Addition codec disks ids a role name live _ none := .undone hlo hadd
        simp only
        rcases hdks : provisionDisks disks a.cachedDisk a.provisions item' live₁ with ⟨live₂,ok⟩
        rw [hdks] at hundone
        cases ok with
        | false => simpa using hundone
        | true =>
          cases hsyn : a.synced with
          | false => simpa using hundone
          | true =>
            cases hsvs : a.saves with
            | false => simpa [save] using hundone
            | true => simpa [save] using Addition.added hlo hadd hdks

lemma recorded_congr {live' : Dir Data} (h : live'.lookup stateFile = live.lookup stateFile) :
    recorded codec live' = recorded codec live := by
  rw [recorded,h,recorded]

lemma recorded_removeNodeFiles (removes : FileName → Bool) (node : FileName) (live : Dir Data) :
    recorded codec (removeNodeFiles removes node live nodeSuffixes).1 = recorded codec live :=
  recorded_congr (lookup_removeNodeFiles_of_ext live removes node (by decide) fun _ hs => hs)

theorem recorded_insert (live : Dir Data) (c : Cluster) :
    recorded codec (live.insert stateFile (codec.marshal c)) = c.nodeNames := by
  rw [recorded,lookup_insert,bind_some,codec.unmarshal_marshal]
  rfl

theorem recorded_of_load {saves : Bool} {live' : Dir Data}
    (h : load codec saves live = (live',some c)) : recorded codec live' = c.nodeNames := by
  obtain ⟨raw,hraw,hnms⟩ := load_eq_some h
  rw [recorded,hraw]
  exact hnms

theorem recorded_load (saves : Bool) (live : Dir Data) : recorded codec (load codec saves live).1 = recorded codec live := by
  unfold load
  split
  · rfl
  · rename_i data hda
    split
    · rfl
    · rfl
    · rename_i c hlo
      split_ifs
      · obtain ⟨raw,hraw,hupgr⟩ := bind_eq_some_iff.1 hlo
        rw [recorded_insert,recorded,hda,bind_some,hraw]
        exact codec.upgrade_nodeNames hupgr
      · rfl

/-- Disks and the names that are recorded decide what is left over. -/
theorem leftover_of {live' : Dir Data} (h : Leftover codec live' name)
    (hdk : (live'.lookup (diskName name)).isSome → (live.lookup (diskName name)).isSome)
    (hrec : ∀ node ∈ recorded codec live, node ∈ recorded codec live' ∨ diskName node ≠ diskName name) :
    Leftover codec live name := by
  refine ⟨hdk h.1,fun node hnd => ?_⟩
  rcases hrec node hnd with hmem | hne
  · exact h.2 node hmem
  · exact hne

theorem leftover_load (saves : Bool) :
    Leftover codec (load codec saves live).1 name ↔ Leftover codec live name := by
  rw [Leftover,recorded_load,lookup_load_of_ne live saves (ne_stateFile_of_isImage (isImage_diskName name))]
  rfl

/-- A node that is added has a new disk unless one of its name was left over. -/
theorem fresh_iff_of_added {a : NodeAnswers Data}
    {item : Cluster} {node : Node} (h : addedNode codec disks ids a role name live = some (item,node)) :
    Fresh disks a item node live (addNodeLocked disks codec ids a role name live) ↔ ¬ Leftover codec live node.name := by
  have hcs := addition codec disks ids a role name live
  rw [h] at hcs
  rw [← leftover_load a.upgrades]
  generalize addNodeLocked disks codec ids a role name live = after at hcs
  cases hcs with
  | @added live₁ live₂ item₀ _ _ hlo hadd hdks =>
    have hbef : (load codec a.upgrades live).1.lookup (diskName node.name) = live.lookup (diskName node.name) :=
      lookup_load_of_ne live a.upgrades (ne_stateFile_of_isImage (isImage_diskName node.name))
    rw [Fresh,← hbef,hlo]
    obtain ⟨hnds,hnew⟩ := addNode_eq_ok hadd
    have hlp := provisionDisks_eq_true hdks
    rw [hnds] at hlp
    have hval := provisionNodes_valid hlp
    have hoth : ∀ other ∈ item₀.nodes, diskName other.name ≠ diskName node.name := by
      intro other hoth heq
      have hsm := diskName_inj_of_valid (hval other (by simp [hoth])) (hval node (by simp)) heq
      exact hnew (hsm ▸ mem_map_of_mem hoth)
    have hdk := provisionNodes_last hoth hlp
    rw [lookup_insert_of_ne _ (ne_stateFile_of_isImage (isImage_diskName node.name)),hdk]
    have hno : ¬ Leftover codec live₁ node.name ↔ live₁.lookup (diskName node.name) = none := by
      rw [Leftover,recorded_of_load hlo,← not_isSome_iff_eq_none,not_iff_not]
      refine and_iff_left fun name hnm => ?_
      obtain ⟨other,hmem,rfl⟩ := mem_map.1 hnm
      exact hoth other hmem
    rw [hno]
    refine and_iff_left_of_imp fun hlk => ?_
    rw [hlk]
    rfl

theorem leftover_addNode {a : NodeAnswers Data} (ha : ∀ image, isImage image → a.removes image) {node : FileName}
    (h : Leftover codec (addNodeLocked disks codec ids a role name live) node) : Leftover codec live node := by
  have hcs := addition codec disks ids a role name live
  rw [← leftover_load a.upgrades]
  have hste : stateFile ≠ diskName node := (ne_stateFile_of_isImage (isImage_diskName node)).symm
  generalize addNodeLocked disks codec ids a role name live = after at hcs h
  generalize addedNode codec disks ids a role name live = added at hcs
  cases hcs with
  | refused => exact h
  | @undone live₁ item item' new hlo hadd =>
    obtain ⟨hnds,-⟩ := addNode_eq_ok hadd
    have hrec : recorded codec (removeNodeFiles a.removes new.name
        (provisionDisks disks a.cachedDisk a.provisions item' live₁).1 nodeSuffixes).1 = recorded codec live₁ := by
      rw [recorded_removeNodeFiles]
      exact recorded_congr (lookup_provisionDisks_of_not_image live₁ _ _ _ not_isImage_stateFile)
    rw [hlo]
    refine leftover_of h (fun hso => ?_) fun other hoth => .inl (hrec ▸ hoth)
    rcases provisionDisks_made (removeNodeFiles_sublist _ _ hso) with hbef | ⟨other,hoth,hdk⟩
    · exact hbef
    · -- a node of the old state is recorded, and the new one's disk is gone
      rw [hnds,mem_append,mem_singleton] at hoth
      rcases hoth with hoth | rfl
      · refine absurd hdk (h.2 other.name ?_)
        rw [hrec,recorded_of_load hlo]
        exact mem_map_of_mem hoth
      · rw [← hdk,removeNodeFiles_disk ha] at hso
        cases hso
  | @added live₁ live₂ item item' new hlo hadd hdks =>
    obtain ⟨hnds,-⟩ := addNode_eq_ok hadd
    rw [hlo]
    have hrec : recorded codec (live₂.insert stateFile (codec.marshal item')) = item'.nodeNames :=
      recorded_insert live₂ item'
    refine leftover_of h (fun hso => ?_) fun other hoth => .inl ?_
    · rw [lookup_insert_of_ne _ hste.symm] at hso
      have hmade : ((provisionDisks disks a.cachedDisk a.provisions item' live₁).1.lookup (diskName node)).isSome := by
        rw [hdks]
        exact hso
      rcases provisionDisks_made hmade with hbef | ⟨other,hoth,hdk⟩
      · exact hbef
      · refine absurd hdk (h.2 other.name ?_)
        rw [hrec]
        exact mem_map_of_mem hoth
    · rw [recorded_of_load hlo] at hoth
      rw [hrec,Cluster.nodeNames,hnds,map_append]
      exact mem_append_left _ hoth

theorem leftover_removeNode {a : NodeAnswers Data} (ha : ∀ image, isImage image → a.removes image) {node : FileName} (h : Leftover codec (removeNodeLocked codec a name live) node) :
    Leftover codec live node := by
  have hste : stateFile ≠ diskName node := (ne_stateFile_of_isImage (isImage_diskName node)).symm
  rw [← leftover_load a.upgrades]
  unfold removeNodeLocked at h
  rcases hlo : load codec a.upgrades live with ⟨live₁,item⟩
  rw [hlo] at h
  cases item with
  | none => exact h
  | some item =>
    simp only at h
    rcases hrm : removeNode item name with e | ⟨item',gone⟩
    · rw [hrm] at h
      exact h
    · rw [hrm] at h
      simp only [save] at h
      split_ifs at h with hstops hsvs
      · exact h
      · have hrec : recorded codec (removeNodeFiles a.removes gone.name
            (live₁.insert stateFile (codec.marshal item')) nodeSuffixes).1 = item'.nodeNames := by
          rw [recorded_removeNodeFiles,recorded_insert]
        refine leftover_of h (fun hso => ?_) fun other hoth => ?_
        · have hbef := removeNodeFiles_sublist _ _ hso
          rwa [lookup_insert_of_ne _ hste.symm] at hbef
        · rw [recorded_of_load hlo,Cluster.nodeNames,List.mem_map] at hoth
          obtain ⟨other,hoth,rfl⟩ := hoth
          by_cases hgn : other = gone
          · right
            intro heq
            have hno := removeNodeFiles_disk ha gone.name (live₁.insert stateFile (codec.marshal item'))
            rw [← hgn,heq] at hno
            have hso := h.1
            rw [← hgn] at hso
            simp only [hno] at hso
            cases hso
          · left
            rw [hrec,Cluster.nodeNames,removeNode_eq_ok hrm]
            exact mem_map_of_mem ((mem_erase_of_ne hgn).2 hoth)
      · exact h

theorem leftover_restore {a : RestoreAnswers Data} {snaps : Map FileName (Dir Data)}
    (ha : (∀ image, a.rename image ∧ a.listed image ∧ a.delete image) ∧
      a.removeState ∧ a.copyState = .done) {node : FileName}
    (h : Leftover codec (restoreSnapshot codec order a name snaps live).live node) : Leftover codec live node := by
  obtain ⟨him,hste,hco⟩ := ha
  unfold restoreSnapshot at h
  cases hop : openSnapshot codec a name snaps with
  | error e =>
    rw [hop] at h
    exact h
  | ok snap =>
    simp only [hop] at h
    obtain ⟨captured,hrst⟩ := openSnapshot_eq_ok hop
    rcases install_cases order a snap live with ⟨pre,i,post,-,-,hfa⟩ | ⟨pre,i,post,-,-,hfa⟩ | ⟨live',hsw,hinst⟩
    · -- only copies have come and gone
      have hdk := hfa.frame (diskName node) fun j _ => ne_restoring_of_isImage (isImage_diskName node) j
      have hrec : recorded codec (install order a snap live).live = recorded codec live :=
        recorded_congr (hfa.frame stateFile fun j _ => (restoring_ne_stateFile j).symm)
      exact leftover_of h (fun hso => hdk ▸ hso) fun other hoth => .inl (hrec ▸ hoth)
    · exact absurd hfa.cause (by simp [(him i).1])
    · obtain ⟨data,hda,hcapt⟩ := bind_eq_some_iff.1 hrst.state
      have hlv : (install order a snap live).live = (live'.erase stateFile).insert stateFile data := by
        rw [hinst]
        simp [switchState,copyFile,hste,hco,hda]
      have hrec : recorded codec (install order a snap live).live = captured.nodeNames := by
        rw [hlv,recorded,lookup_insert,bind_some,hcapt]
        rfl
      -- the images are those of the recorded nodes
      have hne := ne_stateFile_of_isImage (isImage_diskName node)
      obtain ⟨hso,hoth⟩ := h
      rw [hlv,lookup_insert_of_ne _ hne,Finmap.lookup_erase_ne hne] at hso
      by_cases hmem : diskName node ∈ images snap
      · obtain ⟨other,hnd,hnm⟩ := (hrst.disks _).1 hmem
        exact absurd (diskName_of_imageName_eq hnm) (hoth other (hrec ▸ hnd))
      · rw [hsw.surplus _ hmem (isImage_diskName node),if_pos (him _).2] at hso
        cases hso

theorem leftover_serve {w : World Data} {r : Request Data} (hr : r.Clears)
    (h : Leftover codec (serve codec disks ids order w r).live name) : Leftover codec w.live name := by
  cases r with
  | restore a snapshot => exact leftover_restore hr h
  | event e =>
    cases e with
    | addNode a role node => exact leftover_addNode hr h
    | removeNode a node => exact leftover_removeNode hr h
    | write node data =>
      simp only [serve,step] at h
      split_ifs at h with hthere
      · have hne := ne_stateFile_of_isImage (isImage_diskName node)
        refine leftover_of h (fun hso => ?_) fun other hoth => .inl ?_
        · by_cases hnm : diskName name = diskName node
          · rw [hnm]
            exact hthere
          · rwa [lookup_insert_of_ne _ hnm] at hso
        · rwa [recorded_congr (lookup_insert_of_ne _ hne.symm)]
      · exact h
    | snapshot a snapshot =>
      rw [← leftover_load a.upgrades]
      simp only [serve,step,snapshotCreate] at h
      rcases hlo : load codec a.upgrades w.live with ⟨live,item⟩
      rw [hlo] at h
      cases item with
      | none => exact h
      | some item =>
        simp only at h
        split at h <;> exact h

/-- Every node added in a run has a new disk exactly if nothing was left under its name; and nothing
is, if nothing was at the start and each request clears up. -/
theorem added_disk_fresh_iff (codec : Codec Data) (disks : Disks Data) (ids : Identities) (order : Order FileName)
    (w : World Data) (requests : List (Request Data)) :
    (∀ done a role name item node, done ++ [.event (.addNode a role name)] <+: requests →
      addedNode codec disks ids a role name (served codec disks ids order w done).live = some (item,node) →
      (Fresh disks a item node (served codec disks ids order w done).live
        (served codec disks ids order w (done ++ [.event (.addNode a role name)])).live ↔
      ¬ Leftover codec (served codec disks ids order w done).live node.name)) ∧
    ((∀ name, ¬ Leftover codec w.live name) → (∀ r ∈ requests, r.Clears) →
      ∀ done, done <+: requests → ∀ name, ¬ Leftover codec (served codec disks ids order w done).live name) := by
  refine ⟨fun done a role name item node _ hadded => ?_,fun hcln hclears done hdone => ?_⟩
  · have hlast : served codec disks ids order w (done ++ [.event (.addNode a role name)]) =
        serve codec disks ids order (served codec disks ids order w done) (.event (.addNode a role name)) :=
      foldl_concat ..
    rw [hlast]
    exact fresh_iff_of_added hadded
  · refine foldl_invariant (I := fun w : World Data => ∀ name, ¬ Leftover codec w.live name) ?_ hcln
    intro w' r hr hw name hleft
    exact hw name (leftover_serve (hclears r (hdone.subset hr)) hleft)

def worker : FileName := "demo-worker-1".toList

def gone (removes : Bool) : List (Request (Cluster ⊕ ℕ)) :=
  [.event (.addNode granted (some .worker) []),.event (.write worker (.inr 5)),
    .event (.removeNode { granted with removes := fun _ => removes } worker)]

def beforeNext (removes : Bool) : World (Cluster ⊕ ℕ) :=
  served plainCodec plainDisks plainIdentities byName ⟨diskDir 0,∅⟩ (gone removes)

def afterNext (removes : Bool) : World (Cluster ⊕ ℕ) :=
  served plainCodec plainDisks plainIdentities byName ⟨diskDir 0,∅⟩
    (gone removes++[.event (.addNode granted (some .worker) [])])

theorem not_leftover_diskDir (name : FileName) : ¬ Leftover plainCodec (diskDir 0) name := by
  rintro ⟨hso,hoth⟩
  have hcp : diskName name ≠ "cp.img".toList := fun heq =>
    hoth "cp".toList (by decide) (by rw [heq]; decide)
  rw [diskDir,lookup_insert_of_ne _ hcp,
    lookup_insert_of_ne _ (ne_stateFile_of_isImage (isImage_diskName name)),Finmap.lookup_empty] at hso
  cases hso

/-- Once the disk of the first is removed, the next worker takes its name and gets a new disk. -/
theorem next_worker_disk_fresh :
    ∃ item node, addedNode plainCodec plainDisks plainIdentities granted (some .worker) [] (beforeNext true).live =
      some (item,node) ∧ node.name = worker ∧
      Fresh plainDisks granted item node (beforeNext true).live (afterNext true).live := by
  obtain ⟨⟨item,node⟩,hadded,hname⟩ := map_eq_some_iff.mp (show (addedNode plainCodec plainDisks plainIdentities
    granted (some .worker) [] (beforeNext true).live).map (·.2.name) = some worker by decide +kernel)
  obtain ⟨hfrs,hcln⟩ := added_disk_fresh_iff plainCodec plainDisks plainIdentities byName ⟨diskDir 0,∅⟩
    (gone true ++ [.event (.addNode granted (some .worker) [])])
  refine ⟨item,node,hadded,hname,(hfrs (gone true) granted (some .worker) [] item node prefix_rfl hadded).mpr ?_⟩
  refine hcln not_leftover_diskDir ?_ (gone true) (prefix_append _ _) node.name
  simp [gone,Request.Clears,granted]

/-- If the removal fails, the next worker is added with the disk that the first one wrote. -/
theorem next_worker_inherits_disk :
    ∃ item node, addedNode plainCodec plainDisks plainIdentities granted (some .worker) [] (beforeNext false).live =
      some (item,node) ∧ node.name = worker ∧ (afterNext false).live.lookup (diskName worker) = some (.inr 5) ∧
      ¬ Fresh plainDisks granted item node (beforeNext false).live (afterNext false).live := by
  obtain ⟨⟨item,node⟩,hadded,hname⟩ := map_eq_some_iff.mp (show (addedNode plainCodec plainDisks plainIdentities
    granted (some .worker) [] (beforeNext false).live).map (·.2.name) = some worker by decide +kernel)
  have hdisk : (afterNext false).live.lookup (diskName worker) = some (.inr 5) := by decide +kernel
  refine ⟨item,node,hadded,hname,hdisk,fun hfrs => ?_⟩
  have hclone := hfrs.2
  rw [hname,hdisk] at hclone
  exact absurd (Sum.inr.inj (Option.some.inj hclone)) (by decide)

end TalosBox.Snapshots
