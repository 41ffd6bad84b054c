import TalosBox.Gathering
import TalosBox.SnapshotFaults
import TalosBox.ClusterNodes

/-! Snapshots over a cluster's life: one is taken, nodes come and go, disks are written, and it is
restored. -/
namespace TalosBox.Snapshots

open MapLoops KeyedFold Gathering

variable {Data : Type}

inductive CreateError
  | load
  | name (name : FileName)
  | taken (name : FileName)
  | mkdir
  | node (node : FileName)
  | state
  | rename
  deriving DecidableEq

structure CreateAnswers (Data : Type) where
  upgrades : Bool
  stat : Bool
  mkdir : Bool
  clone : FileName → Bool
  copy : FileName → CopyAnswer Data
  copyState : CopyAnswer Data
  rename : Bool

structure World (Data : Type) where
  live : Dir Data
  snapshots : Map FileName (Dir Data)

variable (codec : Codec Data)

/-- The disks of the nodes, cloned into the directory the snapshot is built in. -/
def cloneDisks (a : CreateAnswers Data) (live : Dir Data) (tmp : Dir Data) : List FileName → Except CreateError (Dir Data)
  | [] => .ok tmp
  | node::nodes =>
    match cloneOrCopy (live.lookup (diskName node)) tmp (diskName node) (a.clone node) (a.copy node) with
    | (tmp,true) => cloneDisks a live tmp nodes
    | (_,false) => .error (.node node)

/-- The finished directory is renamed into place; a name in use is seen by the check or refused by
the rename. -/
def createSnapshot (a : CreateAnswers Data) (nodes : List FileName) (name : FileName) (w : World Data) :
    Except CreateError (Dir Data) :=
  if validSnapshotName name = false then .error (.name name)
  else if a.stat ∧ (w.snapshots.lookup name).isSome then .error (.taken name)
  else if a.mkdir = false then .error .mkdir
  else
    match cloneDisks a w.live ∅ nodes with
    | .error e => .error e
    | .ok tmp =>
      match copyFile (w.live.lookup stateFile) tmp stateFile a.copyState with
      | (_,false) => .error .state
      | (tmp,true) => if a.rename = false ∨ (w.snapshots.lookup name).isSome then .error .rename else .ok tmp

/-- The daemon's request: the cluster is loaded and its snapshot taken. -/
def snapshotCreate (a : CreateAnswers Data) (name : FileName) (w : World Data) : World Data × Except CreateError Cluster :=
  match load codec a.upgrades w.live with
  | (live,none) => (⟨live,w.snapshots⟩,.error .load)
  | (live,some item) =>
    match createSnapshot a item.nodeNames name ⟨live,w.snapshots⟩ with
    | .error e => (⟨live,w.snapshots⟩,.error e)
    | .ok snap => (⟨live,w.snapshots.insert name snap⟩,.ok item)

inductive Event (Data : Type)
  | addNode (a : NodeAnswers Data) (role : Option Role) (name : FileName)
  | removeNode (a : NodeAnswers Data) (name : FileName)
  | write (node : FileName) (data : Data)
  | snapshot (a : CreateAnswers Data) (name : FileName)

/-- The event takes no snapshot under this name. -/
def Event.Spares (name : FileName) : Event Data → Prop
  | .snapshot _ other => other ≠ name
  | _ => True

variable (disks : Disks Data) (ids : Identities)

def step (w : World Data) : Event Data → World Data
  | .addNode a role name => ⟨addNodeLocked disks codec ids a role name w.live,w.snapshots⟩
  | .removeNode a name => ⟨removeNodeLocked codec a name w.live,w.snapshots⟩
  | .write node data =>
    if (w.live.lookup (diskName node)).isSome then ⟨w.live.insert (diskName node) data,w.snapshots⟩ else w
  | .snapshot a name => (snapshotCreate codec a name w).1

def run (w : World Data) (events : List (Event Data)) : World Data := events.foldl (step codec disks ids) w

variable {codec disks ids} {name : FileName} {w : World Data}

/-- No event touches a snapshot under another name, or the copies of a restore. -/
theorem step_spares {event : Event Data} (h : event.Spares name) :
    (step codec disks ids w event).snapshots.lookup name = w.snapshots.lookup name ∧
      ∀ image, (step codec disks ids w event).live.lookup (restoring image) = w.live.lookup (restoring image) := by
  cases event with
  | addNode a role node => exact ⟨rfl,fun image => lookup_addNodeLocked_restoring ids a role node w.live image⟩
  | removeNode a node => exact ⟨rfl,fun image => lookup_removeNodeLocked_restoring a node w.live image⟩
  | write node data =>
    simp only [step]
    split
    · refine ⟨rfl,fun image => Finmap.lookup_insert_of_ne _ ?_⟩
      exact (ne_restoring_of_isImage (isImage_diskName node) image).symm
    · exact ⟨rfl,fun _ => rfl⟩
  | snapshot a other =>
    have hlo : ∀ image, (load codec a.upgrades w.live).1.lookup (restoring image) = w.live.lookup (restoring image) :=
      fun image => lookup_load_of_ne w.live a.upgrades (restoring_ne_stateFile image)
    simp only [step,snapshotCreate]
    generalize load codec a.upgrades w.live = loaded at hlo
    obtain ⟨live,item⟩ := loaded
    cases item with
    | none => exact ⟨rfl,hlo⟩
    | some item =>
      simp only
      split
      · exact ⟨rfl,hlo⟩
      · exact ⟨Finmap.lookup_insert_of_ne _ (Ne.symm h),hlo⟩

theorem run_spares {events : List (Event Data)} (h : ∀ event ∈ events, event.Spares name)
    (w : World Data) :
    (run codec disks ids w events).snapshots.lookup name = w.snapshots.lookup name ∧
      ∀ image, (run codec disks ids w events).live.lookup (restoring image) = w.live.lookup (restoring image) := by
  refine ⟨?_,fun image => ?_⟩
  · exact foldl_frame (v := fun w : World Data => w.snapshots.lookup name)
      (fun _ event hevent => (step_spares (h event hevent)).1) w
  · exact foldl_frame (v := fun w : World Data => w.live.lookup (restoring image))
      (fun _ event hevent => (step_spares (h event hevent)).2 image) w

/-- The state and the disks of the nodes, as they were, and nothing else. -/
structure Captures (snap live : Dir Data) (nodes : List FileName) : Prop where
  state : snap.lookup stateFile = live.lookup stateFile ∧ (live.lookup stateFile).isSome
  disk : ∀ node ∈ nodes, snap.lookup (diskName node) = live.lookup (diskName node) ∧
    (live.lookup (diskName node)).isSome
  others : ∀ k, k ≠ stateFile → (∀ node ∈ nodes, k ≠ diskName node) → snap.lookup k = none
  distinct : (nodes.map diskName).Nodup

variable {nodes : List FileName} {live : Dir Data} {a : CreateAnswers Data}

theorem cloneDisks_eq_ok {tmp tmp' : Dir Data}
    (h : cloneDisks a live tmp nodes = .ok tmp') :
    (∀ node ∈ nodes, tmp'.lookup (diskName node) = live.lookup (diskName node) ∧
      (live.lookup (diskName node)).isSome ∧ tmp.lookup (diskName node) = none) ∧
    (∀ k, (∀ node ∈ nodes, k ≠ diskName node) → tmp'.lookup k = tmp.lookup k) ∧ (nodes.map diskName).Nodup := by
  induction nodes generalizing tmp with
  | nil =>
    cases h
    simp
  | cons node nodes ih =>
    rw [cloneDisks] at h
    cases hsrc : live.lookup (diskName node) with
    | none => simp [hsrc,cloneOrCopy,copyFile] at h
    | some data =>
      obtain ⟨hfrm,hcp⟩ :=
        cloneOrCopy_cases (by simp [hsrc] : (live.lookup (diskName node)).isSome) tmp (diskName node) (a.clone node)
          (a.copy node)
      generalize cloneOrCopy (live.lookup (diskName node)) tmp (diskName node) (a.clone node) (a.copy node) = result
        at h hfrm hcp
      obtain ⟨tmp₁,ok⟩ := result
      rcases hcp with ⟨rfl,hfrs,hcop⟩ | ⟨rfl,-⟩
      · obtain ⟨hdks,hos,hnd⟩ := ih h
        have hne : ∀ other ∈ nodes, diskName other ≠ diskName node := by
          intro other hoth heq
          have hfrs' := (hdks other hoth).2.2
          rw [heq,hcop,hsrc] at hfrs'
          cases hfrs'
        refine ⟨?_,fun k hk => ?_,?_⟩
        · rintro other (_ | ⟨_,hoth⟩)
          · refine ⟨?_,by simp [hsrc],hfrs⟩
            rw [hos _ fun other hoth => (hne other hoth).symm]
            exact hcop
          · refine ⟨(hdks other hoth).1,(hdks other hoth).2.1,?_⟩
            rw [← hfrm _ (hne other hoth)]
            exact (hdks other hoth).2.2
        · rw [hos k fun other hoth => hk other (by simp [hoth]),hfrm k (hk node (by simp))]
        · rw [List.map_cons,List.nodup_cons]
          refine ⟨fun hmem => ?_,hnd⟩
          obtain ⟨other,hoth,heq⟩ := List.mem_map.1 hmem
          exact hne other hoth heq
      · cases h

theorem createSnapshot_eq_ok {snap : Dir Data} (h : createSnapshot a nodes name w = .ok snap) :
    validSnapshotName name ∧ Captures snap w.live nodes := by
  obtain ⟨hnm,h⟩ := ite_error_eq_ok.1 h
  obtain ⟨-,h⟩ := ite_error_eq_ok.1 h
  obtain ⟨-,h⟩ := ite_error_eq_ok.1 h
  split at h
  · cases h
  rename_i tmp hclone
  obtain ⟨hdks,hos,hnd⟩ := cloneDisks_eq_ok hclone
  have hcs := copyFile_cases (w.live.lookup stateFile) tmp stateFile a.copyState
  split at h
  · cases h
  rename_i tmp' hcp
  obtain rfl := Except.ok.inj (ite_error_eq_ok.1 h).2
  rw [hcp] at hcs
  obtain ⟨hfrm,⟨-,-,hso,hste⟩ | ⟨hfalse,-⟩⟩ := hcs
  · refine ⟨by simpa using hnm,⟨hste,hso⟩,fun node hno => ?_,fun k hk hk' => ?_,hnd⟩
    · rw [hfrm _ (ne_stateFile_of_isImage (isImage_diskName node))]
      exact ⟨(hdks node hno).1,(hdks node hno).2.1⟩
    · rw [hfrm k hk,hos k hk',Finmap.lookup_empty]
  · cases hfalse

theorem head_diskName (node : FileName) : (diskName node).head? ≠ some '/' := by
  intro hhd
  have hnot := List.head?_dropWhile_not (p := (· = '/')) (l := imageName node)
  rw [← diskName,hhd] at hnot
  simp at hnot

theorem diskName_eq_imageName_iff {node : FileName} : diskName node = imageName node ↔ node.head? ≠ some '/' := by
  cases node with
  | nil => decide
  | cons c node =>
    by_cases hc : c = '/'
    · subst hc
      simp only [List.head?_cons,ne_eq,not_true_eq_false,iff_false]
      intro heq
      exact head_diskName ('/' :: node) (by rw [heq]; rfl)
    · simp [diskName,imageName]

theorem Captures.images {snap : Dir Data} (h : Captures snap live nodes) {k : FileName} :
    k ∈ images snap ↔ ∃ node ∈ nodes, k = diskName node := by
  rw [mem_images]
  constructor
  · rintro ⟨hso,himg⟩
    by_contra hnn
    push Not at hnn
    rw [h.others k (ne_stateFile_of_isImage himg) hnn] at hso
    cases hso
  · rintro ⟨node,hno,rfl⟩
    obtain ⟨hdk,hso⟩ := h.disk node hno
    exact ⟨hdk ▸ hso,isImage_diskName node⟩

/-- A snapshot that was taken passes the check unless a node is called `/`. -/
theorem Captures.restorable_iff {snap : Dir Data} {item raw : Cluster}
    {snaps : Map FileName (Dir Data)} (h : Captures snap live item.nodeNames) (hnm : validSnapshotName name)
    (hfnd : snaps.lookup name = some snap) (hraw : (live.lookup stateFile).bind codec.unmarshal = some raw)
    (hnds : raw.nodeNames = item.nodeNames) :
    (∃ capt, Restorable codec snap name snaps capt) ↔ ∀ node ∈ item.nodeNames, node.head? ≠ some '/' := by
  constructor
  · rintro ⟨capt,hrst⟩ node hno
    have hcaptu : capt = raw := by
      have hste := hrst.state
      rw [h.state.1,hraw] at hste
      exact (Option.some.inj hste).symm
    have himg : imageName node ∈ Snapshots.images snap :=
      (hrst.disks _).2 ⟨node,by rw [hcaptu,hnds]; exact hno,rfl⟩
    obtain ⟨other,-,heq⟩ := h.images.1 himg
    intro hhd
    refine head_diskName other ?_
    rw [← heq,imageName,List.head?_append,hhd]
    rfl
  · intro hpl
    have hsm : ∀ node ∈ item.nodeNames, diskName node = imageName node := fun node hno =>
      diskName_eq_imageName_iff.2 (hpl node hno)
    refine ⟨raw,hnm,hfnd,by rw [h.state.1]; exact hraw,?_,fun image => ?_⟩
    · rw [hnds]
      exact h.distinct.of_map _
    · rw [h.images,hnds]
      constructor
      · rintro ⟨node,hno,rfl⟩
        exact ⟨node,hno,(hsm node hno).symm⟩
      · rintro ⟨node,hno,rfl⟩
        exact ⟨node,hno,(hsm node hno).symm⟩

theorem Captures.restored_iff {snap after : Dir Data} (h : Captures snap live nodes) :
    Restored snap after ↔
      after.lookup stateFile = live.lookup stateFile ∧
      (∀ node ∈ nodes, after.lookup (diskName node) = live.lookup (diskName node)) ∧
      ∀ k, isImage k → (∀ node ∈ nodes, k ≠ diskName node) → after.lookup k = none := by
  unfold Restored
  rw [h.state.1]
  refine and_congr_right fun _ => ⟨fun hall => ⟨?_,?_⟩,?_⟩
  · intro node hno
    rw [hall _ (isImage_diskName node),(h.disk node hno).1]
  · intro k himg hk
    rw [hall k himg,h.others k (ne_stateFile_of_isImage himg) hk]
  · rintro ⟨hdks,hos⟩ k himg
    by_cases hno : ∃ node ∈ nodes, k = diskName node
    · obtain ⟨node,hno,rfl⟩ := hno
      rw [hdks node hno,(h.disk node hno).1]
    · push Not at hno
      rw [hos k himg hno,h.others k (ne_stateFile_of_isImage himg) hno]

theorem snapshotCreate_eq_ok {w' : World Data} {item : Cluster}
    (h : snapshotCreate codec a name w = (w',.ok item)) :
    ∃ snap raw, w'.snapshots.lookup name = some snap ∧ validSnapshotName name ∧
      Captures snap w'.live item.nodeNames ∧ (w'.live.lookup stateFile).bind codec.unmarshal = some raw ∧
      raw.nodeNames = item.nodeNames := by
  unfold snapshotCreate at h
  split at h
  · cases h
  rename_i live item' hlo
  split at h
  · cases h
  rename_i snap hcreate
  obtain ⟨rfl,hitem⟩ := Prod.mk.inj h
  cases hitem
  obtain ⟨raw,hraw,hnds⟩ := load_eq_some hlo
  obtain ⟨hnm,hcapt⟩ := createSnapshot_eq_ok hcreate
  exact ⟨snap,raw,Finmap.lookup_insert _,hnm,hcapt,hraw,hnds⟩

/-- A restore without faults brings back the captured state and disks, and no other disk, exactly if
no node was called `/` and no copy of an image lay about. -/
theorem restore_after_changes_iff (codec : Codec Data) (disks : Disks Data) (ids : Identities) (order : Order FileName)
    (w w' : World Data) (c : CreateAnswers Data) (name : FileName) (item : Cluster)
    (hcreate : snapshotCreate codec c name w = (w',.ok item)) (events : List (Event Data))
    (hevents : ∀ event ∈ events, event.Spares name) (a : RestoreAnswers Data) (ha : Faultless a) :
    let changed := run codec disks ids w' events
    let r := restoreSnapshot codec order a name changed.snapshots changed.live
    (r.error = none ∧ r.live.lookup stateFile = w'.live.lookup stateFile ∧
      (∀ node ∈ item.nodeNames, r.live.lookup (diskName node) = w'.live.lookup (diskName node)) ∧
      ∀ k, isImage k = true → (∀ node ∈ item.nodeNames, k ≠ diskName node) → r.live.lookup k = none) ↔
    (∀ node ∈ item.nodeNames, node.head? ≠ some '/') ∧
      ∀ node ∈ item.nodeNames, w'.live.lookup (restoring (diskName node)) = none := by
  intro changed r
  obtain ⟨snap,raw,hfnd,hname,hcapt,hraw,hnds⟩ := snapshotCreate_eq_ok hcreate
  obtain ⟨hsnap,hcopies⟩ : changed.snapshots.lookup name = w'.snapshots.lookup name ∧
      ∀ image, changed.live.lookup (restoring image) = w'.live.lookup (restoring image) := run_spares hevents w'
  rw [hfnd] at hsnap
  rw [← hcapt.restored_iff,← hcapt.restorable_iff hname hsnap hraw hnds]
  constructor
  · rintro ⟨hok,hrest⟩
    have hopen : ∃ snap', openSnapshot codec a name changed.snapshots = .ok snap' := by
      cases hopen : openSnapshot codec a name changed.snapshots with
      | error e => simp [r,restoreSnapshot,hopen] at hok
      | ok snap' => exact ⟨snap',rfl⟩
    obtain ⟨snap',hopen⟩ := hopen
    obtain ⟨captured,hrst⟩ := openSnapshot_eq_ok hopen
    obtain rfl : snap' = snap := by simpa [hsnap] using hrst.found.symm
    refine ⟨⟨captured,hrst⟩,fun node hnode => ?_⟩
    rw [← hcopies]
    exact (restore_faultless_iff hrst ha changed.live).mp ⟨hok,hrest⟩ _ (hcapt.images.mpr ⟨node,hnode,rfl⟩)
  · rintro ⟨⟨captured,hrst⟩,hfrs⟩
    refine (restore_faultless_iff hrst ha changed.live).mpr fun image himg => ?_
    obtain ⟨node,hnode,rfl⟩ := hcapt.images.mp himg
    rw [hcopies]
    exact hfrs node hnode

def plainDisks : Disks (Cluster ⊕ ℕ) where
  size _ := 0
  truncate disk _ := disk

def plainIdentities : Identities where
  nextReservationIP _ := some "192.168.64.3".toList
  deterministicMAC _ _ := "02:00:00:00:00:03".toList

/-- Every request is granted, and new disks hold 9. -/
def granted : NodeAnswers (Cluster ⊕ ℕ) where
  admitted := true
  cachedDisk := .inr 9
  upgrades := true
  provisions _ := true
  synced := true
  stops := true
  saves := true
  removes _ := true

def unhindered : CreateAnswers (Cluster ⊕ ℕ) where
  upgrades := true
  stat := true
  mkdir := true
  clone _ := true
  copy _ := .done
  copyState := .done
  rename := true

/-- The captured node goes, its name is taken again, a disk written and a snapshot made. -/
def changes : List (Event (Cluster ⊕ ℕ)) :=
  [.addNode granted (some .worker) [],.removeNode granted "cp".toList,.addNode granted (some .worker) "cp".toList,
    .write "cp".toList (.inr 5),.snapshot unhindered "t".toList]

theorem changed_cluster_restored :
    let w := (snapshotCreate plainCodec unhindered "s".toList ⟨diskDir 0,∅⟩).1
    let changed := run plainCodec plainDisks plainIdentities w changes
    let r := restoreSnapshot plainCodec byName smooth "s".toList changed.snapshots changed.live
    changed.live.lookup "cp.img".toList = some (.inr 5) ∧ r.error = none ∧
      r.live.lookup (diskName "cp".toList) = some (.inr 0) := by
  intro w changed r
  have hcreate : snapshotCreate plainCodec unhindered "s".toList ⟨diskDir 0,∅⟩ = (w,.ok oneNode) :=
    Prod.ext rfl (by decide +kernel)
  have hrest := (restore_after_changes_iff plainCodec plainDisks plainIdentities byName ⟨diskDir 0,∅⟩ w unhindered
    "s".toList oneNode hcreate changes (by simp [changes,Event.Spares]) smooth faultless_smooth).mpr
    ⟨by decide +kernel,by decide +kernel⟩
  refine ⟨by decide +kernel,hrest.1,?_⟩
  exact (hrest.2.2.1 "cp".toList (by decide +kernel)).trans (by decide +kernel)

/-- The disk of a node called `/` is kept as `.img`, and looked for as `/.img`. -/
theorem slash_node_never_restored :
    let grown := step plainCodec plainDisks plainIdentities ⟨diskDir 0,∅⟩ (.addNode granted (some .worker) "/".toList)
    let taken := snapshotCreate plainCodec unhindered "s".toList grown
    taken.2.toOption.map Cluster.nodeNames = some ["cp".toList,"/".toList] ∧
      (restoreSnapshot plainCodec byName smooth "s".toList taken.1.snapshots taken.1.live).error =
        some (.missingImage "s".toList "/".toList) := by
  decide +kernel

end TalosBox.Snapshots
