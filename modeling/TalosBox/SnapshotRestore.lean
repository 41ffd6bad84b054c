import TalosBox.ClusterFiles
import TalosBox.KeyedFold

/-! Taking a snapshot back. The images are staged beside their targets, swapped in one by one,
unknown images deleted, and the state file replaced last. Every step may fail. -/
namespace TalosBox.Snapshots

open MapLoops List

inductive Role
  | controlPlane
  | worker
  deriving DecidableEq

structure Node where
  name : FileName
  role : Role
  mac : FileName
  ip : FileName
  deriving DecidableEq

/-- The fields of `Cluster` that node changes and disks depend on. -/
structure Cluster where
  name : FileName
  controlPlanes : ℤ
  workers : ℤ
  nodes : List Node
  controlPlaneDiskGiB : ℤ
  workerDiskGiB : ℤ
  deriving DecidableEq

def Cluster.nodeNames (c : Cluster) : List FileName := c.nodes.map Node.name

/-- The state file's format. `upgrade` is what `Load` does behind the decoding: defaults, an error
where a reservation is invalid, and whether to save again. -/
structure Codec (Data : Type) where
  marshal : Cluster → Data
  unmarshal : Data → Option Cluster
  upgrade : Data → Cluster → Option (Cluster × Bool)
  unmarshal_marshal : ∀ c, unmarshal (marshal c) = some c
  upgrade_nodeNames : ∀ {data c c' migrated}, upgrade data c = some (c',migrated) → c'.nodeNames = c.nodeNames

variable {Data : Type}

/-- What `Load` returns for a state file's content. -/
def Codec.load (codec : Codec Data) (data : Data) : Option Cluster :=
  (codec.unmarshal data).bind fun c => (codec.upgrade data c).map Prod.fst

/-- The state a directory loads as. -/
def Codec.loaded (codec : Codec Data) (d : Dir Data) : Option Cluster := (d.lookup stateFile).bind codec.load

theorem Codec.nodeNames_of_load {codec : Codec Data} {data : Data} {c : Cluster} (h : codec.load data = some c) :
    ∃ raw, codec.unmarshal data = some raw ∧ raw.nodeNames = c.nodeNames := by
  obtain ⟨raw,hraw,hupgr⟩ := Option.bind_eq_some_iff.1 h
  obtain ⟨⟨c',migrated⟩,hc,rfl⟩ := Option.map_eq_some_iff.1 hupgr
  exact ⟨raw,hraw,(codec.upgrade_nodeNames hc).symm⟩

def isNameStart (c : Char) : Bool := ('a' ≤ c && c ≤ 'z') || ('A' ≤ c && c ≤ 'Z') || ('0' ≤ c && c ≤ '9')

/-- `snapshotNameRe`. -/
def validSnapshotName (name : FileName) : Bool :=
  name.head?.any isNameStart && name.all fun c => isNameStart c || c = '.' || c = '_' || c = '-'

inductive RestoreError
  | name (name : FileName)
  | missing (name : FileName)
  | noState (name : FileName)
  | undecodable (name : FileName)
  | listing
  | missingImage (name node : FileName)
  /-- The message names the first of them. -/
  | strayImages (name : FileName) (stray : Finset FileName)
  | stage (image : FileName)
  | swap (image : FileName)
  | removeState
  | copyState
  deriving DecidableEq

/-- The host's answers during a restore. -/
structure RestoreAnswers (Data : Type) where
  stat : Bool
  readState : Bool
  checkDir : Bool
  readDir : Bool
  clone : FileName → Bool
  copy : FileName → CopyAnswer Data
  rename : FileName → Bool
  /-- Removing a staged copy after a failure; its error is ignored. -/
  cleanup : FileName → Bool
  /-- The entries of the live directory that are listed and deleted; errors are ignored. -/
  listed : FileName → Bool
  delete : FileName → Bool
  removeState : Bool
  copyState : CopyAnswer Data

variable (codec : Codec Data) (order : Order FileName)

/-- `checkSnapshotDisks` on the images that are left. -/
def checkNodes (name : FileName) (left : Finset FileName) : List FileName → Except RestoreError Unit
  | [] => if left = ∅ then .ok () else .error (.strayImages name left)
  | node::nodes =>
    if imageName node ∈ left then checkNodes name (left.erase (imageName node)) nodes
    else .error (.missingImage name node)

/-- `readSnapshotState`, the check of the disks and the listing: the snapshot to restore. -/
def openSnapshot (a : RestoreAnswers Data) (name : FileName) (snapshots : Map FileName (Dir Data)) :
    Except RestoreError (Dir Data) :=
  if validSnapshotName name = false then .error (.name name)
  else
    match (if a.stat then snapshots.lookup name else none) with
    | none => .error (.missing name)
    | some snap =>
      match (if a.readState then snap.lookup stateFile else none) with
      | none => .error (.noState name)
      | some data =>
        match codec.unmarshal data with
        | none => .error (.undecodable name)
        | some captured =>
          if a.checkDir = false then .error .listing
          else
            match checkNodes name (images snap) captured.nodeNames with
            | .error e => .error e
            | .ok _ => if a.readDir = false then .error .listing else .ok snap

structure Result (Data : Type) where
  live : Dir Data
  error : Option RestoreError

variable (a : RestoreAnswers Data) (snap : Dir Data)

/-- The staging loop: the directory, the images staged, and the one that failed. -/
def stage (live : Dir Data) (staged : List FileName) : List FileName → Dir Data × List FileName × Option FileName
  | [] => (live,staged,none)
  | image::rest =>
    match cloneOrCopy (snap.lookup image) live (restoring image) (a.clone image) (a.copy image) with
    | (live,true) => stage live (staged++[image]) rest
    | (live,false) => (live,staged,some image)

def cleanup (live : Dir Data) (staged : List FileName) : Dir Data :=
  staged.foldl (fun d image => if a.cleanup image then d.erase (restoring image) else d) live

/-- The swapping loop: the directory, and the image that failed. -/
def swap (live : Dir Data) : List FileName → Dir Data × Option FileName
  | [] => (live,none)
  | image::rest =>
    match (if a.rename image then live.lookup (restoring image) else none) with
    | some data => swap ((live.erase (restoring image)).insert image data) rest
    | none => (live,some image)

/-- Deleting the images the snapshot does not hold. -/
def removeSurplus (live : Dir Data) : Dir Data :=
  ((imageList order live).filter fun image => a.listed image && image ∉ images snap).foldl
    (fun d image => if a.delete image then d.erase image else d) live

/-- Replacing the state file. -/
def switchState (live : Dir Data) : Result Data :=
  if a.removeState = false then ⟨live,some .removeState⟩
  else
    match copyFile (snap.lookup stateFile) (live.erase stateFile) stateFile a.copyState with
    | (live,true) => ⟨live,none⟩
    | (live,false) => ⟨live,some .copyState⟩

def install (live : Dir Data) : Result Data :=
  match stage a snap live [] (imageList order snap) with
  | (live,staged,some image) => ⟨cleanup a live staged,some (.stage image)⟩
  | (live,staged,none) =>
    match swap a live staged with
    | (live,some image) => ⟨cleanup a live staged,some (.swap image)⟩
    | (live,none) => switchState a snap (removeSurplus order a snap live)

def restoreSnapshot (name : FileName) (snapshots : Map FileName (Dir Data)) (live : Dir Data) : Result Data :=
  match openSnapshot codec a name snapshots with
  | .error e => ⟨live,some e⟩
  | .ok snap => install order a snap live

/-- A snapshot whose images are those of the nodes its state records. -/
structure Restorable (name : FileName) (snapshots : Map FileName (Dir Data)) (captured : Cluster) : Prop where
  valid : validSnapshotName name
  found : snapshots.lookup name = some snap
  state : (snap.lookup stateFile).bind codec.unmarshal = some captured
  nodup : captured.nodeNames.Nodup
  disks : ∀ image, image ∈ images snap ↔ ∃ node ∈ captured.nodeNames, imageName node = image

variable {codec order a snap}

theorem checkNodes_eq_ok {name : FileName} {left : Finset FileName} {nodes : List FileName} :
    checkNodes name left nodes = .ok () ↔
      nodes.Nodup ∧ ∀ image, image ∈ left ↔ ∃ node ∈ nodes, imageName node = image := by
  induction nodes generalizing left with
  | nil =>
    simp only [checkNodes]
    split_ifs with hle
    · simp [hle]
    · simpa using fun h => hle (Finset.eq_empty_of_forall_notMem h)
  | cons node nodes ih =>
    rw [checkNodes]
    split_ifs with hmem
    · rw [ih,nodup_cons]
      constructor
      · rintro ⟨hnd,hle⟩
        refine ⟨⟨fun hno => ?_,hnd⟩,fun image => ?_⟩
        · have hers := (hle (imageName node)).2 ⟨node,hno,rfl⟩
          simp at hers
        · by_cases himg : image = imageName node
          · simp [himg,hmem]
          · have hers := hle image
            simpa [himg,Ne.symm himg] using hers
      · rintro ⟨⟨hno,hnd⟩,hle⟩
        refine ⟨hnd,fun image => ?_⟩
        rw [Finset.mem_erase,hle]
        constructor
        · rintro ⟨hne,node',hno',rfl⟩
          rcases mem_cons.1 hno' with rfl | hno'
          · simp at hne
          · exact ⟨node',hno',rfl⟩
        · rintro ⟨node',hno',rfl⟩
          exact ⟨fun heq => hno (imageName_inj.1 heq ▸ hno'),node',by simp [hno'],rfl⟩
    · simp only [false_iff,not_and]
      intro _ hle
      exact hmem ((hle _).2 ⟨node,by simp,rfl⟩)

theorem openSnapshot_eq_ok {name : FileName} {snaps : Map FileName (Dir Data)}
    (h : openSnapshot codec a name snaps = .ok snap) : ∃ captured, Restorable codec snap name snaps captured := by
  simp only [openSnapshot] at h
  by_cases hnm : validSnapshotName name = false
  · simp [hnm] at h
  rw [if_neg hnm] at h
  cases hsn : (if a.stat then snaps.lookup name else none) with
  | none => simp [hsn] at h
  | some snap' =>
    simp only [hsn] at h
    cases hda : (if a.readState then snap'.lookup stateFile else none) with
    | none => simp [hda] at h
    | some data =>
      simp only [hda] at h
      cases hcapt : codec.unmarshal data with
      | none => simp [hcapt] at h
      | some captured =>
        simp only [hcapt] at h
        cases hchk : checkNodes name (images snap') captured.nodeNames with
        | error e =>
          simp only [hchk] at h
          split_ifs at h
        | ok _ =>
          simp only [hchk] at h
          split_ifs at h hsn hda
          cases h
          obtain ⟨hnd,hdks⟩ := checkNodes_eq_ok.1 hchk
          exact ⟨captured,by simpa using hnm,hsn,by simp [hda,hcapt],hnd,hdks⟩

theorem openSnapshot_of_restorable {name : FileName} {snaps : Map FileName (Dir Data)} {captured : Cluster}
    (h : Restorable codec snap name snaps captured)
    (ha : a.stat ∧ a.readState ∧ a.checkDir ∧ a.readDir) :
    openSnapshot codec a name snaps = .ok snap := by
  obtain ⟨data,hda,hcapt⟩ := Option.bind_eq_some_iff.1 h.state
  have hchk : checkNodes name (images snap) captured.nodeNames = .ok () := checkNodes_eq_ok.2 ⟨h.nodup,h.disks⟩
  simp [openSnapshot,h.valid,ha,h.found,hda,hcapt,hchk]

/-- The listed images are staged, and nothing else changed. -/
structure Staged (snap : Dir Data) (l : List FileName) (live live' : Dir Data) : Prop where
  fresh : ∀ i ∈ l, live.lookup (restoring i) = none
  copied : ∀ i ∈ l, live'.lookup (restoring i) = snap.lookup i
  frame : ∀ k, (∀ i ∈ l, k ≠ restoring i) → live'.lookup k = live.lookup k

/-- The listed images have taken the place of their targets, and nothing else changed. -/
structure Swapped (l : List FileName) (live live' : Dir Data) : Prop where
  moved : ∀ i ∈ l, live'.lookup i = live.lookup (restoring i)
  gone : ∀ i ∈ l, live'.lookup (restoring i) = none
  frame : ∀ k, (∀ i ∈ l, k ≠ i ∧ k ≠ restoring i) → live'.lookup k = live.lookup k

lemma Staged.nil (live : Dir Data) : Staged snap [] live live := ⟨by simp,by simp,fun _ _ => rfl⟩

variable {live live₁ : Dir Data} {l : List FileName}

theorem Staged.cons {image : FileName} {live' : Dir Data} (hmem : image ∉ l)
    (hfrs : live.lookup (restoring image) = none) (hcop : live₁.lookup (restoring image) = snap.lookup image)
    (hfrm : ∀ k, k ≠ restoring image → live₁.lookup k = live.lookup k) (h : Staged snap l live₁ live') :
    Staged snap (image::l) live live' := by
  have hne : ∀ i ∈ l, restoring i ≠ restoring image := fun i hi heq => hmem (restoring_inj.1 heq ▸ hi)
  refine ⟨?_,?_,fun k hk => ?_⟩
  · rintro i (_ | ⟨_,hi⟩)
    · exact hfrs
    · rw [← hfrm _ (hne i hi)]
      exact h.fresh i hi
  · rintro i (_ | ⟨_,hi⟩)
    · rw [h.frame _ fun i hi => (hne i hi).symm]
      exact hcop
    · exact h.copied i hi
  · rw [h.frame k fun i hi => hk i (by simp [hi]),hfrm k (hk image (by simp))]

theorem stage_cases (hnd : l.Nodup) (hsn : ∀ i ∈ l, (snap.lookup i).isSome)
    (live : Dir Data) (staged : List FileName) :
    (∃ pre i post live₁, l = pre++i::post ∧ Staged snap pre live live₁ ∧
      (cloneOrCopy (snap.lookup i) live₁ (restoring i) (a.clone i) (a.copy i)).2 = false ∧
      stage a snap live staged l =
        ((cloneOrCopy (snap.lookup i) live₁ (restoring i) (a.clone i) (a.copy i)).1,staged++pre,some i)) ∨
    ∃ live', stage a snap live staged l = (live',staged++l,none) ∧ Staged snap l live live' := by
  induction l generalizing live staged with
  | nil => exact .inr ⟨live,by simp [stage],.nil live⟩
  | cons image l ih =>
    rw [nodup_cons] at hnd
    obtain ⟨hfrm,hcp⟩ := cloneOrCopy_cases (hsn image (by simp)) live (restoring image) (a.clone image) (a.copy image)
    generalize hres : cloneOrCopy (snap.lookup image) live (restoring image) (a.clone image) (a.copy image) = result
      at hfrm hcp
    obtain ⟨live₁,ok⟩ := result
    rcases hcp with ⟨rfl,hfrs,hcop⟩ | ⟨rfl,-⟩
    · have hstg : stage a snap live staged (image::l) = stage a snap live₁ (staged++[image]) l := by
        rw [stage,hres]
      rw [hstg]
      rcases ih hnd.2 (fun i hi => hsn i (by simp [hi])) live₁ (staged++[image]) with
        ⟨pre,i,post,live₂,rfl,hpre,hfa,heq⟩ | ⟨live',heq,hall⟩
      · refine .inl ⟨image::pre,i,post,live₂,rfl,?_,hfa,by simp [heq]⟩
        exact hpre.cons (fun hmem => hnd.1 (by simp [hmem])) hfrs hcop hfrm
      · exact .inr ⟨live',by simp [heq],hall.cons hnd.1 hfrs hcop hfrm⟩
    · exact .inl ⟨[],image,l,live,rfl,.nil live,by rw [hres],by simp [stage,hres]⟩

lemma Swapped.nil (live : Dir Data) : Swapped [] live live := ⟨by simp,by simp,fun _ _ => rfl⟩

theorem Swapped.cons {image : FileName} {live' : Dir Data} {data : Data} (hmem : image ∉ l)
    (hl : ∀ i ∈ image::l, isImage i) (hda : live.lookup (restoring image) = some data)
    (h : Swapped l ((live.erase (restoring image)).insert image data) live') : Swapped (image::l) live live' := by
  have himg := hl image (by simp)
  have hne : ∀ i ∈ l, restoring i ≠ restoring image := fun i hi heq => hmem (restoring_inj.1 heq ▸ hi)
  have hoth : ∀ k, k ≠ image → k ≠ restoring image →
      ((live.erase (restoring image)).insert image data).lookup k = live.lookup k := by
    intro k hk hk'
    rw [Finmap.lookup_insert_of_ne _ hk,Finmap.lookup_erase_ne hk']
  refine ⟨?_,?_,fun k hk => ?_⟩
  · rintro i (_ | ⟨_,hi⟩)
    · rw [h.frame image fun i hi => ⟨fun heq => hmem (heq ▸ hi),ne_restoring_of_isImage himg i⟩,Finmap.lookup_insert,
        hda]
    · rw [h.moved i hi]
      exact hoth _ (ne_restoring_of_isImage himg i).symm (hne i hi)
  · rintro i (_ | ⟨_,hi⟩)
    · rw [h.frame _ fun i hi => ⟨(ne_restoring_of_isImage (hl i (by simp [hi])) image).symm,(hne i hi).symm⟩,
        Finmap.lookup_insert_of_ne _ (ne_restoring_of_isImage himg image).symm,Finmap.lookup_erase]
    · exact h.gone i hi
  · rw [h.frame k fun i hi => hk i (by simp [hi])]
    exact hoth k (hk image (by simp)).1 (hk image (by simp)).2

theorem swap_cases (hnd : l.Nodup) (hl : ∀ i ∈ l, isImage i) (live : Dir Data) :
    (∃ pre i post live', l = pre++i::post ∧ Swapped pre live live' ∧ swap a live l = (live',some i) ∧
      (a.rename i = false ∨ live'.lookup (restoring i) = none)) ∨
    ∃ live', swap a live l = (live',none) ∧ Swapped l live live' := by
  induction l generalizing live with
  | nil => exact .inr ⟨live,rfl,.nil live⟩
  | cons image l ih =>
    rw [nodup_cons] at hnd
    cases hda : (if a.rename image then live.lookup (restoring image) else none) with
    | none =>
      refine .inl ⟨[],image,l,live,rfl,.nil live,by simp [swap,hda],?_⟩
      split_ifs at hda with hrename
      · exact .inr hda
      · exact .inl (by simpa using hrename)
    | some data =>
      have hsrc : live.lookup (restoring image) = some data := by
        split_ifs at hda
        exact hda
      have hsw : swap a live (image::l) = swap a ((live.erase (restoring image)).insert image data) l := by
        rw [swap,hda]
      rw [hsw]
      rcases ih hnd.2 (fun i hi => hl i (by simp [hi])) ((live.erase (restoring image)).insert image data) with
        ⟨pre,i,post,live',rfl,hpre,heq,hwhy⟩ | ⟨live',heq,hall⟩
      · refine .inl ⟨image::pre,i,post,live',rfl,?_,heq,hwhy⟩
        refine hpre.cons (fun hmem => hnd.1 (by simp [hmem])) (fun i hi => hl i ?_) hsrc
        rcases mem_cons.1 hi with rfl | hi <;> simp_all
      · exact .inr ⟨live',heq,hall.cons hnd.1 hl hsrc⟩

theorem lookup_cleanup_restoring {staged : List FileName} (hnd : staged.Nodup) (live : Dir Data) {i : FileName}
    (hi : i ∈ staged) :
    (cleanup a live staged).lookup (restoring i) = if a.cleanup i then none else live.lookup (restoring i) := by
  have hpoint := KeyedFold.foldl_pointwise (v := fun (d : Dir Data) i => d.lookup (restoring i))
    (g := fun i old => if a.cleanup i then none else old)
    (f := fun d i => if a.cleanup i then d.erase (restoring i) else d) ?_ ?_ hnd live i
  · rw [if_pos hi] at hpoint
    exact hpoint
  · intro d i _
    split_ifs
    · exact Finmap.lookup_erase _ _
    · rfl
  · intro d i _ j hj
    split_ifs
    · exact Finmap.lookup_erase_ne (fun heq => hj (restoring_inj.1 heq))
    · rfl

theorem lookup_cleanup_of_ne {staged : List FileName} (live : Dir Data) {k : FileName}
    (hk : ∀ i ∈ staged, k ≠ restoring i) : (cleanup a live staged).lookup k = live.lookup k := by
  refine KeyedFold.foldl_frame (fun d i hi => ?_) live
  split_ifs
  · exact Finmap.lookup_erase_ne (hk i hi)
  · rfl

theorem lookup_removeSurplus (live : Dir Data) (k : FileName) :
    (removeSurplus order a snap live).lookup k =
      if isImage k ∧ k ∉ images snap ∧ a.listed k ∧ a.delete k then none else live.lookup k := by
  have hks := (imageList_nodup order live).filter fun image => a.listed image && image ∉ images snap
  have hpoint := KeyedFold.foldl_pointwise (v := fun (d : Dir Data) i => d.lookup i)
    (g := fun i old => if a.delete i then none else old)
    (f := fun d i => if a.delete i then d.erase i else d) ?_ ?_ hks live k
  · rw [removeSurplus,hpoint]
    simp only [mem_filter,mem_imageList,mem_images,Bool.and_eq_true,decide_eq_true_eq]
    cases hlv : live.lookup k with
    | none => simp
    | some data =>
      split_ifs <;> tauto
  · intro d i _
    split_ifs
    · exact Finmap.lookup_erase _ _
    · rfl
  · intro d i _ j hj
    split_ifs
    · exact Finmap.lookup_erase_ne hj
    · rfl

/-- Staging failed at `i`, behind the images of `pre`. -/
structure StageFailed (a : RestoreAnswers Data) (pre : List FileName) (i : FileName) (live live' : Dir Data) : Prop where
  fresh : ∀ j ∈ pre, live.lookup (restoring j) = none
  cleaned : ∀ j ∈ pre, live'.lookup (restoring j) = none ↔ a.cleanup j
  left : live'.lookup (restoring i) = (live.lookup (restoring i)).or (a.copy i).left
  cause : live.lookup (restoring i) = none → a.copy i ≠ .done
  frame : ∀ k, (∀ j ∈ pre++[i], k ≠ restoring j) → live'.lookup k = live.lookup k

/-- Swapping failed at `i`, behind the images of `pre` and with those of `post` still to come. -/
structure SwapFailed (a : RestoreAnswers Data) (snap : Dir Data) (pre : List FileName) (i : FileName)
    (post : List FileName) (live live' : Dir Data) : Prop where
  fresh : ∀ j ∈ pre++i::post, live.lookup (restoring j) = none
  swapped : ∀ j ∈ pre, live'.lookup j = snap.lookup j ∧ live'.lookup (restoring j) = none
  cleaned : ∀ j ∈ i::post, live'.lookup (restoring j) = none ↔ a.cleanup j
  cause : a.rename i = false
  frame : ∀ k, k ∉ pre → (∀ j ∈ pre++i::post, k ≠ restoring j) → live'.lookup k = live.lookup k

/-- All images are in place and the surplus ones are gone, as far as they could be deleted. -/
structure Switched (a : RestoreAnswers Data) (snap : Dir Data) (live live' : Dir Data) : Prop where
  fresh : ∀ j ∈ images snap, live.lookup (restoring j) = none
  swapped : ∀ j ∈ images snap, live'.lookup j = snap.lookup j ∧ live'.lookup (restoring j) = none
  surplus : ∀ k, k ∉ images snap → isImage k →
    live'.lookup k = if a.listed k ∧ a.delete k then none else live.lookup k
  frame : ∀ k, isImage k = false → (∀ j ∈ images snap, k ≠ restoring j) → live'.lookup k = live.lookup k

lemma isSome_of_mem_imageList {i : FileName} (h : i ∈ imageList order snap) : (snap.lookup i).isSome :=
  (mem_images.1 (mem_imageList.1 h)).1

lemma isImage_of_mem_imageList {i : FileName} (h : i ∈ imageList order snap) : isImage i :=
  (mem_images.1 (mem_imageList.1 h)).2

theorem Staged.stageFailed {pre : List FileName} {i : FileName} (h : Staged snap pre live live₁)
    (hnd : (pre++[i]).Nodup) (hsn : ∀ j ∈ pre++[i], (snap.lookup j).isSome)
    (hfa : (cloneOrCopy (snap.lookup i) live₁ (restoring i) (a.clone i) (a.copy i)).2 = false) :
    StageFailed a pre i live
      (cleanup a (cloneOrCopy (snap.lookup i) live₁ (restoring i) (a.clone i) (a.copy i)).1 pre) := by
  obtain ⟨hfrm,⟨hok,-⟩ | ⟨-,hle⟩⟩ :=
    cloneOrCopy_cases (hsn i (by simp)) live₁ (restoring i) (a.clone i) (a.copy i)
  · simp [hok] at hfa
  have hpre : ∀ j ∈ pre, i ≠ j := fun j hj heq => by
    rw [nodup_append] at hnd
    exact hnd.2.2 j hj i (by simp) heq.symm
  have hsf : ∀ j ∈ pre, restoring i ≠ restoring j := fun j hj heq => hpre j hj (restoring_inj.1 heq)
  refine ⟨h.fresh,fun j hj => ?_,?_,fun hnn hdn => ?_,fun k hk => ?_⟩
  · rw [lookup_cleanup_restoring (nodup_append.1 hnd).1 _ hj,hfrm _ (hsf j hj).symm,h.copied j hj]
    have hso := hsn j (by simp [hj])
    cases a.cleanup j <;> simp [Option.isSome_iff_ne_none.1 hso]
  · rw [lookup_cleanup_of_ne _ hsf,hle,h.frame _ hsf]
  · rw [hdn,cloneOrCopy_done (hsn i (by simp)),h.frame _ hsf,hnn] at hfa
    simp at hfa
  · rw [lookup_cleanup_of_ne _ fun j hj => hk j (by simp [hj]),hfrm k (hk i (by simp)),
      h.frame k fun j hj => hk j (by simp [hj])]

theorem Staged.swapFailed {pre post : List FileName} {i : FileName} {live₂ : Dir Data}
    (h : Staged snap (pre++i::post) live live₁) (hsw : Swapped pre live₁ live₂) (hnd : (pre++i::post).Nodup)
    (hsn : ∀ j ∈ pre++i::post, (snap.lookup j).isSome ∧ isImage j)
    (hcause : a.rename i = false ∨ live₂.lookup (restoring i) = none) :
    SwapFailed a snap pre i post live (cleanup a live₂ (pre++i::post)) := by
  have himg : ∀ j ∈ pre, ∀ i, j ≠ restoring i := fun j hj i =>
    ne_restoring_of_isImage (hsn j (by simp [hj])).2 i
  -- what is not swapped yet is still staged
  have hsg : ∀ j ∈ i::post, live₂.lookup (restoring j) = snap.lookup j := by
    intro j hj
    have hmem : j ∈ pre++i::post := mem_append_right _ hj
    rw [hsw.frame _ fun k hk => ⟨(himg k hk j).symm,fun heq =>
      (nodup_append.1 hnd).2.2 k hk j hj (restoring_inj.1 heq).symm⟩,h.copied j hmem]
  have hso : ∀ j ∈ i::post, snap.lookup j ≠ none := fun j hj =>
    Option.isSome_iff_ne_none.1 (hsn j (mem_append_right _ hj)).1
  refine ⟨h.fresh,fun j hj => ⟨?_,?_⟩,fun j hj => ?_,?_,fun k hk hk' => ?_⟩
  · rw [lookup_cleanup_of_ne _ fun i _ => himg j hj i,hsw.moved j hj,h.copied j (by simp [hj])]
  · rw [lookup_cleanup_restoring hnd _ (by simp [hj]),hsw.gone j hj]
    simp
  · rw [lookup_cleanup_restoring hnd _ (mem_append_right _ hj),hsg j hj]
    cases a.cleanup j <;> simp [hso j hj]
  · refine hcause.resolve_right fun hnn => hso i (by simp) ?_
    rw [← hsg i (by simp),hnn]
  · rw [lookup_cleanup_of_ne _ hk',hsw.frame k fun i hi => ⟨fun heq => hk (heq ▸ hi),hk' i (by simp [hi])⟩,
      h.frame k hk']

theorem Staged.switched {live₂ : Dir Data} (h : Staged snap (imageList order snap) live live₁)
    (hsw : Swapped (imageList order snap) live₁ live₂) :
    Switched a snap live (removeSurplus order a snap live₂) := by
  have hls : ∀ {j}, j ∈ images snap → j ∈ imageList order snap := fun hj => mem_imageList.2 hj
  refine ⟨fun j hj => h.fresh j (hls hj),fun j hj => ⟨?_,?_⟩,fun k hk himg => ?_,fun k himg hk => ?_⟩
  · rw [lookup_removeSurplus,if_neg (by tauto),hsw.moved j (hls hj),h.copied j (hls hj)]
  · rw [lookup_removeSurplus,if_neg (by simp [not_isImage_restoring]),hsw.gone j (hls hj)]
  · have hoth : ∀ j ∈ imageList order snap, k ≠ j ∧ k ≠ restoring j := fun j hj =>
      ⟨fun heq => hk (heq ▸ mem_imageList.1 hj),ne_restoring_of_isImage himg j⟩
    rw [lookup_removeSurplus,hsw.frame k hoth,h.frame k fun j hj => (hoth j hj).2]
    simp [himg,hk]
  · have hoth : ∀ j ∈ imageList order snap, k ≠ j ∧ k ≠ restoring j := fun j hj =>
      ⟨fun heq => by simp [heq,isImage_of_mem_imageList hj] at himg,hk j (mem_imageList.1 hj)⟩
    rw [lookup_removeSurplus,if_neg (by simp [himg]),hsw.frame k hoth,h.frame k fun j hj => (hoth j hj).2]

variable (order a snap) in
/-- Where an installation stops, and what it has done until then. -/
theorem install_cases (live : Dir Data) :
    (∃ pre i post, imageList order snap = pre++i::post ∧ (install order a snap live).error = some (.stage i) ∧
      StageFailed a pre i live (install order a snap live).live) ∨
    (∃ pre i post, imageList order snap = pre++i::post ∧ (install order a snap live).error = some (.swap i) ∧
      SwapFailed a snap pre i post live (install order a snap live).live) ∨
    ∃ live', Switched a snap live live' ∧ install order a snap live = switchState a snap live' := by
  have hnd := imageList_nodup order snap
  have hsn : ∀ i ∈ imageList order snap, (snap.lookup i).isSome := fun i hi => isSome_of_mem_imageList hi
  have him : ∀ i ∈ imageList order snap, isImage i := fun i hi => isImage_of_mem_imageList hi
  rcases stage_cases (a := a) hnd hsn live [] with ⟨pre,i,post,live₁,hls,hsg,hfa,heq⟩ | ⟨live₁,heq,hsg⟩
  · refine .inl ⟨pre,i,post,hls,by simp [install,heq],?_⟩
    have hsub : (pre++[i]).Sublist (imageList order snap) := by
      rw [hls]
      simp
    simp only [install,heq]
    exact hsg.stageFailed (hnd.sublist hsub) (fun j hj => hsn j (hsub.subset hj)) hfa
  · rcases swap_cases (a := a) hnd him live₁ with ⟨pre,i,post,live₂,hls,hsw,hfa,hcause⟩ | ⟨live₂,hdn,hsw⟩
    · refine .inr (.inl ⟨pre,i,post,hls,by simp [install,heq,hfa],?_⟩)
      simp only [install,heq,nil_append,hfa]
      rw [hls] at hsg hnd hsn him
      rw [hls]
      exact hsg.swapFailed hsw hnd (fun j hj => ⟨hsn j hj,him j hj⟩) hcause
    · exact .inr (.inr ⟨_,hsg.switched hsw,by simp [install,heq,hdn]⟩)

end TalosBox.Snapshots
