import TalosBox.Cutting
import TalosBox.MapLoops

/-! The files of a cluster directory: the state, the nodes' disk images, and the copies a restore
puts beside them. -/
namespace TalosBox.Snapshots

open Cutting MapLoops

abbrev FileName := List Char

def stateFile : FileName := "cluster.json".toList

/-- `filepath.Ext`. -/
def ext (name : FileName) : FileName :=
  match cutLast '.' name with
  | some (_,e) => '.' :: e
  | none => []

def isImage (name : FileName) : Bool := ext name = ".img".toList

/-- `node.Name + ".img"`. -/
def imageName (node : FileName) : FileName := node ++ ".img".toList

/-- Under what name `filepath.Join` finds a node's image: a node may be called `/`. -/
def diskName (node : FileName) : FileName := (imageName node).dropWhile (· = '/')

/-- The copy a restore stages beside its target. -/
def restoring (image : FileName) : FileName := image ++ ".restoring".toList

lemma ext_append {x e : FileName} (h : '.' ∉ e) : ext (x ++ '.' :: e) = '.' :: e := by
  rw [ext,cutLast_eq_some.2 ⟨rfl,h⟩]

variable {name : FileName}

theorem isImage_iff : isImage name ↔ ".img".toList <:+ name := by
  rw [isImage,decide_eq_true_eq]
  constructor
  · intro h
    unfold ext at h
    split at h
    · rename_i x e hcut
      rw [(cutLast_eq_some.1 hcut).1,h]
      exact List.suffix_append _ _
    · simp at h
  · rintro ⟨x,rfl⟩
    exact ext_append (by decide)

@[simp] lemma imageName_inj {i j : FileName} : imageName i = imageName j ↔ i = j := by simp [imageName]

lemma ext_of_suffix {e : FileName} (h : '.' :: e <:+ name) (he : '.' ∉ e) : ext name = '.' :: e := by
  obtain ⟨front,rfl⟩ := h
  exact ext_append he

theorem suffix_dropWhile (node : FileName) {suffix : FileName} (h : suffix.head? ≠ some '/') :
    suffix <:+ (node++suffix).dropWhile (· = '/') := by
  induction node with
  | nil =>
    cases suffix with
    | nil => simp
    | cons c suffix =>
      have hc : c ≠ '/' := by simpa using h
      simp [hc]
  | cons c node ih =>
    rw [List.cons_append,List.dropWhile_cons]
    split
    · exact ih
    · exact List.suffix_append (c::node) _

lemma isImage_diskName (node : FileName) : isImage (diskName node) :=
  isImage_iff.2 (suffix_dropWhile node (by decide))

lemma not_isImage_stateFile : isImage stateFile = false := by decide

lemma ne_stateFile_of_isImage (h : isImage name) : name ≠ stateFile := by
  rintro rfl
  simp [not_isImage_stateFile] at h

theorem not_isImage_restoring (image : FileName) : isImage (restoring image) = false := by
  have hext : ext (restoring image) = ".restoring".toList := ext_append (by decide)
  rw [isImage,hext]
  decide

theorem restoring_ne_stateFile (image : FileName) : restoring image ≠ stateFile := by
  intro h
  have hext : ext (restoring image) = ".restoring".toList := ext_append (by decide)
  rw [h] at hext
  exact absurd hext (by decide)

@[simp] lemma restoring_inj {i j : FileName} : restoring i = restoring j ↔ i = j := by simp [restoring]

theorem ne_restoring_of_isImage (h : isImage name) (image : FileName) :
    name ≠ restoring image := by
  rintro rfl
  simp [not_isImage_restoring] at h

variable {Data : Type}

abbrev Dir (Data : Type) := Map FileName Data

/-- The images of a directory. -/
def images (d : Dir Data) : Finset FileName := d.keys.filter (isImage ·)

lemma mem_images {d : Dir Data} : name ∈ images d ↔ (d.lookup name).isSome ∧ isImage name := by
  rw [images,Finset.mem_filter,Finmap.mem_keys,← Finmap.lookup_isSome]

/-- The images in the order in which a loop over the entries visits them. -/
def imageList (order : Order FileName) (d : Dir Data) : List FileName :=
  (order d.keys).1.filter (isImage ·)

lemma mem_imageList {order : Order FileName} {d : Dir Data} :
    name ∈ imageList order d ↔ name ∈ images d := by
  rw [imageList,List.mem_filter,Order.mem,images,Finset.mem_filter]

lemma imageList_nodup (order : Order FileName) (d : Dir Data) : (imageList order d).Nodup :=
  (order.nodup _).filter _

/-- A byte copy does not get to the destination, breaks off with some bytes written, or succeeds. -/
inductive CopyAnswer (Data : Type)
  | refused
  | broke (left : Data)
  | done

/-- What a copy that fails leaves behind. -/
def CopyAnswer.left : CopyAnswer Data → Option Data
  | .broke left => some left
  | _ => none

/-- `copyFile`, which creates the destination exclusively. -/
def copyFile (source : Option Data) (d : Dir Data) (destination : FileName) (answer : CopyAnswer Data) :
    Dir Data × Bool :=
  match source with
  | none => (d,false)
  | some data =>
    if (d.lookup destination).isSome then (d,false)
    else
      match answer with
      | .refused => (d,false)
      | .broke left => (d.insert destination left,false)
      | .done => (d.insert destination data,true)

/-- A clone creates its destination exclusively too, and leaves nothing if it fails. -/
def cloneOrCopy (source : Option Data) (d : Dir Data) (destination : FileName) (clone : Bool)
    (answer : CopyAnswer Data) : Dir Data × Bool :=
  match source with
  | some data =>
    if clone ∧ d.lookup destination = none then (d.insert destination data,true)
    else copyFile source d destination answer
  | none => copyFile source d destination answer

theorem copyFile_cases (source : Option Data) (d : Dir Data) (dst : FileName) (answer : CopyAnswer Data) :
    (∀ k, k ≠ dst → (copyFile source d dst answer).1.lookup k = d.lookup k) ∧
    ((copyFile source d dst answer).2 ∧ d.lookup dst = none ∧ source.isSome ∧
        (copyFile source d dst answer).1.lookup dst = source ∨
      (copyFile source d dst answer).2 = false ∧
        (source.isSome → (copyFile source d dst answer).1.lookup dst =
          (d.lookup dst).or answer.left)) := by
  unfold copyFile
  cases source with
  | none => simp
  | some data =>
    cases hold : d.lookup dst with
    | some old => simp [hold]
    | none =>
      cases answer with
      | refused => simp [hold,CopyAnswer.left]
      | broke left => simp +contextual [CopyAnswer.left,Finmap.lookup_insert_of_ne]
      | done => simp +contextual [Finmap.lookup_insert_of_ne]

theorem cloneOrCopy_cases {source : Option Data} (hsrc : source.isSome) (d : Dir Data) (dst : FileName)
    (clone : Bool) (answer : CopyAnswer Data) :
    (∀ k, k ≠ dst → (cloneOrCopy source d dst clone answer).1.lookup k = d.lookup k) ∧
    ((cloneOrCopy source d dst clone answer).2 ∧ d.lookup dst = none ∧
        (cloneOrCopy source d dst clone answer).1.lookup dst = source ∨
      (cloneOrCopy source d dst clone answer).2 = false ∧
        (cloneOrCopy source d dst clone answer).1.lookup dst = (d.lookup dst).or answer.left) := by
  obtain ⟨data,rfl⟩ := Option.isSome_iff_exists.1 hsrc
  unfold cloneOrCopy
  simp only
  split_ifs with hclone
  · refine ⟨fun k hk => Finmap.lookup_insert_of_ne _ hk,.inl ⟨rfl,hclone.2,Finmap.lookup_insert _⟩⟩
  · obtain ⟨hfrm,⟨hok,hno,-,hda⟩ | ⟨hfa,hle⟩⟩ := copyFile_cases (some data) d dst answer
    · exact ⟨hfrm,.inl ⟨hok,hno,hda⟩⟩
    · exact ⟨hfrm,.inr ⟨hfa,hle rfl⟩⟩

theorem cloneOrCopy_done {source : Option Data} (hsrc : source.isSome) (d : Dir Data) (dst : FileName)
    (clone : Bool) :
    (cloneOrCopy source d dst clone .done).2 = (d.lookup dst).isNone := by
  obtain ⟨data,rfl⟩ := Option.isSome_iff_exists.1 hsrc
  unfold cloneOrCopy copyFile
  cases clone <;> cases d.lookup dst <;> simp

end TalosBox.Snapshots
