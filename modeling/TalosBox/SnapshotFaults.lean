import TalosBox.SnapshotRestore

/-! Restores that fail: whether they leave one state with its disks, and whether the same restore
succeeds later. -/
namespace TalosBox.Snapshots

open MapLoops List Option

variable {Data : Type} {codec : Codec Data} {order : Order FileName} {a : RestoreAnswers Data}

/-- The names under which a directory lists files. -/
def Entries (d : Dir Data) : Prop := ∀ k, (d.lookup k).isSome → '/' ∉ k

theorem diskName_of_entry {node : FileName} (h : '/' ∉ imageName node) : diskName node = imageName node := by
  rw [diskName]
  cases himg : imageName node with
  | nil => rfl
  | cons c rest =>
    have hc : c ≠ '/' := fun heq => h (by simp [himg,heq])
    simp [hc]

variable {snap : Dir Data} {snapshots : Map FileName (Dir Data)} {name : FileName} {captured : Cluster}

theorem Restorable.diskName_mem (h : Restorable codec snap name snapshots captured) (hes : Entries snap)
    {node : FileName} (hnod : node ∈ captured.nodeNames) : diskName node = imageName node ∧ diskName node ∈ images snap := by
  have hmem := (h.disks (imageName node)).2 ⟨node,hnod,rfl⟩
  have heq := diskName_of_entry (hes _ (mem_images.1 hmem).1)
  exact ⟨heq,heq ▸ hmem⟩

/-- The disks of the state a snapshot loads as are its images. -/
theorem Restorable.loaded_disks
    {c : Cluster} (h : Restorable codec snap name snapshots captured) (hes : Entries snap)
    (hc : codec.loaded snap = some c) {node : FileName} (hnod : node ∈ c.nodeNames) : diskName node ∈ images snap := by
  obtain ⟨data,hda,hlo⟩ := bind_eq_some_iff.1 hc
  obtain ⟨raw,hraw,hnms⟩ := Codec.nodeNames_of_load hlo
  obtain rfl : raw = captured := by simpa [hda,hraw] using h.state
  exact (h.diskName_mem hes (hnms ▸ hnod)).2

/-- The directory loads as the state from before or the captured one, with its disks. -/
def Consistent (codec : Codec Data) (before snap after : Dir Data) : Prop :=
  ∃ source, (source = before ∨ source = snap) ∧ ∃ c, codec.loaded source = some c ∧ codec.loaded after = some c ∧
    ∀ node ∈ c.nodeNames, after.lookup (diskName node) = source.lookup (diskName node)

/-- An image unchanged past the swaps: the captured one is the same, or deleting it failed. -/
def Spared (a : RestoreAnswers Data) (before snap : Dir Data) (image : FileName) : Prop :=
  if image ∈ images snap then before.lookup image = snap.lookup image
  else before.lookup image = none ∨ ¬(a.listed image ∧ a.delete image)

/-- Failures before the first swap do no harm; one that fails must not leave disks of two states,
and with the images in place either nothing has changed for the old state or the captured one is
there. -/
def Harmless (codec : Codec Data) (order : Order FileName) (a : RestoreAnswers Data) (before snap : Dir Data)
    (old : Cluster) : RestoreError → Prop
  | .swap i =>
    let swapped := (imageList order snap).takeWhile (· ≠ i)
    (∀ node ∈ old.nodeNames, diskName node ∈ swapped → before.lookup (diskName node) = snap.lookup (diskName node)) ∨
    (codec.loaded snap = some old ∧ ∀ node ∈ old.nodeNames, diskName node ∉ swapped →
      before.lookup (diskName node) = snap.lookup (diskName node))
  | .removeState => (∀ node ∈ old.nodeNames, Spared a before snap (diskName node)) ∨ codec.loaded snap = some old
  | .copyState => ∃ left c, a.copyState = .broke left ∧ codec.load left = some c ∧
    (c = old ∧ (∀ node ∈ old.nodeNames, Spared a before snap (diskName node)) ∨ codec.loaded snap = some c)
  | _ => True

/-- The errors of the validation. -/
def RestoreError.early : RestoreError → Bool
  | .stage _ | .swap _ | .removeState | .copyState => false
  | _ => true

theorem checkNodes_early {left : Finset FileName} {nodes : List FileName} {e : RestoreError}
    (h : checkNodes name left nodes = .error e) : e.early := by
  induction nodes generalizing left with
  | nil =>
    rw [checkNodes] at h
    split_ifs at h
    obtain rfl := Except.error.inj h
    rfl
  | cons node nodes ih =>
    rw [checkNodes] at h
    split_ifs at h
    · exact ih h
    · obtain rfl := Except.error.inj h
      rfl

theorem openSnapshot_early {e : RestoreError}
    (h : openSnapshot codec a name snapshots = .error e) : e.early := by
  unfold openSnapshot at h
  split at h
  · obtain rfl := Except.error.inj h
    rfl
  split at h
  · obtain rfl := Except.error.inj h
    rfl
  split at h
  · obtain rfl := Except.error.inj h
    rfl
  split at h
  · obtain rfl := Except.error.inj h
    rfl
  split at h
  · obtain rfl := Except.error.inj h
    rfl
  split at h
  · rename_i hchk
    obtain rfl := Except.error.inj h
    exact checkNodes_early hchk
  split at h
  · obtain rfl := Except.error.inj h
    rfl
  · cases h

variable {before : Dir Data} {old : Cluster}

lemma harmless_of_early {e : RestoreError} (h : e.early) :
    Harmless codec order a before snap old e := by
  cases e <;> trivial

theorem consistent_of_unchanged {after : Dir Data} (hold : codec.loaded before = some old)
    (h : ∀ k, isImage k ∨ k = stateFile → after.lookup k = before.lookup k) : Consistent codec before snap after := by
  refine ⟨before,.inl rfl,old,hold,?_,fun node _ => h _ (.inl (isImage_diskName node))⟩
  rw [Codec.loaded,h stateFile (.inr rfl)]
  exact hold

theorem consistent_iff_of_loaded {after : Dir Data} {c : Cluster} (hold : codec.loaded before = some old)
    (hc : codec.loaded after = some c) :
    Consistent codec before snap after ↔
      (c = old ∧ ∀ node ∈ old.nodeNames, after.lookup (diskName node) = before.lookup (diskName node)) ∨
      (codec.loaded snap = some c ∧ ∀ node ∈ c.nodeNames, after.lookup (diskName node) = snap.lookup (diskName node)) := by
  constructor
  · rintro ⟨source,rfl | rfl,c',hsrc,haft,hdks⟩
    · obtain rfl : c' = old := by simpa [hold] using hsrc.symm
      obtain rfl : c = c' := by simpa [hc] using haft
      exact .inl ⟨rfl,hdks⟩
    · obtain rfl : c = c' := by simpa [hc] using haft
      exact .inr ⟨hsrc,hdks⟩
  · rintro (⟨rfl,hdks⟩ | ⟨hsn,hdks⟩)
    · exact ⟨before,.inl rfl,c,hold,hc,hdks⟩
    · exact ⟨snap,.inr rfl,c,hsn,hc,hdks⟩

section

variable {snap live live' : Dir Data} {old : Cluster} {pre post : List FileName} {i : FileName}

theorem StageFailed.consistent (h : StageFailed a pre i live live') (hold : codec.loaded live = some old) :
    Consistent codec live snap live' := by
  refine consistent_of_unchanged hold fun k hk => h.frame k fun j _ => ?_
  rcases hk with himg | rfl
  · exact ne_restoring_of_isImage himg j
  · exact (restoring_ne_stateFile j).symm

theorem SwapFailed.consistent_iff (h : SwapFailed a snap pre i post live live') (hold : codec.loaded live = some old)
    (hpre : ∀ j ∈ pre, isImage j) :
    Consistent codec live snap live' ↔
      (∀ node ∈ old.nodeNames, diskName node ∈ pre → live.lookup (diskName node) = snap.lookup (diskName node)) ∨
      (codec.loaded snap = some old ∧ ∀ node ∈ old.nodeNames, diskName node ∉ pre →
        live.lookup (diskName node) = snap.lookup (diskName node)) := by
  have hste : codec.loaded live' = some old := by
    have hmem : stateFile ∉ pre := fun hmem => ne_stateFile_of_isImage (hpre _ hmem) rfl
    rw [Codec.loaded,h.frame stateFile hmem fun j _ => (restoring_ne_stateFile j).symm]
    exact hold
  have hoth : ∀ node, diskName node ∉ pre → live'.lookup (diskName node) = live.lookup (diskName node) :=
    fun node hmem => h.frame _ hmem fun j _ => ne_restoring_of_isImage (isImage_diskName node) j
  rw [consistent_iff_of_loaded hold hste]
  refine or_congr ?_ (and_congr_right fun _ => ?_)
  · simp only [true_and]
    refine forall₂_congr fun node _ => ?_
    by_cases hmem : diskName node ∈ pre
    · rw [(h.swapped _ hmem).1]
      simp [hmem,eq_comm]
    · simp [hmem,hoth node hmem]
  · refine forall₂_congr fun node _ => ?_
    by_cases hmem : diskName node ∈ pre
    · simp [hmem,(h.swapped _ hmem).1]
    · simp [hmem,hoth node hmem]

theorem Switched.spared_iff (h : Switched a snap live live') (node : FileName) :
    live'.lookup (diskName node) = live.lookup (diskName node) ↔ Spared a live snap (diskName node) := by
  unfold Spared
  split_ifs with hmem
  · rw [(h.swapped _ hmem).1,eq_comm]
  · rw [h.surplus _ hmem (isImage_diskName node)]
    split_ifs with hdelete
    · simp [hdelete,eq_comm]
    · simp [hdelete]

lemma Switched.lookup_stateFile (h : Switched a snap live live') : live'.lookup stateFile = live.lookup stateFile :=
  h.frame stateFile not_isImage_stateFile fun j _ => (restoring_ne_stateFile j).symm

/-- With the images in place, the directory is consistent if the old state is spared or the captured
one loaded. -/
theorem Switched.consistent_iff {name : FileName} {snapshots : Map FileName (Dir Data)} {captured c : Cluster}
    (h : Switched a snap live live') (hsn : Restorable codec snap name snapshots captured) (hes : Entries snap)
    (hold : codec.loaded live = some old) {after : Dir Data} (hc : codec.loaded after = some c)
    (haft : ∀ k, k ≠ stateFile → after.lookup k = live'.lookup k) :
    Consistent codec live snap after ↔
      (c = old ∧ ∀ node ∈ old.nodeNames, Spared a live snap (diskName node)) ∨ codec.loaded snap = some c := by
  have hdk : ∀ node, after.lookup (diskName node) = live'.lookup (diskName node) := fun node =>
    haft _ (ne_stateFile_of_isImage (isImage_diskName node))
  rw [consistent_iff_of_loaded hold hc]
  refine or_congr (and_congr_right fun _ => forall₂_congr fun node _ => ?_) ?_
  · rw [hdk,h.spared_iff]
  · refine and_iff_left_of_imp fun hloaded node hnod => ?_
    rw [hdk,(h.swapped _ (hsn.loaded_disks hes hloaded hnod)).1]

variable (a live') in
theorem switchState_cases (hste : (snap.lookup stateFile).isSome) :
    (switchState a snap live').error = some .removeState ∧ (switchState a snap live').live = live' ∨
    (switchState a snap live').error = some .copyState ∧
      (switchState a snap live').live.lookup stateFile = a.copyState.left ∧
      (∀ k, k ≠ stateFile → (switchState a snap live').live.lookup k = live'.lookup k) ∨
    (switchState a snap live').error = none ∧ (switchState a snap live').live.lookup stateFile = snap.lookup stateFile ∧
      ∀ k, k ≠ stateFile → (switchState a snap live').live.lookup k = live'.lookup k := by
  unfold switchState
  split_ifs with hrm
  · exact .inl ⟨rfl,rfl⟩
  · obtain ⟨hfrm,hcp⟩ := copyFile_cases (snap.lookup stateFile) (live'.erase stateFile) stateFile a.copyState
    have hoth : ∀ k, k ≠ stateFile → (live'.erase stateFile).lookup k = live'.lookup k :=
      fun k hk => Finmap.lookup_erase_ne hk
    generalize copyFile (snap.lookup stateFile) (live'.erase stateFile) stateFile a.copyState = result at hfrm hcp
    obtain ⟨after,ok⟩ := result
    rcases hcp with ⟨rfl,-,-,hda⟩ | ⟨rfl,hle⟩
    · exact .inr (.inr ⟨rfl,hda,fun k hk => (hfrm k hk).trans (hoth k hk)⟩)
    · refine .inr (.inl ⟨rfl,?_,fun k hk => (hfrm k hk).trans (hoth k hk)⟩)
      have hlk := hle hste
      rwa [Finmap.lookup_erase,none_or] at hlk

theorem takeWhile_imageList (hls : imageList order snap = pre++i::post) :
    (imageList order snap).takeWhile (· ≠ i) = pre := by
  have hnd := imageList_nodup order snap
  rw [hls] at hnd ⊢
  have hpre : ∀ j ∈ pre, decide (j ≠ i) := fun j hj =>
    decide_eq_true ((nodup_append.1 hnd).2.2 j hj i (by simp))
  rw [takeWhile_append_of_pos hpre]
  simp

/-- A state file whose copy failed is missing, or holds what the copy left. -/
theorem Switched.copyState_consistent_iff {name : FileName} {snapshots : Map FileName (Dir Data)} {captured : Cluster}
    (h : Switched a snap live live') (hsn : Restorable codec snap name snapshots captured) (hes : Entries snap)
    (hold : codec.loaded live = some old) {after : Dir Data} (hle : after.lookup stateFile = a.copyState.left)
    (haft : ∀ k, k ≠ stateFile → after.lookup k = live'.lookup k) :
    Consistent codec live snap after ↔ Harmless codec order a live snap old .copyState := by
  cases hc : codec.loaded after with
  | none =>
    refine iff_of_false ?_ ?_
    · rintro ⟨source,-,c,-,haft,-⟩
      simp [hc] at haft
    · rintro ⟨left,c,hbroke,hlo,-⟩
      simp [Codec.loaded,hle,hbroke,CopyAnswer.left,hlo] at hc
  | some c =>
    rw [h.consistent_iff hsn hes hold hc haft]
    obtain ⟨left,hbroke,hlo⟩ := bind_eq_some_iff.1 hc
    have hans : a.copyState = .broke left := by
      cases hcp : a.copyState <;> simp_all [CopyAnswer.left]
    constructor
    · exact fun hcase => ⟨left,c,hans,hlo,hcase⟩
    · rintro ⟨left',c',hans',hlo',hcase⟩
      obtain rfl : left = left' := by simpa [hans] using hans'
      obtain rfl : c = c' := by simpa [hlo] using hlo'
      exact hcase

end

/-- A restore that fails leaves one state with its disks exactly if the failure is harmless. -/
theorem failed_restore_consistent_iff (codec : Codec Data) (order : Order FileName) (a : RestoreAnswers Data)
    (name : FileName) (snapshots : Map FileName (Dir Data)) (live snap : Dir Data) (old : Cluster) (e : RestoreError)
    (hsnap : snap = (snapshots.lookup name).getD ∅) (hents : Entries snap) (hold : codec.loaded live = some old)
    (h : (restoreSnapshot codec order a name snapshots live).error = some e) :
    Consistent codec live snap (restoreSnapshot codec order a name snapshots live).live ↔
      Harmless codec order a live snap old e := by
  cases hopen : openSnapshot codec a name snapshots with
  | error e' =>
    simp only [restoreSnapshot,hopen] at h ⊢
    obtain rfl := Option.some.inj h
    exact iff_of_true (consistent_of_unchanged hold fun _ _ => rfl) (harmless_of_early (openSnapshot_early hopen))
  | ok snap' =>
    obtain ⟨captured,hrst⟩ := openSnapshot_eq_ok hopen
    obtain rfl : snap = snap' := by rw [hsnap,hrst.found]; rfl
    simp only [restoreSnapshot,hopen] at h ⊢
    rcases install_cases order a snap live with
      ⟨pre,i,post,hlist,herr,hfail⟩ | ⟨pre,i,post,hlist,herr,hfail⟩ | ⟨live',hsw,heq⟩
    · obtain rfl := Option.some.inj (herr.symm.trans h)
      exact iff_of_true (hfail.consistent hold) trivial
    · obtain rfl := Option.some.inj (herr.symm.trans h)
      have hpre : ∀ j ∈ pre, isImage j = true := by
        intro j hj
        have hmem : j ∈ imageList order snap := by simp [hlist,hj]
        exact isImage_of_mem_imageList hmem
      rw [Harmless,takeWhile_imageList hlist]
      exact hfail.consistent_iff hold hpre
    · rw [heq] at h ⊢
      obtain ⟨data,hdata,-⟩ := bind_eq_some_iff.mp hrst.state
      rcases switchState_cases a live' (by simp [hdata] : (snap.lookup stateFile).isSome) with
        ⟨herr,hlive⟩ | ⟨herr,hleft,hfrm⟩ | ⟨herr,-⟩
      · obtain rfl := Option.some.inj (herr.symm.trans h)
        have hloaded : codec.loaded live' = some old := by
          rw [Codec.loaded,hsw.lookup_stateFile]
          exact hold
        rw [hlive,hsw.consistent_iff hrst hents hold hloaded fun _ _ => rfl]
        simp [Harmless]
      · obtain rfl := Option.some.inj (herr.symm.trans h)
        exact hsw.copyState_consistent_iff hrst hents hold hleft hfrm
      · simp [herr] at h

/-- The host fails no operation; whether files can be cloned is left open. -/
structure Faultless (a : RestoreAnswers Data) : Prop where
  opened : a.stat ∧ a.readState ∧ a.checkDir ∧ a.readDir
  copies : ∀ image, a.copy image = .done
  renames : ∀ image, a.rename image
  deletes : ∀ image, a.listed image ∧ a.delete image
  removes : a.removeState
  state : a.copyState = .done

/-- The captured state and its disks, and no other disk. -/
def Restored (snap live : Dir Data) : Prop :=
  live.lookup stateFile = snap.lookup stateFile ∧ ∀ k, isImage k → live.lookup k = snap.lookup k

theorem Switched.restored {live live' : Dir Data} (h : Switched a snap live live') (ha : Faultless a)
    (hste : (snap.lookup stateFile).isSome) :
    (switchState a snap live').error = none ∧ Restored snap (switchState a snap live').live := by
  obtain ⟨data,hda⟩ := isSome_iff_exists.1 hste
  have hres : switchState a snap live' = ⟨(live'.erase stateFile).insert stateFile data,none⟩ := by
    simp [switchState,ha.removes,ha.state,copyFile,hda]
  rw [hres]
  refine ⟨rfl,(Finmap.lookup_insert _).trans hda.symm,fun k hk => ?_⟩
  have hne := ne_stateFile_of_isImage hk
  rw [Finmap.lookup_insert_of_ne _ hne,Finmap.lookup_erase_ne hne]
  by_cases hmem : k ∈ images snap
  · exact (h.swapped k hmem).1
  · have hno : snap.lookup k = none := by
      by_contra hso
      exact hmem (mem_images.2 ⟨isSome_iff_ne_none.2 hso,hk⟩)
    rw [h.surplus k hmem hk,if_pos (ha.deletes k),hno]

/-- Where the host fails nothing, a restore depends on the copies that lie about alone. -/
theorem restore_faultless_iff (hsn : Restorable codec snap name snapshots captured) (ha : Faultless a) (live : Dir Data) :
    ((restoreSnapshot codec order a name snapshots live).error = none ∧
        Restored snap (restoreSnapshot codec order a name snapshots live).live) ↔
      ∀ image ∈ images snap, live.lookup (restoring image) = none := by
  obtain ⟨data,hda,-⟩ := bind_eq_some_iff.1 hsn.state
  simp only [restoreSnapshot,openSnapshot_of_restorable hsn ha.opened]
  rcases install_cases order a snap live with
    ⟨pre,i,post,hls,herr,hfa⟩ | ⟨pre,i,post,hls,herr,hfa⟩ | ⟨live',hsw,heq⟩
  · have hmem : i ∈ images snap := mem_imageList.1 (by rw [hls]; simp : i ∈ imageList order snap)
    simp only [herr,reduceCtorEq,false_and,false_iff,not_forall]
    exact ⟨i,hmem,fun hno => hfa.cause hno (ha.copies i)⟩
  · exact absurd hfa.cause (by simp [ha.renames])
  · rw [heq]
    exact iff_of_true (hsw.restored ha (by simp [hda])) hsw.fresh

/-- No copy of an image is left, neither from before nor by a copy or a cleanup that failed. -/
def Retriable (order : Order FileName) (a : RestoreAnswers Data) (live snap : Dir Data) : RestoreError → Prop
  | .stage i =>
    let staged := (imageList order snap).takeWhile (· ≠ i)
    (∀ j ∈ staged, a.cleanup j) ∧
      (∀ j ∈ images snap, j ∉ staged → live.lookup (restoring j) = none) ∧ (a.copy i).left = none
  | .swap i =>
    let swapped := (imageList order snap).takeWhile (· ≠ i)
    ∀ j ∈ images snap, j ∉ swapped → a.cleanup j
  | .removeState | .copyState => True
  | _ => ∀ j ∈ images snap, live.lookup (restoring j) = none

lemma retriable_of_early {live : Dir Data} {e : RestoreError} (h : e.early) :
    Retriable order a live snap e ↔ ∀ j ∈ images snap, live.lookup (restoring j) = none := by
  cases e <;> first | exact Iff.rfl | simp [RestoreError.early] at h

section

variable {snap live live' : Dir Data} {pre post : List FileName} {i : FileName}

theorem StageFailed.retriable_iff (h : StageFailed a pre i live live') (hls : imageList order snap = pre++i::post) :
    (∀ j ∈ images snap, live'.lookup (restoring j) = none) ↔ Retriable order a live snap (.stage i) := by
  have hnd := imageList_nodup order snap
  have hmem : ∀ j, j ∈ images snap ↔ j ∈ pre ∨ j = i ∨ j ∈ post := fun j => by
    rw [← show j ∈ imageList order snap ↔ j ∈ images snap from mem_imageList,hls]
    simp
  rw [hls,nodup_append,nodup_cons] at hnd
  obtain ⟨-,⟨hi,-⟩,hdisj⟩ := hnd
  have hpost : ∀ j ∈ post, live'.lookup (restoring j) = live.lookup (restoring j) := by
    intro j hj
    refine h.frame _ fun k hk heq => ?_
    obtain rfl := restoring_inj.1 heq
    rcases mem_append.1 hk with hpre | hsf
    · exact hdisj j hpre j (by simp [hj]) rfl
    · exact hi (mem_singleton.1 hsf ▸ hj)
  simp only [Retriable,takeWhile_imageList hls,hmem]
  constructor
  · intro hno
    have hsf := hno i (by simp)
    rw [h.left,or_eq_none_iff] at hsf
    refine ⟨fun j hj => (h.cleaned j hj).1 (hno j (.inl hj)),?_,hsf.2⟩
    rintro j (hj | rfl | hj) hpre
    · exact absurd hj hpre
    · exact hsf.1
    · rw [← hpost j hj]
      exact hno j (.inr (.inr hj))
  · rintro ⟨hcln,hfrs,hle⟩ j (hj | rfl | hj)
    · exact (h.cleaned j hj).2 (hcln j hj)
    · rw [h.left,hfrs j (.inr (.inl rfl)) fun hpre => hdisj j hpre j (by simp) rfl,hle]
      rfl
    · rw [hpost j hj]
      exact hfrs j (.inr (.inr hj)) fun hpre => hdisj j hpre j (by simp [hj]) rfl

theorem SwapFailed.retriable_iff (h : SwapFailed a snap pre i post live live')
    (hls : imageList order snap = pre++i::post) :
    (∀ j ∈ images snap, live'.lookup (restoring j) = none) ↔ Retriable order a live snap (.swap i) := by
  have hnd := imageList_nodup order snap
  have hmem : ∀ j, j ∈ images snap ↔ j ∈ pre ∨ j ∈ i::post := fun j => by
    rw [← show j ∈ imageList order snap ↔ j ∈ images snap from mem_imageList,hls,mem_append]
  rw [hls,nodup_append] at hnd
  simp only [Retriable,takeWhile_imageList hls,hmem]
  constructor
  · rintro hno j (hj | hj) hpre
    · exact absurd hj hpre
    · exact (h.cleaned j hj).1 (hno j (.inr hj))
  · rintro hcln j (hj | hj)
    · exact (h.swapped j hj).2
    · exact (h.cleaned j hj).2 (hcln j (.inr hj) fun hpre => hnd.2.2 j hpre j hj rfl)

theorem Switched.restoring_gone (h : Switched a snap live live') (hste : (snap.lookup stateFile).isSome) :
    ∀ j ∈ images snap, (switchState a snap live').live.lookup (restoring j) = none := by
  intro j hj
  rw [← (h.swapped j hj).2]
  rcases switchState_cases a live' hste with ⟨-,hlv⟩ | ⟨-,-,hfrm⟩ | ⟨-,-,hfrm⟩
  · rw [hlv]
  · exact hfrm _ (restoring_ne_stateFile j)
  · exact hfrm _ (restoring_ne_stateFile j)

end

/-- The restore that failed succeeds without faults exactly if it left no copy of an image. -/
theorem failed_restore_retriable_iff (codec : Codec Data) (order : Order FileName) (a b : RestoreAnswers Data)
    (name : FileName) (snapshots : Map FileName (Dir Data)) (live snap : Dir Data) (captured : Cluster)
    (e : RestoreError) (hsnap : Restorable codec snap name snapshots captured)
    (h : (restoreSnapshot codec order a name snapshots live).error = some e) (hb : Faultless b) :
    let again := restoreSnapshot codec order b name snapshots (restoreSnapshot codec order a name snapshots live).live
    again.error = none ∧ Restored snap again.live ↔ Retriable order a live snap e := by
  intro again
  rw [restore_faultless_iff hsnap hb]
  cases hopen : openSnapshot codec a name snapshots with
  | error e' =>
    simp only [restoreSnapshot,hopen] at h ⊢
    obtain rfl := Option.some.inj h
    exact (retriable_of_early (openSnapshot_early hopen)).symm
  | ok snap' =>
    obtain ⟨captured',hrst⟩ := openSnapshot_eq_ok hopen
    obtain rfl : snap' = snap := by simpa [hsnap.found] using hrst.found.symm
    obtain ⟨data,hdata,-⟩ := bind_eq_some_iff.mp hsnap.state
    simp only [restoreSnapshot,hopen] at h ⊢
    rcases install_cases order a snap' live with
      ⟨pre,i,post,hlist,herr,hfail⟩ | ⟨pre,i,post,hlist,herr,hfail⟩ | ⟨live',hsw,heq⟩
    · obtain rfl := Option.some.inj (herr.symm.trans h)
      exact hfail.retriable_iff hlist
    · obtain rfl := Option.some.inj (herr.symm.trans h)
      exact hfail.retriable_iff hlist
    · have hgone := hsw.restoring_gone (by simp [hdata] : (snap'.lookup stateFile).isSome)
      rw [heq] at h ⊢
      rcases switchState_cases a live' (by simp [hdata] : (snap'.lookup stateFile).isSome) with
        ⟨herr,-⟩ | ⟨herr,-⟩ | ⟨herr,-⟩
      · obtain rfl := Option.some.inj (herr.symm.trans h)
        exact iff_of_true hgone trivial
      · obtain rfl := Option.some.inj (herr.symm.trans h)
        exact iff_of_true hgone trivial
      · simp [herr] at h

/-- Files as states or as the numbers of disks. -/
def plainCodec : Codec (Cluster ⊕ ℕ) where
  marshal := .inl
  unmarshal := Sum.getLeft?
  upgrade _ c := some (c,false)
  unmarshal_marshal _ := rfl
  upgrade_nodeNames h := by
    obtain ⟨rfl,-⟩ := Prod.mk.inj (some.inj h)
    rfl

/-- `os.ReadDir` lists the entries by name. -/
def byName : Order FileName := Order.sorted

def oneNode : Cluster := ⟨"demo".toList,1,0,[⟨"cp".toList,.controlPlane,[],[]⟩],20,20⟩

def diskDir (disk : ℕ) : Dir (Cluster ⊕ ℕ) :=
  ((∅ : Dir (Cluster ⊕ ℕ)).insert stateFile (.inl oneNode)).insert "cp.img".toList (.inr disk)

def smooth : RestoreAnswers (Cluster ⊕ ℕ) where
  stat := true
  readState := true
  checkDir := true
  readDir := true
  clone _ := false
  copy _ := .done
  rename _ := true
  cleanup _ := true
  listed _ := true
  delete _ := true
  removeState := true
  copyState := .done

lemma faultless_smooth : Faultless smooth := ⟨by decide,fun _ => rfl,fun _ => rfl,fun _ => ⟨rfl,rfl⟩,rfl,rfl⟩

def taken : Map FileName (Dir (Cluster ⊕ ℕ)) := (∅ : Map FileName (Dir (Cluster ⊕ ℕ))).insert "s".toList (diskDir 0)

theorem restorable_taken : Restorable plainCodec (diskDir 0) "s".toList taken oneNode where
  valid := by decide
  found := Finmap.lookup_insert _
  state := by decide
  nodup := by decide
  disks image := by
    have him : images (diskDir 0) = {imageName "cp".toList} := by decide
    rw [him,Finset.mem_singleton]
    simp [oneNode,Cluster.nodeNames,eq_comm]

theorem entries_taken : Entries (diskDir 0) := by
  intro k hk
  have hks : (diskDir 0).keys = {stateFile,"cp.img".toList} := by decide
  have hmem : k ∈ (diskDir 0).keys := Finmap.mem_keys.2 (Finmap.lookup_isSome.1 hk)
  rw [hks,Finset.mem_insert,Finset.mem_singleton] at hmem
  rcases hmem with rfl | rfl <;> decide

/-- The host refuses to create the first copy. -/
def stagingRefused : RestoreAnswers (Cluster ⊕ ℕ) := { smooth with copy := fun _ => .refused }

theorem refused_staging_consistent :
    Consistent plainCodec (diskDir 1) (diskDir 0)
      (restoreSnapshot plainCodec byName stagingRefused "s".toList taken (diskDir 1)).live :=
  (failed_restore_consistent_iff plainCodec byName stagingRefused "s".toList taken (diskDir 1) (diskDir 0) oneNode
    (.stage "cp.img".toList) (by rw [restorable_taken.found]; rfl) entries_taken (by decide +kernel)
    (by decide +kernel)).mpr trivial

theorem refused_staging_retriable :
    let again := restoreSnapshot plainCodec byName smooth "s".toList taken
      (restoreSnapshot plainCodec byName stagingRefused "s".toList taken (diskDir 1)).live
    again.error = none ∧ Restored (diskDir 0) again.live := by
  refine (failed_restore_retriable_iff plainCodec byName stagingRefused smooth "s".toList taken (diskDir 1) (diskDir 0)
    oneNode (.stage "cp.img".toList) restorable_taken (by decide +kernel) faultless_smooth).mpr ?_
  have hstgd : (imageList byName (diskDir 0)).takeWhile (· ≠ "cp.img".toList) = [] := by decide +kernel
  have himgs : images (diskDir 0) = {"cp.img".toList} := by decide +kernel
  simp only [Retriable,hstgd,himgs,Finset.mem_singleton]
  refine ⟨by simp,?_,rfl⟩
  rintro _ rfl -
  decide +kernel

/-- The state file is gone when its copy cannot be created. -/
def stateRefused : RestoreAnswers (Cluster ⊕ ℕ) := { smooth with copyState := .refused }

theorem refused_state_copy_loses_state :
    let r := restoreSnapshot plainCodec byName stateRefused "s".toList taken (diskDir 1)
    r.error = some .copyState ∧ r.live.lookup stateFile = none ∧
      ¬Consistent plainCodec (diskDir 1) (diskDir 0) r.live := by
  have hgone : (restoreSnapshot plainCodec byName stateRefused "s".toList taken (diskDir 1)).live.lookup stateFile =
      none := by decide +kernel
  refine ⟨by decide +kernel,hgone,?_⟩
  rintro ⟨source,-,c,-,hloaded,-⟩
  cases hloaded

/-- The disk is full halfway through the copy of the image. -/
def stagingBroken : RestoreAnswers (Cluster ⊕ ℕ) := { smooth with copy := fun _ => .broke (.inr 7) }

theorem broken_staging_blocks_retry :
    let first := restoreSnapshot plainCodec byName stagingBroken "s".toList taken (diskDir 1)
    let again := restoreSnapshot plainCodec byName smooth "s".toList taken first.live
    first.error = some (.stage "cp.img".toList) ∧ again.error = some (.stage "cp.img".toList) := by
  decide +kernel

end TalosBox.Snapshots
