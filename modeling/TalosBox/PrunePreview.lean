import TalosBox.ImagePrune

/-! The listing as the preview of a prune: what goes and stays is what was listed, for every
classifier, as long as no image is kept where the mirror has its place. -/
namespace TalosBox.ImageCache

open FileTree Gathering List

variable {ε : Type} {host : Host} {t : Files} {keep : Option (Combination → Except ε Bool)}

variable {c : Combination} {e : Entry}

theorem cacheEntry_combination {dir : Path}
    (h : cacheEntry (ε := ε) host t c dir = .ok (some e)) : e.combination = c := by
  unfold cacheEntry at h
  split at h
  · cases h
  · cases h
  · split_ifs at h
    · cases h
    · cases (Except.ok.inj h)
      rfl
  · cases h

theorem combinationEntry_combination
    (h : combinationEntry (ε := ε) host t c = .ok (some e)) : e.combination = c := by
  have hrdy : ∀ dirs, readyEntry (ε := ε) host t c dirs = .ok (some e) → e.combination = c := by
    intro dirs hr
    induction dirs with
    | nil => cases hr
    | cons d dirs ih =>
      unfold readyEntry at hr
      split at hr
      · cases hr
      · rename_i hent
        cases (Except.ok.inj hr)
        exact cacheEntry_combination hent
      · exact ih hr
  have hle : ∀ dirs, leftovers (ε := ε) host t c dirs = .ok (some e) → e.combination = c := by
    intro dirs hr
    induction dirs with
    | nil => cases hr
    | cons d dirs ih =>
      unfold leftovers at hr
      split at hr
      · cases hr
      · split at hr
        · cases hr
        · rename_i hrs
          split_ifs at hr
          · cases (Except.ok.inj hr)
            rfl
          · exact ih (hrs.trans (congrArg _ (Except.ok.inj hr)))
  unfold combinationEntry at h
  simp only at h
  split at h
  · cases h
  · rename_i hr
    exact hrdy _ (hr.trans h)
  · exact hle _ h

theorem combination_of_rows
    (h : e ∈ rows ((combinationEntry (ε := ε) host t c).map Option.toList)) : e.combination = c := by
  cases hent : combinationEntry (ε := ε) host t c with
  | error _ => simp [hent,rows,Except.map] at h
  | ok r =>
    simp only [hent,rows,Except.map,Option.mem_toList] at h
    subst h
    exact combinationEntry_combination hent

theorem combination_of_listVersion {s v : Name} (h : e ∈ rows (listVersion (ε := ε) host t s v)) :
    ∃ arch, e.combination = ⟨s,v,arch⟩ := by
  obtain ⟨arch,-,he⟩ := mem_rows_gather h
  exact ⟨arch,combination_of_rows he⟩

theorem combination_of_listSchematic {s : Name} (h : e ∈ rows (listSchematic (ε := ε) host t s)) :
    e.combination.schematic = s := by
  obtain ⟨v,-,he⟩ := mem_rows_gather h
  obtain ⟨arch,hc⟩ := combination_of_listVersion he
  rw [hc]

theorem listVersion_sorted (s v : Name) :
    (rows (listVersion (ε := ε) host t s v)).Pairwise fun a b => less a b := by
  refine pairwise_rows_gather (fun arch _ => ?_) ?_
  · cases combinationEntry host t ⟨s,v,arch⟩ with
    | error _ => exact .nil
    | ok r => cases r <;> simp [rows,Except.map]
  · simp only [architectures,pairwise_cons,mem_singleton,forall_eq,not_mem_nil,false_implies,implies_true,
      Pairwise.nil,and_true]
    intro a ha b hb
    have hlt : Architecture.amd64.text < Architecture.arm64.text := by decide
    simp [less,combination_of_rows ha,combination_of_rows hb,hlt]

theorem listSchematic_sorted (s : Name) :
    (rows (listSchematic (ε := ε) host t s)).Pairwise fun a b => less a b := by
  refine pairwise_rows_gather (fun v _ => listVersion_sorted s v) ((t.subdirs_sorted [s]).imp fun {v v'} hlt a ha b hb => ?_)
  obtain ⟨_,ha⟩ := combination_of_listVersion ha
  obtain ⟨_,hb⟩ := combination_of_listVersion hb
  simp [less,ha,hb,hlt.ne,hlt]

theorem list_eq (hro : Open t []) :
    list (ε := ε) host t = gather (listSchematic host t) (t.subdirs []) := by
  rcases hro with hro | hro
  · have hnil : t.subdirs [] = [] := by
      rw [Tree.subdirs,Tree.readDir_of_not_dir (by simp [hro])]
      rfl
    rw [list,hro,hnil]
    rfl
  · rw [list,hro]
    cases hls : gather (listSchematic host t) (t.subdirs []) with
    | error _ => rfl
    | ok ents =>
      have hsrt : (rows (gather (listSchematic (ε := ε) host t) (t.subdirs []))).Pairwise
          fun a b => less a b := by
        refine pairwise_rows_gather (fun s _ => listSchematic_sorted s) ((t.subdirs_sorted []).imp fun {s s'} hlt a ha b hb => ?_)
        have hne := hlt.ne
        rw [← combination_of_listSchematic ha,← combination_of_listSchematic hb] at hne hlt
        simp [less,hne,hlt]
      rw [hls] at hsrt
      have hless : ∀ a b : Entry, less a b → less b a = false := by
        intro a b
        simp only [less]
        split_ifs <;> simp_all [le_of_lt]
      exact congrArg Except.ok (Pairwise.insertionSort_eq (hsrt.imp fun {a b} h => hless a b h))

variable {t' : Files} {gone : List Path}

theorem removeActions_eq {actions : List PruneAction}
    (hfl : ∀ a ∈ actions, (fileAt t a.path).isSome) (hswp : Swept gone t t') :
    ∃ t'', removeActions (ε := ε) t' actions = (t'',none) ∧ Swept (gone++actions.map (·.path)) t t'' := by
  induction actions generalizing gone t' with
  | nil => exact ⟨t',rfl,by simpa using hswp⟩
  | cons a actions ih =>
    obtain ⟨_,_,hlf⟩ := isSome_fileAt.1 (hfl a (by simp))
    have hnot : t'.lookup a.path ≠ some .dir := fun hdir => by simp [hswp.of_dir hdir] at hlf
    obtain ⟨t₁,hrm⟩ := Tree.exists_remove (Tree.readDir_of_not_dir hnot)
    obtain ⟨t'',hrs,hswp''⟩ := ih (fun b hb => hfl b (by simp [hb])) (hswp.remove_leaf hlf hrm)
    refine ⟨t'',by rw [removeActions,hrm]; exact hrs,?_⟩
    simpa using hswp''

theorem removeIfEmpty_eq {path : Path} (hdir : t.lookup path = some .dir) (hswp : Swept gone t t') :
    ∃ t'', removeIfEmpty (ε := ε) t' path = .ok t'' ∧ Swept gone t t'' := by
  rcases hswp.dir hdir with hle | hgn
  · simp only [removeIfEmpty,hle]
    split_ifs with hemp
    · obtain ⟨t'',hrm⟩ := Tree.exists_remove (isEmpty_iff.1 hemp)
      exact ⟨t'',by rw [hrm],hswp.remove_dir hle hrm⟩
    · exact ⟨t',rfl,hswp⟩
  · exact ⟨t',by rw [removeIfEmpty,hgn],hswp⟩

theorem cleanupDirs_eq {paths : List Path} (hdirs : ∀ q ∈ paths, t.lookup q = some .dir)
    (hswp : Swept gone t t') : ∃ t'', cleanupDirs (ε := ε) t' paths = (t'',none) ∧ Swept gone t t'' := by
  induction paths generalizing t' with
  | nil => exact ⟨t',rfl,hswp⟩
  | cons q paths ih =>
    obtain ⟨t₁,hrm,hswp₁⟩ := removeIfEmpty_eq (hdirs q (by simp)) hswp
    obtain ⟨t'',hrs,hswp''⟩ := ih (fun q' hq' => hdirs q' (by simp [hq'])) hswp₁
    exact ⟨t'',by rw [cleanupDirs,hrm]; exact hrs,hswp''⟩

variable {plans : List Plan}

/-- Every file that goes is there, so no removal fails. -/
theorem Covers.execute {walk : Name → Name → Prop} (h : Covers t keep walk plans) :
    ∃ t', executePlans (ε := ε) t plans = (t',.ok (report plans)) ∧
      Swept ((actionsOf plans).map (·.path)) t t' := by
  have hfl : ∀ a ∈ actionsOf plans, (fileAt t a.path).isSome := by
    intro a ha
    obtain ⟨s,v,amd,arm,flat,-,hpls,ha⟩ := h.action a ha
    obtain ⟨_,_,-,_,-,hfl,-⟩ := hpls.action ha
    exact hfl
  obtain ⟨t₁,hrm,hswp₁⟩ := removeActions_eq hfl (Swept.refl t)
  obtain ⟨t',hclea,hswp⟩ := cleanupDirs_eq (ε := ε) h.cleanup hswp₁
  refine ⟨t',?_,by simpa using hswp⟩
  rw [actionsOf] at hrm
  rw [executePlans,hrm]
  simp only [hclea]

/-- A prune fails before its first removal, or carries out a plan for every version it walks. -/
theorem pruneDiskExcept_cases (host : Host) (t : Files) (keep : Option (Combination → Except ε Bool)) :
    (∃ e, pruneDiskExcept host t keep = (t,.error e)) ∨
      ∃ t' plans, pruneDiskExcept host t keep = (t',.ok (report plans)) ∧ Open t [] ∧
        gather (planSchematic host t keep) (schematics t) = .ok plans ∧
        Swept ((actionsOf plans).map (·.path)) t t' := by
  unfold pruneDiskExcept
  split
  · exact .inl ⟨_,rfl⟩
  rename_i hval
  have hro : Open t [] := by
    unfold validateCacheRoot at hval
    split_ifs at hval
    unfold requireDirectoryPath at hval
    split at hval
    · rename_i h
      exact .inl h
    · rename_i h
      exact .inr h
    · cases hval
    · cases hval
  unfold pruneKnownDiskArtifacts
  rcases hro with hno | hdir
  · have hnil : schematics t = [] := by
      rw [schematics,Tree.subdirs,Tree.readDir_of_not_dir (by simp [hno])]
      rfl
    rw [if_pos (by simp [hno]),hnil]
    exact .inr ⟨t,[],rfl,.inl hno,rfl,Swept.refl t⟩
  · rw [if_neg (by simp [hdir])]
    cases hpls : gather (planSchematic host t keep) (schematics t) with
    | error e => exact .inl ⟨e,rfl⟩
    | ok plans =>
      obtain ⟨t',hexec,hswp⟩ := (planSchematics_eq_ok hpls).1.execute
      exact .inr ⟨t',plans,hexec,.inr hdir,rfl,hswp⟩

theorem fileAt_swept (h : Swept gone t t') {q : Path} (hq : q ∉ gone) : fileAt t' q = fileAt t q := by
  ext ⟨size,alloc⟩
  rw [fileAt_eq_some,fileAt_eq_some,h.leaf_iff]
  exact and_iff_left hq

theorem fileAt_of_swept (h : Swept gone t t') {q : Path} (hfl : (fileAt t' q).isSome) :
    q ∉ gone ∧ (fileAt t q).isSome := by
  obtain ⟨size,alloc,hlf⟩ := isSome_fileAt.1 hfl
  obtain ⟨hlf,hnot⟩ := h.leaf_iff.1 hlf
  exact ⟨hnot,isSome_fileAt.2 ⟨size,alloc,hlf⟩⟩

theorem Plain.swept (hpl : Plain t) (h : Swept gone t t') : Plain t' := by
  intro q f hq
  obtain ⟨hlf,hnot⟩ := h.leaf_iff.1 hq
  rw [fileAt_swept h hnot]
  exact hpl q f hlf

theorem Open.swept {dir : Path} (hop : Open t dir) (h : Swept gone t t') : Open t' dir := by
  rcases hop with hno | hdir
  · exact .inl (h.none hno)
  · exact (h.dir hdir).symm

lemma text_injective : Function.Injective Architecture.text := by
  intro a b
  cases a <;> cases b <;> decide

/-- A path tells the combination, the directory and the name. -/
theorem path_inj {c' : Combination} {d d' : ArtifactDir} (hd : d ∈ c.dirs) (hd' : d' ∈ c'.dirs) {n n' : Name}
    (h : d.path++[n] = d'.path++[n']) : c = c' ∧ d = d' ∧ n = n' := by
  obtain ⟨s,v,arch⟩ := c
  obtain ⟨s',v',arch'⟩ := c'
  rcases mem_dirs.1 hd with rfl | ⟨rfl,rfl⟩ <;> rcases mem_dirs.1 hd' with rfl | ⟨rfl,rfl⟩ <;>
    simp only [cons_append,nil_append,cons.injEq,reduceCtorEq,and_false,and_true] at h
  · obtain ⟨rfl,rfl,htext,rfl⟩ := h
    obtain rfl := text_injective htext
    exact ⟨rfl,rfl,rfl⟩
  · obtain ⟨rfl,rfl,rfl⟩ := h
    exact ⟨rfl,rfl,rfl⟩

theorem versionDir_of_file {d : ArtifactDir} (hd : d ∈ c.dirs) {name : Name}
    (hfl : (fileAt t (d.path++[name])).isSome) : t.lookup [c.schematic,c.version] = some .dir := by
  obtain ⟨_,_,hlf⟩ := isSome_fileAt.1 hfl
  have hdir : t.lookup d.path = some .dir := Tree.parent (by rw [hlf]; rfl)
  rcases mem_dirs.1 hd with rfl | ⟨-,rfl⟩
  · exact Tree.parent (n := c.architecture.text) (by simp [hdir])
  · exact hdir

theorem listVersion_of_empty {s v : Name} (hpl : Plain t)
    (hop : ∀ {arch}, ∀ d ∈ (⟨s,v,arch⟩ : Combination).dirs, Open t d.path)
    (hnot : ∀ {arch}, ∀ d ∈ (⟨s,v,arch⟩ : Combination).dirs, ¬Present t d) :
    listVersion (ε := ε) host t s v = .ok [] := by
  refine gather_eq_nil_iff.2 fun arch _ => ?_
  obtain ⟨r,hr,hso,-⟩ := combinationEntry_eq_ok host hpl ⟨s,v,arch⟩ hop
  have hno : r = none := by
    rw [← Option.not_isSome_iff_eq_none,hso]
    rintro ⟨d,hd,hpre⟩
    exact hnot d hd hpre
  rw [hr,hno]
  rfl

section

variable {plans : List Plan}

theorem Covers.spares {walk : Name → Name → Prop} (h : Covers t keep walk plans) {c : Combination}
    (hkp : kept keep c) {d : ArtifactDir} (hd : d ∈ c.dirs) {name : Name} (hnm : name ∈ d.names) :
    d.path++[name] ∉ (actionsOf plans).map (·.path) := by
  intro hmem
  obtain ⟨a,ha,hpa⟩ := mem_map.1 hmem
  obtain ⟨s,v,amd,arm,flat,-,hpls,ha⟩ := h.action a ha
  obtain ⟨arch,d',hd',name',hpa',-,hnot⟩ := hpls.action ha
  obtain ⟨rfl,rfl,rfl⟩ := path_inj hd hd' (hpa.symm.trans hpa')
  exact hnot hkp hnm

theorem Covers.takes {walk : Name → Name → Prop} (h : Covers t keep walk plans) {c : Combination}
    (hwk : walk c.schematic c.version) (hkp : kept keep c = false) {d : ArtifactDir} (hd : d ∈ c.dirs) {name : Name}
    (hnm : name ∈ d.names) (hfl : (fileAt t (d.path++[name])).isSome) :
    d.path++[name] ∈ (actionsOf plans).map (·.path) := by
  obtain ⟨amd,arm,flat,hpls,hac⟩ := h.version _ _ hwk
  obtain ⟨p,hp,hsub⟩ := hpls.exists_plans hd
  obtain ⟨_,_,hlf⟩ := isSome_fileAt.1 hfl
  obtain ⟨a,ha,hpa,-⟩ := hp.complete hkp hnm hlf
  exact mem_map.2 ⟨a,hac a (hsub a ha),hpa⟩

variable (hpl : Plain t) (hcov : Covers t keep (Walked t) plans)
  (hswp : Swept ((actionsOf plans).map (·.path)) t t')

include hpl hcov hswp

/-- Of a version that was walked the kept combinations are listed as before, and no other. -/
theorem combinationEntry_swept {c : Combination} (hwk : Walked t c.schematic c.version) {r : Option Entry}
    (h : combinationEntry (ε := ε) host t c = .ok r) :
    combinationEntry (ε := ε) host t' c = .ok (if kept keep c then r else none) := by
  have hop : ∀ d ∈ c.dirs, Open t d.path := by
    obtain ⟨s,v,arch⟩ := c
    obtain ⟨amd,arm,flat,hpls,-⟩ := hcov.version s v hwk
    exact fun _ => hpls.isOpen
  cases hkp : kept keep c with
  | true =>
    rw [combinationEntry_congr hpl (hpl.swept hswp) c,h]
    · rfl
    · intro d hd
      refine ⟨hop d hd,(hop d hd).swept hswp,fun name hnm => ?_⟩
      exact fileAt_swept hswp (hcov.spares hkp hd hnm)
  | false =>
    obtain ⟨r',hr',hso,-⟩ := combinationEntry_eq_ok host (hpl.swept hswp) c
      fun d hd => (hop d hd).swept hswp
    have hno : r' = none := by
      rw [← Option.not_isSome_iff_eq_none,hso]
      rintro ⟨d,hd,name,hnm,hfl⟩
      obtain ⟨hnot,hfl⟩ := fileAt_of_swept hswp hfl
      exact hnot (hcov.takes hwk hkp hd hnm hfl)
    rw [hr',hno]
    rfl

theorem listVersion_swept {s v : Name} (hwk : Walked t s v) {ents : List Entry}
    (h : listVersion (ε := ε) host t s v = .ok ents) :
    listVersion (ε := ε) host t' s v = .ok (ents.filter fun e => kept keep e.combination) := by
  refine gather_filtered h fun arch _ bs hbs => ?_
  cases hent : combinationEntry (ε := ε) host t ⟨s,v,arch⟩ with
  | error e => simp [hent,Except.map] at hbs
  | ok r =>
    simp only [hent,Except.map,Except.ok.injEq] at hbs
    rw [combinationEntry_swept hpl hcov hswp hwk hent]
    subst hbs
    cases r with
    | none => simp [Except.map]
    | some e =>
      have hc := combinationEntry_combination hent
      cases hkp : kept keep ⟨s,v,arch⟩ <;> simp [Except.map,hc,hkp]

theorem listSchematic_swept {s : Name} (hs : s ≠ mirror) {ents : List Entry}
    (h : listSchematic (ε := ε) host t s = .ok ents) :
    listSchematic (ε := ε) host t' s = .ok (ents.filter fun e => kept keep e.combination) := by
  have hall : gather (listVersion (ε := ε) host t' s) (t.subdirs [s]) =
      .ok (ents.filter fun e => kept keep e.combination) := by
    refine gather_filtered h fun v hv bs hbs => ?_
    exact listVersion_swept hpl hcov hswp ⟨hs,Tree.mem_subdirs.1 hv⟩ hbs
  -- a version whose directory is gone would give nothing
  rw [listSchematic,hswp.subdirs,gather_filter,hall]
  intro v hv hgn
  have hwk : Walked t s v := ⟨hs,Tree.mem_subdirs.1 hv⟩
  have hnot : t'.lookup [s,v] ≠ some .dir := fun hdir => by simp [hdir,isDir] at hgn
  obtain ⟨amd,arm,flat,hpls,-⟩ := hcov.version s v hwk
  refine listVersion_of_empty (hpl.swept hswp) (fun d hd => (hpls.isOpen hd).swept hswp) fun d hd => ?_
  rintro ⟨name,-,hfl⟩
  exact hnot (versionDir_of_file hd hfl)

theorem gather_swept {ents : List Entry} (h : gather (listSchematic (ε := ε) host t) (schematics t) = .ok ents) :
    gather (listSchematic (ε := ε) host t') (schematics t') =
      .ok (ents.filter fun e => kept keep e.combination) := by
  have hall : gather (listSchematic (ε := ε) host t') (schematics t) =
      .ok (ents.filter fun e => kept keep e.combination) := by
    refine gather_filtered h fun s hs bs hbs => ?_
    exact listSchematic_swept hpl hcov hswp (mem_schematics.1 hs).2 hbs
  have hcomm : schematics t' = (schematics t).filter fun s => isDir (t'.lookup ([]++[s])) := by
    rw [schematics,hswp.subdirs,schematics,filter_comm]
  rw [hcomm,gather_filter,hall]
  intro s hs hgn
  have hnot : t'.lookup [s] ≠ some .dir := fun hdir => by simp [hdir,isDir] at hgn
  rw [listSchematic,Tree.subdirs,Tree.readDir_of_not_dir hnot]
  rfl

end

/-- No file of a combination, and nothing that stops the listing, in the mirror's place. -/
def MirrorFree (t : Files) : Prop :=
  ∀ v architecture, t.lookup [mirror,v] = some .dir → ∀ d ∈ (⟨mirror,v,architecture⟩ : Combination).dirs,
    Open t d.path ∧ ¬Present t d

theorem MirrorFree.swept (h : MirrorFree t) (hswp : Swept gone t t') : MirrorFree t' := by
  intro v arch hdir d hd
  obtain ⟨hop,hnot⟩ := h v arch (hswp.of_dir hdir) d hd
  refine ⟨hop.swept hswp,?_⟩
  rintro ⟨name,hnm,hfl⟩
  exact hnot ⟨name,hnm,(fileAt_of_swept hswp hfl).2⟩

theorem list_of_mirrorFree (hpl : Plain t) (h : MirrorFree t) (hro : Open t []) :
    list (ε := ε) host t = gather (listSchematic host t) (schematics t) := by
  rw [list_eq hro,schematics,gather_filter]
  intro s _ hs
  obtain rfl : s = mirror := by simpa using hs
  refine gather_eq_nil_iff.2 fun v hv => ?_
  have hdir := Tree.mem_subdirs.1 hv
  exact listVersion_of_empty hpl (fun d hd => (h v _ hdir d hd).1) fun d hd => (h v _ hdir d hd).2

/-- A combination that is not listed has no file, and its directories can be read. -/
theorem combinationEntry_eq_none (hpl : Plain t) (hdir : t.lookup [c.schematic,c.version] = some .dir)
    (h : combinationEntry (ε := ε) host t c = .ok none) : ∀ d ∈ c.dirs, Open t d.path ∧ ¬Present t d := by
  have harch : Open t [c.schematic,c.version,c.architecture.text] := by
    cases hnd : t.lookup [c.schematic,c.version,c.architecture.text] with
    | none => exact .inl hnd
    | some node =>
      cases node with
      | dir => exact .inr hnd
      | leaf f =>
        obtain ⟨_,_,hlf⟩ := isSome_fileAt.1 (hpl _ f hnd)
        have hchd : t.lookup ([c.schematic,c.version,c.architecture.text]++[diskRaw]) = none :=
          Tree.lookup_child (by simp [hlf]) diskRaw
        have hdenied : stat host t [c.schematic,c.version,c.architecture.text] diskRaw = .denied := by
          simp only [stat,lstat,hchd,hlf]
        simp [combinationEntry,combinationDirs,readyEntry,cacheEntry,hdenied] at h
  have hop : ∀ d ∈ c.dirs, Open t d.path := by
    intro d hd
    rcases mem_dirs.1 hd with rfl | ⟨-,rfl⟩
    · exact harch
    · exact .inr hdir
  obtain ⟨r,hr,hso,-⟩ := combinationEntry_eq_ok host hpl c hop
  cases (h.symm.trans hr)
  intro d hd
  refine ⟨hop d hd,fun hpre => ?_⟩
  simpa using hso.2 ⟨d,hd,hpre⟩

/-- A failing classifier, a link or file in place of a directory, or an irregular file under a name
that is to go. -/
inductive Obstructed (t : Files) (keep : Option (Combination → Except ε Bool)) : Prop
  | keep {s v : Name} {architecture : Architecture} {e : CacheError ε} (hwk : Walked t s v)
      (hask : architecture = .arm64 ∨ t.lookup [s,v,architecture.text] ≠ none)
      (h : keepCombination keep ⟨s,v,architecture⟩ = .error e) : Obstructed t keep
  | directory {s v : Name} {architecture : Architecture} {f : Leaf} (hwk : Walked t s v)
      (h : t.lookup [s,v,architecture.text] = some (.leaf f)) : Obstructed t keep
  | artifact {s v : Name} {architecture : Architecture} {d : ArtifactDir} {name : Name} {node : Node Leaf}
      (hwk : Walked t s v) (hkp : kept keep ⟨s,v,architecture⟩ = false)
      (hd : d ∈ (⟨s,v,architecture⟩ : Combination).dirs) (hnm : name ∈ d.names)
      (hnd : t.lookup (d.path++[name]) = some node) (hfl : fileAt t (d.path++[name]) = none) : Obstructed t keep
  | temp {s v : Name} {architecture : Architecture} {d : ArtifactDir} {name : Name} {node : Node Leaf}
      (hwk : Walked t s v) (hd : d ∈ (⟨s,v,architecture⟩ : Combination).dirs)
      (hss : (tempPrefixes architecture).any (·.isPrefixOf name))
      (hnd : t.lookup (d.path++[name]) = some node) (hfl : fileAt t (d.path++[name]) = none) : Obstructed t keep

theorem Covers.not_obstructed (h : Covers t keep (Walked t) plans) : ¬Obstructed t keep := by
  rintro (⟨hwk,hask,herr⟩ | ⟨hwk,hlf⟩ | ⟨hwk,hkp,hd,hnm,hnd,hfl⟩ | ⟨hwk,hd,hss,hnd,hfl⟩) <;>
    obtain ⟨amd,arm,flat,hpls,-⟩ := h.version _ _ hwk
  · rename_i s v arch e
    have hok : ∃ b, keepCombination keep ⟨s,v,arch⟩ = .ok b := by
      cases arch with
      | amd64 =>
        refine hpls.asked_amd64 ?_
        rintro rfl
        obtain ⟨hno⟩ | _ | _ := hpls.amd64
        simp [hno] at hask
      | arm64 => exact hpls.asked_arm64
    obtain ⟨b,hb⟩ := hok
    simp [hb] at herr
  · rename_i s v arch f
    have hd := mem_dirs (c := ⟨s,v,arch⟩).2 (.inl rfl)
    rcases hpls.isOpen hd with hno | hdir
    · simp [hno] at hlf
    · simp [hdir] at hlf
  · obtain ⟨p,hp,hsub⟩ := hpls.exists_plans hd
    obtain ⟨a,ha,hpa,-⟩ := hp.complete hkp hnm hnd
    obtain ⟨_,_,-,_,-,hisFile,-⟩ := hpls.action (hsub a ha)
    rw [hpa,hfl] at hisFile
    cases hisFile
  · obtain ⟨p,hp,-⟩ := hpls.exists_plans hd
    have hisFile := hp.temp hss hnd
    rw [hfl] at hisFile
    cases hisFile

/-- The prune removes and reports the listed entries not kept and counts the others; if it fails, it
has removed nothing. -/
def Follows (host : Host) (t : Files) (keep : Option (Combination → Except ε Bool)) : Prop :=
  match pruneDiskExcept host t keep with
  | (t',.error _) => t' = t
  | (t',.ok result) =>
    ∃ entries, list (ε := ε) host t = .ok entries ∧
      result.images.map (·.combination) =
        (entries.filter fun e => !kept keep e.combination).map (·.combination) ∧
      result.keptImages = (entries.filter fun e => kept keep e.combination).length ∧
      (∀ c, kept keep c → ∀ d ∈ c.dirs, ∀ name ∈ d.names,
        fileAt t' (d.path++[name]) = fileAt t (d.path++[name])) ∧
      list (ε := ε) host t' = .ok (entries.filter fun e => kept keep e.combination)

theorem report_of_agree {ents : List Entry} (h : Agree keep plans ents) :
    (report plans).images.map (·.combination) =
        (ents.filter fun e => !kept keep e.combination).map (·.combination) ∧
      (report plans).keptImages = (ents.filter fun e => kept keep e.combination).length := by
  refine ⟨?_,h.2⟩
  rw [← h.1]
  simp [report]

/-- If the listing of the mirror were not empty, the counts would tell. -/
theorem mirrorFree_of_list (hpl : Plain t) (hro : Open t []) {ents ents' : List Entry}
    (hls : list (ε := ε) host t = .ok ents)
    (hls' : gather (listSchematic (ε := ε) host t) (schematics t) = .ok ents') (hag : Agree keep plans ents')
    (him : (report plans).images.map (·.combination) =
      (ents.filter fun e => !kept keep e.combination).map (·.combination))
    (hkp : (report plans).keptImages = (ents.filter fun e => kept keep e.combination).length) : MirrorFree t := by
  intro v arch hdir
  have hmir : mirror ∈ t.subdirs [] := by
    rw [Tree.mem_subdirs]
    exact Tree.parent (n := v) (by simp [hdir])
  rw [list_eq hro] at hls
  obtain ⟨hall,rfl⟩ := gather_eq_ok_iff.1 hls
  obtain ⟨-,rfl⟩ := gather_eq_ok_iff.1 hls'
  have hlen : ∀ es : List Entry, es.length =
      (es.filter fun e => kept keep e.combination).length+
        ((es.filter fun e => !kept keep e.combination).map (·.combination)).length := fun es => by
    rw [length_map]
    exact length_eq_length_filter_add _
  have hnil : rows (listSchematic (ε := ε) host t mirror) = [] := by
    obtain ⟨him',hkp'⟩ := report_of_agree hag
    have hsm := (hlen _).trans (hkp ▸ him ▸ hkp' ▸ him' ▸ (hlen _).symm)
    have hmiss : ((schematics t).flatMap fun s => rows (listSchematic host t s)).length+
        (rows (listSchematic host t mirror)).length ≤
        ((t.subdirs []).flatMap fun s => rows (listSchematic (ε := ε) host t s)).length :=
      length_flatMap_filter hmir (by simp)
    exact eq_nil_of_length_eq_zero (by omega)
  have hvers := gather_eq_nil_iff.1 ((hall mirror hmir).trans (congrArg _ hnil))
  have hver := gather_eq_nil_iff.1 (hvers v (Tree.mem_subdirs.2 hdir)) arch
    (by cases arch <;> simp [architectures])
  refine combinationEntry_eq_none (ε := ε) hpl hdir (?_ : combinationEntry host t _ = _)
  cases hent : combinationEntry host t ⟨mirror,v,arch⟩ with
  | error e => simp [hent,Except.map] at hver
  | ok r => cases r with
    | none => rfl
    | some e => simp [hent,Except.map] at hver

theorem prune_follows_list_iff (host : Host) (keep : Option (Combination → Except ε Bool)) (t : Files) :
    (Obstructed t keep → ∃ e, pruneDiskExcept host t keep = (t,.error e)) ∧
      (Plain t → (Follows host t keep ↔ (∃ e, pruneDiskExcept host t keep = (t,.error e)) ∨ MirrorFree t)) := by
  rcases pruneDiskExcept_cases host t keep with ⟨e,he⟩ | ⟨t',plans,hprune,hroot,hpls,hswp⟩
  · refine ⟨fun _ => ⟨e,he⟩,fun _ => ⟨fun _ => .inl ⟨e,he⟩,fun _ => ?_⟩⟩
    rw [Follows,he]
  obtain ⟨hcov,hlist⟩ := planSchematics_eq_ok hpls
  refine ⟨fun h => absurd h hcov.not_obstructed,fun hpl => ?_⟩
  obtain ⟨entries,hents,hagree⟩ := hlist hpl
  obtain ⟨himgs,hkept⟩ := report_of_agree hagree
  rw [Follows,hprune]
  constructor
  · rintro ⟨entries',hlist',himgs',hkept',-⟩
    exact .inr (mirrorFree_of_list hpl hroot hlist' hents hagree himgs' hkept')
  · rintro (⟨e,he⟩ | hmirror)
    · simp at he
    · refine ⟨entries,(list_of_mirrorFree hpl hmirror hroot).trans hents,himgs,hkept,?_,?_⟩
      · intro c hc d hd name hname
        exact fileAt_swept hswp (hcov.spares hc hd hname)
      · rw [list_of_mirrorFree (hpl.swept hswp) (hmirror.swept hswp) (hroot.swept hswp)]
        exact gather_swept hpl hcov hswp hents

def plainHost : Host := ⟨false,false,fun _ => .missing,fun _ => .missing⟩

/-- A directory and those above it. -/
def mkdirAll (t : Files) (path : Path) : Files :=
  (range path.length).foldl (fun t i => t.put (path.take i) (path.getD i []) .dir) t

theorem plain_root : Plain .root := by
  intro p f hp
  rw [Tree.lookup_root] at hp
  split_ifs at hp
  cases hp

theorem Plain.put (h : Plain t) (p : Path) (n : Name) {node : Node Leaf}
    (hnd : ∀ f, node = .leaf f → ∃ size alloc, f = .file size alloc) : Plain (t.put p n node) := by
  intro q f hq
  rcases t.lookup_put p n node q with hsm | hnew
  · rw [hsm] at hq
    have hfl := h q f hq
    rwa [fileAt,hsm,← fileAt]
  · obtain ⟨size,alloc,rfl⟩ := hnd f (Option.some.inj (hnew.symm.trans hq))
    rw [fileAt,hq]
    rfl

theorem Plain.mkdirAll (h : Plain t) (path : Path) : Plain (mkdirAll t path) := by
  unfold ImageCache.mkdirAll
  generalize range path.length = l
  induction l generalizing t with
  | nil => exact h
  | cons i l ih => exact ih (h.put _ _ (by simp))

/-- One schematic in use, and one with an image in each layout that nothing uses. -/
def small : Files :=
  let t := mkdirAll (mkdirAll (mkdirAll .root ["a".toList,"v1".toList,"arm64".toList])
    ["b".toList,"v1".toList,"amd64".toList]) ["a".toList,"v2".toList]
  (((t.put ["a".toList,"v1".toList,"arm64".toList] diskRaw (.leaf (.file 8 4))).put ["a".toList,"v2".toList]
    ".disk.raw-1".toList (.leaf (.file 2 2))).put ["b".toList,"v1".toList] diskRaw (.leaf (.file 8 4))).put
    ["b".toList,"v1".toList,"amd64".toList] pinMarkerName (.leaf (.file 0 0))

def inUse (c : Combination) : Except Unit Bool := .ok (c.schematic = "a".toList)

lemma plain_small : Plain small := by
  exact ((((((plain_root.mkdirAll _).mkdirAll _).mkdirAll _).put _ _ (by simp)).put _ _ (by simp)).put _ _ (by simp)).put
    _ _ (by simp)

theorem small_prune_follows_list :
    Follows plainHost small (some inUse) ∧
      (pruneDiskExcept plainHost small (some inUse)).2.toOption.map (fun r => r.images.map (·.combination)) =
        some [⟨"b".toList,"v1".toList,.amd64⟩,⟨"b".toList,"v1".toList,.arm64⟩] ∧
      ∃ e, pruneDiskExcept plainHost small (some fun _ => .error ()) = (small,.error e) := by
  have hmirror : MirrorFree small := by
    intro v _ hdir
    cases hdir
  refine ⟨((prune_follows_list_iff plainHost (some inUse) small).2 plain_small).mpr (.inr hmirror),by decide +kernel,?_⟩
  exact (prune_follows_list_iff plainHost (some fun _ => .error ()) small).1
    (.keep (s := "a".toList) (v := "v1".toList) ⟨by decide,by decide +kernel⟩ (.inl rfl) rfl)

/-- An image of a schematic called `mirror`. -/
def misplaced : Files :=
  (mkdirAll .root [mirror,"v1".toList,"amd64".toList]).put [mirror,"v1".toList,"amd64".toList] diskRaw (.leaf (.file 8 4))

theorem mirror_image_listed_not_pruned :
    Plain misplaced ∧
      list (ε := Unit) plainHost misplaced =
        .ok [⟨⟨mirror,"v1".toList,.amd64⟩,[mirror,"v1".toList,"amd64".toList,diskRaw],8,4,false⟩] ∧
      (pruneDiskExcept (ε := Unit) plainHost misplaced none).2.map (·.images) = .ok [] ∧
      ¬Follows (ε := Unit) plainHost misplaced none := by
  have hlist : list (ε := Unit) plainHost misplaced =
      .ok [⟨⟨mirror,"v1".toList,.amd64⟩,[mirror,"v1".toList,"amd64".toList,diskRaw],8,4,false⟩] := by decide +kernel
  have himgs : (pruneDiskExcept (ε := Unit) plainHost misplaced none).2.map (·.images) = .ok [] := by decide +kernel
  refine ⟨(plain_root.mkdirAll _).put _ _ (by simp),hlist,himgs,fun h => ?_⟩
  unfold Follows at h
  split at h
  · rename_i hprune
    simp [hprune,Except.map] at himgs
  · rename_i hprune
    obtain ⟨entries,hents,hreport,-⟩ := h
    obtain rfl := Except.ok.inj (hlist.symm.trans hents)
    simp only [hprune,Except.map,Except.ok.injEq] at himgs
    simp [himgs,kept,keepCombination] at hreport

end TalosBox.ImageCache
