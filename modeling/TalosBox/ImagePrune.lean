import TalosBox.ImageCache

/-! What a prune plans, what it leaves, and how both compare with the listing. -/
namespace TalosBox.ImageCache

open FileTree Gathering List

variable {ε : Type}

/-- The sizes of a regular file. -/
def fileAt (t : Files) (p : Path) : Option (ℕ × ℕ) :=
  match t.lookup p with
  | some (.leaf (.file size allocated)) => some (size,allocated)
  | _ => none

/-- Nothing but regular files and directories. -/
def Plain (t : Files) : Prop := ∀ p f, t.lookup p = some (.leaf f) → (fileAt t p).isSome

/-- A directory, or nothing at all. -/
def Open (t : Files) (dir : Path) : Prop := t.lookup dir = none ∨ t.lookup dir = some .dir

def Present (t : Files) (dir : ArtifactDir) : Prop := ∃ name ∈ dir.names, (fileAt t (dir.path++[name])).isSome

variable {host : Host} {t : Files}

theorem fileAt_eq_some {p : Path} {size alloc : ℕ} :
    fileAt t p = some (size,alloc) ↔ t.lookup p = some (.leaf (.file size alloc)) := by
  constructor
  · intro h
    unfold fileAt at h
    split at h
    · rename_i hp
      simpa [hp] using h
    · cases h
  · intro h
    rw [fileAt,h]

theorem isSome_fileAt {p : Path} :
    (fileAt t p).isSome ↔ ∃ size alloc, t.lookup p = some (.leaf (.file size alloc)) := by
  rw [Option.isSome_iff_exists,Prod.exists]
  simp only [fileAt_eq_some]

variable {dir : Path}

theorem lstat_of_fileAt {name : Name} {size alloc : ℕ}
    (h : fileAt t (dir++[name]) = some (size,alloc)) :
    lstat host t dir name = .found (.leaf (.file size alloc)) := by
  rw [lstat,fileAt_eq_some.1 h]

variable (host) in
/-- In a directory, anything but a regular file looks as if it were missing or is passed over. -/
theorem lstat_of_open (hop : Open t dir) {name : Name} (h : fileAt t (dir++[name]) = none) :
    lstat host t dir name = .missing ∨ ∃ node, lstat host t dir name = .found node ∧
      t.lookup (dir++[name]) = some node ∧ ∀ size alloc, node ≠ .leaf (.file size alloc) := by
  cases hnd : t.lookup (dir++[name]) with
  | none =>
    left
    rcases hop with hdir | hdir <;> simp [lstat,hnd,hdir]
  | some node =>
    refine .inr ⟨node,by simp [lstat,hnd],rfl,?_⟩
    rintro size alloc rfl
    simp [fileAt,hnd] at h

theorem artifactStats_cons (hop : Open t dir) (name : Name) (names : List Name) :
    artifactStats (ε := ε) host t dir (name::names) =
      match fileAt t (dir++[name]) with
      | some (size,alloc) => (artifactStats host t dir names).map fun s => ⟨size+s.size,alloc+s.allocated,true⟩
      | none => artifactStats host t dir names := by
  cases hfl : fileAt t (dir++[name]) with
  | some sizes =>
    simp only [artifactStats,lstat_of_fileAt hfl]
    cases artifactStats host t dir names <;> rfl
  | none =>
    rcases lstat_of_open host hop hfl with hmiss | ⟨node,hfnd,-,hnd⟩
    · simp [artifactStats,hmiss]
    · rw [artifactStats,hfnd]
      rcases node with _ | ⟨size,alloc⟩ | _ | _ <;> simp_all

variable (host) in
theorem artifactStats_eq_ok {dir : ArtifactDir} (hop : Open t dir.path) :
    ∃ s, artifactStats (ε := ε) host t dir.path dir.names = .ok s ∧ (s.present ↔ Present t dir) := by
  obtain ⟨path,names⟩ := dir
  simp only [Present] at hop ⊢
  induction names with
  | nil => exact ⟨_,rfl,by simp⟩
  | cons name names ih =>
    obtain ⟨s,hs,hpre⟩ := ih
    rw [artifactStats_cons hop,hs]
    cases hfl : fileAt t (path++[name]) with
    | some sizes => exact ⟨_,rfl,by simp [hfl]⟩
    | none => exact ⟨s,rfl,by simp [hpre,hfl]⟩

/-- What `cacheEntry` finds where no link is in the way. -/
def imageAt (t : Files) (c : Combination) (dir : Path) : Option Entry :=
  match fileAt t (dir++[diskRaw]) with
  | some (size,allocated) => if size = 0 then none else some ⟨c,dir++[diskRaw],size,allocated,false⟩
  | none => none

theorem cacheEntry_eq (hpl : Plain t) (hop : Open t dir) (c : Combination) :
    cacheEntry (ε := ε) host t c dir = .ok (imageAt t c dir) := by
  cases hfl : fileAt t (dir++[diskRaw]) with
  | some sizes =>
    simp only [cacheEntry,stat,lstat_of_fileAt hfl,imageAt,hfl]
    split <;> rfl
  | none =>
    rcases lstat_of_open host hop hfl with hmiss | ⟨node,hfnd,hlk,hnd⟩
    · simp [cacheEntry,stat,hmiss,imageAt,hfl]
    · cases node with
      | dir => simp [cacheEntry,stat,hfnd,imageAt,hfl]
      | leaf f =>
        have hso := hpl _ f hlk
        simp [hfl] at hso

theorem imageAt_combination {c : Combination} {e : Entry} (h : imageAt t c dir = some e) :
    e.combination = c ∧ (fileAt t (dir++[diskRaw])).isSome := by
  unfold imageAt at h
  split at h
  · rename_i hfl
    split_ifs at h
    cases h
    exact ⟨rfl,by rw [hfl]; rfl⟩
  · cases h

theorem readyEntry_eq (hpl : Plain t) (c : Combination) {dirs : List ArtifactDir} (hop : ∀ d ∈ dirs, Open t d.path) :
    readyEntry (ε := ε) host t c dirs = .ok (dirs.findSome? fun d => imageAt t c d.path) := by
  induction dirs with
  | nil => rfl
  | cons d dirs ih =>
    rw [readyEntry,cacheEntry_eq hpl (hop d (by simp)),findSome?_cons]
    cases imageAt t c d.path with
    | none => exact ih fun d' hd' => hop d' (by simp [hd'])
    | some e => rfl

theorem leftovers_eq_ok (c : Combination) {dirs : List ArtifactDir} (hop : ∀ d ∈ dirs, Open t d.path) :
    ∃ r, leftovers (ε := ε) host t c dirs = .ok r ∧ (r.isSome ↔ ∃ d ∈ dirs, Present t d) ∧
      ∀ e ∈ r, e.combination = c := by
  induction dirs with
  | nil => exact ⟨none,rfl,by simp,by simp⟩
  | cons d dirs ih =>
    obtain ⟨r,hr,hso,hc⟩ := ih fun d' hd' => hop d' (by simp [hd'])
    obtain ⟨s,hs,hpre⟩ := artifactStats_eq_ok (ε := ε) host (hop d (by simp))
    simp only [leftovers,hs,hr]
    split_ifs with hp
    · exact ⟨_,rfl,by simp [hpre.1 hp],by simp⟩
    · exact ⟨r,rfl,by simp [hso,mt hpre.2 hp],hc⟩

/-- The directories a combination lives in. -/
abbrev Combination.dirs (c : Combination) : List ArtifactDir := combinationDirs [c.schematic,c.version] c.architecture

/-- The directory of the architecture, and for `arm64` that of the version as well. -/
theorem mem_dirs {c : Combination} {d : ArtifactDir} :
    d ∈ c.dirs ↔ d = ⟨[c.schematic,c.version,c.architecture.text],knownDiskArtifactNames c.architecture true⟩ ∨
      c.architecture = .arm64 ∧ d = ⟨[c.schematic,c.version],knownDiskArtifactNames .arm64 false⟩ := by
  obtain ⟨s,v,_ | _⟩ := c <;> simp [Combination.dirs,combinationDirs]

lemma diskRaw_mem_names {c : Combination} {d : ArtifactDir} (h : d ∈ c.dirs) : diskRaw ∈ d.names := by
  rcases mem_dirs.1 h with rfl | ⟨-,rfl⟩ <;> exact mem_cons_self

variable (host) in
/-- A combination is listed if one of its files is there. -/
theorem combinationEntry_eq_ok (hpl : Plain t) (c : Combination) (hop : ∀ d ∈ c.dirs, Open t d.path) :
    ∃ r, combinationEntry (ε := ε) host t c = .ok r ∧ (r.isSome ↔ ∃ d ∈ c.dirs, Present t d) ∧
      ∀ e ∈ r, e.combination = c := by
  rw [combinationEntry,readyEntry_eq hpl c hop]
  cases hrdy : c.dirs.findSome? fun d => imageAt t c d.path with
  | none => exact leftovers_eq_ok c hop
  | some e =>
    obtain ⟨d,hd,himg⟩ := exists_of_findSome?_eq_some hrdy
    obtain ⟨hc,hfl⟩ := imageAt_combination himg
    exact ⟨some e,rfl,by simpa using ⟨d,hd,diskRaw,diskRaw_mem_names hd,hfl⟩,by simpa using hc⟩

theorem artifactStats_congr {t' : Files} {d : ArtifactDir} (hop : Open t d.path) (hop' : Open t' d.path)
    (h : ∀ name ∈ d.names, fileAt t' (d.path++[name]) = fileAt t (d.path++[name])) :
    artifactStats (ε := ε) host t' d.path d.names = artifactStats host t d.path d.names := by
  obtain ⟨path,names⟩ := d
  simp only at *
  induction names with
  | nil => rfl
  | cons name names ih =>
    rw [artifactStats_cons hop,artifactStats_cons hop',h name (by simp),ih fun n hn => h n (by simp [hn])]

theorem leftovers_congr {t' : Files} (c : Combination) {dirs : List ArtifactDir}
    (h : ∀ d ∈ dirs, Open t d.path ∧ Open t' d.path ∧
      ∀ name ∈ d.names, fileAt t' (d.path++[name]) = fileAt t (d.path++[name])) :
    leftovers (ε := ε) host t' c dirs = leftovers host t c dirs := by
  induction dirs with
  | nil => rfl
  | cons d dirs ih =>
    obtain ⟨hop,hop',hfiles⟩ := h d (by simp)
    rw [leftovers,leftovers,artifactStats_congr hop hop' hfiles,ih fun d' hd' => h d' (by simp [hd'])]

/-- The entry of a combination depends on its files only. -/
theorem combinationEntry_congr {t' : Files} (hpl : Plain t) (hpl' : Plain t') (c : Combination)
    (h : ∀ d ∈ c.dirs, Open t d.path ∧ Open t' d.path ∧
      ∀ name ∈ d.names, fileAt t' (d.path++[name]) = fileAt t (d.path++[name])) :
    combinationEntry (ε := ε) host t' c = combinationEntry host t c := by
  have hrdy : (c.dirs.findSome? fun d => imageAt t' c d.path) = c.dirs.findSome? fun d => imageAt t c d.path := by
    rw [← head?_filterMap,← head?_filterMap]
    refine congrArg _ (filterMap_congr fun d hd => ?_)
    rw [imageAt,imageAt,(h d hd).2.2 diskRaw (diskRaw_mem_names hd)]
  rw [combinationEntry,combinationEntry,readyEntry_eq hpl c fun d hd => (h d hd).1,
    readyEntry_eq hpl' c fun d hd => (h d hd).2.1,hrdy,leftovers_congr c h]

/-- The files of a directory that go: those with a known name, and the partial downloads. -/
structure Planned (t : Files) (dir : Path) (names prefixes : List Name) (actions : List PruneAction) : Prop where
  file : ∀ a ∈ actions, ∃ name, a.path = dir++[name] ∧ (fileAt t a.path).isSome ∧
    (a.temporary = false ∧ name ∈ names ∨
      a.temporary ∧ name ∉ names ∧ prefixes.any (·.isPrefixOf name))
  known : ∀ name ∈ names, ∀ node, t.lookup (dir++[name]) = some node →
    ∃ a ∈ actions, a.path = dir++[name] ∧ a.temporary = false
  temp : ∀ name, prefixes.any (·.isPrefixOf name) → ∀ node, t.lookup (dir++[name]) = some node →
    (fileAt t (dir++[name])).isSome

theorem planKnownArtifact_eq_ok {path : Path} {temporary : Bool} {actions : List PruneAction}
    (h : planKnownArtifact (ε := ε) t path temporary = .ok actions) (hnd : (t.lookup path).isSome) :
    (fileAt t path).isSome ∧ ∃ size, actions = [⟨path,size,temporary⟩] := by
  unfold planKnownArtifact at h
  split at h
  · rename_i hno
    simp [hno] at hnd
  · cases h
  · rename_i size alloc hfl
    exact ⟨isSome_fileAt.2 ⟨size,alloc,hfl⟩,size,(Except.ok.inj h).symm⟩
  · cases h

theorem planKnownFiles_eq_ok {names pfxs : List Name} {actions : List PruneAction}
    (h : planKnownFiles (ε := ε) t dir names pfxs = .ok actions) : Planned t dir names pfxs actions := by
  obtain ⟨hall,rfl⟩ := gather_eq_ok_iff.1 h
  -- the names of the directory are those with something at their path
  have hnm : ∀ name ∈ names, ∀ node, t.lookup (dir++[name]) = some node →
      (fileAt t (dir++[name])).isSome ∧
        ∃ a ∈ rows (planKnownArtifact (ε := ε) t (dir++[name]) false), a.path = dir++[name] ∧ a.temporary = false := by
    intro name hnm node hnd
    have hso : (t.lookup (dir++[name])).isSome := by simp [hnd]
    have hok := hall name (Tree.mem_readDir.2 hso)
    rw [if_pos hnm] at hok
    obtain ⟨hfl,size,hac⟩ := planKnownArtifact_eq_ok hok hso
    exact ⟨hfl,⟨_,_,_⟩,by rw [hac]; exact mem_singleton_self _,rfl,rfl⟩
  refine ⟨fun a ha => ?_,fun name hmem node hnd => ?_,fun name hss node hnd => ?_⟩
  · obtain ⟨name,hrd,ha⟩ := mem_flatMap.1 ha
    have hso := Tree.mem_readDir.1 hrd
    have hok := hall name hrd
    split_ifs at hok ha with hmem hss
    · obtain ⟨hfl,size,hac⟩ := planKnownArtifact_eq_ok hok hso
      rw [hac] at ha
      obtain rfl := mem_singleton.1 ha
      exact ⟨name,rfl,hfl,.inl ⟨rfl,hmem⟩⟩
    · obtain ⟨hfl,size,hac⟩ := planKnownArtifact_eq_ok hok hso
      rw [hac] at ha
      obtain rfl := mem_singleton.1 ha
      exact ⟨name,rfl,hfl,.inr ⟨rfl,hmem,hss⟩⟩
    · simp [rows] at ha
  · obtain ⟨-,a,ha,hpa,htemp⟩ := hnm name hmem node hnd
    refine ⟨a,mem_flatMap.2 ⟨name,Tree.mem_readDir.2 (by simp [hnd]),?_⟩,hpa,htemp⟩
    rwa [if_pos hmem]
  · by_cases hmem : name ∈ names
    · exact (hnm name hmem node hnd).1
    · have hso : (t.lookup (dir++[name])).isSome := by simp [hnd]
      have hok := hall name (Tree.mem_readDir.2 hso)
      rw [if_neg hmem,if_pos hss] at hok
      exact (planKnownArtifact_eq_ok hok hso).1

/-- What the classifier answers, where it answers. -/
def kept (keep : Option (Combination → Except ε Bool)) (c : Combination) : Bool :=
  match keepCombination keep c with
  | .ok b => b
  | .error _ => false

/-- The plan of one of its directories that a combination gets, by whether it is kept. -/
inductive Plans (t : Files) (keeps : Bool) (d : ArtifactDir) (prefixes : List Name) : DirPlan → Prop
  | absent (h : t.lookup d.path = none) : Plans t keeps d prefixes .absent
  | kept {present : Bool} {temps : List PruneAction} (hkps : keeps) (hdir : t.lookup d.path = some .dir)
      (hpre : present ↔ Present t d) (htmp : Planned t d.path [] prefixes temps) :
      Plans t keeps d prefixes (.kept present temps)
  | pruned {actions : List PruneAction} (hkps : keeps = false) (hdir : t.lookup d.path = some .dir)
      (hac : Planned t d.path d.names prefixes actions) : Plans t keeps d prefixes (.pruned actions)

variable {keep : Option (Combination → Except ε Bool)}

theorem requireDirectoryPath_eq_ok {path : Path} (h : requireDirectoryPath (ε := ε) t path = .ok ())
    (hso : (t.lookup path).isNone = false) : t.lookup path = some .dir := by
  unfold requireDirectoryPath at h
  split at h
  · simp_all
  · assumption
  · cases h
  · cases h

/-- A directory that is kept is counted by its files, and only partial downloads go. -/
theorem Plans.of_stats {keeps : Bool} {d : ArtifactDir} {pfxs : List Name} (hkps : keeps)
    (hdir : t.lookup d.path = some .dir) {stats : Stats}
    (hstats : artifactStats (ε := ε) host t d.path d.names = .ok stats) {temps : List PruneAction}
    (htmp : planKnownFiles (ε := ε) t d.path [] pfxs = .ok temps) :
    Plans t keeps d pfxs (.kept stats.present temps) := by
  obtain ⟨stats',hstats',hpre⟩ := artifactStats_eq_ok host (.inr hdir)
  cases (hstats.symm.trans hstats')
  exact .kept hkps hdir hpre (planKnownFiles_eq_ok htmp)

variable {s v : Name}

theorem planArchitecture_eq_ok {arch : Architecture} {p : DirPlan}
    (h : planArchitecture host t keep s v arch = .ok p) :
    Plans t (kept keep ⟨s,v,arch⟩) ⟨[s,v,arch.text],knownDiskArtifactNames arch true⟩
        (tempPrefixes arch) p ∧
      (p ≠ .absent → ∃ b, keepCombination keep ⟨s,v,arch⟩ = .ok b) := by
  unfold planArchitecture at h
  simp only at h
  split at h
  · rename_i hno
    cases h
    exact ⟨.absent (by simpa using hno),fun hne => absurd rfl hne⟩
  rename_i hso
  have hso : (t.lookup [s,v,arch.text]).isNone = false := Bool.eq_false_iff.2 hso
  obtain ⟨b,hke,h⟩ := bind_eq_ok.1 h
  refine ⟨?_,fun _ => ⟨b,hke⟩⟩
  have hkp : kept keep ⟨s,v,arch⟩ = b := by rw [kept,hke]
  cases b with
  | true =>
    obtain ⟨stats,hstats,h⟩ := bind_eq_ok.1 h
    obtain ⟨⟨⟩,hdir,h⟩ := bind_eq_ok.1 h
    obtain ⟨temps,htmp,h⟩ := bind_eq_ok.1 h
    cases h
    exact Plans.of_stats hkp (requireDirectoryPath_eq_ok hdir hso) hstats htmp
  | false =>
    obtain ⟨⟨⟩,hdir,h⟩ := bind_eq_ok.1 h
    obtain ⟨actions,hac,h⟩ := bind_eq_ok.1 h
    cases h
    exact .pruned hkp (requireDirectoryPath_eq_ok hdir hso) (planKnownFiles_eq_ok hac)

theorem planLegacy_eq_ok (hdir : t.lookup [s,v] = some .dir) {p : DirPlan}
    (h : planLegacy host t keep s v = .ok p) :
    Plans t (kept keep ⟨s,v,.arm64⟩) ⟨[s,v],knownDiskArtifactNames .arm64 false⟩ (tempPrefixes .arm64) p ∧
      ∃ b, keepCombination keep ⟨s,v,.arm64⟩ = .ok b := by
  obtain ⟨b,hke,h⟩ := bind_eq_ok.1 h
  refine ⟨?_,b,hke⟩
  have hkp : kept keep ⟨s,v,.arm64⟩ = b := by rw [kept,hke]
  cases b with
  | true =>
    obtain ⟨temps,htmp,h⟩ := bind_eq_ok.1 h
    obtain ⟨stats,hstats,h⟩ := bind_eq_ok.1 h
    cases h
    exact Plans.of_stats hkp hdir hstats htmp
  | false =>
    obtain ⟨actions,hac,h⟩ := bind_eq_ok.1 h
    cases h
    exact .pruned hkp hdir (planKnownFiles_eq_ok hac)

lemma report_single (p : CombinationPlan) :
    ([p].filter (·.reportable)).map (·.combination) = if p.reportable then [p.combination] else [] := by
  cases h : p.reportable <;> simp [h]

namespace DirPlan

/-- All files that go. -/
def actions : DirPlan → List PruneAction
  | absent => []
  | kept _ temps => temps
  | pruned actions => actions

/-- Whether the plan has a file that a listing shows. -/
def shown : DirPlan → Bool
  | pruned actions => actions.any fun a => !a.temporary
  | _ => false

theorem actions_plans (p : DirPlan) (c : Combination) : (p.plans c).flatMap (·.actions) = p.actions := by
  cases p with
  | absent => rfl
  | kept present temps => cases temps <;> simp [plans,actions]
  | pruned actions => simp [plans,DirPlan.actions]

theorem actions_withLegacy (p legacy : DirPlan) (c : Combination) :
    (p.withLegacy c legacy).flatMap (·.actions) = p.actions++legacy.actions := by
  have happ : (p.plans c++legacy.plans c).flatMap (·.actions) = p.actions++legacy.actions := by
    rw [flatMap_append,actions_plans,actions_plans]
  cases legacy with
  | absent => cases p <;> exact happ
  | kept present temps => cases p <;> exact happ
  | pruned more =>
    have hmo : (if more.isEmpty then [] else [⟨c,more⟩] : List CombinationPlan).flatMap (·.actions) = more := by
      cases more <;> simp
    cases p with
    | absent => simp only [withLegacy,flatMap_append,hmo,actions_plans,actions]
    | kept present temps => simp only [withLegacy,flatMap_append,hmo,actions_plans,actions]
    | pruned actions => simp [withLegacy,DirPlan.actions]

end DirPlan

namespace Plans

variable {keeps : Bool} {d : ArtifactDir} {pfxs : List Name} {p : DirPlan}

theorem isOpen (h : Plans t keeps d pfxs p) : Open t d.path := by
  cases h with
  | absent h => exact .inl h
  | kept _ hdir _ _ => exact .inr hdir
  | pruned _ hdir _ => exact .inr hdir

theorem not_present_of_absent (h : t.lookup d.path = none) : ¬Present t d := by
  rintro ⟨name,-,hfl⟩
  obtain ⟨_,_,hlf⟩ := isSome_fileAt.1 hfl
  rw [Tree.lookup_child (by simp [h]) name] at hlf
  cases hlf

section

variable (h : Plans t keeps d pfxs p)
include h

theorem counted_iff : p.counted ↔ keeps ∧ Present t d := by
  cases h with
  | absent h => simp [DirPlan.counted,not_present_of_absent h]
  | kept hkps _ hpre _ => simpa [DirPlan.counted,hkps] using hpre
  | pruned hkps _ _ => simp [DirPlan.counted,hkps]

/-- A file that a listing shows goes if the combination is not kept. -/
theorem complete (hkps : keeps = false) {name : Name} (hnm : name ∈ d.names)
    {node : Node Leaf} (hnd : t.lookup (d.path++[name]) = some node) :
    ∃ a ∈ p.actions, a.path = d.path++[name] ∧ a.temporary = false := by
  cases h with
  | absent h =>
    rw [Tree.lookup_child (by simp [h])] at hnd
    cases hnd
  | kept hkp _ _ _ => simp [hkps] at hkp
  | pruned _ _ hac => exact hac.known name hnm node hnd

theorem shown_iff : p.shown ↔ keeps = false ∧ Present t d := by
  cases h with
  | absent h => simp [DirPlan.shown,not_present_of_absent h]
  | kept hkps _ _ _ => simp [DirPlan.shown,hkps]
  | pruned hkps _ hac =>
    simp only [DirPlan.shown,any_eq_true,Bool.not_eq_true',hkps,true_and]
    constructor
    · rintro ⟨a,ha,htemp⟩
      obtain ⟨name,hpa,hfl,⟨-,hnm⟩ | ⟨htemp',-⟩⟩ := hac.file a ha
      · exact ⟨name,hnm,hpa ▸ hfl⟩
      · simp [htemp] at htemp'
    · rintro ⟨name,hnm,hfl⟩
      obtain ⟨_,_,hlf⟩ := isSome_fileAt.1 hfl
      obtain ⟨a,ha,-,htemp⟩ := hac.known name hnm _ hlf
      exact ⟨a,ha,htemp⟩

/-- Only files go, and of a combination that is kept only partial downloads. -/
theorem action (hnms : ∀ name ∈ d.names, pfxs.any (·.isPrefixOf name) = false)
    {a : PruneAction} (ha : a ∈ p.actions) :
    ∃ name, a.path = d.path++[name] ∧ (fileAt t a.path).isSome ∧ (keeps → name ∉ d.names) := by
  cases h with
  | absent _ => cases ha
  | kept _ _ _ htmp =>
    obtain ⟨name,hpa,hfl,⟨-,hnm⟩ | ⟨-,-,hss⟩⟩ := htmp.file a ha
    · cases hnm
    · refine ⟨name,hpa,hfl,fun _ hnm => ?_⟩
      rw [hnms name hnm] at hss
      cases hss
  | pruned hkps _ hac =>
    obtain ⟨name,hpa,hfl,-⟩ := hac.file a ha
    exact ⟨name,hpa,hfl,fun hkp => by simp [hkps] at hkp⟩

theorem temp {name : Name} (hss : pfxs.any (·.isPrefixOf name))
    {node : Node Leaf} (hnd : t.lookup (d.path++[name]) = some node) :
    (fileAt t (d.path++[name])).isSome := by
  cases h with
  | absent h =>
    rw [Tree.lookup_child (by simp [h])] at hnd
    cases hnd
  | kept _ _ _ htmp => exact htmp.temp name hss node hnd
  | pruned _ _ hac => exact hac.temp name hss node hnd

end

theorem not_reportable {present : Bool} {temps : List PruneAction} (h : Plans t keeps d pfxs (.kept present temps))
    (c : Combination) :
    (⟨c,temps⟩ : CombinationPlan).reportable = false := by
  cases h with
  | kept _ _ _ htmp =>
    rw [CombinationPlan.reportable,any_eq_false]
    intro a ha
    obtain ⟨name,-,-,⟨-,hnm⟩ | ⟨htemp,-⟩⟩ := htmp.file a ha
    · cases hnm
    · simp [htemp]

theorem report_plans (h : Plans t keeps d pfxs p) (c : Combination) :
    ((p.plans c).filter (·.reportable)).map (·.combination) = if p.shown then [c] else [] := by
  cases p with
  | absent => rfl
  | kept present temps =>
    have hnot := h.not_reportable c
    cases temps with
    | nil => rfl
    | cons a temps => simp [DirPlan.plans,DirPlan.shown,hnot]
  | pruned actions => exact report_single ⟨c,actions⟩

theorem report_withLegacy {keeps' : Bool} {d' : ArtifactDir} {pfxs' : List Name} {legacy : DirPlan}
    (h : Plans t keeps d pfxs p) (h' : Plans t keeps' d' pfxs' legacy) (hleg : legacy ≠ .absent)
    (hkps : keeps' = keeps) (c : Combination) :
    ((p.withLegacy c legacy).filter (·.reportable)).map (·.combination) =
      if p.shown || legacy.shown then [c] else [] := by
  subst hkps
  have hrep := h.report_plans c
  have hrep' := h'.report_plans c
  cases legacy with
  | absent => exact absurd rfl hleg
  | kept present temps =>
    cases p with
    | absent => exact hrep'
    | kept present' temps' =>
      simp only [DirPlan.withLegacy,filter_append,map_append,hrep,hrep']
      rfl
    | pruned actions =>
      obtain ⟨-⟩ | ⟨hkps,-⟩ | ⟨hkps,-⟩ := h
      obtain ⟨-⟩ | ⟨hkps',-⟩ | ⟨hkps',-⟩ := h'
      simp [hkps] at hkps'
  | pruned more =>
    cases p with
    | absent =>
      cases more with
      | nil => rfl
      | cons a more => exact report_single ⟨c,a::more⟩
    | kept present temps =>
      obtain ⟨-⟩ | ⟨hkps,-⟩ | ⟨hkps,-⟩ := h
      obtain ⟨-⟩ | ⟨hkps',-⟩ | ⟨hkps',-⟩ := h'
      simp [hkps] at hkps'
    | pruned actions =>
      rw [DirPlan.shown,DirPlan.shown,← any_append]
      exact report_single ⟨c,actions++more⟩

end Plans

/-- The plans of the directories of a version, for what the classifier answers. -/
structure VersionPlans (t : Files) (keep : Option (Combination → Except ε Bool)) (s v : Name)
    (amd arm flat : DirPlan) : Prop where
  dir : t.lookup [s,v] = some .dir
  amd64 : Plans t (kept keep ⟨s,v,.amd64⟩) ⟨[s,v,Architecture.amd64.text],knownDiskArtifactNames .amd64 true⟩
    (tempPrefixes .amd64) amd
  arm64 : Plans t (kept keep ⟨s,v,.arm64⟩) ⟨[s,v,Architecture.arm64.text],knownDiskArtifactNames .arm64 true⟩
    (tempPrefixes .arm64) arm
  legacy : Plans t (kept keep ⟨s,v,.arm64⟩) ⟨[s,v],knownDiskArtifactNames .arm64 false⟩ (tempPrefixes .arm64) flat
  asked_amd64 : amd ≠ .absent → ∃ b, keepCombination keep ⟨s,v,.amd64⟩ = .ok b
  asked_arm64 : ∃ b, keepCombination keep ⟨s,v,.arm64⟩ = .ok b

theorem planKnownVersionPrune_eq_ok (hdir : t.lookup [s,v] = some .dir) {p : Plan}
    (h : planKnownVersionPrune host t keep s v = .ok p) :
    ∃ amd arm flat, VersionPlans t keep s v amd arm flat ∧ p = versionPlan s v amd arm flat := by
  obtain ⟨amd,hamd,h⟩ := bind_eq_ok.1 h
  obtain ⟨arm,harm,h⟩ := bind_eq_ok.1 h
  obtain ⟨flat,hflat,h⟩ := bind_eq_ok.1 h
  obtain ⟨hpls₁,hask₁⟩ := planArchitecture_eq_ok hamd
  obtain ⟨hpls₂,-⟩ := planArchitecture_eq_ok harm
  obtain ⟨hpls₃,hask₃⟩ := planLegacy_eq_ok hdir hflat
  exact ⟨amd,arm,flat,⟨hdir,hpls₁,hpls₂,hpls₃,hask₁,hask₃⟩,(Except.ok.inj h).symm⟩

/-- All files that go by these plans. -/
def actionsOf (plans : List Plan) : List PruneAction := (plans.flatMap (·.plans)).flatMap (·.actions)

lemma actionsOf_append (ps qs : List Plan) : actionsOf (ps++qs) = actionsOf ps++actionsOf qs := by
  simp [actionsOf]

/-- The plans report the listed combinations that are not kept, and count those that are. -/
def Agree (keep : Option (Combination → Except ε Bool)) (plans : List Plan) (entries : List Entry) : Prop :=
  ((plans.flatMap (·.plans)).filter (·.reportable)).map (·.combination) =
      (entries.filter fun e => !kept keep e.combination).map (·.combination) ∧
    (plans.map (·.kept)).sum = (entries.filter fun e => kept keep e.combination).length

lemma Agree.nil : Agree keep [] [] := ⟨rfl,rfl⟩

theorem Agree.append {ps qs : List Plan} {es fs : List Entry} (h : Agree keep ps es) (h' : Agree keep qs fs) :
    Agree keep (ps++qs) (es++fs) := by
  refine ⟨?_,?_⟩
  · simp only [flatMap_append,filter_append,map_append,h.1,h'.1]
  · simp only [map_append,sum_append,filter_append,length_append,h.2,h'.2]

theorem Agree.gather {α : Type} {l : List α} {f : α → List Plan} {g : α → Except (CacheError ε) (List Entry)}
    (h : ∀ a ∈ l, ∃ es, g a = .ok es ∧ Agree keep (f a) es) :
    ∃ es, Gathering.gather g l = .ok es ∧ Agree keep (l.flatMap f) es := by
  have hrows : ∀ a ∈ l, g a = .ok (rows (g a)) ∧ Agree keep (f a) (rows (g a)) := by
    intro a ha
    obtain ⟨es,hes,hag⟩ := h a ha
    rw [hes]
    exact ⟨rfl,hag⟩
  refine ⟨_,gather_eq_ok fun a ha => (hrows a ha).1,?_⟩
  clear h
  induction l with
  | nil => exact .nil
  | cons a l ih => exact (hrows a (by simp)).2.append (ih fun b hb => hrows b (by simp [hb]))

variable (keep) in
theorem filter_entry {r : Option Entry} {c : Combination} (hc : ∀ e ∈ r, e.combination = c) :
    (r.toList.filter fun e => !kept keep e.combination).map (·.combination) =
        (if r.isSome && !kept keep c then [c] else []) ∧
      (r.toList.filter fun e => kept keep e.combination).length = (r.isSome && kept keep c).toNat := by
  cases r with
  | none => exact ⟨rfl,rfl⟩
  | some e =>
    obtain rfl := hc e rfl
    cases hkp : kept keep e.combination <;> simp [hkp]

theorem listVersion_eq_ok {r₁ r₂ : Option Entry}
    (h₁ : combinationEntry (ε := ε) host t ⟨s,v,.amd64⟩ = .ok r₁) (h₂ : combinationEntry (ε := ε) host t ⟨s,v,.arm64⟩ = .ok r₂) :
    listVersion (ε := ε) host t s v = .ok (r₁.toList++r₂.toList) := by
  simp [listVersion,architectures,gather,h₁,h₂,Except.map]

theorem names_not_temp (arch : Architecture) (includePin : Bool) :
    ∀ name ∈ knownDiskArtifactNames arch includePin,
      (tempPrefixes arch).any (·.isPrefixOf name) = false := by
  cases arch <;> cases includePin <;> decide

theorem exists_mem_amd64 {P : ArtifactDir → Prop} :
    (∃ d ∈ (⟨s,v,.amd64⟩ : Combination).dirs, P d) ↔
      P ⟨[s,v,Architecture.amd64.text],knownDiskArtifactNames .amd64 true⟩ := by
  simp [mem_dirs]

theorem exists_mem_arm64 {P : ArtifactDir → Prop} :
    (∃ d ∈ (⟨s,v,.arm64⟩ : Combination).dirs, P d) ↔
      P ⟨[s,v,Architecture.arm64.text],knownDiskArtifactNames .arm64 true⟩ ∨
        P ⟨[s,v],knownDiskArtifactNames .arm64 false⟩ := by
  simp [mem_dirs]

namespace VersionPlans

variable {s v : Name} {amd arm flat : DirPlan}

theorem legacy_ne_absent (h : VersionPlans t keep s v amd arm flat) : flat ≠ .absent := by
  rintro rfl
  obtain ⟨hno⟩ | _ | _ := h.legacy
  simp [h.dir] at hno

theorem actions_eq (s v : Name) (amd arm flat : DirPlan) :
    (versionPlan s v amd arm flat).plans.flatMap (·.actions) =
      amd.actions++(arm.actions++flat.actions) := by
  simp only [versionPlan,flatMap_append,DirPlan.actions_plans,DirPlan.actions_withLegacy]

section

variable (h : VersionPlans t keep s v amd arm flat)
include h

theorem exists_plans {arch : Architecture} {d : ArtifactDir}
    (hd : d ∈ (⟨s,v,arch⟩ : Combination).dirs) :
    ∃ p, Plans t (kept keep ⟨s,v,arch⟩) d (tempPrefixes arch) p ∧
      ∀ a ∈ p.actions, a ∈ (versionPlan s v amd arm flat).plans.flatMap (·.actions) := by
  rw [actions_eq]
  rcases mem_dirs.1 hd with rfl | ⟨rfl,rfl⟩
  · cases arch with
    | amd64 => exact ⟨amd,h.amd64,fun a ha => by simp [ha]⟩
    | arm64 => exact ⟨arm,h.arm64,fun a ha => by simp [ha]⟩
  · exact ⟨flat,h.legacy,fun a ha => by simp [ha]⟩

theorem isOpen {arch : Architecture} {d : ArtifactDir}
    (hd : d ∈ (⟨s,v,arch⟩ : Combination).dirs) : Open t d.path := by
  obtain ⟨p,hp,-⟩ := h.exists_plans hd
  exact hp.isOpen

/-- A file that goes lies in a combination's directory, and has no known name if that is kept. -/
theorem action {a : PruneAction}
    (ha : a ∈ (versionPlan s v amd arm flat).plans.flatMap (·.actions)) :
    ∃ arch, ∃ d ∈ (⟨s,v,arch⟩ : Combination).dirs, ∃ name, a.path = d.path++[name] ∧
      (fileAt t a.path).isSome ∧ (kept keep ⟨s,v,arch⟩ → name ∉ d.names) := by
  rw [actions_eq,mem_append,mem_append] at ha
  rcases ha with ha | ha | ha
  · exact ⟨.amd64,_,mem_dirs.2 (.inl rfl),h.amd64.action (names_not_temp _ _) ha⟩
  · exact ⟨.arm64,_,mem_dirs.2 (.inl rfl),h.arm64.action (names_not_temp _ _) ha⟩
  · exact ⟨.arm64,_,mem_dirs.2 (.inr ⟨rfl,rfl⟩),h.legacy.action (names_not_temp _ _) ha⟩

theorem cleanup {q : Path}
    (hq : q ∈ (versionPlan s v amd arm flat).cleanup) : t.lookup q = some .dir := by
  have hpls : ∀ {keeps d pfxs p}, Plans t keeps d pfxs p → q ∈ p.cleanup d.path → t.lookup q = some .dir := by
    rintro keeps d pfxs p (_ | _ | ⟨-,hdir,-⟩) hq
    · cases hq
    · cases hq
    · rwa [mem_singleton.1 hq]
  rcases mem_append.1 hq with hq | hq
  · exact hpls h.amd64 hq
  · exact hpls h.arm64 hq

end

variable (host) in
theorem agree (h : VersionPlans t keep s v amd arm flat) (hpl : Plain t) :
    ∃ entries, listVersion (ε := ε) host t s v = .ok entries ∧
      Agree keep [versionPlan s v amd arm flat] entries := by
  obtain ⟨r₁,hr₁,hso₁,hc₁⟩ := combinationEntry_eq_ok host hpl ⟨s,v,.amd64⟩ fun _ => h.isOpen
  obtain ⟨r₂,hr₂,hso₂,hc₂⟩ := combinationEntry_eq_ok host hpl ⟨s,v,.arm64⟩ fun _ => h.isOpen
  refine ⟨_,listVersion_eq_ok hr₁ hr₂,?_⟩
  replace hso₁ := hso₁.trans exists_mem_amd64
  replace hso₂ := hso₂.trans exists_mem_arm64
  have hshown₁ : amd.shown = (r₁.isSome && !kept keep ⟨s,v,.amd64⟩) := by
    rw [Bool.eq_iff_iff,h.amd64.shown_iff,Bool.and_eq_true,hso₁,Bool.not_eq_true',and_comm]
  have hshown₂ : (arm.shown || flat.shown) = (r₂.isSome && !kept keep ⟨s,v,.arm64⟩) := by
    rw [Bool.eq_iff_iff,Bool.or_eq_true,h.arm64.shown_iff,h.legacy.shown_iff,Bool.and_eq_true,hso₂,Bool.not_eq_true',
      ← and_or_left,and_comm]
  have hcnt₁ : amd.counted = (r₁.isSome && kept keep ⟨s,v,.amd64⟩) := by
    rw [Bool.eq_iff_iff,h.amd64.counted_iff,Bool.and_eq_true,hso₁,and_comm]
  have hcnt₂ : (arm.counted || flat.counted) = (r₂.isSome && kept keep ⟨s,v,.arm64⟩) := by
    rw [Bool.eq_iff_iff,Bool.or_eq_true,h.arm64.counted_iff,h.legacy.counted_iff,Bool.and_eq_true,hso₂,← and_or_left,
      and_comm]
  obtain ⟨hfilter₁,hlen₁⟩ := filter_entry keep hc₁
  obtain ⟨hfilter₂,hlen₂⟩ := filter_entry keep hc₂
  refine ⟨?_,?_⟩
  · simp only [flatMap_singleton,versionPlan,filter_append,map_append,h.amd64.report_plans,
      h.arm64.report_withLegacy h.legacy h.legacy_ne_absent rfl,hshown₁,hshown₂,hfilter₁,hfilter₂]
  · simp only [versionPlan,filter_append,length_append,hlen₁,hlen₂,
      ← hcnt₁,← hcnt₂]
    cases arm.counted <;> cases flat.counted <;> rfl

end VersionPlans

/-- The plans are those of the versions that are walked, and of no other. -/
structure Covers (t : Files) (keep : Option (Combination → Except ε Bool)) (walk : Name → Name → Prop)
    (plans : List Plan) : Prop where
  version : ∀ s v, walk s v → ∃ amd arm flat, VersionPlans t keep s v amd arm flat ∧
    ∀ a ∈ (versionPlan s v amd arm flat).plans.flatMap (·.actions), a ∈ actionsOf plans
  action : ∀ a ∈ actionsOf plans, ∃ s v amd arm flat, walk s v ∧ VersionPlans t keep s v amd arm flat ∧
    a ∈ (versionPlan s v amd arm flat).plans.flatMap (·.actions)
  cleanup : ∀ q ∈ plans.flatMap (·.cleanup), t.lookup q = some .dir

theorem Covers.flatMap {α : Type} {l : List α} {walk : α → Name → Name → Prop} {f : α → List Plan}
    (h : ∀ a ∈ l, Covers t keep (walk a) (f a)) : Covers t keep (fun s v => ∃ a ∈ l, walk a s v) (l.flatMap f) := by
  refine ⟨?_,?_,?_⟩
  · rintro s v ⟨a,ha,hwk⟩
    obtain ⟨amd,arm,flat,hpls,hac⟩ := (h a ha).version s v hwk
    refine ⟨amd,arm,flat,hpls,fun b hb => ?_⟩
    have hmem := hac b hb
    simp only [actionsOf,mem_flatMap] at hmem ⊢
    obtain ⟨q,⟨p,hp,hq⟩,hb⟩ := hmem
    exact ⟨q,⟨p,⟨a,ha,hp⟩,hq⟩,hb⟩
  · intro b hb
    simp only [actionsOf,mem_flatMap] at hb
    obtain ⟨q,⟨p,⟨a,ha,hp⟩,hq⟩,hb⟩ := hb
    have hmem : b ∈ actionsOf (f a) := by
      simp only [actionsOf,mem_flatMap]
      exact ⟨q,⟨p,hp,hq⟩,hb⟩
    obtain ⟨s,v,amd,arm,flat,hwk,hpls⟩ := (h a ha).action b hmem
    exact ⟨s,v,amd,arm,flat,⟨a,ha,hwk⟩,hpls⟩
  · intro q hq
    simp only [mem_flatMap] at hq
    obtain ⟨p,⟨a,ha,hp⟩,hq⟩ := hq
    exact (h a ha).cleanup q (mem_flatMap.2 ⟨p,hp,hq⟩)

theorem planVersion_eq_ok (hdir : t.lookup [s,v] = some .dir) {plans : List Plan}
    (h : planVersion host t keep s v = .ok plans) :
    Covers t keep (fun s' v' => s' = s ∧ v' = v) plans ∧
      (Plain t → ∃ entries, listVersion (ε := ε) host t s v = .ok entries ∧ Agree keep plans entries) := by
  obtain ⟨⟨⟩,-,h⟩ := bind_eq_ok.1 h
  obtain ⟨p,hp,h⟩ := bind_eq_ok.1 h
  obtain ⟨amd,arm,flat,hpls,rfl⟩ := planKnownVersionPrune_eq_ok hdir hp
  -- a version that is not touched has no plan anyway
  have hsm : plans.flatMap (·.plans) = (versionPlan s v amd arm flat).plans ∧
      (plans.map (·.kept)).sum = (versionPlan s v amd arm flat).kept ∧
      ∀ q ∈ plans.flatMap (·.cleanup), q ∈ (versionPlan s v amd arm flat).cleanup ∨ q = [s,v] := by
    cases h
    split
    · simp
    · rename_i htouc
      simp only [versionPlan,Bool.or_eq_true,Bool.not_eq_true',not_or,Bool.not_eq_false,List.isEmpty_iff] at htouc
      simp [versionPlan,htouc.2]
  obtain ⟨hsm,hkp,hclea⟩ := hsm
  refine ⟨⟨?_,?_,?_⟩,fun hpl => ?_⟩
  · rintro _ _ ⟨rfl,rfl⟩
    exact ⟨amd,arm,flat,hpls,fun a ha => by rwa [actionsOf,hsm]⟩
  · intro a ha
    rw [actionsOf,hsm] at ha
    exact ⟨s,v,amd,arm,flat,⟨rfl,rfl⟩,hpls,ha⟩
  · intro q hq
    rcases hclea q hq with hq | rfl
    · exact hpls.cleanup hq
    · exact hdir
  · obtain ⟨entries,hls,hag⟩ := hpls.agree host hpl
    refine ⟨entries,hls,?_,?_⟩
    · rw [hsm]
      simpa using hag.1
    · rw [hkp]
      simpa using hag.2

theorem planSchematic_eq_ok (hdir : t.lookup [s] = some .dir) {plans : List Plan}
    (h : planSchematic host t keep s = .ok plans) :
    Covers t keep (fun s' v => s' = s ∧ t.lookup [s,v] = some .dir) plans ∧
      (Plain t → ∃ entries, listSchematic (ε := ε) host t s = .ok entries ∧ Agree keep plans entries) := by
  obtain ⟨⟨⟩,-,h⟩ := bind_eq_ok.1 h
  obtain ⟨versions,hvers,h⟩ := bind_eq_ok.1 h
  obtain ⟨hall,rfl⟩ := gather_eq_ok_iff.1 hvers
  have hver : ∀ v ∈ t.subdirs [s], _ := fun v hv => planVersion_eq_ok (Tree.mem_subdirs.1 hv) (hall v hv)
  -- the directory of the schematic adds nothing but its own removal
  have hextra : ∃ extra : List Plan, plans = ((t.subdirs [s]).flatMap fun v => rows (planVersion host t keep s v))++extra ∧
      extra.flatMap (·.plans) = [] ∧ (extra.map (·.kept)).sum = 0 ∧ ∀ q ∈ extra.flatMap (·.cleanup), q = [s] := by
    refine ⟨_,(Except.ok.inj h).symm,?_⟩
    split <;> simp
  obtain ⟨extra,rfl,hpls,hkp,hclea⟩ := hextra
  have hcov := Covers.flatMap fun v hv => (hver v hv).1
  have hac : ∀ ps, actionsOf (ps++extra) = actionsOf ps := fun ps => by
    rw [actionsOf_append,actionsOf,actionsOf,hpls]
    simp
  refine ⟨⟨?_,?_,?_⟩,fun hpl => ?_⟩
  · rintro _ v ⟨rfl,hv⟩
    rw [hac]
    exact hcov.version _ v ⟨v,Tree.mem_subdirs.2 hv,rfl,rfl⟩
  · intro a ha
    rw [hac] at ha
    obtain ⟨s',v,amd,arm,flat,⟨v',hv,rfl,rfl⟩,hmem⟩ := hcov.action a ha
    exact ⟨s',v,amd,arm,flat,⟨rfl,Tree.mem_subdirs.1 hv⟩,hmem⟩
  · intro q hq
    rw [flatMap_append,mem_append] at hq
    rcases hq with hq | hq
    · exact hcov.cleanup q hq
    · rw [hclea q hq]
      exact hdir
  · obtain ⟨ents,hls,hag⟩ := Agree.gather fun v hv => (hver v hv).2 hpl
    have hag' := hag.append (⟨by simp [hpls],by simpa using hkp⟩ : Agree keep extra [])
    exact ⟨ents,hls,by rwa [append_nil] at hag'⟩

/-- The versions the prune walks. -/
def Walked (t : Files) (s v : Name) : Prop := s ≠ mirror ∧ t.lookup [s,v] = some .dir

lemma Walked.schematic (h : Walked t s v) : t.lookup [s] = some .dir :=
  Tree.parent (n := v) (by simp [h.2])

/-- The directories of the cache that the prune walks. -/
abbrev schematics (t : Files) : List Name := (t.subdirs []).filter (· ≠ mirror)

lemma mem_schematics : s ∈ schematics t ↔ t.lookup [s] = some .dir ∧ s ≠ mirror := by
  rw [mem_filter,Tree.mem_subdirs,decide_eq_true_eq]
  rfl

theorem planSchematics_eq_ok {plans : List Plan} (h : gather (planSchematic host t keep) (schematics t) = .ok plans) :
    Covers t keep (Walked t) plans ∧
      (Plain t → ∃ entries, gather (listSchematic (ε := ε) host t) (schematics t) = .ok entries ∧
        Agree keep plans entries) := by
  obtain ⟨hall,rfl⟩ := gather_eq_ok_iff.1 h
  have hsche : ∀ s ∈ schematics t, _ := fun s hs => planSchematic_eq_ok (mem_schematics.1 hs).1 (hall s hs)
  have hcov := Covers.flatMap fun s hs => (hsche s hs).1
  refine ⟨⟨fun s v hwk => ?_,fun a ha => ?_,hcov.cleanup⟩,fun hpl => ?_⟩
  · exact hcov.version s v ⟨s,mem_schematics.2 ⟨hwk.schematic,hwk.1⟩,rfl,hwk.2⟩
  · obtain ⟨s,v,amd,arm,flat,⟨s',hs,rfl,hv⟩,hmem⟩ := hcov.action a ha
    exact ⟨s,v,amd,arm,flat,⟨(mem_schematics.1 hs).2,hv⟩,hmem⟩
  · exact Agree.gather fun s hs => (hsche s hs).2 hpl

end TalosBox.ImageCache
