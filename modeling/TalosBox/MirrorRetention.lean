import TalosBox.MirrorIntegrity

/-! A complete tag stays complete: writes under digests keep every graph, so only the tag's own
entry can break it. -/
open List Option

namespace TalosBox.Mirror

variable {Data : Type} {lib : Codec Data} {S : Set Data} {c c' : Cache Data}

/-- No two of these contents share a sum. -/
def Codec.CollisionFree (lib : Codec Data) (S : Set Data) : Prop := ∀ a, Set.InjOn (lib.sum a) S

variable {data : Data}

theorem Codec.CollisionFree.eq (hcf : lib.CollisionFree S) {data' : Data}
    {reference digest digest' : Text} (hd : data ∈ S) (hd' : data' ∈ S)
    (h : lib.verifySupportedDigest data reference = .ok digest)
    (h' : lib.verifySupportedDigest data' reference = .ok digest') : data = data' := by
  obtain ⟨a,hs,-⟩ := verifySupportedDigest_eq_ok.1 h
  obtain ⟨a',hs',-⟩ := verifySupportedDigest_eq_ok.1 h'
  obtain ⟨hn,hsum⟩ : a.name = a'.name ∧ lib.sum a data = lib.sum a' data' := by
    simpa [hs] using hs'
  obtain rfl := Algorithm.name_inj hn
  exact hcf a hd hd' hsum

def Cache.Within (c : Cache Data) (S : Set Data) : Prop := ∀ data, c.Holds data → data ∈ S

def Exchange.Within (e : Exchange Data) (S : Set Data) : Prop := ∀ data, e.Carries data → data ∈ S

/-- A write of sound manifests that are among these contents. -/
def Write.Proper (lib : Codec Data) (S : Set Data) (w : Write Data) : Prop :=
  w.Sound lib ∧ ∀ path data, w = .manifest path data → data ∈ S

theorem Cache.Within.write (h : c.Within S) {w : Write Data} (hw : w.Proper lib S) :
    (c.write w).Within S := by
  cases w with
  | blob name data => exact h
  | metadata path stored => exact h
  | manifest path data =>
    rintro data' ⟨file,hf⟩
    simp only [Cache.write,Function.update_apply] at hf
    split at hf
    · injection hf with hf
      exact hf ▸ hw.2 path data rfl
    · exact h data' ⟨file,hf⟩

variable {ws : List (Write Data)}

theorem Cache.Within.writes (h : c.Within S)
    (hw : ∀ w ∈ ws, w.Proper lib S) : (c.writes ws).Within S := by
  induction ws generalizing c with
  | nil => exact h
  | cons w ws ih =>
    exact ih (h.write (hw w (by simp))) fun w hm => hw w (mem_cons_of_mem _ hm)

variable {repository : Text} {graph : CachedGraph}

theorem Held.holds {digest : Text}
    (h : Held lib c repository digest data graph) : c.Holds data := by
  obtain ⟨file,hrd⟩ := h.cached
  exact ⟨file,(checkedCachedManifest_file hrd).1⟩

/-- The later cache holds every manifest and blob of the earlier one. -/
structure Keeps (lib : Codec Data) (c c' : Cache Data) (repository : Text) : Prop where
  held : ∀ digest data graph, Held lib c repository digest data graph →
    Held lib c' repository digest data graph
  blob : ∀ digest data, c.blobs (blobPath digest) = .regular data →
    ∃ data', c'.blobs (blobPath digest) = .regular data'

lemma Keeps.refl (lib : Codec Data) (c : Cache Data) (repository : Text) :
    Keeps lib c c repository :=
  ⟨fun _ _ _ h => h,fun _ data h => ⟨data,h⟩⟩

theorem Keeps.trans {c'' : Cache Data} (h : Keeps lib c c' repository)
    (h' : Keeps lib c' c'' repository) : Keeps lib c c'' repository := by
  refine ⟨fun digest data graph hh => h'.held _ _ _ (h.held _ _ _ hh),fun digest data hb => ?_⟩
  obtain ⟨data',hb'⟩ := h.blob digest data hb
  exact h'.blob digest data' hb'

theorem checkedCachedManifest_write {path request : Text} (hne : manifestPath request ≠ .v2 path) :
    checkedCachedManifest lib (c.write (.manifest path data)) request = checkedCachedManifest lib c request := by
  have hoth : ∀ f, f ≠ ManifestFile.v2 path → (c.write (.manifest path data)).manifests f = c.manifests f := by
    intro f hf
    simp [Cache.write,hf]
  unfold checkedCachedManifest
  rw [hoth _ hne]
  cases hleg : legacyManifestFallbackPath request with
  | none => rfl
  | some legacyPath =>
    have hfl : legacyPath ≠ .v2 path := by
      unfold legacyManifestFallbackPath at hleg
      split at hleg
      · split at hleg
        · cases hleg
          simp [legacyManifestPath]
        · cases hleg
      · cases hleg
    simp only [hoth _ hfl]

/-- A manifest written under the digest of one that is held has the same bytes. -/
theorem Held.write (hcf : lib.CollisionFree S) (hin : c.Within S) {reference digest path : Text}
    (hseg : Segment repository reference) {data' : Data}
    (h : Held lib c repository digest data graph)
    (hw : (Write.manifest path data').Proper lib S) :
    Held lib (c.write (.manifest path data')) repository digest data graph := by
  obtain ⟨canonical,hc⟩ := isSome_iff_exists.1 h.supported
  obtain ⟨file,hrd⟩ := h.cached
  obtain ⟨verified,hv⟩ := h.verified
  have hseg' := hseg.of_digest (isDigestReference_of_supported h.supported)
  have hkey : manifestPath (manifestRequestPath repository digest) =
      .v2 (manifestRequestPath repository canonical) := by
    rw [manifestPath,hseg'.canonicalManifestRequestPath,hc]
    rfl
  refine ⟨h.supported,?_,h.verified,h.decoded⟩
  by_cases hp : path = manifestRequestPath repository canonical
  · have hcd : isDigestReference canonical := isDigestReference_of_supported
      (by simp [Supported,canonicalSupportedDigest_canonical hc])
    obtain ⟨⟨hsz,hsnd⟩,hda⟩ := hw
    obtain ⟨d,hd⟩ := hsnd repository canonical (hp ▸ (hseg.of_digest hcd).manifestPathRe) hcd
    rw [Codec.verify_congr (splitDigestReference_canonical hc)] at hd
    obtain rfl := hcf.eq (hin data h.holds) (hda path data' rfl) hv hd
    have hsz' : ¬ lib.size data > maxManifestBytes := by simpa using hsz
    simp [checkedCachedManifest,hkey,Cache.write,hp,readCheckedRegularFile,hsz']
  · have hne : manifestPath (manifestRequestPath repository digest) ≠ .v2 path := by
      rw [hkey]
      simpa [eq_comm] using hp
    exact ⟨file,(checkedCachedManifest_write hne).trans hrd⟩

theorem Keeps.write (hcf : lib.CollisionFree S) (hin : c.Within S) {reference : Text}
    (hseg : Segment repository reference) {w : Write Data} (hw : w.Proper lib S) :
    Keeps lib c (c.write w) repository := by
  cases w with
  | blob name data =>
    refine ⟨fun _ _ _ h => ⟨h.supported,h.cached,h.verified,h.decoded⟩,fun digest data' hf => ?_⟩
    simp only [Cache.write,Function.update_apply]
    split
    · exact ⟨data,rfl⟩
    · exact ⟨data',hf⟩
  | metadata path stored =>
    exact ⟨fun _ _ _ h => ⟨h.supported,h.cached,h.verified,h.decoded⟩,fun _ data h => ⟨data,h⟩⟩
  | manifest path data =>
    exact ⟨fun _ _ _ h => h.write hcf hin hseg hw,fun _ data h => ⟨data,h⟩⟩

theorem Keeps.writes (hcf : lib.CollisionFree S) (hin : c.Within S) {reference : Text}
    (hseg : Segment repository reference)
    (hw : ∀ w ∈ ws, w.Proper lib S) : Keeps lib c (c.writes ws) repository := by
  induction ws generalizing c with
  | nil => exact .refl lib c repository
  | cons w ws ih =>
    have hhd := hw w (by simp)
    exact (Keeps.write hcf hin hseg hhd).trans
      (ih (hin.write hhd) fun w hm => hw w (mem_cons_of_mem _ hm))

variable {tgt : CacheTarget} {root : Text}

theorem Walk.keep {digests : List Text} {image : CachedGraph}
    (hk : Keeps lib c c' tgt.repository) (h : Walk lib c tgt digests graph image) :
    Walk lib c' tgt digests graph image := by
  induction h with
  | image hg => exact .image hg
  | follow hs held _ ih => exact .follow hs (hk.held _ _ _ held) ih

theorem RootComplete.keep (hk : Keeps lib c c' tgt.repository)
    (h : RootComplete lib c tgt ⟨false⟩ root) : RootComplete lib c' tgt ⟨false⟩ root := by
  have hbl : ∀ digest, BlobHeld lib c ⟨false⟩ digest → BlobHeld lib c' ⟨false⟩ digest := by
    rintro digest ⟨hs,data,hf,-⟩
    obtain ⟨data',hf'⟩ := hk.blob digest data hf
    exact ⟨hs,data',hf',fun h => absurd h (by simp)⟩
  obtain ⟨image,⟨data,graph,digests,held,hw,hl,hn⟩,hcfg,hlay⟩ := h
  exact ⟨image,⟨data,graph,digests,hk.held _ _ _ held,hw.keep hk,hl,hn⟩,
    fun hne => hbl _ (hcfg hne),fun layer hm => hbl _ (hlay layer hm)⟩

/-- The path of a tag's entry, which is also the name of its file. -/
def TagTarget.path (t : TagTarget) : Text := manifestRequestPath t.repository t.tag

theorem TagTarget.canonicalPath (t : TagTarget) : canonicalManifestRequestPath t.path = t.path := by
  have hc : canonicalSupportedDigest t.tag = none := by
    cases h : canonicalSupportedDigest t.tag with
    | none => rfl
    | some canonical =>
      have := isDigestReference_of_supported (by simp [Supported,h] : Supported t.tag)
      simp [t.notDigest] at this
  rw [TagTarget.path,t.segment.canonicalManifestRequestPath,hc]
  rfl

variable {t : TagTarget}

theorem TagTarget.read_iff {file : ManifestFile} :
    checkedCachedManifest lib c t.path = .ok (data,file) ↔
      c.manifests (.v2 t.path) = .regular data ∧ lib.size data ≤ maxManifestBytes ∧
        file = .v2 t.path := by
  have hkey : manifestPath t.path = .v2 t.path := by rw [manifestPath,t.canonicalPath]
  have hleg : legacyManifestFallbackPath t.path = none := by
    rw [legacyManifestFallbackPath,t.canonicalPath,TagTarget.path,t.segment.manifestPathRe]
    simp [t.notDigest]
  unfold checkedCachedManifest
  rw [hkey,hleg]
  cases c.manifests (.v2 t.path) with
  | missing => simp [readCheckedRegularFile]
  | irregular => simp [readCheckedRegularFile]
  | regular d =>
    by_cases hs : lib.size d > maxManifestBytes
    · simp only [readCheckedRegularFile,if_pos hs]
      constructor
      · intro h; cases h
      · rintro ⟨h₁,h₂,-⟩
        cases h₁
        omega
    · simp only [readCheckedRegularFile,if_neg hs]
      constructor
      · intro h
        obtain ⟨rfl,rfl⟩ : d = data ∧ _ = file := by simpa using h
        exact ⟨rfl,by omega,rfl⟩
      · rintro ⟨h₁,-,rfl⟩
        cases h₁
        rfl

/-- The digest the entry is recorded under, by its data and its sidecar. -/
def entryDigest (lib : Codec Data) (c : Cache Data) (t : TagTarget) (data : Data) : Text :=
  lib.cachedManifestDigest data t.tag
    (((storedMetadata c (.v2 t.path)).map (·.dockerContentDigest)).getD [])

theorem tagMaps_entry {host : Text} :
    TagMaps lib c (t.cacheTarget host []) root ↔ ∃ data graph,
      c.manifests (.v2 t.path) = .regular data ∧ lib.size data ≤ maxManifestBytes ∧
      entryDigest lib c t data = root ∧ decodeManifestGraph lib data = .ok graph := by
  rw [tagMaps_iff]
  constructor
  · rintro ⟨data,file,graph,hrd,hd,-,hg⟩
    obtain ⟨hf,hs,rfl⟩ := TagTarget.read_iff.1 hrd
    refine ⟨data,graph,hf,hs,?_,hg⟩
    rw [← hd,tagDigest_eq,t.manifestReference]
    rfl
  · rintro ⟨data,graph,hf,hs,hd,hg⟩
    refine ⟨data,.v2 t.path,graph,TagTarget.read_iff.2 ⟨hf,hs,rfl⟩,?_,.inl rfl,hg⟩
    rw [← hd,tagDigest_eq,t.manifestReference]
    rfl

lemma entryDigest_verifies (lib : Codec Data) (c : Cache Data) (t : TagTarget) (data : Data) :
    lib.verifySupportedDigest data (entryDigest lib c t data) = .ok (entryDigest lib c t data) :=
  Codec.verify_cachedManifestDigest _ _ _

/-- A write that leaves the tag's entry alone. -/
def Write.Spares (t : TagTarget) : Write Data → Prop
  | .blob _ _ => True
  | .metadata path _ => path ≠ t.path
  | .manifest path _ => path ≠ t.path

theorem TagMaps.writes {host : Text}
    (hw : ∀ w ∈ ws, w.Spares t) (h : TagMaps lib c (t.cacheTarget host []) root) :
    TagMaps lib (c.writes ws) (t.cacheTarget host []) root := by
  have hsm : (c.writes ws).manifests (.v2 t.path) = c.manifests (.v2 t.path) ∧
      (c.writes ws).metadata (.v2 t.path) = c.metadata (.v2 t.path) := by
    clear h
    induction ws generalizing c with
    | nil => exact ⟨rfl,rfl⟩
    | cons w ws ih =>
      obtain ⟨h₁,h₂⟩ := ih fun w hm => hw w (mem_cons_of_mem _ hm)
      have hspare := hw w (by simp)
      rw [Cache.writes_cons,h₁,h₂]
      cases w with
      | blob name data => exact ⟨rfl,rfl⟩
      | metadata path stored => exact ⟨rfl,by simp [Cache.write,Ne.symm hspare]⟩
      | manifest path data => exact ⟨by simp [Cache.write,Ne.symm hspare],rfl⟩
  obtain ⟨data,graph,hf,hs,hd,hg⟩ := tagMaps_entry.1 h
  refine tagMaps_entry.2 ⟨data,graph,hsm.1.trans hf,hs,?_,hg⟩
  rw [← hd,entryDigest,entryDigest,storedMetadata,storedMetadata,hsm.2]

theorem digestText_inj {a a' : Algorithm} {enc enc' : Text}
    (h : digestText a enc = digestText a' enc') : a = a' := by
  have hlen : a.name.length = a'.name.length := by cases a <;> cases a' <;> decide
  exact Algorithm.name_inj (append_inj h hlen).1

theorem prefix_pair {α : Type*} {a b : α} {l : List α} (h : l <+: [a,b]) :
    l = [] ∨ l = [a] ∨ l = [a,b] := by
  obtain ⟨r,hr⟩ := h
  rcases l with _ | ⟨x,_ | ⟨y,l⟩⟩
  · exact .inl rfl
  · exact .inr (.inl (by simp_all))
  · refine .inr (.inr ?_)
    simp only [cons_append,cons.injEq,append_eq_nil_iff] at hr
    simp [hr]

variable {stored : ManifestMetadata}

/-- Beside a sidecar that names a digest, the entry is recorded under it if its bytes have it. -/
theorem entryDigest_of_verified
    {digest : Text} (hm : c.metadata (.v2 t.path) = .regular (some stored))
    (hv : lib.verifySupportedDigest data stored.dockerContentDigest = .ok digest) :
    entryDigest lib c t data = digest := by
  have htag := t.notDigest
  simp only [isDigestReference,isSome_eq_false_iff,isNone_iff_eq_none] at htag
  simp [entryDigest,Codec.cachedManifestDigest,storedMetadata,hm,hv,
    Codec.verifySupportedDigest.eq_def lib data t.tag,htag]

theorem entryDigest_of_unverified
    {error : DigestError} (hm : c.metadata (.v2 t.path) = .regular (some stored))
    (hv : lib.verifySupportedDigest data stored.dockerContentDigest = .error error) :
    entryDigest lib c t data = lib.digestOf .sha256 data := by
  have htag := t.notDigest
  simp only [isDigestReference,isSome_eq_false_iff,isNone_iff_eq_none] at htag
  simp [entryDigest,Codec.cachedManifestDigest,storedMetadata,hm,hv,
    Codec.verifySupportedDigest.eq_def lib data t.tag,htag]

variable {body : Data} {old : Text}

/-- While only the sidecar of a new manifest is in place the tag's entry maps to the new digest, or
to the SHA-256 digest it had; then to the new one. -/
theorem TagMaps.restored (hcf : lib.CollisionFree S) (hin : c.Within S)
    {host : Text}
    (hws : ws <+: [.metadata t.path stored,.manifest t.path body])
    (hv : lib.verifySupportedDigest body stored.dockerContentDigest =
      .ok stored.dockerContentDigest)
    (hsz : lib.size body ≤ maxManifestBytes) (hbd : body ∈ S)
    (hold : TagMaps lib c (t.cacheTarget host []) old)
    (hsha : ws = [.metadata t.path stored] → ∃ enc, old = digestText .sha256 enc)
    (hnew : RootComplete lib c (t.cacheTarget host []) ⟨false⟩ stored.dockerContentDigest) :
    TagMaps lib (c.writes ws) (t.cacheTarget host []) old ∨
      TagMaps lib (c.writes ws) (t.cacheTarget host []) stored.dockerContentDigest := by
  obtain ⟨data,graph,hf,hs,hd,hg⟩ := tagMaps_entry.1 hold
  rcases prefix_pair hws with rfl | rfl | rfl
  · exact .inl hold
  · -- the old manifest beside the new sidecar
    have hm : (c.writes [.metadata t.path stored]).metadata (.v2 t.path) = .regular (some stored) := by
      simp [Cache.write]
    cases hvd : lib.verifySupportedDigest data stored.dockerContentDigest with
    | ok canonical =>
      obtain rfl := hcf.eq (hin data ⟨_,hf⟩) hbd hvd hv
      exact .inr (tagMaps_entry.2 ⟨data,graph,hf,hs,entryDigest_of_verified hm hv,hg⟩)
    | error error =>
      refine .inl (tagMaps_entry.2 ⟨data,graph,hf,hs,?_,hg⟩)
      obtain ⟨a,-,ha⟩ := Codec.verifySupportedDigest_eq_ok.1 (entryDigest_verifies lib c t data)
      obtain ⟨enc,hsha⟩ := hsha rfl
      rw [hd,hsha] at ha
      obtain rfl := digestText_inj ha
      rw [entryDigest_of_unverified hm hvd,hsha,ha]
  · have hm : (c.writes [.metadata t.path stored,.manifest t.path body]).metadata (.v2 t.path) =
        .regular (some stored) := by simp [Cache.write]
    obtain ⟨image,⟨data',graph',_,held,-⟩,-⟩ := hnew
    obtain ⟨verified,hv'⟩ := held.verified
    obtain rfl := hcf.eq (hin data' held.holds) hbd hv' hv
    refine .inr (tagMaps_entry.2 ⟨data',graph',?_,hsz,entryDigest_of_verified hm hv,
      held.decoded⟩)
    simp [Cache.write]

/-- The tag maps to a root whose graph is complete for the platform. -/
structure TagComplete (lib : Codec Data) (c : Cache Data) (t : TagTarget) (host root : Text) :
    Prop where
  maps : TagMaps lib c (t.cacheTarget host []) root
  graph : RootComplete lib c (t.cacheTarget host []) ⟨false⟩ root

theorem inspectCached_tagComplete {host : Text} :
    (inspectCached lib c (t.cacheTarget host []) ⟨false⟩).complete ↔
      TagComplete lib c t host (inspectCached lib c (t.cacheTarget host []) ⟨false⟩).rootDigest := by
  rw [inspectCached_complete]
  constructor
  · rintro ⟨root,hm,hr⟩
    rw [inspectCached_rootDigest hm]
    exact ⟨hm,hr⟩
  · exact fun h => ⟨_,h.maps,h.graph⟩

theorem TagComplete.inspect {host : Text} (h : TagComplete lib c t host root) :
    (inspectCached lib c (t.cacheTarget host []) ⟨false⟩).complete ∧
      (inspectCached lib c (t.cacheTarget host []) ⟨false⟩).rootDigest = root :=
  ⟨inspectCached_complete.2 ⟨root,h.maps,h.graph⟩,inspectCached_rootDigest h.maps⟩

theorem TagComplete.writes (hcf : lib.CollisionFree S) (hin : c.Within S) {host : Text} (hw : ∀ w ∈ ws, w.Proper lib S ∧ w.Spares t)
    (h : TagComplete lib c t host root) : TagComplete lib (c.writes ws) t host root :=
  ⟨h.maps.writes fun w hm => (hw w hm).2,
    h.graph.keep (Keeps.writes hcf hin t.segment fun w hm => (hw w hm).1)⟩

theorem TagTarget.store_proper (t : TagTarget) (stored : ManifestMetadata)
    (hsz : lib.size body ≤ maxManifestBytes) (hbd : body ∈ S) :
    ∀ w ∈ [Write.metadata t.path stored,.manifest t.path body], w.Proper lib S := by
  intro w hw
  rcases mem_cons.1 hw with rfl | hw
  · exact ⟨trivial,fun _ _ h => by cases h⟩
  · obtain rfl := mem_singleton.1 hw
    refine ⟨⟨hsz,fun repository reference hm hd => ?_⟩,fun _ _ h => by cases h; exact hbd⟩
    rw [TagTarget.path,t.segment.manifestPathRe] at hm
    obtain ⟨-,rfl⟩ : t.repository = repository ∧ t.tag = reference := by simpa using hm
    simp [t.notDigest] at hd

/-- A tag over which a manifest of a complete graph is stored stays complete. -/
theorem TagComplete.restored (hcf : lib.CollisionFree S) (hin : c.Within S)
    {host : Text}
    (hws : ws <+: [.metadata t.path stored,.manifest t.path body])
    (hv : lib.verifySupportedDigest body stored.dockerContentDigest =
      .ok stored.dockerContentDigest)
    (hsz : lib.size body ≤ maxManifestBytes) (hbd : body ∈ S)
    (hold : TagComplete lib c t host old)
    (hsha : ws = [.metadata t.path stored] → ∃ enc, old = digestText .sha256 enc)
    (hnew : RootComplete lib c (t.cacheTarget host []) ⟨false⟩ stored.dockerContentDigest) :
    TagComplete lib (c.writes ws) t host old ∨
      TagComplete lib (c.writes ws) t host stored.dockerContentDigest := by
  have hke : Keeps lib c (c.writes ws) t.repository :=
    Keeps.writes hcf hin t.segment fun w hm => t.store_proper stored hsz hbd w (hws.subset hm)
  obtain h | h := TagMaps.restored hcf hin hws hv hsz hbd hold.maps hsha hnew
  · exact .inl ⟨h,hold.graph.keep hke⟩
  · exact .inr ⟨h,hnew.keep hke⟩

theorem TagTarget.canonical_ne {path : Text} (h : path ≠ t.path) :
    canonicalManifestRequestPath path ≠ t.path := by
  intro heq
  unfold canonicalManifestRequestPath at heq
  split at heq
  · rename_i repository reference hm
    split at heq
    · rename_i canonical hc
      have hcd : isDigestReference canonical := isDigestReference_of_supported
        (by simp [Supported,canonicalSupportedDigest_canonical hc])
      have hm' := manifestPathRe_canonical hm
      simp only [canonicalManifestRequestPath,hm,hc,heq,TagTarget.path,
        t.segment.manifestPathRe] at hm'
      obtain ⟨-,rfl⟩ : t.repository = repository ∧ t.tag = canonical := by simpa using hm'
      simp [t.notDigest] at hcd
    · exact h heq
  · exact h heq

theorem storeManifest_spares {path : Text} (h : path ≠ t.path) (e : Exchange Data)
    (metadata : ManifestMetadata) (data : Data) :
    ∀ w ∈ (storeManifest e path metadata data).1, w.Spares t := by
  intro w hw
  have hmem := (storeManifest_writes e path metadata data).subset hw
  rcases mem_cons.1 hmem with rfl | hmem
  · exact TagTarget.canonical_ne h
  · obtain rfl := mem_singleton.1 hmem
    exact TagTarget.canonical_ne h

theorem TagTarget.path_ne_manifest (t : TagTarget) {digest : Text}
    (hseg : Segment repository digest) (h : isDigestReference digest) :
    manifestRequestPath repository digest ≠ t.path := by
  intro heq
  obtain ⟨-,rfl⟩ := hseg.path_inj t.segment heq
  simp [t.notDigest] at h

theorem TagTarget.path_ne_blob (t : TagTarget) {digest : Text}
    (h : isDigestReference digest) : blobRequestPath repository digest ≠ t.path := by
  intro heq
  obtain ⟨hs,-,hcol⟩ := isDigestReference_plain h
  have hmarks : ("/v2/".toList++repository ++ "/blobs".toList) ++ '/' :: digest =
      ("/v2/".toList++t.repository ++ "/manifests".toList) ++ '/' :: t.tag := by
    simpa [TagTarget.path,manifestRequestPath_eq,blobRequestPath_eq] using heq
  obtain ⟨-,rfl⟩ := LastSplit.last_mark hmarks hs t.segment.reference_slash
  exact t.colon hcol

variable [DecidableEq Data] {host : Text}

theorem serveHTTP_proper {r : Request} (hr : r.Honest) :
    RequestWrites lib host (·.Within S) (Write.Proper lib S) r := by
  intro c e he w hw
  refine ⟨serveHTTP_sound lib c host e hr w hw,?_⟩
  rintro path data rfl
  cases serveHTTP_handled lib c host e r with
  | replayed _ hnil _ => simp [hnil] at hw
  | refused _ hnil _ => simp [hnil] at hw
  | blob digest data' _ _ _ hws _ =>
    rw [hws] at hw
    cases mem_singleton.1 hw
  | manifest resp data' metadata hf _ _ _ hval _ _ hsr =>
    obtain ⟨-,hnil,-⟩ | ⟨-,hws,-⟩ := hsr
    · simp [hnil] at hw
    · rw [hws] at hw
      obtain ⟨-,rfl⟩ : path = canonicalManifestRequestPath r.path ∧ data = data' := by
        simpa using (storeManifest_writes e r.path metadata data').subset hw
      exact he data ⟨resp,hf,(validateManifest_eq_ok hval).body⟩

theorem serveHTTP_spares {r : Request} (h : r.path ≠ t.path) (c : Cache Data)
    (e : Exchange Data) : ∀ w ∈ (serveHTTP lib c host e r).writes, w.Spares t := by
  intro w hw
  cases serveHTTP_handled lib c host e r with
  | replayed _ hnil _ => simp [hnil] at hw
  | refused _ hnil _ => simp [hnil] at hw
  | blob digest data _ _ _ hws _ =>
    rw [hws] at hw
    obtain rfl := mem_singleton.1 hw
    trivial
  | manifest resp data metadata _ _ _ _ _ _ _ hsr =>
    obtain ⟨-,hnil,-⟩ | ⟨-,hws,-⟩ := hsr
    · simp [hnil] at hw
    · rw [hws] at hw
      exact storeManifest_spares h e metadata data w hw

/-- A warm that follows supported digests writes, before the tag, past every tag's entry. -/
theorem warmManifestGraph_spares {ref : WarmReference} {finish : List Text → List Text}
    {platform : Platform} {es : List (Exchange Data)} {seen warmed : List Text}
    (he : ∀ e ∈ es, e.Within S)
    (hfoll : ∀ digest ∈ (warmManifestGraph lib host ref.repository finish platform es c body
      seen warmed).followed, Supported digest)
    (hdo : ∀ digest ∈ (warmManifestGraph lib host ref.repository finish platform es c body
      seen warmed).downloads, Supported digest) :
    ∀ w ∈ (warmManifestGraph lib host ref.repository finish platform es c body seen warmed).writes,
      w.Proper lib S ∧ w.Spares t := by
  refine warmManifestGraph_writes he (fun digest hd => ?_) (fun digest hd => ?_)
  · have hdig := isDigestReference_of_supported (hfoll digest hd)
    have hseg := ref.segment.of_digest hdig
    have hhonest := segment_honest hseg .get true false false
    exact fun c e he w hw => ⟨serveHTTP_proper hhonest c e he w hw,
      serveHTTP_spares (t.path_ne_manifest hseg hdig) c e w hw⟩
  · have hdig := isDigestReference_of_supported (hdo digest hd)
    have hhonest : (warmBlobRequest ref.repository digest).Honest := fun _ _ _ _ => rfl
    exact fun c e he w hw => ⟨serveHTTP_proper hhonest c e he w hw,
      serveHTTP_spares (t.path_ne_blob hdig) c e w hw⟩

omit [DecidableEq Data] in
/-- A prefix of two lists is a prefix of the first, or the first and a prefix of the second. -/
theorem prefix_append_cases {α : Type*} {l l₁ l₂ : List α} (h : l <+: l₁++l₂) :
    l <+: l₁ ∨ ∃ r, l = l₁++r ∧ r <+: l₂ := by
  rcases prefix_or_prefix_of_prefix h (prefix_append l₁ l₂) with h' | ⟨r,rfl⟩
  · exact .inl h'
  · exact .inr ⟨r,rfl,(prefix_append_right_inj l₁).1 h⟩

omit [DecidableEq Data] in
theorem publish_proper (ref : WarmReference) (arch : Text) (before : CacheStatus Data)
    (c : Cache Data) (es : List (Exchange Data)) {metadata : ManifestMetadata}
    (hsz : lib.size body ≤ maxManifestBytes) (hbd : body ∈ S)
    (hv : lib.verifySupportedDigest body metadata.dockerContentDigest =
      .ok metadata.dockerContentDigest) :
    ∀ w ∈ (publish lib ref arch before c es metadata body).writes, w.Proper lib S := by
  intro w hw
  refine ⟨publish_sound ref arch before c es hsz hv w hw,?_⟩
  rintro path data rfl
  have hstore : ∀ e path', Write.manifest path data ∈ (storeManifest e path' metadata body).1 →
      data ∈ S := by
    intro e path' hm
    obtain ⟨-,rfl⟩ : path = canonicalManifestRequestPath path' ∧ data = body := by
      simpa using (storeManifest_writes e path' metadata body).subset hm
    exact hbd
  obtain hnil | ⟨e,hws | ⟨-,-,e',hws⟩⟩ := publish_cases lib ref arch before c es metadata body
  · simp [hnil] at hw
  · exact hstore e _ (hws ▸ hw)
  · rw [hws] at hw
    exact (mem_append.1 hw).elim (hstore e _) (hstore e' _)

omit [DecidableEq Data] in
/-- A root whose graph is complete can be stored under its own tag: every tag stays complete. -/
theorem tag_publish_keeps (hcf : lib.CollisionFree S) (hin : c.Within S)
    {ref : WarmReference} (htag : ref.tag ≠ []) {arch enc : Text}
    {metadata : ManifestMetadata} (hsz : lib.size body ≤ maxManifestBytes)
    (hbd : body ∈ S) (hv : lib.verifySupportedDigest body metadata.dockerContentDigest =
      .ok metadata.dockerContentDigest)
    (hold : TagComplete lib c t arch old) (hsha : old = digestText .sha256 enc)
    (hcpl : (inspectCached lib c
      ⟨ref.repository,[],metadata.dockerContentDigest,(ref.target arch).platform⟩
      ⟨false⟩).complete)
    {e : Exchange Data} (hprp : ∀ w ∈ ws, w.Proper lib S)
    (hws : ws <+: (storeManifest e (manifestRequestPath ref.repository ref.tag) metadata body).1) :
    TagComplete lib (c.writes ws) t arch old ∨
      TagComplete lib (c.writes ws) t arch metadata.dockerContentDigest := by
  by_cases hpa : manifestRequestPath ref.repository ref.tag = t.path
  · obtain ⟨hrp,-⟩ := t.segment.path_inj (ref.tag_segment htag) hpa.symm
    obtain ⟨root,hro,hnew⟩ := inspectCached_complete.1 hcpl
    obtain rfl : root = metadata.dockerContentDigest := by simpa [TagMaps] using hro
    have hnew' : RootComplete lib c (t.cacheTarget arch []) ⟨false⟩
        metadata.dockerContentDigest := hnew.retarget hrp rfl
    have hpre := storeManifest_writes e (manifestRequestPath ref.repository ref.tag) metadata body
    rw [hpa,t.canonicalPath] at hpre
    have hdesc := describe_dockerContentDigest t.path metadata
    obtain h | h := TagComplete.restored hcf hin ((hpa ▸ hws).trans hpre) (by rwa [hdesc])
      hsz hbd hold (fun _ => ⟨enc,hsha⟩) (by rwa [hdesc])
    · exact .inl h
    · exact .inr (hdesc ▸ h)
  · exact .inl (hold.writes hcf hin fun w hm =>
      ⟨hprp w hm,storeManifest_spares hpa e metadata body w (hws.subset hm)⟩)

omit [DecidableEq Data] in
/-- Publishing a root keeps every tag complete; its tag maps to the root only once the graph is
complete. -/
theorem publish_keeps (hcf : lib.CollisionFree S) (hin : c.Within S)
    {ref : WarmReference}
    {arch enc : Text} {before : CacheStatus Data} {es : List (Exchange Data)}
    {metadata : ManifestMetadata} (hsz : lib.size body ≤ maxManifestBytes)
    (hbd : body ∈ S) (hv : lib.verifySupportedDigest body metadata.dockerContentDigest =
      .ok metadata.dockerContentDigest)
    (hold : TagComplete lib c t arch old) (hsha : old = digestText .sha256 enc)
    (hws : ws <+: (publish lib ref arch before c es metadata body).writes) :
    TagComplete lib (c.writes ws) t arch old ∨
      TagComplete lib (c.writes ws) t arch metadata.dockerContentDigest := by
  have hdig := isDigestReference_of_supported (Codec.supported_of_verify hv)
  have hseg := ref.segment.of_digest hdig
  have hprp := publish_proper ref arch before c es hsz hbd hv
  have hdige : ∀ e, ∀ w ∈ (storeManifest e (manifestRequestPath ref.repository
      metadata.dockerContentDigest) metadata body).1, w.Spares t := fun e =>
    storeManifest_spares (t.path_ne_manifest hseg hdig) e metadata body
  obtain hnil | ⟨e,hstore | ⟨htag,hcpl,e',hstore⟩⟩ :=
    publish_cases lib ref arch before c es metadata body
  · rw [hnil] at hws
    obtain rfl := prefix_nil.1 hws
    exact .inl hold
  · rw [hstore] at hws hprp
    exact .inl (hold.writes hcf hin fun w hm =>
      ⟨hprp w (hws.subset hm),hdige e w (hws.subset hm)⟩)
  · rw [hstore] at hws hprp
    obtain hws | ⟨r,rfl,hr⟩ := prefix_append_cases hws
    · exact .inl (hold.writes hcf hin fun w hm => ⟨hprp w (mem_append_left _ (hws.subset hm)),
        hdige e w (hws.subset hm)⟩)
    · -- the root is published and complete; `r` is what is written of the tag's entry
      have hin' := hin.writes fun w hm => hprp w (mem_append_left _ hm)
      have hold' := hold.writes hcf hin fun w hm =>
        ⟨hprp w (mem_append_left _ hm),hdige e w hm⟩
      rw [Cache.writes_append]
      exact tag_publish_keeps hcf hin' htag hsz hbd hv hold' hsha hcpl
        (fun w hm => hprp w (mem_append_right _ (hr.subset hm))) hr

/-- A complete tag stays so at every point of a warm that follows supported digests. It maps to its
old root or to the new one, whose graph is complete then. -/
theorem warm_keeps_tag_complete (lib : Codec Data) (host : Text)
    (finish : List Text → List Text) (c : Cache Data) (es : List (Exchange Data))
    (hcf : lib.CollisionFree (contents c es)) (ref : WarmReference) (architecture : Text)
    (refresh : Bool) (t : TagTarget) (encoded : Text)
    (hsup : ∀ digest, digest ∈ (warmOne lib host finish c es ref architecture refresh).followed ∨
      digest ∈ (warmOne lib host finish c es ref architecture refresh).downloads → Supported digest)
    (hc : (inspectCached lib c (t.cacheTarget architecture []) ⟨false⟩).complete = true)
    (hsha : (inspectCached lib c (t.cacheTarget architecture []) ⟨false⟩).rootDigest =
      digestText .sha256 encoded) (ws : List (Write Data))
    (hws : ws <+: (warmOne lib host finish c es ref architecture refresh).writes) :
    (inspectCached lib (c.writes ws) (t.cacheTarget architecture []) ⟨false⟩).complete = true ∧
    ((inspectCached lib (c.writes ws) (t.cacheTarget architecture []) ⟨false⟩).rootDigest =
        (inspectCached lib c (t.cacheTarget architecture []) ⟨false⟩).rootDigest ∨
      (inspectCached lib (c.writes ws) (t.cacheTarget architecture []) ⟨false⟩).rootDigest =
          warmRoot lib host c es ref ∧
        RootComplete lib (c.writes ws) (t.cacheTarget architecture []) ⟨false⟩
          (warmRoot lib host c es ref)) := by
  have hold := inspectCached_tagComplete.mp hc
  have hin : c.Within (contents c es) := fun data h => .inl h
  suffices h : ∃ root, TagComplete lib (c.writes ws) t architecture root ∧
      (root = (inspectCached lib c (t.cacheTarget architecture []) ⟨false⟩).rootDigest ∨
        root = warmRoot lib host c es ref) by
    obtain ⟨root,htag,hroot⟩ := h
    obtain ⟨hcpl,hdige⟩ := htag.inspect
    refine ⟨hcpl,?_⟩
    rcases hroot with hsame | hmvd
    · exact .inl (hdige.trans hsame)
    · have hgraph := htag.graph
      rw [hmvd] at hgraph
      exact .inr ⟨hdige.trans hmvd,hgraph⟩
  obtain hnil | ⟨body,metadata,graph,hw⟩ :=
    warmOne_cases lib host finish c es ref architecture refresh
  · rw [hnil] at hws
    obtain rfl := prefix_nil.mp hws
    exact ⟨_,hold,.inl rfl⟩
  · obtain ⟨es',hsub,hgraph⟩ := hw.warmed
    rw [hw.followed,hw.downloads] at hsup
    have hspares : ∀ w ∈ graph.writes, w.Proper lib (contents c es) ∧ w.Spares t := by
      rw [hgraph] at hsup ⊢
      exact warmManifestGraph_spares (fun e hm data h => .inr ⟨e,hsub hm,h⟩) (fun digest hd => hsup digest (.inl hd))
        (fun digest hd => hsup digest (.inr hd))
    obtain hwrites | ⟨before,es'',hwrites⟩ := hw.writes
    · rw [hwrites] at hws
      exact ⟨_,hold.writes hcf hin fun w hm => hspares w (hws.subset hm),.inl rfl⟩
    · rw [hwrites] at hws
      obtain hws | ⟨r,rfl,hr⟩ := prefix_append_cases hws
      · exact ⟨_,hold.writes hcf hin fun w hm => hspares w (hws.subset hm),.inl rfl⟩
      · have hgraph' := hold.writes hcf hin hspares
        obtain h | h := publish_keeps hcf (hin.writes fun w hm => (hspares w hm).1) hw.size
          hw.origin hw.verified hgraph' hsha hr
        · exact ⟨_,Cache.writes_append c graph.writes r ▸ h,.inl rfl⟩
        · exact ⟨_,Cache.writes_append c graph.writes r ▸ h,.inr hw.root⟩

namespace Sample

theorem collisionFree (S : Set Sample) : codec.CollisionFree S := by
  intro a s _ s' _ h
  have hmk : s.mark = s'.mark := (cons.inj h).1
  cases s <;> cases s' <;> first | rfl | exact absurd hmk (by decide)

/-- A refresh of the cached tag that meets these answers. -/
def refresh (answers : List Sample) : WarmRun Sample :=
  warmOne codec "arm64".toList id cache (answers.map online) reference "arm64".toList true

def status (c : Cache Sample) : CacheStatus Sample :=
  inspectCached codec c (tag.cacheTarget "arm64".toList []) ⟨false⟩

lemma status_cache : (status cache).complete ∧
    (status cache).rootDigest = digestText .sha256 (sum .sha256 .index) := by
  decide +kernel

theorem refresh_moved : (refresh [.moved,.straying,.moved,.moved]).followed = [] ∧
    (refresh [.moved,.straying,.moved,.moved]).downloads = [straying.digest] ∧
    (refresh [.moved,.straying,.moved,.moved]).writes.length = 5 := by
  decide +kernel

end Sample

/-- The process is killed in front of the last file. -/
theorem sample_refresh_keeps_tag :
    (Sample.refresh [.moved,.straying,.moved,.moved]).writes.length = 5 ∧
    (Sample.status (Sample.cache.writes
      (Sample.refresh [.moved,.straying,.moved,.moved]).writes.dropLast)).complete = true := by
  obtain ⟨hf,hd,hlen⟩ := Sample.refresh_moved
  have hsup : ∀ digest,
      digest ∈ (Sample.refresh [.moved,.straying,.moved,.moved]).followed ∨
        digest ∈ (Sample.refresh [.moved,.straying,.moved,.moved]).downloads →
      Supported digest := by
    intro digest h
    obtain rfl := mem_singleton.mp (h.resolve_left not_mem_nil)
    decide
  obtain ⟨hc,hsha⟩ := Sample.status_cache
  have hkeep := warm_keeps_tag_complete Sample.codec "arm64".toList id Sample.cache
    ([Sample.moved,Sample.straying,Sample.moved,Sample.moved].map Sample.online)
    (Sample.collisionFree _) Sample.reference "arm64".toList true Sample.tag
    (Sample.sum .sha256 .index) hsup hc hsha _ ( dropLast_prefix _)
  exact ⟨hlen,hkeep.1⟩

/-- A manifest may list the tag itself. The child is then stored over the tag's entry, with nothing
of it cached. -/
theorem looping_descriptor_breaks_tag :
    (Sample.status Sample.cache).complete = true ∧
    (Sample.status Sample.cache).rootDigest = digestText .sha256 (Sample.sum .sha256 .index) ∧
    (Sample.status (Sample.cache.writes (Sample.refresh [.looping,.moved]).writes)).complete =
      false :=
  ⟨Sample.status_cache.1,Sample.status_cache.2,by decide +kernel⟩

end TalosBox.Mirror
