import TalosBox.MirrorCache

/-! What a complete image is. `InspectCached` decides it up to a walk that ends in a manifest which
is no index to it and has no config. -/
open List

namespace TalosBox.Mirror

variable {Data : Type}

/-- A manifest of the repository is cached under the digest, has it, and decodes. -/
structure Held (lib : Codec Data) (c : Cache Data) (repository digest : Text) (data : Data)
    (graph : CachedGraph) : Prop where
  supported : Supported digest
  cached : ∃ file, checkedCachedManifest lib c (manifestRequestPath repository digest) =
    .ok (data,file)
  verified : ∃ canonical, lib.verifySupportedDigest data digest = .ok canonical
  decoded : decodeManifestGraph lib data = .ok graph

/-- Following the first descriptor of the platform through cached indexes to a graph that is none.
-/
inductive Walk (lib : Codec Data) (c : Cache Data) (target : CacheTarget) :
    List Text → CachedGraph → CachedGraph → Prop
  | image {graph : CachedGraph} (h : isManifestIndex graph = false) : Walk lib c target [] graph graph
  | follow {graph child image : CachedGraph} {selected : PlatformDescriptor} {data : Data}
      {digests : List Text}
      (select : selectPlatformDescriptor graph.manifests target.platform = some selected)
      (held : Held lib c target.repository selected.digest data child)
      (rest : Walk lib c target digests child image) :
      Walk lib c target (selected.digest::digests) graph image

/-- The target's root digest; for a tag, the one its cached and verified entry maps to. -/
def TagMaps (lib : Codec Data) (c : Cache Data) (target : CacheTarget) (root : Text) : Prop :=
  if target.tag = [] then root = target.digest
  else ∃ data file graph,
    checkedCachedManifest lib c (manifestRequestPath target.repository target.tag) =
      .ok (data,file) ∧
    lib.verifySupportedDigest data (tagDigest lib c
      (manifestRequestPath target.repository target.tag) file data) = .ok root ∧
    (target.digest = [] ∨ target.digest = root) ∧ decodeManifestGraph lib data = .ok graph

def BlobHeld (lib : Codec Data) (c : Cache Data) (opts : InspectOptions) (digest : Text) : Prop :=
  Supported digest ∧ ∃ data, c.blobs (blobPath digest) = .regular data ∧
    (opts.deep → ∃ canonical, lib.verifySupportedDigest data digest = .ok canonical)

/-- From the root over at most `maxSelectedIndexDepth` indexes, none met twice. -/
def Reaches (lib : Codec Data) (c : Cache Data) (target : CacheTarget) (root : Text)
    (image : CachedGraph) : Prop :=
  ∃ data graph digests, Held lib c target.repository root data graph ∧
    Walk lib c target digests graph image ∧ digests.length ≤ maxSelectedIndexDepth ∧
    (root::digests).Nodup

/-- The image a pull needs: an image manifest with its config and all its layers. -/
def ImageHeld (lib : Codec Data) (c : Cache Data) (target : CacheTarget) (opts : InspectOptions) :
    Prop :=
  ∃ root image, TagMaps lib c target root ∧ Reaches lib c target root image ∧
    image.config ≠ [] ∧ BlobHeld lib c opts image.config ∧
    ∀ layer ∈ image.layers, BlobHeld lib c opts layer

/-- The walk ends in a manifest without a config, and the layers it names are there. -/
def Hollow (lib : Codec Data) (c : Cache Data) (target : CacheTarget) (opts : InspectOptions) :
    Prop :=
  ∃ root image, TagMaps lib c target root ∧ Reaches lib c target root image ∧
    image.config = [] ∧ ∀ layer ∈ image.layers, BlobHeld lib c opts layer

variable {lib : Codec Data} {c : Cache Data} {target : CacheTarget} {opts : InspectOptions}
  {root : Text} {image : CachedGraph}

variable {graph : CachedGraph} {digest : Text} {data : Data}

theorem Held.unique {repo : Text} {data' : Data} {graph' : CachedGraph}
    (h : Held lib c repo digest data graph) (h' : Held lib c repo digest data' graph') :
    data = data' ∧ graph = graph' := by
  obtain ⟨file,hf⟩ := h.cached
  obtain ⟨file',hf'⟩ := h'.cached
  obtain ⟨rfl,-⟩ : data = data' ∧ file = file' := by simpa [hf] using hf'
  exact ⟨rfl,by simpa [h.decoded] using h'.decoded⟩

theorem TagMaps.unique {root' : Text} (h : TagMaps lib c target root)
    (h' : TagMaps lib c target root') : root = root' := by
  unfold TagMaps at h h'
  split at h
  · rename_i ht
    rw [if_pos ht] at h'
    rw [h,h']
  · rename_i ht
    rw [if_neg ht] at h'
    obtain ⟨data,file,-,hrd,hv,-⟩ := h
    obtain ⟨data',file',-,hrd',hv',-⟩ := h'
    obtain ⟨rfl,rfl⟩ : data = data' ∧ file = file' := by simpa [hrd] using hrd'
    simpa [hv] using hv'

theorem checkedCachedManifest_canonical (lib : Codec Data) (c : Cache Data)
    {repo reference : Text} (hseg : Segment repo reference)
    (h : canonicalSupportedDigest reference = some digest) :
    checkedCachedManifest lib c (manifestRequestPath repo digest) =
      checkedCachedManifest lib c (manifestRequestPath repo reference) := by
  have hdig : isDigestReference digest := isDigestReference_of_supported
    (by simp [Supported,canonicalSupportedDigest_canonical h])
  have hseg' := hseg.of_digest hdig
  have hpa : canonicalManifestRequestPath (manifestRequestPath repo digest) =
      canonicalManifestRequestPath (manifestRequestPath repo reference) := by
    rw [hseg.canonicalManifestRequestPath,hseg'.canonicalManifestRequestPath,h,
      canonicalSupportedDigest_canonical h]
    rfl
  have hfl : manifestPath (manifestRequestPath repo digest) =
      manifestPath (manifestRequestPath repo reference) := by rw [manifestPath,hpa,manifestPath]
  have hleg : legacyManifestFallbackPath (manifestRequestPath repo digest) =
      legacyManifestFallbackPath (manifestRequestPath repo reference) := by
    simp only [legacyManifestFallbackPath,legacyManifestPath,hpa]
  have hspl := splitDigestReference_canonical h
  have href : isDigestReference digest = isDigestReference reference := by
    rw [isDigestReference,hspl,isDigestReference]
  unfold checkedCachedManifest
  rw [hfl,hleg,hseg.manifestReference,hseg'.manifestReference,href]
  simp only [Codec.verify_congr hspl]

theorem Walk.unique {digests digests' : List Text} {image' : CachedGraph}
    (h : Walk lib c target digests graph image) (h' : Walk lib c target digests' graph image') :
    digests = digests' ∧ image = image' := by
  induction h generalizing digests' with
  | image hg =>
    cases h' with
    | image _ => exact ⟨rfl,rfl⟩
    | follow hs _ _ => simp [isManifestIndex_of_select hs] at hg
  | follow hs held _ ih =>
    cases h' with
    | image hg => simp [isManifestIndex_of_select hs] at hg
    | follow hs' held' rest' =>
      cases (hs.symm.trans hs')
      obtain ⟨-,rfl⟩ := held.unique held'
      obtain ⟨rfl,rfl⟩ := ih rest'
      exact ⟨rfl,rfl⟩

/-- Each digest followed is held, and the walk goes on from it with fewer to follow. -/
theorem Walk.mem {digests : List Text}
    (h : Walk lib c target digests graph image) (hd : digest ∈ digests) :
    ∃ data child digests', Held lib c target.repository digest data child ∧
      Walk lib c target digests' child image ∧ digests'.length < digests.length := by
  induction h with
  | image _ => simp at hd
  | follow hs held rest ih =>
    rcases mem_cons.1 hd with rfl | hd
    · exact ⟨_,_,_,held,rest,by simp⟩
    · obtain ⟨data,child,digests',hh,hw,hl⟩ := ih hd
      exact ⟨data,child,digests',hh,hw,by simp only [length_cons]; omega⟩

/-- A walk that arrives has met no digest twice: from there it would never have ended. -/
theorem Walk.nodup {digests : List Text}
    (h : Walk lib c target digests graph image)
    (held : Held lib c target.repository root data graph) : (root::digests).Nodup := by
  induction h generalizing root data with
  | image _ => simp
  | @follow graph child image selected data' digests hs hhl rest ih =>
    refine nodup_cons.2 ⟨fun hmem => ?_,ih hhl⟩
    have hwk := Walk.follow hs hhl rest
    obtain ⟨data₀,child₀,digests₀,hh,hw,hl⟩ := hwk.mem hmem
    obtain ⟨-,rfl⟩ := hh.unique held
    obtain ⟨rfl,-⟩ := hw.unique hwk
    exact lt_irrefl _ hl

theorem inspectTag_eq_ok : inspectTag lib c target = .ok root ↔ TagMaps lib c target root := by
  unfold inspectTag TagMaps
  split
  · simp [eq_comm]
  · constructor
    · intro h
      dsimp only at h
      split at h
      · cases h
      · rename_i data file hrd
        split at h
        · cases h
        · rename_i mapped hv
          split at h
          · cases h
          · rename_i hpin
            split at h
            · cases h
            · rename_i graph hg
              obtain rfl : mapped = root := by simpa using h
              refine ⟨data,file,graph,hrd,hv,?_,hg⟩
              by_contra hne
              exact hpin ⟨fun h => hne (.inl h),fun h => hne (.inr h.symm)⟩
    · rintro ⟨data,file,graph,hrd,hv,hpin,hg⟩
      have : ¬ (target.digest ≠ [] ∧ root ≠ target.digest) := by
        rintro ⟨h₁,h₂⟩
        rcases hpin with h | h
        · exact h₁ h
        · exact h₂ h.symm
      simp only [hrd,hv,if_neg this,hg]

theorem inspectBlob_eq_nil {kind : CacheGapKind} :
    inspectBlob lib c opts kind digest = [] ↔ BlobHeld lib c opts digest := by
  unfold inspectBlob BlobHeld
  cases hd : checkedSupportedDigest digest with
  | error e => simp [supported_iff,hd]
  | ok p =>
    have hs : Supported digest := supported_iff.2 ⟨p.1,p.2,hd⟩
    cases c.blobs (blobPath digest) with
    | missing => simp
    | irregular => simp
    | regular data =>
      cases hdeep : opts.deep with
      | false => simp [hs]
      | true => cases hv : lib.verifySupportedDigest data digest <;> simp [hs,hv]

theorem inspectBlobs_eq_nil : inspectBlobs lib c opts image = [] ↔
    (image.config ≠ [] → BlobHeld lib c opts image.config) ∧
      ∀ layer ∈ image.layers, BlobHeld lib c opts layer := by
  unfold inspectBlobs
  split <;> simp_all [inspectBlob_eq_nil]

/-- The walk of `inspectSelectedManifest` succeeds with the graph it arrives at. -/
theorem inspectSelectedManifest_eq_ok {depth : ℕ} {visited : List Text}
    {selected : PlatformDescriptor} :
    inspectSelectedManifest lib c target depth visited selected = .ok image ↔
      ∃ data child digests, Held lib c target.repository selected.digest data child ∧
        Walk lib c target digests child image ∧ digests.length < depth ∧
        ∀ digest ∈ selected.digest::digests, digest ∉ visited := by
  induction depth generalizing visited selected with
  | zero => simp [inspectSelectedManifest]
  | succ depth ih =>
    constructor
    · intro h
      simp only [inspectSelectedManifest] at h
      split at h
      · cases h
      rename_i p hp
      split at h
      · cases h
      rename_i hvis
      split at h
      · cases h
      rename_i child file hrd
      split at h
      · cases h
      rename_i verified hv
      split at h
      · cases h
      rename_i decoded hg
      have held : Held lib c target.repository selected.digest child decoded :=
        ⟨supported_iff.2 ⟨p.1,p.2,hp⟩,⟨file,hrd⟩,⟨verified,hv⟩,hg⟩
      split at h
      · rename_i hidx
        split at h
        · cases h
        rename_i next hnx
        obtain ⟨data,child',digests,hh,hw,hl,hdis⟩ := ih.1 h
        refine ⟨child,decoded,next.digest::digests,held,.follow hnx hh hw,?_,?_⟩
        · simpa using hl
        · intro digest hm
          rcases mem_cons.1 hm with rfl | hm
          · exact hvis
          · exact fun hin => hdis digest hm (mem_cons_of_mem _ hin)
      · rename_i hidx
        obtain rfl : decoded = image := by simpa using h
        refine ⟨child,decoded,[],held,.image (by simpa using hidx),by simp,?_⟩
        simpa using hvis
    · rintro ⟨data,child,digests,held,hw,hl,hdis⟩
      obtain ⟨a,enc,hp⟩ := supported_iff.1 held.supported
      obtain ⟨file,hrd⟩ := held.cached
      obtain ⟨verified,hv⟩ := held.verified
      have hvis : selected.digest ∉ visited := hdis _ (by simp)
      simp only [inspectSelectedManifest,hp,if_neg hvis,hrd,hv,held.decoded]
      have hnd := hw.nodup held
      cases hw with
      | image hg => simp [hg]
      | @follow _ child' _ next data' digests' hs hh hw =>
        simp only [isManifestIndex_of_select hs,hs]
        refine ih.2 ⟨data',child',digests',hh,hw,by simpa using hl,?_⟩
        intro digest hm hin
        rcases mem_cons.1 hin with rfl | hin
        · exact (nodup_cons.1 hnd).1 hm
        · exact hdis digest (mem_cons_of_mem _ hm) hin

/-- The cache holds the root's graph up to an image with all the blobs it names. -/
def RootComplete (lib : Codec Data) (c : Cache Data) (target : CacheTarget)
    (opts : InspectOptions) (root : Text) : Prop :=
  ∃ image, Reaches lib c target root image ∧
    (image.config ≠ [] → BlobHeld lib c opts image.config) ∧
    ∀ layer ∈ image.layers, BlobHeld lib c opts layer

theorem inspectRoot_complete : (inspectRoot lib c target opts root).complete ↔
    RootComplete lib c target opts root := by
  constructor
  · intro h
    unfold inspectRoot at h
    split at h
    · cases h
    rename_i p hp
    dsimp only at h
    split at h
    · cases h
    rename_i data file hrd
    split at h
    · cases h
    rename_i verified hv
    split at h
    · cases h
    rename_i graph hg
    have held : Held lib c target.repository root data graph :=
      ⟨supported_iff.2 ⟨p.1,p.2,hp⟩,⟨file,hrd⟩,⟨verified,hv⟩,hg⟩
    split at h
    · rename_i selected hs
      split at h
      · cases h
      rename_i image himg
      obtain ⟨data',child,digests,hh,hw,hl,-⟩ := inspectSelectedManifest_eq_ok.1 himg
      have hwk := Walk.follow hs hh hw
      refine ⟨image,⟨data,graph,_,held,hwk,by simpa using hl,hwk.nodup held⟩,?_⟩
      exact inspectBlobs_eq_nil.1 (isEmpty_iff.1 h)
    · split at h
      · cases h
      rename_i hidx
      have hwk : Walk lib c target [] graph graph := .image (by simpa using hidx)
      refine ⟨graph,⟨data,graph,[],held,hwk,by simp,hwk.nodup held⟩,?_⟩
      exact inspectBlobs_eq_nil.1 (isEmpty_iff.1 h)
  · rintro ⟨image,⟨data,graph,digests,held,hw,hl,hnd⟩,hblobs⟩
    obtain ⟨a,enc,hp⟩ := supported_iff.1 held.supported
    obtain ⟨file,hrd⟩ := held.cached
    obtain ⟨verified,hv⟩ := held.verified
    have hgaps := inspectBlobs_eq_nil.2 hblobs
    simp only [inspectRoot,hp,hrd,hv,held.decoded]
    cases hw with
    | image hg =>
      have hno : selectPlatformDescriptor image.manifests target.platform = none := by
        cases hs : selectPlatformDescriptor image.manifests target.platform with
        | none => rfl
        | some selected => simp [isManifestIndex_of_select hs] at hg
      simp [hno,hg,CacheStatus.complete,hgaps]
    | @follow _ child _ selected data' digests' hs hh hw =>
      have hok : inspectSelectedManifest lib c target maxSelectedIndexDepth [root] selected =
          .ok image := by
        refine inspectSelectedManifest_eq_ok.2 ⟨data',child,digests',hh,hw,by simpa using hl,?_⟩
        intro digest hm hro
        obtain rfl := mem_singleton.1 hro
        exact (nodup_cons.1 hnd).1 hm
      simp [hs,hok,CacheStatus.complete,hgaps]

theorem inspectCached_complete : (inspectCached lib c target opts).complete ↔
    ∃ root, TagMaps lib c target root ∧ RootComplete lib c target opts root := by
  unfold inspectCached
  cases h : inspectTag lib c target with
  | error gap =>
    refine iff_of_false (by simp [CacheStatus.complete]) ?_
    rintro ⟨root,hm,-⟩
    simp [inspectTag_eq_ok.2 hm] at h
  | ok root =>
    have hm := inspectTag_eq_ok.1 h
    simp only [inspectRoot_complete]
    constructor
    · exact fun hr => ⟨root,hm,hr⟩
    · rintro ⟨root',hm',hr⟩
      rwa [hm.unique hm']

theorem inspectRoot_rootDigest (lib : Codec Data) (c : Cache Data) (target : CacheTarget)
    (opts : InspectOptions) (root : Text) :
    (inspectRoot lib c target opts root).rootDigest = root := by
  unfold inspectRoot
  dsimp only
  repeat' split
  all_goals rfl

theorem inspectCached_rootDigest (h : TagMaps lib c target root) :
    (inspectCached lib c target opts).rootDigest = root := by
  rw [inspectCached,inspectTag_eq_ok.2 h]
  exact inspectRoot_rootDigest lib c target opts root

theorem inspectRoot_manifestData (held : Held lib c target.repository root data graph) :
    (inspectRoot lib c target opts root).manifestData = some data := by
  obtain ⟨a,enc,hp⟩ := supported_iff.1 held.supported
  obtain ⟨file,hrd⟩ := held.cached
  obtain ⟨verified,hv⟩ := held.verified
  simp only [inspectRoot,hp,hrd,hv]
  repeat' split
  all_goals rfl

theorem inspectCached_manifestData
    (hm : TagMaps lib c target root) (held : Held lib c target.repository root data graph) :
    (inspectCached lib c target opts).manifestData = some data := by
  rw [inspectCached,inspectTag_eq_ok.2 hm]
  exact inspectRoot_manifestData held

theorem Reaches.unique {image' : CachedGraph} (h : Reaches lib c target root image)
    (h' : Reaches lib c target root image') : image = image' := by
  obtain ⟨data,graph,digests,held,hw,-⟩ := h
  obtain ⟨data',graph',digests',held',hw',-⟩ := h'
  obtain ⟨-,rfl⟩ := held.unique held'
  exact (hw.unique hw').2

/-- `InspectCached` reports exactly the pullable images complete, unless the walk ends without a
config. -/
theorem inspectCached_complete_iff_imageHeld (lib : Codec Data) (c : Cache Data)
    (target : CacheTarget) (opts : InspectOptions) :
    ((inspectCached lib c target opts).complete = true ↔ ImageHeld lib c target opts) ↔
      ¬ Hollow lib c target opts := by
  constructor
  · rintro h ⟨root,image,hm,hr,hcfg,hlayers⟩
    have hcpl : (inspectCached lib c target opts).complete = true :=
      inspectCached_complete.mpr ⟨root,hm,image,hr,fun hne => absurd hcfg hne,hlayers⟩
    obtain ⟨root',image',hm',hr',hne,-⟩ := h.mp hcpl
    obtain rfl := hm.unique hm'
    obtain rfl := hr.unique hr'
    exact hne hcfg
  · intro hollow
    rw [inspectCached_complete]
    constructor
    · rintro ⟨root,hm,image,hr,hcfg,hlayers⟩
      have hne : image.config ≠ [] := fun h => hollow ⟨root,image,hm,hr,h,hlayers⟩
      exact ⟨root,image,hm,hr,hne,hcfg hne,hlayers⟩
    · rintro ⟨root,image,hm,hr,hne,hcfg,hlayers⟩
      exact ⟨root,hm,image,hr,fun _ => hcfg,hlayers⟩

/-- One manifest, the bytes `{"schemaVersion":2,"manifests":[]}`. -/
def emptyIndexCodec : Codec Unit where
  size _ := 33
  sum a _ := replicate a.width '0'
  isSum a _ := ⟨fun c hc => by rw [eq_of_mem_replicate hc]; decide,by simp⟩
  unmarshal _ := some ⟨2,[],some [],none,none⟩
  unmarshalMediaType _ := some []
  jsonValid _ := true
  markup _ := false
  parseMediaType s := (s,true)
  trimSpace s := s

def emptyIndexTarget : CacheTarget := ⟨"alpine".toList,"v1".toList,[],⟨"linux".toList,"arm64".toList⟩⟩

/-- The manifest is cached under its tag and its digest. -/
def emptyIndexCache : Cache Unit :=
  { (Cache.empty : Cache Unit) with
    manifests := fun file =>
      if file = .v2 (manifestRequestPath "alpine".toList "v1".toList) ∨
          file = .v2 (manifestRequestPath "alpine".toList (emptyIndexCodec.digestOf .sha256 ()))
      then .regular () else .missing }

/-- An index without entries counts as complete: nothing can be pulled of it. -/
theorem inspectCached_empty_index :
    (inspectCached emptyIndexCodec emptyIndexCache emptyIndexTarget ⟨false⟩).complete = true ∧
      ¬ ImageHeld emptyIndexCodec emptyIndexCache emptyIndexTarget ⟨false⟩ := by
  refine ⟨by decide,?_⟩
  rintro ⟨root,image,-,⟨data,graph,digests,held,hw,-⟩,hcfg,-⟩
  obtain rfl : (⟨2,[],[],[],[]⟩ : CachedGraph) = graph := by
    simpa [decodeManifestGraph,emptyIndexCodec,validateManifestStructure,manifestGraphIsIndex,contains,validateDigests] using held.decoded
  cases hw with
  | image _ => exact hcfg rfl
  | follow hs _ _ => simp [selectPlatformDescriptor,matchingPlatformDescriptors] at hs

end TalosBox.Mirror
