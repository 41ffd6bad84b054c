import TalosBox.MirrorPaths

/-! The mirror's cache directory, the manifest graphs in it, and the walk that decides whether an
image is complete. File contents are of any type; what the libraries compute from them is a `Codec`.
-/
namespace TalosBox.Mirror

structure Platform where
  os : Text
  architecture : Text
  deriving DecidableEq

/-- A descriptor of an index, with its platform. -/
structure PlatformDescriptor where
  digest : Text
  architecture : Text
  os : Text
  deriving DecidableEq

/-- A manifest as `json.Unmarshal` leaves it: an absent field is `none`. -/
structure RawManifestGraph where
  schemaVersion : ℤ
  mediaType : Text
  manifests : Option (List PlatformDescriptor)
  config : Option Text
  layers : Option (List Text)
  deriving DecidableEq

structure CachedGraph where
  schemaVersion : ℤ
  mediaType : Text
  manifests : List PlatformDescriptor
  /-- The digest of the config descriptor, empty where there is none. -/
  config : Text
  layers : List Text
  deriving DecidableEq

/-- What the libraries make of a file's bytes. -/
structure Codec (Data : Type) where
  size : Data → ℕ
  sum : Algorithm → Data → Text
  isSum : ∀ a data, IsSum a (sum a data)
  unmarshal : Data → Option RawManifestGraph
  /-- The `mediaType` field alone. -/
  unmarshalMediaType : Data → Option Text
  jsonValid : Data → Bool
  /-- The first character that is not space is `<`. -/
  markup : Data → Bool
  /-- `mime.ParseMediaType`: the type, and whether there was no error. -/
  parseMediaType : Text → Text × Bool
  trimSpace : Text → Text

variable {Data : Type}

namespace Codec

variable (lib : Codec Data)

def digestOf (a : Algorithm) (data : Data) : Text := digestText a (lib.sum a data)

def verifySupportedDigest (data : Data) (reference : Text) : Except DigestError Text :=
  match splitDigestReference reference with
  | none => .error .invalid
  | some (algorithm,encoded) =>
    match supportedAlgorithm algorithm with
    | none => .error (.unsupported algorithm)
    | some a =>
      if encoded ≠ lib.sum a data then .error (.content (lib.digestOf a data))
      else .ok (digestText a encoded)

/-- The digest under the reference's own algorithm, where the mirror can check that one. -/
def digestOfAs (reference : Text) (data : Data) : Option Text :=
  match splitDigestReference reference with
  | none => none
  | some (algorithm,_) => (supportedAlgorithm algorithm).map (lib.digestOf · data)

/-- The requested digest if the bytes have it, else the stored one, else their SHA-256. -/
def cachedManifestDigest (data : Data) (requestedReference storedDigest : Text) : Text :=
  match lib.verifySupportedDigest data requestedReference with
  | .ok canonical => canonical
  | .error _ =>
    match lib.verifySupportedDigest data storedDigest with
    | .ok canonical => canonical
    | .error _ => lib.digestOf .sha256 data

variable {lib} {data : Data} {reference digest : Text}

theorem verifySupportedDigest_eq_ok : lib.verifySupportedDigest data reference = .ok digest ↔
    ∃ a, splitDigestReference reference = some (a.name,lib.sum a data) ∧
      digest = lib.digestOf a data := by
  constructor
  · intro h
    unfold verifySupportedDigest at h
    split at h
    · cases h
    · rename_i algorithm encoded hs
      split at h
      · cases h
      · rename_i a ha
        split at h
        · cases h
        · rename_i he
          have he : encoded = lib.sum a data := by simpa using he
          refine ⟨a,by rw [hs,supportedAlgorithm_eq_some ha,he],?_⟩
          simpa [digestOf,he] using h.symm
  · rintro ⟨a,hs,rfl⟩
    simp [verifySupportedDigest,hs,digestOf]

@[simp] lemma verifySupportedDigest_digestOf (a : Algorithm) :
    lib.verifySupportedDigest data (lib.digestOf a data) = .ok (lib.digestOf a data) :=
  verifySupportedDigest_eq_ok.2 ⟨a,splitDigestReference_digestText (lib.isSum a data),rfl⟩

/-- A verified reference is a supported one, and the answer is its canonical form. -/
theorem canonical_of_verify (h : lib.verifySupportedDigest data reference = .ok digest) :
    canonicalSupportedDigest reference = some digest := by
  obtain ⟨a,hs,rfl⟩ := verifySupportedDigest_eq_ok.1 h
  exact canonicalSupportedDigest_eq_some.2 ⟨a,_,hs,lib.isSum a data,rfl⟩

theorem verify_canonical (h : lib.verifySupportedDigest data reference = .ok digest) :
    lib.verifySupportedDigest data digest = .ok digest := by
  obtain ⟨a,-,rfl⟩ := verifySupportedDigest_eq_ok.1 h
  exact verifySupportedDigest_digestOf a

theorem verify_congr {reference' : Text}
    (h : splitDigestReference reference = splitDigestReference reference') :
    lib.verifySupportedDigest data reference = lib.verifySupportedDigest data reference' := by
  simp only [verifySupportedDigest,h]

lemma supported_of_verify (h : lib.verifySupportedDigest data reference = .ok digest) :
    Supported reference := by
  simp [Supported,canonical_of_verify h]

/-- The digest given for cached bytes is one they have. -/
theorem verify_cachedManifestDigest (data : Data) (requested stored : Text) :
    lib.verifySupportedDigest data (lib.cachedManifestDigest data requested stored) =
      .ok (lib.cachedManifestDigest data requested stored) := by
  unfold cachedManifestDigest
  split
  · rename_i canonical h
    exact verify_canonical h
  · split
    · rename_i canonical h
      exact verify_canonical h
    · exact verifySupportedDigest_digestOf .sha256

end Codec

inductive GraphError
  | decode
  | schemaVersion (found : ℤ)
  | missingManifests
  | manifestDigest (index : ℕ) (error : DigestError)
  | missingConfig
  | configDigest (error : DigestError)
  | missingLayers
  | layerDigest (index : ℕ) (error : DigestError)
  deriving DecidableEq

def contains (s sub : Text) : Bool := decide (sub <:+: s)

def namesIndex (mediaType : Text) : Bool :=
  contains mediaType "index".toList || contains mediaType "manifest.list".toList

/-- How validation tells an index: by its media type, and failing that by the field. -/
def manifestGraphIsIndex (graph : RawManifestGraph) : Bool :=
  if namesIndex graph.mediaType then true
  else if contains graph.mediaType "image.manifest".toList ||
      contains graph.mediaType "manifest.v2".toList then false
  else graph.manifests.isSome

/-- How the walks tell an index: by its entries or its media type. -/
def isManifestIndex (graph : CachedGraph) : Bool :=
  graph.manifests ≠ [] || namesIndex graph.mediaType

def validateManifestDigest (label : DigestError → GraphError) (reference : Text) :
    Except GraphError Unit :=
  match checkedSupportedDigest reference with
  | .ok _ => .ok ()
  | .error e => .error (label e)

/-- The digests of a descriptor list, the first bad one named by its place. -/
def validateDigests (label : ℕ → DigestError → GraphError) : ℕ → List Text → Except GraphError Unit
  | _,[] => .ok ()
  | i,digest::digests =>
    match validateManifestDigest (label i) digest with
    | .ok () => validateDigests label (i+1) digests
    | .error e => .error e

def validateManifestStructure (graph : RawManifestGraph) : Except GraphError Unit :=
  if graph.schemaVersion ≠ 2 then .error (.schemaVersion graph.schemaVersion)
  else if manifestGraphIsIndex graph then
    match graph.manifests with
    | none => .error .missingManifests
    | some manifests => validateDigests .manifestDigest 0 (manifests.map (·.digest))
  else
    match graph.config with
    | none => .error .missingConfig
    | some config =>
      if config = [] then .error .missingConfig
      else
        match validateManifestDigest .configDigest config with
        | .error e => .error e
        | .ok () =>
          match graph.layers with
          | none => .error .missingLayers
          | some layers => validateDigests .layerDigest 0 layers

def decodeManifestGraph (lib : Codec Data) (data : Data) : Except GraphError CachedGraph :=
  match lib.unmarshal data with
  | none => .error .decode
  | some raw =>
    match validateManifestStructure raw with
    | .error e => .error e
    | .ok () =>
      .ok ⟨raw.schemaVersion,raw.mediaType,raw.manifests.getD [],raw.config.getD [],
        raw.layers.getD []⟩

def targetOS (platform : Platform) : Text :=
  if platform.os = [] then "linux".toList else platform.os

def matchingPlatformDescriptors (descriptors : List PlatformDescriptor) (platform : Platform) :
    List PlatformDescriptor :=
  descriptors.filter fun child =>
    child.architecture = platform.architecture && (child.os = [] || child.os = targetOS platform)

def selectPlatformDescriptor (descriptors : List PlatformDescriptor) (platform : Platform) :
    Option PlatformDescriptor :=
  (matchingPlatformDescriptors descriptors platform).head?

theorem mem_of_selectPlatformDescriptor {descriptors : List PlatformDescriptor}
    {platform : Platform} {selected : PlatformDescriptor}
    (h : selectPlatformDescriptor descriptors platform = some selected) :
    selected ∈ descriptors :=
  List.mem_of_mem_filter (List.mem_of_mem_head? h)

theorem isManifestIndex_of_select {graph : CachedGraph} {platform : Platform}
    {selected : PlatformDescriptor}
    (h : selectPlatformDescriptor graph.manifests platform = some selected) :
    isManifestIndex graph := by
  have hmem := mem_of_selectPlatformDescriptor h
  have hne : graph.manifests ≠ [] := List.ne_nil_of_mem hmem
  simp [isManifestIndex,hne]

/-- A path that does not exist, one that is no regular file, or a file with its content. -/
inductive File (α : Type)
  | missing
  | irregular
  | regular (content : α)
  deriving DecidableEq

structure ManifestMetadata where
  contentType : Text
  contentLength : ℕ
  dockerContentDigest : Text
  repository : Text
  reference : Text
  deriving DecidableEq

/-- The files under the cache directory: blobs, manifests, and each manifest's `.meta` (as decoded)
and `.ct`. -/
structure Cache (Data : Type) where
  blobs : Text → File Data
  manifests : ManifestFile → File Data
  metadata : ManifestFile → File (Option ManifestMetadata)
  contentTypes : ManifestFile → File Text

def Cache.empty : Cache Data :=
  ⟨fun _ => .missing,fun _ => .missing,fun _ => .missing,fun _ => .missing⟩

inductive ReadError
  | notExist
  | notRegular
  | exceeds
  | digestMismatch (error : DigestError)
  deriving DecidableEq

def maxManifestBytes : ℕ := 10 * 2^20

def readCheckedRegularFile (lib : Codec Data) : File Data → Except ReadError Data
  | .missing => .error .notExist
  | .irregular => .error .notRegular
  | .regular data => if lib.size data > maxManifestBytes then .error .exceeds else .ok data

/-- A cached manifest and its file; an entry of the earlier format only if its bytes have the
digest. -/
def checkedCachedManifest (lib : Codec Data) (c : Cache Data) (path : Text) :
    Except ReadError (Data × ManifestFile) :=
  match readCheckedRegularFile lib (c.manifests (manifestPath path)) with
  | .ok data => .ok (data,manifestPath path)
  | .error .notExist =>
    match legacyManifestFallbackPath path with
    | none => .error .notExist
    | some legacyPath =>
      match readCheckedRegularFile lib (c.manifests legacyPath) with
      | .error e => .error e
      | .ok data =>
        if isDigestReference (manifestReference path) then
          match lib.verifySupportedDigest data (manifestReference path) with
          | .ok _ => .ok (data,legacyPath)
          | .error e => .error (.digestMismatch e)
        else .ok (data,legacyPath)
  | .error e => .error e

theorem readCheckedRegularFile_eq_ok {lib : Codec Data} {f : File Data} {data : Data}
    (h : readCheckedRegularFile lib f = .ok data) :
    f = .regular data ∧ lib.size data ≤ maxManifestBytes := by
  unfold readCheckedRegularFile at h
  split at h
  · cases h
  · cases h
  · split at h
    · cases h
    · rename_i hs
      injection h with h
      subst h
      exact ⟨rfl,by simpa using hs⟩

theorem checkedCachedManifest_file {lib : Codec Data} {c : Cache Data} {path : Text} {data : Data}
    {file : ManifestFile} (h : checkedCachedManifest lib c path = .ok (data,file)) :
    c.manifests file = .regular data ∧ lib.size data ≤ maxManifestBytes := by
  unfold checkedCachedManifest at h
  split at h
  · rename_i data' hr
    obtain ⟨rfl,rfl⟩ : data' = data ∧ _ = file := by simpa using h
    exact readCheckedRegularFile_eq_ok hr
  · split at h
    · cases h
    · split at h
      · cases h
      · rename_i data' hr
        split at h
        · split at h
          · obtain ⟨rfl,rfl⟩ : data' = data ∧ _ = file := by simpa using h
            exact readCheckedRegularFile_eq_ok hr
          · cases h
        · obtain ⟨rfl,rfl⟩ : data' = data ∧ _ = file := by simpa using h
          exact readCheckedRegularFile_eq_ok hr
  · cases h

def imageManifestType : Text := "application/vnd.oci.image.manifest.v1+json".toList

def storedMetadata (c : Cache Data) (file : ManifestFile) : Option ManifestMetadata :=
  match c.metadata file with
  | .regular stored => stored
  | _ => none

def storedContentType (c : Cache Data) (file : ManifestFile) : Text :=
  match c.contentTypes file with
  | .regular contentType => contentType
  | _ => []

def checkedCachedManifestMetadataAtPath (lib : Codec Data) (c : Cache Data) (path : Text)
    (file : ManifestFile) (data : Data) : ManifestMetadata :=
  match storedMetadata c file with
  | some stored =>
    ⟨if stored.contentType ≠ [] then stored.contentType else imageManifestType,lib.size data,
      lib.cachedManifestDigest data (manifestReference path) stored.dockerContentDigest,[],[]⟩
  | none =>
    ⟨if storedContentType c file ≠ [] then storedContentType c file else imageManifestType,
      lib.size data,lib.cachedManifestDigest data (manifestReference path) [],[],[]⟩

inductive CacheGapKind
  /-- The zero value. -/
  | unset
  | tagMapping
  | rootManifest
  | platformManifest
  | config
  | layer
  | corrupt
  deriving DecidableEq

inductive GapDetail
  | read (error : ReadError)
  | digest (error : DigestError)
  | graph (error : GraphError)
  | mismatch
  | mapsTo (mapped want : Text)
  | noPlatform
  | depth
  | cycles
  | notLive
  | notTag
  deriving DecidableEq

structure CacheGap where
  kind : CacheGapKind
  path : Text
  digest : Text
  /-- `none` where the file is just not there. -/
  detail : Option GapDetail
  deriving DecidableEq

structure CacheTarget where
  repository : Text
  tag : Text
  digest : Text
  platform : Platform
  deriving DecidableEq

structure CacheStatus (Data : Type) where
  rootDigest : Text
  manifestData : Option Data
  gaps : List CacheGap
  layerTotal : ℕ

def CacheStatus.complete (s : CacheStatus Data) : Bool := s.gaps.isEmpty

structure InspectOptions where
  deep : Bool

def maxSelectedIndexDepth : ℕ := 4

def cacheReadDetail : ReadError → Option GapDetail
  | .notExist => none
  | e => some (.read e)

section

variable (lib : Codec Data) (c : Cache Data) (target : CacheTarget)

/-- The digest a tag's entry is recorded under. -/
def tagDigest (path : Text) (file : ManifestFile) (data : Data) : Text :=
  (checkedCachedManifestMetadataAtPath lib c path file data).dockerContentDigest

/-- The root digest: the target's own, or the one its tag maps to. -/
def inspectTag : Except CacheGap Text :=
  if target.tag = [] then .ok target.digest
  else
    let tagPath := manifestRequestPath target.repository target.tag
    match checkedCachedManifest lib c tagPath with
    | .error e => .error ⟨.tagMapping,tagPath,[],cacheReadDetail e⟩
    | .ok (data,file) =>
      match lib.verifySupportedDigest data (tagDigest lib c tagPath file data) with
      | .error _ => .error ⟨.tagMapping,tagPath,[],some .mismatch⟩
      | .ok mapped =>
        if target.digest ≠ [] ∧ mapped ≠ target.digest then
          .error ⟨.tagMapping,tagPath,mapped,some (.mapsTo mapped target.digest)⟩
        else
          match decodeManifestGraph lib data with
          | .error e => .error ⟨.tagMapping,tagPath,mapped,some (.graph e)⟩
          | .ok _ => .ok mapped

/-- Follows the selected descriptors; `depth` counts the indexes still allowed. -/
def inspectSelectedManifest : ℕ → List Text → PlatformDescriptor → Except CacheGap CachedGraph
  | 0,_,selected => .error ⟨.platformManifest,[],selected.digest,some .depth⟩
  | depth+1,visited,selected =>
    match checkedSupportedDigest selected.digest with
    | .error e => .error ⟨.platformManifest,[],selected.digest,some (.digest e)⟩
    | .ok _ =>
      if selected.digest ∈ visited then
        .error ⟨.platformManifest,[],selected.digest,some .cycles⟩
      else
        let childPath := manifestRequestPath target.repository selected.digest
        match checkedCachedManifest lib c childPath with
        | .error e => .error ⟨.platformManifest,childPath,selected.digest,cacheReadDetail e⟩
        | .ok (child,_) =>
          match lib.verifySupportedDigest child selected.digest with
          | .error e => .error ⟨.platformManifest,childPath,selected.digest,some (.digest e)⟩
          | .ok _ =>
            match decodeManifestGraph lib child with
            | .error e => .error ⟨.platformManifest,childPath,selected.digest,some (.graph e)⟩
            | .ok decoded =>
              if isManifestIndex decoded then
                match selectPlatformDescriptor decoded.manifests target.platform with
                | none => .error ⟨.platformManifest,[],[],some .noPlatform⟩
                | some next => inspectSelectedManifest depth (selected.digest::visited) next
              else .ok decoded

variable (opts : InspectOptions)

def inspectBlob (kind : CacheGapKind) (digest : Text) : List CacheGap :=
  match checkedSupportedDigest digest with
  | .error e => [⟨kind,[],digest,some (.digest e)⟩]
  | .ok _ =>
    match c.blobs (blobPath digest) with
    | .missing => [⟨kind,[],digest,none⟩]
    | .irregular => [⟨kind,[],digest,some (.read .notRegular)⟩]
    | .regular data =>
      if opts.deep then
        match lib.verifySupportedDigest data digest with
        | .ok _ => []
        | .error e => [⟨.corrupt,blobPath digest,digest,some (.digest e)⟩]
      else []

def inspectBlobs (graph : CachedGraph) : List CacheGap :=
  (if graph.config ≠ [] then inspectBlob lib c opts .config graph.config else []) ++
    graph.layers.flatMap (inspectBlob lib c opts .layer)

def inspectRoot (rootDigest : Text) : CacheStatus Data :=
  match checkedSupportedDigest rootDigest with
  | .error e => ⟨rootDigest,none,[⟨.rootManifest,[],rootDigest,some (.digest e)⟩],0⟩
  | .ok _ =>
    let rootPath := manifestRequestPath target.repository rootDigest
    match checkedCachedManifest lib c rootPath with
    | .error e => ⟨rootDigest,none,[⟨.rootManifest,rootPath,rootDigest,cacheReadDetail e⟩],0⟩
    | .ok (root,_) =>
      match lib.verifySupportedDigest root rootDigest with
      | .error e => ⟨rootDigest,none,[⟨.rootManifest,rootPath,rootDigest,some (.digest e)⟩],0⟩
      | .ok _ =>
        match decodeManifestGraph lib root with
        | .error e =>
          ⟨rootDigest,some root,[⟨.rootManifest,rootPath,rootDigest,some (.graph e)⟩],0⟩
        | .ok manifest =>
          match selectPlatformDescriptor manifest.manifests target.platform with
          | some selected =>
            match inspectSelectedManifest lib c target maxSelectedIndexDepth [rootDigest] selected with
            | .error gap => ⟨rootDigest,some root,[gap],0⟩
            | .ok image =>
              ⟨rootDigest,some root,inspectBlobs lib c opts image,image.layers.length⟩
          | none =>
            if isManifestIndex manifest then
              ⟨rootDigest,some root,[⟨.platformManifest,[],[],some .noPlatform⟩],0⟩
            else ⟨rootDigest,some root,inspectBlobs lib c opts manifest,manifest.layers.length⟩

def inspectCached : CacheStatus Data :=
  match inspectTag lib c target with
  | .error gap => ⟨[],none,[gap],0⟩
  | .ok rootDigest => inspectRoot lib c target opts rootDigest

end

end TalosBox.Mirror
