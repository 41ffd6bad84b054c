import TalosBox.MirrorCompleteness
import TalosBox.MirrorServer

/-! What the completeness check promises, the offline mirror keeps: both read the same files. -/
open Option

namespace TalosBox.Mirror

variable {Data : Type} {lib : Codec Data} {c : Cache Data} {tgt : CacheTarget}
  {opts : InspectOptions} {root : Text}

/-- A repository and a tag as they stand in a request. -/
structure TagTarget where
  repository : Text
  tag : Text
  segment : Segment repository tag
  colon : ':' ∉ tag

lemma TagTarget.notDigest (t : TagTarget) : isDigestReference t.tag = false := by
  by_contra h
  exact t.colon (isDigestReference_plain (by simpa using h)).2.2

lemma TagTarget.manifestReference (t : TagTarget) :
    manifestReference (manifestRequestPath t.repository t.tag) = t.tag :=
  t.segment.manifestReference

/-- The tag for the host's platform, pinned to a digest or not. -/
def TagTarget.cacheTarget (t : TagTarget) (host pinned : Text) : CacheTarget :=
  ⟨t.repository,t.tag,pinned,⟨"linux".toList,host⟩⟩

theorem Walk.retarget {tgt' : CacheTarget} {digests : List Text} {graph image : CachedGraph}
    (h : Walk lib c tgt digests graph image) (hr : tgt'.repository = tgt.repository)
    (hp : tgt'.platform = tgt.platform) : Walk lib c tgt' digests graph image := by
  induction h with
  | image hg => exact .image hg
  | follow hs held _ ih => exact .follow (hp ▸ hs) (hr ▸ held) ih

theorem RootComplete.retarget {tgt' : CacheTarget} (h : RootComplete lib c tgt opts root)
    (hr : tgt'.repository = tgt.repository) (hp : tgt'.platform = tgt.platform) :
    RootComplete lib c tgt' opts root := by
  obtain ⟨image,⟨data,graph,digests,held,hw,hl⟩,hblobs⟩ := h
  exact ⟨image,⟨data,graph,digests,hr ▸ held,hw.retarget hr hp,hl⟩,hblobs⟩

theorem BlobHeld.shallow {digest : Text} (h : BlobHeld lib c opts digest) :
    BlobHeld lib c ⟨false⟩ digest := by
  obtain ⟨hs,data,hf,-⟩ := h
  exact ⟨hs,data,hf,fun h => absurd h (by simp)⟩

theorem RootComplete.shallow (h : RootComplete lib c tgt opts root) :
    RootComplete lib c tgt ⟨false⟩ root := by
  obtain ⟨image,hr,hcfg,hlay⟩ := h
  exact ⟨image,hr,fun hne => (hcfg hne).shallow,fun layer hl => (hlay layer hl).shallow⟩

/-- A tag maps to the digest its cached entry is recorded under. -/
theorem tagMaps_iff {t : TagTarget} {host pinned : Text} :
    TagMaps lib c (t.cacheTarget host pinned) root ↔ ∃ data file graph,
      checkedCachedManifest lib c (manifestRequestPath t.repository t.tag) = .ok (data,file) ∧
      tagDigest lib c (manifestRequestPath t.repository t.tag) file data = root ∧
      (pinned = [] ∨ pinned = root) ∧ decodeManifestGraph lib data = .ok graph := by
  unfold TagMaps
  rw [if_neg (show (t.cacheTarget host pinned).tag ≠ [] from t.segment.reference_ne)]
  constructor
  · rintro ⟨data,file,graph,hrd,hv,hpin,hg⟩
    refine ⟨data,file,graph,hrd,?_,hpin,hg⟩
    exact Except.ok.inj ((verify_tagDigest lib c _ file data).symm.trans hv)
  · rintro ⟨data,file,graph,hrd,hv,hpin,hg⟩
    refine ⟨data,file,graph,hrd,?_,hpin,hg⟩
    rw [← hv]
    exact verify_tagDigest lib c _ file data

theorem TagMaps.unpinned {t : TagTarget} {host pinned : Text}
    (h : TagMaps lib c (t.cacheTarget host pinned) root) :
    TagMaps lib c (t.cacheTarget host []) root := by
  obtain ⟨data,file,graph,hrd,hv,-,hg⟩ := tagMaps_iff.1 h
  exact tagMaps_iff.2 ⟨data,file,graph,hrd,hv,.inl rfl,hg⟩

/-- The handler answers 200 with these bytes under this digest, and writes nothing. -/
structure Serves (o : Outcome Data) (digest : Text) (data : Data) : Prop where
  status : o.response.status = 200
  header : o.response.dockerContentDigest = digest
  body : o.response.body = .data data
  writes : o.writes = []

/-- The digests on the way from the tag to its image: the root's and those followed. -/
def OnPath (lib : Codec Data) (c : Cache Data) (target : CacheTarget) (digest : Text) : Prop :=
  ∃ root data graph digests image, TagMaps lib c target root ∧
    Held lib c target.repository root data graph ∧ Walk lib c target digests graph image ∧
    digest ∈ root::digests

/-- The image the tag leads to. -/
def Selects (lib : Codec Data) (c : Cache Data) (target : CacheTarget) (image : CachedGraph) :
    Prop :=
  ∃ root, TagMaps lib c target root ∧ Reaches lib c target root image

variable [DecidableEq Data] {host : Text} {e : Exchange Data} {r : Request}
  {response : Response Data}

theorem serveHTTP_served (hm : r.method ≠ .other) (hp : r.path ≠ "/v2/".toList)
    (h : replayCache lib c host e.offline r = .served response) :
    serveHTTP lib c host e r = answer response := by
  have hs : serveCacheIfAvailable lib c host e.offline r = .served response := by
    simp only [serveCacheIfAvailable,h]
  simp only [serveHTTP,if_neg hm,if_neg hp,hs]

theorem manifestRequestPath_ne_ping (repo ref : Text) :
    manifestRequestPath repo ref ≠ "/v2/".toList := by
  intro h
  have := congrArg List.length h
  simp [manifestRequestPath_eq] at this

/-- A manifest held under a digest is served for the digest's canonical form. -/
theorem Held.serves {repo ref digest : Text} {data : Data} {graph : CachedGraph}
    (held : Held lib c repo digest data graph) (hseg : Segment repo ref) :
    ∃ canonical, canonicalSupportedDigest digest = some canonical ∧
      lib.verifySupportedDigest data canonical = .ok canonical ∧
      Serves (serveHTTP lib c host e
        (.guest .get (manifestRequestPath repo canonical))) canonical data := by
  obtain ⟨canonical,hc⟩ := isSome_iff_exists.1 held.supported
  obtain ⟨file,hrd⟩ := held.cached
  obtain ⟨verified,hv⟩ := held.verified
  obtain rfl : verified = canonical := by
    simpa [hc,eq_comm] using Codec.canonical_of_verify hv
  have hdig : isDigestReference verified := isDigestReference_of_supported
    (by simp [Supported,canonicalSupportedDigest_canonical hc])
  have hseg' := hseg.of_digest hdig
  have hseg₀ := hseg.of_digest (isDigestReference_of_supported held.supported)
  have hrd' := (checkedCachedManifest_canonical lib c hseg₀ hc).trans hrd
  have hv' := Codec.verify_canonical hv
  have hbl := blobPathRe_manifest repo hseg'.reference_slash
  refine ⟨verified,hc,hv',?_⟩
  have hrpl : replayCache lib c host e.offline
      (.guest .get (manifestRequestPath repo verified)) = .served
        (serveManifestBytes (.guest .get (manifestRequestPath repo verified)) data
          { cachedManifestMetadataAtPath lib c (manifestRequestPath repo verified) file data
            with dockerContentDigest := verified } none) := by
    simp only [replayCache,Request.guest,hbl,bind_none,hseg'.manifestPathRe,
      isSome_some,if_true,Bool.false_and,Bool.false_eq_true,if_false,
      hseg'.manifestReference,hdig,serveCachedDigestManifest,hrd',hv']
  rw [serveHTTP_served (by simp [Request.guest]) (manifestRequestPath_ne_ping _ _) hrpl]
  exact ⟨rfl,rfl,rfl,rfl⟩

theorem BlobHeld.serves {repo ref digest : Text}
    (held : BlobHeld lib c opts digest) (hseg : Segment repo ref) :
    ∃ canonical data, canonicalSupportedDigest digest = some canonical ∧
      c.blobs (blobPath digest) = .regular data ∧
      Serves (serveHTTP lib c host e (.guest .get (blobRequestPath repo canonical)))
        canonical data := by
  obtain ⟨hs,data,hf,-⟩ := held
  obtain ⟨canonical,hc⟩ := isSome_iff_exists.1 hs
  refine ⟨canonical,data,hc,hf,?_⟩
  obtain ⟨a,encoded,-,hsum,hcan⟩ := canonicalSupportedDigest_eq_some.1 hc
  have hpa : blobPathRe (blobRequestPath repo canonical) = some canonical :=
    blobPathRe_request hseg.repository_ne hseg.repository_line
      (hcan ▸ isBlobDigest_digestText hsum)
  have hne : blobRequestPath repo canonical ≠ "/v2/".toList := by
    intro h
    rw [h,show blobPathRe "/v2/".toList = none by decide] at hpa
    cases hpa
  have hfl : c.blobs (blobPath canonical) = .regular data := by rw [blobPath_canonical hc,hf]
  have hrpl : replayCache lib c host e.offline
      (.guest .get (blobRequestPath repo canonical)) = .served
        ⟨200,"application/octet-stream".toList,decimal (lib.size data),canonical,[],none,
          .data data⟩ := by
    simp [replayCache,Request.guest,hpa,serveCachedBlob,hfl,
      canonicalSupportedDigest_canonical hc]
  rw [serveHTTP_served (by simp [Request.guest]) hne hrpl]
  exact ⟨rfl,rfl,rfl,rfl⟩

/-- Offline, a complete tag is served under the root digest the check reports. -/
theorem complete_tag_serves {t : TagTarget} (he : e.offline)
    (hm : TagMaps lib c (t.cacheTarget host []) root)
    (hr : RootComplete lib c (t.cacheTarget host []) ⟨false⟩ root) :
    ∃ data file, checkedCachedManifest lib c (manifestRequestPath t.repository t.tag) =
        .ok (data,file) ∧ lib.verifySupportedDigest data root = .ok root ∧
      Serves (serveHTTP lib c host e (.guest .get (manifestRequestPath t.repository t.tag)))
        root data := by
  have hsa : (cachedTagStatus lib c host
      (.guest .get (manifestRequestPath t.repository t.tag))).complete := by
    simp only [cachedTagStatus,Request.guest,t.segment.manifestPathRe,t.notDigest]
    exact inspectCached_complete.2 ⟨root,hm,hr⟩
  have hbl := blobPathRe_manifest t.repository t.segment.reference_slash
  obtain ⟨data,file,graph,hrd,rfl,-,-⟩ := tagMaps_iff.1 hm
  refine ⟨data,file,hrd,verify_tagDigest lib c _ file data,?_⟩
  have hrpl : replayCache lib c host e.offline
      (.guest .get (manifestRequestPath t.repository t.tag)) = .served
        (serveManifestBytes (.guest .get (manifestRequestPath t.repository t.tag)) data
          (cachedManifestMetadataAtPath lib c (manifestRequestPath t.repository t.tag) file data)
          none) := by
    simp only [Request.guest] at hsa
    simp only [replayCache,Request.guest,hbl,bind_none,t.segment.manifestPathRe,
      isSome_some,if_true,Bool.false_and,Bool.false_eq_true,if_false,
      t.manifestReference,t.notDigest,he,hsa,Bool.and_self,serveCachedManifest,hrd]
  rw [serveHTTP_served (by simp [Request.guest]) (manifestRequestPath_ne_ping _ _) hrpl]
  refine ⟨rfl,?_,rfl,rfl⟩
  rw [← cachedManifestMetadataAtPath_digest]
  rfl

/-- A complete image can be pulled offline: its tag, every manifest on the way, its config and
layers. -/
theorem complete_image_replays_offline (lib : Codec Data) (c : Cache Data) (host : Text)
    (t : TagTarget) (pinned : Text) (opts : InspectOptions) (e : Exchange Data)
    (he : e.offline = true)
    (hc : (inspectCached lib c (t.cacheTarget host pinned) opts).complete = true) :
    (∃ data file, checkedCachedManifest lib c (manifestRequestPath t.repository t.tag) =
        .ok (data,file) ∧
      lib.verifySupportedDigest data
        (inspectCached lib c (t.cacheTarget host pinned) opts).rootDigest =
          .ok (inspectCached lib c (t.cacheTarget host pinned) opts).rootDigest ∧
      Serves (serveHTTP lib c host e (.guest .get (manifestRequestPath t.repository t.tag)))
        (inspectCached lib c (t.cacheTarget host pinned) opts).rootDigest data) ∧
    (∀ digest, OnPath lib c (t.cacheTarget host pinned) digest →
      ∃ canonical data graph, canonicalSupportedDigest digest = some canonical ∧
        Held lib c t.repository digest data graph ∧
        lib.verifySupportedDigest data canonical = .ok canonical ∧
        Serves (serveHTTP lib c host e (.guest .get (manifestRequestPath t.repository canonical)))
          canonical data) ∧
    (∀ image, Selects lib c (t.cacheTarget host pinned) image → ∀ digest,
      (digest = image.config ∧ image.config ≠ []) ∨ digest ∈ image.layers →
      ∃ canonical data, canonicalSupportedDigest digest = some canonical ∧
        c.blobs (blobPath digest) = .regular data ∧
        Serves (serveHTTP lib c host e (.guest .get (blobRequestPath t.repository canonical)))
          canonical data) := by
  obtain ⟨root,hm,hr⟩ := inspectCached_complete.mp hc
  refine ⟨?_,?_,?_⟩
  · rw [inspectCached_rootDigest hm]
    exact complete_tag_serves he hm.unpinned (hr.shallow.retarget rfl rfl)
  · rintro digest ⟨root',data,graph,digests,image,hm',held,hw,hmem⟩
    have hheld : ∃ data graph, Held lib c t.repository digest data graph := by
      rcases List.mem_cons.mp hmem with rfl | hmem
      · exact ⟨data,graph,held⟩
      · obtain ⟨data',child,_,hh,-⟩ := hw.mem hmem
        exact ⟨data',child,hh⟩
    obtain ⟨data,graph,hheld⟩ := hheld
    obtain ⟨canonical,hcanon,hv,hs⟩ := hheld.serves t.segment
    exact ⟨canonical,data,graph,hcanon,hheld,hv,hs⟩
  · rintro image ⟨root',hm',hr'⟩ digest hd
    obtain rfl := hm.unique hm'
    obtain ⟨image',hr'',hcfg,hlayers⟩ := hr
    obtain rfl := hr'.unique hr''
    have held : BlobHeld lib c opts digest := by
      rcases hd with ⟨rfl,hne⟩ | hd
      · exact hcfg hne
      · exact hlayers digest hd
    exact held.serves t.segment

/-! An image on one platform, and upstream manifests that differ from it. -/

inductive Sample
  | index
  | image
  | config
  | layer
  /-- An image of the same config and another layer. -/
  | moved
  /-- An image manifest whose `manifests` list names the tag. -/
  | looping
  /-- An image manifest whose `manifests` list names a digest two segments down. -/
  | straying
  deriving DecidableEq

namespace Sample

def mark : Sample → Char
  | index => '1'
  | image => '2'
  | config => '3'
  | layer => '4'
  | moved => '5'
  | looping => '6'
  | straying => '7'

def sum (a : Algorithm) (s : Sample) : Text := s.mark::List.replicate (a.width - 1) '0'

def digest (s : Sample) : Text := digestText .sha256 (sum .sha256 s)

def indexType : Text := "application/vnd.oci.image.index.v1+json".toList

/-- The selected descriptor of a manifest that lists one. -/
def descriptor (digest : Text) : PlatformDescriptor := ⟨digest,"arm64".toList,"linux".toList⟩

def unmarshal : Sample → Option RawManifestGraph
  | index => some ⟨2,indexType,some [descriptor image.digest],none,none⟩
  | image => some ⟨2,imageManifestType,none,some config.digest,some [layer.digest]⟩
  | moved => some ⟨2,imageManifestType,none,some config.digest,some [straying.digest]⟩
  | looping =>
    some ⟨2,imageManifestType,some [descriptor "v1".toList],some config.digest,some []⟩
  | straying =>
    some ⟨2,imageManifestType,some [descriptor ("x/manifests/".toList++image.digest)],
      some config.digest,some []⟩
  | _ => none

def codec : Codec Sample where
  size _ := 100
  sum := sum
  isSum a s := by
    refine ⟨fun c hc => ?_,by cases a <;> rfl⟩
    rcases List.mem_cons.1 hc with rfl | hc
    · cases s <;> decide
    · rw [List.eq_of_mem_replicate hc]; decide
  unmarshal := unmarshal
  unmarshalMediaType s := s.unmarshal.map (·.mediaType)
  jsonValid _ := true
  markup _ := false
  parseMediaType s := (s,true)
  trimSpace s := s

def tag : TagTarget :=
  ⟨"alpine".toList,"v1".toList,⟨by decide,by decide,by decide,by decide,by decide⟩,by decide⟩

def path (reference : Text) : Text := manifestRequestPath tag.repository reference

def metadata (s : Sample) : ManifestMetadata := ⟨indexType,100,s.digest,[],[]⟩

/-- The whole image, cached under its tag. -/
def cache : Cache Sample :=
  Cache.empty.writes
    [.blob (blobPath config.digest) config,.blob (blobPath layer.digest) layer,
      .manifest (path image.digest) image,.manifest (path index.digest) index,
      .metadata (path "v1".toList) index.metadata,.manifest (path "v1".toList) index]

/-- Offline there is no upstream and nothing is written. -/
def offline : Exchange Sample := ⟨true,none,none,true,true,true⟩

end Sample

theorem sample_replays_offline :
    (inspectCached Sample.codec Sample.cache (Sample.tag.cacheTarget "arm64".toList []) ⟨false⟩).complete
      = true ∧
    ∃ data file, checkedCachedManifest Sample.codec Sample.cache
        (manifestRequestPath Sample.tag.repository Sample.tag.tag) = .ok (data,file) ∧
      (serveHTTP Sample.codec Sample.cache "arm64".toList Sample.offline
        (.guest .get (manifestRequestPath Sample.tag.repository Sample.tag.tag))).response.status
        = 200 := by
  have hc : (inspectCached Sample.codec Sample.cache
      (Sample.tag.cacheTarget "arm64".toList []) ⟨false⟩).complete = true := by decide
  obtain ⟨⟨data,file,hread,-,hs⟩,-⟩ := complete_image_replays_offline Sample.codec Sample.cache
    "arm64".toList Sample.tag [] ⟨false⟩ Sample.offline rfl hc
  exact ⟨hc,data,file,hread,hs.status⟩

end TalosBox.Mirror
