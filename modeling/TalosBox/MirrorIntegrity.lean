import TalosBox.MirrorReplay
import TalosBox.MirrorWarm

/-! Whatever upstream answers, what the cache holds or serves under a digest has it, as long as a
warm follows only descriptors whose digest it can check. -/
open List

namespace TalosBox.Mirror

variable {Data : Type} {lib : Codec Data} {c : Cache Data} {r : Request}

/-- Blobs and manifests stored under a digest have it. -/
structure Intact (lib : Codec Data) (c : Cache Data) : Prop where
  blob : ∀ digest data, Supported digest → c.blobs (blobPath digest) = .regular data →
    ∃ canonical, lib.verifySupportedDigest data digest = .ok canonical
  manifest : ∀ path repository reference data,
    manifestPathRe path = some (repository,reference) → isDigestReference reference →
    c.manifests (manifestPath path) = .regular data →
    ∃ canonical, lib.verifySupportedDigest data reference = .ok canonical

/-- A write that puts nothing under a digest but what has it. -/
def Write.Sound (lib : Codec Data) : Write Data → Prop
  | .blob name data => ∃ digest, canonicalSupportedDigest digest = some digest ∧
      name = blobPath digest ∧ lib.verifySupportedDigest data digest = .ok digest
  | .metadata _ _ => True
  | .manifest path data => lib.size data ≤ maxManifestBytes ∧ ∀ repository reference,
      manifestPathRe path = some (repository,reference) → isDigestReference reference →
      ∃ canonical, lib.verifySupportedDigest data reference = .ok canonical

lemma intact_empty : Intact lib Cache.empty :=
  ⟨fun _ _ _ h => by simp [Cache.empty] at h,fun _ _ _ _ _ _ h => by simp [Cache.empty] at h⟩

theorem verify_of_canonical {data : Data} {dig canonical : Text}
    (hc : canonicalSupportedDigest dig = some canonical)
    (hv : ∃ verified, lib.verifySupportedDigest data canonical = .ok verified) :
    ∃ verified, lib.verifySupportedDigest data dig = .ok verified := by
  rwa [Codec.verify_congr (splitDigestReference_canonical hc)] at hv

theorem Intact.write (h : Intact lib c) {w : Write Data} (hw : w.Sound lib) :
    Intact lib (c.write w) := by
  cases w with
  | metadata path stored => exact ⟨h.blob,h.manifest⟩
  | blob name data =>
    refine ⟨fun dig data' hs hf => ?_,h.manifest⟩
    obtain ⟨d,hd,rfl,hv⟩ := hw
    simp only [Cache.write,Function.update_apply] at hf
    split at hf
    · rename_i heq
      injection hf with hf
      subst hf
      obtain ⟨canonical,hc⟩ := Option.isSome_iff_exists.1 hs
      obtain rfl := blobPath_inj hc hd heq
      exact verify_of_canonical hc ⟨_,hv⟩
    · exact h.blob dig data' hs hf
  | manifest path data =>
    refine ⟨h.blob,fun path' repo reference data' hm hd hf => ?_⟩
    simp only [Cache.write,Function.update_apply] at hf
    split at hf
    · rename_i heq
      injection hf with hf
      subst hf
      injection heq with heq
      have hm' := manifestPathRe_canonical hm
      rw [heq] at hm'
      cases hc : canonicalSupportedDigest reference with
      | none =>
        rw [hc] at hm'
        exact hw.2 repo reference hm' hd
      | some canonical =>
        rw [hc] at hm'
        have hcd : isDigestReference canonical := isDigestReference_of_supported
          (by simp [Supported,canonicalSupportedDigest_canonical hc])
        exact verify_of_canonical hc (hw.2 repo canonical hm' hcd)
    · exact h.manifest path' repo reference data' hm hd hf

theorem Intact.writes (h : Intact lib c) {ws : List (Write Data)} (hw : ∀ w ∈ ws, w.Sound lib) :
    Intact lib (c.writes ws) := by
  induction ws generalizing c with
  | nil => exact h
  | cons w ws ih =>
    exact ih (h.write (hw w (by simp))) fun w hm => hw w (mem_cons_of_mem _ hm)

/-- A request whose bytes are checked against the digest of its path, if that is one. -/
def Request.Honest (r : Request) : Prop :=
  ∀ repository reference, manifestPathRe r.path = some (repository,reference) →
    isDigestReference reference → manifestValidationReference r reference = reference

lemma guest_honest (method : Method) (path : Text) : (Request.guest method path).Honest :=
  fun _ _ _ _ => rfl

theorem segment_honest {repo reference : Text} (h : Segment repo reference)
    (method : Method) (refresh staged warmBlob : Bool) :
    (Request.mk method (manifestRequestPath repo reference) refresh reference staged
      warmBlob).Honest := by
  intro repo' reference' hm _
  obtain ⟨-,rfl⟩ : repo = repo' ∧ reference = reference' := by
    simpa [h.manifestPathRe] using hm
  simp [manifestValidationReference]

theorem storeManifest_sound {e : Exchange Data} {path : Text} {metadata : ManifestMetadata}
    {data : Data} (hsz : lib.size data ≤ maxManifestBytes)
    (hv : ∀ repo reference, manifestPathRe path = some (repo,reference) →
      isDigestReference reference →
      ∃ canonical, lib.verifySupportedDigest data reference = .ok canonical) :
    ∀ w ∈ (storeManifest e path metadata data).1, w.Sound lib := by
  intro w hw
  have hmem := (storeManifest_writes e path metadata data).subset hw
  rcases mem_cons.1 hmem with rfl | hmem
  · trivial
  · obtain rfl := mem_singleton.1 hmem
    refine ⟨hsz,fun repo reference hm hd => ?_⟩
    cases hp : manifestPathRe path with
    | none =>
      simp only [canonicalManifestRequestPath,hp] at hm
      cases hm
    | some p =>
      have hcan := manifestPathRe_canonical hp
      rw [hm] at hcan
      obtain ⟨rfl,rfl⟩ : repo = p.1 ∧
          reference = (canonicalSupportedDigest p.2).getD p.2 := by simpa using hcan
      cases hc : canonicalSupportedDigest p.2 with
      | none =>
        rw [hc] at hd
        exact hv p.1 p.2 hp hd
      | some canonical =>
        have hd' : isDigestReference p.2 :=
          isDigestReference_of_supported (by simp [Supported,hc])
        rw [Option.getD_some,Codec.verify_congr (splitDigestReference_canonical hc)]
        exact hv p.1 p.2 hp hd'

variable [DecidableEq Data] {host : Text} {e : Exchange Data}

theorem serveHTTP_sound (lib : Codec Data) (c : Cache Data) (host : Text) (e : Exchange Data)
    (hr : r.Honest) : ∀ w ∈ (serveHTTP lib c host e r).writes, w.Sound lib := by
  intro w hw
  cases serveHTTP_handled lib c host e r with
  | replayed _ hnil _ => simp [hnil] at hw
  | refused _ hnil _ => simp [hnil] at hw
  | blob dig data hp hv _ hws _ =>
    rw [hws] at hw
    obtain rfl := mem_singleton.1 hw
    obtain ⟨a,encoded,hc,-⟩ := canonicalSupportedDigest_blobDigest (blobPathRe_eq_some hp).1
    rw [hc,Option.getD_some] at hv
    exact ⟨_,canonicalSupportedDigest_canonical hc,(blobPath_canonical hc).symm,hv⟩
  | manifest resp data metadata _ _ _ _ hval _ _ hsr =>
    have hval := validateManifest_eq_ok hval
    obtain ⟨-,hnil,-⟩ | ⟨-,hws,-⟩ := hsr
    · simp [hnil] at hw
    · rw [hws] at hw
      refine storeManifest_sound hval.size (fun repo reference hm hd => ?_) w hw
      have href : manifestReference r.path = reference := by simp [manifestReference,hm]
      have hreq := hval.requested
      rw [href,hr repo reference hm hd] at hreq
      exact ⟨_,hreq hd⟩

omit [DecidableEq Data] in
theorem FromCache.verified {response : Response Data} (h : FromCache lib c r response)
    (hi : Intact lib c) (hget : r.method = .get) {repo reference : Text}
    (hm : manifestPathRe r.path = some (repo,reference)) :
    ∃ data, response.body = .data data ∧ lib.verifySupportedDigest data
        response.dockerContentDigest = .ok response.dockerContentDigest ∧
      (isDigestReference reference → lib.verifySupportedDigest data reference =
        .ok response.dockerContentDigest) := by
  cases h with
  | blob dig data hp hf hh hbd =>
    obtain ⟨a,encoded,hc,-⟩ := canonicalSupportedDigest_blobDigest (blobPathRe_eq_some hp).1
    obtain ⟨verified,hv⟩ := hi.blob dig data (by simp [Supported,hc]) hf
    obtain rfl : verified = digestText a encoded := by
      simpa [hc,eq_comm] using Codec.canonical_of_verify hv
    refine ⟨data,by simpa [hget] using hbd,?_,fun hd => ?_⟩
    · rw [hh,hc]
      exact Codec.verify_canonical hv
    · obtain ⟨hpa,-⟩ := manifestPathRe_eq_some hm
      rw [hpa,blobPathRe_manifest repo (isDigestReference_plain hd).1] at hp
      cases hp
  | manifest data file hrd hv hreq hbd =>
    have href : manifestReference r.path = reference := by simp [manifestReference,hm]
    rw [href] at hreq
    exact ⟨data,by simpa [hget] using hbd,hv,hreq⟩

/-- Every manifest served has its digest, the requested one if one was named. -/
theorem served_manifest (hi : Intact lib c) (hr : r.Honest) (hb : r.warmBlob = false)
    (hget : r.method = .get) {repo reference : Text}
    (hm : manifestPathRe r.path = some (repo,reference))
    (hs : (serveHTTP lib c host e r).response.status = 200) :
    ∃ data, (serveHTTP lib c host e r).response.body = .data data ∧
      lib.verifySupportedDigest data (serveHTTP lib c host e r).response.dockerContentDigest =
        .ok (serveHTTP lib c host e r).response.dockerContentDigest ∧
      (isDigestReference reference → lib.verifySupportedDigest data reference =
        .ok (serveHTTP lib c host e r).response.dockerContentDigest) := by
  have hsnd := serveHTTP_sound lib c host e hr
  cases serveHTTP_handled lib c host e r with
  | replayed hc _ _ => exact hc.verified hi hget hm
  | refused hne _ _ => exact absurd hs (hne hget (by simp [hm]))
  | blob dig data hp hv hserved hws _ =>
    rw [hws] at hsnd
    have hi' := hi.write (hsnd _ (mem_singleton_self _))
    obtain h | h | h := hserved
    · simp [hb] at h
    · exact h.verified hi' hget hm
    · exact absurd hs h
  | manifest resp data metadata _ _ _ _ hval hhdr hbd _ =>
    have hval := validateManifest_eq_ok hval
    rw [hhdr,hbd]
    refine ⟨data,rfl,hval.verified,fun hd => ?_⟩
    have href : manifestReference r.path = reference := by simp [manifestReference,hm]
    have hreq := hval.requested
    rw [href,hr repo reference hm hd] at hreq
    exact hreq hd

lemma childRequest_sound {repo dig : Text} (h : Segment repo dig) :
    RequestWrites lib host (fun _ => True) (Write.Sound lib) (childRequest repo dig) :=
  fun c e _ => serveHTTP_sound lib c host e (segment_honest h .get true false false)

lemma warmBlobRequest_sound (repo dig : Text) :
    RequestWrites lib host (fun _ => True) (Write.Sound lib) (warmBlobRequest repo dig) :=
  fun c e _ => serveHTTP_sound lib c host e fun _ _ _ _ => rfl

omit [DecidableEq Data] in
theorem publish_sound (ref : WarmReference) (arch : Text) (before : CacheStatus Data)
    (c : Cache Data) (es : List (Exchange Data)) {metadata : ManifestMetadata} {body : Data}
    (hsz : lib.size body ≤ maxManifestBytes)
    (hv : lib.verifySupportedDigest body metadata.dockerContentDigest =
      .ok metadata.dockerContentDigest) :
    ∀ w ∈ (publish lib ref arch before c es metadata body).writes, w.Sound lib := by
  have hseg := ref.segment.of_digest (isDigestReference_of_supported (Codec.supported_of_verify hv))
  have hdig : ∀ e, ∀ w ∈ (storeManifest e (manifestRequestPath ref.repository
      metadata.dockerContentDigest) metadata body).1, w.Sound lib := by
    refine fun e => storeManifest_sound hsz fun repo reference hm _ => ?_
    obtain ⟨-,rfl⟩ : ref.repository = repo ∧ metadata.dockerContentDigest = reference := by
      simpa [hseg.manifestPathRe] using hm
    exact ⟨_,hv⟩
  obtain hnil | ⟨e,hws | ⟨htag,-,e',hws⟩⟩ :=
    publish_cases lib ref arch before c es metadata body
  · simp [hnil]
  · rw [hws]; exact hdig e
  · rw [hws]
    intro w hw
    rcases mem_append.1 hw with hw | hw
    · exact hdig e w hw
    · refine storeManifest_sound hsz (fun repo reference hm hd => ?_) w hw
      obtain ⟨-,rfl⟩ : ref.repository = repo ∧ ref.tag = reference := by
        simpa [(ref.tag_segment htag).manifestPathRe] using hm
      exact absurd (isDigestReference_plain hd).2.2 ref.tag_plain.2.1

/-- A warm that follows only supported digests puts nothing under a digest but what has it. -/
theorem warmOne_sound {finish : List Text → List Text} {es : List (Exchange Data)}
    {ref : WarmReference} {arch : Text} {refresh : Bool}
    (h : ∀ dig ∈ (warmOne lib host finish c es ref arch refresh).followed,
      Supported dig) :
    ∀ w ∈ (warmOne lib host finish c es ref arch refresh).writes, w.Sound lib := by
  obtain hnil | ⟨body,metadata,graph,hw⟩ :=
    warmOne_cases lib host finish c es ref arch refresh
  · simp [hnil]
  · obtain ⟨es',-,hgraph⟩ := hw.warmed
    rw [hw.followed] at h
    have hsnd : ∀ w ∈ graph.writes, w.Sound lib := by
      rw [hgraph] at h ⊢
      refine warmManifestGraph_writes (fun _ _ => trivial) (fun dig hd => childRequest_sound ?_)
        (fun dig _ => warmBlobRequest_sound _ dig)
      exact ref.segment.of_digest (isDigestReference_of_supported (h dig hd))
    obtain hws | ⟨before,es'',hws⟩ := hw.writes
    · rw [hws]; exact hsnd
    · rw [hws]
      intro w hmem
      rcases mem_append.1 hmem with hmem | hmem
      · exact hsnd w hmem
      · exact publish_sound ref arch before _ es'' hw.size hw.verified w hmem

/-- A guest's request, or a warm of one reference. -/
inductive Op (Data : Type)
  | guest (exchange : Exchange Data) (method : Method) (path : Text)
  | warm (finish : List Text → List Text) (exchanges : List (Exchange Data)) (ref : WarmReference)
      (architecture : Text) (refresh : Bool)

def Op.writes (lib : Codec Data) (host : Text) (c : Cache Data) : Op Data → List (Write Data)
  | .guest e method path => (serveHTTP lib c host e (.guest method path)).writes
  | .warm finish es ref architecture refresh =>
    (warmOne lib host finish c es ref architecture refresh).writes

/-- Every descriptor a warm follows has a digest that can be checked. -/
def Op.careful (lib : Codec Data) (host : Text) (c : Cache Data) : Op Data → Bool
  | .guest _ _ _ => true
  | .warm finish es ref architecture refresh =>
    (warmOne lib host finish c es ref architecture refresh).followed.all (Supported ·)

def run (lib : Codec Data) (host : Text) (c : Cache Data) (ops : List (Op Data)) : Cache Data :=
  ops.foldl (fun c op => c.writes (op.writes lib host c)) c

def carefulRun (lib : Codec Data) (host : Text) : Cache Data → List (Op Data) → Bool
  | _,[] => true
  | c,op::ops =>
    op.careful lib host c && carefulRun lib host (c.writes (op.writes lib host c)) ops

theorem Op.writes_sound {op : Op Data} (h : op.careful lib host c) :
    ∀ w ∈ op.writes lib host c, w.Sound lib := by
  cases op with
  | guest e method path => exact serveHTTP_sound lib c host e (guest_honest method path)
  | warm finish es ref arch refresh =>
    refine warmOne_sound fun dig hd => ?_
    simpa using all_eq_true.1 h dig hd

theorem carefulRun_split {op : Op Data} {before after : List (Op Data)} (hi : Intact lib c)
    (h : carefulRun lib host c (before++op::after)) :
    Intact lib (run lib host c before) ∧ op.careful lib host (run lib host c before) := by
  induction before generalizing c with
  | nil =>
    simp only [nil_append,carefulRun,Bool.and_eq_true] at h
    exact ⟨hi,h.1⟩
  | cons op' before ih =>
    simp only [cons_append,carefulRun,Bool.and_eq_true] at h
    exact ih (hi.writes (Op.writes_sound h.1)) h.2

/-- In a run from an empty cache in which warms follow only supported digests, everything stored
under a digest has it after each write, and every manifest served has its digest, the requested one
if one was requested. -/
theorem careful_run_integrity (lib : Codec Data) (host : Text) (ops : List (Op Data))
    (h : carefulRun lib host Cache.empty ops = true) (before after : List (Op Data))
    (op : Op Data) (hops : ops = before ++ op :: after) :
    (∀ ws, ws <+: op.writes lib host (run lib host Cache.empty before) →
      Intact lib ((run lib host Cache.empty before).writes ws)) ∧
    ∀ e path repository reference, op = .guest e .get path →
      manifestPathRe path = some (repository,reference) →
      (serveHTTP lib (run lib host Cache.empty before) host e (.guest .get path)).response.status
        = 200 →
      ∃ data, (serveHTTP lib (run lib host Cache.empty before) host e
          (.guest .get path)).response.body = .data data ∧
        lib.verifySupportedDigest data (serveHTTP lib (run lib host Cache.empty before) host e
            (.guest .get path)).response.dockerContentDigest =
          .ok (serveHTTP lib (run lib host Cache.empty before) host e
            (.guest .get path)).response.dockerContentDigest ∧
        (isDigestReference reference = true → lib.verifySupportedDigest data reference =
          .ok (serveHTTP lib (run lib host Cache.empty before) host e
            (.guest .get path)).response.dockerContentDigest) := by
  subst hops
  obtain ⟨hi,hcrf⟩ := carefulRun_split intact_empty h
  refine ⟨fun ws hpre => hi.writes fun w hw => ?_,fun e path repository reference _ hm hs => ?_⟩
  · exact Op.writes_sound hcrf w (hpre.subset hw)
  · exact served_manifest hi (guest_honest .get path) rfl rfl hm hs

namespace Sample

/-- Upstream answers 200 with these bytes, and every write succeeds. -/
def online (s : Sample) : Exchange Sample :=
  ⟨false,none,some ⟨200,imageManifestType,[],[],[],some s⟩,true,true,true⟩

def reference : WarmReference :=
  ⟨"alpine".toList,"v1".toList,[],by decide,by decide,by decide,.inl rfl,.inl (by decide)⟩

/-- A warm of the tag that meets these answers. -/
def warm (answers : List Sample) : Op Sample :=
  .warm id (answers.map online) reference "arm64".toList false

end Sample

theorem sample_run_integrity :
    carefulRun Sample.codec "arm64".toList Cache.empty
      [Sample.warm [.index,.image,.config,.layer,.index,.index],
        .guest Sample.offline .get (Sample.path "v1".toList)] = true ∧
    Intact Sample.codec (run Sample.codec "arm64".toList Cache.empty
      [Sample.warm [.index,.image,.config,.layer,.index,.index]]) := by
  have hc : carefulRun Sample.codec "arm64".toList Cache.empty
      [Sample.warm [.index,.image,.config,.layer,.index,.index],
        .guest Sample.offline .get (Sample.path "v1".toList)] = true := by decide
  exact ⟨hc,(careful_run_integrity Sample.codec "arm64".toList _ hc
    [Sample.warm [.index,.image,.config,.layer,.index,.index]] [] _ rfl).1 [] ( nil_prefix)⟩

/-- Followed with `x/manifests/` in front of a digest, the child is checked against no digest and
stored under that one. -/
theorem straying_descriptor_stored :
    (run Sample.codec "arm64".toList Cache.empty [Sample.warm [.straying,.moved]]).manifests
        (manifestPath (Sample.path ("x/manifests/".toList ++ Sample.image.digest))) =
      .regular .moved ∧
    ¬ Intact Sample.codec
      (run Sample.codec "arm64".toList Cache.empty [Sample.warm [.straying,.moved]]) := by
  have hf : (run Sample.codec "arm64".toList Cache.empty [Sample.warm [.straying,.moved]]).manifests
      (manifestPath (Sample.path ("x/manifests/".toList ++ Sample.image.digest))) =
      .regular .moved := by decide +kernel
  have hm : manifestPathRe (Sample.path ("x/manifests/".toList ++ Sample.image.digest)) =
      some ("alpine/manifests/x".toList,Sample.image.digest) := by decide
  refine ⟨hf,fun hi => ?_⟩
  obtain ⟨canonical,h⟩ := hi.manifest _ _ _ _ hm (by decide) hf
  obtain ⟨a,hs,-⟩ := Codec.verifySupportedDigest_eq_ok.mp h
  cases a <;> revert hs <;> decide

end TalosBox.Mirror
