import TalosBox.MirrorCache

/-! The mirror's request handler. Upstream's answers and which writes succeed come with each
request; the handler returns its response and the files it wrote, in order. -/
namespace TalosBox.Mirror

variable {Data : Type}

inductive Method
  | get
  | head
  | other
  deriving DecidableEq

/-- A request; the last four fields are what a warm puts into the request's context. -/
structure Request where
  method : Method
  path : Text
  refresh : Bool
  /-- Empty where the context carries none. -/
  validationReference : Text
  staged : Bool
  warmBlob : Bool
  deriving DecidableEq

/-- A guest's request carries nothing in its context. -/
def Request.guest (method : Method) (path : Text) : Request := ⟨method,path,false,[],false,false⟩

def manifestValidationReference (r : Request) (fallback : Text) : Text :=
  if r.validationReference ≠ [] then r.validationReference else fallback

structure UpstreamResponse (Data : Type) where
  status : ℕ
  contentType : Text
  contentLength : Text
  dockerContentDigest : Text
  etag : Text
  /-- `none` where reading the body fails. -/
  body : Option Data

/-- The upstream's name or the host's addresses cannot be told, or it is not a public address. -/
inductive ValidationError
  | resolution
  | hostAddresses
  | notPublic
  deriving DecidableEq

def ValidationError.status : ValidationError → ℕ
  | resolution => 502
  | hostAddresses => 502
  | notPublic => 403

/-- The mode, the verdict on the upstream, its answer after retries (`none` for an error) and which
writes succeed. -/
structure Exchange (Data : Type) where
  offline : Bool
  validation : Option ValidationError
  fetch : Option (UpstreamResponse Data)
  metadataWritten : Bool
  dataWritten : Bool
  blobWritten : Bool

inductive Reason
  | offlineNotCached
  | offlineCacheCorrupted
  | servedStale
  | upstreamManifestInvalid
  deriving DecidableEq

inductive ManifestError
  | read
  | exceeds
  | blockPage
  | contentType
  | unsupportedType
  | notJSON
  | graph (error : GraphError)
  | headerDigest (error : DigestError)
  | requestedDigest (error : DigestError)
  | digestsDiffer
  | pinnedDigestMismatch (pinned served : Text)
  deriving DecidableEq

inductive BlobError
  | download
  | mismatch (error : DigestError)
  | file
  deriving DecidableEq

inductive Message
  | pullOnly
  | notCached
  | corrupted
  | validation
  | upstream
  | staleUnavailable
  | blob (error : BlobError)
  | manifest (error : ManifestError)
  | blobUnavailable
  deriving DecidableEq

inductive Body (Data : Type)
  | empty
  | data (content : Data)
  /-- As much of the upstream's body as could be read. -/
  | truncated
  | message (text : Message)
  deriving DecidableEq

structure Response (Data : Type) where
  status : ℕ
  contentType : Text
  contentLength : Text
  dockerContentDigest : Text
  etag : Text
  reason : Option Reason
  body : Body Data
  deriving DecidableEq

/-- `http.Error`. -/
def httpError (status : ℕ) (text : Message) (reason : Option Reason) : Response Data :=
  ⟨status,"text/plain; charset=utf-8".toList,[],[],[],reason,.message text⟩

/-- A file renamed into place; manifests and their sidecars by their canonical path. -/
inductive Write (Data : Type)
  | blob (name : Text) (data : Data)
  | metadata (path : Text) (stored : ManifestMetadata)
  | manifest (path : Text) (data : Data)
  deriving DecidableEq

def Cache.write (c : Cache Data) : Write Data → Cache Data
  | .blob name data => { c with blobs := Function.update c.blobs name (.regular data) }
  | .metadata path stored =>
    { c with metadata := Function.update c.metadata (.v2 path) (.regular (some stored)) }
  | .manifest path data =>
    { c with manifests := Function.update c.manifests (.v2 path) (.regular data) }

def Cache.writes (c : Cache Data) (ws : List (Write Data)) : Cache Data := ws.foldl Cache.write c

@[simp] theorem Cache.writes_nil (c : Cache Data) : c.writes [] = c := rfl
@[simp] theorem Cache.writes_cons (c : Cache Data) (w : Write Data) (ws : List (Write Data)) :
    c.writes (w::ws) = (c.write w).writes ws := rfl
theorem Cache.writes_append (c : Cache Data) (ws ws' : List (Write Data)) :
    c.writes (ws++ws') = (c.writes ws).writes ws' := List.foldl_append

structure Outcome (Data : Type) where
  response : Response Data
  writes : List (Write Data)
  /-- What a staged request keeps instead of storing it. -/
  staged : Option (Data × ManifestMetadata)

/-- A response that came without writing anything. -/
def answer (response : Response Data) : Outcome Data := ⟨response,[],none⟩

def decimal (n : ℕ) : Text := (toString n).toList

def manifestMediaTypes : List Text :=
  ["application/json".toList,
    "application/vnd.docker.distribution.manifest.list.v2+json".toList,
    "application/vnd.docker.distribution.manifest.v2+json".toList,
    "application/vnd.oci.image.index.v1+json".toList,
    "application/vnd.oci.image.manifest.v1+json".toList]

section

variable (lib : Codec Data)

/-- The digest of the upstream's header, empty without one. -/
def upstreamDigest (resp : UpstreamResponse Data) (data : Data) : Except ManifestError Text :=
  if lib.trimSpace resp.dockerContentDigest = [] then .ok []
  else
    match lib.verifySupportedDigest data (lib.trimSpace resp.dockerContentDigest) with
    | .ok canonical => .ok canonical
    | .error e => .error (.headerDigest e)

/-- The digest requested has to be that of the bytes. Only a request by tag can have a stale pin. -/
def persistedDigest (data : Data) (requestedReference pathReference headerDigest : Text) :
    Except ManifestError Text :=
  if isDigestReference requestedReference then
    match lib.verifySupportedDigest data requestedReference with
    | .error e =>
      match lib.digestOfAs requestedReference data with
      | some served =>
        if isDigestReference pathReference then .error (.requestedDigest e)
        else .error (.pinnedDigestMismatch requestedReference served)
      | none => .error (.requestedDigest e)
    | .ok canonical =>
      if headerDigest ≠ [] ∧ headerDigest ≠ canonical then .error .digestsDiffer
      else .ok canonical
  else if headerDigest = [] then .ok (lib.digestOf .sha256 data)
  else .ok headerDigest

def validateManifest (resp : UpstreamResponse Data) (requestedReference pathReference : Text) :
    Except ManifestError (Data × ManifestMetadata) :=
  match resp.body with
  | none => .error .read
  | some data =>
    if lib.size data > maxManifestBytes then .error .exceeds
    else if toLower (lib.parseMediaType resp.contentType).1 = "text/html".toList ∨
        lib.markup data then .error .blockPage
    else if (lib.parseMediaType resp.contentType).2 = false then .error .contentType
    else if toLower (lib.parseMediaType resp.contentType).1 ∉ manifestMediaTypes then
      .error .unsupportedType
    else if lib.jsonValid data = false then .error .notJSON
    else
      match decodeManifestGraph lib data with
      | .error e => .error (.graph e)
      | .ok _ =>
        match upstreamDigest lib resp data with
        | .error e => .error e
        | .ok headerDigest =>
          match persistedDigest lib data requestedReference pathReference headerDigest with
          | .error e => .error e
          | .ok digest => .ok (data,⟨resp.contentType,lib.size data,digest,[],[]⟩)

/-- The sidecar says what its file stands for. -/
def describe (key : Text) (metadata : ManifestMetadata) : ManifestMetadata :=
  match manifestPathRe key with
  | some (repository,reference) => { metadata with repository := repository, reference := reference }
  | none => metadata

/-- The sidecar first, then the manifest; the second only if the first is in place. -/
def storeManifest (e : Exchange Data) (path : Text) (metadata : ManifestMetadata) (data : Data) :
    List (Write Data) × Bool :=
  let key := canonicalManifestRequestPath path
  if e.metadataWritten then
    if e.dataWritten then ([.metadata key (describe key metadata),.manifest key data],true)
    else ([.metadata key (describe key metadata)],false)
  else ([],false)

def cacheBlob (e : Exchange Data) (body : Option Data) (digest : Text) :
    Except BlobError (Write Data) :=
  match body with
  | none => .error .download
  | some data =>
    match lib.verifySupportedDigest data ((canonicalSupportedDigest digest).getD digest) with
    | .error error => .error (.mismatch error)
    | .ok _ => if e.blobWritten then .ok (.blob (blobPath digest) data) else .error .file

def serveManifestBytes (r : Request) (data : Data) (metadata : ManifestMetadata)
    (reason : Option Reason) : Response Data :=
  ⟨200,metadata.contentType,decimal metadata.contentLength,metadata.dockerContentDigest,[],reason,
    if r.method = .get then .data data else .empty⟩

def manifestContentType (data : Data) : Text :=
  match lib.unmarshalMediaType data with
  | none => []
  | some mediaType =>
    if toLower (lib.trimSpace mediaType) ∈ manifestMediaTypes then lib.trimSpace mediaType else []

variable (c : Cache Data)

def cachedManifestContentTypeAtPath (file : ManifestFile) (data : Data) : Text :=
  if manifestContentType lib data ≠ [] then manifestContentType lib data
  else if storedContentType c file ≠ [] then storedContentType c file
  else imageManifestType

/-- The metadata a cached manifest is served with; the sidecar's type only if its digest fits the
bytes. -/
def cachedManifestMetadataAtPath (path : Text) (file : ManifestFile) (data : Data) :
    ManifestMetadata :=
  let contentType := cachedManifestContentTypeAtPath lib c file data
  match storedMetadata c file with
  | none => ⟨contentType,lib.size data,lib.cachedManifestDigest data (manifestReference path) [],[],[]⟩
  | some stored =>
    ⟨match lib.verifySupportedDigest data stored.dockerContentDigest with
      | .ok _ => if stored.contentType ≠ [] then stored.contentType else contentType
      | .error _ =>
        if storedContentType c file ≠ [] then storedContentType c file else contentType,
      lib.size data,
      lib.cachedManifestDigest data (manifestReference path) stored.dockerContentDigest,[],[]⟩

/-- A replay served a response, failed with a status, or found nothing. -/
inductive Replay (Data : Type)
  | served (response : Response Data)
  | failed (status : ℕ) (reason : Option Reason)
  | missed

def serveCachedManifest (r : Request) : Option (Response Data) :=
  match checkedCachedManifest lib c r.path with
  | .error _ => none
  | .ok (data,file) =>
    some (serveManifestBytes r data (cachedManifestMetadataAtPath lib c r.path file data) none)

def corrupted (offline : Bool) : Replay Data :=
  if offline then .failed 503 (some .offlineCacheCorrupted) else .missed

def serveCachedDigestManifest (offline : Bool) (r : Request) (requestedDigest : Text) :
    Replay Data :=
  match checkedCachedManifest lib c r.path with
  | .error (.digestMismatch _) => corrupted offline
  | .error _ => .missed
  | .ok (data,file) =>
    match lib.verifySupportedDigest data requestedDigest with
    | .error _ => corrupted offline
    | .ok canonical =>
      .served (serveManifestBytes r data { cachedManifestMetadataAtPath lib c r.path file data with
        dockerContentDigest := canonical } none)

def serveCachedBlob (r : Request) (digest : Text) : Option (Response Data) :=
  match c.blobs (blobPath digest) with
  | .regular data =>
    some ⟨200,"application/octet-stream".toList,decimal (lib.size data),
      (canonicalSupportedDigest digest).getD digest,[],none,
      if r.method = .get then .data data else .empty⟩
  | _ => none

variable (host : Text)

/-- The completeness of the tag a request names, for the host's platform. -/
def cachedTagStatus (r : Request) : CacheStatus Data :=
  match manifestPathRe r.path with
  | none => ⟨[],none,[⟨.unset,[],[],some .notTag⟩],0⟩
  | some (repository,reference) =>
    if isDigestReference reference then ⟨[],none,[⟨.unset,[],[],some .notTag⟩],0⟩
    else inspectCached lib c ⟨repository,reference,[],⟨"linux".toList,host⟩⟩ ⟨false⟩

def replayCache (offline : Bool) (r : Request) : Replay Data :=
  match (blobPathRe r.path).bind (serveCachedBlob lib c r) with
  | some response => .served response
  | none =>
    if (manifestPathRe r.path).isSome then
      if r.refresh && !offline then .missed
      else if isDigestReference (manifestReference r.path) then
        serveCachedDigestManifest lib c offline r (manifestReference r.path)
      else if offline && (cachedTagStatus lib c host r).complete then
        match serveCachedManifest lib c r with
        | some response => .served response
        | none => .missed
      else .missed
    else .missed

def cacheStatusCorrupted (status : CacheStatus Data) : Bool :=
  status.gaps.any fun gap =>
    match gap.kind with
    | .corrupt => true
    | .tagMapping => gap.detail.isSome
    | .rootManifest => gap.detail.isSome
    | .platformManifest => gap.detail.isSome
    | _ => false

/-- A replay, with a corrupted tag reported as such while offline. -/
def serveCacheIfAvailable (offline : Bool) (r : Request) : Replay Data :=
  match replayCache lib c host offline r with
  | .missed =>
    if offline && (manifestPathRe r.path).isSome &&
        !isDigestReference (manifestReference r.path) &&
        cacheStatusCorrupted (cachedTagStatus lib c host r) then
      .failed 503 (some .offlineCacheCorrupted)
    else .missed
  | replay => replay

def staleCandidate (offline : Bool) (r : Request) : CacheStatus Data :=
  if offline || r.refresh then ⟨[],none,[⟨.unset,[],[],some .notLive⟩],0⟩
  else cachedTagStatus lib c host r

def isTransientUpstreamStatus (status : ℕ) : Bool := status = 429 || (500 ≤ status && status ≤ 599)

variable [DecidableEq Data]

/-- The tag's manifest as the completeness check saw it, if it is still the cached one. -/
def serveStaleManifest (r : Request) (status : CacheStatus Data) : Option (Response Data) :=
  match checkedCachedManifest lib c r.path with
  | .error _ => none
  | .ok (data,file) =>
    if status.manifestData = some data then
      some (serveManifestBytes r data (cachedManifestMetadataAtPath lib c r.path file data)
        (some .servedStale))
    else none

/-- The stale response, where the tag is complete. -/
def staleResponse (r : Request) (status : CacheStatus Data) : Option (Response Data) :=
  if status.complete then serveStaleManifest lib c r status else none

def serveManifestCacheOnFetchFailure (offline : Bool) (r : Request) : Replay Data :=
  if isDigestReference (manifestReference r.path) then
    serveCachedDigestManifest lib c offline r (manifestReference r.path)
  else .missed

/-- The upstream's answer passed through, its headers where they are set. -/
def passThrough (r : Request) (resp : UpstreamResponse Data) : Response Data :=
  ⟨resp.status,resp.contentType,resp.contentLength,resp.dockerContentDigest,resp.etag,none,
    if r.method = .get then
      match resp.body with
      | some data => .data data
      | none => .truncated
    else .empty⟩

/-- A blob is published under its digest, then served from its file. -/
def serveUpstreamBlob (e : Exchange Data) (r : Request) (resp : UpstreamResponse Data)
    (digest : Text) : Outcome Data :=
  match cacheBlob lib e resp.body digest with
  | .error error => answer (httpError 502 (.blob error) none)
  | .ok w =>
    if r.warmBlob then ⟨⟨200,[],[],digest,[],none,.empty⟩,[w],none⟩
    else
      match serveCachedBlob lib (c.write w) r digest with
      | some response => ⟨{ response with etag := resp.etag },[w],none⟩
      | none =>
        ⟨{ httpError 500 .blobUnavailable none with
          dockerContentDigest := resp.dockerContentDigest },[w],none⟩

/-- A manifest that passed validation is served whether or not it could be stored. -/
def serveUpstreamManifest (e : Exchange Data) (r : Request) (resp : UpstreamResponse Data) :
    Outcome Data :=
  match validateManifest lib resp
      (manifestValidationReference r (manifestReference r.path)) (manifestReference r.path) with
  | .error (.pinnedDigestMismatch pinned served) =>
    answer (httpError 409 (.manifest (.pinnedDigestMismatch pinned served)) none)
  | .error error => answer (httpError 502 (.manifest error) (some .upstreamManifestInvalid))
  | .ok (data,metadata) =>
    let response : Response Data :=
      ⟨resp.status,if metadata.contentType ≠ [] then metadata.contentType else resp.contentType,
        if metadata.contentLength > 0 then decimal metadata.contentLength else resp.contentLength,
        metadata.dockerContentDigest,resp.etag,none,.data data⟩
    if r.staged then ⟨response,[],some (data,metadata)⟩
    else ⟨response,(storeManifest e r.path metadata data).1,none⟩

def serveUpstream (e : Exchange Data) (r : Request) (stale : CacheStatus Data) : Outcome Data :=
  match e.fetch with
  | none =>
    match staleResponse lib c r stale with
    | some response => answer response
    | none =>
      match serveManifestCacheOnFetchFailure lib c e.offline r with
      | .served response => answer response
      | .failed status reason => answer (httpError status .corrupted reason)
      | .missed => answer (httpError 502 .upstream none)
  | some resp =>
    if stale.complete && isTransientUpstreamStatus resp.status then
      match serveStaleManifest lib c r stale with
      | some response => answer response
      | none => answer (httpError 502 .staleUnavailable none)
    else if r.method = .get ∧ resp.status = 200 then
      match blobPathRe r.path with
      | some digest => serveUpstreamBlob lib c e r resp digest
      | none =>
        if (manifestPathRe r.path).isSome then serveUpstreamManifest lib e r resp
        else answer (passThrough r resp)
    else answer (passThrough r resp)

/-- `ServeHTTP`. The second look at the cache, after validation, finds what the first one found. -/
def serveHTTP (e : Exchange Data) (r : Request) : Outcome Data :=
  if r.method = .other then answer (httpError 405 .pullOnly none)
  else if r.path = "/v2/".toList then answer ⟨200,[],[],[],[],none,.empty⟩
  else
    match serveCacheIfAvailable lib c host e.offline r with
    | .served response => answer response
    | .failed status reason => answer (httpError status .corrupted reason)
    | .missed =>
      if e.offline then answer (httpError 404 .notCached (some .offlineNotCached))
      else
        let stale := staleCandidate lib c host e.offline r
        match e.validation with
        | some error =>
          match if error = .resolution then staleResponse lib c r stale else none with
          | some response => answer response
          | none => answer (httpError error.status .validation none)
        | none => serveUpstream lib c e r stale

end

variable {lib : Codec Data} {data : Data} {resp : UpstreamResponse Data} {digest : Text}

theorem upstreamDigest_eq_ok (h : upstreamDigest lib resp data = .ok digest) :
    digest = [] ∨ lib.verifySupportedDigest data digest = .ok digest := by
  unfold upstreamDigest at h
  split at h
  · left; simpa using h.symm
  · split at h
    · rename_i canonical hv
      obtain rfl : canonical = digest := by simpa using h
      exact .inr (Codec.verify_canonical hv)
    · cases h

theorem persistedDigest_eq_ok {requestedReference pathReference headerDigest : Text}
    (h : persistedDigest lib data requestedReference pathReference headerDigest = .ok digest)
    (hd : headerDigest = [] ∨ lib.verifySupportedDigest data headerDigest = .ok headerDigest) :
    lib.verifySupportedDigest data digest = .ok digest ∧
      (isDigestReference requestedReference →
        lib.verifySupportedDigest data requestedReference = .ok digest) := by
  unfold persistedDigest at h
  split at h
  · split at h
    · split at h
      · split at h <;> cases h
      · cases h
    · rename_i canonical hv
      split at h
      · cases h
      · obtain rfl : canonical = digest := by simpa using h
        exact ⟨Codec.verify_canonical hv,fun _ => hv⟩
  · rename_i hnot
    refine ⟨?_,fun hr => absurd hr hnot⟩
    split at h
    · obtain rfl : lib.digestOf .sha256 data = digest := by simpa using h
      exact Codec.verifySupportedDigest_digestOf .sha256
    · rename_i hne
      obtain rfl : headerDigest = digest := by simpa using h
      exact hd.resolve_left hne

/-- A validated manifest decodes, with a digest it has, the requested one if any. -/
structure Validated (lib : Codec Data) (resp : UpstreamResponse Data) (requestedReference : Text)
    (data : Data) (metadata : ManifestMetadata) : Prop where
  body : resp.body = some data
  size : lib.size data ≤ maxManifestBytes
  decoded : ∃ graph, decodeManifestGraph lib data = .ok graph
  verified : lib.verifySupportedDigest data metadata.dockerContentDigest =
    .ok metadata.dockerContentDigest
  requested : isDigestReference requestedReference →
    lib.verifySupportedDigest data requestedReference = .ok metadata.dockerContentDigest

theorem validateManifest_eq_ok
    {requestedReference pathReference : Text} {metadata : ManifestMetadata}
    (h : validateManifest lib resp requestedReference pathReference = .ok (data,metadata)) :
    Validated lib resp requestedReference data metadata := by
  unfold validateManifest at h
  split at h
  · cases h
  rename_i data' hbd
  split at h
  · cases h
  rename_i hsz
  split at h
  · cases h
  split at h
  · cases h
  split at h
  · cases h
  split at h
  · cases h
  split at h
  · cases h
  rename_i graph hg
  split at h
  · cases h
  rename_i headerDigest hh
  split at h
  · cases h
  rename_i digest hp
  obtain ⟨rfl,rfl⟩ : data' = data ∧
      (⟨resp.contentType,lib.size data',digest,[],[]⟩ : ManifestMetadata) = metadata := by
    simpa using h
  obtain ⟨hv,hr⟩ := persistedDigest_eq_ok hp (upstreamDigest_eq_ok hh)
  exact ⟨hbd,by simpa using hsz,⟨graph,hg⟩,hv,hr⟩

theorem storeManifest_writes (e : Exchange Data) (path : Text) (metadata : ManifestMetadata)
    (data : Data) :
    let key := canonicalManifestRequestPath path
    (storeManifest e path metadata data).1 <+:
      [.metadata key (describe key metadata),.manifest key data] := by
  unfold storeManifest
  split
  · split
    · exact List.prefix_rfl
    · exact ⟨[_],rfl⟩
  · exact List.nil_prefix

@[simp] theorem describe_dockerContentDigest (key : Text) (metadata : ManifestMetadata) :
    (describe key metadata).dockerContentDigest = metadata.dockerContentDigest := by
  unfold describe
  split <;> rfl

variable {c : Cache Data} {host : Text} {r : Request} {response : Response Data}

/-- The target of a request by tag. -/
def tagTarget (host repository tag : Text) : CacheTarget :=
  ⟨repository,tag,[],⟨"linux".toList,host⟩⟩

theorem cachedTagStatus_complete (h : (cachedTagStatus lib c host r).complete) :
    ∃ repo tag, manifestPathRe r.path = some (repo,tag) ∧
      isDigestReference tag = false ∧
      cachedTagStatus lib c host r = inspectCached lib c (tagTarget host repo tag) ⟨false⟩ := by
  unfold cachedTagStatus at h ⊢
  split at h
  · cases h
  · rename_i repo tag hm
    split at h
    · cases h
    · rename_i ht
      refine ⟨repo,tag,hm,by simpa using ht,?_⟩
      simp [ht,tagTarget]

variable {offline : Bool}

theorem staleCandidate_complete (h : (staleCandidate lib c host offline r).complete) :
    offline = false ∧ r.refresh = false ∧
      staleCandidate lib c host offline r = cachedTagStatus lib c host r := by
  unfold staleCandidate at h ⊢
  split at h
  · cases h
  · rename_i hn
    simp only [Bool.or_eq_true,not_or,Bool.not_eq_true] at hn
    exact ⟨hn.1,hn.2,by simp [hn.1,hn.2]⟩

theorem tagDigest_eq (lib : Codec Data) (c : Cache Data) (path : Text) (file : ManifestFile)
    (data : Data) :
    tagDigest lib c path file data = lib.cachedManifestDigest data (manifestReference path)
      (((storedMetadata c file).map (·.dockerContentDigest)).getD []) := by
  unfold tagDigest checkedCachedManifestMetadataAtPath
  cases storedMetadata c file <;> rfl

/-- Served manifests carry the digest the completeness check reads. -/
theorem cachedManifestMetadataAtPath_digest (lib : Codec Data) (c : Cache Data) (path : Text)
    (file : ManifestFile) (data : Data) :
    (cachedManifestMetadataAtPath lib c path file data).dockerContentDigest =
      tagDigest lib c path file data := by
  rw [tagDigest_eq]
  unfold cachedManifestMetadataAtPath
  cases storedMetadata c file <;> rfl

theorem verify_tagDigest (lib : Codec Data) (c : Cache Data) (path : Text) (file : ManifestFile)
    (data : Data) :
    lib.verifySupportedDigest data (tagDigest lib c path file data) =
      .ok (tagDigest lib c path file data) := by
  rw [tagDigest_eq]
  exact Codec.verify_cachedManifestDigest _ _ _

/-- A blob's file, or a manifest with a digest it has, the requested one if any. -/
inductive FromCache (lib : Codec Data) (c : Cache Data) (r : Request) (response : Response Data) :
    Prop
  | blob (digest : Text) (data : Data) (path : blobPathRe r.path = some digest)
      (file : c.blobs (blobPath digest) = .regular data)
      (header : response.dockerContentDigest = (canonicalSupportedDigest digest).getD digest)
      (body : response.body = if r.method = .get then .data data else .empty)
  | manifest (data : Data) (file : ManifestFile)
      (read : checkedCachedManifest lib c r.path = .ok (data,file))
      (verified : lib.verifySupportedDigest data response.dockerContentDigest =
        .ok response.dockerContentDigest)
      (requested : isDigestReference (manifestReference r.path) →
        lib.verifySupportedDigest data (manifestReference r.path) =
          .ok response.dockerContentDigest)
      (body : response.body = if r.method = .get then .data data else .empty)

theorem serveCachedBlob_eq_some (hp : blobPathRe r.path = some digest)
    (h : serveCachedBlob lib c r digest = some response) : FromCache lib c r response := by
  unfold serveCachedBlob at h
  split at h
  · rename_i data hf
    cases h
    exact .blob digest data hp hf rfl rfl
  · cases h

theorem serveCachedManifest_eq_some (ht : isDigestReference (manifestReference r.path) = false)
    (h : serveCachedManifest lib c r = some response) : FromCache lib c r response := by
  unfold serveCachedManifest at h
  split at h
  · cases h
  · rename_i data file hrd
    cases h
    refine .manifest data file hrd ?_ (fun hd => by simp [ht] at hd) rfl
    simp only [serveManifestBytes,cachedManifestMetadataAtPath_digest]
    exact verify_tagDigest lib c r.path file data

theorem serveCachedDigestManifest_served
    (h : serveCachedDigestManifest lib c offline r (manifestReference r.path) = .served response) :
    FromCache lib c r response := by
  unfold serveCachedDigestManifest at h
  split at h
  · unfold corrupted at h; split at h <;> cases h
  · cases h
  · rename_i data file hrd
    split at h
    · unfold corrupted at h; split at h <;> cases h
    · rename_i canonical hv
      injection h with h
      subst h
      exact .manifest data file hrd (Codec.verify_canonical hv) (fun _ => hv) rfl

theorem serveCachedDigestManifest_failed {requested : Text} {status : ℕ}
    {reason : Option Reason}
    (h : serveCachedDigestManifest lib c offline r requested = .failed status reason) :
    status = 503 := by
  have hc : ∀ {offline : Bool}, (corrupted offline : Replay Data) = .failed status reason →
      status = 503 := by
    intro offline h
    unfold corrupted at h
    split at h
    · cases h; rfl
    · cases h
  unfold serveCachedDigestManifest at h
  split at h
  · exact hc h
  · cases h
  · split at h
    · exact hc h
    · cases h

theorem replayCache_cases (lib : Codec Data) (c : Cache Data) (host : Text) (offline : Bool)
    (r : Request) :
    (∃ response, replayCache lib c host offline r = .served response ∧ FromCache lib c r response) ∨
      (∃ reason, replayCache lib c host offline r = .failed 503 reason) ∨
      replayCache lib c host offline r = .missed := by
  cases h : replayCache lib c host offline r with
  | missed => exact .inr (.inr rfl)
  | failed status reason =>
    refine .inr (.inl ⟨reason,?_⟩)
    unfold replayCache at h
    split at h
    · cases h
    · split at h
      · split at h
        · cases h
        · split at h
          · rw [serveCachedDigestManifest_failed h]
          · split at h
            · split at h <;> cases h
            · cases h
      · cases h
  | served response =>
    refine .inl ⟨response,rfl,?_⟩
    unfold replayCache at h
    split at h
    · rename_i response' hb
      injection h with h
      subst h
      obtain ⟨digest,hp,hb⟩ := Option.bind_eq_some_iff.1 hb
      exact serveCachedBlob_eq_some hp hb
    · split at h
      · split at h
        · cases h
        · split at h
          · exact serveCachedDigestManifest_served h
          · rename_i hdig
            split at h
            · split at h
              · rename_i response' hs
                injection h with h
                subst h
                exact serveCachedManifest_eq_some (by simpa using hdig) hs
              · cases h
            · cases h
      · cases h

theorem serveCacheIfAvailable_cases (lib : Codec Data) (c : Cache Data) (host : Text)
    (offline : Bool) (r : Request) :
    (∃ response, serveCacheIfAvailable lib c host offline r = .served response ∧
        replayCache lib c host offline r = .served response ∧ FromCache lib c r response) ∨
      (∃ reason, serveCacheIfAvailable lib c host offline r = .failed 503 reason) ∨
      serveCacheIfAvailable lib c host offline r = .missed := by
  unfold serveCacheIfAvailable
  obtain ⟨response,h,hc⟩ | ⟨reason,h⟩ | h := replayCache_cases lib c host offline r
  · exact .inl ⟨response,by rw [h],h,hc⟩
  · exact .inr (.inl ⟨reason,by rw [h]⟩)
  · rw [h]
    dsimp only
    split
    · exact .inr (.inl ⟨_,rfl⟩)
    · exact .inr (.inr rfl)

/-- The cache's answer, an answer that is no manifest, a blob published, or an upstream manifest
validated and then staged or stored. -/
inductive Handled (lib : Codec Data) (c : Cache Data) (e : Exchange Data) (r : Request)
    (o : Outcome Data) : Prop
  | replayed (fromCache : FromCache lib c r o.response) (writes : o.writes = [])
      (staged : o.staged = none)
  | refused (unserved : r.method = .get → (manifestPathRe r.path).isSome →
      o.response.status ≠ 200) (writes : o.writes = []) (staged : o.staged = none)
  | blob (digest : Text) (data : Data) (path : blobPathRe r.path = some digest)
      (verified : lib.verifySupportedDigest data ((canonicalSupportedDigest digest).getD digest) =
        .ok ((canonicalSupportedDigest digest).getD digest))
      (served : r.warmBlob ∨
        FromCache lib (c.write (.blob (blobPath digest) data)) r o.response ∨
          o.response.status ≠ 200)
      (writes : o.writes = [.blob (blobPath digest) data]) (staged : o.staged = none)
  | manifest (resp : UpstreamResponse Data) (data : Data) (metadata : ManifestMetadata)
      (fetched : e.fetch = some resp)
      (asked : e.validation = none ∧ r.method = .get ∧ resp.status = 200)
      (path : (manifestPathRe r.path).isSome)
      (notBlob : blobPathRe r.path = none)
      (validated : validateManifest lib resp
        (manifestValidationReference r (manifestReference r.path)) (manifestReference r.path) =
          .ok (data,metadata))
      (header : o.response.dockerContentDigest = metadata.dockerContentDigest)
      (body : o.response.body = .data data)
      (stored : (r.staged ∧ o.writes = [] ∧ o.staged = some (data,metadata)) ∨
        (r.staged = false ∧ o.writes = (storeManifest e r.path metadata data).1 ∧
          o.staged = none))

variable {e : Exchange Data}

lemma Handled.error (status : ℕ) (text : Message) (reason : Option Reason)
    (h : status ≠ 200) : Handled lib c e r (answer (httpError status text reason)) :=
  .refused (fun _ _ => h) rfl rfl

theorem cacheBlob_eq_ok {body : Option Data} {w : Write Data}
    (h : cacheBlob lib e body digest = .ok w) :
    ∃ data canonical, w = .blob (blobPath digest) data ∧ lib.verifySupportedDigest data
      ((canonicalSupportedDigest digest).getD digest) = .ok canonical := by
  unfold cacheBlob at h
  split at h
  · cases h
  · rename_i data
    split at h
    · cases h
    · rename_i canonical hv
      split at h
      · exact ⟨data,canonical,by simpa using h.symm,hv⟩
      · cases h

theorem serveUpstreamBlob_handled (hp : blobPathRe r.path = some digest) :
    Handled lib c e r (serveUpstreamBlob lib c e r resp digest) := by
  unfold serveUpstreamBlob
  cases hb : cacheBlob lib e resp.body digest with
  | error error => exact .error 502 _ _ (by decide)
  | ok w =>
    obtain ⟨data,canonical,rfl,hv⟩ := cacheBlob_eq_ok hb
    obtain ⟨a,encoded,hc,-⟩ := canonicalSupportedDigest_blobDigest (blobPathRe_eq_some hp).1
    have hv' : lib.verifySupportedDigest data ((canonicalSupportedDigest digest).getD digest) =
        .ok ((canonicalSupportedDigest digest).getD digest) := by
      have hcan := Codec.canonical_of_verify hv
      simp only [hc,Option.getD_some,canonicalSupportedDigest_canonical hc,
        Option.some.injEq] at hcan hv ⊢
      rw [hv,← hcan]
    dsimp only
    split
    · rename_i hw
      exact .blob digest data hp hv' (.inl hw) rfl rfl
    · split
      · rename_i response hs
        refine .blob digest data hp hv' (.inr (.inl ?_)) rfl rfl
        cases serveCachedBlob_eq_some hp hs with
        | blob d x h₁ h₂ h₃ h₄ => exact .blob d x h₁ h₂ h₃ h₄
        | manifest x f h₁ h₂ h₃ h₄ => exact .manifest x f h₁ h₂ h₃ h₄
      · exact .blob digest data hp hv' (.inr (.inr (by simp [httpError]))) rfl rfl

theorem serveUpstreamManifest_handled
    (hf : e.fetch = some resp) (ha : e.validation = none ∧ r.method = .get ∧ resp.status = 200)
    (hm : (manifestPathRe r.path).isSome)
    (hb : blobPathRe r.path = none) : Handled lib c e r (serveUpstreamManifest lib e r resp) := by
  unfold serveUpstreamManifest
  split
  · exact .error 409 _ _ (by decide)
  · exact .error 502 _ _ (by decide)
  · rename_i data metadata hv
    cases hs : r.staged with
    | true => exact .manifest resp data metadata hf ha hm hb hv rfl rfl (.inl ⟨hs,rfl,rfl⟩)
    | false => exact .manifest resp data metadata hf ha hm hb hv rfl rfl (.inr ⟨hs,rfl,rfl⟩)

/-- A complete stale candidate is a tag's. -/
theorem staleCandidate_tag (h : (staleCandidate lib c host offline r).complete) :
    isDigestReference (manifestReference r.path) = false := by
  obtain ⟨-,-,heq⟩ := staleCandidate_complete h
  obtain ⟨repo,tag,hm,ht,-⟩ := cachedTagStatus_complete (heq ▸ h)
  simpa [manifestReference,hm] using ht

variable [DecidableEq Data]

theorem serveStaleManifest_eq_some {status : CacheStatus Data}
    (ht : isDigestReference (manifestReference r.path) = false)
    (h : serveStaleManifest lib c r status = some response) : FromCache lib c r response := by
  unfold serveStaleManifest at h
  split at h
  · cases h
  · rename_i data file hrd
    split at h
    · cases h
      refine .manifest data file hrd ?_ (fun hd => by simp [ht] at hd) rfl
      simp only [serveManifestBytes,cachedManifestMetadataAtPath_digest]
      exact verify_tagDigest lib c r.path file data
    · cases h

theorem staleResponse_eq_some
    (h : staleResponse lib c r (staleCandidate lib c host offline r) = some response) :
    FromCache lib c r response := by
  unfold staleResponse at h
  split at h
  · rename_i hcpl
    exact serveStaleManifest_eq_some (staleCandidate_tag hcpl) h
  · cases h

theorem serveUpstream_handled (hv : e.validation = none) :
    Handled lib c e r (serveUpstream lib c e r (staleCandidate lib c host e.offline r)) := by
  unfold serveUpstream
  split
  · split
    · rename_i response hs
      exact .replayed (staleResponse_eq_some hs) rfl rfl
    · split
      · rename_i response hs
        refine .replayed ?_ rfl rfl
        unfold serveManifestCacheOnFetchFailure at hs
        split at hs
        · exact serveCachedDigestManifest_served hs
        · cases hs
      · rename_i status reason hs
        unfold serveManifestCacheOnFetchFailure at hs
        split at hs
        · exact .error _ _ _ (by rw [serveCachedDigestManifest_failed hs]; decide)
        · cases hs
      · exact .error 502 _ _ (by decide)
  · rename_i resp hf
    split
    · rename_i htrans
      simp only [Bool.and_eq_true] at htrans
      split
      · rename_i response hs
        exact .replayed (serveStaleManifest_eq_some (staleCandidate_tag htrans.1) hs) rfl rfl
      · exact .error 502 _ _ (by decide)
    · split
      · rename_i hget
        split
        · rename_i digest hp
          exact serveUpstreamBlob_handled hp
        · rename_i hb
          split
          · rename_i hm
            exact serveUpstreamManifest_handled hf ⟨hv,hget⟩ hm hb
          · rename_i hm
            exact .refused (fun _ h => absurd h hm) rfl rfl
      · rename_i hget
        exact .refused (fun h _ hs => hget ⟨h,hs⟩) rfl rfl

theorem serveHTTP_handled (lib : Codec Data) (c : Cache Data) (host : Text) (e : Exchange Data)
    (r : Request) : Handled lib c e r (serveHTTP lib c host e r) := by
  unfold serveHTTP
  split
  · exact .error 405 _ _ (by decide)
  · split
    · rename_i hv2
      refine .refused (fun _ hm => ?_) rfl rfl
      rw [hv2] at hm
      exact absurd hm (by decide)
    · obtain ⟨response,h,-,hc⟩ | ⟨reason,h⟩ | h :=
        serveCacheIfAvailable_cases lib c host e.offline r
      · rw [h]; exact .replayed hc rfl rfl
      · rw [h]; exact .error 503 _ _ (by decide)
      · rw [h]
        dsimp only
        split
        · exact .error 404 _ _ (by decide)
        · split
          · rename_i error _
            split
            · rename_i response hs
              split at hs
              · exact .replayed (staleResponse_eq_some hs) rfl rfl
              · cases hs
            · exact .error _ _ _ (by cases error <;> decide)
          · rename_i hv
            exact serveUpstream_handled hv

end TalosBox.Mirror
