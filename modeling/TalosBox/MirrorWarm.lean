import TalosBox.MirrorServer

/-! Warming the cache. A warm's requests meet one exchange after the other; where the list ends, the
process was killed. The run keeps its writes in order, so each state on disk is a prefix of them. -/
open List

namespace TalosBox.Mirror

variable {Data : Type}

/-- A reference of the warm list, parsed: a tag, a pinned digest, or both. -/
structure WarmReference where
  repository : Text
  tag : Text
  pinnedDigest : Text
  repository_ne : repository ≠ []
  repository_line : '\n' ∉ repository
  tag_plain : '/' ∉ tag ∧ ':' ∉ tag ∧ '\n' ∉ tag
  pinned_canonical : pinnedDigest = [] ∨ canonicalSupportedDigest pinnedDigest = some pinnedDigest
  listed : tag ≠ [] ∨ pinnedDigest ≠ []

namespace WarmReference

def requestReference (ref : WarmReference) : Text :=
  if ref.pinnedDigest ≠ [] then ref.pinnedDigest else ref.tag

def target (ref : WarmReference) (architecture : Text) : CacheTarget :=
  ⟨ref.repository,ref.tag,ref.pinnedDigest,⟨"linux".toList,architecture⟩⟩

lemma tag_segment (ref : WarmReference) (h : ref.tag ≠ []) : Segment ref.repository ref.tag :=
  ⟨ref.repository_ne,ref.repository_line,h,ref.tag_plain.1,ref.tag_plain.2.2⟩

theorem segment (ref : WarmReference) : Segment ref.repository ref.requestReference := by
  have hpl : ref.requestReference ≠ [] ∧ '/' ∉ ref.requestReference ∧
      '\n' ∉ ref.requestReference := by
    unfold requestReference
    split
    · rename_i hne
      have hdig := isDigestReference_of_supported
        (by simp [Supported,ref.pinned_canonical.resolve_left hne] : Supported ref.pinnedDigest)
      obtain ⟨hs,hn,-⟩ := isDigestReference_plain hdig
      exact ⟨hne,hs,hn⟩
    · rename_i hne
      have htag : ref.tag ≠ [] := ref.listed.resolve_right hne
      exact ⟨htag,ref.tag_plain.1,ref.tag_plain.2.2⟩
  exact ⟨ref.repository_ne,ref.repository_line,hpl.1,hpl.2.1,hpl.2.2⟩

end WarmReference

/-- The root is asked for under a digest it has to have, and kept back. -/
def rootRequest (ref : WarmReference) : Request :=
  ⟨.get,manifestRequestPath ref.repository ref.requestReference,true,ref.requestReference,true,
    false⟩

def childRequest (repository digest : Text) : Request :=
  ⟨.get,manifestRequestPath repository digest,true,digest,false,false⟩

def warmBlobRequest (repository digest : Text) : Request :=
  ⟨.get,blobRequestPath repository digest,false,[],false,true⟩

inductive Analysis
  | index (children : List PlatformDescriptor)
  | manifest (blobs : List Text)

def analyzeWarmManifest (lib : Codec Data) (body : Data) : Except GraphError Analysis :=
  match decodeManifestGraph lib body with
  | .error e => .error e
  | .ok manifest =>
    if isManifestIndex manifest then .ok (.index manifest.manifests)
    else .ok (.manifest (manifest.config::manifest.layers))

/-- `os.Stat` finds something under the digest. -/
def blobCached (c : Cache Data) (digest : Text) : Bool :=
  match c.blobs (blobPath digest) with
  | .missing => false
  | _ => true

inductive Progress
  | done
  | failed
  | killed
  deriving DecidableEq

/-- A stretch of a warm: how it ended, the files it wrote, the descriptors it followed or asked for,
and the exchanges left. -/
structure WarmStep (Data : Type) where
  progress : Progress
  writes : List (Write Data)
  followed : List Text
  downloads : List Text
  rest : List (Exchange Data)

/-- A stretch after others, whose writes and descriptors stand in front. -/
def WarmStep.after (s : WarmStep Data) (writes : List (Write Data)) (followed downloads : List Text) :
    WarmStep Data :=
  { s with
    writes := writes++s.writes
    followed := followed++s.followed
    downloads := downloads++s.downloads }

def WarmStep.failing (s : WarmStep Data) : WarmStep Data :=
  { s with progress := if s.progress = .killed then .killed else .failed }

section

variable [DecidableEq Data] (lib : Codec Data) (host repository : Text)

/-- The downloads that came to an end, in that order. One that fails does not end those under way.
-/
def downloadBlobs : Cache Data → List Text → List (Exchange Data) → WarmStep Data
  | _,[],es => ⟨.done,[],[],[],es⟩
  | _,_::_,[] => ⟨.killed,[],[],[],[]⟩
  | c,blob::blobs,e::es =>
    let o := serveHTTP lib c host e (warmBlobRequest repository blob)
    let s := downloadBlobs (c.writes o.writes) blobs es
    if o.response.status = 200 then s.after o.writes [] [blob]
    else (s.after o.writes [] [blob]).failing

/-- Missing blobs are downloaded; `finish` says which came to an end and in what order. -/
def warmBlobs (finish : List Text → List Text) (c : Cache Data) (blobs : List Text)
    (es : List (Exchange Data)) : WarmStep Data :=
  let pending := blobs.dedup.filter fun blob => !blobCached c blob
  let s := downloadBlobs lib host repository c (finish pending) es
  if pending.all fun blob => blob ∈ finish pending || blobCached (c.writes s.writes) blob then s
  else s.failing

variable (finish : List Text → List Text) (platform : Platform)

/-- Down the selected descriptors to the blobs. A child warmed before is not asked for again. -/
def warmManifestGraph (es : List (Exchange Data)) (c : Cache Data) (body : Data)
    (seen warmed : List Text) : WarmStep Data :=
  match analyzeWarmManifest lib body with
  | .error _ => ⟨.failed,[],[],[],es⟩
  | .ok (.manifest blobs) => warmBlobs lib host repository finish c blobs es
  | .ok (.index children) =>
    match selectPlatformDescriptor children platform with
    | none => ⟨.failed,[],[],[],es⟩
    | some selected =>
      if selected.digest ∈ seen ∧ selected.digest ∈ warmed then ⟨.done,[],[],[],es⟩
      else
        match es with
        | [] => ⟨.killed,[],[],[],[]⟩
        | e::es =>
          let o := serveHTTP lib c host e (childRequest repository selected.digest)
          if o.response.status ≠ 200 then ⟨.failed,o.writes,[selected.digest],[],es⟩
          else if selected.digest ∈ warmed then ⟨.done,o.writes,[selected.digest],[],es⟩
          else
            match o.response.body with
            | .data child =>
              (warmManifestGraph es (c.writes o.writes) child (selected.digest::seen)
                (selected.digest::warmed)).after o.writes [selected.digest] []
            | _ => ⟨.failed,o.writes,[selected.digest],[],es⟩

end

/-- The manifest a staged request kept back, with the digest it is published under. -/
def stagedMetadata (o : Outcome Data) : ManifestMetadata :=
  { (o.staged.map Prod.snd).getD ⟨[],0,[],[],[]⟩ with
    dockerContentDigest := o.response.dockerContentDigest }

inductive WarmOutcome
  | warmed
  | alreadyComplete
  | failedMissing
  | failedRevalidate
  | killed
  deriving DecidableEq

structure WarmRun (Data : Type) where
  outcome : WarmOutcome
  writes : List (Write Data)
  followed : List Text
  downloads : List Text

def failedWarm (before : CacheStatus Data) : WarmOutcome :=
  if before.complete then .failedRevalidate else .failedMissing

/-- Upstream trouble that is not the manifest's fault. -/
def isTransientWarmError (response : Response Data) : Bool :=
  response.status ≠ 409 && response.reason ≠ some .upstreamManifestInvalid &&
    (response.status = 429 || 500 ≤ response.status)

section

variable (lib : Codec Data) (ref : WarmReference) (architecture : Text)

/-- The tag's entry, written once the digest's graph is complete. -/
def publishTag (before : CacheStatus Data) (c : Cache Data) (es : List (Exchange Data))
    (metadata : ManifestMetadata) (body : Data) : WarmRun Data :=
  if ref.tag = [] then ⟨.warmed,[],[],[]⟩
  else
    match es with
    | [] => ⟨.killed,[],[],[]⟩
    | e::_ =>
      let stored := storeManifest e (manifestRequestPath ref.repository ref.tag) metadata body
      let digest := metadata.dockerContentDigest
      if stored.2 then
        if (inspectCached lib (c.writes stored.1) { ref.target architecture with digest := digest }
            ⟨false⟩).complete then
          ⟨if before.complete && before.rootDigest = digest then .alreadyComplete else .warmed,
            stored.1,[],[]⟩
        else ⟨failedWarm before,stored.1,[],[]⟩
      else ⟨failedWarm before,stored.1,[],[]⟩

/-- The root under its digest; the tag only if the digest then is complete. -/
def publish (before : CacheStatus Data) (c : Cache Data) (es : List (Exchange Data))
    (metadata : ManifestMetadata) (body : Data) : WarmRun Data :=
  match es with
  | [] => ⟨.killed,[],[],[]⟩
  | e::es =>
    let digest := metadata.dockerContentDigest
    let stored := storeManifest e (manifestRequestPath ref.repository digest) metadata body
    if stored.2 then
      if (inspectCached lib (c.writes stored.1) ⟨ref.repository,[],digest,
          (ref.target architecture).platform⟩ ⟨false⟩).complete then
        let tagged := publishTag lib ref architecture before (c.writes stored.1) es metadata body
        { tagged with writes := stored.1++tagged.writes }
      else ⟨failedWarm before,stored.1,[],[]⟩
    else ⟨failedWarm before,stored.1,[],[]⟩

end

variable [DecidableEq Data]

/-- `warmOne`: the root is kept back, its graph warmed, and then published under its digest and at
last the tag. -/
def warmOne (lib : Codec Data) (host : Text) (finish : List Text → List Text) (c : Cache Data)
    (es : List (Exchange Data)) (ref : WarmReference) (architecture : Text) (refresh : Bool) :
    WarmRun Data :=
  let before := inspectCached lib c (ref.target architecture) ⟨false⟩
  let refresh := refresh && ref.tag ≠ [] && ref.pinnedDigest = []
  if before.complete && !refresh then ⟨.alreadyComplete,[],[],[]⟩
  else
    match es with
    | [] => ⟨.killed,[],[],[]⟩
    | e::es =>
      let o := serveHTTP lib c host e (rootRequest ref)
      if o.response.status ≠ 200 then
        ⟨if before.complete && refresh && isTransientWarmError o.response then .alreadyComplete
          else failedWarm before,o.writes,[],[]⟩
      else if refresh && o.staged.isNone then ⟨.alreadyComplete,o.writes,[],[]⟩
      else
        match o.response.body with
        | .data body =>
          let digest := o.response.dockerContentDigest
          if ref.pinnedDigest ≠ [] ∧ digest ≠ ref.pinnedDigest then ⟨failedWarm before,o.writes,[],[]⟩
          else
            let c := c.writes o.writes
            let s := warmManifestGraph lib host ref.repository finish
              (ref.target architecture).platform es c body [digest] []
            match s.progress with
            | .killed => ⟨.killed,o.writes++s.writes,s.followed,s.downloads⟩
            | .failed => ⟨failedWarm before,o.writes++s.writes,s.followed,s.downloads⟩
            | .done =>
              let p := publish lib ref architecture before (c.writes s.writes) s.rest
                (stagedMetadata o) body
              ⟨p.outcome,o.writes++s.writes++p.writes,s.followed,s.downloads⟩
        | _ => ⟨failedWarm before,o.writes,[],[]⟩

/-- The cache holds these bytes as a manifest. -/
def Cache.Holds (c : Cache Data) (data : Data) : Prop := ∃ file, c.manifests file = .regular data

/-- Upstream answers with these bytes. -/
def Exchange.Carries (e : Exchange Data) (data : Data) : Prop :=
  ∃ response, e.fetch = some response ∧ response.body = some data

/-- Every manifest there is before a list of exchanges, and every answer in them. -/
def contents (c : Cache Data) (es : List (Exchange Data)) : Set Data :=
  { data | c.Holds data ∨ ∃ e ∈ es, e.Carries data }

theorem rootRequest_served (lib : Codec Data) (c : Cache Data) (host : Text) (e : Exchange Data)
    (ref : WarmReference) :
    (serveHTTP lib c host e (rootRequest ref)).writes = [] ∧
    ∀ data, (serveHTTP lib c host e (rootRequest ref)).response.status = 200 →
      (serveHTTP lib c host e (rootRequest ref)).response.body = .data data →
      lib.size data ≤ maxManifestBytes ∧ (c.Holds data ∨ e.Carries data) ∧
      lib.verifySupportedDigest data
        (serveHTTP lib c host e (rootRequest ref)).response.dockerContentDigest =
          .ok (serveHTTP lib c host e (rootRequest ref)).response.dockerContentDigest := by
  have hbl : blobPathRe (rootRequest ref).path = none :=
    blobPathRe_manifest ref.repository ref.segment.reference_slash
  cases serveHTTP_handled lib c host e (rootRequest ref) with
  | replayed hc hws _ =>
    refine ⟨hws,fun data hs hbd => ?_⟩
    cases hc with
    | blob dig _ hp => rw [hbl] at hp; cases hp
    | manifest data' file hrd hv _ hbd' =>
      rw [hbd] at hbd'
      obtain rfl : data = data' := by simpa [rootRequest] using hbd'
      obtain ⟨hfl,hsz⟩ := checkedCachedManifest_file hrd
      exact ⟨hsz,.inl ⟨file,hfl⟩,hv⟩
  | refused hne hws _ =>
    refine ⟨hws,fun data hs _ => absurd hs (hne rfl ?_)⟩
    rw [rootRequest,ref.segment.manifestPathRe]
    rfl
  | blob dig _ hp => rw [hbl] at hp; cases hp
  | manifest resp data' metadata hf _ _ _ hval hhdr hbd' hsr =>
    have hval := validateManifest_eq_ok hval
    obtain ⟨-,hws,-⟩ | ⟨hst,-⟩ := hsr
    · refine ⟨hws,fun data _ hbd => ?_⟩
      obtain rfl : data = data' := by simpa [hbd] using hbd'
      rw [hhdr]
      exact ⟨hval.size,.inr ⟨resp,hf,hval.body⟩,hval.verified⟩
    · cases hst

variable {lib : Codec Data} {host repository : Text} {E : Exchange Data → Prop}
  {P : Write Data → Prop}

/-- All writes of the request have the property, in whichever of these exchanges. -/
def RequestWrites (lib : Codec Data) (host : Text) (E : Exchange Data → Prop)
    (P : Write Data → Prop) (r : Request) : Prop :=
  ∀ c e, E e → ∀ w ∈ (serveHTTP lib c host e r).writes, P w

variable {es : List (Exchange Data)} {c : Cache Data}

theorem downloadBlobs_writes {blobs : List Text}
    (he : ∀ e ∈ es, E e) (h : ∀ dig ∈ (downloadBlobs lib host repository c blobs es).downloads,
      RequestWrites lib host E P (warmBlobRequest repository dig)) :
    ∀ w ∈ (downloadBlobs lib host repository c blobs es).writes, P w := by
  fun_induction downloadBlobs lib host repository c blobs es with
  | case1 => simp
  | case2 => simp
  | case3 c blob blobs e es o s hs ih =>
    intro w hw
    rcases mem_append.1 hw with hw | hw
    · exact h blob (mem_append_left _ (mem_singleton_self _)) c e (he e (by simp)) w hw
    · exact ih (fun e hm => he e (mem_cons_of_mem _ hm))
        (fun dig hd => h dig (mem_append_right _ hd)) w hw
  | case4 c blob blobs e es o s hs ih =>
    intro w hw
    rcases mem_append.1 hw with hw | hw
    · exact h blob (mem_append_left _ (mem_singleton_self _)) c e (he e (by simp)) w hw
    · exact ih (fun e hm => he e (mem_cons_of_mem _ hm))
        (fun dig hd => h dig (mem_append_right _ hd)) w hw

theorem warmBlobs_writes {finish : List Text → List Text} {blobs : List Text} (he : ∀ e ∈ es, E e)
    (h : ∀ dig ∈ (warmBlobs lib host repository finish c blobs es).downloads,
      RequestWrites lib host E P (warmBlobRequest repository dig)) :
    ∀ w ∈ (warmBlobs lib host repository finish c blobs es).writes, P w := by
  unfold warmBlobs at h ⊢
  dsimp only at h ⊢
  split at h
  · rename_i hc
    rw [if_pos hc]
    exact downloadBlobs_writes he h
  · rename_i hc
    rw [if_neg hc]
    exact downloadBlobs_writes he h

/-- The graph's writes are those of the requests for the descriptors it followed. -/
theorem warmManifestGraph_writes {finish : List Text → List Text} {platform : Platform} {body : Data} {seen warmed : List Text}
    (he : ∀ e ∈ es, E e) (hchd : ∀ dig ∈ (warmManifestGraph lib host repository finish platform es c body seen
      warmed).followed, RequestWrites lib host E P (childRequest repository dig))
    (hbl : ∀ dig ∈ (warmManifestGraph lib host repository finish platform es c body seen
      warmed).downloads, RequestWrites lib host E P (warmBlobRequest repository dig)) :
    ∀ w ∈ (warmManifestGraph lib host repository finish platform es c body seen warmed).writes,
      P w := by
  fun_induction warmManifestGraph lib host repository finish platform es c body seen warmed with
  | case1 => simp
  | case2 es c body seen warmed blobs => exact warmBlobs_writes he hbl
  | case3 => simp
  | case4 => simp
  | case5 => simp
  | case6 c => exact hchd _ (mem_singleton_self _) c _ (he _ (by simp))
  | case7 c => exact hchd _ (mem_singleton_self _) c _ (he _ (by simp))
  | case8 c body seen warmed children _ selected _ _ e es o _ _ child _ ih =>
    intro w hw
    rcases mem_append.1 hw with hw | hw
    · exact hchd selected.digest (mem_append_left _ (mem_singleton_self _)) c e
        (he e (by simp)) w hw
    · exact ih (fun e hm => he e (mem_cons_of_mem _ hm)) (fun dig hd => hchd dig (mem_append_right _ hd))
        (fun dig hd => hbl dig (mem_append_right _ hd)) w hw
  | case9 c => exact hchd _ (mem_singleton_self _) c _ (he _ (by simp))

omit [DecidableEq Data] in
/-- The tag is published behind the root, and only once the root's graph is complete. -/
theorem publish_cases (lib : Codec Data) (ref : WarmReference) (architecture : Text)
    (before : CacheStatus Data) (c : Cache Data) (es : List (Exchange Data))
    (metadata : ManifestMetadata) (body : Data) :
    (publish lib ref architecture before c es metadata body).writes = [] ∨
    ∃ e, (publish lib ref architecture before c es metadata body).writes =
        (storeManifest e (manifestRequestPath ref.repository metadata.dockerContentDigest) metadata
          body).1 ∨
      (ref.tag ≠ [] ∧
        (inspectCached lib (c.writes (storeManifest e (manifestRequestPath ref.repository
            metadata.dockerContentDigest) metadata body).1)
          ⟨ref.repository,[],metadata.dockerContentDigest,(ref.target architecture).platform⟩
          ⟨false⟩).complete ∧
        ∃ e', (publish lib ref architecture before c es metadata body).writes =
          (storeManifest e (manifestRequestPath ref.repository metadata.dockerContentDigest)
            metadata body).1 ++
          (storeManifest e' (manifestRequestPath ref.repository ref.tag) metadata body).1) := by
  unfold publish
  split
  · exact .inl rfl
  · rename_i e es
    refine .inr ⟨e,?_⟩
    dsimp only
    split
    · split
      · rename_i hcpl
        unfold publishTag
        split
        · exact .inl (by simp)
        · rename_i htag
          split
          · exact .inl (by simp)
          · rename_i e' _
            refine .inr ⟨htag,hcpl,e',?_⟩
            dsimp only
            split
            · split <;> rfl
            · rfl
      · exact .inl rfl
    · exact .inl rfl

/-- The digest the root is answered with. -/
def warmRoot (lib : Codec Data) (host : Text) (c : Cache Data) (es : List (Exchange Data))
    (ref : WarmReference) : Text :=
  match es with
  | [] => []
  | e::_ => (serveHTTP lib c host e (rootRequest ref)).response.dockerContentDigest

/-- A warm that got its root: a manifest with its digest, the graph warmed from it, and the
publication if that is done. -/
structure Warming (lib : Codec Data) (host : Text) (finish : List Text → List Text)
    (c : Cache Data) (es : List (Exchange Data)) (ref : WarmReference) (architecture : Text)
    (run : WarmRun Data) (body : Data) (metadata : ManifestMetadata) (graph : WarmStep Data) :
    Prop where
  root : metadata.dockerContentDigest = warmRoot lib host c es ref
  size : lib.size body ≤ maxManifestBytes
  origin : body ∈ contents c es
  verified : lib.verifySupportedDigest body metadata.dockerContentDigest =
    .ok metadata.dockerContentDigest
  warmed : ∃ es', es' ⊆ es ∧ graph = warmManifestGraph lib host ref.repository finish
    (ref.target architecture).platform es' c body [metadata.dockerContentDigest] []
  followed : run.followed = graph.followed
  downloads : run.downloads = graph.downloads
  writes : run.writes = graph.writes ∨ ∃ before es, run.writes = graph.writes ++
    (publish lib ref architecture before (c.writes graph.writes) es metadata body).writes

theorem warmOne_cases (lib : Codec Data) (host : Text) (finish : List Text → List Text)
    (c : Cache Data) (es : List (Exchange Data)) (ref : WarmReference) (architecture : Text)
    (refresh : Bool) :
    (warmOne lib host finish c es ref architecture refresh).writes = [] ∨
    ∃ body metadata graph, Warming lib host finish c es ref architecture
      (warmOne lib host finish c es ref architecture refresh) body metadata graph := by
  unfold warmOne
  dsimp only
  split
  · exact .inl rfl
  · split
    · exact .inl rfl
    · rename_i e es
      obtain ⟨hws,hserved⟩ := rootRequest_served lib c host e ref
      split
      · exact .inl hws
      · rename_i hs
        split
        · exact .inl hws
        · split
          · rename_i body hbd
            split
            · exact .inl hws
            · obtain ⟨hsz,horigin,hv⟩ := hserved body (by simpa using hs) hbd
              have hin : body ∈ contents c (e :: es) :=
                horigin.imp id fun h => ⟨e,by simp,h⟩
              have hsub : es ⊆ e :: es := subset_cons_self e es
              refine .inr ⟨body,stagedMetadata (serveHTTP lib c host e (rootRequest ref)),
                warmManifestGraph lib host ref.repository finish (ref.target architecture).platform
                  es c body [(serveHTTP lib c host e (rootRequest ref)).response.dockerContentDigest]
                  [],?_⟩
              simp only [hws]
              split
              · exact ⟨rfl,hsz,hin,hv,⟨es,hsub,rfl⟩,rfl,rfl,.inl rfl⟩
              · exact ⟨rfl,hsz,hin,hv,⟨es,hsub,rfl⟩,rfl,rfl,.inl rfl⟩
              · exact ⟨rfl,hsz,hin,hv,⟨es,hsub,rfl⟩,rfl,rfl,.inr ⟨_,_,rfl⟩⟩
          · exact .inl hws

end TalosBox.Mirror
