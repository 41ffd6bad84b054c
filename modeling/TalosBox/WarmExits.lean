import TalosBox.MirrorIntegrity
import TalosBox.WarmAgreement

/-! The ways out of a warm. Without an error it left through one of four exits; two rely on what the
request handler found. -/
namespace TalosBox.Mirror

open Cutting

variable {Data : Type}

/-! A warm of any reference the parser takes, also one that names neither a tag nor a digest. -/

namespace ParsedReference

/-- The tag of the target. -/
def tag (p : ParsedReference) : Text := if isDigestReference p.listedRef then [] else p.listedRef

def target (p : ParsedReference) (architecture : Text) : CacheTarget :=
  ⟨p.repository,p.tag,p.pinnedDigest,⟨"linux".toList,architecture⟩⟩

def rootRequest (p : ParsedReference) : Request := ⟨.get,p.requestPath,true,p.requestReference,true,false⟩

end ParsedReference

section

variable (lib : Codec Data) (p : ParsedReference) (architecture : Text) (before : CacheStatus Data) (c : Cache Data)

/-- The last look at the cache, for the target with the digest it came to. -/
def inspectPublished (digest : Text) (writes : List (Write Data)) : WarmRun Data :=
  if (inspectCached lib (c.writes writes) { p.target architecture with digest := digest } ⟨false⟩).complete then
    ⟨if before.complete && before.rootDigest = digest then .alreadyComplete else .warmed,writes,[],[]⟩
  else ⟨failedWarm before,writes,[],[]⟩

def publishParsedTag (es : List (Exchange Data)) (metadata : ManifestMetadata) (body : Data) : WarmRun Data :=
  if p.tag = [] then inspectPublished lib p architecture before c metadata.dockerContentDigest []
  else
    match es with
    | [] => ⟨.killed,[],[],[]⟩
    | e::_ =>
      let stored := storeManifest e (manifestRequestPath p.repository p.tag) metadata body
      if stored.2 then inspectPublished lib p architecture before c metadata.dockerContentDigest stored.1
      else ⟨failedWarm before,stored.1,[],[]⟩

def publishParsed (es : List (Exchange Data)) (metadata : ManifestMetadata) (body : Data) : WarmRun Data :=
  match es with
  | [] => ⟨.killed,[],[],[]⟩
  | e::es =>
    let digest := metadata.dockerContentDigest
    let stored := storeManifest e (manifestRequestPath p.repository digest) metadata body
    if stored.2 then
      if (inspectCached lib (c.writes stored.1) ⟨p.repository,[],digest,(p.target architecture).platform⟩
          ⟨false⟩).complete then
        let tagged := publishParsedTag lib p architecture before (c.writes stored.1) es metadata body
        { tagged with writes := stored.1++tagged.writes }
      else ⟨failedWarm before,stored.1,[],[]⟩
    else ⟨failedWarm before,stored.1,[],[]⟩

end

section

variable [DecidableEq Data] (lib : Codec Data) (host : Text) (finish : List Text → List Text) (c : Cache Data)
  (es : List (Exchange Data))

/-- `warmOne` behind the parsers. -/
def warmParsed (p : ParsedReference) (architecture : Text) (refresh : Bool) : WarmRun Data :=
  let before := inspectCached lib c (p.target architecture) ⟨false⟩
  let refresh := refresh && p.tag ≠ [] && p.pinnedDigest = []
  if before.complete && !refresh then ⟨.alreadyComplete,[],[],[]⟩
  else
    match es with
    | [] => ⟨.killed,[],[],[]⟩
    | e::es =>
      let o := serveHTTP lib c host e p.rootRequest
      if o.response.status ≠ 200 then
        ⟨if before.complete && refresh && isTransientWarmError o.response then .alreadyComplete
          else failedWarm before,o.writes,[],[]⟩
      else if refresh && o.staged.isNone then ⟨.alreadyComplete,o.writes,[],[]⟩
      else
        match o.response.body with
        | .data body =>
          let digest := o.response.dockerContentDigest
          if p.pinnedDigest ≠ [] ∧ digest ≠ p.pinnedDigest then ⟨failedWarm before,o.writes,[],[]⟩
          else
            let c := c.writes o.writes
            let s := warmManifestGraph lib host p.repository finish (p.target architecture).platform es c body
              [digest] []
            match s.progress with
            | .killed => ⟨.killed,o.writes++s.writes,s.followed,s.downloads⟩
            | .failed => ⟨failedWarm before,o.writes++s.writes,s.followed,s.downloads⟩
            | .done =>
              let published := publishParsed lib p architecture before (c.writes s.writes) s.rest (stagedMetadata o)
                body
              ⟨published.outcome,o.writes++s.writes++published.writes,s.followed,s.downloads⟩
        | _ => ⟨failedWarm before,o.writes,[],[]⟩

/-- `warmOne`. -/
def warmReference (hosts : HostLibrary) (reference architecture : Text) (refresh : Bool) : WarmRun Data :=
  match parseWarmReference reference with
  | .error _ => ⟨.failedMissing,[],[],[]⟩
  | .ok p =>
    match parseUpstreamAuthority hosts p.upstream with
    | .error _ => ⟨.failedMissing,[],[],[]⟩
    | .ok _ => warmParsed lib host finish c es p architecture refresh

end

/-- No error was returned. -/
def WarmOutcome.succeeded : WarmOutcome → Bool
  | warmed => true
  | alreadyComplete => true
  | _ => false

lemma failedWarm_succeeded (before : CacheStatus Data) : (failedWarm before).succeeded = false := by
  unfold failedWarm
  split <;> rfl

section

variable [DecidableEq Data] {lib : Codec Data} {host architecture : Text} {finish : List Text → List Text}
  {c : Cache Data} {es : List (Exchange Data)} {p : ParsedReference} {refresh : Bool}

/-- A warm that ended without an error, and what it knew at its exit. -/
inductive Exit (lib : Codec Data) (host : Text) (c : Cache Data) (p : ParsedReference) (architecture : Text)
    (run : WarmRun Data) : Prop
  | alreadyComplete (before : (inspectCached lib c (p.target architecture) ⟨false⟩).complete)
      (writes : run.writes = [])
  | transient (listed : p.tag ≠ [] ∧ p.pinnedDigest = [])
      (before : (inspectCached lib c (p.target architecture) ⟨false⟩).complete) (e : Exchange Data)
      (writes : run.writes = (serveHTTP lib c host e p.rootRequest).writes)
  | unrevalidated (listed : p.tag ≠ [] ∧ p.pinnedDigest = []) (e : Exchange Data)
      (status : (serveHTTP lib c host e p.rootRequest).response.status = 200)
      (staged : (serveHTTP lib c host e p.rootRequest).staged = none)
      (writes : run.writes = (serveHTTP lib c host e p.rootRequest).writes)
  | warmed (digest : Text) (pinned : p.pinnedDigest = [] ∨ digest = p.pinnedDigest)
      (published : (inspectCached lib (c.writes run.writes) { p.target architecture with digest := digest }
        ⟨false⟩).complete)

omit [DecidableEq Data] in
theorem publishParsedTag_succeeded {before : CacheStatus Data} {metadata : ManifestMetadata} {body : Data}
    (h : (publishParsedTag lib p architecture before c es metadata body).outcome.succeeded) :
    (inspectCached lib (c.writes (publishParsedTag lib p architecture before c es metadata body).writes)
      { p.target architecture with digest := metadata.dockerContentDigest } ⟨false⟩).complete := by
  have hinsp : ∀ writes, (inspectPublished lib p architecture before c metadata.dockerContentDigest
        writes).outcome.succeeded →
      (inspectCached lib (c.writes (inspectPublished lib p architecture before c metadata.dockerContentDigest
        writes).writes) { p.target architecture with digest := metadata.dockerContentDigest } ⟨false⟩).complete
        := by
    intro writes h
    unfold inspectPublished at h ⊢
    split at h
    · rename_i hcpl
      rw [if_pos hcpl]
      exact hcpl
    · rw [failedWarm_succeeded] at h
      cases h
  unfold publishParsedTag at h ⊢
  split at h
  · rename_i htag
    rw [if_pos htag]
    exact hinsp [] h
  · rename_i htag
    rw [if_neg htag]
    split at h
    · cases h
    · simp only at h ⊢
      split at h
      · rename_i hsr
        rw [if_pos hsr]
        exact hinsp _ h
      · rw [failedWarm_succeeded] at h
        cases h

omit [DecidableEq Data] in
theorem publishParsed_succeeded {before : CacheStatus Data} {metadata : ManifestMetadata} {body : Data}
    (h : (publishParsed lib p architecture before c es metadata body).outcome.succeeded) :
    (inspectCached lib (c.writes (publishParsed lib p architecture before c es metadata body).writes)
      { p.target architecture with digest := metadata.dockerContentDigest } ⟨false⟩).complete := by
  unfold publishParsed at h ⊢
  split at h
  · cases h
  · simp only at h ⊢
    split at h
    · rename_i hsr
      rw [if_pos hsr]
      split at h
      · rename_i hcpl
        rw [if_pos hcpl]
        simp only [Cache.writes_append]
        exact publishParsedTag_succeeded h
      · rw [failedWarm_succeeded] at h
        cases h
    · rw [failedWarm_succeeded] at h
      cases h

theorem warmParsed_exit (h : (warmParsed lib host finish c es p architecture refresh).outcome.succeeded) :
    Exit lib host c p architecture (warmParsed lib host finish c es p architecture refresh) := by
  have hfa : ∀ {before : CacheStatus Data}, ¬(failedWarm before).succeeded := by
    intro before hsuc
    rw [failedWarm_succeeded] at hsuc
    cases hsuc
  have hli : (refresh && p.tag ≠ [] && p.pinnedDigest = []) → p.tag ≠ [] ∧ p.pinnedDigest = [] := by
    simp only [Bool.and_eq_true,decide_eq_true_eq]
    exact fun h => ⟨h.1.2,h.2⟩
  revert h
  unfold warmParsed
  dsimp only
  generalize (refresh && p.tag ≠ [] && p.pinnedDigest = []) = refresh at hli ⊢
  split
  · rename_i hbef
    simp only [Bool.and_eq_true] at hbef
    exact fun _ => .alreadyComplete hbef.1 rfl
  split
  · exact fun h => nomatch h
  rename_i e es
  split
  · split
    · rename_i hbef
      simp only [Bool.and_eq_true] at hbef
      exact fun _ => .transient (hli hbef.1.2) hbef.1.1 e rfl
    · exact fun h => absurd h hfa
  rename_i hsa
  split
  · rename_i hsg
    simp only [Bool.and_eq_true,Option.isNone_iff_eq_none] at hsg
    exact fun _ => .unrevalidated (hli hsg.1) e (not_not.1 hsa) hsg.2 rfl
  split
  · split
    · exact fun h => absurd h hfa
    · rename_i body _ hpin
      split
      · exact fun h => nomatch h
      · exact fun h => absurd h hfa
      · intro h
        refine .warmed (serveHTTP lib c host e p.rootRequest).response.dockerContentDigest ?_ ?_
        · by_contra hneit
          push Not at hneit
          exact hpin hneit
        · simp only [Cache.writes_append]
          exact publishParsed_succeeded h
  · exact fun h => absurd h hfa

section

variable {r : Request} {e : Exchange Data} {repo tag : Text} {response : Response Data}

omit [DecidableEq Data] in
/-- A tag is replayed offline only, and only from a complete image. -/
theorem replayCache_tag {offline : Bool} (hpa : manifestPathRe r.path = some (repo,tag))
    (hbl : blobPathRe r.path = none) (htag : isDigestReference tag = false)
    (h : replayCache lib c host offline r = .served response) :
    (inspectCached lib c (tagTarget host repo tag) ⟨false⟩).complete := by
  have hrefe : manifestReference r.path = tag := by simp [manifestReference,hpa]
  have hsa : cachedTagStatus lib c host r = inspectCached lib c (tagTarget host repo tag) ⟨false⟩ := by
    simp [cachedTagStatus,hpa,htag,tagTarget]
  unfold replayCache at h
  simp only [hbl,Option.bind_none,hpa,Option.isSome_some,if_true,hrefe,htag,hsa] at h
  split at h
  · cases h
  · split at h
    · rename_i hfalse
      cases hfalse
    · split at h
      · rename_i hcpl
        exact (Bool.and_eq_true _ _ ▸ hcpl).2
      · cases h

theorem serveUpstream_refreshed (hmth : r.method = .get) (hsg : r.staged)
    (hpa : manifestPathRe r.path = some (repo,tag)) (hbl : blobPathRe r.path = none)
    (htag : isDigestReference tag = false) {stale : CacheStatus Data} (hstl : stale.complete = false)
    (hsa : (serveUpstream lib c e r stale).response.status = 200) :
    (serveUpstream lib c e r stale).staged ≠ none := by
  have hrsp : staleResponse lib c r stale = none := by simp [staleResponse,hstl]
  have hmissed : serveManifestCacheOnFetchFailure lib c e.offline r = .missed := by
    simp [serveManifestCacheOnFetchFailure,manifestReference,hpa,htag]
  unfold serveUpstream at hsa ⊢
  cases hfetch : e.fetch with
  | none =>
    simp only [hfetch,hrsp,hmissed] at hsa
    cases hsa
  | some resp =>
    simp only [hfetch,hstl,Bool.false_and,Bool.false_eq_true,if_false,hmth,true_and,hbl,hpa,Option.isSome_some,
      if_true] at hsa ⊢
    split at hsa
    · rename_i h200
      rw [if_pos h200]
      unfold serveUpstreamManifest at hsa ⊢
      split at hsa
      · cases hsa
      · cases hsa
      · simp [hsg]
    · rename_i h200
      exact absurd hsa h200

/-- A refreshed tag that is answered without being staged was replayed from a complete image. -/
theorem refreshed_unstaged (hmth : r.method = .get) (hrefr : r.refresh) (hsg : r.staged)
    (hpa : manifestPathRe r.path = some (repo,tag)) (hbl : blobPathRe r.path = none)
    (htag : isDigestReference tag = false) (hsa : (serveHTTP lib c host e r).response.status = 200)
    (hno : (serveHTTP lib c host e r).staged = none) :
    (inspectCached lib c (tagTarget host repo tag) ⟨false⟩).complete := by
  have hstl : (staleCandidate lib c host e.offline r).complete = false := by
    simp [staleCandidate,hrefr,CacheStatus.complete]
  have hping : r.path ≠ "/v2/".toList := by
    intro heq
    rw [heq,show manifestPathRe "/v2/".toList = none by decide] at hpa
    cases hpa
  rw [serveHTTP,if_neg (by simp [hmth]),if_neg hping] at hsa hno
  rcases serveCacheIfAvailable_cases lib c host e.offline r with ⟨response,-,hrpl,-⟩ | ⟨reason,hserve⟩ | hserve
  · exact replayCache_tag hpa hbl htag hrpl
  · simp only [hserve] at hsa
    cases hsa
  · simp only [hserve] at hsa hno
    split at hsa
    · cases hsa
    · rename_i honline
      rw [if_neg honline] at hno
      cases hval : e.validation with
      | some error =>
        have hrsp : staleResponse lib c r (staleCandidate lib c host e.offline r) = none := by
          simp [staleResponse,hstl]
        simp only [hval,hrsp] at hsa
        cases error <;> cases hsa
      | none =>
        simp only [hval] at hsa hno
        exact absurd hno (serveUpstream_refreshed hmth hsg hpa hbl htag hstl hsa)

end

theorem staged_writes {r : Request} {e : Exchange Data} (hsg : r.staged) (hbl : blobPathRe r.path = none) :
    (serveHTTP lib c host e r).writes = [] := by
  cases serveHTTP_handled lib c host e r with
  | replayed _ hwr _ => exact hwr
  | refused _ hwr _ => exact hwr
  | blob dig _ hpa =>
    rw [hbl] at hpa
    cases hpa
  | manifest _ _ _ _ _ _ _ _ _ _ hsr =>
    rcases hsr with ⟨-,hwr,-⟩ | ⟨hnot,-⟩
    · exact hwr
    · rw [hsg] at hnot
      cases hnot

end

section

variable {lib : Codec Data} {c : Cache Data} {target : CacheTarget} {opts : InspectOptions}

/-- A target with neither a tag nor a digest is never complete. -/
theorem listed_of_complete (h : (inspectCached lib c target opts).complete) :
    target.tag ≠ [] ∨ target.digest ≠ [] := by
  by_contra hno
  push Not at hno
  obtain ⟨root,hmaps,image,⟨data,graph,digests,hhl,-⟩,-⟩ := inspectCached_complete.1 h
  rw [TagMaps,if_pos hno.1,hno.2] at hmaps
  exact absurd (hmaps ▸ hhl.supported) (by decide)

theorem complete_of_digest {dig : Text}
    (h : (inspectCached lib c { target with digest := dig } opts).complete)
    (hdig : target.digest = [] ∧ target.tag ≠ [] ∨ target.digest = dig) :
    (inspectCached lib c target opts).complete := by
  rcases hdig with ⟨hno,htag⟩ | rfl
  · obtain ⟨root,hmaps,hro⟩ := inspectCached_complete.1 h
    refine inspectCached_complete.2 ⟨root,?_,hro.retarget rfl rfl⟩
    rw [TagMaps,if_neg htag] at hmaps ⊢
    obtain ⟨data,file,graph,hrd,hveri,-,hdeco⟩ := hmaps
    exact ⟨data,file,graph,hrd,hveri,.inl hno,hdeco⟩
  · exact h

end

section

variable {reference : Text} {p : ParsedReference}

theorem splitTag_plain (name : Text) : '/' ∉ (splitTag name).2 ∧ ':' ∉ (splitTag name).2 := by
  unfold splitTag
  split
  · rename_i before tag hcut
    split_ifs with htag
    · simp
    · exact ⟨fun hsl => htag (.inl hsl),(cutLast_eq_some.1 hcut).2⟩
  · simp

theorem parseWarmReference_eq_ok (h : parseWarmReference reference = .ok p) : p.repository ≠ [] ∧
    (p.pinnedDigest = [] ∧ '/' ∉ p.listedRef ∧ ':' ∉ p.listedRef ∨
      canonicalSupportedDigest p.pinnedDigest = some p.pinnedDigest ∧ p.listedRef ≠ []) := by
  simp only [parseWarmReference] at h
  split at h
  · cases h
  split at h
  · cases h
  split at h
  · cases h
  rename_i hne
  push Not at hne
  split at h
  · cases h
    exact ⟨hne.2,.inl ⟨rfl,splitTag_plain _⟩⟩
  · split at h
    · cases h
    · rename_i dig _ canonical hcan
      cases h
      refine ⟨hne.2,.inr ⟨canonicalSupportedDigest_canonical hcan,?_⟩⟩
      split_ifs with htag
      · exact htag
      · rintro rfl
        exact absurd (canonicalSupportedDigest_canonical hcan) (by decide)

/-- The request line gives the path back as it was written. -/
def ReadBack (path : Text) : Prop := newRequest path = some path ∧ '%' ∉ path

theorem newRequest_eq_some {target path : Text} (h : newRequest target = some path) :
    ∃ uri, parseRequestURI uri = some path := by
  dsimp only [newRequest] at h
  split at h
  · cases h
  split at h
  · cases h
  split at h
  · exact ⟨_,h⟩
  · cases h

theorem ReadBack.line {path : Text} (h : ReadBack path) : '\n' ∉ path := by
  obtain ⟨uri,huri⟩ := newRequest_eq_some h.1
  intro hln
  dsimp only [parseRequestURI] at huri
  split_ifs at huri with hctl _
  refine hctl (List.any_eq_true.2 ⟨'\n',?_,by decide⟩)
  rw [← Option.some.inj huri] at hln
  exact (List.takeWhile_prefix _).subset hln

theorem segment_of_refresh (hprs : parseWarmReference reference = .ok p) (hrd : ReadBack p.requestPath)
    (hli : p.tag ≠ [] ∧ p.pinnedDigest = []) :
    Segment p.repository p.tag ∧ isDigestReference p.tag = false ∧
      p.requestPath = manifestRequestPath p.repository p.tag := by
  obtain ⟨hrp,hpin⟩ := parseWarmReference_eq_ok hprs
  have htag : isDigestReference p.listedRef = false := by
    by_contra hdig
    exact hli.1 (if_pos (by simpa using hdig))
  have heq : p.tag = p.listedRef := by simp [ParsedReference.tag,htag]
  have hpa : p.requestPath = manifestRequestPath p.repository p.tag := by
    simp [ParsedReference.requestPath,ParsedReference.requestReference,hli.2,heq]
  have hln := hrd.line
  rw [hpa,manifestRequestPath_eq] at hln
  simp only [List.mem_append,not_or] at hln
  have hsl : '/' ∉ p.tag := by
    rcases hpin with ⟨-,hsl,-⟩ | ⟨hcan,-⟩
    · rwa [heq]
    · rw [hli.2] at hcan
      exact absurd hcan (by decide)
  exact ⟨⟨hrp,hln.1.1.2,hli.1,hsl,hln.2⟩,heq ▸ htag,hpa⟩

theorem listedRef_iff (hprs : parseWarmReference reference = .ok p) :
    p.listedRef ≠ [] ↔ p.tag ≠ [] ∨ p.pinnedDigest ≠ [] := by
  obtain ⟨-,⟨hpin,-,hcol⟩ | ⟨hcan,hli⟩⟩ := parseWarmReference_eq_ok hprs
  · have htag : isDigestReference p.listedRef = false := by
      by_contra hdig
      exact hcol (isDigestReference_plain (by simpa using hdig)).2.2
    simp [ParsedReference.tag,htag,hpin]
  · have hpin : p.pinnedDigest ≠ [] := by
      intro hno
      rw [hno] at hcan
      exact absurd hcan (by decide)
    simp [hli,hpin]

end

section

variable [DecidableEq Data]

theorem Exit.complete {lib : Codec Data} {c : Cache Data} {reference architecture : Text} {p : ParsedReference}
    {run : WarmRun Data} (h : Exit lib architecture c p architecture run)
    (hprs : parseWarmReference reference = .ok p) (hrd : ReadBack p.requestPath) (hli : p.listedRef ≠ []) :
    (inspectCached lib (c.writes run.writes) (p.target architecture) ⟨false⟩).complete := by
  have hrefr : p.tag ≠ [] ∧ p.pinnedDigest = [] → Segment p.repository p.tag ∧ isDigestReference p.tag = false ∧
      p.requestPath = manifestRequestPath p.repository p.tag := segment_of_refresh hprs hrd
  have hwr : p.tag ≠ [] ∧ p.pinnedDigest = [] → ∀ e : Exchange Data,
      (serveHTTP lib c architecture e p.rootRequest).writes = [] := by
    intro htag e
    obtain ⟨hsegm,-,hpa⟩ := hrefr htag
    refine staged_writes rfl ?_
    rw [ParsedReference.rootRequest,hpa]
    exact blobPathRe_manifest _ hsegm.reference_slash
  cases h with
  | alreadyComplete hbef hno => rwa [hno]
  | transient htag hbef e hno => rwa [hno,hwr htag e]
  | unrevalidated htag e hsa hsg hno =>
    obtain ⟨hsegm,hdig,hpa⟩ := hrefr htag
    have hbl : blobPathRe p.rootRequest.path = none := by
      rw [ParsedReference.rootRequest,hpa]
      exact blobPathRe_manifest _ hsegm.reference_slash
    have hmani : manifestPathRe p.rootRequest.path = some (p.repository,p.tag) := by
      rw [ParsedReference.rootRequest,hpa]
      exact hsegm.manifestPathRe
    have hcpl := refreshed_unstaged rfl rfl rfl hmani hbl hdig hsa hsg
    rw [hno,hwr htag e,Cache.writes_nil,ParsedReference.target,htag.2]
    exact hcpl
  | warmed dig hpin hpubl =>
    refine complete_of_digest hpubl ?_
    rcases hpin with hno | rfl
    · exact .inl ⟨hno,((listedRef_iff hprs).1 hli).resolve_right (not_not.2 hno)⟩
    · exact .inr rfl

end

/-- Upstream answers with the image and its digest, whatever it is asked for. -/
def Sample.announced : Exchange Sample :=
  ⟨false,none,some ⟨200,imageManifestType,[],Sample.image.digest,[],some .image⟩,true,true,true⟩

def WarmReference.parsed (ref : WarmReference) (upstream : Text) : ParsedReference :=
  ⟨upstream,ref.repository,if ref.tag ≠ [] then ref.tag else ref.pinnedDigest,ref.pinnedDigest⟩

section

variable {ref : WarmReference} {upstream : Text}

theorem WarmReference.parsed_tag : (ref.parsed upstream).tag = ref.tag := by
  unfold ParsedReference.tag WarmReference.parsed
  by_cases htag : ref.tag = []
  · have hpin : ref.pinnedDigest ≠ [] := ref.listed.resolve_left (not_not.2 htag)
    have hdig : isDigestReference ref.pinnedDigest :=
      isDigestReference_of_supported (by simp [Supported,ref.pinned_canonical.resolve_left hpin])
    simp [htag,hdig]
  · have hdig : isDigestReference ref.tag = false := by
      by_contra hdig
      exact ref.tag_plain.2.1 (isDigestReference_plain (by simpa using hdig)).2.2
    simp [htag,hdig]

theorem WarmReference.parsed_target (architecture : Text) :
    (ref.parsed upstream).target architecture = ref.target architecture := by
  rw [ParsedReference.target,WarmReference.parsed_tag]
  rfl

theorem WarmReference.parsed_rootRequest : (ref.parsed upstream).rootRequest = rootRequest ref := by
  have hrefe : (ref.parsed upstream).requestReference = ref.requestReference := by
    unfold ParsedReference.requestReference WarmReference.requestReference WarmReference.parsed
    by_cases hpin : ref.pinnedDigest = []
    · simp [hpin]
    · simp [hpin]
  rw [ParsedReference.rootRequest,ParsedReference.requestPath,hrefe]
  rfl

variable {lib : Codec Data} {architecture : Text} {before : CacheStatus Data} {c : Cache Data}
  {es : List (Exchange Data)} {metadata : ManifestMetadata} {body : Data}

/-- Without a tag the last look repeats the one before it. -/
theorem publishTag_eq_publishParsedTag (upstream : Text) (hbef : ref.tag = [] → before.complete = false)
    (hcpl : (inspectCached lib c ⟨ref.repository,[],metadata.dockerContentDigest,
      (ref.target architecture).platform⟩ ⟨false⟩).complete) :
    publishTag lib ref architecture before c es metadata body =
      publishParsedTag lib (ref.parsed upstream) architecture before c es metadata body := by
  unfold publishTag publishParsedTag inspectPublished
  rw [WarmReference.parsed_tag,WarmReference.parsed_target]
  by_cases htag : ref.tag = []
  · have hsm : ({ ref.target architecture with digest := metadata.dockerContentDigest } : CacheTarget) =
        ⟨ref.repository,[],metadata.dockerContentDigest,(ref.target architecture).platform⟩ := by
      rw [← htag]
      rfl
    rw [if_pos htag,if_pos htag,Cache.writes_nil,hsm,if_pos hcpl,hbef htag]
    rfl
  · rw [if_neg htag,if_neg htag]
    rfl

theorem publish_eq_publishParsed (upstream : Text) (hbef : ref.tag = [] → before.complete = false) :
    publish lib ref architecture before c es metadata body =
      publishParsed lib (ref.parsed upstream) architecture before c es metadata body := by
  have hrp : (ref.parsed upstream).repository = ref.repository := rfl
  unfold publish publishParsed
  cases es with
  | nil => rfl
  | cons e es =>
    simp only [WarmReference.parsed_target,hrp]
    split
    · split
      · rename_i hcpl
        rw [publishTag_eq_publishParsedTag upstream hbef hcpl]
      · rfl
    · rfl

theorem warmOne_eq_warmParsed [DecidableEq Data] (lib : Codec Data) (host : Text) (finish : List Text → List Text)
    (c : Cache Data) (es : List (Exchange Data)) (ref : WarmReference) (upstream architecture : Text) (refresh : Bool) :
    warmOne lib host finish c es ref architecture refresh =
      warmParsed lib host finish c es (ref.parsed upstream) architecture refresh := by
  have hpin : (ref.parsed upstream).pinnedDigest = ref.pinnedDigest := rfl
  have hrp : (ref.parsed upstream).repository = ref.repository := rfl
  unfold warmOne warmParsed
  simp only [WarmReference.parsed_tag,WarmReference.parsed_target,WarmReference.parsed_rootRequest,hpin]
  split
  · rfl
  rename_i hlook
  have hbef : ref.tag = [] → (inspectCached lib c (ref.target architecture) ⟨false⟩).complete = false := by
    intro htag
    simpa [htag] using hlook
  simp only [publish_eq_publishParsed upstream hbef]
  rfl

end

end TalosBox.Mirror
