import TalosBox.MirrorRetention

/-! A complete tag is served while its upstream is down, and guests keep it complete as long as it
does not move to an image that is not cached. -/
namespace TalosBox.Mirror

variable {Data : Type} [DecidableEq Data] {lib : Codec Data} {S : Set Data} {c : Cache Data}
  {host root : Text} {t : TagTarget}

/-- A guest's request and what it meets. -/
structure Visit (Data : Type) where
  exchange : Exchange Data
  method : Method
  path : Text

def Visit.writes (lib : Codec Data) (host : Text) (c : Cache Data) (v : Visit Data) :
    List (Write Data) :=
  (serveHTTP lib c host v.exchange (.guest v.method v.path)).writes

def visits (lib : Codec Data) (host : Text) (c : Cache Data) (vs : List (Visit Data)) : Cache Data :=
  vs.foldl (fun c v => c.writes (v.writes lib host c)) c

/-- What upstream answers to a request for the tag, where that is a manifest. -/
def Visit.moved (lib : Codec Data) (t : TagTarget) (v : Visit Data) : Option ManifestMetadata :=
  if v.method = .get ∧ v.path = t.path ∧ v.exchange.validation = none then
    match v.exchange.fetch with
    | none => none
    | some resp =>
      if resp.status = 200 then
        match validateManifest lib resp t.tag t.tag with
        | .ok (_,metadata) => some metadata
        | .error _ => none
      else none
  else none

def isSHA256 (digest : Text) : Bool :=
  (splitDigestReference digest).any fun p => p.1 = Algorithm.sha256.name

/-- A manifest answered for the tag is the root of a complete graph already, and its sidecar not
left beside a root of another algorithm. -/
def Visit.retains (lib : Codec Data) (host : Text) (t : TagTarget) (c : Cache Data)
    (v : Visit Data) : Bool :=
  match v.moved lib t with
  | none => true
  | some metadata =>
    (inspectCached lib c ⟨t.repository,[],metadata.dockerContentDigest,⟨"linux".toList,host⟩⟩
      ⟨false⟩).complete &&
    (v.exchange.dataWritten || !v.exchange.metadataWritten ||
      isSHA256 (inspectCached lib c (t.cacheTarget host []) ⟨false⟩).rootDigest)

def retained (lib : Codec Data) (host : Text) (t : TagTarget) : Cache Data → List (Visit Data) → Bool
  | _,[] => true
  | c,v::vs => v.retains lib host t c && retained lib host t (c.writes (v.writes lib host c)) vs

/-- A request leaves the tag's entry alone, or stores there the manifest upstream answered. -/
theorem Visit.writes_cases (lib : Codec Data) (host : Text) (c : Cache Data) (t : TagTarget)
    (v : Visit Data) :
    (∀ w ∈ v.writes lib host c, w.Spares t) ∨
    ∃ resp data metadata, v.exchange.fetch = some resp ∧ v.moved lib t = some metadata ∧
      Validated lib resp t.tag data metadata ∧
      v.writes lib host c = (storeManifest v.exchange t.path metadata data).1 := by
  by_cases hp : v.path = t.path
  · have hnil : v.writes lib host c = [] → ∀ w ∈ v.writes lib host c, w.Spares t := by
      intro h
      simp [h]
    unfold Visit.writes at hnil ⊢
    have hhand := serveHTTP_handled lib c host v.exchange (.guest v.method v.path)
    cases hhand with
    | replayed _ h _ => exact .inl (hnil h)
    | refused _ h _ => exact .inl (hnil h)
    | blob digest data hb _ _ _ _ =>
      have hno := blobPathRe_manifest t.repository t.segment.reference_slash
      rw [show (Request.guest v.method v.path).path = t.path from hp,TagTarget.path,hno] at hb
      cases hb
    | manifest resp data metadata hf ha _ _ hval _ _ hsr =>
      obtain ⟨-,h,-⟩ | ⟨-,hws,-⟩ := hsr
      · exact .inl (hnil h)
      · have href : manifestReference (Request.guest v.method v.path).path = t.tag := by
          rw [show (Request.guest v.method v.path).path = t.path from hp]
          exact t.manifestReference
        have hval' : validateManifest lib resp t.tag t.tag = .ok (data,metadata) := by
          rw [href] at hval
          exact hval
        obtain ⟨hvali,hget,hsa⟩ := ha
        have hmvd : v.moved lib t = some metadata := by
          have hcond : v.method = .get ∧ v.path = t.path ∧ v.exchange.validation = none :=
            ⟨hget,hp,hvali⟩
          simp only [Visit.moved,if_pos hcond,hf,if_pos hsa,hval']
        refine .inr ⟨resp,data,metadata,hf,hmvd,validateManifest_eq_ok hval',?_⟩
        rw [hws,show (Request.guest v.method v.path).path = t.path from hp]
  · exact .inl (serveHTTP_spares hp c v.exchange)

omit [DecidableEq Data] in
theorem storeManifest_alone {e : Exchange Data} {path : Text} {metadata : ManifestMetadata}
    {data : Data} {w : Write Data} (h : (storeManifest e path metadata data).1 = [w]) :
    e.metadataWritten ∧ e.dataWritten = false := by
  unfold storeManifest at h
  split at h
  · rename_i hm
    split at h
    · simp at h
    · rename_i hd
      exact ⟨hm,by simpa using hd⟩
  · cases h

omit [DecidableEq Data] in
theorem isSHA256_root (hm : TagMaps lib c (t.cacheTarget host []) root)
    (h : isSHA256 root) : ∃ encoded, root = digestText .sha256 encoded := by
  obtain ⟨data,-,-,-,hd,-⟩ := tagMaps_entry.1 hm
  have hv := entryDigest_verifies lib c t data
  rw [hd] at hv
  obtain ⟨a,hs,hro⟩ := Codec.verifySupportedDigest_eq_ok.1 hv
  have hnm : a.name = Algorithm.sha256.name := by simpa [isSHA256,hs] using h
  cases a with
  | sha256 => exact ⟨_,hro⟩
  | sha512 => exact absurd hnm (by decide)

/-- One request keeps the tag complete, for its root or for the one upstream answered. -/
theorem Visit.keeps (hcf : lib.CollisionFree S) (hin : c.Within S) {v : Visit Data}
    (he : v.exchange.Within S) (hr : v.retains lib host t c)
    (hc : TagComplete lib c t host root) :
    ∃ root', TagComplete lib (c.writes (v.writes lib host c)) t host root' ∧
      (root' = root ∨ ∃ metadata, v.moved lib t = some metadata ∧
        root' = metadata.dockerContentDigest) := by
  have hprp : ∀ w ∈ v.writes lib host c, w.Proper lib S :=
    serveHTTP_proper (guest_honest v.method v.path) c v.exchange he
  obtain hspa | ⟨resp,data,metadata,hf,hmvd,hval,hws⟩ := v.writes_cases lib host c t
  · exact ⟨root,hc.writes hcf hin fun w hm => ⟨hprp w hm,hspa w hm⟩,.inl rfl⟩
  · simp only [Visit.retains,hmvd,Bool.and_eq_true] at hr
    obtain ⟨root',hro',hnew⟩ := inspectCached_complete.1 hr.1
    obtain rfl : root' = metadata.dockerContentDigest := by simpa [TagMaps] using hro'
    have hpre := storeManifest_writes v.exchange t.path metadata data
    rw [t.canonicalPath] at hpre
    have hdesc := describe_dockerContentDigest t.path metadata
    have hsha : (storeManifest v.exchange t.path metadata data).1 =
        [.metadata t.path (describe t.path metadata)] →
        ∃ encoded, root = digestText .sha256 encoded := by
      intro halone
      refine isSHA256_root hc.maps ?_
      obtain ⟨hm,hd⟩ := storeManifest_alone halone
      simpa [hm,hd,hc.inspect.2] using hr.2
    rw [hws]
    obtain h | h := TagComplete.restored hcf hin hpre (by rw [hdesc]; exact hval.verified)
      hval.size (he data ⟨resp,hf,hval.body⟩) hc hsha (by
        rw [hdesc]
        exact hnew.retarget rfl rfl)
    · exact ⟨root,h,.inl rfl⟩
    · exact ⟨_,h,.inr ⟨metadata,hmvd,hdesc⟩⟩

theorem visits_within (hin : c.Within S) {vs : List (Visit Data)}
    (hvs : ∀ v ∈ vs, v.exchange.Within S) : (visits lib host c vs).Within S := by
  induction vs generalizing c with
  | nil => exact hin
  | cons v vs ih =>
    have hprp : ∀ w ∈ v.writes lib host c, w.Proper lib S :=
      serveHTTP_proper (guest_honest v.method v.path) c v.exchange (hvs v (by simp))
    exact ih (hin.writes hprp) fun v hm => hvs v (List.mem_cons_of_mem _ hm)

theorem visits_keep (hcf : lib.CollisionFree S) (hin : c.Within S) {vs vs' : List (Visit Data)}
    (hvs : ∀ v ∈ vs, v.exchange.Within S) (hr : retained lib host t c (vs++vs'))
    (hc : TagComplete lib c t host root) :
    ∃ root', TagComplete lib (visits lib host c vs) t host root' ∧
      (root' = root ∨ ∃ v ∈ vs, ∃ metadata, v.moved lib t = some metadata ∧
        root' = metadata.dockerContentDigest) := by
  induction vs generalizing c root with
  | nil => exact ⟨root,hc,.inl rfl⟩
  | cons v vs ih =>
    simp only [List.cons_append,retained,Bool.and_eq_true] at hr
    have he := hvs v (by simp)
    have hprp : ∀ w ∈ v.writes lib host c, w.Proper lib S :=
      serveHTTP_proper (guest_honest v.method v.path) c v.exchange he
    obtain ⟨root₁,hc₁,h₁⟩ := Visit.keeps hcf hin he hr.1 hc
    obtain ⟨root₂,hc₂,h₂⟩ :=
      ih (hin.writes hprp) (fun v hm => hvs v (List.mem_cons_of_mem _ hm)) hr.2 hc₁
    refine ⟨root₂,hc₂,?_⟩
    rcases h₂ with rfl | ⟨v',hm,h₂⟩
    · exact h₁.imp id fun h => ⟨v,by simp,h⟩
    · exact .inr ⟨v',List.mem_cons_of_mem _ hm,h₂⟩

/-- The upstream's name does not resolve, the connection fails, or it answers 429 or 5xx. -/
def Exchange.Down (e : Exchange Data) : Prop :=
  e.offline = false ∧ (e.validation = some .resolution ∨ e.validation = none ∧
    ∀ response, e.fetch = some response →
      response.status = 429 ∨ 500 ≤ response.status ∧ response.status ≤ 599)

/-- The stale candidate of a complete tag is what the check saw, and is served. -/
theorem TagComplete.stale (hcf : lib.CollisionFree S) (hin : c.Within S) (method : Method)
    (hc : TagComplete lib c t host root) :
    (staleCandidate lib c host false (.guest method t.path)).complete ∧
    ∃ data response, c.manifests (.v2 t.path) = .regular data ∧
      serveStaleManifest lib c (.guest method t.path)
        (staleCandidate lib c host false (.guest method t.path)) = some response ∧
      response.status = 200 ∧ response.dockerContentDigest = root ∧
      response.body = if method = .get then .data data else .empty := by
  have hsa : staleCandidate lib c host false (.guest method t.path) =
      inspectCached lib c (t.cacheTarget host []) ⟨false⟩ := by
    simp [staleCandidate,cachedTagStatus,Request.guest,TagTarget.path,t.segment.manifestPathRe,
      t.notDigest,TagTarget.cacheTarget]
  rw [hsa]
  refine ⟨hc.inspect.1,?_⟩
  obtain ⟨data,file,graph,hrd,hd,-,-⟩ := tagMaps_iff.1 hc.maps
  obtain ⟨hfl,-,rfl⟩ := TagTarget.read_iff.1 hrd
  obtain ⟨image,⟨data',graph',_,held,-⟩,-⟩ := hc.graph
  -- the root's bytes and the entry's have the same digest
  obtain ⟨verified,hv⟩ := held.verified
  have hv' := verify_tagDigest lib c t.path (.v2 t.path) data
  rw [show tagDigest lib c t.path (.v2 t.path) data = root from hd] at hv'
  obtain rfl := hcf.eq (hin data' held.holds) (hin data ⟨_,hfl⟩) hv hv'
  have hda : (inspectCached lib c (t.cacheTarget host []) ⟨false⟩).manifestData = some data' :=
    inspectCached_manifestData hc.maps held
  have hserve : serveStaleManifest lib c (.guest method t.path)
      (inspectCached lib c (t.cacheTarget host []) ⟨false⟩) =
      some (serveManifestBytes (.guest method t.path) data'
        (cachedManifestMetadataAtPath lib c t.path (.v2 t.path) data') (some .servedStale)) := by
    simp only [serveStaleManifest,Request.guest]
    rw [show checkedCachedManifest lib c t.path = .ok (data',.v2 t.path) from hrd]
    simp only [hda,if_true]
  exact ⟨data',_,hfl,hserve,rfl,(cachedManifestMetadataAtPath_digest lib c _ _ _).trans hd,rfl⟩

theorem TagComplete.served (hcf : lib.CollisionFree S) (hin : c.Within S) {e : Exchange Data}
    (he : e.Down) {method : Method} (hmth : method ≠ .other)
    (hc : TagComplete lib c t host root) :
    ∃ data, c.manifests (.v2 t.path) = .regular data ∧
      (serveHTTP lib c host e (.guest method t.path)).response.status = 200 ∧
      (serveHTTP lib c host e (.guest method t.path)).response.dockerContentDigest = root ∧
      (serveHTTP lib c host e (.guest method t.path)).response.body =
        (if method = .get then .data data else .empty) ∧
      (serveHTTP lib c host e (.guest method t.path)).writes = [] := by
  obtain ⟨hcpl,data,response,hfl,hserve,hsa,hhdr,hbd⟩ := hc.stale hcf hin method
  suffices h : serveHTTP lib c host e (.guest method t.path) = answer response by
    rw [h]
    exact ⟨data,hfl,hsa,hhdr,hbd,rfl⟩
  obtain ⟨hoffl,hdo⟩ := he
  have hbl := blobPathRe_manifest t.repository t.segment.reference_slash
  have hmiss : serveCacheIfAvailable lib c host false (.guest method t.path) = .missed := by
    simp [serveCacheIfAvailable,replayCache,Request.guest,TagTarget.path,hbl,t.manifestReference,t.notDigest]
  have hping : t.path ≠ "/v2/".toList := manifestRequestPath_ne_ping t.repository t.tag
  have hstl : staleResponse lib c (.guest method t.path)
      (staleCandidate lib c host false (.guest method t.path)) = some response := by
    rw [staleResponse,if_pos hcpl,hserve]
  have hm : (Request.guest method t.path).method ≠ .other := hmth
  have hp : (Request.guest method t.path).path ≠ "/v2/".toList := hping
  simp only [serveHTTP,if_neg hm,if_neg hp,hoffl,hmiss,Bool.false_eq_true,if_false]
  rcases hdo with hv | ⟨hv,hfetch⟩
  · simp only [hv,if_true,hstl]
  · simp only [hv,serveUpstream]
    cases hf : e.fetch with
    | none => simp only [hstl]
    | some resp =>
      have htran : isTransientUpstreamStatus resp.status := by
        simpa [isTransientUpstreamStatus] using hfetch resp hf
      simp only [hcpl,htran,Bool.and_self,if_true,hserve]

namespace Sample

/-- A guest pulls the tag, and upstream answers with this manifest. -/
def pull (s : Sample) : Visit Sample := ⟨online s,.get,tag.path⟩

/-- Upstream cannot be reached. -/
def unreachable : Exchange Sample := ⟨false,none,none,true,true,true⟩

lemma unreachable_down : unreachable.Down := ⟨rfl,.inr ⟨rfl,fun _ h => by cases h⟩⟩

lemma retained_index : retained codec "arm64".toList tag cache [pull .index] := by
  decide +kernel

end Sample

end TalosBox.Mirror
