import TalosBox.LastSplit

/-! The mirror's digest references and request paths, as its expressions read them, and the cache
files they name. -/
namespace TalosBox.Mirror
open LastSplit List

/-- Strings as the list of their characters. -/
abbrev Text := List Char

scoped instance lawfulBEqText : LawfulBEq Text := inferInstance

def isLetter (c : Char) : Bool := ('A' ≤ c && c ≤ 'Z') || ('a' ≤ c && c ≤ 'z')
def isDigit (c : Char) : Bool := '0' ≤ c && c ≤ '9'
def isSeparator (c : Char) : Bool := c = '+' || c = '.' || c = '_' || c = '-'
def lowerHex : Text := "0123456789abcdef".toList
def isHex (c : Char) : Bool := c ∈ lowerHex || c ∈ "ABCDEF".toList
def toLower (s : Text) : Text := s.map Char.toLower

/-- The rest of an algorithm's name: letters and digits, each separator followed by a letter. -/
def algorithmRest : Text → Bool
  | [] => true
  | [c] => isLetter c || isDigit c
  | c::d::s =>
    if isLetter c || isDigit c then algorithmRest (d::s)
    else isSeparator c && isLetter d && algorithmRest s

def isAlgorithm : Text → Bool
  | [] => false
  | c::s => isLetter c && algorithmRest s

/-- `digestRefRe`, both groups lower-cased. -/
def splitDigestReference (reference : Text) : Option (Text × Text) :=
  match reference.dropWhile (· ≠ ':') with
  | [] => none
  | _::encoded =>
    if isAlgorithm (reference.takeWhile (· ≠ ':')) ∧ encoded ≠ [] ∧ encoded.all isHex then
      some (toLower (reference.takeWhile (· ≠ ':')),toLower encoded)
    else none

def isDigestReference (reference : Text) : Bool := (splitDigestReference reference).isSome

inductive Algorithm
  | sha256
  | sha512
  deriving DecidableEq

namespace Algorithm

def name : Algorithm → Text
  | sha256 => "sha256".toList
  | sha512 => "sha512".toList

/-- Hexadecimal digits of a sum. -/
def width : Algorithm → ℕ
  | sha256 => 64
  | sha512 => 128

end Algorithm

def supportedAlgorithm (algorithm : Text) : Option Algorithm :=
  if algorithm = Algorithm.sha256.name then some .sha256
  else if algorithm = Algorithm.sha512.name then some .sha512
  else none

inductive DigestError
  | invalid
  | unsupported (algorithm : Text)
  /-- The content has this digest instead. -/
  | content (digest : Text)
  deriving DecidableEq

def digestText (a : Algorithm) (encoded : Text) : Text := a.name ++ ':' :: encoded

def checkedSupportedDigest (reference : Text) : Except DigestError (Algorithm × Text) :=
  match splitDigestReference reference with
  | none => .error .invalid
  | some (algorithm,encoded) =>
    match supportedAlgorithm algorithm with
    | none => .error (.unsupported algorithm)
    | some a => if encoded.length ≠ a.width then .error .invalid else .ok (a,encoded)

def canonicalSupportedDigest (reference : Text) : Option Text :=
  match checkedSupportedDigest reference with
  | .ok (a,encoded) => some (digestText a encoded)
  | .error _ => none

/-- The digests the mirror can check. -/
def Supported (reference : Text) : Prop := (canonicalSupportedDigest reference).isSome

instance (reference : Text) : Decidable (Supported reference) :=
  inferInstanceAs (Decidable (_ = true))

/-- The form in which `hex.EncodeToString` writes a sum. -/
structure IsSum (a : Algorithm) (encoded : Text) : Prop where
  hex : ∀ c ∈ encoded, c ∈ lowerHex
  length : encoded.length = a.width

theorem lowerHex_facts (c : Char) (h : c ∈ lowerHex) :
    c.toLower = c ∧ isHex c ∧ c ≠ '/' ∧ c ≠ ':' ∧ c ≠ '\n' := by
  have hall : lowerHex.all (fun c => c.toLower = c ∧ isHex c ∧ c ≠ '/' ∧ c ≠ ':' ∧
      c ≠ '\n') := by decide
  simpa using all_eq_true.1 hall c h

theorem toLower_hex {c : Char} (h : isHex c) : c.toLower ∈ lowerHex := by
  simp only [isHex,Bool.or_eq_true,decide_eq_true_eq] at h
  rcases h with h | h
  · rw [(lowerHex_facts c h).1]; exact h
  · have hall : "ABCDEF".toList.all (fun c => c.toLower ∈ lowerHex) := by decide
    simpa using all_eq_true.1 hall c h

variable {encoded : Text}

theorem toLower_eq_self (h : ∀ c ∈ encoded, c ∈ lowerHex) :
    toLower encoded = encoded := by
  conv_rhs => rw [← map_id encoded]
  exact map_congr_left fun c hc => (lowerHex_facts c (h c hc)).1

variable {a : Algorithm}

theorem IsSum.ne_nil (h : IsSum a encoded) : encoded ≠ [] := by
  rintro rfl
  have hw := h.length
  cases a <;> simp [Algorithm.width] at hw

@[simp] lemma supportedAlgorithm_name (a : Algorithm) : supportedAlgorithm a.name = some a := by
  cases a <;> decide

lemma Algorithm.name_inj {a' : Algorithm} (h : a.name = a'.name) : a = a' := by
  have hsup := congrArg supportedAlgorithm h
  simpa using hsup

theorem supportedAlgorithm_eq_some {s : Text}
    (h : supportedAlgorithm s = some a) : s = a.name := by
  unfold supportedAlgorithm at h
  split at h
  · cases h; assumption
  · split at h
    · cases h; assumption
    · cases h

theorem name_plain (a : Algorithm) : (∀ c ∈ a.name, c ≠ ':' ∧ c ≠ '/' ∧ c ≠ '\n') ∧
    isAlgorithm a.name ∧ toLower a.name = a.name := by
  refine ⟨fun c hc => ?_,by cases a <;> decide,by cases a <;> decide⟩
  have hall : a.name.all (fun c => c ≠ ':' ∧ c ≠ '/' ∧ c ≠ '\n') := by
    cases a <;> decide
  simpa using all_eq_true.1 hall c hc

theorem splitDigestReference_digestText (h : IsSum a encoded) :
    splitDigestReference (digestText a encoded) = some (a.name,encoded) := by
  obtain ⟨hnm,halg,hlow⟩ := name_plain a
  have htk : ∀ c ∈ a.name, decide (c ≠ ':') := fun c hc => by simp [(hnm c hc).1]
  have hall : encoded.all isHex :=
    all_eq_true.2 fun c hc => (lowerHex_facts c (h.hex c hc)).2.1
  simp only [splitDigestReference,digestText,dropWhile_append_of_pos htk,
    takeWhile_append_of_pos htk]
  simp [halg,h.ne_nil,hall,hlow,toLower_eq_self h.hex]

variable {reference : Text}

theorem splitDigestReference_eq_some {algorithm : Text}
    (h : splitDigestReference reference = some (algorithm,encoded)) :
    encoded ≠ [] ∧ ∀ c ∈ encoded, c ∈ lowerHex := by
  unfold splitDigestReference at h
  split at h
  · cases h
  · rename_i d rest hd
    split at h
    · rename_i hc
      obtain ⟨-,rfl⟩ : _ ∧ toLower rest = encoded := by simpa using h
      refine ⟨by simpa [toLower] using hc.2.1,fun c hm => ?_⟩
      obtain ⟨c',hc',rfl⟩ := mem_map.1 hm
      exact toLower_hex (all_eq_true.1 hc.2.2 c' hc')
    · cases h

theorem algorithmRest_plain {s : Text} (h : algorithmRest s) :
    ∀ c ∈ s, c ≠ '/' ∧ c ≠ '\n' := by
  fun_induction algorithmRest s with
  | case1 => simp
  | case2 c =>
    intro c' hc'
    obtain rfl := mem_singleton.1 hc'
    constructor <;> (rintro rfl; revert h; decide)
  | case3 c d s hc ih =>
    intro c' hc'
    rcases mem_cons.1 hc' with rfl | hm
    · constructor <;> (rintro rfl; revert hc; decide)
    · exact ih h c' hm
  | case4 c d s hc ih =>
    simp only [Bool.and_eq_true] at h
    obtain ⟨⟨hsep,hlet⟩,hrs⟩ := h
    intro c' hc'
    rcases mem_cons.1 hc' with rfl | hm
    · constructor <;> (rintro rfl; revert hsep; decide)
    · rcases mem_cons.1 hm with rfl | hm
      · constructor <;> (rintro rfl; revert hlet; decide)
      · exact ih hrs c' hm

/-- No digest reference spans two path segments. -/
theorem isDigestReference_plain (h : isDigestReference reference) :
    '/' ∉ reference ∧ '\n' ∉ reference ∧ ':' ∈ reference := by
  have hspl := takeWhile_append_dropWhile (p := (· ≠ ':')) (l := reference)
  unfold isDigestReference splitDigestReference at h
  split at h
  · cases h
  · rename_i d rest hd
    split at h
    · rename_i hc
      obtain ⟨halg,-,hhex⟩ := hc
      have hcol : d = ':' := by
        have := head?_dropWhile_not (p := (· ≠ ':')) (l := reference)
        rw [hd] at this
        simpa using this
      subst hcol
      have htk : ∀ c ∈ reference.takeWhile (· ≠ ':'), c ≠ '/' ∧ c ≠ '\n' := by
        cases hs : reference.takeWhile (· ≠ ':') with
        | nil => simp
        | cons c s =>
          rw [hs] at halg
          simp only [isAlgorithm,Bool.and_eq_true] at halg
          intro c' hc'
          rcases mem_cons.1 hc' with rfl | hm
          · constructor <;> (rintro rfl; revert halg; simp [isLetter])
          · exact algorithmRest_plain halg.2 c' hm
      have hrs : ∀ c ∈ rest, c ≠ '/' ∧ c ≠ '\n' := by
        intro c hc
        have := all_eq_true.1 hhex c hc
        constructor <;> (rintro rfl; revert this; decide)
      rw [hd] at hspl
      rw [← hspl]
      refine ⟨?_,?_,by simp⟩
      all_goals
        simp only [mem_append,mem_cons,not_or]
        exact ⟨fun hm => by simpa using htk _ hm,by decide,fun hm => by simpa using hrs _ hm⟩
    · cases h

theorem checkedSupportedDigest_eq_ok (h : checkedSupportedDigest reference = .ok (a,encoded)) :
    splitDigestReference reference = some (a.name,encoded) ∧ IsSum a encoded := by
  unfold checkedSupportedDigest at h
  split at h
  · cases h
  · rename_i algorithm enc hs
    split at h
    · cases h
    · rename_i a' ha
      split at h
      · cases h
      · rename_i hl
        obtain ⟨rfl,rfl⟩ : a' = a ∧ enc = encoded := by simpa using h
        rw [hs,supportedAlgorithm_eq_some ha]
        exact ⟨rfl,(splitDigestReference_eq_some hs).2,by simpa using hl⟩

theorem checkedSupportedDigest_of_split
    (h : splitDigestReference reference = some (a.name,encoded)) (hs : IsSum a encoded) :
    checkedSupportedDigest reference = .ok (a,encoded) := by
  simp [checkedSupportedDigest,h,hs.length]

variable {canonical : Text}

theorem canonicalSupportedDigest_eq_some :
    canonicalSupportedDigest reference = some canonical ↔
      ∃ a encoded, splitDigestReference reference = some (a.name,encoded) ∧ IsSum a encoded ∧
        canonical = digestText a encoded := by
  constructor
  · intro h
    unfold canonicalSupportedDigest at h
    split at h
    · rename_i a encoded hc
      obtain ⟨hs,hsum⟩ := checkedSupportedDigest_eq_ok hc
      exact ⟨a,encoded,hs,hsum,by simpa using h.symm⟩
    · cases h
  · rintro ⟨a,encoded,hs,hsum,rfl⟩
    simp [canonicalSupportedDigest,checkedSupportedDigest_of_split hs hsum]

theorem supported_iff :
    Supported reference ↔ ∃ a encoded, checkedSupportedDigest reference = .ok (a,encoded) := by
  unfold Supported canonicalSupportedDigest
  cases checkedSupportedDigest reference with
  | ok p => simpa using ⟨p.1,p.2,rfl⟩
  | error e => simp

/-- A canonical digest splits as the reference did, so nothing tells the two apart. -/
theorem splitDigestReference_canonical (h : canonicalSupportedDigest reference = some canonical) :
    splitDigestReference canonical = splitDigestReference reference := by
  obtain ⟨a,encoded,hs,hsum,rfl⟩ := canonicalSupportedDigest_eq_some.1 h
  rw [hs,splitDigestReference_digestText hsum]

theorem canonicalSupportedDigest_canonical
    (h : canonicalSupportedDigest reference = some canonical) :
    canonicalSupportedDigest canonical = some canonical := by
  unfold canonicalSupportedDigest checkedSupportedDigest at h ⊢
  rw [splitDigestReference_canonical h]
  exact h

theorem isDigestReference_of_supported (h : Supported reference) :
    isDigestReference reference := by
  obtain ⟨canonical,hc⟩ := Option.isSome_iff_exists.1 h
  obtain ⟨a,encoded,hs,-⟩ := canonicalSupportedDigest_eq_some.1 hc
  simp [isDigestReference,hs]

theorem ne_nil_of_isDigestReference (h : isDigestReference reference) :
    reference ≠ [] := by
  rintro rfl
  simp [isDigestReference,splitDigestReference] at h

def manifestRequestPath (repository reference : Text) : Text :=
  "/v2/".toList++repository ++ "/manifests/".toList++reference

def blobRequestPath (repository digest : Text) : Text :=
  "/v2/".toList++repository ++ "/blobs/".toList++digest

lemma manifestRequestPath_eq (repository reference : Text) :
    manifestRequestPath repository reference = "/v2/".toList++repository ++ "/manifests/".toList++reference := rfl

lemma blobRequestPath_eq (repository digest : Text) :
    blobRequestPath repository digest = "/v2/".toList++repository ++ "/blobs/".toList++digest := rfl

/-- The submatches of `manifestPathRe`. -/
def manifestPathRe (path : Text) : Option (Text × Text) :=
  if "/v2/".toList <+: path ∧ '\n' ∉ path then
    match splitLast "/manifests/".toList (path.drop 4) with
    | some (repository,reference) => if repository ≠ [] then some (repository,reference) else none
    | none => none
  else none

/-- The digests `blobPathRe` admits: the algorithm in lower case, the sum in any. -/
def isBlobDigest (digest : Text) : Bool :=
  [Algorithm.sha256,.sha512].any fun a => (a.name++[':']).isPrefixOf digest &&
    (digest.drop 7).length = a.width && (digest.drop 7).all isHex

/-- The submatch of `blobPathRe`. -/
def blobPathRe (path : Text) : Option Text :=
  if "/v2/".toList <+: path then
    match splitLast "/blobs/".toList (path.drop 4) with
    | some (repository,digest) =>
      if repository ≠ [] ∧ '\n' ∉ repository ∧ isBlobDigest digest then some digest else none
    | none => none
  else none

def manifestReference (path : Text) : Text :=
  match manifestPathRe path with
  | some (_,reference) => reference
  | none => []

variable {path repository : Text}

theorem manifestPathRe_eq_some (h : manifestPathRe path = some (repository,reference)) :
    path = manifestRequestPath repository reference ∧ repository ≠ [] ∧ reference ≠ [] ∧
      '\n' ∉ path := by
  unfold manifestPathRe at h
  split at h
  · rename_i hp
    obtain ⟨⟨s,rfl⟩,hn⟩ := hp
    split at h
    · rename_i x y hs
      split at h
      · rename_i hx
        obtain ⟨rfl,rfl⟩ : x = repository ∧ y = reference := by simpa using h
        obtain ⟨heq,hy⟩ := splitLast_sound hs
        have hs' : s = x ++ "/manifests/".toList++y := by simpa using heq
        refine ⟨?_,hx,hy,hn⟩
        simp only [hs',manifestRequestPath_eq,append_assoc]
      · cases h
    · cases h
  · cases h

/-- A reference of one segment comes back from the path built with it. -/
theorem manifestPathRe_request (hr : repository ≠ [])
    (hrn : '\n' ∉ repository) (hf : reference ≠ []) (hfs : '/' ∉ reference)
    (hfn : '\n' ∉ reference) :
    manifestPathRe (manifestRequestPath repository reference) = some (repository,reference) := by
  have hdp : (manifestRequestPath repository reference).drop 4 =
      repository++("/manifests".toList++['/'])++reference := by
    simp [manifestRequestPath_eq]
  have hn : '\n' ∉ manifestRequestPath repository reference := by
    simp [manifestRequestPath_eq,hrn,hfn]
  have hp : "/v2/".toList <+: manifestRequestPath repository reference :=
    ⟨repository ++ "/manifests/".toList++reference,by simp [manifestRequestPath_eq]⟩
  unfold manifestPathRe
  rw [if_pos ⟨hp,hn⟩,hdp,show "/manifests/".toList = "/manifests".toList++['/'] by decide,
    splitLast_append hf hfs]
  simp [hr]

variable {digest : Text}

theorem blobPathRe_eq_some (h : blobPathRe path = some digest) :
    isBlobDigest digest ∧ ∃ repository, path = blobRequestPath repository digest := by
  unfold blobPathRe at h
  split at h
  · rename_i hp
    obtain ⟨s,rfl⟩ := hp
    split at h
    · rename_i x y hs
      split at h
      · rename_i hx
        obtain rfl : y = digest := by simpa using h
        obtain ⟨heq,-⟩ := splitLast_sound hs
        have hs' : s = x ++ "/blobs/".toList++y := by simpa using heq
        refine ⟨hx.2.2,x,?_⟩
        simp only [hs',blobRequestPath_eq,append_assoc]
      · cases h
    · cases h
  · cases h

theorem isBlobDigest_eq_true (h : isBlobDigest digest) :
    ∃ a encoded, digest = digestText a encoded ∧ encoded.length = a.width ∧
      encoded.all isHex := by
  simp only [isBlobDigest,any_eq_true,Bool.and_eq_true,decide_eq_true_eq] at h
  obtain ⟨a,-,⟨hp,hl⟩,hh⟩ := h
  obtain ⟨s,rfl⟩ := isPrefixOf_iff_prefix.1 hp
  have hd : (a.name++[':']++s).drop 7 = s := by
    cases a <;> rfl
  rw [hd] at hl hh
  exact ⟨a,s,by simp [digestText],hl,hh⟩

theorem isBlobDigest_plain (h : isBlobDigest digest) : '/' ∉ digest := by
  obtain ⟨a,encoded,rfl,-,hh⟩ := isBlobDigest_eq_true h
  intro hm
  rcases mem_append.1 hm with hm | hm
  · exact absurd rfl ((name_plain a).1 _ hm).2.1
  · rcases mem_cons.1 hm with hm | hm
    · exact absurd hm (by decide)
    · have := all_eq_true.1 hh _ hm
      revert this; decide

theorem canonicalSupportedDigest_blobDigest (h : isBlobDigest digest) :
    ∃ a encoded, canonicalSupportedDigest digest = some (digestText a encoded) ∧
      IsSum a encoded := by
  obtain ⟨a,encoded,rfl,hl,hh⟩ := isBlobDigest_eq_true h
  have hsum : IsSum a (toLower encoded) := by
    refine ⟨fun c hm => ?_,by simp [toLower,hl]⟩
    obtain ⟨c',hc',rfl⟩ := mem_map.1 hm
    exact toLower_hex (all_eq_true.1 hh c' hc')
  obtain ⟨hnm,halg,hlow⟩ := name_plain a
  have htk : ∀ c ∈ a.name, decide (c ≠ ':') := fun c hc => by simp [(hnm c hc).1]
  have hne : encoded ≠ [] := by
    rintro rfl
    exact hsum.ne_nil rfl
  refine ⟨a,toLower encoded,canonicalSupportedDigest_eq_some.2 ⟨a,_,?_,hsum,rfl⟩,hsum⟩
  simp only [splitDigestReference,digestText,dropWhile_append_of_pos htk,
    takeWhile_append_of_pos htk]
  simp [halg,hne,hh,hlow]

theorem isBlobDigest_digestText (h : IsSum a encoded) :
    isBlobDigest (digestText a encoded) := by
  have hall : encoded.all isHex :=
    all_eq_true.2 fun c hc => (lowerHex_facts c (h.hex c hc)).2.1
  have hd : (digestText a encoded).drop 7 = encoded := by cases a <;> rfl
  have hp : (a.name++[':']).isPrefixOf (digestText a encoded) :=
    isPrefixOf_iff_prefix.2 ⟨encoded,by simp [digestText]⟩
  simp only [isBlobDigest,any_eq_true,Bool.and_eq_true,decide_eq_true_eq]
  exact ⟨a,by cases a <;> simp,⟨hp,by rw [hd,h.length]⟩,by rw [hd]; exact hall⟩

theorem blobPathRe_request (hr : repository ≠ [])
    (hrn : '\n' ∉ repository) (hd : isBlobDigest digest) :
    blobPathRe (blobRequestPath repository digest) = some digest := by
  have hne : digest ≠ [] := by
    rintro rfl
    revert hd; decide
  have hdp : (blobRequestPath repository digest).drop 4 =
      repository++("/blobs".toList++['/'])++digest := by
    simp [blobRequestPath_eq]
  have hp : "/v2/".toList <+: blobRequestPath repository digest :=
    ⟨repository ++ "/blobs/".toList++digest,by simp [blobRequestPath_eq]⟩
  unfold blobPathRe
  rw [if_pos hp,hdp,show "/blobs/".toList = "/blobs".toList++['/'] by decide,
    splitLast_append hne (isBlobDigest_plain hd)]
  simp [hr,hrn,hd]

theorem blobPathRe_manifest (repository : Text) (hfs : '/' ∉ reference) :
    blobPathRe (manifestRequestPath repository reference) = none := by
  cases h : blobPathRe (manifestRequestPath repository reference) with
  | none => rfl
  | some digest =>
    exfalso
    obtain ⟨hd,repository',heq⟩ := blobPathRe_eq_some h
    have hmarks : ("/v2/".toList++repository ++ "/manifests".toList) ++ '/' :: reference =
        ("/v2/".toList++repository' ++ "/blobs".toList) ++ '/' :: digest := by
      simpa [manifestRequestPath_eq,blobRequestPath_eq] using heq
    obtain ⟨hfrt,-⟩ := last_mark hmarks hfs (isBlobDigest_plain hd)
    have hrev := congrArg (take 2 ∘ reverse) hfrt
    simp at hrev

def canonicalManifestRequestPath (path : Text) : Text :=
  match manifestPathRe path with
  | some (repository,reference) =>
    match canonicalSupportedDigest reference with
    | some canonical => manifestRequestPath repository canonical
    | none => path
  | none => path

/-- `v2-` and the hash of the canonical path, kept here as the path, or the flattened path of an
earlier format. -/
inductive ManifestFile
  | v2 (path : Text)
  | legacy (name : Text)
  deriving DecidableEq

def replaceChar (old new : Char) (s : Text) : Text := s.map fun c => if c = old then new else c

def manifestPath (path : Text) : ManifestFile := .v2 (canonicalManifestRequestPath path)

def legacyManifestPath (path : Text) : ManifestFile :=
  let canonical := canonicalManifestRequestPath path
  let trimmed := if "/v2/".toList <+: canonical then canonical.drop 4 else canonical
  .legacy (replaceChar '/' '_' trimmed)

/-- Only digest references are looked for in the earlier format: their bytes can be checked. -/
def legacyManifestFallbackPath (path : Text) : Option ManifestFile :=
  match manifestPathRe (canonicalManifestRequestPath path) with
  | some (_,reference) =>
    if isDigestReference reference then some (legacyManifestPath path) else none
  | none => none

/-- The name of a blob's file; no separator is left in it. -/
def blobPath (digest : Text) : Text :=
  replaceChar ':' '-' ((canonicalSupportedDigest digest).getD digest)

theorem digestText_plain (h : IsSum a encoded) :
    digestText a encoded ≠ [] ∧ '/' ∉ digestText a encoded ∧ '\n' ∉ digestText a encoded := by
  have hd : isDigestReference (digestText a encoded) := by
    simp [isDigestReference,splitDigestReference_digestText h]
  obtain ⟨hs,hn,-⟩ := isDigestReference_plain hd
  exact ⟨ne_nil_of_isDigestReference hd,hs,hn⟩

theorem manifestPathRe_canonical (h : manifestPathRe path = some (repository,reference)) :
    manifestPathRe (canonicalManifestRequestPath path) =
      some (repository,(canonicalSupportedDigest reference).getD reference) := by
  simp only [canonicalManifestRequestPath,h]
  cases hc : canonicalSupportedDigest reference with
  | none => exact h
  | some canonical =>
    obtain ⟨a,encoded,-,hsum,rfl⟩ := canonicalSupportedDigest_eq_some.1 hc
    obtain ⟨heq,hr,-,hn⟩ := manifestPathRe_eq_some h
    have hrn : '\n' ∉ repository := by
      intro hm
      exact hn (by rw [heq]; simp [manifestRequestPath_eq,hm])
    obtain ⟨hne,hs,hcn⟩ := digestText_plain hsum
    exact manifestPathRe_request hr hrn hne hs hcn

/-- A repository in a request path and a reference of one segment: what the registry's grammar
allows, and more. -/
structure Segment (repository reference : Text) : Prop where
  repository_ne : repository ≠ []
  repository_line : '\n' ∉ repository
  reference_ne : reference ≠ []
  reference_slash : '/' ∉ reference
  reference_line : '\n' ∉ reference

section

variable (h : Segment repository reference)
include h

theorem Segment.manifestPathRe :
    manifestPathRe (manifestRequestPath repository reference) = some (repository,reference) :=
  manifestPathRe_request h.repository_ne h.repository_line h.reference_ne h.reference_slash
    h.reference_line

theorem Segment.path_inj {repository' reference' : Text} (h' : Segment repository' reference')
    (heq : manifestRequestPath repository reference = manifestRequestPath repository' reference') :
    repository = repository' ∧ reference = reference' := by
  have hm := h.manifestPathRe
  rw [heq,h'.manifestPathRe] at hm
  exact ⟨(Prod.mk.inj (Option.some.inj hm)).1.symm,(Prod.mk.inj (Option.some.inj hm)).2.symm⟩

lemma Segment.manifestReference :
    manifestReference (manifestRequestPath repository reference) = reference := by
  simp [Mirror.manifestReference,h.manifestPathRe]

/-- The digests of a manifest's descriptors make paths of the same repository. -/
theorem Segment.of_digest
    (hd : isDigestReference digest) : Segment repository digest := by
  obtain ⟨hs,hn,-⟩ := isDigestReference_plain hd
  exact ⟨h.repository_ne,h.repository_line,ne_nil_of_isDigestReference hd,hs,hn⟩

theorem Segment.canonicalManifestRequestPath :
    canonicalManifestRequestPath (manifestRequestPath repository reference) =
      manifestRequestPath repository ((canonicalSupportedDigest reference).getD reference) := by
  simp only [Mirror.canonicalManifestRequestPath,h.manifestPathRe]
  cases canonicalSupportedDigest reference <;> rfl

end

lemma blobPath_canonical
    (h : canonicalSupportedDigest digest = some canonical) : blobPath canonical = blobPath digest := by
  simp [blobPath,h,canonicalSupportedDigest_canonical h]

theorem blobPath_inj {d d' c c' : Text} (h : canonicalSupportedDigest d = some c)
    (h' : canonicalSupportedDigest d' = some c') (heq : blobPath d = blobPath d') : c = c' := by
  obtain ⟨a,encoded,-,hsum,rfl⟩ := canonicalSupportedDigest_eq_some.1 h
  obtain ⟨a',encoded',-,hsum',rfl⟩ := canonicalSupportedDigest_eq_some.1 h'
  simp only [blobPath,h,h',Option.getD_some,replaceChar,digestText,map_append,
    map_cons] at heq
  have hsf : ∀ {a : Algorithm} {encoded : Text}, IsSum a encoded →
      encoded.map (fun c => if c = ':' then '-' else c) = encoded := by
    intro a encoded hsum
    conv_rhs => rw [← map_id encoded]
    exact map_congr_left fun c hc => by simp [(lowerHex_facts c (hsum.hex c hc)).2.2.2.1]
  rw [hsf hsum,hsf hsum'] at heq
  have hlen : ∀ a : Algorithm, a.name.length = 6 := fun a => by cases a <;> decide
  obtain ⟨hnm,htl⟩ := append_inj heq (by rw [length_map,length_map,hlen,hlen])
  obtain rfl := (cons.inj htl).2
  cases a <;> cases a' <;> first | exact absurd hnm (by decide) | rfl

end TalosBox.Mirror
