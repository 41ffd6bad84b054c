import TalosBox.Gathering
import TalosBox.MirrorReference

/-! The daemon validates a reference without the white space around it and passes it on with it;
that is warmable exactly where there was none. -/
namespace TalosBox.Mirror

open Bool (and_eq_true not_eq_false or_eq_true)
open Cutting Gathering List

variable {c : Char}

lemma isDigit_iff : isDigit c ↔ 48 ≤ c.toNat ∧ c.toNat ≤ 57 := by
  simp [isDigit,Char.le_def,UInt32.le_iff_toNat_le]

lemma isLetter_iff :
    isLetter c ↔ (65 ≤ c.toNat ∧ c.toNat ≤ 90) ∨ (97 ≤ c.toNat ∧ c.toNat ≤ 122) := by
  simp [isLetter,Char.le_def,UInt32.le_iff_toNat_le]

lemma isLowerAlphaNumeric_iff :
    isLowerAlphaNumeric c ↔ (97 ≤ c.toNat ∧ c.toNat ≤ 122) ∨ (48 ≤ c.toNat ∧ c.toNat ≤ 57) := by
  simp [isLowerAlphaNumeric,isDigit_iff,Char.le_def,UInt32.le_iff_toNat_le]

theorem isSpace_iff : isSpace c ↔
    c.toNat ∈ [9,10,11,12,13,32,0x85,0xa0,0x1680,0x2028,0x2029,0x202f,0x205f,0x3000] ∨
      (0x2000 ≤ c.toNat ∧ c.toNat ≤ 0x200a) := by
  simp [isSpace]

/-- The characters of hosts, paths and digests. -/
def isPlain (c : Char) : Bool := isAlphaNumeric c || c ∈ ['-','.','/',':','_']

theorem isPlain_iff : isPlain c ↔
    (45 ≤ c.toNat ∧ c.toNat ≤ 58) ∨ (65 ≤ c.toNat ∧ c.toNat ≤ 90) ∨ c.toNat = 95 ∨ (97 ≤ c.toNat ∧ c.toNat ≤ 122) := by
  simp only [isPlain,isAlphaNumeric,or_eq_true,isLetter_iff,isDigit_iff,mem_cons,not_mem_nil,
    or_false,decide_eq_true_eq,← Char.toNat_inj,Char.reduceToNat]
  omega

theorem isPlain_facts (h : isPlain c) :
    isSpace c = false ∧ isControl c = false ∧ 33 ≤ c.toNat ∧ c.toNat ≤ 122 ∧
      c ≠ '%' ∧ c ≠ '?' ∧ c ≠ '@' ∧ c ≠ '#' ∧ c ≠ '[' ∧ c ≠ ']' := by
  rw [isPlain_iff] at h
  simp only [isSpace,isControl,ne_eq,← Char.toNat_inj,Char.reduceToNat,mem_cons,not_mem_nil,
    or_false,Bool.or_eq_false_iff,Bool.and_eq_false_iff,decide_eq_false_iff_not]
  omega

/-- Plain characters that do not end a part of a reference. -/
def PartChars (s : Text) : Prop := ∀ c ∈ s, isPlain c ∧ c ≠ '/' ∧ c ≠ ':'

lemma partChars_cons {s : Text} :
    PartChars (c::s) ↔ (isPlain c ∧ c ≠ '/' ∧ c ≠ ':') ∧ PartChars s := by
  simp [PartChars]

lemma isHex_plain (h : isHex c) : isPlain c ∧ c ≠ '/' ∧ c ≠ ':' := by
  have hall : (lowerHex ++ "ABCDEF".toList).all (fun c => isPlain c ∧ c ≠ '/' ∧ c ≠ ':') := by decide
  simpa using all_eq_true.1 hall c (by simpa [isHex] using h)

theorem isLowerAlphaNumeric_plain (h : isLowerAlphaNumeric c) :
    isPlain c ∧ c ≠ '/' ∧ c ≠ ':' := by
  rw [isLowerAlphaNumeric_iff] at h
  simp only [isPlain_iff,ne_eq,← Char.toNat_inj,Char.reduceToNat]
  omega

theorem isTagStart_plain (h : isTagStart c) : isPlain c ∧ c ≠ '/' ∧ c ≠ ':' := by
  simp only [isTagStart,isAlphaNumeric,or_eq_true,isLetter_iff,isDigit_iff,decide_eq_true_eq] at h
  simp only [isPlain_iff,ne_eq,← Char.toNat_inj,Char.reduceToNat] at h ⊢
  omega

theorem trimSpace_eq_self {s : Text} (hhd : ∀ c ∈ s.head?, isSpace c = false)
    (hla : ∀ c ∈ s.getLast?, isSpace c = false) : trimSpace s = s := by
  have hfrt : s.dropWhile isSpace = s := by
    cases s with
    | nil => rfl
    | cons c s => simp [hhd c rfl]
  rw [trimSpace,hfrt,rdropWhile_eq_self_iff]
  intro hne
  simp [hla _ (getLast?_eq_some_getLast hne)]

lemma separator_plain (h : c = '-' ∨ c = '.' ∨ c = '_') : isPlain c ∧ c ≠ '/' ∧ c ≠ ':' := by
  rcases h with rfl | rfl | rfl <;> simp [isPlain_iff]

theorem component_chars : (∀ s, componentRest s → PartChars s) ∧
    (∀ s, componentPart s → PartChars s) ∧ (∀ s, componentHyphens s → PartChars s) := by
  refine componentRest.mutual_induct _ _ _ ?_ ?_ ?_ ?_ ?_ ?_ ?_ ?_ ?_ ?_
  · exact fun _ => by simp [PartChars]
  · intro s ih h
    exact partChars_cons.2 ⟨separator_plain (.inl rfl),ih (by simpa [componentRest] using h)⟩
  · intro s ih h
    have hs := ih (by simpa [componentRest] using h)
    exact partChars_cons.2 ⟨separator_plain (by simp),partChars_cons.2 ⟨separator_plain (by simp),hs⟩⟩
  · intro c s hhy hscore hc ih h
    rw [componentRest,if_pos hc] at h
    · exact partChars_cons.2 ⟨isLowerAlphaNumeric_plain hc,ih h⟩
    all_goals assumption
  · intro c s hhy hscore hc ih h
    rw [componentRest,if_neg hc] at h
    · simp only [and_eq_true,or_eq_true,decide_eq_true_eq] at h
      exact partChars_cons.2 ⟨separator_plain (.inr h.1),ih h.2⟩
    all_goals assumption
  · exact fun _ => by simp [PartChars]
  · intro c s ih h
    simp only [componentPart,and_eq_true] at h
    exact partChars_cons.2 ⟨isLowerAlphaNumeric_plain h.1,ih h.2⟩
  · exact fun _ => by simp [PartChars]
  · intro s ih h
    exact partChars_cons.2 ⟨separator_plain (.inl rfl),ih (by simpa [componentHyphens] using h)⟩
  · intro c s hhy ih h
    rw [componentHyphens,and_eq_true] at h
    · exact partChars_cons.2 ⟨isLowerAlphaNumeric_plain h.1,ih h.2⟩
    · assumption

theorem repository_chars {repo : Text} (h : isValidWarmRepository repo) :
    repo ≠ [] ∧ ∀ c ∈ repo, isPlain c ∧ c ≠ ':' := by
  simp only [isValidWarmRepository,and_eq_true,decide_eq_true_eq,all_eq_true] at h
  refine ⟨h.1.1,fun c hc => ?_⟩
  rcases mem_splitOn '/' hc with rfl | ⟨part,hpt,hmem⟩
  · simp [isPlain_iff]
  · have hchs := component_chars.2.1 part (h.2 part hpt) c hmem
    exact ⟨hchs.1,hchs.2.2⟩

theorem tag_chars {tag : Text} (h : isValidWarmTag tag) : tag ≠ [] ∧ PartChars tag := by
  simp only [isValidWarmTag,and_eq_true,decide_eq_true_eq,all_eq_true] at h
  obtain ⟨⟨⟨hne,-⟩,hhd⟩,htl⟩ := h
  refine ⟨hne,?_⟩
  obtain ⟨c,s,rfl⟩ := exists_cons_of_ne_nil hne
  refine partChars_cons.2 ⟨isTagStart_plain (by simpa using hhd),fun d hd => ?_⟩
  have hd' := htl d hd
  simp only [or_eq_true,decide_eq_true_eq] at hd'
  rcases hd' with (hstr | hdot) | hhy
  · exact isTagStart_plain hstr
  · exact separator_plain (.inr (.inl hdot))
  · exact separator_plain (.inl hhy)

theorem isSupportedWarmDigest_eq_true {digest : Text} (h : isSupportedWarmDigest digest) :
    ∃ (a : Algorithm) (enc : Text), digest = digestText a enc ∧ enc.all isHex ∧
      enc.length = a.width := by
  unfold isSupportedWarmDigest at h
  split at h
  · cases h
  · rename_i algorithm enc hcut
    simp only [and_eq_true,decide_eq_true_eq,Option.any_eq_true] at h
    obtain ⟨⟨-,hhex⟩,a,ha,hlen⟩ := h
    refine ⟨a,enc,?_,hhex,hlen⟩
    rw [(cut_eq_some.1 hcut).1,supportedAlgorithm_eq_some ha,digestText]

theorem isSupportedWarmDigest_digestText {a : Algorithm} {enc : Text} (hhex : enc.all isHex)
    (hlen : enc.length = a.width) : isSupportedWarmDigest (digestText a enc) := by
  have hcut : cut ':' (digestText a enc) = some (a.name,enc) :=
    cut_eq_some.2 ⟨rfl,fun hmem => ((name_plain a).1 _ hmem).1 rfl⟩
  have hne : enc ≠ [] := by
    rintro rfl
    cases a <;> simp [Algorithm.width] at hlen
  simp only [isSupportedWarmDigest,hcut,supportedAlgorithm_name]
  simpa [hne,hlen] using all_eq_true.1 hhex

/-- The mirror reads a digest that the daemon takes, and its canonical form is one again. -/
theorem canonicalSupportedDigest_of_warm {digest : Text} (h : isSupportedWarmDigest digest) :
    ∃ canon, canonicalSupportedDigest digest = some canon ∧ canon ≠ [] ∧
      isSupportedWarmDigest canon ∧ ∀ c ∈ canon, isPlain c := by
  obtain ⟨a,enc,rfl,hhex,hlen⟩ := isSupportedWarmDigest_eq_true h
  obtain ⟨hnm,halg,hlow⟩ := name_plain a
  have hsum : IsSum a (toLower enc) := by
    refine ⟨fun c hc => ?_,by simpa [toLower] using hlen⟩
    obtain ⟨c',hc',rfl⟩ := mem_map.1 hc
    exact toLower_hex (all_eq_true.1 hhex c' hc')
  have henco : enc ≠ [] := by simpa [toLower] using hsum.ne_nil
  have htk : ∀ c ∈ a.name, decide (c ≠ ':') := fun c hc => by simp [(hnm c hc).1]
  have hspl : splitDigestReference (digestText a enc) = some (a.name,toLower enc) := by
    simp only [splitDigestReference,digestText,dropWhile_append_of_pos htk,
      takeWhile_append_of_pos htk]
    simpa [dropWhile,takeWhile,halg,henco,hlow] using all_eq_true.1 hhex
  refine ⟨digestText a (toLower enc),canonicalSupportedDigest_eq_some.2 ⟨a,_,hspl,hsum,rfl⟩,
    by simp [digestText],?_,?_⟩
  · refine isSupportedWarmDigest_digestText (all_eq_true.2 fun c hc => ?_) hsum.length
    exact (lowerHex_facts c (hsum.hex c hc)).2.1
  · intro c hc
    simp only [digestText,mem_append,mem_cons] at hc
    rcases hc with hc | rfl | hc
    · have hall : a.name.all isPlain := by cases a <;> decide
      exact all_eq_true.1 hall c hc
    · simp [isPlain_iff]
    · exact (isHex_plain (lowerHex_facts c (hsum.hex c hc)).2.1).1

theorem warmPortStep_foldl {value : Text} (hdgs : value.all isDigit) {port result : ℕ}
    (h : value.foldl warmPortStep (some port) = some result) (hpo : port ≤ 65535) :
    value.foldl (fun n c => n*10+(c.toNat-48)) port = result ∧ result ≤ 65535 := by
  induction value generalizing port with
  | nil =>
    obtain rfl : port = result := by simpa using h
    exact ⟨rfl,hpo⟩
  | cons c value ih =>
    simp only [all_cons,and_eq_true,isDigit_iff] at hdgs
    rw [foldl_cons] at h ⊢
    by_cases hlg : (65535-(c.toNat-48))/10 < port
    · have hno : ∀ s : Text, s.foldl warmPortStep none = none := by
        intro s
        induction s with
        | nil => rfl
        | cons d s ih => exact ih
      simp [warmPortStep,hlg,hno] at h
    · simp only [warmPortStep,Option.bind_some,hlg,if_false] at h
      exact ih hdgs.2 h (by omega)

theorem validatePort_of_warm {port : Text} (h : isValidWarmPort port) : validatePort port := by
  simp only [isValidWarmPort,and_eq_true,decide_eq_true_eq,Option.any_eq_true] at h
  obtain ⟨⟨hne,hdgs⟩,value,hvl,hpos⟩ := h
  obtain ⟨rfl,hle⟩ := warmPortStep_foldl hdgs hvl (by omega)
  simp only [validatePort,portNumber,and_eq_true,decide_eq_true_eq]
  exact ⟨⟨⟨hne,hdgs⟩,decide_eq_true hpos⟩,decide_eq_true hle⟩

section

variable {lib : HostLibrary}

variable (lib) in
theorem lowerRune_alphaNumeric {c : Char} (h : isAlphaNumeric c) :
    isLowerAlphaNumeric (lib.lowerRune c) := by
  have hall : ∀ n < 128, isAlphaNumeric (.ofNat n) → isLowerAlphaNumeric (Char.ofNat n).toLower := by
    decide
  have hascii : c.toNat < 128 := by
    simp only [isAlphaNumeric,or_eq_true,isLetter_iff,isDigit_iff] at h
    omega
  rw [lib.lower_ascii c hascii]
  simpa using hall c.toNat hascii (by simpa using h)

theorem validDNSLabel_of_warm {label : Text} (h : isValidWarmHostLabel label) :
    validDNSLabel (label.map lib.lowerRune) := by
  simp only [isValidWarmHostLabel,and_eq_true,decide_eq_true_eq,all_eq_true,or_eq_true] at h
  obtain ⟨⟨⟨⟨hne,hlen⟩,hhd⟩,hla⟩,hchs⟩ := h
  have hhy : lib.lowerRune '-' = '-' := lib.lower_ascii '-' (by decide)
  -- only a hyphen is lowered to a hyphen
  have hke : ∀ c ∈ label, lib.lowerRune c = '-' → c = '-' := by
    intro c hc heq
    refine (hchs c hc).resolve_left fun halpha => ?_
    have hlow := lowerRune_alphaNumeric lib halpha
    rw [heq] at hlow
    revert hlow
    decide
  simp only [validDNSLabel,and_eq_true,decide_eq_true_eq,all_eq_true,length_map,head?_map,
    getLast?_map,mem_map]
  refine ⟨⟨⟨⟨by simpa using hne,hlen⟩,?_⟩,?_⟩,?_⟩
  · intro heq
    obtain ⟨c,hc,hlow⟩ := Option.map_eq_some_iff.1 heq
    exact hhd (hke c (mem_of_mem_head? hc) hlow ▸ hc)
  · intro heq
    obtain ⟨c,hc,hlow⟩ := Option.map_eq_some_iff.1 heq
    exact hla (hke c (mem_of_mem_getLast? hc) hlow ▸ hc)
  · rintro _ ⟨c,hc,rfl⟩
    rcases hchs c hc with halpha | rfl
    · simp [lowerRune_alphaNumeric lib halpha]
    · simp [hhy]

variable {raw host port : Text}

theorem isValidWarmHost_labels (h : isValidWarmHost host) :
    host.length ≤ 253 ∧ ∀ label ∈ host.splitOn '.', isValidWarmHostLabel label := by
  simp only [isValidWarmHost,or_eq_true,decide_eq_true_eq,and_eq_true,all_eq_true] at h
  rcases h with rfl | h
  · decide
  · exact h

theorem host_chars (h : isValidWarmHost host) :
    ∀ c ∈ host, isAlphaNumeric c ∨ c = '-' ∨ c = '.' := by
  intro c hc
  rcases mem_splitOn '.' hc with rfl | ⟨label,hlb,hmem⟩
  · simp
  · have hval := (isValidWarmHost_labels h).2 label hlb
    simp only [isValidWarmHostLabel,and_eq_true,all_eq_true,or_eq_true,decide_eq_true_eq] at hval
    exact (hval.2 c hmem).imp_right .inl

theorem host_plain (h : isValidWarmHost host) : PartChars host := by
  intro c hc
  rcases host_chars h c hc with halpha | rfl | rfl
  · exact isTagStart_plain (by simp [isTagStart,halpha])
  · exact separator_plain (.inl rfl)
  · exact separator_plain (.inr (.inl rfl))

theorem parseIP_space {ip : Address} (h : lib.parseIP host = some ip) : ∀ c ∈ host, isSpace c = false := by
  intro c hc
  rcases (lib.parseIP_chars host ip h).2 c hc with hhex | rfl | rfl
  · exact (isPlain_facts (isHex_plain hhex).1).1
  · decide
  · decide

theorem not_blank (h : ∀ c ∈ host, isSpace c = false) :
    ¬host.any (fun c => c = ' ' || c = '\t' || c = '\r' || c = '\n') := by
  rw [any_eq_true]
  rintro ⟨c,hc,hblk⟩
  simp only [or_eq_true,decide_eq_true_eq] at hblk
  rcases hblk with ((rfl | rfl) | rfl) | rfl <;> exact absurd (h _ hc) (by decide)

lemma canonicalizeAuthorityHost_of_parseIP {ip : Address} (h : lib.parseIP host = some ip) :
    canonicalizeAuthorityHost lib host = some ip.text := by
  simp [canonicalizeAuthorityHost,(lib.parseIP_chars host ip h).1,not_blank (parseIP_space h),h]

theorem validDNSLabel_chars {label : Text} (h : validDNSLabel label) :
    ∀ c ∈ label, isLowerAlphaNumeric c ∨ c = '-' := by
  simp only [validDNSLabel,and_eq_true,all_eq_true,or_eq_true,decide_eq_true_eq] at h
  exact h.2

theorem name_chars (h : (host.splitOn '.').all validDNSLabel) :
    host ≠ [] ∧ host.getLast? ≠ some '.' ∧ ¬ "..".toList <:+: host ∧
      ∀ c ∈ host, isLowerAlphaNumeric c ∨ c = '-' ∨ c = '.' := by
  have hlbs : ∀ label ∈ host.splitOn '.', validDNSLabel label := all_eq_true.1 h
  have hpts : [] ∉ host.splitOn '.' := fun hmem => absurd (hlbs [] hmem) (by decide)
  obtain ⟨hne,hla,hdouble⟩ := of_nil_notMem_splitOn hpts
  refine ⟨hne,hla,hdouble,fun c hc => ?_⟩
  rcases mem_splitOn '.' hc with rfl | ⟨label,hlb,hmem⟩
  · exact .inr (.inr rfl)
  · exact (validDNSLabel_chars (hlbs label hlb) c hmem).imp id .inl

theorem canonicalizeAuthorityHost_of_labels (hip : lib.parseIP host = none) (hspc : ∀ c ∈ host, isSpace c = false)
    (hsh : host.length ≤ 253) (hlbs : ((host.map lib.lowerRune).splitOn '.').all validDNSLabel) :
    canonicalizeAuthorityHost lib host = some (host.map lib.lowerRune) := by
  obtain ⟨hne,hla,hdouble,hchs⟩ := name_chars hlbs
  have hcol : ':' ∉ host.map lib.lowerRune := fun hmem => absurd (hchs _ hmem) (by decide)
  have hho : host ≠ [] := by simpa using hne
  simp only [canonicalizeAuthorityHost,hip,trimFinalDot,if_neg hla]
  rw [if_neg (not_or.2 ⟨hho,not_blank hspc⟩),if_neg (by push Not; exact ⟨hne,hdouble,hcol⟩),
    if_neg (by simpa using hsh),if_pos hlbs]

/-- The labels the daemon admits are, lower-cased, the labels the mirror admits. -/
theorem canonicalizeAuthorityHost_of_warm (h : isValidWarmHost host) :
    (canonicalizeAuthorityHost lib host).isSome := by
  cases hip : lib.parseIP host with
  | some ip => simp [canonicalizeAuthorityHost_of_parseIP hip]
  | none =>
    obtain ⟨hlen,hlbs⟩ := isValidWarmHost_labels h
    have hdot : lib.lowerRune '.' = '.' := lib.lower_ascii '.' (by decide)
    have hspl : (host.map lib.lowerRune).splitOn '.' = (host.splitOn '.').map (map lib.lowerRune) := by
      refine splitOn_map hdot fun label hlb hmem => ?_
      exact absurd (validDNSLabel_chars (validDNSLabel_of_warm (hlbs label hlb)) '.' hmem) (by decide)
    have hval : ((host.map lib.lowerRune).splitOn '.').all validDNSLabel := by
      rw [hspl,all_map]
      exact all_eq_true.2 fun label hlb => validDNSLabel_of_warm (hlbs label hlb)
    have hspc : ∀ c ∈ host, isSpace c = false := fun c hc => (isPlain_facts (host_plain h c hc).1).1
    simp [canonicalizeAuthorityHost_of_labels hip hspc hlen hval]

/-- What is made of a canonical host and a port. -/
def authorityOf (lib : HostLibrary) (host port : Text) : UpstreamAuthority where
  cacheKey := safeCacheKey lib host port
  canonicalHost := host
  canonicalAuthority := if port = [] then host else joinHostPort host port
  base := "https://".toList ++
    canonicalURLHost (if host = "docker.io".toList then "registry-1.docker.io".toList else host) port
  port := port

def Unmarked (raw : Text) : Prop := ∀ c ∈ raw, c ≠ '/' ∧ c ≠ '?' ∧ c ≠ '#' ∧ c ≠ '@'

theorem parseUpstreamAuthority_of_canonical {canon : Text} (hne : raw ≠ []) (hraw : Unmarked raw)
    (hspl : splitAuthorityHostPort lib raw = some (host,port))
    (hho : canonicalizeAuthorityHost lib host = some canon) :
    parseUpstreamAuthority lib raw = .ok (authorityOf lib canon port) := by
  have hscheme : ¬"://".toList <:+: raw := fun h => (hraw '/' (h.subset (by decide))).1 rfl
  have hmarks : ¬raw.any (fun c => c = '/' || c = '?' || c = '#' || c = '@') := by
    rw [any_eq_true]
    rintro ⟨c,hc,hmk⟩
    have hfr := hraw c hc
    simp only [or_eq_true,decide_eq_true_eq] at hmk
    tauto
  unfold parseUpstreamAuthority
  rw [if_neg hne,if_neg (not_or.2 ⟨hscheme,hmarks⟩),hspl]
  simp only [hho]
  rfl

/-- A registry with a host name, with or without a port. -/
theorem splitAuthorityHostPort_of_named (hbrac : raw.head? ≠ some '[')
    (h : isValidWarmRegistry lib raw) :
    ∃ host port, splitAuthorityHostPort lib raw = some (host,port) ∧ (canonicalizeAuthorityHost lib host).isSome := by
  unfold splitAuthorityHostPort
  split
  · simp at hbrac
  split
  · rename_i ip hip
    exact ⟨ip.text,[],rfl,by simp [canonicalizeAuthorityHost_of_parseIP (lib.parseIP_text _ _ hip)]⟩
  unfold isValidWarmRegistry at h
  split at h
  · simp at hbrac
  split at h
  · rename_i host port hcut
    simp only [and_eq_true,decide_eq_true_eq] at h
    obtain ⟨⟨-,hpo⟩,hho⟩ := h
    obtain ⟨rfl,-⟩ := cutLast_eq_some.1 hcut
    have hpl := host_plain hho
    have hdgs : ∀ c ∈ port, isDigit c := by
      simp only [isValidWarmPort,and_eq_true,all_eq_true] at hpo
      exact hpo.1.2
    have hcln : ¬(':' ∈ host ∨ '[' ∈ host ++ ':' :: port ∨ ']' ∈ host ++ ':' :: port) := by
      simp only [mem_append,mem_cons,not_or]
      refine ⟨fun hc => (hpl _ hc).2.2 rfl,⟨fun hc => ?_,by decide,fun hc => ?_⟩,fun hc => ?_,by decide,fun hc => ?_⟩
      · exact absurd (hpl _ hc).1 (by simp [isPlain_iff])
      · exact absurd (hdgs _ hc) (by decide)
      · exact absurd (hpl _ hc).1 (by simp [isPlain_iff])
      · exact absurd (hdgs _ hc) (by decide)
    rw [splitHostPort,hcut]
    simp only [hcln,if_false,validatePort_of_warm hpo,if_true]
    exact ⟨host,port,rfl,canonicalizeAuthorityHost_of_warm hho⟩
  · rename_i hcut
    have hla : raw.getLast? ≠ some ':' := fun hla =>
      cutLast_eq_none.1 hcut (mem_of_mem_getLast? hla)
    rw [splitHostPort,hcut]
    simp only [hla,if_false]
    exact ⟨raw,[],rfl,canonicalizeAuthorityHost_of_warm h⟩

theorem splitAuthorityHostPort_of_bracket {rest : Text} (h : isValidWarmRegistry lib ('[' :: rest)) :
    ∃ host port, splitAuthorityHostPort lib ('[' :: rest) = some (host,port) ∧
      (canonicalizeAuthorityHost lib host).isSome := by
  simp only [isValidWarmRegistry,splitAuthorityHostPort] at h ⊢
  cases hcut : cut ']' rest with
  | none => simp [hcut] at h
  | some parts =>
    obtain ⟨address,port⟩ := parts
    simp only [hcut] at h ⊢
    split at h
    · cases h
    · rename_i haddr
      push Not at haddr
      obtain ⟨ip,hip⟩ := Option.ne_none_iff_exists'.1 haddr.2
      have hho : (canonicalizeAuthorityHost lib address).isSome := by
        simp [canonicalizeAuthorityHost_of_parseIP hip]
      cases port with
      | nil => exact ⟨address,[],rfl,hho⟩
      | cons c port =>
        simp only [and_eq_true,decide_eq_true_eq] at h
        exact ⟨address,port,by simp [h.1,validatePort_of_warm h.2],hho⟩

theorem parseUpstreamAuthority_of_warm (hne : raw ≠ []) (hraw : Unmarked raw)
    (h : isValidWarmRegistry lib raw) :
    ∃ authority, parseUpstreamAuthority lib raw = .ok authority := by
  have hspl : ∃ host port, splitAuthorityHostPort lib raw = some (host,port) ∧
      (canonicalizeAuthorityHost lib host).isSome := by
    by_cases hbrac : raw.head? = some '['
    · obtain ⟨rest,rfl⟩ := head?_eq_some_iff.1 hbrac
      exact splitAuthorityHostPort_of_bracket h
    · exact splitAuthorityHostPort_of_named hbrac h
  obtain ⟨host,port,hpts,hho⟩ := hspl
  obtain ⟨canon,hcan⟩ := Option.isSome_iff_exists.1 hho
  exact ⟨_,parseUpstreamAuthority_of_canonical hne hraw hpts hcan⟩

theorem canonicalizeAuthorityHost_eq_some {canon : Text} (h : canonicalizeAuthorityHost lib host = some canon) :
    host ≠ [] ∧ ((∃ ip, lib.parseIP host = some ip ∧ ip.text = canon) ∨
      trimFinalDot (host.map lib.lowerRune) = canon ∧ canon.length ≤ 253 ∧
        (canon.splitOn '.').all validDNSLabel) := by
  unfold canonicalizeAuthorityHost at h
  split_ifs at h with hbad
  refine ⟨fun hnil => hbad (.inl hnil),?_⟩
  split at h
  · rename_i ip hip
    exact .inl ⟨ip,hip,Option.some.inj h⟩
  · simp only at h
    split_ifs at h with hemp hlong hlbs
    cases h
    exact .inr ⟨rfl,not_lt.1 hlong,hlbs⟩

theorem canonicalizeAuthorityHost_chars {canon : Text}
    (h : canonicalizeAuthorityHost lib host = some canon) : ∀ c ∈ host, isSpace c = false := by
  rcases (canonicalizeAuthorityHost_eq_some h).2 with ⟨ip,hip,-⟩ | ⟨rfl,-,hlbs⟩
  · exact parseIP_space hip
  · intro c hc
    by_contra hspc
    rw [not_eq_false] at hspc
    -- the space is its own lower case, and lies in a label or is a dot
    have hmem : c ∈ host.map lib.lowerRune := mem_map.2 ⟨c,hc,lib.lower_space c hspc⟩
    have hnm : isLowerAlphaNumeric c ∨ c = '-' ∨ c = '.' := by
      refine or_iff_not_imp_right.2 fun hdot => ?_
      have hchs := (name_chars hlbs).2.2.2 c
      unfold trimFinalDot at hchs
      split_ifs at hchs with hla
      · obtain ⟨front,hfrt⟩ := getLast?_eq_some_iff.1 hla
        rw [hfrt] at hmem hchs
        simp_all
      · simp_all
    rcases hnm with hlow | rfl | rfl
    · simp [(isPlain_facts (isLowerAlphaNumeric_plain hlow).1).1] at hspc
    · revert hspc; decide
    · revert hspc; decide

theorem splitAuthorityHostPort_eq_some (h : splitAuthorityHostPort lib raw = some (host,port)) :
    (port = [] ∨ validatePort port) ∧
      (raw.head? = some '[' ∨ (∃ ip, lib.parseIP raw = some ip) ∨ raw = host ++ ':' :: port ∨ raw = host) := by
  unfold splitAuthorityHostPort at h
  split at h
  · refine ⟨?_,.inl rfl⟩
    split at h
    · cases h
    · exact .inl (Prod.mk.inj (Option.some.inj h)).2.symm
    · split_ifs at h with hpo
      exact .inr ((Prod.mk.inj (Option.some.inj h)).2 ▸ hpo.2)
  split at h
  · rename_i ip hip
    exact ⟨.inl (Prod.mk.inj (Option.some.inj h)).2.symm,.inr (.inl ⟨ip,hip⟩)⟩
  split at h
  · rename_i host' port' hpts
    split_ifs at h with hpo
    cases h
    unfold splitHostPort at hpts
    split at hpts
    · cases hpts
    · rename_i hcut
      split_ifs at hpts
      cases hpts
      exact ⟨.inr hpo,.inr (.inr (.inl (cutLast_eq_some.1 hcut).1))⟩
  · split_ifs at h
    cases h
    exact ⟨.inl rfl,.inr (.inr (.inr rfl))⟩

theorem parseUpstreamAuthority_eq_ok {a : UpstreamAuthority} (h : parseUpstreamAuthority lib raw = .ok a) :
    ∃ host port canon, splitAuthorityHostPort lib raw = some (host,port) ∧
      canonicalizeAuthorityHost lib host = some canon ∧ a = authorityOf lib canon port := by
  unfold parseUpstreamAuthority at h
  obtain ⟨-,h⟩ := ite_error_eq_ok.1 h
  obtain ⟨-,h⟩ := ite_error_eq_ok.1 h
  split at h
  · cases h
  rename_i host port hspl
  split at h
  · cases h
  rename_i canon hcan
  exact ⟨host,port,canon,hspl,hcan,(Except.ok.inj h).symm⟩

theorem parseUpstreamAuthority_head {authority : UpstreamAuthority}
    (h : parseUpstreamAuthority lib raw = .ok authority) : ∀ c ∈ raw.head?, isSpace c = false := by
  obtain ⟨host,port,canon,hspl,hcan,-⟩ := parseUpstreamAuthority_eq_ok h
  have hchs := canonicalizeAuthorityHost_chars hcan
  intro c hc
  rcases (splitAuthorityHostPort_eq_some hspl).2 with hbrac | ⟨ip,hip⟩ | rfl | rfl
  · obtain rfl : '[' = c := by simpa [hbrac] using hc
    decide
  · exact parseIP_space hip c (mem_of_mem_head? hc)
  · rw [head?_append_of_ne_nil _ (canonicalizeAuthorityHost_eq_some hcan).1] at hc
    exact hchs c (mem_of_mem_head? hc)
  · exact hchs c (mem_of_mem_head? hc)

/-- `host/repository`, then a tag, then a digest. -/
def referenceText (host repository : Text) (tag digest : Option Text) : Text :=
  host ++ '/' :: (repository++tag.elim [] (':' :: ·))++digest.elim [] ('@' :: ·)

/-- The parts of a reference that the daemon accepts. -/
structure Accepted (lib : HostLibrary) (host repository : Text) (tag digest : Option Text) : Prop where
  registry : isValidWarmRegistry lib host
  host_ne : host ≠ []
  host_marks : ∀ c ∈ host, c ≠ '/' ∧ c ≠ '?' ∧ c ≠ '#' ∧ c ≠ '@'
  valid_repository : isValidWarmRepository repository
  valid_tag : ∀ t ∈ tag, isValidWarmTag t
  valid_digest : ∀ d ∈ digest, isSupportedWarmDigest d
  pinned : tag ≠ none ∨ digest ≠ none

theorem cutDigest_eq (ref : Text) :
    ref = (cutDigest ref).1++(cutDigest ref).2.elim [] ('@' :: ·) ∧ '@' ∉ (cutDigest ref).1 := by
  unfold cutDigest
  cases hcut : cut '@' ref with
  | some parts => exact cut_eq_some.1 hcut
  | none => exact ⟨by simp,cut_eq_none.1 hcut⟩

theorem cutDigest_append {name : Text} (h : '@' ∉ name) (digest : Option Text) :
    cutDigest (name++digest.elim [] ('@' :: ·)) = (name,digest) := by
  cases digest with
  | some digest =>
    have hcut : cut '@' (name ++ '@' :: digest) = some (name,digest) := cut_eq_some.2 ⟨rfl,h⟩
    simp [cutDigest,hcut]
  | none =>
    have hcut : cut '@' name = none := cut_eq_none.2 h
    simp [cutDigest,hcut]

theorem cutTag_eq (remainder : Text) :
    remainder = (cutTag remainder).1++(cutTag remainder).2.elim [] (':' :: ·) := by
  unfold cutTag
  cases hcut : cutLast ':' remainder with
  | some parts => exact (cutLast_eq_some.1 hcut).1
  | none => simp

theorem validateWarmRef_eq_ok {ref : Text} (h : validateWarmRef lib ref = .ok ()) :
    ∃ host repo tag digest, trimSpace ref = referenceText host repo tag digest ∧
      Accepted lib host repo tag digest := by
  simp only [validateWarmRef] at h
  obtain ⟨href,hat⟩ := cutDigest_eq (trimSpace ref)
  set name := (cutDigest (trimSpace ref)).1
  set digest := (cutDigest (trimSpace ref)).2
  obtain ⟨-,h⟩ := ite_error_eq_ok.1 h
  obtain ⟨hmarks,h⟩ := ite_error_eq_ok.1 h
  obtain ⟨-,h⟩ := ite_error_eq_ok.1 h
  obtain ⟨hdig,h⟩ := ite_error_eq_ok.1 h
  split at h
  · cases h
  rename_i host remainder hcut
  obtain ⟨hho,h⟩ := ite_error_eq_ok.1 h
  obtain ⟨hregi,h⟩ := ite_error_eq_ok.1 h
  obtain ⟨hpts,h⟩ := ite_error_eq_ok.1 h
  obtain ⟨hpin,-⟩ := ite_error_eq_ok.1 h
  obtain ⟨hnm,hsl⟩ := cut_eq_some.1 hcut
  simp only [not_or,not_eq_false] at hregi hpts
  refine ⟨host,(cutTag remainder).1,(cutTag remainder).2,digest,?_,hregi.1,?_,?_,hpts.1,?_,?_,?_⟩
  · rw [referenceText,← cutTag_eq,← hnm]
    exact href
  · -- an empty host has neither a dot nor a colon
    rintro rfl
    exact hho (.inr (by simp))
  · intro c hc
    have hmem : c ∈ trimSpace ref := by
      rw [href,hnm]
      simp [hc]
    have hmk := fun hbad => hmarks (any_eq_true.2 ⟨c,hmem,hbad⟩)
    simp only [or_eq_true,decide_eq_true_eq] at hmk
    refine ⟨fun heq => hsl (heq ▸ hc),fun heq => hmk (.inl (.inl heq)),fun heq => hmk (.inl (.inr heq)),?_⟩
    rintro rfl
    exact hat (by simp [hnm,hc])
  · intro t ht
    rw [Option.mem_def] at ht
    simpa [ht] using hpts.2
  · intro d hd
    rw [Option.mem_def] at hd
    simp only [hd,Option.any_some,or_eq_true,decide_eq_true_eq,not_or,not_eq_false] at hdig
    exact hdig.2
  · tauto

/-- Where repository and tag hold no colon the tag is found, and no port taken for one. -/
theorem splitTag_append (host : Text) {repo : Text} {tag : Option Text} (hrp : ':' ∉ repo)
    (htag : ∀ t ∈ tag, t ≠ [] ∧ '/' ∉ t ∧ ':' ∉ t) :
    splitTag (host ++ '/' :: (repo++tag.elim [] (':' :: ·))) = (host ++ '/' :: repo,tag.getD []) := by
  cases tag with
  | some t =>
    obtain ⟨hne,hsl,hcol⟩ := htag t rfl
    have hcut : cutLast ':' (host ++ '/' :: (repo ++ ':' :: t)) = some (host ++ '/' :: repo,t) :=
      cutLast_eq_some.2 ⟨by simp,hcol⟩
    simp [splitTag,hcut,hne,hsl]
  | none =>
    simp only [Option.elim_none,append_nil,Option.getD_none,splitTag]
    cases hcut : cutLast ':' (host ++ '/' :: repo) with
    | none => rfl
    | some parts =>
      obtain ⟨before,t⟩ := parts
      have hsl : '/' ∈ t := by
        obtain ⟨w,-,hw⟩ | ⟨w,-,hw⟩ := append_eq_append_iff.1 (cutLast_eq_some.1 hcut).1
        · cases w with
          | nil => simp at hw
          | cons c w =>
            obtain ⟨-,rfl⟩ := cons.inj hw
            simp at hrp
        · cases w with
          | nil => simp at hw
          | cons c w =>
            obtain ⟨-,rfl⟩ := cons.inj hw
            simp
      simp [hsl]

/-- The mirror takes an accepted reference apart into the same parts. -/
theorem parseWarmReference_of_accepted {repo : Text} {tag digest : Option Text}
    (h : Accepted lib host repo tag digest) :
    ∃ p, parseWarmReference (referenceText host repo tag digest) = .ok p ∧
      p.upstream = host ∧ p.repository = repo ∧
      (p.pinnedDigest = [] ∨ isSupportedWarmDigest p.pinnedDigest) ∧
      (isValidWarmTag p.listedRef ∨ p.listedRef = p.pinnedDigest ∧ p.pinnedDigest ≠ []) ∧
      ∀ c ∈ p.requestReference, isPlain c := by
  obtain ⟨hrp,hchs⟩ := repository_chars h.valid_repository
  have htag : ∀ t ∈ tag, t ≠ [] ∧ '/' ∉ t ∧ ':' ∉ t := by
    intro t ht
    obtain ⟨hne,hpt⟩ := tag_chars (h.valid_tag t ht)
    exact ⟨hne,fun hc => (hpt _ hc).2.1 rfl,fun hc => (hpt _ hc).2.2 rfl⟩
  have hat : '@' ∉ host ++ '/' :: (repo++tag.elim [] (':' :: ·)) := by
    simp only [mem_append,mem_cons,not_or]
    refine ⟨fun hc => (h.host_marks _ hc).2.2.2 rfl,by decide,fun hc => ?_,?_⟩
    · exact absurd (hchs _ hc).1 (by simp [isPlain_iff])
    · cases tag with
      | none => simp
      | some t =>
        simp only [Option.elim_some,mem_cons,not_or]
        exact ⟨by decide,fun hc => absurd ((tag_chars (h.valid_tag t rfl)).2 _ hc).1 (by simp [isPlain_iff])⟩
  have hcut : cut '/' (host ++ '/' :: repo) = some (host,repo) :=
    cut_eq_some.2 ⟨rfl,fun hc => (h.host_marks _ hc).1 rfl⟩
  have hdig : digest ≠ some [] := by
    rintro rfl
    exact absurd (h.valid_digest [] rfl) (by decide)
  simp only [parseWarmReference,referenceText,cutDigest_append hat,hdig,if_false,
    splitTag_append host (fun hc => (hchs _ hc).2 rfl) htag,hcut,h.host_ne,hrp,or_self]
  cases digest with
  | none =>
    obtain ⟨t,rfl⟩ := Option.ne_none_iff_exists'.1 (h.pinned.resolve_right (by simp))
    refine ⟨_,rfl,rfl,rfl,.inl rfl,.inl (h.valid_tag t rfl),fun c hc => ?_⟩
    exact ((tag_chars (h.valid_tag t rfl)).2 c (by simpa [ParsedReference.requestReference] using hc)).1
  | some d =>
    obtain ⟨canon,hcan,hne,hsup,hpl⟩ := canonicalSupportedDigest_of_warm (h.valid_digest d rfl)
    simp only [hcan]
    refine ⟨_,rfl,rfl,rfl,.inr hsup,?_,fun c hc => ?_⟩
    · cases tag with
      | none => exact .inr ⟨by simp,hne⟩
      | some t => exact .inl (by simpa [(htag t rfl).1] using h.valid_tag t rfl)
    · simp only [ParsedReference.requestReference,hne,ne_eq,not_false_eq_true,if_true] at hc
      exact hpl c hc

theorem validEscapes_of_plain {s : Text} (h : ∀ c ∈ s, isPlain c) : validEscapes s := by
  induction s with
  | nil => rfl
  | cons c s ih =>
    have hc : c ≠ '%' := (isPlain_facts (h c (by simp))).2.2.2.2.1
    rw [validEscapes]
    · exact ih fun d hd => h d (by simp [hd])
    all_goals simp [hc]

theorem newRequest_of_plain {target : Text} (h : ∀ c ∈ target, isPlain c) : newRequest target = some target := by
  have hcd : ∀ c ∈ target, 33 ≤ c.toNat ∧ c.toNat ≤ 122 := fun c hc =>
    ⟨(isPlain_facts (h c hc)).2.2.1,(isPlain_facts (h c hc)).2.2.2.1⟩
  have hspc : ' ' ∉ target := fun hc => absurd (hcd _ hc) (by decide)
  have hfixed : ∀ c ∈ "GET ".toList ++ " HTTP/1.0\r".toList, c ≠ '\n' := by simp
  have hln : ∀ c ∈ "GET ".toList++target ++ " HTTP/1.0\r".toList, decide (c ≠ '\n') := by
    intro c hc
    simp only [mem_append] at hc
    rcases hc with (hc | hc) | hc
    · exact decide_eq_true (hfixed c (mem_append_left _ hc))
    · exact decide_eq_true fun heq => absurd (hcd c hc) (heq ▸ by decide)
    · exact decide_eq_true (hfixed c (mem_append_right _ hc))
  have htk : ("GET ".toList++target ++ " HTTP/1.0\r\n\r\n".toList).takeWhile (· ≠ '\n') =
      "GET ".toList++target ++ " HTTP/1.0\r".toList := by
    have hspl : "GET ".toList++target ++ " HTTP/1.0\r\n\r\n".toList =
        ("GET ".toList++target ++ " HTTP/1.0\r".toList) ++ "\n\r\n".toList := by simp
    rw [hspl,takeWhile_append_of_pos hln]
    simp
  have hdp : (("GET ".toList++target ++ " HTTP/1.0\r".toList).dropLast) =
      "GET".toList ++ ' ' :: (target ++ ' ' :: "HTTP/1.0".toList) := by
    rw [dropLast_append_of_ne_nil (by decide)]
    simp
  have hla : ("GET ".toList++target ++ " HTTP/1.0\r".toList).getLast? = some '\r' := by
    rw [getLast?_append_of_ne_nil _ (by decide)]
    decide
  have hmth : cut ' ' ("GET".toList ++ ' ' :: (target ++ ' ' :: "HTTP/1.0".toList)) =
      some ("GET".toList,target ++ ' ' :: "HTTP/1.0".toList) := cut_eq_some.2 ⟨rfl,by decide⟩
  have huri : cut ' ' (target ++ ' ' :: "HTTP/1.0".toList) = some (target,"HTTP/1.0".toList) :=
    cut_eq_some.2 ⟨rfl,hspc⟩
  have hctl : ¬target.any (fun c => c.toNat < 32 || c.toNat = 127) := by
    rw [any_eq_true]
    rintro ⟨c,hc,hbad⟩
    have := hcd c hc
    simp only [or_eq_true,decide_eq_true_eq] at hbad
    omega
  have hpa : target.takeWhile (· ≠ '?') = target :=
    takeWhile_eq_self_iff.2 fun c hc => decide_eq_true (isPlain_facts (h c hc)).2.2.2.2.2.1
  have hver : isHTTPVersion "HTTP/1.0".toList := by decide
  simp only [newRequest,htk,hla,if_true,hdp,hmth,huri,hver,parseRequestURI,if_neg hctl,hpa,
    validEscapes_of_plain h]

theorem requestPath_plain {p : ParsedReference} (hrp : ∀ c ∈ p.repository, isPlain c)
    (hrefe : ∀ c ∈ p.requestReference, isPlain c) : ∀ c ∈ p.requestPath, isPlain c := by
  have hfixed : ∀ c ∈ "/v2/".toList ++ "/manifests/".toList, isPlain c := by simp [isPlain_iff]
  intro c hc
  simp only [ParsedReference.requestPath,manifestRequestPath_eq,mem_append] at hc
  rcases hc with ((hc | hc) | hc) | hc
  · exact hfixed c (mem_append_left _ hc)
  · exact hrp c hc
  · exact hfixed c (mem_append_right _ hc)
  · exact hrefe c hc

/-- An accepted reference without white space around it can be warmed. -/
theorem warmable_of_trimmed {ref : Text} (h : validateWarmRef lib ref = .ok ()) (htrim : trimSpace ref = ref) :
    Warmable lib ref := by
  obtain ⟨host,repo,tag,digest,href,had⟩ := validateWarmRef_eq_ok h
  rw [htrim] at href
  obtain ⟨p,hprs,rfl,rfl,hdig,hli,hrefe⟩ := parseWarmReference_of_accepted had
  obtain ⟨authority,hauth⟩ :=
    parseUpstreamAuthority_of_warm had.host_ne had.host_marks had.registry
  have hpl := requestPath_plain (fun c hc => ((repository_chars had.valid_repository).2 c hc).1) hrefe
  refine ⟨p,authority,href ▸ hprs,hauth,had.valid_repository,hdig,hli,?_,newRequest_of_plain hpl⟩
  exact fun c hc => ⟨(isPlain_facts (hpl c hc)).1,(isPlain_facts (hpl c hc)).2.1⟩

theorem splitTag_cases (name : Text) :
    splitTag name = (name,[]) ∨
      ∃ before tag, splitTag name = (before,tag) ∧ tag ≠ [] ∧ name = before ++ ':' :: tag := by
  unfold splitTag
  cases hcut : cutLast ':' name with
  | none => exact .inl rfl
  | some parts =>
    obtain ⟨before,tag⟩ := parts
    simp only
    split_ifs with htag
    · exact .inl rfl
    · exact .inr ⟨before,tag,rfl,fun hnil => htag (.inr hnil),(cutLast_eq_some.1 hcut).1⟩

theorem getLast_plain {s : Text} (hne : s ≠ []) (h : ∀ c ∈ s, isPlain c) (front : Text) (mark : Char) :
    ∀ c ∈ (front++mark::s).getLast?, isSpace c = false := by
  intro c hc
  rw [getLast?_append_cons,getLast?_cons_of_ne_nil hne] at hc
  exact (isPlain_facts (h c (mem_of_mem_getLast? hc))).1

theorem canonicalSupportedDigest_plain {digest canon : Text} (h : canonicalSupportedDigest digest = some canon) :
    ∃ front enc, digest = front ++ ':' :: enc ∧ enc ≠ [] ∧ ∀ c ∈ enc, isPlain c := by
  obtain ⟨a,sum,hspl,-⟩ := canonicalSupportedDigest_eq_some.1 h
  have hwhl := takeWhile_append_dropWhile (p := (· ≠ ':')) (l := digest)
  unfold splitDigestReference at hspl
  split at hspl
  · cases hspl
  · rename_i colon enc hdp
    split_ifs at hspl with hpts
    have hcol : colon = ':' := by
      have hhd := head?_dropWhile_not (p := (· ≠ ':')) (l := digest)
      rw [hdp] at hhd
      simpa using hhd
    rw [hdp,hcol] at hwhl
    exact ⟨_,enc,hwhl.symm,hpts.2.1,fun c hc => (isHex_plain (all_eq_true.1 hpts.2.2 c hc)).1⟩

theorem parseWarmReference_ends {ref : Text} {p : ParsedReference} (h : parseWarmReference ref = .ok p) :
    p.upstream ≠ [] ∧ p.upstream <+: ref ∧
      (isValidWarmTag p.listedRef ∨ p.pinnedDigest ≠ [] → ∀ c ∈ ref.getLast?, isSpace c = false) := by
  obtain ⟨href,-⟩ := cutDigest_eq ref
  simp only [parseWarmReference] at h
  generalize (cutDigest ref).1 = name at h href
  generalize (cutDigest ref).2 = digest at h href
  rw [ite_error_eq_ok] at h
  obtain ⟨-,h⟩ := h
  have hss : (splitTag name).1 <+: name := by
    rcases splitTag_cases name with hspl | ⟨before,tag,hspl,-,hnm⟩
    · rw [hspl]
    · rw [hspl,hnm]
      exact prefix_append _ _
  split at h
  · cases h
  rename_i host remainder hcut
  rw [ite_error_eq_ok] at h
  obtain ⟨hpts,h⟩ := h
  have hho : host <+: ref := by
    rw [(cut_eq_some.1 hcut).1] at hss
    rw [href]
    exact ((prefix_append _ _).trans hss).trans (prefix_append _ _)
  cases digest with
  | none =>
    -- a reference without digest ends in its tag
    obtain rfl : ParsedReference.mk host remainder (splitTag name).2 [] = p := by simpa using h
    refine ⟨fun hnil => hpts (.inl hnil),hho,fun hli => ?_⟩
    have htag : isValidWarmTag (splitTag name).2 := by simpa using hli
    obtain ⟨hne,hchs⟩ := tag_chars htag
    rcases splitTag_cases name with hspl | ⟨before,tag,hspl,-,hnm⟩
    · simp [hspl] at hne
    · rw [hspl] at hne hchs
      rw [href,hnm,Option.elim_none,append_nil]
      exact getLast_plain hne (fun c hc => (hchs c hc).1) before ':'
  | some digest =>
    simp only at h
    split at h
    · cases h
    · rename_i canon hcan
      obtain ⟨front,enc,rfl,hne,hpl⟩ := canonicalSupportedDigest_plain hcan
      cases h
      refine ⟨fun hnil => hpts (.inl hnil),hho,fun _ => ?_⟩
      have hen := getLast_plain hne hpl (name ++ '@' :: front) ':'
      rw [href]
      simpa using hen

theorem trimmed_of_warmable {ref : Text} (h : Warmable lib ref) : trimSpace ref = ref := by
  obtain ⟨p,authority,hprs,hauth,-,-,hli,-,-⟩ := h
  obtain ⟨hne,⟨rest,hss⟩,hen⟩ := parseWarmReference_ends hprs
  refine trimSpace_eq_self ?_ (hen (hli.imp_right And.right))
  rw [← hss,head?_append_of_ne_nil _ hne]
  exact parseUpstreamAuthority_head hauth

end

theorem warmMirrorCache_singleton {lib : HostLibrary} {ref : Text} (h : validateWarmRef lib ref = .ok ()) {jobs : ℤ}
    (hjb : 0 ≤ jobs ∧ jobs ≤ maxCacheWarmJobs) : warmMirrorCache lib [ref] jobs = .ok [ref] := by
  have hrange : ¬(jobs < 0 ∨ maxCacheWarmJobs < jobs) := by omega
  simp [warmMirrorCache,refError,h,hrange]

/-- An accepted reference can be warmed exactly if there was no white space around it. -/
theorem accepted_reference_warmable_iff (lib : HostLibrary) (ref : Text) (h : validateWarmRef lib ref = .ok ())
    (jobs : ℤ) (hjobs : 0 ≤ jobs ∧ jobs ≤ maxCacheWarmJobs) :
    ∃ passed, warmMirrorCache lib [ref] jobs = .ok [passed] ∧ (Warmable lib passed ↔ trimSpace ref = ref) :=
  ⟨ref,warmMirrorCache_singleton h hjobs,trimmed_of_warmable,warmable_of_trimmed h⟩

/-- A library that knows no addresses, enough for hosts that are names. -/
def namesOnly : HostLibrary where
  lowerRune := Char.toLower
  parseIP _ := none
  lower_ascii _ _ := rfl
  lower_space c h := by
    have hcd : ¬(c.val ≥ 'A'.val ∧ c.val ≤ 'Z'.val) := by
      simp only [isSpace_iff,mem_cons,not_mem_nil,or_false] at h
      simp only [ge_iff_le,UInt32.le_iff_toNat_le,Char.toNat_val,Char.reduceToNat]
      omega
    rw [Char.toLower,dif_neg hcd]
  parseIP_chars _ _ h := by cases h
  parseIP_text _ _ h := by cases h

theorem tagged_reference_warmable : Warmable namesOnly "docker.io/library/registry:2.8".toList := by
  obtain ⟨passed,hpassed,hiff⟩ := accepted_reference_warmable_iff namesOnly "docker.io/library/registry:2.8".toList
    (by decide +kernel) 4 (by decide)
  have heq : warmMirrorCache namesOnly ["docker.io/library/registry:2.8".toList] 4 =
      .ok ["docker.io/library/registry:2.8".toList] := by decide +kernel
  rw [heq] at hpassed
  obtain rfl := (List.cons.inj (Except.ok.inj hpassed)).1
  exact hiff.mpr (by decide +kernel)

theorem trailing_space_panics :
    let ref := "docker.io/library/registry:2.8 ".toList
    validateWarmRef namesOnly ref = .ok () ∧ warmMirrorCache namesOnly [ref] 0 = .ok [ref] ∧
      ¬Warmable namesOnly ref ∧
      ∃ p, parseWarmReference ref = .ok p ∧ newRequest p.requestPath = none := by
  refine ⟨by decide +kernel,by decide +kernel,fun h => ?_,?_⟩
  · exact absurd (trimmed_of_warmable h) (by decide +kernel)
  · exact ⟨⟨"docker.io".toList,"library/registry".toList,"2.8 ".toList,[]⟩,by decide +kernel,by decide +kernel⟩

end TalosBox.Mirror
