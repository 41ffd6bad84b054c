import TalosBox.WarmAgreement
import TalosBox.IPText

/-! The directories of the cache. A guest's registry authority becomes one name, which has to tell
registries apart and stay where it belongs. -/
namespace TalosBox.Mirror

open Cutting Gathering List

/-- Beyond `HostLibrary`: without a colon an address has one text, and one colon does not make an
address. -/
structure AddressTexts (lib : HostLibrary) : Prop where
  plain : ∀ s ip, lib.parseIP s = some ip → ':' ∉ s → ip.text = s
  colons : ∀ s ip, lib.parseIP s = some ip → ':' ∈ s → 2 ≤ s.count ':'

section

variable {lib : HostLibrary} {raw host port : Text}

/-- The hosts that come out of `canonicalizeAuthorityHost`. -/
inductive Canonical (lib : HostLibrary) : Text → Prop
  | address (ip : Address) (h : lib.parseIP ip.text = some ip) : Canonical lib ip.text
  | name (host : Text) (hsh : host.length ≤ 253) (hlbs : (host.splitOn '.').all validDNSLabel) :
      Canonical lib host

theorem canonical_of_canonicalize {canonical : Text} (h : canonicalizeAuthorityHost lib host = some canonical) :
    Canonical lib canonical := by
  rcases (canonicalizeAuthorityHost_eq_some h).2 with ⟨ip,hip,rfl⟩ | ⟨-,hsh,hlbs⟩
  · exact .address ip (lib.parseIP_text _ _ hip)
  · exact .name _ hsh hlbs

theorem lowerRune_name {c : Char} (h : isLowerAlphaNumeric c ∨ c = '-' ∨ c = '.') : lib.lowerRune c = c := by
  have hcd : c.toNat < 128 ∧ ¬(65 ≤ c.toNat ∧ c.toNat ≤ 90) := by
    simp only [isLowerAlphaNumeric_iff,← Char.toNat_inj,Char.reduceToNat] at h
    omega
  have hupper : ¬(c.val ≥ 'A'.val ∧ c.val ≤ 'Z'.val) := by
    exact hcd.2
  rw [lib.lower_ascii c hcd.1,Char.toLower,dif_neg hupper]

theorem Canonical.canonicalize (htxs : AddressTexts lib) (h : Canonical lib host) :
    canonicalizeAuthorityHost lib host = some host := by
  cases h with
  | address ip h => exact canonicalizeAuthorityHost_of_parseIP h
  | name host hsh hlbs =>
    obtain ⟨-,-,-,hchs⟩ := name_chars hlbs
    have hcol : ':' ∉ host := fun hmem => absurd (hchs _ hmem) (by decide)
    cases hip : lib.parseIP host with
    | some ip => rw [canonicalizeAuthorityHost_of_parseIP hip,htxs.plain host ip hip hcol]
    | none =>
      have hlow : host.map lib.lowerRune = host :=
        (map_congr_left fun c hc => lowerRune_name (hchs c hc)).trans (map_id host)
      have hspc : ∀ c ∈ host, isSpace c = false := by
        intro c hc
        rcases hchs c hc with hlow | rfl | rfl
        · exact (isPlain_facts (isLowerAlphaNumeric_plain hlow).1).1
        · decide
        · decide
      rw [canonicalizeAuthorityHost_of_labels hip hspc hsh (hlow.symm ▸ hlbs),hlow]

/-- The characters of a host mean nothing in a path or an authority, and are no underscores. -/
theorem Canonical.chars (h : Canonical lib host) : host ≠ [] ∧ ∀ c ∈ host, isPlain c ∧ c ≠ '/' ∧ c ≠ '_' := by
  cases h with
  | address ip h =>
    obtain ⟨hne,hchs⟩ := lib.parseIP_chars _ _ h
    refine ⟨hne,fun c hc => ?_⟩
    rcases hchs c hc with hhex | rfl | rfl
    · obtain ⟨hpl,hsl,-⟩ := isHex_plain hhex
      refine ⟨hpl,hsl,?_⟩
      rintro rfl
      exact absurd hhex (by decide)
    · decide
    · decide
  | name host _ hlbs =>
    obtain ⟨hne,-,-,hchs⟩ := name_chars hlbs
    refine ⟨hne,fun c hc => ?_⟩
    rcases hchs c hc with hlow | rfl | rfl
    · obtain ⟨hpl,hsl,-⟩ := isLowerAlphaNumeric_plain hlow
      refine ⟨hpl,hsl,?_⟩
      rintro rfl
      exact absurd hlow (by decide)
    · decide
    · decide

theorem Canonical.text (htxs : AddressTexts lib) (h : Canonical lib host) {ip : Address}
    (hip : lib.parseIP host = some ip) : ip.text = host := by
  cases h with
  | address ip' h =>
    rw [h] at hip
    rw [Option.some.inj hip]
  | name host _ hlbs =>
    obtain ⟨-,-,-,hchs⟩ := name_chars hlbs
    exact htxs.plain host ip hip fun hmem => absurd (hchs _ hmem) (by decide)

theorem canonical_of_ok {a : UpstreamAuthority} (h : parseUpstreamAuthority lib raw = .ok a) :
    ∃ host port, Canonical lib host ∧ (port = [] ∨ validatePort port) ∧ a = authorityOf lib host port := by
  obtain ⟨host,port,canonical,hspl,hcan,rfl⟩ := parseUpstreamAuthority_eq_ok h
  exact ⟨canonical,port,canonical_of_canonicalize hcan,(splitAuthorityHostPort_eq_some hspl).1,rfl⟩

lemma port_digits (h : validatePort port) : port ≠ [] ∧ ∀ c ∈ port, isDigit c := by
  simp only [validatePort,Bool.and_eq_true,decide_eq_true_eq,all_eq_true] at h
  exact ⟨h.1.1.1,h.1.1.2⟩

theorem port_plain (h : validatePort port) : ∀ c ∈ port, isPlain c ∧ c ≠ '/' ∧ c ≠ ':' ∧ c ≠ '_' := by
  intro c hc
  have hdg := (port_digits h).2 c hc
  rw [isDigit_iff] at hdg
  simp only [isPlain_iff,ne_eq,← Char.toNat_inj,Char.reduceToNat]
  omega

theorem unmarked_of_plain {s : Text} (h : ∀ c ∈ s, isPlain c ∧ c ≠ '/') : Unmarked s := by
  intro c hc
  obtain ⟨hpl,hsl⟩ := h c hc
  obtain ⟨-,-,-,-,-,hques,hat,hhash,-,-⟩ := isPlain_facts hpl
  exact ⟨hsl,hques,hhash,hat⟩

theorem Canonical.not_bracket (h : Canonical lib host) : '[' ∉ host ∧ ']' ∉ host := by
  refine ⟨fun hmem => ?_,fun hmem => ?_⟩
  · exact absurd (h.chars.2 _ hmem).1 (by decide)
  · exact absurd (h.chars.2 _ hmem).1 (by decide)

theorem splitAuthorityHostPort_of_head (h : raw.head? ≠ some '[') : splitAuthorityHostPort lib raw =
    match lib.parseIP raw with
    | some ip => some (ip.text,[])
    | none =>
      match splitHostPort raw with
      | some (host,port) => if validatePort port then some (host,port) else none
      | none => if raw.getLast? = some ':' then none else some (raw,[]) := by
  unfold splitAuthorityHostPort
  split
  · simp at h
  · rfl

theorem Canonical.split_host (htxs : AddressTexts lib) (h : Canonical lib host) :
    splitAuthorityHostPort lib host = some (host,[]) := by
  have hhd : host.head? ≠ some '[' := fun hhd => h.not_bracket.1 (mem_of_mem_head? hhd)
  rw [splitAuthorityHostPort_of_head hhd]
  cases hip : lib.parseIP host with
  | some ip => simp only [h.text htxs hip]
  | none =>
    cases h with
    | address ip h =>
      rw [h] at hip
      cases hip
    | name host _ hlbs =>
      obtain ⟨-,-,-,hchs⟩ := name_chars hlbs
      have hcol : ':' ∉ host := fun hmem => absurd (hchs _ hmem) (by decide)
      have hla : host.getLast? ≠ some ':' := fun hla => hcol (mem_of_mem_getLast? hla)
      simp [splitHostPort,cutLast_eq_none.2 hcol,hla]

theorem Canonical.split_joined (htxs : AddressTexts lib) (h : Canonical lib host) (hpo : validatePort port) :
    splitAuthorityHostPort lib (joinHostPort host port) = some (host,port) := by
  have hdgs := port_plain hpo
  unfold joinHostPort
  split_ifs with hcol
  · have hcut : cut ']' (host ++ "]:".toList++port) = some (host,':' :: port) :=
      cut_eq_some.2 ⟨by simp,h.not_bracket.2⟩
    rw [cons_append,cons_append,splitAuthorityHostPort]
    simp only [hcut,hpo,and_self,if_true]
  · have hcnt : (host ++ ':' :: port).count ':' = 1 := by
      rw [count_append,count_cons_self,count_eq_zero.2 hcol,
        count_eq_zero.2 fun hmem => (hdgs _ hmem).2.2.1 rfl]
    have hno : lib.parseIP (host ++ ':' :: port) = none := by
      by_contra hso
      obtain ⟨ip,hip⟩ := Option.ne_none_iff_exists'.1 hso
      have htwo := htxs.colons _ ip hip (by simp)
      omega
    have hhd : (host ++ ':' :: port).head? ≠ some '[' := by
      rw [head?_append_of_ne_nil _ h.chars.1]
      exact fun hhd => h.not_bracket.1 (mem_of_mem_head? hhd)
    have hcut : cutLast ':' (host ++ ':' :: port) = some (host,port) :=
      cutLast_eq_some.2 ⟨rfl,fun hmem => (hdgs _ hmem).2.2.1 rfl⟩
    have hcln : ¬(':' ∈ host ∨ '[' ∈ host ++ ':' :: port ∨ ']' ∈ host ++ ':' :: port) := by
      simp only [mem_append,mem_cons,not_or]
      refine ⟨hcol,⟨h.not_bracket.1,by decide,fun hmem => ?_⟩,h.not_bracket.2,by decide,fun hmem => ?_⟩
      · exact absurd (hdgs _ hmem).1 (by decide)
      · exact absurd (hdgs _ hmem).1 (by decide)
    rw [splitAuthorityHostPort_of_head hhd,hno,splitHostPort,hcut]
    simp only [hcln,if_false,hpo,if_true]

theorem Canonical.reparse (htxs : AddressTexts lib) (h : Canonical lib host)
    (hpo : port = [] ∨ validatePort port) :
    parseUpstreamAuthority lib (authorityOf lib host port).canonicalAuthority = .ok (authorityOf lib host port) := by
  obtain ⟨hne,hchs⟩ := h.chars
  have hho := h.canonicalize htxs
  have hpl : ∀ c ∈ host, isPlain c ∧ c ≠ '/' := fun c hc => ⟨(hchs c hc).1,(hchs c hc).2.1⟩
  rcases hpo with rfl | hpo
  · exact parseUpstreamAuthority_of_canonical hne (unmarked_of_plain hpl) (h.split_host htxs) hho
  · have hnonem := (port_digits hpo).1
    have htext : (authorityOf lib host port).canonicalAuthority = joinHostPort host port := if_neg hnonem
    rw [htext]
    refine parseUpstreamAuthority_of_canonical ?_ ?_ (h.split_joined htxs hpo) hho
    · unfold joinHostPort
      split_ifs <;> simp
    · have hdgs := unmarked_of_plain fun c hc => ⟨(port_plain hpo c hc).1,(port_plain hpo c hc).2.1⟩
      have hunma := unmarked_of_plain hpl
      unfold joinHostPort
      split_ifs
      · intro c hc
        rw [show "]:".toList = [']',':'] from rfl] at hc
        simp only [cons_append,mem_cons,mem_append,not_mem_nil,or_false] at hc
        rcases hc with rfl | (hc | rfl | rfl) | hc
        · decide
        · exact hunma c hc
        · decide
        · decide
        · exact hdgs c hc
      · intro c hc
        rcases mem_append.1 hc with hc | hc
        · exact hunma c hc
        · rcases mem_cons.1 hc with rfl | hc
          · decide
          · exact hdgs c hc

def portSuffix (port : Text) : Text := if port = [] then [] else "__port_".toList++port

lemma portSuffix_nil : portSuffix [] = [] := rfl

lemma portSuffix_of_ne (h : port ≠ []) : portSuffix port = '_' :: ("_port_".toList++port) := if_neg h

inductive HostKind
  | name
  | ipv4
  | ipv6

namespace HostKind

def mark : HostKind → Text
  | name => []
  | ipv4 => "__ipv4_".toList
  | ipv6 => "__ipv6_".toList

/-- The host as it is written behind the mark. -/
def write : HostKind → Text → Text
  | ipv6, host => host.map fun c => if c = ':' then '-' else c
  | _, host => host

/-- Names are not marked, addresses are, each kind in its own way. -/
theorem mark_inj {k k' : HostKind} {x y p q : Text} (hx : x ≠ [] ∧ '_' ∉ x) (hy : y ≠ [] ∧ '_' ∉ y)
    (h : k.mark++(x++p) = k'.mark++(y++q)) : k = k' := by
  obtain ⟨c,x,rfl⟩ := exists_cons_of_ne_nil hx.1
  obtain ⟨d,y,rfl⟩ := exists_cons_of_ne_nil hy.1
  have hc : c ≠ '_' := fun heq => hx.2 (by simp [heq])
  have hd : d ≠ '_' := fun heq => hy.2 (by simp [heq])
  have hnm : mark .name = [] := rfl
  have hv4 : mark .ipv4 = ['_','_','i','p','v','4','_'] := rfl
  have hv6 : mark .ipv6 = ['_','_','i','p','v','6','_'] := rfl
  cases k <;> cases k'
  all_goals first
    | rfl
    | simp [hnm,hv4,hv6,hc,Ne.symm hd] at h

end HostKind

def hostKind (lib : HostLibrary) (host : Text) : HostKind :=
  match lib.parseIP host with
  | some ip => if ip.v4 then .ipv4 else .ipv6
  | none => .name

theorem safeCacheKey_eq (lib : HostLibrary) (host port : Text) :
    safeCacheKey lib host port =
      (hostKind lib host).mark++((hostKind lib host).write host++portSuffix port) := by
  unfold safeCacheKey hostKind
  cases lib.parseIP host with
  | none => rfl
  | some ip =>
    cases hv4 : ip.v4
    · simp only [hv4]
      rfl
    · simp only [hv4]
      rfl

theorem write_plain {k : HostKind} (h : ∀ c ∈ host, isPlain c ∧ c ≠ '/' ∧ c ≠ '_') :
    ∀ c ∈ k.write host, isPlain c ∧ c ≠ '/' ∧ c ≠ '_' := by
  cases k with
  | name => exact h
  | ipv4 => exact h
  | ipv6 =>
    intro c hc
    obtain ⟨d,hd,rfl⟩ := mem_map.1 hc
    split_ifs
    · decide
    · exact h d hd

theorem Canonical.written (h : Canonical lib host) (k : HostKind) :
    k.write host ≠ [] ∧ ∀ c ∈ k.write host, isPlain c ∧ c ≠ '/' ∧ c ≠ '_' := by
  obtain ⟨hne,hchs⟩ := h.chars
  refine ⟨?_,write_plain hchs⟩
  cases k with
  | name => exact hne
  | ipv4 => exact hne
  | ipv6 => simpa [HostKind.write] using hne

theorem write_inj {host' : Text} (hki : hostKind lib host = hostKind lib host')
    (h : (hostKind lib host).write host = (hostKind lib host').write host') : host = host' := by
  have hbk : ∀ {host}, hostKind lib host = .ipv6 →
      (HostKind.ipv6.write host).map (fun c => if c = '-' then ':' else c) = host := by
    intro host hki
    have hchs : ∀ c ∈ host, c ≠ '-' := by
      rintro c hc rfl
      cases hip : lib.parseIP host with
      | none => simp [hostKind,hip] at hki
      | some ip => exact absurd ((lib.parseIP_chars host ip hip).2 _ hc) (by decide)
    rw [HostKind.write,map_map]
    refine (map_congr_left fun c hc => ?_).trans (map_id host)
    by_cases hcol : c = ':'
    · simp [hcol]
    · simp [hcol,hchs c hc]
  rw [← hki] at h
  cases hk : hostKind lib host with
  | name =>
    rw [hk] at h
    exact h
  | ipv4 =>
    rw [hk] at h
    exact h
  | ipv6 =>
    rw [hk] at h
    rw [← hbk hk,h,hbk (hki ▸ hk)]

/-- A body without underscores and the suffix behind it can be told apart. -/
theorem body_suffix_inj {x y p q : Text} (hx : '_' ∉ x) (hy : '_' ∉ y) (h : x++portSuffix p = y++portSuffix q) :
    x = y ∧ p = q := by
  have htk : ∀ {z r : Text}, '_' ∉ z → (z++portSuffix r).takeWhile (· ≠ '_') = z := by
    intro z r hz
    rw [takeWhile_append_of_pos fun c hc => by simpa using ne_of_mem_of_not_mem hc hz]
    by_cases hr : r = []
    · rw [hr,portSuffix_nil,takeWhile_nil,append_nil]
    · rw [portSuffix_of_ne hr,takeWhile_cons_of_neg (by decide),append_nil]
  have hbd : x = y := by rw [← htk hx,h,htk hy]
  subst hbd
  refine ⟨rfl,?_⟩
  have hsuf := append_cancel_left h
  by_cases hp : p = [] <;> by_cases hq : q = []
  · rw [hp,hq]
  · rw [hp,portSuffix_nil,portSuffix_of_ne hq] at hsuf
    cases hsuf
  · rw [hq,portSuffix_nil,portSuffix_of_ne hp] at hsuf
    cases hsuf
  · rw [portSuffix_of_ne hp,portSuffix_of_ne hq] at hsuf
    exact append_cancel_left (cons.inj hsuf).2

theorem Canonical.key_inj (h : Canonical lib host) {host' port' : Text} (h' : Canonical lib host')
    (heq : safeCacheKey lib host port = safeCacheKey lib host' port') : host = host' ∧ port = port' := by
  rw [safeCacheKey_eq,safeCacheKey_eq] at heq
  have hbd : ∀ {host}, Canonical lib host → ∀ k : HostKind, k.write host ≠ [] ∧ '_' ∉ k.write host :=
    fun hc k => ⟨(hc.written k).1,fun hmem => ((hc.written k).2 _ hmem).2.2 rfl⟩
  have hki := HostKind.mark_inj (hbd h _) (hbd h' _) heq
  rw [congrArg HostKind.mark hki] at heq
  obtain ⟨hwrit,hpo⟩ := body_suffix_inj (hbd h _).2 (hbd h' _).2 (append_cancel_left heq)
  exact ⟨write_inj hki hwrit,hpo⟩

/-- A name in a directory that is not the directory itself or the one above. -/
def IsComponent (key : Text) : Prop :=
  key ≠ [] ∧ key ≠ ".".toList ∧ key ≠ "..".toList ∧ ∀ c ∈ key, c ≠ '/' ∧ c ≠ '\\' ∧ c ≠ '\x00'

theorem key_chars (h : Canonical lib host) (hpo : port = [] ∨ validatePort port) :
    ∀ c ∈ safeCacheKey lib host port, isPlain c ∧ c ≠ '/' := by
  have hmk : ∀ k : HostKind, k.mark.all (fun c => isPlain c && c ≠ '/') := by
    intro k
    cases k <;> decide
  have hword : "__port_".toList.all (fun c => isPlain c && c ≠ '/') := by decide
  simp only [all_eq_true,Bool.and_eq_true,decide_eq_true_eq] at hmk hword
  intro c hc
  rw [safeCacheKey_eq] at hc
  rcases mem_append.1 hc with hc | hc
  · exact hmk _ c hc
  rcases mem_append.1 hc with hc | hc
  · exact ⟨((h.written _).2 c hc).1,((h.written _).2 c hc).2.1⟩
  unfold portSuffix at hc
  split_ifs at hc with hno
  · cases hc
  · rcases mem_append.1 hc with hc | hc
    · exact hword c hc
    · have hdg := port_plain (hpo.resolve_left hno) c hc
      exact ⟨hdg.1,hdg.2.1⟩

/-- Only a name without a port has no underscore, and it does not end in a dot. -/
theorem Canonical.key_not_dots (h : Canonical lib host) : '_' ∈ safeCacheKey lib host port ∨
    (safeCacheKey lib host port).getLast? ≠ some '.' := by
  rw [safeCacheKey_eq]
  cases hki : hostKind lib host with
  | ipv4 => exact .inl (mem_append_left _ (by decide))
  | ipv6 => exact .inl (mem_append_left _ (by decide))
  | name =>
    by_cases hpo : port = []
    · right
      cases h with
      | address ip h =>
        rw [hostKind,h] at hki
        simp only at hki
        split_ifs at hki
      | name host _ hlbs =>
        rw [hpo,portSuffix_nil,append_nil]
        exact (name_chars hlbs).2.1
    · left
      rw [portSuffix_of_ne hpo]
      exact mem_append_right _ (mem_append_right _ mem_cons_self)

theorem Canonical.key_component (h : Canonical lib host) (hpo : port = [] ∨ validatePort port) :
    IsComponent (safeCacheKey lib host port) := by
  have hnot : ∀ s : Text, '_' ∉ s → s.getLast? = some '.' → safeCacheKey lib host port ≠ s := by
    rintro s hmem hla rfl
    exact h.key_not_dots.elim hmem fun hne => hne hla
  refine ⟨?_,hnot _ (by decide) rfl,hnot _ (by decide) rfl,fun c hc => ?_⟩
  · rw [safeCacheKey_eq]
    simp [(h.written _).1]
  · obtain ⟨hpl,hsl⟩ := key_chars h hpo c hc
    refine ⟨hsl,?_,?_⟩
    · rintro rfl
      exact absurd hpl (by decide)
    · rintro rfl
      exact absurd hpl (by decide)

end

/-- `unicode.ToLower`. -/
structure Runes where
  lowerRune : Char → Char
  lower_ascii : ∀ c, c.toNat < 128 → lowerRune c = c.toLower
  lower_space : ∀ c, isSpace c → lowerRune c = c

lemma isHex_of_digit {c : Char} (h : IPText.digit c < 16) : isHex c := by
  have hall : IPText.digits.all isHex := by decide +kernel
  exact all_eq_true.1 hall c (IPText.mem_digits h)

/-- `net.ParseIP`; the address is of version 4 if `To4` has a value. -/
def parseIP (s : Text) : Option Address := (IPText.parse s).map fun gs => ⟨IPText.text gs,IPText.is4 gs⟩

theorem parseIP_eq_some {s : Text} {ip : Address} (h : parseIP s = some ip) :
    ∃ gs, IPText.parse s = some gs ∧ ip = ⟨IPText.text gs,IPText.is4 gs⟩ := by
  obtain ⟨gs,hgs,rfl⟩ := Option.map_eq_some_iff.1 h
  exact ⟨gs,hgs,rfl⟩

def Runes.hosts (runes : Runes) : HostLibrary where
  lowerRune := runes.lowerRune
  parseIP := parseIP
  lower_ascii := runes.lower_ascii
  lower_space := runes.lower_space
  parseIP_chars s ip h := by
    obtain ⟨gs,hgs,-⟩ := parseIP_eq_some h
    obtain ⟨-,hne,hchs⟩ := IPText.parse_eq_some hgs
    exact ⟨hne,fun c hc => (hchs c hc).imp isHex_of_digit id⟩
  parseIP_text s ip h := by
    obtain ⟨gs,hgs,rfl⟩ := parseIP_eq_some h
    rw [parseIP,IPText.parse_text (IPText.parse_eq_some hgs).1,Option.map_some]

theorem Runes.addressTexts (runes : Runes) : AddressTexts runes.hosts where
  plain s ip h hcol := by
    obtain ⟨gs,hgs,rfl⟩ := parseIP_eq_some h
    exact IPText.text_of_parse hgs hcol
  colons s ip h hcol := by
    obtain ⟨gs,hgs,-⟩ := parseIP_eq_some h
    exact IPText.two_le_count_of_parse hgs hcol

/-- The key of an accepted authority stays in the cache's directory, stands for one host and port,
and is the canonical authority's too. -/
theorem cacheKey_names_upstream (runes : Runes) (raw raw' : Text) (a a' : UpstreamAuthority)
    (h : parseUpstreamAuthority runes.hosts raw = .ok a) (h' : parseUpstreamAuthority runes.hosts raw' = .ok a') :
    IsComponent a.cacheKey ∧
      (a.cacheKey = a'.cacheKey ↔ a.canonicalHost = a'.canonicalHost ∧ a.port = a'.port) ∧
      parseUpstreamAuthority runes.hosts a.canonicalAuthority = .ok a := by
  obtain ⟨host,port,hhost,hport,rfl⟩ := canonical_of_ok h
  obtain ⟨host',port',hhost',-,rfl⟩ := canonical_of_ok h'
  refine ⟨hhost.key_component hport,⟨fun heq => hhost.key_inj hhost' heq,?_⟩,hhost.reparse runes.addressTexts hport⟩
  rintro ⟨rfl,rfl⟩
  rfl

/-- Small letters for ASCII only. -/
def asciiRunes : Runes := ⟨namesOnly.lowerRune,namesOnly.lower_ascii,namesOnly.lower_space⟩

theorem mapped_address_shares_key :
    let mapped : UpstreamAuthority := {
      cacheKey := "__ipv4_10.5.0.1__port_5000".toList
      canonicalHost := "10.5.0.1".toList
      canonicalAuthority := "10.5.0.1:5000".toList
      base := "https://10.5.0.1:5000".toList
      port := "5000".toList }
    parseUpstreamAuthority asciiRunes.hosts "[::FFFF:a05:1]:5000".toList = .ok mapped ∧
      IsComponent mapped.cacheKey ∧ parseUpstreamAuthority asciiRunes.hosts "10.5.0.1:5000".toList = .ok mapped := by
  intro mapped
  have hmapped : parseUpstreamAuthority asciiRunes.hosts "[::FFFF:a05:1]:5000".toList = .ok mapped := by
    decide +kernel
  have hkey := cacheKey_names_upstream asciiRunes _ _ mapped mapped hmapped hmapped
  exact ⟨hmapped,hkey.1,hkey.2.2⟩

end TalosBox.Mirror
