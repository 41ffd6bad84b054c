import TalosBox.WarmAgreement

/-! A registry's challenges. A header lists challenges, a challenge parameters, both separated by
commas; the mirror looks for the first that says where to get a bearer token. -/
namespace TalosBox.Registry

open Cutting List
open Mirror (Text toLower trimSpace isSpace isAlphaNumeric isLetter isDigit isLetter_iff isDigit_iff)

structure BearerChallenge where
  realm : Text
  service : Text
  scope : Text
  deriving DecidableEq

/-- The segments between commas outside quotes, where a backslash takes the next character along. -/
def splitSegments (quoted escaped : Bool) (segment : Text) : Text → List Text
  | [] => [segment]
  | c::s =>
    if escaped then splitSegments quoted false (segment++[c]) s
    else if c = '"' then splitSegments (!quoted) false (segment++[c]) s
    else if c = '\\' then splitSegments quoted quoted (segment++[c]) s
    else if c = ',' ∧ quoted = false then segment::splitSegments false false [] s
    else splitSegments quoted false (segment++[c]) s

def isBlank (c : Char) : Bool := c = ' ' || c = '\t'

/-- The segment is a parameter of the challenge before it. -/
def continues (segment : Text) : Bool :=
  let head := ((cut '=' segment).map Prod.fst).getD segment
  !(trimSpace head).any isBlank && '=' ∈ segment

/-- The challenges that are complete, and the one being put together behind them. -/
def flush (state : List Text × Text) : List Text := if state.2 ≠ [] then state.1++[state.2] else state.1

def joinSegment (state : List Text × Text) (segment : Text) : List Text × Text :=
  let segment := trimSpace segment
  if segment = [] then state
  else if state.2 ≠ [] ∧ continues segment then (state.1,state.2 ++ ", ".toList++segment)
  else (flush state,segment)

def splitChallenges (header : Text) : List Text :=
  flush ((splitSegments false false [] header).foldl joinSegment ([],[]))

def isKeyChar (c : Char) : Bool := isAlphaNumeric c || c = '_' || c = '-'

/-- `challengeRe` at the beginning of a text: the two groups and what is behind. -/
def matchParam (s : Text) : Option (Text × Text × Text) :=
  let key := s.takeWhile isKeyChar
  if key = [] then none
  else
    match s.dropWhile isKeyChar with
    | '=' :: '"' :: rest => (cut '"' rest).map fun (value,rest) => (key,value,rest)
    | _ => none

/-- `FindAllStringSubmatch`; `n` is at least the length of the text. -/
def findParams : ℕ → Text → List (Text × Text)
  | 0, _ => []
  | _, [] => []
  | n+1, c::s =>
    match matchParam (c::s) with
    | some (key,value,rest) => (key,value)::findParams n rest
    | none => findParams n s

/-- What a map has for a key after the matches have been put into it. -/
def paramValue (key : Text) (found : List (Text × Text)) : Text :=
  found.foldl (fun value m => if toLower m.1 = key then m.2 else value) []

def parseBearerChallenge (header : Text) : Option BearerChallenge :=
  match cut ' ' (trimSpace header) with
  | none => none
  | some (scheme,rest) =>
    if toLower scheme = "bearer".toList then
      let found := findParams rest.length rest
      some ⟨paramValue "realm".toList found,paramValue "service".toList found,paramValue "scope".toList found⟩
    else none

def bearerChallengeFrom (headers : List Text) : Option BearerChallenge :=
  headers.findSome? fun header => (splitChallenges header).findSome? parseBearerChallenge

def isTokenChar (c : Char) : Bool := isAlphaNumeric c || c ∈ "!#$%&'*+-.^_`|~".toList

structure Scheme where
  name : Text
  ne : name ≠ []
  chars : ∀ c ∈ name, isTokenChar c

structure Token68 where
  body : Text
  ne : body ≠ []
  chars : ∀ c ∈ body, (isAlphaNumeric c || c ∈ "-._~+/".toList)
  padding : ℕ

def Token68.text (t : Token68) : Text := t.body++replicate t.padding '='

structure Param where
  key : Text
  value : Text
  ne : key ≠ []
  chars : ∀ c ∈ key, isTokenChar c
  unquoted : ∀ c ∈ value, c ≠ '"' ∧ c ≠ '\\'

def Param.text (p : Param) : Text := p.key ++ '=' :: '"' :: (p.value++['"'])

inductive Challenge
  | alone (scheme : Scheme)
  | token68 (scheme : Scheme) (token : Token68)
  | params (scheme : Scheme) (first : Param) (more : List Param)

/-- The segments of a challenge, without what surrounds them. -/
inductive Challenge.Segments : Challenge → List Text → Prop
  | alone (scheme : Scheme) : Segments (.alone scheme) [scheme.name]
  | token68 (scheme : Scheme) (token : Token68) (gap : Text) (hgap : ∀ c ∈ gap, isBlank c) :
      Segments (.token68 scheme token) [scheme.name ++ ' ' :: (gap++token.text)]
  | params (scheme : Scheme) (first : Param) (more : List Param) (gap : Text) (hgap : ∀ c ∈ gap, isBlank c) :
      Segments (.params scheme first more) ((scheme.name ++ ' ' :: (gap++first.text))::more.map Param.text)

def Padded (segment text : Text) : Prop :=
  ∃ p q : Text, (∀ c ∈ p, isBlank c) ∧ (∀ c ∈ q, isBlank c) ∧ text = p++segment++q

/-- The header is the challenges' segments, with blanks around them and commas between. -/
def Prints (challenges : List Challenge) (header : Text) : Prop :=
  ∃ segments padded, Forall₂ Challenge.Segments challenges segments ∧
    Forall₂ Padded segments.flatten padded ∧ header = [','].intercalate padded

def Scheme.isBearer (s : Scheme) : Bool := toLower s.name = "bearer".toList

/-- The value of the last parameter with the key, in any case. -/
def lastValue (key : Text) (params : List Param) : Text :=
  ((params.filter fun p => toLower p.key = key).getLast?.map Param.value).getD []

def bearerFields (params : List Param) : BearerChallenge :=
  ⟨lastValue "realm".toList params,lastValue "service".toList params,lastValue "scope".toList params⟩

/-- What a challenge advertises. -/
def Challenge.bearer : Challenge → Option BearerChallenge
  | .params scheme first more => if scheme.isBearer then some (bearerFields (first::more)) else none
  | _ => none

def advertised (challenges : List Challenge) : Option BearerChallenge := challenges.findSome? Challenge.bearer

/-- What is read of a challenge. -/
def Challenge.reading : Challenge → Option BearerChallenge
  | .alone _ => none
  | .token68 scheme _ => if scheme.isBearer then some ⟨[],[],[]⟩ else none
  | .params scheme first more => if scheme.isBearer then some (bearerFields (first::more)) else none

/-- The keys of the challenge are ones the mirror's expression reads. -/
def Challenge.Plain : Challenge → Prop
  | .params _ first more => ∀ p ∈ first::more, ∀ c ∈ p.key, isKeyChar c
  | _ => True

/-- A visible character that means nothing in a header. -/
def isWordChar (c : Char) : Bool :=
  32 < c.toNat && c.toNat < 127 && c ≠ ',' && c ≠ '"' && c ≠ '\\' && c ≠ '='

variable {c : Char}

theorem isWordChar_of_alphaNumeric (h : isAlphaNumeric c) : isWordChar c := by
  simp only [isAlphaNumeric,Bool.or_eq_true,isLetter_iff,isDigit_iff] at h
  simp only [isWordChar,Bool.and_eq_true,decide_eq_true_eq,ne_eq,← Char.toNat_inj,Char.reduceToNat]
  omega

theorem isWordChar_of_or {others : Text} (hos : others.all isWordChar)
    (h : (isAlphaNumeric c || c ∈ others)) : isWordChar c := by
  rw [Bool.or_eq_true,decide_eq_true_eq] at h
  exact h.elim isWordChar_of_alphaNumeric (all_eq_true.1 hos c)

lemma isSpace_of_blank (h : isBlank c) : isSpace c := by
  simp only [isBlank,Bool.or_eq_true,decide_eq_true_eq] at h
  rcases h with rfl | rfl <;> decide

theorem not_isSpace (hlow : 32 < c.toNat) (hhigh : c.toNat < 127) : isSpace c = false := by
  simp only [isSpace,Bool.or_eq_false_iff,decide_eq_false_iff_not,Bool.and_eq_false_iff,mem_cons,
    not_mem_nil,or_false]
  omega

/-- The text begins and ends with something else than a space. -/
structure Tight (s : Text) : Prop where
  ne : s ≠ []
  head : ∀ c ∈ s.head?, isSpace c = false
  last : ∀ c ∈ s.getLast?, isSpace c = false

variable {s text : Text}

theorem trimSpace_padded (hs : Tight s) (h : Padded s text) : trimSpace text = s := by
  obtain ⟨p,q,hp,hq,rfl⟩ := h
  have hfrt : (p++s++q).dropWhile isSpace = s++q := by
    rw [append_assoc,dropWhile_append_of_pos fun c hc => isSpace_of_blank (hp c hc)]
    cases s with
    | nil => exact absurd rfl hs.ne
    | cons c s => simp [hs.head c rfl]
  have hbk : (s++q).rdropWhile isSpace = s.rdropWhile isSpace := by
    rw [rdropWhile,reverse_append,dropWhile_append_of_pos,rdropWhile]
    exact fun c hc => isSpace_of_blank (hq c (mem_reverse.1 hc))
  rw [trimSpace,hfrt,hbk,rdropWhile_eq_self_iff]
  intro hne
  simp [hs.last _ (getLast?_eq_some_getLast hne)]

lemma Tight.trimSpace (hs : Tight s) : trimSpace s = s :=
  trimSpace_padded hs ⟨[],[],nofun,nofun,by simp⟩

/-- The splitter takes the text as a whole. -/
def Whole (x : Text) : Prop := ∀ segment rest,
  splitSegments false false segment (x++rest) = splitSegments false false (segment++x) rest

variable {x : Text}

lemma Whole.append {y : Text} (hx : Whole x) (hy : Whole y) : Whole (x++y) := by
  intro segment rest
  rw [append_assoc,hx,hy,append_assoc]

theorem whole_of_chars (h : ∀ c ∈ x, c ≠ '"' ∧ c ≠ '\\' ∧ c ≠ ',') : Whole x := by
  induction x with
  | nil =>
    intro segment rest
    simp
  | cons c x ih =>
    intro segment rest
    obtain ⟨hquote,hsl,hcomma⟩ := h c (by simp)
    rw [cons_append,splitSegments]
    simp only [Bool.false_eq_true,if_false,hquote,hsl,hcomma,false_and]
    rw [ih fun c hc => h c (by simp [hc]),append_assoc,singleton_append]

theorem splitSegments_value {value : Text} (h : ∀ c ∈ value, c ≠ '"' ∧ c ≠ '\\') (segment rest : Text) :
    splitSegments true false segment (value ++ '"' :: rest) =
      splitSegments false false (segment++value++['"']) rest := by
  induction value generalizing segment with
  | nil => simp [splitSegments]
  | cons c value ih =>
    obtain ⟨hquote,hsl⟩ := h c (by simp)
    rw [cons_append,splitSegments]
    simp only [hquote,hsl]
    rw [ih fun c hc => h c (by simp [hc])]
    simp

theorem whole_quoted {value : Text} (h : ∀ c ∈ value, c ≠ '"' ∧ c ≠ '\\') : Whole ('"' :: (value++['"'])) := by
  intro segment rest
  rw [cons_append,splitSegments]
  simp only [Bool.not_false,append_assoc,singleton_append]
  rw [splitSegments_value h]
  simp

theorem whole_blank {p : Text} (h : ∀ c ∈ p, isBlank c) : Whole p := by
  refine whole_of_chars fun c hc => ?_
  have hblk := h c hc
  simp only [isBlank,Bool.or_eq_true,decide_eq_true_eq] at hblk
  rcases hblk with rfl | rfl <;> decide

lemma Whole.padded (hs : Whole s) (h : Padded s text) : Whole text := by
  obtain ⟨p,q,hp,hq,rfl⟩ := h
  exact ((whole_blank hp).append hs).append (whole_blank hq)

variable {segments : List Text}

theorem splitSegments_intercalate (hne : segments ≠ []) (h : ∀ x ∈ segments, Whole x) :
    splitSegments false false [] ([','].intercalate segments) = segments := by
  induction segments with
  | nil => exact absurd rfl hne
  | cons x segments ih =>
    have hx := h x (by simp) []
    cases segments with
    | nil =>
      have hend := hx []
      rw [append_nil] at hend
      rw [intercalate_singleton,hend]
      rfl
    | cons y segments =>
      rw [intercalate_cons_cons,append_assoc,hx,singleton_append,splitSegments]
      simp only [Bool.false_eq_true,if_false,Char.reduceEq,and_self,if_true,nil_append]
      rw [ih (by simp) fun x hx => h x (by simp [hx])]

/-- A segment that begins a challenge. -/
structure Opens (s : Text) : Prop where
  whole : Whole s
  tight : Tight s
  opens : continues s = false

/-- A segment that goes on with one. -/
structure Joins (s : Text) : Prop where
  whole : Whole s
  tight : Tight s
  joins : continues s

lemma joinSegment_padded (hs : Tight s) (h : Padded s text) (state : List Text × Text) :
    joinSegment state text = joinSegment state s := by
  simp only [joinSegment,trimSpace_padded hs h,hs.trimSpace]

lemma joinSegment_opens (hs : Opens s) (state : List Text × Text) :
    joinSegment state s = (flush state,s) := by
  simp [joinSegment,hs.tight.trimSpace,hs.tight.ne,hs.opens]

lemma joinSegment_joins (hs : Joins s) {state : List Text × Text} (hste : state.2 ≠ []) :
    joinSegment state s = (state.1,state.2 ++ ", ".toList++s) := by
  simp [joinSegment,hs.tight.trimSpace,hs.tight.ne,hs.joins,hste]

/-- A challenge as it is put together of its segments. -/
def joined (first : Text) (more : List Text) : Text := first++more.flatMap fun s => ", ".toList++s

theorem foldl_joins {more : List Text} (h : ∀ s ∈ more, Joins s) {done : List Text} {current : Text}
    (hcur : current ≠ []) : more.foldl joinSegment (done,current) = (done,joined current more) := by
  induction more generalizing current with
  | nil => simp [joined]
  | cons s more ih =>
    rw [foldl_cons,joinSegment_joins (h s (by simp)) hcur,
      ih (fun s hs => h s (by simp [hs])) (by simp)]
    simp [joined]

theorem foldl_challenge {first : Text} {more : List Text} (hfst : Opens first) (hmo : ∀ s ∈ more, Joins s)
    (state : List Text × Text) :
    (first::more).foldl joinSegment state = (flush state,joined first more) := by
  rw [foldl_cons,joinSegment_opens hfst,foldl_joins hmo hfst.tight.ne]

/-- The segments of one challenge: the first opens it and the others go on with it. -/
def Shaped (segments : List Text) (text : Text) : Prop :=
  ∃ first more, segments = first::more ∧ Opens first ∧ (∀ s ∈ more, Joins s) ∧ text = joined first more

lemma joined_ne_nil {first : Text} (h : first ≠ []) (more : List Text) : joined first more ≠ [] := by
  simp [joined,h]

variable {texts : List Text}

theorem flush_foldl {segments : List (List Text)} (h : Forall₂ Shaped segments texts)
    (state : List Text × Text) : flush (segments.flatten.foldl joinSegment state) = flush state++texts := by
  induction h generalizing state with
  | nil => simp
  | @cons segment text segments texts hshp _ ih =>
    obtain ⟨first,more,rfl,hfst,hmo,rfl⟩ := hshp
    rw [flatten_cons,foldl_append,foldl_challenge hfst hmo,ih]
    have hne := joined_ne_nil hfst.tight.ne more
    simp [flush,hne]

theorem Shaped.facts (h : Shaped segments text) :
    ∀ s ∈ segments, Whole s ∧ Tight s := by
  obtain ⟨first,more,rfl,hfst,hmo,-⟩ := h
  intro s hs
  rcases mem_cons.1 hs with rfl | hs
  · exact ⟨hfst.whole,hfst.tight⟩
  · exact ⟨(hmo s hs).whole,(hmo s hs).tight⟩

theorem facts_flatten {segments : List (List Text)} (h : Forall₂ Shaped segments texts) :
    ∀ s ∈ segments.flatten, Whole s ∧ Tight s := by
  induction h with
  | nil => simp
  | cons hshp _ ih =>
    intro s hs
    rw [flatten_cons,mem_append] at hs
    exact hs.elim (hshp.facts s) (ih s)

theorem facts_padded {padded : List Text} (h : Forall₂ Padded segments padded)
    (hs : ∀ s ∈ segments, Whole s ∧ Tight s) :
    (∀ text ∈ padded, Whole text) ∧
      ∀ state, padded.foldl joinSegment state = segments.foldl joinSegment state := by
  induction h with
  | nil => simp
  | cons hpad _ ih =>
    obtain ⟨hwhl,hfo⟩ := ih fun s hmem => hs s (by simp [hmem])
    obtain ⟨hfst,htig⟩ := hs _ mem_cons_self
    refine ⟨forall_mem_cons.2 ⟨hfst.padded hpad,hwhl⟩,fun state => ?_⟩
    rw [foldl_cons,foldl_cons,joinSegment_padded htig hpad,hfo]

theorem splitChallenges_padded {segments : List (List Text)} {padded : List Text}
    (h : Forall₂ Shaped segments texts) (hpadded : Forall₂ Padded segments.flatten padded) :
    splitChallenges ([','].intercalate padded) = texts := by
  obtain ⟨hwhl,hfo⟩ := facts_padded hpadded (facts_flatten h)
  have hflush : flush (padded.foldl joinSegment ([],[])) = texts := by
    rw [hfo,flush_foldl h]
    simp [flush]
  rw [splitChallenges]
  cases padded with
  | nil =>
    -- an empty header has one segment, which is skipped
    rw [← hflush]
    rfl
  | cons text padded => rw [splitSegments_intercalate (by simp) hwhl,hflush]

lemma tight_of_chars (hne : x ≠ []) (h : ∀ c ∈ x, isSpace c = false) : Tight x :=
  ⟨hne,fun c hc => h c (mem_of_mem_head? hc),fun c hc => h c (mem_of_mem_getLast? hc)⟩

theorem Tight.around {y : Text} (hx : Tight x) (hy : Tight y) (z : Text) : Tight (x++(z++y)) := by
  refine ⟨by simp [hx.ne],fun c hc => ?_,fun c hc => ?_⟩
  · rw [head?_append_of_ne_nil _ hx.ne] at hc
    exact hx.head c hc
  · rw [getLast?_append_of_ne_nil _ (by simp [hy.ne]),getLast?_append_of_ne_nil _ hy.ne] at hc
    exact hy.last c hc

lemma isSpace_of_wordChar (h : isWordChar c) : isSpace c = false := by
  simp only [isWordChar,Bool.and_eq_true,decide_eq_true_eq] at h
  exact not_isSpace h.1.1.1.1.1 h.1.1.1.1.2

lemma wordChar_ne (h : isWordChar c) : c ≠ '"' ∧ c ≠ '\\' ∧ c ≠ ',' := by
  simp only [isWordChar,Bool.and_eq_true,decide_eq_true_eq] at h
  exact ⟨h.1.1.2,h.1.2,h.1.1.1.2⟩

/-- A word of a header. -/
structure Word (x : Text) : Prop where
  ne : x ≠ []
  chars : ∀ c ∈ x, isWordChar c

lemma Word.tight (h : Word x) : Tight x :=
  tight_of_chars h.ne fun c hc => isSpace_of_wordChar (h.chars c hc)

lemma Word.whole (h : Word x) : Whole x := whole_of_chars fun c hc => wordChar_ne (h.chars c hc)

theorem Word.notMem (h : Word x) (hc : isWordChar c = false) : c ∉ x := by
  intro hmem
  rw [h.chars c hmem] at hc
  cases hc

lemma Scheme.word (s : Scheme) : Word s.name :=
  ⟨s.ne,fun c hc => isWordChar_of_or (by decide) (s.chars c hc)⟩

lemma Param.word (p : Param) : Word p.key :=
  ⟨p.ne,fun c hc => isWordChar_of_or (by decide) (p.chars c hc)⟩

lemma Token68.word (t : Token68) : Word t.body :=
  ⟨t.ne,fun c hc => isWordChar_of_or (by decide) (t.chars c hc)⟩

lemma Token68.mem_text {t : Token68} (h : c ∈ t.text) : isWordChar c ∨ c = '=' := by
  rw [Token68.text,mem_append] at h
  exact h.imp (t.word.chars c) eq_of_mem_replicate

theorem Token68.tight (t : Token68) : Tight t.text := by
  refine tight_of_chars (by simp [Token68.text,t.ne]) fun c hc => ?_
  rcases Token68.mem_text hc with hchar | rfl
  · exact isSpace_of_wordChar hchar
  · rfl

theorem Token68.whole (t : Token68) : Whole t.text := by
  refine whole_of_chars fun c hc => ?_
  rcases Token68.mem_text hc with hchar | rfl
  · exact wordChar_ne hchar
  · decide

theorem Param.tight (p : Param) : Tight p.text := by
  have hend : Tight ['"'] := ⟨by simp,by simp [isSpace],by simp [isSpace]⟩
  have htext : p.text = p.key++(('=' :: '"' :: p.value)++['"']) := by simp [Param.text]
  rw [htext]
  exact p.word.tight.around hend _

lemma Param.whole (p : Param) : Whole p.text := by
  have hequals : Whole ['='] := whole_of_chars (by simp)
  exact p.word.whole.append (hequals.append (whole_quoted p.unquoted))

theorem Param.joins (p : Param) : Joins p.text := by
  refine ⟨p.whole,p.tight,?_⟩
  have hcut : cut '=' p.text = some (p.key,'"' :: (p.value++['"'])) :=
    cut_eq_some.2 ⟨rfl,p.word.notMem rfl⟩
  have hblk : p.key.any isBlank = false := by
    rw [any_eq_false]
    intro c hc hblk
    simp only [isBlank,Bool.or_eq_true,decide_eq_true_eq] at hblk
    rcases hblk with rfl | rfl
    · exact p.word.notMem rfl hc
    · exact p.word.notMem rfl hc
  have hmem : '=' ∈ p.text := by simp [Param.text]
  simp [continues,hcut,p.word.tight.trimSpace,hblk,hmem]

/-- A scheme and what comes behind the gap open a challenge. -/
theorem continues_gap {name body tail gap : Text} (hnm : Word name) (hbd : Word body)
    (htl : ∀ c ∈ tail.head?, c = '=') (hgap : ∀ c ∈ gap, isBlank c) :
    continues (name ++ ' ' :: (gap++(body++tail))) = false := by
  have hfrt : '=' ∉ name ++ ' ' :: (gap++body) := by
    have hgap' : '=' ∉ gap := fun hmem => absurd (hgap _ hmem) (by decide)
    simp [hnm.notMem (show isWordChar '=' = false from rfl),hbd.notMem (show isWordChar '=' = false from rfl),hgap']
  have hhd : ((cut '=' (name ++ ' ' :: (gap++(body++tail)))).map Prod.fst).getD
      (name ++ ' ' :: (gap++(body++tail))) = name ++ ' ' :: (gap++body) := by
    cases tail with
    | nil =>
      rw [append_nil,cut_eq_none.2 hfrt]
      rfl
    | cons c tail =>
      obtain rfl := htl c rfl
      have hcut : cut '=' (name ++ ' ' :: (gap++(body ++ '=' :: tail))) = some (name ++ ' ' :: (gap++body),tail) :=
        cut_eq_some.2 ⟨by simp,hfrt⟩
      rw [hcut]
      rfl
  have htig : Tight (name ++ ' ' :: (gap++body)) := hnm.tight.around hbd.tight (' ' :: gap)
  simp [continues,hhd,htig.trimSpace,show isBlank ' ' from rfl]

theorem opens_gap {name rest gap : Text} (hnm : Word name) (hrs : Whole rest) (htig : Tight rest)
    (hgap : ∀ c ∈ gap, isBlank c) (h : continues (name ++ ' ' :: (gap++rest)) = false) :
    Opens (name ++ ' ' :: (gap++rest)) := by
  have hblk : ∀ c ∈ ' ' :: gap, isBlank c := forall_mem_cons.2 ⟨rfl,hgap⟩
  refine ⟨hnm.whole.append ((whole_blank hblk).append hrs),hnm.tight.around htig (' ' :: gap),h⟩

theorem findParams_of_notMem (h : '"' ∉ s) (n : ℕ) : findParams n s = [] := by
  induction n generalizing s with
  | zero => rfl
  | succ n ih =>
    cases s with
    | nil => rfl
    | cons c s =>
      have hno : matchParam (c::s) = none := by
        simp only [matchParam]
        split_ifs
        · rfl
        · split
          · rename_i rest hrs
            have hmem : '"' ∈ (c::s).dropWhile isKeyChar := by simp [hrs]
            exact absurd ((dropWhile_suffix _).subset hmem) h
          · rfl
      simp only [findParams,hno]
      exact ih fun hmem => h (by simp [hmem])

theorem findParams_skip {junk : Text} (h : ∀ c ∈ junk, isKeyChar c = false) (s : Text) (n : ℕ) :
    findParams (junk.length+n) (junk++s) = findParams n s := by
  induction junk with
  | nil => simp
  | cons c junk ih =>
    have hno : matchParam (c::(junk++s)) = none := by simp [matchParam,h c (by simp)]
    rw [length_cons,Nat.add_right_comm,cons_append,findParams,hno]
    exact ih fun c hc => h c (by simp [hc])

theorem matchParam_text {p : Param} (h : ∀ c ∈ p.key, isKeyChar c) (rest : Text) :
    matchParam (p.text++rest) = some (p.key,p.value,rest) := by
  have htext : p.text++rest = p.key ++ '=' :: '"' :: (p.value ++ '"' :: rest) := by simp [Param.text]
  have hkey : (p.text++rest).takeWhile isKeyChar = p.key := by
    rw [htext,takeWhile_append_of_pos h]
    simp [isKeyChar,isAlphaNumeric,isLetter,isDigit]
  have hrs : (p.text++rest).dropWhile isKeyChar = '=' :: '"' :: (p.value ++ '"' :: rest) := by
    rw [htext,dropWhile_append_of_pos h]
    simp [isKeyChar,isAlphaNumeric,isLetter,isDigit]
  have hvl : cut '"' (p.value ++ '"' :: rest) = some (p.value,rest) :=
    cut_eq_some.2 ⟨rfl,fun hmem => (p.unquoted _ hmem).1 rfl⟩
  simp [matchParam,hkey,hrs,hvl,p.ne]

/-- Behind anything that is no key the parameter is found, with steps enough for the rest. -/
theorem findParams_param {p : Param} (h : ∀ c ∈ p.key, isKeyChar c) {junk : Text}
    (hjunk : ∀ c ∈ junk, isKeyChar c = false) {rest : Text} {n : ℕ}
    (hn : (junk++(p.text++rest)).length ≤ n) :
    ∃ m, rest.length ≤ m ∧ findParams n (junk++(p.text++rest)) = (p.key,p.value)::findParams m rest := by
  have hlen : 2 ≤ p.text.length := by
    simp only [Param.text,length_append,length_cons]
    omega
  simp only [length_append] at hn
  obtain ⟨m,rfl⟩ : ∃ m, n = junk.length+(m+1) := ⟨n-junk.length-1,by omega⟩
  refine ⟨m,by omega,?_⟩
  rw [findParams_skip hjunk]
  obtain ⟨c,s,hcons⟩ : ∃ c s, p.text++rest = c::s := exists_cons_of_length_pos (by simp; omega)
  have hmatch := matchParam_text h rest
  rw [hcons] at hmatch ⊢
  simp only [findParams,hmatch]

lemma not_isKeyChar_separator : ∀ c ∈ ", ".toList, isKeyChar c = false := by
  simp [isKeyChar,isAlphaNumeric,isLetter,isDigit]

theorem findParams_more {more : List Param} (h : ∀ p ∈ more, ∀ c ∈ p.key, isKeyChar c) {n : ℕ}
    (hn : ((more.map Param.text).flatMap fun s => ", ".toList++s).length ≤ n) :
    findParams n ((more.map Param.text).flatMap fun s => ", ".toList++s) = more.map fun p => (p.key,p.value) := by
  induction more generalizing n with
  | nil => exact findParams_of_notMem (by simp) n
  | cons p more ih =>
    rw [map_cons,flatMap_cons,append_assoc] at hn ⊢
    obtain ⟨m,hm,hfi⟩ := findParams_param (h p (by simp)) not_isKeyChar_separator hn
    rw [hfi,ih (fun p hp => h p (by simp [hp])) hm,map_cons]

theorem paramValue_eq_lastValue (key : Text) (params : List Param) :
    paramValue key (params.map fun p => (p.key,p.value)) = lastValue key params := by
  induction params using reverseRecOn with
  | nil => rfl
  | append_singleton params p ih =>
    rw [paramValue,map_append,foldl_append,lastValue,filter_append]
    by_cases hkey : toLower p.key = key
    · simp [hkey]
    · simpa [hkey,paramValue,lastValue] using ih

theorem parseBearerChallenge_gap {scheme : Scheme} {rest : Text} (h : Tight (scheme.name ++ ' ' :: rest)) :
    parseBearerChallenge (scheme.name ++ ' ' :: rest) =
      if scheme.isBearer then
        let found := findParams rest.length rest
        some ⟨paramValue "realm".toList found,paramValue "service".toList found,paramValue "scope".toList found⟩
      else none := by
  have hcut : cut ' ' (scheme.name ++ ' ' :: rest) = some (scheme.name,rest) :=
    cut_eq_some.2 ⟨rfl,scheme.word.notMem rfl⟩
  simp only [parseBearerChallenge,h.trimSpace,hcut,Scheme.isBearer,decide_eq_true_eq]

theorem joined_tight {first : Text} {more : List Text} (hfst : Tight first) (hmo : ∀ s ∈ more, Tight s) :
    Tight (joined first more) := by
  induction more generalizing first with
  | nil => simpa [joined] using hfst
  | cons s more ih =>
    have hnx := ih (hfst.around (hmo s (by simp)) ", ".toList) fun s hs => hmo s (by simp [hs])
    simpa [joined] using hnx

lemma not_isKeyChar_of_blank (h : isBlank c) : isKeyChar c = false := by
  simp only [isBlank,Bool.or_eq_true,decide_eq_true_eq] at h
  rcases h with rfl | rfl <;> rfl

theorem Challenge.Segments.shaped {c : Challenge} (h : c.Segments segments) (hpl : c.Plain) :
    ∃ text, Shaped segments text ∧ parseBearerChallenge text = c.reading := by
  cases h with
  | alone scheme =>
    have hopens : Opens scheme.name := by
      refine ⟨scheme.word.whole,scheme.word.tight,?_⟩
      simp [continues,scheme.word.notMem (show isWordChar '=' = false from rfl)]
    refine ⟨_,⟨_,_,rfl,hopens,nofun,rfl⟩,?_⟩
    have hcut : cut ' ' scheme.name = none := cut_eq_none.2 (scheme.word.notMem rfl)
    simp [joined,parseBearerChallenge,scheme.word.tight.trimSpace,hcut,Challenge.reading]
  | token68 scheme token gap hgap =>
    have hopens := opens_gap scheme.word token.whole token.tight hgap
      (continues_gap scheme.word token.word (fun c hc => eq_of_mem_replicate (mem_of_mem_head? hc)) hgap)
    refine ⟨_,⟨_,_,rfl,hopens,nofun,rfl⟩,?_⟩
    have hquote : '"' ∉ gap++token.text := by
      intro hmem
      rcases mem_append.1 hmem with hmem | hmem
      · exact absurd (hgap _ hmem) (by decide)
      · exact absurd (Token68.mem_text hmem) (by decide)
    simp only [joined,flatMap_nil,append_nil]
    rw [parseBearerChallenge_gap hopens.tight]
    simp only [findParams_of_notMem hquote]
    rfl
  | params scheme first more gap hgap =>
    have hcont : continues (scheme.name ++ ' ' :: (gap++first.text)) = false :=
      continues_gap scheme.word first.word (by simp) hgap
    have hopens := opens_gap scheme.word first.whole first.tight hgap hcont
    have hjoins : ∀ s ∈ more.map Param.text, Joins s := by
      intro s hs
      obtain ⟨p,-,rfl⟩ := mem_map.1 hs
      exact p.joins
    refine ⟨_,⟨_,_,rfl,hopens,hjoins,rfl⟩,?_⟩
    have htig := joined_tight hopens.tight fun s hs => (hjoins s hs).tight
    obtain ⟨rest,hrs⟩ : ∃ rest, rest = gap++(first.text ++
        (more.map Param.text).flatMap fun s => ", ".toList++s) := ⟨_,rfl⟩
    have hjoined : joined (scheme.name ++ ' ' :: (gap++first.text)) (more.map Param.text) =
        scheme.name ++ ' ' :: rest := by simp [joined,hrs]
    have hfnd : findParams rest.length rest = (first::more).map fun p => (p.key,p.value) := by
      obtain ⟨m,hm,hfi⟩ := findParams_param (hpl first (by simp)) (fun c hc => not_isKeyChar_of_blank (hgap c hc))
        (show (gap++(first.text++(more.map Param.text).flatMap fun s => ", ".toList++s)).length ≤ rest.length by
          rw [hrs])
      rw [← hrs] at hfi
      rw [hfi,findParams_more (fun p hp => hpl p (by simp [hp])) hm,map_cons]
    rw [hjoined] at htig ⊢
    rw [parseBearerChallenge_gap htig]
    simp only [hfnd,paramValue_eq_lastValue]
    rfl

theorem findSome?_texts {chs : List Challenge}
    (h : Forall₂ (fun c text => parseBearerChallenge text = c.reading) chs texts) :
    texts.findSome? parseBearerChallenge = chs.findSome? Challenge.reading := by
  induction h with
  | nil => rfl
  | cons hrd _ ih => rw [findSome?_cons,findSome?_cons,hrd,ih]

theorem Prints.findSome? {chs : List Challenge} {header : Text} (h : Prints chs header)
    (hpl : ∀ c ∈ chs, c.Plain) :
    (splitChallenges header).findSome? parseBearerChallenge = chs.findSome? Challenge.reading := by
  obtain ⟨segments,padded,hsegm,hpadded,rfl⟩ := h
  have hshp : ∃ texts, Forall₂ Shaped segments texts ∧
      Forall₂ (fun c text => parseBearerChallenge text = c.reading) chs texts := by
    clear hpadded
    induction hsegm with
    | nil => exact ⟨[],.nil,.nil⟩
    | cons hc _ ih =>
      obtain ⟨texts,hshp,hreads⟩ := ih fun c hc => hpl c (by simp [hc])
      obtain ⟨text,hshape,hrd⟩ := hc.shaped (hpl _ mem_cons_self)
      exact ⟨text::texts,.cons hshape hshp,.cons hrd hreads⟩
  obtain ⟨texts,hshp,hreads⟩ := hshp
  rw [splitChallenges_padded hshp hpadded,findSome?_texts hreads]

theorem bearerChallengeFrom_printed {printed : List (List Challenge)} {headers : List Text}
    (h : Forall₂ Prints printed headers) (hpl : ∀ c ∈ printed.flatten, c.Plain) :
    bearerChallengeFrom headers = printed.flatten.findSome? Challenge.reading := by
  induction h with
  | nil => rfl
  | @cons chs header printed headers hprints _ ih =>
    have hfst := hprints.findSome? fun c hc => hpl c (by simp [hc])
    have hrs := ih fun c hc => hpl c (by
      rw [flatten_cons,mem_append]
      exact .inr hc)
    rw [bearerChallengeFrom] at hrs ⊢
    rw [findSome?_cons,hfst,hrs,flatten_cons,findSome?_append]
    cases chs.findSome? Challenge.reading <;> rfl

/-- The reading of a challenge is what it advertises, or the empty one of a token. -/
theorem reading_eq (c : Challenge) : c.reading = c.bearer ∨
    ∃ scheme token, c = .token68 scheme token ∧ scheme.isBearer ∧ c.reading = some ⟨[],[],[]⟩ := by
  cases c with
  | alone scheme => exact .inl rfl
  | params scheme first more => exact .inl rfl
  | token68 scheme token =>
    cases hbrr : scheme.isBearer with
    | false => simp [Challenge.reading,Challenge.bearer]
    | true => exact .inr ⟨scheme,token,rfl,hbrr,by simp [Challenge.reading,hbrr]⟩

theorem bearer_eq_none {c : Challenge} (h : c.reading = none) : c.bearer = none := by
  rcases reading_eq c with heq | ⟨_,_,-,-,hso⟩
  · rw [← heq,h]
  · rw [h] at hso
    cases hso

theorem findSome?_reading_iff (chs : List Challenge) :
    chs.findSome? Challenge.reading = advertised chs ↔
      ∀ front scheme token back, chs = front++.token68 scheme token::back → scheme.isBearer →
        (∃ c ∈ front, c.bearer.isSome) ∨ advertised chs = some ⟨[],[],[]⟩ := by
  constructor
  · rintro hag front scheme token back rfl hbrr
    by_cases hfrt : ∃ c ∈ front, c.bearer.isSome
    · exact .inl hfrt
    right
    -- whatever is read before the token is empty, too
    have hemp : ∀ c ∈ front, ∀ r ∈ c.reading, r = ⟨[],[],[]⟩ := by
      intro c hc r hr
      rcases reading_eq c with heq | ⟨_,_,-,-,hso⟩
      · rw [heq] at hr
        exact absurd ⟨c,hc,Option.isSome_of_mem hr⟩ hfrt
      · rw [hso] at hr
        exact (Option.some.inj hr).symm
    rw [← hag,findSome?_append]
    cases hrd : front.findSome? Challenge.reading with
    | none => simp [Challenge.reading,hbrr]
    | some r =>
      obtain ⟨c,hc,hr⟩ := exists_of_findSome?_eq_some hrd
      rw [hemp c hc r hr]
      rfl
  · intro h
    cases hrd : chs.findSome? Challenge.reading with
    | none =>
      have hno := findSome?_eq_none_iff.1 hrd
      exact (findSome?_eq_none_iff.2 fun c hc => bearer_eq_none (hno c hc)).symm
    | some r =>
      obtain ⟨front,c,back,rfl,hc,hfrt⟩ := findSome?_eq_some_iff.1 hrd
      rcases reading_eq c with heq | ⟨scheme,token,rfl,hbrr,hso⟩
      · refine (findSome?_eq_some_iff.2 ⟨front,c,back,rfl,?_,fun c hc => ?_⟩).symm
        · rw [← heq,hc]
        · exact bearer_eq_none (hfrt c hc)
      · rcases h front scheme token back rfl hbrr with ⟨c,hmem,hso⟩ | hadve
        · rw [bearer_eq_none (hfrt c hmem)] at hso
          cases hso
        · rw [hadve,← hc,hso]

def negotiate : Scheme := ⟨"Negotiate".toList,by decide,all_eq_true.1 (by decide +kernel)⟩
def bearerScheme : Scheme := ⟨"BEARER".toList,by decide,all_eq_true.1 (by decide +kernel)⟩
def realmParam : Param :=
  ⟨"Realm".toList,"https://auth.test/token?a=b, c".toList,by decide,all_eq_true.1 (by decide +kernel),by simp⟩
def serviceParam : Param :=
  ⟨"service".toList,"registry".toList,by decide,all_eq_true.1 (by decide +kernel),by simp⟩

end TalosBox.Registry
