import TalosBox.Cutting

/-! Internet addresses as text: dotted quads, and hexadecimal groups with one gap of zeros. An
address is read in many spellings and written in one. -/
namespace TalosBox.IPText

open Cutting List Option

def digits : List Char := "0123456789abcdefABCDEF".toList

/-- The value of a digit, and 16 where there is none. -/
def digit (c : Char) : ℕ :=
  if digits.idxOf c < 16 then digits.idxOf c else if digits.idxOf c < 22 then digits.idxOf c-6 else 16

def value (b : ℕ) (s : List Char) : ℕ := s.foldl (fun n c => n*b+digit c) 0

def isNumeral (b : ℕ) (s : List Char) : Bool := s ≠ [] && s.all fun c => digit c < b

/-- The shortest numeral, in small letters. -/
def write (b n : ℕ) : List Char := if n = 0 then ['0'] else ((Nat.digits b n).map Nat.digitChar).reverse

theorem mem_digits {c : Char} (h : digit c < 16) : c ∈ digits := by
  by_contra hmem
  have hidx : digits.idxOf c = 22 := idxOf_eq_length hmem
  simp [digit,hidx] at h

variable {s : List Char}

lemma isNumeral_iff {b : ℕ} : isNumeral b s ↔ s ≠ [] ∧ ∀ c ∈ s, digit c < b := by
  simp [isNumeral]

lemma digit_digitChar {d : ℕ} (h : d < 16) : digit (Nat.digitChar d) = d := by
  have hall : (range 16).all (fun d => digit (Nat.digitChar d) = d) := by decide
  simpa using all_eq_true.1 hall d (mem_range.2 h)

lemma digitChar_digit {c : Char} (h : digit c < 10) : Nat.digitChar (digit c) = c := by
  have hall : digits.all (fun c => digit c < 10 → Nat.digitChar (digit c) = c) := by decide +kernel
  exact of_decide_eq_true (all_eq_true.1 hall c (mem_digits (by omega))) h

theorem value_eq (b : ℕ) (s : List Char) : value b s = Nat.ofDigits b (s.map digit).reverse := by
  induction s using reverseRecOn with
  | nil => rfl
  | append_singleton s c ih =>
    rw [value,foldl_append,← value,ih]
    simp [Nat.ofDigits_cons]
    ring

section

variable {b n : ℕ}

theorem mem_write {c : Char} (hb : 1 < b) (h : c ∈ write b n) : ∃ d < b, c = Nat.digitChar d := by
  unfold write at h
  split_ifs at h
  · exact ⟨0,by omega,mem_singleton.1 h⟩
  · obtain ⟨d,hd,rfl⟩ := mem_map.1 (mem_reverse.1 h)
    exact ⟨d,Nat.digits_lt_base hb hd,rfl⟩

theorem write_ne_nil : write b n ≠ [] := by
  unfold write
  split_ifs with hn
  · simp
  · simpa using Nat.digits_ne_nil_iff_ne_zero.2 hn

lemma digit_write {c : Char} (hb : 1 < b) (hb' : b ≤ 16) (h : c ∈ write b n) : digit c < b := by
  obtain ⟨d,hd,rfl⟩ := mem_write hb h
  rwa [digit_digitChar (by omega)]

lemma isNumeral_write (hb : 1 < b) (hb' : b ≤ 16) : isNumeral b (write b n) :=
  isNumeral_iff.2 ⟨write_ne_nil,fun _ hc => digit_write hb hb' hc⟩

theorem notMem_write {c : Char} (hc : digit c = 16) (hb : 1 < b) (hb' : b ≤ 16) : c ∉ write b n := by
  intro hmem
  have := digit_write hb hb' hmem
  omega

theorem value_write (hb : 1 < b) (hb' : b ≤ 16) : value b (write b n) = n := by
  rw [value_eq,write]
  split_ifs with hn
  · subst hn
    simp [show digit '0' = 0 by decide]
  · have hmap : ((Nat.digits b n).map Nat.digitChar).map digit = Nat.digits b n := by
      rw [List.map_map]
      refine (map_congr_left fun d hd => ?_).trans (map_id _)
      exact digit_digitChar (lt_of_lt_of_le (Nat.digits_lt_base hb hd) hb')
    rw [map_reverse,reverse_reverse,hmap,Nat.ofDigits_digits]

theorem length_write_le {k : ℕ} (hb : 1 < b) (hk : 0 < k) (hn : n < b^k) : (write b n).length ≤ k := by
  unfold write
  split_ifs
  · exact hk
  · rw [length_reverse,length_map]
    exact (Nat.digits_length_le_iff hb n).2 hn

/-- A decimal numeral without zeros in front is the shortest one. -/
theorem write_value {s : List Char} (hs : isNumeral 10 s)
    (hz : s.head? = some '0' → s.length = 1) : write 10 (value 10 s) = s := by
  obtain ⟨hne,hdgs⟩ := isNumeral_iff.1 hs
  obtain ⟨c,t,rfl⟩ := exists_cons_of_ne_nil hne
  by_cases hc : digit c = 0
  · have hchar : c = '0' := by
      rw [← digitChar_digit (hdgs c (by simp)),hc]
      rfl
    subst hchar
    obtain rfl : t = [] := by simpa using hz rfl
    decide
  · have hla : ∀ h : ((c::t).map digit).reverse ≠ [], ((c::t).map digit).reverse.getLast h ≠ 0 := by
      simpa using hc
    have hbd : ∀ d ∈ ((c::t).map digit).reverse, d < 10 := by
      intro d hd
      obtain ⟨c',hc',rfl⟩ := mem_map.1 (mem_reverse.1 hd)
      exact hdgs c' hc'
    have hvl : Nat.digits 10 (value 10 (c::t)) = ((c::t).map digit).reverse := by
      rw [value_eq,Nat.digits_ofDigits 10 (by decide) _ hbd hla]
    have hpos : value 10 (c::t) ≠ 0 := by
      rw [← Nat.digits_ne_nil_iff_ne_zero,hvl]
      simp
    rw [write,if_neg hpos,hvl,map_reverse,reverse_reverse,List.map_map]
    exact (map_congr_left fun c' hc' => digitChar_digit (hdgs c' hc')).trans (map_id _)

end

def octet (s : List Char) : Option ℕ :=
  if isNumeral 10 s ∧ (s.head? = some '0' → s.length = 1) ∧ value 10 s < 256 then
    some (value 10 s)
  else none

theorem head_write {n : ℕ} (h : (write 10 n).head? = some '0') : (write 10 n).length = 1 := by
  unfold write at h ⊢
  split_ifs at h ⊢ with hn
  · rfl
  · exfalso
    have hne := Nat.digits_ne_nil_iff_ne_zero (b := 10) |>.2 hn
    rw [head?_reverse,getLast?_map,getLast?_eq_some_getLast hne] at h
    have hla := Nat.getLast_digit_ne_zero 10 hn
    have hlt := Nat.digits_lt_base (by decide) (getLast_mem hne)
    have hdg := digit_digitChar (d := (Nat.digits 10 n).getLast hne) (by omega)
    rw [some.inj h,show digit '0' = 0 by decide] at hdg
    exact hla hdg.symm

theorem octet_eq_some {n : ℕ} : octet s = some n ↔ n < 256 ∧ s = write 10 n := by
  unfold octet
  constructor
  · intro h
    split_ifs at h with hs
    cases h
    exact ⟨hs.2.2,(write_value hs.1 hs.2.1).symm⟩
  · rintro ⟨hn,rfl⟩
    have hvl : value 10 (write 10 n) = n := value_write (by decide) (by decide)
    rw [if_pos ⟨isNumeral_write (by decide) (by decide),head_write,by rwa [hvl]⟩,hvl]

def parse4 (s : List Char) : Option (ℕ × ℕ) :=
  match s.splitOn '.' with
  | [a,b,c,d] =>
    (octet a).bind fun a => (octet b).bind fun b => (octet c).bind fun c => (octet d).map fun d =>
      (a*256+b,c*256+d)
  | _ => none

def dotted (x y : ℕ) : List Char :=
  ['.'].intercalate [write 10 (x/256),write 10 (x%256),write 10 (y/256),write 10 (y%256)]

theorem parse4_eq_some {x y : ℕ} :
    parse4 s = some (x,y) ↔ x < 65536 ∧ y < 65536 ∧ s = dotted x y := by
  constructor
  · intro h
    unfold parse4 at h
    split at h
    · rename_i a b c d hpts
      simp only [bind_eq_some_iff,map_eq_some_iff,octet_eq_some] at h
      obtain ⟨a',⟨ha,rfl⟩,b',⟨hb,rfl⟩,c',⟨hc,rfl⟩,d',⟨hd,rfl⟩,rfl,rfl⟩ := h
      refine ⟨by omega,by omega,?_⟩
      have hjo : ['.'].intercalate (s.splitOn '.') = s := intercalate_splitOn '.'
      rw [← hjo,hpts,dotted]
      congr 6 <;> omega
    · cases h
  · rintro ⟨hx,hy,rfl⟩
    have hdot : ∀ {n}, '.' ∉ write 10 n := notMem_write (by decide) (by decide) (by decide)
    have hpts : (dotted x y).splitOn '.' =
        [write 10 (x/256),write 10 (x%256),write 10 (y/256),write 10 (y%256)] :=
      splitOn_intercalate '.' (by simp [hdot]) (by simp)
    have hoctet : ∀ {n}, n < 256 → octet (write 10 n) = some n := fun hn => octet_eq_some.2 ⟨hn,rfl⟩
    rw [parse4,hpts]
    simp only [hoctet (show x/256 < 256 by omega),hoctet (show x%256 < 256 by omega),
      hoctet (show y/256 < 256 by omega),hoctet (show y%256 < 256 by omega),bind_some,map_some,
      Nat.div_add_mod']

def group (s : List Char) : Option ℕ :=
  if isNumeral 16 s ∧ s.length ≤ 4 then some (value 16 s) else none

def oneGroup (s : List Char) : Option (List ℕ) := (group s).map fun n => [n]

/-- The part behind the last colon may be a dotted quad, which stands for two groups. -/
def lastGroups (s : List Char) : Option (List ℕ) :=
  match group s with
  | some n => some [n]
  | none => (parse4 s).map fun (x,y) => [x,y]

def readGroups (last : List Char → Option (List ℕ)) : List (List Char) → Option (List ℕ)
  | [] => some []
  | [part] => last part
  | part::parts => (group part).bind fun n => (readGroups last parts).map (n::·)

def fields (last : List Char → Option (List ℕ)) (s : List Char) : Option (List ℕ) :=
  if s = [] then some [] else readGroups last (s.splitOn ':')

/-- The texts before and behind the first two colons in a row. -/
def cutGap : List Char → Option (List Char × List Char)
  | ':' :: ':' :: s => some ([],s)
  | c::s => (cutGap s).map fun (front,back) => (c::front,back)
  | [] => none

/-- Eight groups, or fewer around a gap. -/
def parse6 (s : List Char) : Option (List ℕ) :=
  match cutGap s with
  | none => (fields lastGroups s).filter fun gs => gs.length = 8
  | some (front,back) =>
    (fields oneGroup front).bind fun front =>
      (fields lastGroups back).bind fun back =>
        if front.length+back.length < 8 then
          some (front++replicate (8-(front.length+back.length)) 0++back)
        else none

/-- A dotted quad is the address with its two groups behind five zeros and `0xffff`. -/
def parse (s : List Char) : Option (List ℕ) :=
  if ':' ∈ s then parse6 s else (parse4 s).map fun (x,y) => [0,0,0,0,0,65535,x,y]

def zeros (gs : List ℕ) (i : ℕ) : ℕ := ((gs.drop i).takeWhile (· = 0)).length

/-- The first of the longest runs of two or more zeros: where it begins and its length. -/
def longestZeros (gs : List ℕ) : ℕ × ℕ :=
  (range gs.length).foldl
    (fun best i => if 2 ≤ zeros gs i ∧ best.2 < zeros gs i then (i,zeros gs i) else best) (0,0)

def join (gs : List ℕ) : List Char := [':'].intercalate (gs.map (write 16))

def is4 (gs : List ℕ) : Bool := gs.take 6 = [0,0,0,0,0,65535]

def text (gs : List ℕ) : List Char :=
  if is4 gs then dotted (gs.getD 6 0) (gs.getD 7 0)
  else
    let (i,n) := longestZeros gs
    if n = 0 then join gs else join (gs.take i)++[':',':']++join (gs.drop (i+n))

/-- Eight groups of sixteen bits. -/
structure IsAddress (gs : List ℕ) : Prop where
  length : gs.length = 8
  lt : ∀ g ∈ gs, g < 65536

theorem group_eq_some {n : ℕ} (h : group s = some n) :
    n < 65536 ∧ s ≠ [] ∧ ∀ c ∈ s, digit c < 16 := by
  unfold group at h
  split_ifs at h with hs
  cases h
  obtain ⟨hne,hdgs⟩ := isNumeral_iff.1 hs.1
  refine ⟨?_,hne,hdgs⟩
  have hbd : ∀ d ∈ (s.map digit).reverse, d < 16 := by
    intro d hd
    obtain ⟨c,hc,rfl⟩ := mem_map.1 (mem_reverse.1 hd)
    exact hdgs c hc
  calc value 16 s = Nat.ofDigits 16 (s.map digit).reverse := value_eq 16 s
    _ < 16^(s.map digit).reverse.length := Nat.ofDigits_lt_base_pow_length (by decide) hbd
    _ ≤ 16^4 := Nat.pow_le_pow_right (by decide) (by simpa using hs.2)

lemma group_write {n : ℕ} (h : n < 65536) : group (write 16 n) = some n := by
  have hlen : (write 16 n).length ≤ 4 := length_write_le (by decide) (by decide) h
  rw [group,if_pos ⟨isNumeral_write (by decide) (by decide),hlen⟩,value_write (by decide) (by decide)]

/-- The characters of addresses. -/
def IsChar (c : Char) : Prop := digit c < 16 ∨ c = '.' ∨ c = ':'

theorem dotted_chars {x y : ℕ} {c : Char} (h : c ∈ dotted x y) : digit c < 10 ∨ c = '.' := by
  rcases mem_of_mem_intercalate h with rfl | ⟨l,hl,hc⟩
  · exact .inr rfl
  · left
    simp only [mem_cons,not_mem_nil,or_false] at hl
    rcases hl with rfl | rfl | rfl | rfl <;> exact digit_write (by decide) (by decide) hc

/-- What a part may be read as: some groups, each of sixteen bits, at most two. -/
structure Reads (s : List Char) (gs : List ℕ) : Prop where
  lt : ∀ g ∈ gs, g < 65536
  length : gs.length ≤ 2
  chars : ∀ c ∈ s, IsChar c

lemma reads_group {n : ℕ} (h : group s = some n) : Reads s [n] := by
  obtain ⟨hn,-,hchs⟩ := group_eq_some h
  exact ⟨by simpa using hn,by simp,fun c hc => .inl (hchs c hc)⟩

variable {gs : List ℕ}

lemma reads_oneGroup (h : oneGroup s = some gs) : Reads s gs := by
  obtain ⟨n,hn,rfl⟩ := map_eq_some_iff.1 h
  exact reads_group hn

theorem reads_lastGroups (h : lastGroups s = some gs) : Reads s gs := by
  unfold lastGroups at h
  split at h
  · rename_i n hn
    cases h
    exact reads_group hn
  · obtain ⟨⟨x,y⟩,hquad,rfl⟩ := map_eq_some_iff.1 h
    obtain ⟨hx,hy,rfl⟩ := parse4_eq_some.1 hquad
    refine ⟨by simp [hx,hy],by simp,fun c hc => ?_⟩
    exact (dotted_chars hc).imp (fun hdg => by omega) .inl

section

variable {last : List Char → Option (List ℕ)}

theorem readGroups_eq_some (hla : ∀ s gs, last s = some gs → Reads s gs) {parts : List (List Char)} {gs : List ℕ}
    (h : readGroups last parts = some gs) :
    (∀ g ∈ gs, g < 65536) ∧ gs.length ≤ parts.length+1 ∧ ∀ part ∈ parts, ∀ c ∈ part, IsChar c := by
  induction parts generalizing gs with
  | nil =>
    cases h
    simp
  | cons part parts ih =>
    cases parts with
    | nil =>
      obtain ⟨hlt,hlen,hchs⟩ := hla part gs h
      exact ⟨hlt,by simpa using hlen,by simpa using hchs⟩
    | cons part' parts =>
      rw [readGroups,bind_eq_some_iff] at h
      · obtain ⟨n,hn,h⟩ := h
        obtain ⟨gs',hgs,rfl⟩ := map_eq_some_iff.1 h
        obtain ⟨hlt,hlen,hchs⟩ := ih hgs
        have hpt := reads_group hn
        refine ⟨?_,by simpa using hlen,?_⟩
        · simpa using ⟨hpt.lt n (by simp),hlt⟩
        · exact forall_mem_cons.2 ⟨hpt.chars,hchs⟩
      · simp

theorem fields_eq_some (hla : ∀ s gs, last s = some gs → Reads s gs) {s : List Char} {gs : List ℕ}
    (h : fields last s = some gs) :
    (∀ g ∈ gs, g < 65536) ∧ gs.length ≤ s.count ':'+2 ∧ ∀ c ∈ s, IsChar c := by
  unfold fields at h
  split_ifs at h with hs
  · cases h
    simp [hs]
  · obtain ⟨hlt,hlen,hchs⟩ := readGroups_eq_some hla h
    refine ⟨hlt,?_,fun c hc => ?_⟩
    · rwa [length_splitOn] at hlen
    · rcases mem_splitOn ':' hc with rfl | ⟨part,hpt,hmem⟩
      · exact .inr (.inr rfl)
      · exact hchs part hpt c hmem

end

theorem cutGap_eq_some {front back : List Char} (h : cutGap s = some (front,back)) :
    s = front ++ ':' :: ':' :: back := by
  induction s using cutGap.induct generalizing front with
  | case1 s =>
    cases h
    rfl
  | case2 c s hne ih =>
    rw [cutGap,map_eq_some_iff] at h
    · obtain ⟨⟨front',back'⟩,hcut,heq⟩ := h
      cases heq
      rw [ih hcut]
      rfl
    · exact hne
  | case3 => simp [cutGap] at h

theorem parse6_eq_some (h : parse6 s = some gs) :
    IsAddress gs ∧ 2 ≤ s.count ':' ∧ ∀ c ∈ s, IsChar c := by
  have hone : ∀ s gs, oneGroup s = some gs → Reads s gs := fun s gs => reads_oneGroup
  have hla : ∀ s gs, lastGroups s = some gs → Reads s gs := fun s gs => reads_lastGroups
  unfold parse6 at h
  split at h
  · obtain ⟨h,hlen⟩ := filter_eq_some_iff.1 h
    obtain ⟨hlt,hcnt,hchs⟩ := fields_eq_some hla h
    have hlen := of_decide_eq_true hlen
    exact ⟨⟨hlen,hlt⟩,by omega,hchs⟩
  · rename_i front back hcut
    obtain ⟨xs,hxs,h⟩ := bind_eq_some_iff.1 h
    obtain ⟨ys,hys,h⟩ := bind_eq_some_iff.1 h
    split_ifs at h with hlen
    cases h
    obtain ⟨hx,-,hfrt⟩ := fields_eq_some hone hxs
    obtain ⟨hy,-,hbk⟩ := fields_eq_some hla hys
    rw [cutGap_eq_some hcut]
    refine ⟨⟨?_,fun g hg => ?_⟩,?_,fun c hc => ?_⟩
    · simp only [length_append,length_replicate]
      omega
    · simp only [mem_append,mem_replicate] at hg
      rcases hg with (hg | ⟨-,rfl⟩) | hg
      · exact hx g hg
      · decide
      · exact hy g hg
    · simp
      omega
    · simp only [mem_append,mem_cons] at hc
      rcases hc with hc | rfl | rfl | hc
      · exact hfrt c hc
      · exact .inr (.inr rfl)
      · exact .inr (.inr rfl)
      · exact hbk c hc

theorem parse_eq_some (h : parse s = some gs) :
    IsAddress gs ∧ s ≠ [] ∧ ∀ c ∈ s, IsChar c := by
  unfold parse at h
  split_ifs at h with hcol
  · obtain ⟨haddr,-,hchs⟩ := parse6_eq_some h
    exact ⟨haddr,ne_nil_of_mem hcol,hchs⟩
  · obtain ⟨⟨x,y⟩,hquad,rfl⟩ := map_eq_some_iff.1 h
    obtain ⟨hx,hy,rfl⟩ := parse4_eq_some.1 hquad
    refine ⟨⟨rfl,by simp [hx,hy]⟩,fun hnil => ?_,fun c hc => ?_⟩
    · rw [hnil] at hquad
      exact absurd hquad (by simp [parse4])
    · exact (dotted_chars hc).imp (fun hdg => by omega) .inl

theorem two_le_count_of_parse (h : parse s = some gs) (hcol : ':' ∈ s) :
    2 ≤ s.count ':' := by
  rw [parse,if_pos hcol] at h
  exact (parse6_eq_some h).2.1

theorem text_of_parse (h : parse s = some gs) (hcol : ':' ∉ s) : text gs = s := by
  rw [parse,if_neg hcol] at h
  obtain ⟨⟨x,y⟩,hquad,rfl⟩ := map_eq_some_iff.1 h
  exact (parse4_eq_some.1 hquad).2.2.symm

section

variable {gs : List ℕ}

lemma colon_notMem_write {n : ℕ} : ':' ∉ write 16 n := notMem_write (by decide) (by decide) (by decide)

lemma join_cons_cons (g g' : ℕ) (gs : List ℕ) : join (g::g' :: gs) = write 16 g ++ ':' :: join (g' :: gs) := by
  simp [join]

theorem head_join (g : ℕ) (gs : List ℕ) : ∃ c s, join (g::gs) = c::s ∧ c ≠ ':' := by
  obtain ⟨c,s,hs⟩ := exists_cons_of_ne_nil (write_ne_nil (b := 16) (n := g))
  have hc : c ≠ ':' := by
    rintro rfl
    exact colon_notMem_write (n := g) (by simp [hs])
  cases gs with
  | nil => exact ⟨c,s,by simp [join,hs],hc⟩
  | cons g' gs => exact ⟨c,_,by rw [join_cons_cons,hs,cons_append],hc⟩

theorem readGroups_write {last : List Char → Option (List ℕ)} (hla : ∀ n < 65536, last (write 16 n) = some [n])
    (h : ∀ g ∈ gs, g < 65536) : readGroups last (gs.map (write 16)) = some gs := by
  induction gs with
  | nil => rfl
  | cons g gs ih =>
    obtain ⟨hg,hgs⟩ := forall_mem_cons.1 h
    cases gs with
    | nil => exact hla g hg
    | cons g' gs =>
      rw [map_cons,map_cons,readGroups,group_write hg,← map_cons,ih hgs]
      · rfl
      · simp

theorem fields_join {last : List Char → Option (List ℕ)} (hla : ∀ n < 65536, last (write 16 n) = some [n])
    (h : ∀ g ∈ gs, g < 65536) : fields last (join gs) = some gs := by
  cases gs with
  | nil => rfl
  | cons g gs =>
    obtain ⟨c,s,hs,-⟩ := head_join g gs
    have hspl : (join (g::gs)).splitOn ':' = (g::gs).map (write 16) :=
      splitOn_intercalate ':' (by simp [colon_notMem_write]) (by simp)
    rw [fields,if_neg (by simp [hs]),hspl,readGroups_write hla h]

theorem cutGap_append {x : List Char} (hx : ':' ∉ x) (s : List Char) :
    cutGap (x++s) = (cutGap s).map fun (front,back) => (x++front,back) := by
  induction x with
  | nil => simp
  | cons c x ih =>
    obtain ⟨hc,hx⟩ := not_or.1 (fun h => hx (mem_cons.2 h))
    rw [cons_append,cutGap,ih hx,Option.map_map]
    · rfl
    · exact fun _ heq => absurd heq.symm hc

theorem cutGap_join (gs : List ℕ) (s : List Char) :
    cutGap (join gs++s) = (cutGap s).map fun (front,back) => (join gs++front,back) := by
  induction gs with
  | nil => simp [join]
  | cons g gs ih =>
    cases gs with
    | nil =>
      rw [show join [g] = write 16 g by simp [join],cutGap_append colon_notMem_write]
    | cons g' gs =>
      obtain ⟨c,t,ht,hc⟩ := head_join g' gs
      rw [join_cons_cons,append_assoc,cons_append,cutGap_append colon_notMem_write,cutGap,ih,
        Option.map_map,Option.map_map]
      · simp [Function.comp_def]
      · rintro s' - heq
        rw [ht] at heq
        exact hc (cons.inj heq).1

theorem longestZeros_spec (gs : List ℕ) (hzeros : (longestZeros gs).2 ≠ 0) :
    gs = gs.take (longestZeros gs).1++replicate (longestZeros gs).2 0 ++
      gs.drop ((longestZeros gs).1+(longestZeros gs).2) := by
  have hrun : (longestZeros gs).2 = 0 ∨ (longestZeros gs).2 = zeros gs (longestZeros gs).1 := by
    refine foldlRecOn (motive := fun best : ℕ × ℕ => best.2 = 0 ∨ best.2 = zeros gs best.1) _ _ (.inl rfl) ?_
    intro best hbest i _
    split_ifs
    · exact .inr rfl
    · exact hbest
  have hlen := hrun.resolve_left hzeros
  generalize (longestZeros gs).1 = i at hlen ⊢
  have htk : (gs.drop i).takeWhile (· = 0) = replicate (zeros gs i) 0 :=
    eq_replicate_of_mem fun g hg => by simpa using mem_takeWhile_imp hg
  have hdp : (gs.drop i).dropWhile (· = 0) = gs.drop (i+zeros gs i) := by
    have happ := takeWhile_append_dropWhile (p := (· = 0)) (l := gs.drop i)
    rw [← drop_drop]
    conv_rhs => rw [← happ]
    rw [zeros,drop_left]
  rw [hlen,append_assoc,← htk,← hdp,takeWhile_append_dropWhile,take_append_drop]

lemma oneGroup_write {n : ℕ} (h : n < 65536) : oneGroup (write 16 n) = some [n] := by
  rw [oneGroup,group_write h,map_some]

lemma lastGroups_write {n : ℕ} (h : n < 65536) : lastGroups (write 16 n) = some [n] := by
  rw [lastGroups,group_write h]

theorem parse6_join (h : IsAddress gs) : parse6 (join gs) = some gs := by
  have hcut : cutGap (join gs) = none := by simpa [cutGap] using cutGap_join gs []
  rw [parse6,hcut]
  simp only [fields_join (fun n => lastGroups_write) h.lt]
  rw [filter_some,if_pos (by simp [h.length])]

theorem parse6_gap {front back : List ℕ} {n : ℕ} (hn : n ≠ 0) (h : IsAddress (front++replicate n 0++back)) :
    parse6 (join front++[':',':']++join back) = some (front++replicate n 0++back) := by
  have hcut : cutGap (join front++[':',':']++join back) = some (join front,join back) := by
    rw [append_assoc,cutGap_join]
    simp [cutGap]
  have hlen : front.length+(n+back.length) = 8 := by simpa using h.length
  have hfrt : fields oneGroup (join front) = some front :=
    fields_join (fun n => oneGroup_write) fun g hg => h.lt g (by simp [hg])
  have hbk : fields lastGroups (join back) = some back :=
    fields_join (fun n => lastGroups_write) fun g hg => h.lt g (by simp [hg])
  rw [parse6,hcut]
  simp only [hfrt,hbk,bind_some]
  rw [if_pos (by omega),show 8-(front.length+back.length) = n by omega]

end

theorem colon_mem_join (h : 2 ≤ gs.length) : ':' ∈ join gs := by
  obtain ⟨g,g',gs,rfl⟩ : ∃ g g' gs', gs = g::g' :: gs' := by
    match gs, h with
    | g::g' :: gs', _ => exact ⟨g,g',gs',rfl⟩
  simp [join_cons_cons]

theorem parse_text4 (h : IsAddress gs) (h4 : is4 gs) :
    parse (dotted (gs.getD 6 0) (gs.getD 7 0)) = some gs := by
  obtain ⟨hlen,hlt⟩ := h
  obtain ⟨x,y,rfl⟩ : ∃ x y, gs = [0,0,0,0,0,65535,x,y] := by
    have hhd := of_decide_eq_true h4
    obtain ⟨x,y,hxy⟩ := length_eq_two.1 (show (gs.drop 6).length = 2 by simp [hlen])
    refine ⟨x,y,?_⟩
    rw [← take_append_drop 6 gs,hhd,hxy]
    rfl
  have hcol : ':' ∉ dotted x y := fun hmem => absurd (dotted_chars hmem) (by decide)
  have hquad : parse4 (dotted x y) = some (x,y) :=
    parse4_eq_some.2 ⟨hlt x (by simp),hlt y (by simp),rfl⟩
  change parse (dotted x y) = _
  rw [parse,if_neg hcol,hquad]
  rfl

/-- An address is read back from its text. -/
theorem parse_text (h : IsAddress gs) : parse (text gs) = some gs := by
  unfold text
  split_ifs with h4
  · exact parse_text4 h h4
  · have hspec := longestZeros_spec gs
    simp only at hspec ⊢
    split_ifs with hn
    · rw [parse,if_pos (colon_mem_join (by rw [h.length]; decide)),parse6_join h]
    · have hgap := hspec hn
      rw [hgap] at h
      rw [parse,if_pos (by simp),parse6_gap hn h,← hgap]

end TalosBox.IPText
