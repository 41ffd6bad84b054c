import TalosBox.RouterFrame

/-! DNS messages as the resolver writes and reads them: names, queries and answers. -/
namespace TalosBox.Dns

open List
open Router (Bytes IP byteAt uint16At ipAt)

def typeA : ℕ := 1
def typeSOA : ℕ := 6
def classIN : ℕ := 1
def negativeTTL : ℕ := 5
def flagRecursionAvailable : ℕ := 0x0080

def dot : UInt8 := 46

inductive MessageError
  | label (label : Bytes)
  | oneQuestion
  | truncatedName
  | invalidLabel
  | truncatedQuestion
  | response
  | answer
  deriving DecidableEq

/-- Big-endian, as the conversions to 16 and 32 bits cut their argument. -/
def putUint16 (n : ℕ) : Bytes := [.ofNat (n/256),.ofNat n]

def putUint32 (n : ℕ) : Bytes := putUint16 (n/65536)++putUint16 n

/-- `strings.TrimSuffix(name, ".")`. -/
def trimDot (name : Bytes) : Bytes := if name.getLast? = some dot then name.dropLast else name

def encodeLabels : List Bytes → Except MessageError Bytes
  | [] => .ok [0]
  | label::labels =>
    if label.length = 0 ∨ 63 < label.length then .error (.label label)
    else
      match encodeLabels labels with
      | .error e => .error e
      | .ok encoded => .ok (.ofNat label.length::label++encoded)

def encodeName (name : Bytes) : Except MessageError Bytes := encodeLabels ((trimDot name).splitOn dot)

def encodeQuery (name : Bytes) (id : UInt16) : Except MessageError Bytes :=
  match encodeName name with
  | .error e => .error e
  | .ok encoded =>
    .ok (putUint16 id.toNat++putUint16 0x0100++putUint16 1++[0,0,0,0,0,0]++encoded ++
      putUint16 typeA++putUint16 classIN)

structure Question where
  name : Bytes
  recordType : ℕ
  class_ : ℕ
  stop : ℕ
  deriving DecidableEq

/-- The labels up to the root label, and what stands behind it. -/
def parseLabels : Bytes → Except MessageError (List Bytes × Bytes)
  | [] => .error .truncatedName
  | length::rest =>
    if length = 0 then .ok ([],rest)
    else if 63 < length.toNat ∨ rest.length < length.toNat then .error .invalidLabel
    else
      match parseLabels (rest.drop length.toNat) with
      | .error e => .error e
      | .ok (labels,tail) => .ok (rest.take length.toNat::labels,tail)
  termination_by message => message.length

def parseQuestion (message : Bytes) : Except MessageError Question :=
  if message.length < 12 ∨ uint16At message 4 ≠ 1 then .error .oneQuestion
  else
    match parseLabels (message.drop 12) with
    | .error e => .error e
    | .ok (labels,rest) =>
      if rest.length < 4 then .error .truncatedQuestion
      else .ok ⟨[dot].intercalate labels,uint16At rest 0,uint16At rest 2,message.length-rest.length+4⟩

/-- A record of an answer; the conversion of the data's length cuts it to 16 bits. -/
structure Record where
  owner : Bytes
  recordType : ℕ
  ttl : ℕ
  rdata : Bytes

def Record.encode (r : Record) : Bytes :=
  r.owner++putUint16 r.recordType++putUint16 classIN++putUint32 r.ttl ++
    putUint16 r.rdata.length++r.rdata

def hostmaster : Bytes := [104,111,115,116,109,97,115,116,101,114]

/-- The authority record of a miss; a zone that cannot be encoded has none. -/
def authoritySOA (zone : Bytes) : Option Record :=
  match encodeName zone, encodeName (hostmaster++dot::zone) with
  | .ok owner, .ok mailbox =>
    some ⟨owner,typeSOA,negativeTTL,owner++mailbox++putUint32 1++putUint32 3600++putUint32 600 ++
      putUint32 86400++putUint32 negativeTTL⟩
  | _, _ => none

/-- `net.IP.To4`: four bytes, or sixteen with the prefix of a mapped address. -/
def to4 (ip : Bytes) : Option IP :=
  if ip.length = 4 then some (ipAt ip 0)
  else if ip.length = 16 ∧ ip.take 10 = replicate 10 0 ∧ byteAt ip 10 = 255 ∧ byteAt ip 11 = 255 then
    some (ipAt ip 12)
  else none

/-- The query's header and question with the fields of a response. -/
def responseHead (query : Bytes) (q : Question) (flags answers authority : ℕ) : Bytes :=
  query.take 2++putUint16 flags++putUint16 1++putUint16 answers++putUint16 authority ++
    putUint16 0++(query.take q.stop).drop 12

/-- The address record of an answer, its owner a pointer to the question. -/
def addressRecord (ip : IP) : Record := ⟨[0xc0,0x0c],typeA,30,[ip.a,ip.b,ip.c,ip.d]⟩

/-- A response without an address, with the zone's record if there is one. -/
def missAnswer (query : Bytes) (q : Question) (flags : ℕ) (zone : Bytes) : Bytes :=
  match if zone = [] then none else authoritySOA zone with
  | none => responseHead query q flags 0 0
  | some soa => responseHead query q flags 0 1++soa.encode

def answer (query : Bytes) (lookup : Bytes → Bytes) (zone : Bytes) : Except MessageError Bytes :=
  match parseQuestion query with
  | .error e => .error e
  | .ok q =>
    let flags := 0x8400 ||| flagRecursionAvailable ||| uint16At query 2 &&& 0x0100
    match to4 (lookup q.name), decide (q.recordType = typeA ∧ q.class_ = classIN) with
    | some ip, true => .ok (responseHead query q flags 1 0++(addressRecord ip).encode)
    | found, _ => .ok (missAnswer query q (if found = none then flags ||| 3 else flags) zone)

def errorAnswer (query : Bytes) (rcode : ℕ) : Except MessageError Bytes :=
  match parseQuestion query with
  | .error e => .error e
  | .ok q =>
    .ok (responseHead query q
      (0x8000 ||| flagRecursionAvailable ||| uint16At query 2 &&& 0x0100 ||| rcode &&& 0xf) 0 0)

/-- The address and the response code. -/
def parseAnswerIP (message : Bytes) (id : UInt16) : Except MessageError (Option IP × ℕ) :=
  if message.length < 12 ∨ uint16At message 0 ≠ id.toNat ∨ uint16At message 2 &&& 0x8000 = 0 then
    .error .response
  else
    let rcode := uint16At message 2 &&& 0xf
    match parseQuestion message with
    | .error e => .error e
    | .ok q =>
      if uint16At message 6 = 0 then .ok (none,rcode)
      else if message.length < q.stop+16 ∨ byteAt message q.stop ≠ 0xc0 ∨
          uint16At message (q.stop+2) ≠ typeA ∨ uint16At message (q.stop+10) ≠ 4 then .error .answer
      else .ok (some (ipAt message (q.stop+12)),rcode)

def wire (labels : List Bytes) : Bytes := labels.flatMap (fun label => .ofNat label.length::label)++[0]

def ValidLabels (labels : List Bytes) : Prop := ∀ label ∈ labels, label ≠ [] ∧ label.length ≤ 63

lemma wire_cons (label : Bytes) (labels : List Bytes) :
    wire (label::labels) = .ofNat label.length::label++wire labels := by
  simp [wire]

lemma toNat_ofNat {n : ℕ} (h : n ≤ 255) : (UInt8.ofNat n).toNat = n := by
  rw [UInt8.toNat_ofNat']
  omega

theorem encodeLabels_eq_ok {labels : List Bytes} {enc : Bytes} :
    encodeLabels labels = .ok enc ↔ ValidLabels labels ∧ enc = wire labels := by
  induction labels generalizing enc with
  | nil => simp [encodeLabels,ValidLabels,wire,eq_comm]
  | cons label labels ih =>
    have hval : ValidLabels (label::labels) ↔
        (label ≠ [] ∧ label.length ≤ 63) ∧ ValidLabels labels := forall_mem_cons
    rw [encodeLabels,hval,wire_cons]
    by_cases hlb : label.length = 0 ∨ 63 < label.length
    · rw [if_pos hlb]
      have hbad : ¬(label ≠ [] ∧ label.length ≤ 63) := by
        rintro ⟨hne,hle⟩
        rcases hlb with hz | hlong
        · exact hne (length_eq_zero_iff.1 hz)
        · omega
      simp [hbad]
    · rw [if_neg hlb]
      push Not at hlb
      have hgood : label ≠ [] ∧ label.length ≤ 63 :=
        ⟨fun hnil => hlb.1 (by simp [hnil]),hlb.2⟩
      cases hrs : encodeLabels labels with
      | error e =>
        have hinva : ¬ValidLabels labels := fun hv => by
          have hok : encodeLabels labels = .ok (wire labels) := ih.2 ⟨hv,rfl⟩
          simp [hrs] at hok
        simp [hinva]
      | ok rest =>
        obtain ⟨hv,rfl⟩ := ih.1 hrs
        simp [hgood,hv,eq_comm]

theorem wire_cons_eq {length : UInt8} {label tail rest : Bytes} {labels : List Bytes} (hle : label.length ≤ 63)
    (h : length::tail = wire (label::labels)++rest) :
    length.toNat = label.length ∧ tail = label++(wire labels++rest) := by
  rw [wire_cons,cons_append,cons_append,cons.injEq] at h
  have hlen := congrArg UInt8.toNat h.1
  rw [toNat_ofNat (by omega)] at hlen
  exact ⟨hlen,by rw [h.2,append_assoc]⟩

theorem wire_eq_of_ne_zero {length : UInt8} {tail rest : Bytes} {labels : List Bytes} (hz : length ≠ 0)
    (hv : ValidLabels labels) (h : length::tail = wire labels++rest) :
    ∃ label labels', labels = label::labels' ∧ ValidLabels labels' ∧ label.length ≤ 63 ∧
      length.toNat = label.length ∧ tail = label++(wire labels' ++ rest) := by
  cases labels with
  | nil => exact absurd (cons.inj h).1 hz
  | cons label labels =>
    obtain ⟨⟨-,hle⟩,hv⟩ := forall_mem_cons.1 hv
    exact ⟨label,labels,rfl,hv,hle,wire_cons_eq hle h⟩

/-- What the parser takes off the front is the labels' encoding. -/
theorem parseLabels_eq_ok {msg : Bytes} {labels : List Bytes} {rest : Bytes} :
    parseLabels msg = .ok (labels,rest) ↔ ValidLabels labels ∧ msg = wire labels++rest := by
  induction msg using parseLabels.induct generalizing labels rest with
  | case1 => simp [parseLabels,wire]
  | case2 tail =>
    rw [parseLabels,if_pos rfl]
    constructor
    · intro h
      obtain ⟨rfl,rfl⟩ : [] = labels ∧ tail = rest := by simpa using h
      exact ⟨by simp [ValidLabels],rfl⟩
    · rintro ⟨hv,hwi⟩
      cases labels with
      | nil => simpa [wire] using hwi
      | cons label labels =>
        obtain ⟨hne,hle⟩ := hv label (by simp)
        have hz := (wire_cons_eq hle hwi).1
        exact absurd (length_eq_zero_iff.1 hz.symm) hne
  | case3 length tail hz hbad =>
    rw [parseLabels,if_neg hz,if_pos hbad]
    refine iff_of_false (by simp) ?_
    rintro ⟨hv,hwi⟩
    obtain ⟨label,labels,rfl,-,hle,hlen,htl⟩ := wire_eq_of_ne_zero hz hv hwi
    have htot := congrArg List.length htl
    simp only [length_append] at htot
    omega
  | case4 length tail hz hgood e herr ih =>
    rw [parseLabels,if_neg hz,if_neg hgood,herr]
    refine iff_of_false (by simp) ?_
    rintro ⟨hv,hwi⟩
    obtain ⟨label,labels,rfl,hv,-,hlen,htl⟩ := wire_eq_of_ne_zero hz hv hwi
    have hok := ih.2 ⟨hv,by rw [htl,hlen,drop_left]⟩
    simp [herr] at hok
  | case5 length tail hz hgood labels' rest' hok ih =>
    rw [parseLabels,if_neg hz,if_neg hgood,hok]
    push Not at hgood
    obtain ⟨hv',hwi'⟩ := ih.1 hok
    have hlen : (tail.take length.toNat).length = length.toNat := by simp [hgood.2]
    constructor
    · intro h
      obtain ⟨rfl,rfl⟩ : tail.take length.toNat::labels' = labels ∧ rest' = rest := by simpa using h
      refine ⟨forall_mem_cons.2 ⟨⟨fun hnil => hz ?_,by omega⟩,hv'⟩,?_⟩
      · rw [hnil] at hlen
        exact UInt8.toNat_inj.1 hlen.symm
      · rw [wire_cons,hlen,UInt8.ofNat_toNat,cons_append,cons_append,append_assoc,← hwi',
          take_append_drop]
    · rintro ⟨hv,hwi⟩
      obtain ⟨label,labels,rfl,hv,-,hlb,htl⟩ := wire_eq_of_ne_zero hz hv hwi
      have hrs := ih.2 ⟨hv,by rw [htl,hlb,drop_left]⟩
      rw [hok] at hrs
      obtain ⟨rfl,rfl⟩ : labels' = labels ∧ rest' = rest := by simpa using hrs
      rw [htl,hlb,take_left]

lemma byteAt_append_left {a b : Bytes} {i : ℕ} (h : i < a.length) : byteAt (a++b) i = byteAt a i := by
  rw [byteAt,byteAt,getD_append _ _ _ _ h]

lemma byteAt_append_right (a b : Bytes) (i : ℕ) : byteAt (a++b) (a.length+i) = byteAt b i := by
  rw [byteAt,byteAt,getD_append_right _ _ _ _ (by omega),Nat.add_sub_cancel_left]

lemma uint16At_append_left {a b : Bytes} {i : ℕ} (h : i+1 < a.length) : uint16At (a++b) i = uint16At a i := by
  rw [uint16At,uint16At,byteAt_append_left (by omega),byteAt_append_left h]

lemma uint16At_append_right (a b : Bytes) (i : ℕ) : uint16At (a++b) (a.length+i) = uint16At b i := by
  rw [uint16At,uint16At,byteAt_append_right,Nat.add_assoc,byteAt_append_right]

lemma byteAt_take {l : Bytes} {i n : ℕ} (h : i < n) : byteAt (l.take n) i = byteAt l i := by
  simp [byteAt,h]

lemma uint16At_take {l : Bytes} {i n : ℕ} (h : i+1 < n) : uint16At (l.take n) i = uint16At l i := by
  rw [uint16At,uint16At,byteAt_take (by omega),byteAt_take h]

@[simp] lemma length_putUint16 (n : ℕ) : (putUint16 n).length = 2 := rfl

@[simp] lemma length_putUint32 (n : ℕ) : (putUint32 n).length = 4 := rfl

theorem uint16At_putUint16 {n : ℕ} (h : n < 65536) (rest : Bytes) : uint16At (putUint16 n++rest) 0 = n := by
  have hhigh : (UInt8.ofNat (n/256)).toNat = n/256 := toNat_ofNat (by omega)
  have hlow : (UInt8.ofNat n).toNat = n%256 := UInt8.toNat_ofNat'
  show (UInt8.ofNat (n/256)).toNat*256+(UInt8.ofNat n).toNat = n
  omega

/-- A message with one question: the header, the name, its type and class, and the rest. -/
theorem parseQuestion_eq_ok {msg : Bytes} {q : Question} :
    parseQuestion msg = .ok q ↔ ∃ (head : Bytes) (labels : List Bytes) (tail rest : Bytes),
      msg = head++(wire labels++(tail++rest)) ∧ head.length = 12 ∧ uint16At head 4 = 1 ∧
      tail.length = 4 ∧ ValidLabels labels ∧
      q = ⟨[dot].intercalate labels,uint16At tail 0,uint16At tail 2,12+(wire labels).length+4⟩ := by
  unfold parseQuestion
  constructor
  · intro h
    split_ifs at h with hsh
    push Not at hsh
    have hhd : (msg.take 12).length = 12 := by simp [hsh.1]
    have hcnt : uint16At (msg.take 12) 4 = 1 := (uint16At_take (by omega)).trans hsh.2
    cases hlbs : parseLabels (msg.drop 12) with
    | error e => simp [hlbs] at h
    | ok p =>
      obtain ⟨labels,rest⟩ := p
      simp only [hlbs] at h
      split_ifs at h with htl
      push Not at htl
      obtain ⟨hv,hwi⟩ := parseLabels_eq_ok.1 hlbs
      have hfour : (rest.take 4).length = 4 := by simp [htl]
      have hspl : rest.take 4++rest.drop 4 = rest := take_append_drop 4 rest
      refine ⟨msg.take 12,labels,rest.take 4,rest.drop 4,?_,hhd,hcnt,hfour,hv,?_⟩
      · rw [hspl,← hwi,take_append_drop]
      · have hlen := congrArg length hwi
        rw [length_drop,length_append] at hlen
        rw [uint16At_take (by omega),uint16At_take (by omega),← Except.ok.inj h,Question.mk.injEq]
        exact ⟨rfl,rfl,rfl,by omega⟩
  · rintro ⟨head,labels,tail,rest,rfl,hhd,hcnt,htl,hv,rfl⟩
    rw [if_neg]
    · rw [show (head++(wire labels++(tail++rest))).drop 12 = wire labels++(tail++rest) by
        rw [← hhd,drop_left]]
      rw [parseLabels_eq_ok.2 ⟨hv,rfl⟩]
      simp only [length_append]
      rw [if_neg (by omega),uint16At_append_left (by omega),uint16At_append_left (by omega)]
      congr 2
      omega
    · push Not
      exact ⟨by simp [hhd],by rw [uint16At_append_left (by omega),hcnt]⟩

end TalosBox.Dns
