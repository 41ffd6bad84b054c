import TalosBox.DnsMessage

/-! What the resolver writes it reads back: queries by their name, answers by the address looked up,
with as many records as the header counts. -/
namespace TalosBox.Dns

open List
open Router (Bytes IP byteAt uint16At ipAt)

/-- `strings.Join(labels, ".")`. -/
def joinLabels (labels : List Bytes) : Bytes := [dot].intercalate labels

/-- Labels of one to 63 bytes without dots, at least one of them. -/
structure PlainLabels (labels : List Bytes) : Prop where
  nonempty : labels ≠ []
  valid : ValidLabels labels
  plain : ∀ label ∈ labels, dot ∉ label

lemma joinLabels_cons_cons (label next : Bytes) (labels : List Bytes) :
    joinLabels (label::next::labels) = label++dot::joinLabels (next::labels) := by
  simp [joinLabels]

theorem joinLabels_getLast {labels : List Bytes} (h : PlainLabels labels) :
    (joinLabels labels).getLast? ≠ some dot := by
  obtain ⟨hne,hval,hpl⟩ := h
  induction labels with
  | nil => exact absurd rfl hne
  | cons label labels ih =>
    cases labels with
    | nil =>
      intro hla
      rw [joinLabels,intercalate_singleton] at hla
      exact hpl label (by simp) (mem_of_getLast? hla)
    | cons next labels =>
      have htl : joinLabels (next::labels) ≠ [] := by
        intro hnil
        have hnx := (hval next (by simp)).1
        cases labels with
        | nil => exact hnx (by simpa [joinLabels] using hnil)
        | cons another labels => simp [joinLabels_cons_cons] at hnil
      rw [joinLabels_cons_cons,getLast?_append_of_ne_nil _ (by simp),getLast?_cons_of_ne_nil htl]
      exact ih (by simp) (fun l hl => hval l (by simp [hl])) (fun l hl => hpl l (by simp [hl]))

lemma trimDot_append_dot (name : Bytes) : trimDot (name++[dot]) = name := by simp [trimDot]

theorem encodeName_joinLabels {labels : List Bytes} (h : PlainLabels labels) {name : Bytes}
    (hnm : name = joinLabels labels ∨ name = joinLabels labels++[dot]) :
    encodeName name = .ok (wire labels) := by
  have htrim : trimDot name = joinLabels labels := by
    rcases hnm with rfl | rfl
    · rw [trimDot,if_neg (joinLabels_getLast h)]
    · exact trimDot_append_dot _
  rw [encodeName,htrim,joinLabels,splitOn_intercalate dot h.plain h.nonempty]
  exact encodeLabels_eq_ok.2 ⟨h.valid,rfl⟩

/-- A query is read back as the question it was made for. -/
theorem parseQuestion_encodeQuery {labels : List Bytes} (h : PlainLabels labels) {name : Bytes}
    (hnm : name = joinLabels labels ∨ name = joinLabels labels++[dot]) (id : UInt16) :
    ∃ msg, encodeQuery name id = .ok msg ∧
      parseQuestion msg = .ok ⟨joinLabels labels,typeA,classIN,msg.length⟩ := by
  rw [encodeQuery,encodeName_joinLabels h hnm]
  have hcnt : uint16At (putUint16 id.toNat++putUint16 0x0100++(putUint16 1++[0,0,0,0,0,0])) 4 = 1 :=
    (uint16At_append_right (putUint16 id.toNat++putUint16 0x0100) _ 0).trans
      (uint16At_putUint16 (by omega) _)
  have htype : uint16At (putUint16 typeA++putUint16 classIN) 0 = typeA := by decide
  have hclass : uint16At (putUint16 typeA++putUint16 classIN) 2 = classIN := by decide
  refine ⟨_,rfl,parseQuestion_eq_ok.2 ⟨putUint16 id.toNat++putUint16 0x0100 ++
    (putUint16 1++[0,0,0,0,0,0]),labels,putUint16 typeA++putUint16 classIN,[],by simp,by simp,hcnt,
    by simp,h.valid,?_⟩⟩
  rw [htype,hclass,Question.mk.injEq]
  refine ⟨rfl,rfl,rfl,?_⟩
  simp only [length_append,length_putUint16,length_cons,length_nil]

theorem length_wire {labels : List Bytes} (h : labels ≠ []) :
    (wire labels).length = (joinLabels labels).length+2 := by
  induction labels with
  | nil => exact absurd rfl h
  | cons label labels ih =>
    cases labels with
    | nil => simp [wire,joinLabels]
    | cons next labels =>
      rw [wire_cons,joinLabels_cons_cons]
      have := ih (by simp)
      simp only [length_append,length_cons] at this ⊢
      omega

lemma length_trimDot (name : Bytes) : (trimDot name).length ≤ name.length := by
  unfold trimDot
  split_ifs <;> simp

theorem encodeName_eq_ok {name enc : Bytes} (h : encodeName name = .ok enc) :
    ∃ labels, ValidLabels labels ∧ enc = wire labels ∧ enc.length ≤ name.length+2 := by
  obtain ⟨hv,rfl⟩ := encodeLabels_eq_ok.1 h
  refine ⟨_,hv,rfl,?_⟩
  rw [length_wire (splitOn_ne_nil _ _),joinLabels,intercalate_splitOn]
  have := length_trimDot name
  omega

/-- The bytes behind a name, which is a pointer or a sequence of labels. -/
def skipName : Bytes → Option Bytes
  | first::second::rest =>
    if 0xc0 ≤ first then some rest else (parseLabels (first::second::rest)).toOption.map Prod.snd
  | message => (parseLabels message).toOption.map Prod.snd

/-- The bytes behind a record: its name, ten bytes with the length of its data, and its data. -/
def skipRecord (message : Bytes) : Option Bytes :=
  (skipName message).bind fun rest =>
    if rest.length < 10+uint16At rest 8 then none else some (rest.drop (10+uint16At rest 8))

def skipRecords : ℕ → Bytes → Option Bytes
  | 0, message => some message
  | count+1, message => (skipRecord message).bind (skipRecords count)

theorem skipRecord_encode {r : Record} (hnm : ∀ rest, skipName (r.owner++rest) = some rest)
    (hleng : r.rdata.length < 65536) (rest : Bytes) : skipRecord (r.encode++rest) = some rest := by
  have hspl : r.encode++rest = r.owner++((putUint16 r.recordType++putUint16 classIN ++
      putUint32 r.ttl)++(putUint16 r.rdata.length++(r.rdata++rest))) := by
    simp [Record.encode]
  have hda : uint16At ((putUint16 r.recordType++putUint16 classIN++putUint32 r.ttl) ++
      (putUint16 r.rdata.length++(r.rdata++rest))) 8 = r.rdata.length :=
    (uint16At_append_right (putUint16 r.recordType++putUint16 classIN++putUint32 r.ttl) _ 0).trans
      (uint16At_putUint16 hleng _)
  rw [hspl,skipRecord,hnm,Option.bind_some,hda,if_neg (by simp; omega)]
  congr 1
  rw [show (putUint16 r.recordType++putUint16 classIN++putUint32 r.ttl) ++
      (putUint16 r.rdata.length++(r.rdata++rest)) = (putUint16 r.recordType++putUint16 classIN ++
      putUint32 r.ttl++putUint16 r.rdata.length++r.rdata)++rest by simp]
  exact drop_left' (by simp; omega)

theorem skipName_wire {labels : List Bytes} (h : ValidLabels labels) (rest : Bytes) :
    skipName (wire labels++rest) = some rest := by
  have hprs : parseLabels (wire labels++rest) = .ok (labels,rest) := parseLabels_eq_ok.2 ⟨h,rfl⟩
  have hfst : ∀ first tail, wire labels++rest = first::tail → ¬0xc0 ≤ first := by
    intro first tail heq
    cases labels with
    | nil =>
      rw [← (cons.inj heq).1]
      decide
    | cons label labels =>
      obtain ⟨hleng,-⟩ := wire_cons_eq (h label (by simp)).2 heq.symm
      have := (h label (by simp)).2
      rw [UInt8.le_iff_toNat_le,hleng]
      show ¬192 ≤ label.length
      omega
  unfold skipName
  split
  · rename_i first second tail heq
    rw [if_neg (hfst first _ heq),← heq,hprs]
    rfl
  · rw [hprs]
    rfl

lemma skipRecord_addressRecord (ip : IP) (rest : Bytes) :
    skipRecord ((addressRecord ip).encode++rest) = some rest :=
  skipRecord_encode (fun _ => rfl) (by simp [addressRecord]) rest

theorem skipRecord_authoritySOA {zone : Bytes} {soa : Record} (h : authoritySOA zone = some soa)
    (hzo : zone.length ≤ 32750) (rest : Bytes) : skipRecord (soa.encode++rest) = some rest := by
  unfold authoritySOA at h
  split at h
  · rename_i owner mailbox how hmail
    obtain ⟨labels,hv,rfl,hlen⟩ := encodeName_eq_ok how
    obtain ⟨-,-,-,hlen'⟩ := encodeName_eq_ok hmail
    cases h
    refine skipRecord_encode (fun rest => skipName_wire hv rest) ?_ rest
    simp only [length_append,length_putUint32,length_cons,hostmaster,length_nil] at hlen' ⊢
    omega
  · cases h

/-- The fields of a message made of a response's head and some records. -/
structure Response (message query : Bytes) (q : Question) (flags answers authority : ℕ) (records : Bytes) :
    Prop where
  question : parseQuestion message = .ok q
  id : uint16At message 0 = uint16At query 0
  flags : uint16At message 2 = flags
  questions : uint16At message 4 = 1
  answers : uint16At message 6 = answers
  authority : uint16At message 8 = authority
  additional : uint16At message 10 = 0
  stop : 12 ≤ q.stop
  split : ∃ head : Bytes, head.length = q.stop ∧ message = head++records

variable {query : Bytes} {q : Question} {flags : ℕ}

theorem responseHead_append (h : parseQuestion query = .ok q) (ans auth : ℕ) (hfgs : flags < 65536) (hanss : ans < 65536)
    (hauth : auth < 65536) (records : Bytes) :
    Response (responseHead query q flags ans auth++records) query q flags ans auth
      records := by
  obtain ⟨head,labels,tail,rest,rfl,hhd,hcnt,htl,hv,rfl⟩ := parseQuestion_eq_ok.1 h
  set query := head++(wire labels++(tail++rest)) with hquery
  set fields := query.take 2++(putUint16 flags++(putUint16 1++(putUint16 ans ++
    (putUint16 auth++putUint16 0)))) with hfld
  have hid : (query.take 2).length = 2 := by simp [hquery]; omega
  have hleng : fields.length = 12 := by simp only [hfld,length_append,hid,length_putUint16]
  have hques : (query.take (12+(wire labels).length+4)).drop 12 = wire labels++tail := by
    rw [hquery,show head++(wire labels++(tail++rest)) = (head++(wire labels++tail))++rest by simp,
      take_left' (by simp; omega),← hhd,drop_left]
  have hmsg : responseHead query ⟨[dot].intercalate labels,uint16At tail 0,uint16At tail 2,
      12+(wire labels).length+4⟩ flags ans auth++records =
      fields++(wire labels++(tail++records)) := by
    rw [responseHead,hques]
    simp [hfld]
  -- a field is the two bytes behind the fields in front of it
  have hfield : ∀ (i n : ℕ) (before after : Bytes), fields = before++(putUint16 n++after) →
      before.length = i → n < 65536 →
      uint16At (fields++(wire labels++(tail++records))) i = n := by
    intro i n before after heq hbef hn
    rw [heq,append_assoc,append_assoc,← hbef]
    exact (uint16At_append_right before _ 0).trans (uint16At_putUint16 hn _)
  have hquest : uint16At (fields++(wire labels++(tail++records))) 4 = 1 :=
    hfield 4 1 (query.take 2++putUint16 flags) (putUint16 ans++(putUint16 auth++putUint16 0))
      (by simp [hfld]) (by simp [hid]) (by omega)
  rw [hmsg]
  refine ⟨parseQuestion_eq_ok.2 ⟨fields,labels,tail,records,rfl,hleng,?_,htl,hv,rfl⟩,?_,
    hfield 2 flags (query.take 2) _ hfld hid hfgs,hquest,?_,?_,?_,
    by simp; omega,fields++(wire labels++tail),by simp; omega,by simp⟩
  · rwa [← uint16At_append_left (b := wire labels++(tail++records)) (by omega)]
  · rw [uint16At_append_left (by omega),hfld,uint16At_append_left (by omega),uint16At_take (by omega)]
  · exact hfield 6 ans (query.take 2++putUint16 flags++putUint16 1)
      (putUint16 auth++putUint16 0) (by simp [hfld]) (by simp [hid]) hanss
  · exact hfield 8 auth (query.take 2++putUint16 flags++putUint16 1++putUint16 ans)
      (putUint16 0) (by simp [hfld]) (by simp [hid]) hauth
  · exact hfield 10 0 (query.take 2++putUint16 flags++putUint16 1++putUint16 ans ++
      putUint16 auth) [] (by simp [hfld]) (by simp [hid]) (by omega)

theorem answer_flags (query : ℕ) {rcode : ℕ} (hrcode : rcode = 0 ∨ rcode = 3) :
    let flags := 0x8400 ||| flagRecursionAvailable ||| query &&& 0x0100 ||| rcode
    flags < 65536 ∧ flags &&& 0x8000 ≠ 0 ∧ flags &&& 0xf = rcode := by
  have hdesi : query &&& 0x0100 = 0 ∨ query &&& 0x0100 = 0x0100 := by
    have hbit := Nat.and_two_pow query 8
    rw [show (2 : ℕ)^8 = 0x0100 from rfl] at hbit
    rw [hbit]
    cases query.testBit 8 <;> simp
  intro flags
  rcases hdesi with hdesi | hdesi <;> rcases hrcode with rfl | rfl <;>
    simp only [flags,hdesi] <;> decide

theorem uint16At_lt (msg : Bytes) (i : ℕ) : uint16At msg i < 65536 := by
  have hhigh := (byteAt msg i).toNat_lt
  have hlow := (byteAt msg (i+1)).toNat_lt
  simp only [uint16At]
  omega

theorem Response.parseAnswerIP_eq {msg records : Bytes} {ans auth : ℕ}
    (h : Response msg query q flags ans auth records) (hfgs : flags &&& 0x8000 ≠ 0) :
    parseAnswerIP msg (.ofNat (uint16At query 0)) =
      if ans = 0 then .ok (none,flags &&& 0xf)
      else if msg.length < q.stop+16 ∨ byteAt msg q.stop ≠ 0xc0 ∨
          uint16At msg (q.stop+2) ≠ typeA ∨ uint16At msg (q.stop+10) ≠ 4 then .error .answer
      else .ok (some (ipAt msg (q.stop+12)),flags &&& 0xf) := by
  obtain ⟨head,hhd,hmsg⟩ := h.split
  have hleng : 12 ≤ msg.length := by
    rw [hmsg,length_append,hhd]
    exact h.stop.trans (Nat.le_add_right _ _)
  have hid : (UInt16.ofNat (uint16At query 0)).toNat = uint16At query 0 :=
    UInt16.toNat_ofNat_of_lt' (uint16At_lt query 0)
  rw [parseAnswerIP,h.id,h.flags,h.question,h.answers,if_neg]
  rw [hid]
  push Not
  exact ⟨hleng,rfl,hfgs⟩

theorem Response.parseAnswerIP_address {msg : Bytes} {ip : IP}
    (h : Response msg query q flags 1 0 (addressRecord ip).encode) (hfgs : flags &&& 0x8000 ≠ 0) :
    parseAnswerIP msg (.ofNat (uint16At query 0)) = .ok (some ip,flags &&& 0xf) := by
  obtain ⟨head,hhd,hmsg⟩ := h.split
  have hbyte : ∀ i, byteAt msg (q.stop+i) = byteAt (addressRecord ip).encode i := by
    intro i
    rw [hmsg,← hhd,byteAt_append_right]
  have hword : ∀ i, uint16At msg (q.stop+i) = uint16At (addressRecord ip).encode i := by
    intro i
    rw [hmsg,← hhd,uint16At_append_right]
  have hleng : msg.length = q.stop+16 := by
    rw [hmsg,length_append,hhd]
    rfl
  have haddr : ipAt msg (q.stop+12) = ip := by
    unfold ipAt
    rw [Nat.add_assoc,Nat.add_assoc,Nat.add_assoc,hbyte,hbyte,hbyte,hbyte]
    rfl
  rw [h.parseAnswerIP_eq hfgs,if_neg (by omega),if_neg,haddr]
  push Not
  refine ⟨hleng.ge,?_,?_,?_⟩
  · exact (hbyte 0).trans rfl
  · rw [hword,show (addressRecord ip).encode = [0xc0,0x0c]++(putUint16 typeA++(putUint16 classIN ++
      (putUint32 30++(putUint16 4++[ip.a,ip.b,ip.c,ip.d])))) from rfl]
    exact (uint16At_append_right [0xc0,0x0c] _ 0).trans (uint16At_putUint16 (by decide) _)
  · rw [hword,show (addressRecord ip).encode = ([0xc0,0x0c]++(putUint16 typeA++(putUint16 classIN ++
      putUint32 30)))++(putUint16 4++[ip.a,ip.b,ip.c,ip.d]) from rfl]
    exact (uint16At_append_right ([0xc0,0x0c]++(putUint16 typeA++(putUint16 classIN++putUint32 30))) _
      0).trans (uint16At_putUint16 (by decide) _)

/-- The address if one was found and asked for, otherwise the code for an unknown name or none. -/
def expected (found : Option IP) (q : Question) : Option IP × ℕ :=
  match found with
  | none => (none,3)
  | some ip => if q.recordType = typeA ∧ q.class_ = classIN then (some ip,0) else (none,0)

/-- The header counts one question and the records that take up the rest of the message, if the zone
is short enough for its record's length. -/
structure Counted (response : Bytes) (q : Question) (zone : Bytes) : Prop where
  questions : uint16At response 4 = 1
  additional : uint16At response 10 = 0
  records : ∃ answers authority : List Record,
    response.drop q.stop = answers.flatMap Record.encode++authority.flatMap Record.encode ∧
    uint16At response 6 = answers.length ∧ uint16At response 8 = authority.length
  walked : zone.length ≤ 32750 →
    skipRecords (uint16At response 6+uint16At response 8) (response.drop q.stop) = some []

theorem Response.counted {msg zone : Bytes} (ans auth : List Record)
    (h : Response msg query q flags ans.length auth.length
      (ans.flatMap Record.encode++auth.flatMap Record.encode))
    (hone : ans.length+auth.length ≤ 1)
    (hwk : zone.length ≤ 32750 → ∀ r ∈ ans++auth, skipRecord (r.encode++[]) = some []) :
    Counted msg q zone := by
  obtain ⟨head,hhd,hmsg⟩ := h.split
  have hdp : msg.drop q.stop = ans.flatMap Record.encode++auth.flatMap Record.encode := by
    rw [hmsg,← hhd,drop_left]
  refine ⟨h.questions,h.additional,⟨ans,auth,hdp,h.answers,h.authority⟩,fun hzo => ?_⟩
  rw [h.answers,h.authority,hdp,← flatMap_append,← length_append]
  rw [← length_append] at hone
  have hreco := hwk hzo
  match hls : ans++auth with
  | [] => rfl
  | [r] =>
    have hr := hreco r (by simp [hls])
    simp only [length_cons,skipRecords,flatMap_cons,flatMap_nil,hr]
    rfl
  | _::_::_ => simp [hls] at hone

theorem missAnswer_read_back (h : parseQuestion query = .ok q)
    (hlt : flags < 65536) (hfgs : flags &&& 0x8000 ≠ 0) (zone : Bytes) :
    parseAnswerIP (missAnswer query q flags zone) (.ofNat (uint16At query 0)) = .ok (none,flags &&& 0xf) ∧
      Counted (missAnswer query q flags zone) q zone := by
  unfold missAnswer
  cases hsoa : if zone = [] then none else authoritySOA zone with
  | none =>
    have hhd := responseHead_append h 0 0 hlt (by omega) (by omega) []
    rw [append_nil] at hhd
    refine ⟨?_,Response.counted [] [] hhd (by simp) (by simp)⟩
    rw [hhd.parseAnswerIP_eq hfgs,if_pos rfl]
  | some soa =>
    have hhd := responseHead_append h 0 1 hlt (by omega) (by omega) soa.encode
    have hzo : authoritySOA zone = some soa := by
      split_ifs at hsoa
      exact hsoa
    refine ⟨?_,Response.counted [] [soa] (by simpa using hhd) (by simp) ?_⟩
    · rw [hhd.parseAnswerIP_eq hfgs,if_pos rfl]
    · intro hsh r hr
      obtain rfl : r = soa := by simpa using hr
      exact skipRecord_authoritySOA hzo hsh []

theorem answer_read_back (h : parseQuestion query = .ok q)
    (lookup : Bytes → Bytes) (zone : Bytes) :
    ∃ resp, answer query lookup zone = .ok resp ∧
      parseAnswerIP resp (.ofNat (uint16At query 0)) = .ok (expected (to4 (lookup q.name)) q) ∧
      Counted resp q zone := by
  obtain ⟨hlt,hfgs,hcd⟩ := answer_flags (uint16At query 2) (.inl rfl)
  obtain ⟨hlt₃,hfgs₃,hcd₃⟩ := answer_flags (uint16At query 2) (.inr rfl)
  simp only [Nat.or_zero] at hlt hfgs hcd
  rw [answer,h]
  cases hfnd : to4 (lookup q.name) with
  | none =>
    obtain ⟨hprs,hcoun⟩ := missAnswer_read_back h hlt₃ hfgs₃ zone
    rw [hcd₃] at hprs
    exact ⟨_,by simp [hfnd],hprs,hcoun⟩
  | some ip =>
    by_cases hask : q.recordType = typeA ∧ q.class_ = classIN
    · have hhd := responseHead_append h 1 0 hlt (by omega) (by omega)
        (addressRecord ip).encode
      refine ⟨responseHead query q _ 1 0++(addressRecord ip).encode,by simp [hfnd,hask]; rfl,?_,
        Response.counted [addressRecord ip] [] (by simpa using hhd) (by simp) ?_⟩
      · rw [hhd.parseAnswerIP_address hfgs,hcd,expected,if_pos hask]
      · intro _ r hr
        obtain rfl : r = addressRecord ip := by simpa using hr
        exact skipRecord_addressRecord ip []
    · obtain ⟨hprs,hcoun⟩ := missAnswer_read_back h hlt hfgs zone
      rw [hcd] at hprs
      refine ⟨_,by simp [hfnd,hask],?_,hcoun⟩
      rw [hprs,expected,if_neg hask]

/-- A query is read back as its name, and an answer to any query as what was looked up. -/
theorem message_round_trip :
    (∀ labels, PlainLabels labels → ∀ name, name = joinLabels labels ∨ name = joinLabels labels ++ [dot] →
      ∀ id, ∃ message, encodeQuery name id = .ok message ∧
        parseQuestion message = .ok ⟨joinLabels labels,typeA,classIN,message.length⟩) ∧
    ∀ query q lookup zone, parseQuestion query = .ok q → ∃ response, answer query lookup zone = .ok response ∧
      parseAnswerIP response (.ofNat (uint16At query 0)) = .ok (expected (to4 (lookup q.name)) q) ∧
      Counted response q zone :=
  ⟨fun _ hlbs _ hname id => parseQuestion_encodeQuery hlbs hname id,
    fun _ _ lookup zone hquery => answer_read_back hquery lookup zone⟩

namespace Sample

/-- `a.k8s`. -/
def labels : List Bytes := [[97],[107,56,115]]

lemma labels_plain : PlainLabels labels := ⟨by decide,by unfold ValidLabels; decide,by decide⟩

end Sample

/-- A query for `a.k8s` is answered with the address that was looked up. -/
theorem address_read_back : ∃ message response, encodeQuery (joinLabels Sample.labels) 7 = .ok message ∧
    answer message (fun _ => [172,30,0,2]) [] = .ok response ∧
    parseAnswerIP response (.ofNat (uint16At message 0)) = .ok (some ⟨172,30,0,2⟩,0) := by
  obtain ⟨message,hencode,hprs⟩ := message_round_trip.1 Sample.labels Sample.labels_plain _ (.inl rfl) 7
  obtain ⟨response,hans,hread,-⟩ := message_round_trip.2 message _ (fun _ => [172,30,0,2]) [] hprs
  exact ⟨message,response,hencode,hans,hread⟩

end TalosBox.Dns
