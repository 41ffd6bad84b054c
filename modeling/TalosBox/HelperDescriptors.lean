import TalosBox.HelperClient

/-! `receiveDecodedResponse` with the descriptors beside the bytes. A descriptor is open from the
read that brings it, but known only once the control data is parsed. -/
namespace TalosBox.HelperDescriptors

open List
open HelperClient (Response CallError Fault Decoder newline maxResponseSize bufferSize)

/-- A control message, as `ParseUnixRights` sees it: it passes descriptors or is refused. -/
inductive Message
  | rights (fds : List ℕ)
  | other
  deriving DecidableEq

inductive Control
  | none
  /-- `ParseSocketControlMessage` refuses the data; the descriptors in it are open all the same. -/
  | garbled (fds : List ℕ)
  | messages (ms : List Message)
  deriving DecidableEq

def Message.fds : Message → List ℕ
  | .rights fds => fds
  | .other => []

/-- The descriptors a read brings. -/
def Control.fds : Control → List ℕ
  | .none => []
  | .garbled fds => fds
  | .messages ms => ms.flatMap Message.fds

structure Delivery where
  bytes : List UInt8
  fits : bytes.length ≤ bufferSize
  control : Control
  /-- `MSG_CTRUNC`. -/
  truncated : Bool

inductive Read
  | failed (fault : Fault)
  | got (d : Delivery)

/-- What the client returns and closes; the descriptors its reads brought are kept beside it. -/
structure Outcome where
  result : Except CallError Response
  returned : Option ℕ
  closed : List ℕ
  received : List ℕ

/-- An error return, after `closeRights`. -/
def failWith (rights received : List ℕ) (e : CallError) : Outcome := ⟨.error e,none,rights,received⟩

/-- The inner loop; false if a message was refused. -/
def collect (rights : List ℕ) : List Message → List ℕ × Bool
  | [] => (rights,true)
  | .rights fds::ms => collect (rights++fds) ms
  | .other::_ => (rights,false)

def parseControl (rights : List ℕ) : Control → List ℕ × Bool
  | .none => (rights,true)
  | .garbled _ => (rights,false)
  | .messages ms => collect rights ms

/-- What the loop makes of a read: the descriptors it knows of then, and why it stops. -/
def Delivery.visit (d : Delivery) (payload : List UInt8) (rights : List ℕ) :
    List ℕ × Option CallError :=
  if maxResponseSize < payload.length + d.bytes.length then (rights,some .tooLarge)
  else
    match parseControl rights d.control with
    | (rights,false) => (rights,some .unparsable)
    | (rights,true) =>
      if d.truncated then (rights,some .truncated)
      else if d.bytes = [] ∧ d.control = .none then (rights,some (.read .unexpectedEOF))
      else (rights,none)

/-- What is made of a payload that has its newline. -/
def settle (decoder : Decoder) (wantFD failOnResponseError : Bool) (payload : List UInt8)
    (rights received : List ℕ) : Outcome :=
  match decoder.response (payload.takeWhile (· ≠ newline)) with
  | none => failWith rights received .decode
  | some response =>
    if !response.ok && failOnResponseError then
      failWith rights received
        (.response (if response.error = "" then "helper operation failed" else response.error))
    else
      match wantFD,rights with
      | true,[fd] => ⟨.ok response,some fd,[],received⟩
      | false,[] => ⟨.ok response,none,[],received⟩
      | _,_ => failWith rights received (.rights rights.length)

variable (decoder : Decoder) (wantFD failOnResponseError : Bool)

/-- The loop over the reads; without a further one the deadline passes. -/
def receive (payload : List UInt8) (rights received : List ℕ) (reads : List Read) : Outcome :=
  if newline ∈ payload then settle decoder wantFD failOnResponseError payload rights received
  else
    match reads with
    | [] => failWith rights received (.read .timeout)
    | .failed fault::_ => failWith rights received (.read fault)
    | .got d::reads =>
      let received := received++d.control.fds
      match d.visit payload rights with
      | (rights,some e) => failWith rights received e
      | (rights,none) => receive (payload++d.bytes) rights received reads

def receiveDecodedResponse (reads : List Read) : Outcome :=
  receive decoder wantFD failOnResponseError [] [] [] reads

/-- The descriptors of the messages from the first refused one on. -/
def unparsed : List Message → List ℕ
  | [] => []
  | .rights _::ms => unparsed ms
  | .other::ms => ms.flatMap Message.fds

def Control.unparsed : Control → List ℕ
  | .none => []
  | .garbled fds => fds
  | .messages ms => HelperDescriptors.unparsed ms

/-- What the client does not know of a read made with the payload. -/
def Delivery.lost (d : Delivery) (payload : List UInt8) : List ℕ :=
  if maxResponseSize < payload.length + d.bytes.length then d.control.fds else d.control.unparsed

/-- What the client does not know of the read it stops with. -/
def lost (payload : List UInt8) (reads : List Read) : List ℕ :=
  if newline ∈ payload then []
  else
    match reads with
    | .got d::reads =>
      if (d.visit payload []).2 = none then lost (payload++d.bytes) reads else d.lost payload
    | _ => []

theorem collect_eq (rights : List ℕ) (ms : List Message) :
    (collect rights ms).1++unparsed ms = rights++ms.flatMap Message.fds := by
  induction ms generalizing rights with
  | nil => rfl
  | cons m ms ih =>
    cases m with
    | rights fds => simp [collect,unparsed,Message.fds,ih]
    | other => simp [collect,unparsed,Message.fds]

theorem collect_parses (rights rights' : List ℕ) (ms : List Message) :
    (collect rights ms).2 = (collect rights' ms).2 := by
  induction ms generalizing rights rights' with
  | nil => rfl
  | cons m ms ih =>
    cases m with
    | rights fds => exact ih _ _
    | other => rfl

theorem unparsed_of_parses {rights : List ℕ} {ms : List Message} (h : (collect rights ms).2) :
    unparsed ms = [] := by
  induction ms generalizing rights with
  | nil => rfl
  | cons m ms ih =>
    cases m with
    | rights fds => exact ih h
    | other => cases h

theorem parseControl_eq (rights : List ℕ) (c : Control) :
    (parseControl rights c).1++c.unparsed = rights++c.fds := by
  cases c with
  | none => rfl
  | garbled fds => rfl
  | messages ms => exact collect_eq rights ms

theorem parseControl_parses (rights : List ℕ) (c : Control) :
    (parseControl rights c).2 = (parseControl [] c).2 := by
  cases c with
  | none => rfl
  | garbled fds => rfl
  | messages ms => exact collect_parses rights [] ms

theorem Control.unparsed_of_parses {c : Control} {rights : List ℕ}
    (h : (parseControl rights c).2) : c.unparsed = [] := by
  cases c with
  | none => rfl
  | garbled fds => cases h
  | messages ms => exact HelperDescriptors.unparsed_of_parses h

/-- Of every read the client knows of what is not lost. -/
theorem visit_eq (d : Delivery) (pay : List UInt8) (rights : List ℕ) :
    (d.visit pay rights).1++d.lost pay = rights++d.control.fds := by
  have hprsd := parseControl_eq rights d.control
  unfold Delivery.visit Delivery.lost
  by_cases hlg : maxResponseSize < pay.length + d.bytes.length
  · rw [if_pos hlg,if_pos hlg]
  · rw [if_neg hlg,if_neg hlg]
    rcases hctl : parseControl rights d.control with ⟨rights',parses⟩
    rw [hctl] at hprsd
    cases parses with
    | false => exact hprsd
    | true =>
      split_ifs <;> exact hprsd

theorem visit_stops (d : Delivery) (pay : List UInt8) (rights : List ℕ) :
    (d.visit pay rights).2 = (d.visit pay []).2 := by
  have hparses := parseControl_parses rights d.control
  unfold Delivery.visit
  by_cases hlg : maxResponseSize < pay.length + d.bytes.length
  · rw [if_pos hlg,if_pos hlg]
  · rw [if_neg hlg,if_neg hlg]
    rcases hctl : parseControl rights d.control with ⟨rights',parses⟩
    rcases hno : parseControl [] d.control with ⟨rights₀,parses₀⟩
    obtain rfl : parses = parses₀ := by
      rw [hctl,hno] at hparses
      exact hparses
    cases parses with
    | false => rfl
    | true =>
      split_ifs <;> rfl

theorem lost_of_goes_on {d : Delivery} {pay : List UInt8} {rights : List ℕ}
    (h : (d.visit pay rights).2 = none) : d.lost pay = [] := by
  unfold Delivery.visit at h
  unfold Delivery.lost
  by_cases hlg : maxResponseSize < pay.length + d.bytes.length
  · rw [if_pos hlg] at h
    cases h
  · rw [if_neg hlg] at h ⊢
    rcases hctl : parseControl rights d.control with ⟨rights',parses⟩
    cases parses with
    | false =>
      rw [hctl] at h
      cases h
    | true => exact Control.unparsed_of_parses (by rw [hctl])

/-- An outcome of a client that knows of the descriptors `known`. -/
structure Outcome.Settles (o : Outcome) (wantFD : Bool) (known : List ℕ) : Prop where
  all : o.closed++o.returned.toList = known
  failed : ∀ e, o.result = .error e → o.returned = none
  succeeded : ∀ r, o.result = .ok r → o.closed = [] ∧ o.returned.isSome = wantFD

theorem settles_failWith (rights received : List ℕ) (e : CallError) :
    (failWith rights received e).Settles wantFD rights where
  all := append_nil rights
  failed _ _ := rfl
  succeeded r hr := by cases hr

theorem settles_settle (pay : List UInt8) (rights received : List ℕ) :
    (settle decoder wantFD failOnResponseError pay rights received).Settles wantFD rights ∧
      (settle decoder wantFD failOnResponseError pay rights received).received = received := by
  unfold settle
  split
  · exact ⟨settles_failWith wantFD _ _ _,rfl⟩
  · split
    · exact ⟨settles_failWith wantFD _ _ _,rfl⟩
    · split
      · exact ⟨⟨rfl,fun e he => (nomatch he),fun r _ => ⟨rfl,rfl⟩⟩,rfl⟩
      · exact ⟨⟨rfl,fun e he => (nomatch he),fun r _ => ⟨rfl,rfl⟩⟩,rfl⟩
      · exact ⟨settles_failWith _ _ _ _,rfl⟩

/-- The client settles what it learns of, and misses what is lost with its last read. -/
theorem receive_settles (pay : List UInt8) (rights : List ℕ) (reads : List Read) :
    ∃ known, (receive decoder wantFD failOnResponseError pay rights rights reads).Settles wantFD
        known ∧
      (receive decoder wantFD failOnResponseError pay rights rights reads).received =
        known++lost pay reads := by
  have hnoth := (append_nil rights).symm
  induction reads generalizing pay rights with
  | nil =>
    unfold receive lost
    split_ifs
    · obtain ⟨hsett,hrcv⟩ :=
        settles_settle decoder wantFD failOnResponseError pay rights rights
      exact ⟨rights,hsett,hrcv.trans hnoth⟩
    · exact ⟨rights,settles_failWith wantFD _ _ _,hnoth⟩
  | cons read reads ih =>
    unfold receive lost
    split_ifs
    · obtain ⟨hsett,hrcv⟩ :=
        settles_settle decoder wantFD failOnResponseError pay rights rights
      exact ⟨rights,hsett,hrcv.trans hnoth⟩
    · cases read with
      | failed fault => exact ⟨rights,settles_failWith wantFD _ _ _,hnoth⟩
      | got d =>
        have hvis := visit_eq d pay rights
        have hstops := visit_stops d pay rights
        simp only [← hstops]
        rcases hd : d.visit pay rights with ⟨rights',stop⟩
        rw [hd] at hvis
        cases stop with
        | some e =>
          refine ⟨rights',settles_failWith wantFD _ _ _,?_⟩
          exact hvis.symm
        | none =>
          rw [lost_of_goes_on (by rw [hd]),append_nil] at hvis
          subst hvis
          exact ih (pay++d.bytes) (rights++d.control.fds) (append_nil _).symm

/-- An error returns no descriptor, a success returns one if asked for and closes none, none is
closed twice or closed and returned, and all received are closed or returned exactly if the last
read loses none. A read loses its descriptors if its bytes exceed a response, its control data does
not parse, or behind a control message of another kind. -/
theorem descriptors_settled_iff (reads : List Read) :
    (∀ e, (receiveDecodedResponse decoder wantFD failOnResponseError reads).result = .error e →
      (receiveDecodedResponse decoder wantFD failOnResponseError reads).returned = none) ∧
    (∀ r, (receiveDecodedResponse decoder wantFD failOnResponseError reads).result = .ok r →
      (receiveDecodedResponse decoder wantFD failOnResponseError reads).closed = [] ∧
      (receiveDecodedResponse decoder wantFD failOnResponseError reads).returned.isSome = wantFD) ∧
    ((receiveDecodedResponse decoder wantFD failOnResponseError reads).closed ++
      (receiveDecodedResponse decoder wantFD failOnResponseError reads).returned.toList).Sublist
        (receiveDecodedResponse decoder wantFD failOnResponseError reads).received ∧
    ((receiveDecodedResponse decoder wantFD failOnResponseError reads).closed ++
      (receiveDecodedResponse decoder wantFD failOnResponseError reads).returned.toList =
        (receiveDecodedResponse decoder wantFD failOnResponseError reads).received ↔
      lost [] reads = []) := by
  obtain ⟨known,hsett,hrcv⟩ := receive_settles decoder wantFD failOnResponseError [] [] reads
  unfold receiveDecodedResponse
  refine ⟨hsett.failed,hsett.succeeded,?_,?_⟩
  · rw [hsett.all,hrcv]
    exact sublist_append_left known _
  · rw [hsett.all,hrcv]
    constructor
    · intro h
      exact append_cancel_left (h.symm.trans (append_nil known).symm)
    · intro h
      rw [h,append_nil]

lemma zeros_fit : (replicate bufferSize (0 : UInt8)).length ≤ bufferSize :=
  (length_replicate ..).le

lemma zero_fits : [(0 : UInt8)].length ≤ bufferSize := by decide

/-- A full buffer without a newline. -/
def zeros : Delivery := ⟨replicate bufferSize 0,zeros_fit,.none,false⟩

/-- A byte with a descriptor. -/
def zeroWithFd : Delivery := ⟨[0],zero_fits,.messages [.rights [7]],false⟩

/-- The limit is reached with 256 full reads; the next byte brings a descriptor. -/
def flood : List Read := replicate 256 (.got zeros)++[.got zeroWithFd]

lemma newline_not_mem_zeros (n : ℕ) : newline ∉ replicate n (0 : UInt8) := by
  intro h
  exact absurd (eq_of_mem_replicate h) (by decide)

theorem receive_zeros (k n : ℕ) (hn : n + k * bufferSize ≤ maxResponseSize) (rights received : List ℕ)
    (reads : List Read) :
    receive decoder wantFD failOnResponseError (replicate n 0) rights received
        (replicate k (.got zeros)++reads) =
      receive decoder wantFD failOnResponseError (replicate (n + k * bufferSize) 0) rights
        received reads := by
  induction k generalizing n with
  | zero => simp
  | succ k ih =>
    have hmo : n + bufferSize + k * bufferSize = n + (k + 1) * bufferSize := by ring
    have hvis : zeros.visit (replicate n 0) rights = (rights,none) := by
      have hle : ¬ maxResponseSize < n + bufferSize := by
        rw [← hmo] at hn
        exact not_lt.2 ((Nat.le_add_right _ _).trans hn)
      have hfull : bufferSize ≠ 0 := by decide
      simp [Delivery.visit,zeros,parseControl,hle,hfull]
    have hnoth : received++zeros.control.fds = received := append_nil received
    rw [replicate_succ,cons_append,receive,if_neg (newline_not_mem_zeros n)]
    simp only [hvis,hnoth]
    change receive _ _ _ (replicate n 0++replicate bufferSize 0) _ _ _ = _
    rw [replicate_append_replicate,ih (n + bufferSize) (hmo ▸ hn),hmo]

theorem receive_flood : receiveDecodedResponse decoder wantFD failOnResponseError flood =
    failWith [] [7] .tooLarge := by
  have hlg : maxResponseSize < (replicate (0 + 256 * bufferSize) (0 : UInt8)).length +
      zeroWithFd.bytes.length := by
    rw [length_replicate]
    decide
  have hsp : zeroWithFd.visit (replicate (0 + 256 * bufferSize) 0) [] = ([],some .tooLarge) := by
    rw [Delivery.visit,if_pos hlg]
  have hzeros := receive_zeros decoder wantFD failOnResponseError 256 0 (by decide) [] []
    [.got zeroWithFd]
  rw [replicate_zero] at hzeros
  rw [receiveDecodedResponse,flood,hzeros,receive,if_neg (newline_not_mem_zeros _)]
  simp only [hsp]
  rfl

/-- The descriptor is received, and neither closed nor returned. -/
theorem oversized_read_loses_descriptor :
    receiveDecodedResponse HelperClient.plainDecoder true true flood =
        ⟨.error .tooLarge,none,[],[7]⟩ ∧
      (receiveDecodedResponse HelperClient.plainDecoder true true flood).closed ++
        (receiveDecodedResponse HelperClient.plainDecoder true true flood).returned.toList ≠
          (receiveDecodedResponse HelperClient.plainDecoder true true flood).received := by
  rw [receive_flood]
  exact ⟨rfl,by decide⟩

end TalosBox.HelperDescriptors
