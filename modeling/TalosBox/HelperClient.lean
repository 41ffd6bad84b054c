import Mathlib

/-! The daemon's connection to the helper. Requests carry no number, so responses are told apart by
their place in the stream. Each byte is paired with a ghost number, that of the request it answers.
-/
open List

namespace TalosBox.HelperClient

structure Cell where
  /-- The ghost number of the request. -/
  request : ℕ
  byte : UInt8
  /-- The descriptors that travel with the byte. -/
  rights : ℕ
  deriving DecidableEq

def newline : UInt8 := 10

/-- What the helper writes for one request: a line, and the descriptors it passes. -/
structure Answer where
  line : List UInt8
  plain : newline ∉ line
  rights : ℕ

def cells (k : ℕ) : List UInt8 → ℕ → List Cell
  | [],_ => []
  | b::bs,rights => ⟨k,b,rights⟩::cells k bs 0

/-- The answer to the request with number `k`, as it arrives. -/
def message (k : ℕ) (a : Answer) : List Cell := cells k (a.line++[newline]) a.rights

/-- What the helper has written and the client has not read. -/
structure Connection where
  closed : Bool
  outstanding : List Cell
  deriving DecidableEq

/-- The errors of the socket that the client tells apart. -/
inductive Fault
  | timeout
  | epipe
  | reset
  | eof
  | unexpectedEOF
  | closed
  | other
  deriving DecidableEq

inductive Control
  | parsed
  | unparsable
  | truncated

/-- What the socket answers to a read: up to `n` bytes of what is outstanding, or an error. -/
inductive Read
  | chunk (n : ℕ) (control : Control)
  | failed (fault : Fault)

structure Response where
  ok : Bool
  error : String
  data : List UInt8
  deriving DecidableEq

inductive CallError
  | deadline (fault : Fault)
  | arguments
  | write (fault : Fault)
  | read (fault : Fault)
  | tooLarge
  | unparsable
  | truncated
  | decode
  | response (error : String)
  | rights (count : ℕ)
  deriving DecidableEq

/-- `errors.Is`. -/
def CallError.wraps : CallError → Fault → Bool
  | deadline f,fault => f = fault
  | write f,fault => f = fault
  | read f,fault => f = fault
  | _,_ => false

/-- What a call returns; the request and everything that was read for it are ghosts. -/
structure Reply where
  request : ℕ
  payload : List Cell
  response : Response
  descriptors : ℕ
  deriving DecidableEq

/-- `json.Unmarshal` of a response line, and of the version in the data of `helper.info`. -/
structure Decoder where
  response : List UInt8 → Option Response
  version : List UInt8 → Option ℕ

def maxResponseSize : ℕ := 2^20

def bufferSize : ℕ := 4096

/-- Reads until there is a newline; without a further answer the deadline passes. -/
def readLoop (outstanding payload : List Cell) (reads : List Read) : List Cell × Except CallError (List Cell) :=
  if newline ∈ payload.map (·.byte) then (outstanding,.ok payload)
  else
    match reads with
    | [] => (outstanding,.error (.read .timeout))
    | .failed fault::_ => (outstanding,.error (.read fault))
    | .chunk n control::reads =>
      let got := outstanding.take (min n bufferSize)
      let left := outstanding.drop (min n bufferSize)
      if maxResponseSize < payload.length+got.length then (left,.error .tooLarge)
      else
        match control with
        | .unparsable => (left,.error .unparsable)
        | .truncated => (left,.error .truncated)
        | .parsed => if got.isEmpty then (left,.error (.read .unexpectedEOF)) else readLoop left (payload++got) reads

variable (decoder : Decoder) (helper : ℕ → Answer)

/-- What is made of the bytes: those after the first newline are left aside. -/
def decodeReply (k : ℕ) (wantFD failOnResponseError : Bool) (payload : List Cell) : Except CallError Reply :=
  let line := (payload.map (·.byte)).takeWhile (· ≠ newline)
  let rights := (payload.map (·.rights)).sum
  match decoder.response line with
  | none => .error .decode
  | some response =>
    if !response.ok && failOnResponseError then
      .error (.response (if response.error = "" then "helper operation failed" else response.error))
    else if rights ≠ wantFD.toNat then .error (.rights rights)
    else .ok ⟨k,payload,response,rights⟩

def receiveDecodedResponse (k : ℕ) (wantFD failOnResponseError : Bool) (connection : Connection) (reads : List Read) :
    Connection × Except CallError Reply :=
  match readLoop connection.outstanding [] reads with
  | (left,.error e) => ({ connection with outstanding := left },.error e)
  | (left,.ok payload) =>
    ({ connection with outstanding := left },decodeReply decoder k wantFD failOnResponseError payload)

/-- The answers of the host and of the helper to one exchange. -/
structure Exchange where
  deadline : Option Fault
  marshals : Bool
  write : Option Fault
  /-- The helper answers the request; otherwise it was not delivered, or the response is lost. -/
  answered : Bool
  /-- The reads for a response that came before the request could be written. -/
  early : List Read
  reads : List Read

/-- `earlyHelperResponse`: what the helper said before it hung up. -/
def earlyHelperResponse (k : ℕ) (connection : Connection) (fault : Fault) (reads : List Read) :
    Connection × Option CallError :=
  if fault ≠ .epipe ∧ fault ≠ .reset then (connection,none)
  else
    match receiveDecodedResponse decoder k false true connection reads with
    | (connection,.ok _) => (connection,none)
    | (connection,.error e) =>
      if e.wraps .timeout || e.wraps .eof || e.wraps .unexpectedEOF || e.wraps .closed then (connection,none)
      else (connection,some e)

/-- The connection after a request, with what the helper will say to it. -/
def Connection.written (connection : Connection) (answered : Bool) (response : List Cell) : Connection :=
  if answered then { connection with outstanding := connection.outstanding++response } else connection

/-- `callLocked` and `exchangeRequest`, which differ in whether a response with an error is one. -/
def exchange (k : ℕ) (wantFD failOnResponseError : Bool) (connection : Connection) (x : Exchange) :
    Connection × Except CallError Reply :=
  if connection.closed then (connection,.error (.deadline .closed))
  else
    match x.deadline with
    | some fault => (connection,.error (.deadline fault))
    | none =>
      if x.marshals = false then (connection,.error .arguments)
      else
        let connection := connection.written x.answered (message k (helper k))
        match x.write with
        | none => receiveDecodedResponse decoder k wantFD failOnResponseError connection x.reads
        | some fault =>
          match earlyHelperResponse decoder k connection fault x.early with
          | (connection,some e) => (connection,.error e)
          | (connection,none) => (connection,.error (.write fault))

structure Client where
  connection : Connection
  /-- The ghost number of the next request. -/
  next : ℕ
  deriving DecidableEq

inductive DialError
  | dial (fault : Fault)
  | handshake (e : CallError)
  | rejected (detail : String)
  | info
  | mismatch (version : ℕ)
  deriving DecidableEq

structure Dial where
  fault : Option Fault
  handshake : Exchange

def protocolVersion : ℕ := 5

/-- `dialHelper` with the handshake: the new connection, or none. -/
def dialHelper (k : ℕ) (d : Dial) : Except DialError Connection :=
  match d.fault with
  | some fault => .error (.dial fault)
  | none =>
    match exchange decoder helper k false false ⟨false,[]⟩ d.handshake with
    | (_,.error e) => .error (.handshake e)
    | (connection,.ok reply) =>
      if !reply.response.ok then
        .error (.rejected (if reply.response.error = "" then "helper rejected the version handshake" else reply.response.error))
      else
        match decoder.version reply.response.data with
        | none => .error .info
        | some version => if version ≠ protocolVersion then .error (.mismatch version) else .ok connection

def connect (d : Dial) : Except DialError Client :=
  match dialHelper decoder helper 0 d with
  | .error e => .error e
  | .ok connection => .ok ⟨connection,1⟩

def safeRetryOperation (op : String) : Bool :=
  op ∈ ["helper.info","ping","net.sync","net.detach","net.teardown","dns.install","dns.uninstall","dns.syncDomains",
    "dns.register","dns.unregister","forwarding.enable","bgp.enable","bgp.disable"]

def shouldReconnect (op : String) (e : CallError) : Bool :=
  safeRetryOperation op &&
    (e.wraps .epipe || e.wraps .reset || e.wraps .eof || e.wraps .unexpectedEOF || e.wraps .closed)

/-- A call, with the answers to its first attempt, to the reconnect and to the second attempt. -/
structure Call where
  op : String
  wantFD : Bool
  first : Exchange
  dial : Dial
  second : Exchange

inductive Failure
  | call (e : CallError)
  | joined (e : CallError) (reconnect : DialError)
  deriving DecidableEq

/-- The old connection is closed before the new one is dialled, and stays in place if that fails. -/
def call (c : Client) (x : Call) : Client × Except Failure Reply :=
  match exchange decoder helper c.next x.wantFD true c.connection x.first with
  | (connection,.ok reply) => (⟨connection,c.next+1⟩,.ok reply)
  | (connection,.error e) =>
    if shouldReconnect x.op e = false then (⟨connection,c.next+1⟩,.error (.call e))
    else
      match dialHelper decoder helper (c.next+1) x.dial with
      | .error e' => (⟨{ connection with closed := true },c.next+2⟩,.error (.joined e e'))
      | .ok connection =>
        match exchange decoder helper (c.next+2) x.wantFD true connection x.second with
        | (connection,.ok reply) => (⟨connection,c.next+3⟩,.ok reply)
        | (connection,.error e) => (⟨connection,c.next+3⟩,.error (.call e))

def run (c : Client) (calls : List Call) : Client := calls.foldl (fun c x => (call decoder helper c x).1) c

theorem readLoop_suffix (outstanding payload : List Cell) (reads : List Read) :
    (readLoop outstanding payload reads).1 <:+ outstanding := by
  induction reads generalizing outstanding payload with
  | nil =>
    unfold readLoop
    split <;> exact suffix_rfl
  | cons r reads ih =>
    unfold readLoop
    split
    · exact suffix_rfl
    cases r with
    | failed fault => exact suffix_rfl
    | chunk n control =>
      simp only
      split
      · exact drop_suffix _ _
      cases control with
      | unparsable => exact drop_suffix _ _
      | truncated => exact drop_suffix _ _
      | parsed =>
        simp only
        split
        · exact drop_suffix _ _
        · exact (ih _ _).trans (drop_suffix _ _)

variable {left payload : List Cell}

/-- What was read and what is left is what was there, and a newline was read. -/
theorem readLoop_eq_ok {outstanding payload' : List Cell} {reads : List Read}
    (h : readLoop outstanding payload reads = (left,.ok payload')) :
    payload' ++ left = payload++outstanding ∧ newline ∈ payload'.map (·.byte) := by
  induction reads generalizing outstanding payload with
  | nil =>
    unfold readLoop at h
    split at h
    · rename_i hnl
      cases h
      exact ⟨rfl,hnl⟩
    · cases h
  | cons r reads ih =>
    unfold readLoop at h
    split at h
    · rename_i hnl
      cases h
      exact ⟨rfl,hnl⟩
    cases r with
    | failed fault => cases h
    | chunk n control =>
      simp only at h
      split at h
      · cases h
      cases control with
      | unparsable => cases h
      | truncated => cases h
      | parsed =>
        simp only at h
        split at h
        · cases h
        · obtain ⟨heq,hnl⟩ := ih h
          refine ⟨?_,hnl⟩
          rw [heq,append_assoc,take_append_drop]

theorem cells_bytes (k : ℕ) (bs : List UInt8) (rights : ℕ) : (cells k bs rights).map (·.byte) = bs := by
  induction bs generalizing rights with
  | nil => rfl
  | cons b bs ih => simp [cells,ih]

variable {k : ℕ}

theorem cells_request {bs : List UInt8} {rights : ℕ} {c : Cell} (h : c ∈ cells k bs rights) : c.request = k := by
  induction bs generalizing rights with
  | nil => cases h
  | cons b bs ih =>
    rcases mem_cons.1 h with rfl | h
    · rfl
    · exact ih h

@[simp] lemma message_bytes (k : ℕ) (a : Answer) : (message k a).map (·.byte) = a.line++[newline] := cells_bytes ..

lemma message_request {a : Answer} {c : Cell} (h : c ∈ message k a) : c.request = k := cells_request h

theorem eq_message_of_append {a : Answer} (h : payload++left = message k a)
    (hnl : newline ∈ payload.map (·.byte)) : payload = message k a ∧ left = [] := by
  have hbs := congrArg (map (·.byte)) h
  rw [map_append,message_bytes] at hbs
  have hle : left = [] := by
    by_contra hne
    obtain ⟨init,b,hb⟩ := eq_nil_or_concat' (left.map (·.byte)) |>.resolve_left (by simpa using hne)
    rw [hb,← append_assoc] at hbs
    have hln := (append_inj' hbs rfl).1
    exact a.plain (hln ▸ mem_append_left _ hnl)
  subst hle
  exact ⟨by simpa using h,rfl⟩

theorem message_line (k : ℕ) (a : Answer) : ((message k a).map (·.byte)).takeWhile (· ≠ newline) = a.line := by
  rw [message_bytes,takeWhile_append_of_pos]
  · simp
  · intro b hb
    have hne : b ≠ newline := by
      rintro rfl
      exact a.plain hb
    simpa using hne

variable {decoder helper} {reply : Reply}

theorem decodeReply_eq_ok {wantFD fail : Bool}
    (h : decodeReply decoder k wantFD fail payload = .ok reply) :
    reply.request = k ∧ reply.payload = payload ∧
      decoder.response ((payload.map (·.byte)).takeWhile (· ≠ newline)) = some reply.response := by
  unfold decodeReply at h
  simp only at h
  split at h
  · cases h
  rename_i resp hrsp
  split at h
  · cases h
  split at h
  · cases h
  cases h
  exact ⟨rfl,rfl,hrsp⟩

variable (decoder) in
theorem receive_suffix (k : ℕ) (wantFD fail : Bool) (connection : Connection) (reads : List Read) :
    (receiveDecodedResponse decoder k wantFD fail connection reads).1.outstanding <:+ connection.outstanding := by
  have hsuf := readLoop_suffix connection.outstanding [] reads
  unfold receiveDecodedResponse
  split <;> rename_i hrd <;> rwa [hrd] at hsuf

variable (decoder) in
theorem early_suffix (k : ℕ) (connection : Connection) (fault : Fault) (reads : List Read) :
    (earlyHelperResponse decoder k connection fault reads).1.outstanding <:+ connection.outstanding := by
  have hsuf := receive_suffix decoder k false true connection reads
  unfold earlyHelperResponse
  split
  · exact suffix_rfl
  split
  · rename_i hrece
    rwa [hrece] at hsuf
  · rename_i hrece
    rw [hrece] at hsuf
    split <;> exact hsuf

theorem outstanding_written (connection : Connection) (answered : Bool) (resp : List Cell) :
    (connection.written answered resp).outstanding =
      connection.outstanding++if answered then resp else [] := by
  cases answered <;> simp [Connection.written]

/-- Everything outstanding answers a request before this one. -/
def Dated (connection : Connection) (k : ℕ) : Prop := ∀ c ∈ connection.outstanding, c.request < k

variable {connection : Connection}

lemma Dated.suffix {connection' : Connection} (h : Dated connection k)
    (hsuf : connection'.outstanding <:+ connection.outstanding) : Dated connection' k :=
  fun c hc => h c (hsuf.subset hc)

lemma Dated.mono {l : ℕ} (h : Dated connection k) (hkl : k ≤ l) : Dated connection l :=
  fun c hc => (h c hc).trans_le hkl

variable (decoder helper) in
theorem Dated.exchange (h : Dated connection k) (wantFD fail : Bool) (x : Exchange) :
    Dated (exchange decoder helper k wantFD fail connection x).1 (k+1) := by
  unfold HelperClient.exchange
  split
  · exact h.mono (Nat.le_succ k)
  split
  · exact h.mono (Nat.le_succ k)
  split
  · exact h.mono (Nat.le_succ k)
  have hwrit : Dated (connection.written x.answered (message k (helper k))) (k+1) := by
    intro c hc
    rw [outstanding_written,mem_append] at hc
    rcases hc with hc | hc
    · exact (h c hc).trans (Nat.lt_succ_self k)
    · have hmsg : c ∈ message k (helper k) := by
        split at hc
        · exact hc
        · cases hc
      exact (message_request hmsg).symm ▸ Nat.lt_succ_self k
  simp only
  generalize connection.written x.answered (message k (helper k)) = written at hwrit
  split
  · exact hwrit.suffix (receive_suffix ..)
  · rename_i fault _
    have hsuf := early_suffix decoder k written fault x.early
    split <;> rename_i hearly <;> rw [hearly] at hsuf <;> exact hwrit.suffix hsuf

/-- A payload with a newline is the new response exactly if nothing was outstanding. -/
theorem Dated.payload_eq_iff (h : Dated connection k) {answered : Bool} {a : Answer} (hstm : payload++left = (connection.written answered (message k a)).outstanding)
    (hnl : newline ∈ payload.map (·.byte)) :
    (payload = message k a ↔ connection.outstanding = []) ∧ (connection.outstanding = [] → left = []) := by
  rw [outstanding_written] at hstm
  cases hout : connection.outstanding with
  | nil =>
    have hmsg : payload++left = message k a := by
      rw [hout,nil_append] at hstm
      split at hstm
      · exact hstm
      · obtain ⟨hnil,-⟩ := append_eq_nil_iff.1 hstm
        simp [hnil] at hnl
    obtain ⟨hpayl,hle⟩ := eq_message_of_append hmsg hnl
    exact ⟨⟨fun _ => rfl,fun _ => hpayl⟩,fun _ => hle⟩
  | cons c rest =>
    rw [hout,cons_append] at hstm
    -- the first byte answers an earlier request
    have hc : c ∈ payload := by
      cases payload with
      | nil => cases hnl
      | cons c' payload =>
        rw [cons_append,cons.injEq] at hstm
        simp [hstm.1]
    refine ⟨⟨fun hpayl => ?_,fun hnil => by cases hnil⟩,fun hnil => by cases hnil⟩
    have hbef := h c (by simp [hout])
    rw [message_request (hpayl ▸ hc)] at hbef
    exact absurd hbef (lt_irrefl k)

/-- An exchange that returns a response has read its own alone exactly if nothing was outstanding,
and then nothing is afterwards. -/
theorem exchange_eq_ok {connection' : Connection} (hdated : Dated connection k) {wantFD fail : Bool}
    {x : Exchange}
    (h : exchange decoder helper k wantFD fail connection x = (connection',.ok reply)) :
    reply.request = k ∧
      decoder.response ((reply.payload.map (·.byte)).takeWhile (· ≠ newline)) = some reply.response ∧
      (reply.payload = message k (helper k) ↔ connection.outstanding = []) ∧
      (connection.outstanding = [] → connection'.outstanding = []) := by
  unfold exchange at h
  split at h
  · cases h
  split at h
  · cases h
  split at h
  · cases h
  simp only at h
  split at h
  · unfold receiveDecodedResponse at h
    split at h
    · cases h
    rename_i left payload hrd
    obtain ⟨rfl,hrpl⟩ := Prod.mk.inj h
    obtain ⟨hreq,rfl,hrsp⟩ := decodeReply_eq_ok hrpl
    obtain ⟨hstm,hnl⟩ := readLoop_eq_ok hrd
    exact ⟨hreq,hrsp,hdated.payload_eq_iff hstm hnl⟩
  · split at h <;> cases h

theorem dialHelper_eq_ok {d : Dial} (h : dialHelper decoder helper k d = .ok connection) :
    connection.outstanding = [] := by
  unfold dialHelper at h
  split at h
  · cases h
  split at h
  · cases h
  rename_i connection' reply hexch
  obtain ⟨-,-,-,hnil⟩ := exchange_eq_ok (by simp [Dated]) hexch
  split at h
  · cases h
  split at h
  · cases h
  split at h
  · cases h
  cases h
  exact hnil rfl

/-- The response of the helper to the request that the call made, read alone and to its end. -/
def Own (decoder : Decoder) (helper : ℕ → Answer) (reply : Reply) : Prop :=
  reply.payload = message reply.request (helper reply.request) ∧
    decoder.response (helper reply.request).line = some reply.response

/-- The call got no response on the connection it found. -/
def Retried (decoder : Decoder) (helper : ℕ → Answer) (c : Client) (x : Call) : Prop :=
  ∃ e, (exchange decoder helper c.next x.wantFD true c.connection x.first).2 = .error e

variable {c : Client} {x : Call}

theorem own_iff_payload (hreq : reply.request = k)
    (hrsp : decoder.response ((reply.payload.map (·.byte)).takeWhile (· ≠ newline)) = some reply.response) :
    Own decoder helper reply ↔ reply.payload = message k (helper k) := by
  subst hreq
  refine and_iff_left_of_imp fun hpayl => ?_
  rwa [hpayl,message_line] at hrsp

/-- A call returns its own response exactly if nothing was outstanding or the connection was new. -/
theorem call_eq_ok (hdated : Dated c.connection c.next)
    (h : (call decoder helper c x).2 = .ok reply) :
    Own decoder helper reply ↔ c.connection.outstanding = [] ∨ Retried decoder helper c x := by
  unfold call at h
  split at h
  · rename_i connection reply' hexch
    cases h
    obtain ⟨hreq,hrsp,hown,-⟩ := exchange_eq_ok hdated hexch
    have hnot : ¬Retried decoder helper c x := by
      rintro ⟨e,he⟩
      rw [hexch] at he
      cases he
    rw [own_iff_payload hreq hrsp,hown,or_iff_left hnot]
  · rename_i connection e hexch
    have hretr : Retried decoder helper c x := ⟨e,by rw [hexch]⟩
    refine iff_of_true ?_ (.inr hretr)
    split at h
    · cases h
    split at h
    · cases h
    rename_i connection' hdial
    have hnil := dialHelper_eq_ok hdial
    split at h
    · rename_i connection'' reply' hexch'
      cases h
      obtain ⟨hreq,hrsp,hown,-⟩ := exchange_eq_ok (by simp [Dated,hnil]) hexch'
      exact (own_iff_payload hreq hrsp).2 (hown.2 hnil)
    · cases h

variable (decoder helper) in
theorem Dated.call (hdated : Dated c.connection c.next) (x : Call) :
    Dated (call decoder helper c x).1.connection (call decoder helper c x).1.next := by
  have hfst := hdated.exchange decoder helper x.wantFD true x.first
  unfold HelperClient.call
  split
  · rename_i hexch
    rwa [hexch] at hfst
  · rename_i hexch
    rw [hexch] at hfst
    split
    · exact hfst
    split
    · exact hfst.mono (Nat.le_succ _)
    · rename_i connection hdial
      have hnil : Dated connection (c.next+2) := by simp [Dated,dialHelper_eq_ok hdial]
      have hsec := hnil.exchange decoder helper x.wantFD true x.second
      split <;> rename_i hexch' <;> rwa [hexch'] at hsec

variable (decoder helper) in
theorem Dated.run (hdated : Dated c.connection c.next) (calls : List Call) :
    Dated (run decoder helper c calls).connection (run decoder helper c calls).next := by
  induction calls generalizing c with
  | nil => exact hdated
  | cons x calls ih => exact ih (hdated.call decoder helper x)

theorem connect_eq_ok {d : Dial} (h : connect decoder helper d = .ok c) : c.connection.outstanding = [] := by
  unfold connect at h
  split at h
  · cases h
  · rename_i connection hdial
    cases h
    exact dialHelper_eq_ok hdial

lemma dated_connect {d : Dial} (h : connect decoder helper d = .ok c) : Dated c.connection c.next := by
  simp [Dated,connect_eq_ok h]

/-- In a run every returned response is the call's own exactly if no answered call found something
outstanding on its connection. -/
theorem every_response_own_iff (decoder : Decoder) (helper : ℕ → Answer) (d : Dial) (c : Client)
    (hconn : connect decoder helper d = .ok c) (calls : List Call) :
    (∀ before x after reply, calls = before ++ x :: after →
      (call decoder helper (run decoder helper c before) x).2 = .ok reply → Own decoder helper reply) ↔
    ∀ before x after reply, calls = before ++ x :: after →
      (call decoder helper (run decoder helper c before) x).2 = .ok reply →
        (run decoder helper c before).connection.outstanding = [] ∨
          Retried decoder helper (run decoder helper c before) x := by
  refine forall₄_congr fun before x after reply => forall_congr' fun _ => forall_congr' fun hok => ?_
  exact call_eq_ok ((dated_connect hconn).run decoder helper before) hok

def letters : ℕ → Answer
  | 0 => ⟨[53],by decide,0⟩
  | 1 => ⟨[97],by decide,0⟩
  | _ => ⟨[98],by decide,0⟩

def plainDecoder : Decoder where
  response line := some ⟨true,"",line⟩
  version data := if data = [53] then some 5 else none

/-- The request is written and what is outstanding is read. -/
def prompt : Exchange := ⟨none,true,none,true,[],[.chunk 4096 .parsed]⟩

/-- The request is written, and the deadline passes before the answer comes. -/
def late : Exchange := { prompt with reads := [] }

def connected : Client := ⟨⟨false,[]⟩,1⟩

def register (x : Exchange) : Call := ⟨"dns.register",false,x,⟨none,prompt⟩,prompt⟩

lemma connect_connected : connect plainDecoder letters ⟨none,prompt⟩ = .ok connected := by decide

theorem prompt_responses_own :
    ∃ first second, (call plainDecoder letters connected (register prompt)).2 = .ok first ∧
      (call plainDecoder letters (run plainDecoder letters connected [register prompt]) (register prompt)).2 = .ok second ∧
      Own plainDecoder letters first ∧ Own plainDecoder letters second := by
  have hown := (every_response_own_iff plainDecoder letters ⟨none,prompt⟩ connected connect_connected
    [register prompt,register prompt]).mpr ?_
  · have hfst : (call plainDecoder letters connected (register prompt)).2 =
        .ok ⟨1,message 1 (letters 1),⟨true,"",[97]⟩,0⟩ := by decide +kernel
    have hsec : (call plainDecoder letters (run plainDecoder letters connected [register prompt]) (register prompt)).2 =
        .ok ⟨2,message 2 (letters 2),⟨true,"",[98]⟩,0⟩ := by decide +kernel
    exact ⟨_,_,hfst,hsec,hown [] _ [register prompt] _ rfl hfst,hown [register prompt] _ [] _ rfl hsec⟩
  · intro before x after reply heq _
    left
    match before with
    | [] => rfl
    | [y] =>
      obtain rfl : register prompt = y := (List.cons.inj heq).1
      decide +kernel
    | _ :: _ :: _ => simp at heq

/-- The late answer to the first request is returned for the second one. -/
theorem late_response_returned :
    (call plainDecoder letters connected (register late)).2 = .error (.call (.read .timeout)) ∧
      (call plainDecoder letters (run plainDecoder letters connected [register late]) (register prompt)).2 =
        .ok ⟨2,message 1 (letters 1) ++ message 2 (letters 2),⟨true,"",[97]⟩,0⟩ ∧
      (run plainDecoder letters connected [register late,register prompt]).connection.outstanding = [] ∧
      ¬Own plainDecoder letters ⟨2,message 1 (letters 1) ++ message 2 (letters 2),⟨true,"",[97]⟩,0⟩ := by
  refine ⟨by decide +kernel,by decide +kernel,by decide +kernel,?_⟩
  rintro ⟨hpayl,-⟩
  revert hpayl
  decide +kernel

end TalosBox.HelperClient
