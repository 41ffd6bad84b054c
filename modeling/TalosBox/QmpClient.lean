import TalosBox.Cutting
import TalosBox.StepRuns

/-! The QMP client. A command writes its request and reads lines until one has its id. Lines come
through a buffered reader; what is buffered when a read fails is returned with the error and gone.
-/
namespace TalosBox.QmpClient

open Cutting StepRuns List

def maxQMPFrame : ℕ := 2^20

def newline : UInt8 := 10

structure QMPError where
  errorClass : String
  desc : String
  deriving DecidableEq

structure Message where
  /-- There is a greeting. -/
  greeting : Bool
  event : String
  result : List UInt8
  error : Option QMPError
  id : Option ℕ
  deriving DecidableEq

/-- `json.Unmarshal` of a line. -/
abbrev Decoder := List UInt8 → Option Message

inductive Fault
  | timeout
  | eof
  | other
  deriving DecidableEq

/-- What a command can find wrong with what it reads. -/
inductive Misread
  | tooLarge
  | malformed
  | missingId
  | unexpectedId (id : ℕ)
  deriving DecidableEq

/-- How a command ends. -/
inductive Outcome
  | returned (m : Message)
  /-- The reply is an error, or not of the type that the caller expects. -/
  | refused (e : QMPError)
  | undecodable
  | unarmed
  | unsent
  | read (f : Fault)
  | misread (e : Misread)
  deriving DecidableEq

structure Client where
  /-- What the reader has and what is on its way from the peer. -/
  buffer : List UInt8
  incoming : List UInt8
  nextID : ℕ
  /-- The command that reads. -/
  waiting : Option ℕ
  /-- The outcomes, and the beginning of the next line that failed reads dropped. No step reads
  them. -/
  outcomes : List (ℕ × Outcome)
  dropped : List UInt8
  deriving DecidableEq

/-- The client behind the handshake's greeting. -/
def Client.start : Client := ⟨[],[],0,none,[],[]⟩

def Client.finish (s : Client) (id : ℕ) (o : Outcome) : Client :=
  { s with waiting := none, outcomes := s.outcomes++[(id,o)] }

inductive Verdict
  | skip
  | ends (o : Outcome)
  deriving DecidableEq

/-- A reply to the command; `fits` is whether the caller can decode the result. -/
def Message.outcome (m : Message) (fits : Bool) : Outcome :=
  match m.error with
  | some e => .refused e
  | none => if fits then .returned m else .undecodable

def Message.verdict (m : Message) (id : ℕ) (fits : Bool) : Verdict :=
  if m.event ≠ "" then .skip
  else
    match m.id with
    | none => if m.greeting then .skip else .ends (.misread .missingId)
    | some k =>
      if k < id then .skip
      else if id < k then .ends (.misread (.unexpectedId k))
      else .ends (m.outcome fits)

/-- What a command makes of a line. -/
def judge (decode : Decoder) (id : ℕ) (fits : Bool) (line : List UInt8) : Verdict :=
  if maxQMPFrame < line.length then .ends (.misread .tooLarge)
  else
    match decode line with
    | none => .ends (.misread .malformed)
    | some m => m.verdict id fits

inductive Move
  /-- The peer sends. -/
  | send (bytes : List UInt8)
  /-- `execute` up to its first read: the deadline is set and the request is written, or not. -/
  | execute (arms writes : Bool)
  | arrive (n : ℕ)
  | fault (f : Fault)
  | overflow
  /-- A line is in the buffer. -/
  | take (fits : Bool)

variable (decode : Decoder)

/-- At the end of the connection the unfinished line is decoded before the error is returned. -/
def faultOutcome (buffer : List UInt8) : Fault → Outcome
  | .eof => if buffer ≠ [] ∧ decode buffer = none then .misread .malformed else .read .eof
  | f => .read f

def step (s : Client) : Move → Option Client
  | .send bytes => some { s with incoming := s.incoming++bytes }
  | .execute arms writes =>
    match s.waiting with
    | some _ => none
    | none =>
      let id := s.nextID + 1
      let s := { s with nextID := id }
      if arms = false then some (s.finish id .unarmed)
      else if writes = false then some (s.finish id .unsent)
      else some { s with waiting := some id }
  | .arrive n =>
    match s.waiting,cut newline s.buffer with
    | some _,none =>
      if 0 < n ∧ n ≤ s.incoming.length ∧ s.buffer.length + n ≤ maxQMPFrame + 1 then
        some { s with buffer := s.buffer++s.incoming.take n, incoming := s.incoming.drop n }
      else none
    | _,_ => none
  | .fault f =>
    match s.waiting,cut newline s.buffer with
    | some id,none =>
      if s.buffer.length ≤ maxQMPFrame then
        some { s.finish id (faultOutcome decode s.buffer f) with buffer := [], dropped := s.dropped++s.buffer }
      else none
    | _,_ => none
  | .overflow =>
    match s.waiting,cut newline s.buffer with
    | some id,none =>
      if s.buffer.length ≤ maxQMPFrame then none
      else some { s.finish id (.misread .tooLarge) with buffer := [], dropped := s.dropped++s.buffer }
    | _,_ => none
  | .take fits =>
    match s.waiting,cut newline s.buffer with
    | some id,some (front,rest) =>
      let s := { s with buffer := rest, dropped := [] }
      match judge decode id fits (front++[newline]) with
      | .skip => some s
      | .ends o => some (s.finish id o)
    | _,_ => none

/-- An event, a greeting, or a reply to one of the commands so far. -/
def Message.Due (m : Message) (n : ℕ) : Prop :=
  m.event ≠ "" ∨ (m.id = none ∧ m.greeting) ∨ ∃ k ≤ n, m.id = some k

structure WellFormed (n : ℕ) (line : List UInt8) : Prop where
  whole : Line newline line
  fits : line.length ≤ maxQMPFrame
  due : ∃ m, decode line = some m ∧ m.Due n

/-- What the peer sends are whole messages. -/
def SendsMessages (s : Client) : Move → Prop
  | .send bytes => WellFormed decode s.nextID bytes
  | _ => True

/-- Every result is the reply with the command's own id. -/
def OwnReplies (s : Client) : Prop := ∀ id m, (id,.returned m) ∈ s.outcomes → m.id = some id

/-- No command has failed over what it has read. -/
def Unfailed (s : Client) : Prop := ∀ id e, (id,.misread e) ∉ s.outcomes

/-- The line taken is whole or the command can do with its rest, and the end leaves no malformed
part. -/
def Harmless (s : Client) : Move → Prop
  | .take fits => s.dropped = [] ∨ ∀ id front rest e, s.waiting = some id → cut newline s.buffer = some (front,rest) →
    judge decode id fits (front++[newline]) ≠ .ends (.misread e)
  | .fault .eof => s.buffer = [] ∨ decode s.buffer ≠ none
  | _ => True

/-- Reads fail between the messages. -/
def Between (s : Client) : Move → Prop
  | .fault _ => s.buffer = []
  | _ => True

variable {decode}

theorem WellFormed.mono {n n' : ℕ} (hn : n ≤ n') {line : List UInt8} (h : WellFormed decode n line) :
    WellFormed decode n' line := by
  obtain ⟨m,hm,hdue⟩ := h.due
  refine ⟨h.whole,h.fits,m,hm,hdue.imp_right (Or.imp_right ?_)⟩
  rintro ⟨k,hk,hid⟩
  exact ⟨k,hk.trans hn,hid⟩

theorem Message.outcome_returned {m m' : Message} {fits : Bool} (h : m.outcome fits = .returned m') : m' = m := by
  unfold Message.outcome at h
  split at h
  · cases h
  · split_ifs at h
    cases h
    rfl

theorem Message.outcome_ne_misread (m : Message) (fits : Bool) (e : Misread) : m.outcome fits ≠ .misread e := by
  unfold Message.outcome
  split
  · simp
  · split_ifs <;> simp

theorem judge_returned {id : ℕ} {fits : Bool} {line : List UInt8} {m : Message}
    (h : judge decode id fits line = .ends (.returned m)) : m.id = some id := by
  unfold judge at h
  split_ifs at h
  · cases h
  cases hdecode : decode line with
  | none => simp [hdecode] at h
  | some m' =>
    simp only [hdecode,Message.verdict] at h
    cases hid : m'.id with
    | none =>
      simp only [hid] at h
      split_ifs at h
      cases h
    | some k =>
      simp only [hid] at h
      split_ifs at h with hevent hlt hgt
      · cases h
      · rw [Message.outcome_returned (Verdict.ends.inj h),hid,Nat.le_antisymm (not_lt.1 hgt) (not_lt.1 hlt)]

/-- A whole message is never misread. -/
theorem judge_wellFormed {id : ℕ} {line : List UInt8} (h : WellFormed decode id line) (fits : Bool) (e : Misread) :
    judge decode id fits line ≠ .ends (.misread e) := by
  obtain ⟨m,hm,hdue⟩ := h.due
  simp only [judge,if_neg (not_lt.2 h.fits),hm,Message.verdict]
  rcases hdue with hevent | ⟨hid,hgree⟩ | ⟨k,hk,hid⟩
  · simp [hevent]
  · simp [hid,hgree]
  · simp only [hid]
    split_ifs with hevent hlt hgt
    · simp
    · simp
    · exact absurd hk (not_le.2 hgt)
    · intro heq
      exact m.outcome_ne_misread fits e (Verdict.ends.inj heq)

inductive Turn (decode : Decoder) (s : Client) : Move → Client → Prop
  | send (bytes : List UInt8) : Turn decode s (.send bytes) { s with incoming := s.incoming++bytes }
  | refuse {arms writes : Bool} {o : Outcome} (ho : o = .unarmed ∨ o = .unsent) :
      Turn decode s (.execute arms writes) ({ s with nextID := s.nextID + 1 }.finish (s.nextID + 1) o)
  | begin {arms writes : Bool} :
      Turn decode s (.execute arms writes) { s with nextID := s.nextID + 1, waiting := some (s.nextID + 1) }
  | arrive {n : ℕ} :
      Turn decode s (.arrive n) { s with buffer := s.buffer++s.incoming.take n, incoming := s.incoming.drop n }
  | fault {f : Fault} {id : ℕ} (hbuf : newline ∉ s.buffer) :
      Turn decode s (.fault f)
        { s.finish id (faultOutcome decode s.buffer f) with buffer := [], dropped := s.dropped++s.buffer }
  | overflow {id : ℕ} (hbuf : newline ∉ s.buffer) (hfull : maxQMPFrame < s.buffer.length) :
      Turn decode s .overflow
        { s.finish id (.misread .tooLarge) with buffer := [], dropped := s.dropped++s.buffer }
  | skip {fits : Bool} {id : ℕ} {front rest : List UInt8} (hwtg : s.waiting = some id)
      (hcut : cut newline s.buffer = some (front,rest)) (hsk : judge decode id fits (front++[newline]) = .skip) :
      Turn decode s (.take fits) { s with buffer := rest, dropped := [] }
  | ends {fits : Bool} {id : ℕ} {front rest : List UInt8} {o : Outcome} (hwtg : s.waiting = some id)
      (hcut : cut newline s.buffer = some (front,rest)) (hen : judge decode id fits (front++[newline]) = .ends o) :
      Turn decode s (.take fits) ({ s with buffer := rest, dropped := [] }.finish id o)

variable {s s' : Client} {m : Move}

theorem step_turn (h : step decode s m = some s') : Turn decode s m s' := by
  cases m with
  | send bytes =>
    cases h
    exact .send bytes
  | execute arms writes =>
    simp only [step] at h
    split at h
    · cases h
    · split_ifs at h
      · cases h
        exact .refuse (.inl rfl)
      · cases h
        exact .refuse (.inr rfl)
      · cases h
        exact .begin
  | arrive n =>
    simp only [step] at h
    split at h
    · split_ifs at h
      cases h
      exact .arrive
    · cases h
  | fault f =>
    simp only [step] at h
    split at h
    · rename_i hcut
      split_ifs at h
      cases h
      exact .fault (cut_eq_none.1 hcut)
    · cases h
  | overflow =>
    simp only [step] at h
    split at h
    · rename_i hcut
      split_ifs at h with hroom
      cases h
      exact .overflow (cut_eq_none.1 hcut) (not_le.1 hroom)
    · cases h
  | take fits =>
    simp only [step] at h
    split at h
    · rename_i hwtg hcut
      split at h
      · rename_i hsk
        cases h
        exact .skip hwtg hcut hsk
      · rename_i hen
        cases h
        exact .ends hwtg hcut hen
    · cases h

theorem ownReplies_finish (h : OwnReplies s) {id : ℕ} {o : Outcome}
    (ho : ∀ m, o = .returned m → m.id = some id) : OwnReplies (s.finish id o) := by
  intro id' m hm
  rcases mem_append.1 hm with hold | hnew
  · exact h id' m hold
  · obtain ⟨rfl,heq⟩ := Prod.mk.inj (mem_singleton.1 hnew)
    exact ho m heq.symm

theorem unfailed_finish (h : Unfailed s) {id : ℕ} {o : Outcome} :
    Unfailed (s.finish id o) ↔ ∀ e, o ≠ .misread e := by
  constructor
  · intro hall e heq
    exact hall id e (by simp [Client.finish,heq])
  · intro ho id' e hmem
    rcases mem_append.1 hmem with hold | hnew
    · exact h id' e hold
    · exact ho e (Prod.mk.inj (mem_singleton.1 hnew)).2.symm

theorem faultOutcome_ne_returned (buffer : List UInt8) (f : Fault) (m : Message) :
    faultOutcome decode buffer f ≠ .returned m := by
  cases f with
  | eof =>
    unfold faultOutcome
    split_ifs <;> simp
  | timeout => simp [faultOutcome]
  | other => simp [faultOutcome]

theorem OwnReplies.step (h : OwnReplies s) (hst : step decode s m = some s') :
    OwnReplies s' := by
  cases step_turn hst with
  | send | begin | arrive | skip => exact h
  | refuse ho =>
    refine ownReplies_finish h fun m hm => ?_
    rcases ho with rfl | rfl <;> cases hm
  | fault => exact ownReplies_finish h fun m hm => absurd hm (faultOutcome_ne_returned _ _ m)
  | overflow => exact ownReplies_finish h fun m hm => by cases hm
  | @ends fits id front rest o hwtg hcut hen =>
    refine ownReplies_finish h fun m hm => ?_
    rw [hm] at hen
    exact judge_returned hen

/-- Messages one behind the other. -/
def Messages (decode : Decoder) (n : ℕ) (bytes : List UInt8) : Prop :=
  ∃ lines : List (List UInt8), bytes = lines.flatten ∧ ∀ l ∈ lines, WellFormed decode n l

/-- With what was dropped, the buffer and the incoming bytes are messages. -/
structure Framed (decode : Decoder) (s : Client) : Prop where
  messages : Messages decode s.nextID (s.dropped++s.buffer++s.incoming)
  dropped : newline ∉ s.dropped
  waiting : ∀ id, s.waiting = some id → id = s.nextID

theorem Framed.cut (h : Framed decode s) {front rest : List UInt8}
    (hcut : cut newline s.buffer = some (front,rest)) :
    WellFormed decode s.nextID (s.dropped++front++[newline]) ∧
      Messages decode s.nextID (rest++s.incoming) := by
  obtain ⟨lines,hlns,hall⟩ := h.messages
  obtain ⟨hbuf,hfrt⟩ := cut_eq_some.1 hcut
  have hstm : (s.dropped++front)++newline::(rest++s.incoming) = lines.flatten := by
    rw [← hlns,hbuf]
    simp
  have hpl : newline ∉ s.dropped++front := by
    rw [mem_append]
    exact fun hmem => hmem.elim h.dropped hfrt
  obtain ⟨later,rfl,hrs⟩ := lines_of_flatten (fun l hl => (hall l hl).whole) hpl hstm
  exact ⟨hall _ (by simp),later,hrs,fun l hl => hall l (by simp [hl])⟩

theorem Framed.step (h : Framed decode s) (hm : SendsMessages decode s m)
    (hst : step decode s m = some s') : Framed decode s' := by
  obtain ⟨lines,hlns,hall⟩ := h.messages
  have hlat : ∀ l ∈ lines, WellFormed decode (s.nextID + 1) l := fun l hl => (hall l hl).mono (Nat.le_succ _)
  cases step_turn hst with
  | send bytes =>
    refine ⟨⟨lines++[bytes],?_,fun l hl => ?_⟩,h.dropped,h.waiting⟩
    · rw [flatten_append,← hlns]
      simp
    · rcases mem_append.1 hl with hl | hl
      · exact hall l hl
      · obtain rfl := mem_singleton.1 hl
        exact hm
  | refuse => exact ⟨⟨lines,hlns,hlat⟩,h.dropped,fun id hid => by cases hid⟩
  | begin => exact ⟨⟨lines,hlns,hlat⟩,h.dropped,fun id hid => (Option.some.inj hid).symm⟩
  | @arrive n =>
    refine ⟨⟨lines,?_,hall⟩,h.dropped,h.waiting⟩
    rw [← hlns]
    simp
  | fault hbuf =>
    refine ⟨⟨lines,?_,hall⟩,?_,fun id hid => by cases hid⟩
    · rw [← hlns]
      simp [Client.finish]
    · simpa using ⟨h.dropped,hbuf⟩
  | overflow hbuf =>
    refine ⟨⟨lines,?_,hall⟩,?_,fun id hid => by cases hid⟩
    · rw [← hlns]
      simp [Client.finish]
    · simpa using ⟨h.dropped,hbuf⟩
  | skip _ hcut => exact ⟨(h.cut hcut).2,not_mem_nil,h.waiting⟩
  | ends _ hcut => exact ⟨(h.cut hcut).2,not_mem_nil,fun id hid => by cases hid⟩

theorem Framed.room (h : Framed decode s) (hbuf : newline ∉ s.buffer) :
    s.buffer.length ≤ maxQMPFrame := by
  obtain ⟨lines,hlns,hall⟩ := h.messages
  by_cases hemp : s.dropped++s.buffer = []
  · simp [(append_eq_nil_iff.1 hemp).2]
  · have hpl : newline ∉ s.dropped++s.buffer := by
      rw [mem_append]
      exact fun hmem => hmem.elim h.dropped hbuf
    obtain ⟨l,hl,hlt⟩ := lt_of_flatten (fun l hl => (hall l hl).whole) hpl hemp hlns
    have hfits := (hall l hl).fits
    rw [length_append] at hlt
    omega

/-- A step of a command fails it exactly if the move is not harmless. -/
theorem unfailed_step_iff (h : Framed decode s) (hs : Unfailed s)
    (hst : step decode s m = some s') : Unfailed s' ↔ Harmless decode s m := by
  cases step_turn hst with
  | send | begin | arrive => exact iff_of_true hs trivial
  | refuse ho =>
    refine iff_of_true ((unfailed_finish hs).2 fun e he => ?_) trivial
    rcases ho with rfl | rfl <;> cases he
  | @fault f id hbuf =>
    have hfinish : Unfailed (s.finish id (faultOutcome decode s.buffer f)) ↔ _ := unfailed_finish hs
    refine hfinish.trans ?_
    cases f with
    | timeout => simp [faultOutcome,Harmless]
    | other => simp [faultOutcome,Harmless]
    | eof =>
      simp only [faultOutcome]
      split_ifs with hbad
      · exact iff_of_false (fun hall => hall _ rfl) fun hok => hok.elim hbad.1 fun hso => hso hbad.2
      · refine iff_of_true (fun e he => by cases he) ?_
        rw [not_and_or,not_not] at hbad
        exact hbad
  | overflow hbuf hfull => exact absurd (h.room hbuf) (not_le.2 hfull)
  | @skip fits id front rest hwtg hcut hsk =>
    refine iff_of_true hs (.inr fun id' front' rest' e hid hcut' => ?_)
    cases (hwtg.symm.trans hid)
    cases (hcut.symm.trans hcut')
    rw [hsk]
    simp
  | @ends fits id front rest o hwtg hcut hen =>
    refine (unfailed_finish hs).trans ?_
    constructor
    · intro ho
      refine .inr fun id' front' rest' e hid hcut' hbad => ?_
      cases (hwtg.symm.trans hid)
      cases (hcut.symm.trans hcut')
      exact ho e (Verdict.ends.inj (hen.symm.trans hbad))
    · rintro (hwhl | hall) e rfl
      · have hwell := (h.cut hcut).1
        rw [hwhl,nil_append,← h.waiting id hwtg] at hwell
        exact judge_wellFormed hwell fits e hen
      · exact hall id front rest e hwtg hcut hen

theorem dropped_step (hs : s.dropped = []) (hm : Between s m)
    (hst : step decode s m = some s') (h : Framed decode s) : s'.dropped = [] := by
  cases step_turn hst with
  | send | begin | arrive | refuse => exact hs
  | skip | ends => rfl
  | fault =>
    rw [hs,hm,append_nil]
  | overflow hbuf hfull => exact absurd (h.room hbuf) (not_le.2 hfull)

theorem harmless_of_between (hs : s.dropped = []) (hm : Between s m) :
    Harmless decode s m := by
  cases m with
  | take fits => exact .inl hs
  | fault f =>
    cases f with
    | eof => exact .inl hm
    | timeout => trivial
    | other => trivial
  | send bytes => trivial
  | execute arms writes => trivial
  | arrive n => trivial
  | overflow => trivial

lemma framed_start : Framed decode Client.start :=
  ⟨⟨[],rfl,by simp⟩,not_mem_nil,fun id hid => by cases hid⟩

/-- A command that returns a result returns the reply with its own id. If the peer sends whole
messages, no command fails over what it reads exactly if each line read is whole or the command can
do with its rest, as when reads fail only between messages. -/
theorem commands_unfailed_iff (decode : Decoder) (moves : List Move) :
    (∀ s, run (step decode) Client.start moves = some s → OwnReplies s) ∧
    (Each (step decode) (SendsMessages decode) Client.start moves →
      (Throughout (step decode) Unfailed Client.start moves ↔
        Each (step decode) (Harmless decode) Client.start moves) ∧
      (Each (step decode) Between Client.start moves →
        Throughout (step decode) Unfailed Client.start moves)) := by
  have hnone : Unfailed Client.start := fun id e => not_mem_nil
  refine ⟨fun s hrun => ?_,fun hsends => ⟨?_,fun hbetw => ?_⟩⟩
  · refine run_invariant (fun _ _ _ h hstep => h.step hstep) ?_ hrun
    exact fun id m hm => absurd hm not_mem_nil
  · refine throughout_iff_each_of (I := Framed decode) (fun s m s' h hm hstep => h.step hm hstep) ?_ framed_start hnone
      hsends
    exact fun s m s' h _ hs hstep => unfailed_step_iff h hs hstep
  · have hall := throughout_of_each (P := fun s => (Framed decode s ∧ s.dropped = []) ∧ Unfailed s)
      (C := fun s m => SendsMessages decode s m ∧ Between s m) ?_ ⟨⟨framed_start,rfl⟩,hnone⟩ (each_and hsends hbetw)
    · exact fun done s hdone hrun => (hall done s hdone hrun).2
    · rintro s m s' ⟨⟨hframed,hdrp⟩,hunfa⟩ ⟨hsend,hbetw⟩ hstep
      refine ⟨⟨hframed.step hsend hstep,dropped_step hdrp hbetw hstep hframed⟩,?_⟩
      exact (unfailed_step_iff hframed hunfa hstep).mpr (harmless_of_between hdrp hbetw)

def ascii (s : String) : List UInt8 := s.toList.map fun c => UInt8.ofNat c.toNat

def reply : List UInt8 := ascii "\x7b\"return\": \x7b\x7d, \"id\": 1\x7d\n"

def event : List UInt8 := ascii "\x7b\"event\": \"RESUME\"\x7d\n"

def decodeSample : Decoder := fun line =>
  if line = reply then some ⟨false,"",ascii "\x7b\x7d",none,some 1⟩
  else if line = event then some ⟨false,"RESUME",[],none,none⟩
  else none

theorem wellFormed_reply {n : ℕ} (hn : 1 ≤ n) : WellFormed decodeSample n reply where
  whole := ⟨reply.dropLast,by decide,by decide⟩
  fits := by decide
  due := ⟨⟨false,"",ascii "\x7b\x7d",none,some 1⟩,if_pos rfl,.inr (.inr ⟨1,hn,rfl⟩)⟩

theorem wellFormed_event (n : ℕ) : WellFormed decodeSample n event where
  whole := ⟨event.dropLast,by decide,by decide⟩
  fits := by decide
  due := ⟨⟨false,"RESUME",[],none,none⟩,by decide,.inl (by decide)⟩

theorem nextID_step (hs : 1 ≤ s.nextID) (hst : step decode s m = some s') :
    1 ≤ s'.nextID := by
  cases step_turn hst with
  | refuse | begin => exact hs.trans (Nat.le_succ _)
  | send | arrive | fault | overflow | skip | ends => exact hs

theorem sends_reply_and_event {moves : List Move}
    (h : ∀ bytes, .send bytes ∈ moves → bytes = reply ∨ bytes = event) :
    Each (step decodeSample) (SendsMessages decodeSample) Client.start (.execute true true::moves) := by
  refine each_cons.2 fun s hs => ⟨trivial,?_⟩
  cases hs
  have hids : Throughout (step decodeSample) (fun s => 1 ≤ s.nextID) ⟨[],[],1,some 1,[],[]⟩ moves :=
    fun done s _ hrun => run_invariant (fun _ _ _ hs hst => nextID_step hs hst) (Nat.le_refl 1) hrun
  refine each_of_throughout hids fun s m hm hs => ?_
  cases m with
  | send bytes =>
    rcases h bytes hm with rfl | rfl
    · exact wellFormed_reply hs
    · exact wellFormed_event s.nextID
  | execute arms writes => trivial
  | arrive n => trivial
  | fault f => trivial
  | overflow => trivial
  | take fits => trivial

/-- The reply is read in two pieces, and a second command waits. -/
def answered : List Move :=
  [.execute true true,.send reply,.arrive 10,.arrive 14,.take true,.execute true true]

/-- Its deadline passes while nothing has come; a third one skips an event. -/
def later : List Move := [.execute true true,.send event,.arrive 20,.take true]

/-- The first command's deadline passes in the middle of the reply. -/
def cutShort : List Move :=
  [.execute true true,.send reply,.arrive 10,.fault .timeout,.execute true true,.arrive 14,.take true]

theorem each_between_of_no_fault {moves : List Move} (h : ∀ f, .fault f ∉ moves) :
    Each (step decode) Between s moves := by
  intro done m s' hdn _ _
  cases m with
  | fault f => exact absurd (hdn.subset (by simp)) (h f)
  | send bytes => trivial
  | execute arms writes => trivial
  | arrive n => trivial
  | overflow => trivial
  | take fits => trivial

theorem timely_commands_unfailed :
    (run (step decodeSample) Client.start (answered ++ .fault .timeout :: later)).isSome = true ∧
      Throughout (step decodeSample) Unfailed Client.start (answered ++ .fault .timeout :: later) := by
  refine ⟨by decide +kernel,?_⟩
  obtain ⟨-,hunfa⟩ := commands_unfailed_iff decodeSample (answered ++ .fault .timeout :: later)
  have hsends : Each (step decodeSample) (SendsMessages decodeSample) Client.start
      (answered ++ .fault .timeout :: later) := sends_reply_and_event (by simp [later])
  refine (hunfa hsends).2 (each_append (each_between_of_no_fault (by simp [answered])) fun s hrun => ?_)
  refine each_cons.mpr fun s' _ => ⟨?_,each_between_of_no_fault (by simp [later])⟩
  have hbuf : (run (step decodeSample) Client.start answered).map Client.buffer = some [] := by decide +kernel
  rw [hrun] at hbuf
  exact Option.some.inj hbuf

theorem cut_reply_fails_next_command :
    Each (step decodeSample) (SendsMessages decodeSample) Client.start cutShort ∧
      (run (step decodeSample) Client.start cutShort).map Client.outcomes =
        some [(1,.read .timeout),(2,.misread .malformed)] :=
  ⟨sends_reply_and_event (by simp),by decide +kernel⟩

end TalosBox.QmpClient
