import TalosBox.RingBuffer
import TalosBox.StepRuns

/-! The console of a machine. One goroutine records each chunk and then writes it to the client;
another accepts clients and replays the scrollback. `writeMu` orders the writes to a client, but the
recording is outside of it. -/
namespace TalosBox.ConsoleReplay

open List
open Function (update update_of_ne update_self)
open RingBuffer StepRuns

def consoleScrollback : ℕ := 64 * 1024

/-- The size of the buffer that output is read into. -/
def chunkSize : ℕ := 32 * 1024

def newRingBuffer (capacity : ℕ) : Buffer UInt8 capacity := .empty capacity 0

/-- The scrollback holds the end of all that was written to it, as much as fits. -/
theorem snapshot_writes (capacity : ℕ) (writes : List (List UInt8)) :
    let scrollback := (writes.foldl Buffer.write (newRingBuffer capacity)).snapshot
    scrollback <:+ writes.flatten ∧ scrollback.length = min writes.flatten.length capacity := by
  have hemp : (newRingBuffer capacity).snapshot = [] := rfl
  intro scrollback
  have hsnap : scrollback = writes.flatten.rtake capacity := by
    rw [show scrollback = _ from Buffer.snapshot_foldl_write _ writes,hemp,nil_append]
  rw [hsnap]
  refine ⟨rtake_suffix _ _,?_⟩
  rw [List.rtake,length_drop]
  omega

example : ([[1,2],[],[3,4,5]].foldl Buffer.write (newRingBuffer 4)).snapshot = [2,3,4,5] := by decide

/-- `writeOutput`: between its reads, or behind the recording of a chunk. -/
inductive Output
  | idle
  | recorded (chunk : List UInt8)

/-- `accept`: it has the lock from where the client is set to the end of the replay. -/
inductive Accepting
  | idle
  | attached (c : ℕ)
  | replaying (c : ℕ) (scrollback : List UInt8)

/-- Where a client joins: how much had been recorded, and the chunk recorded but not yet written. -/
structure Join where
  position : ℕ
  pending : List UInt8

structure Proxy where
  ring : Buffer UInt8 consoleScrollback
  client : Option ℕ
  output : Output
  accepting : Accepting
  /-- The number of connections; the next one's name. -/
  accepted : ℕ
  /-- What was recorded, what each client has received and where it joined. No step reads them. -/
  written : List UInt8
  received : ℕ → List UInt8
  joined : ℕ → Option Join

def Proxy.start : Proxy :=
  ⟨Buffer.empty consoleScrollback 0,none,.idle,.idle,0,[],fun _ => [],fun _ => none⟩

def Output.pending : Output → List UInt8
  | .idle => []
  | .recorded chunk => chunk

def Proxy.clearClient (p : Proxy) (c : ℕ) : Proxy :=
  if p.client = some c then { p with client := none } else p

def Proxy.deliver (p : Proxy) (c : ℕ) (data : List UInt8) : Proxy :=
  { p with received := update p.received c (p.received c++data) }

/-- `writeClient`; a write that breaks off has sent some bytes. -/
def Proxy.writeClient (p : Proxy) (c : ℕ) (data : List UInt8) : Option ℕ → Proxy
  | none => p.deliver c data
  | some sent => (p.deliver c (data.take sent)).clearClient c

inductive Move
  /-- A read of the output and `ring.Write`. -/
  | record (chunk : List UInt8)
  /-- `writeLiveOutput`. -/
  | live (broke : Option ℕ)
  /-- `Accept` and `setClient`, under the lock. -/
  | attach
  | snapshot
  | replay (broke : Option ℕ)
  /-- The client goes, or its input fails. -/
  | detach

def step (p : Proxy) : Move → Option Proxy
  | .record chunk =>
    match p.output with
    | .idle =>
      if chunk.length ≤ chunkSize then
        some { p with ring := p.ring.write chunk, output := .recorded chunk, written := p.written++chunk }
      else none
    | .recorded _ => none
  | .live broke =>
    match p.output,p.accepting with
    | .recorded chunk,.idle =>
      match p.client with
      | none => some { p with output := .idle }
      | some c => some { p.writeClient c chunk broke with output := .idle }
    | _,_ => none
  | .attach =>
    match p.accepting with
    | .idle =>
      match p.client with
      -- the connection is told that the console is busy
      | some _ => some { p with accepted := p.accepted + 1 }
      | none =>
        some { p with
          client := some p.accepted
          accepting := .attached p.accepted
          accepted := p.accepted + 1 }
    | _ => none
  | .snapshot =>
    match p.accepting with
    | .attached c =>
      some { p with
        accepting := .replaying c p.ring.snapshot
        joined := update p.joined c (some ⟨p.written.length,p.output.pending⟩) }
    | _ => none
  | .replay broke =>
    match p.accepting with
    | .replaying c scrollback =>
      if scrollback = [] then some { p with accepting := .idle }
      else some { p.writeClient c scrollback broke with accepting := .idle }
    | _ => none
  | .detach => p.client.map p.clearClient

/-- The scrollback after so much output. -/
def scrollback (written : List UInt8) (t : ℕ) : List UInt8 := (written.take t).rtake consoleScrollback

/-- An end of the scrollback of some instant, and all the output from then on. -/
def Continues (written bytes : List UInt8) : Prop :=
  ∃ t s, s <:+ scrollback written t ∧ bytes = s++written.drop t

/-- What a client gets that stays. -/
def Join.bytes (j : Join) (written : List UInt8) : List UInt8 :=
  scrollback written j.position++j.pending++written.drop j.position

/-- There is no pending chunk, or the output repeats itself over the whole length of the scrollback.
-/
def Join.Seamless (j : Join) (written : List UInt8) : Prop :=
  scrollback written j.position++j.pending <:+ written.take j.position

theorem suffix_of_append_suffix {l m r : List UInt8} (h : l++r <:+ m++r) : l <:+ m := by
  obtain ⟨front,hfrt⟩ := h
  rw [← append_assoc] at hfrt
  exact ⟨front,append_cancel_right hfrt⟩

variable {written : List UInt8} {j : Join}

theorem Join.continues_iff (hpnd : j.pending <:+ written.take j.position) :
    Continues written (j.bytes written) ↔ j.Seamless written := by
  have hspl := take_append_drop j.position written
  obtain ⟨front,hfrt⟩ := hpnd
  constructor
  · rintro ⟨t,s,hs,hbs⟩
    obtain ⟨rest,hrs⟩ := hs.trans (rtake_suffix _ _)
    have hend : j.bytes written <:+ written := by
      refine ⟨rest,?_⟩
      rw [hbs,← append_assoc,hrs,take_append_drop]
    refine suffix_of_append_suffix (r := written.drop j.position) ?_
    rw [hspl]
    exact hend
  · intro hseam
    -- the instant before the pending chunk was recorded
    rw [← hfrt,append_assoc] at hspl
    have htk : written.take front.length = front := by rw [← hspl,take_left]
    have hdp : written.drop front.length = j.pending++written.drop j.position := by
      conv_lhs => rw [← hspl,drop_left]
    refine ⟨front.length,scrollback written j.position,?_,?_⟩
    · rw [Join.Seamless,← hfrt] at hseam
      have hscro : scrollback written front.length = front.rtake consoleScrollback := by
        rw [scrollback,htk]
      rw [hscro]
      exact suffix_rtake (suffix_of_append_suffix hseam) (length_rtake_le _ _)
    · rw [hdp,Join.bytes,append_assoc]

theorem Join.seamless_of_pending_nil (h : j.pending = []) :
    j.Seamless written := by
  rw [Join.Seamless,h,append_nil]
  exact rtake_suffix _ _

theorem Join.bytes_append (h : j.position ≤ written.length) (chunk : List UInt8) :
    j.bytes (written++chunk) = j.bytes written++chunk := by
  rw [Join.bytes,Join.bytes,scrollback,scrollback,take_append_of_le_length h,drop_append_of_le_length h]
  simp only [append_assoc]

structure Join.Within (j : Join) (written : List UInt8) : Prop where
  position : j.position ≤ written.length
  pending : j.pending <:+ written.take j.position

structure Sound (p : Proxy) : Prop where
  ring : p.ring.snapshot = p.written.rtake consoleScrollback
  pending : p.output.pending <:+ p.written
  /-- Who has not joined has received nothing. -/
  unjoined : ∀ c, p.joined c = none → p.received c = []
  unknown : ∀ c, p.accepted ≤ c → p.joined c = none
  joined : ∀ c j, p.joined c = some j → j.Within p.written ∧ p.received c <+: j.bytes p.written
  attached : ∀ c, p.accepting = .attached c → p.joined c = none ∧ c < p.accepted
  replaying : ∀ c s, p.accepting = .replaying c s → p.received c = [] ∧ ∃ j, p.joined c = some j ∧
    s++p.output.pending = j.bytes p.written
  /-- The client is the one that is being accepted, or gets all but the pending chunk. -/
  client : ∀ c, p.client = some c → p.accepting = .attached c ∨ (∃ s, p.accepting = .replaying c s) ∨
    p.accepting = .idle ∧ ∃ j, p.joined c = some j ∧ p.received c++p.output.pending = j.bytes p.written

theorem sound_start : Sound Proxy.start where
  ring := rfl
  pending := suffix_rfl
  unjoined _ _ := rfl
  unknown _ _ := rfl
  joined c j h := by cases h
  attached c h := by cases h
  replaying c s h := by cases h
  client c h := by cases h

variable {p : Proxy}

theorem Sound.record (h : Sound p) (hil : p.output = .idle) (chunk : List UInt8) :
    Sound { p with ring := p.ring.write chunk, output := .recorded chunk, written := p.written++chunk } := by
  have hbs : ∀ c j, p.joined c = some j → j.bytes (p.written++chunk) = j.bytes p.written++chunk := fun c j hj =>
    Join.bytes_append (h.joined c j hj).1.position chunk
  refine ⟨?_,suffix_append _ _,h.unjoined,h.unknown,fun c j hj => ?_,h.attached,fun c s hs => ?_,fun c hc => ?_⟩
  · rw [Buffer.snapshot_write,h.ring,rtake_append_rtake]
  · obtain ⟨⟨hposi,hpnd⟩,hrcv⟩ := h.joined c j hj
    refine ⟨⟨?_,?_⟩,?_⟩
    · rw [length_append]
      exact hposi.trans (Nat.le_add_right _ _)
    · rwa [take_append_of_le_length hposi]
    · rw [hbs c j hj]
      exact hrcv.trans (prefix_append _ _)
  · obtain ⟨hno,j,hj,hdue⟩ := h.replaying c s hs
    rw [hil,Output.pending,append_nil] at hdue
    exact ⟨hno,j,hj,by rw [hbs c j hj,← hdue]; rfl⟩
  · refine (h.client c hc).imp_right (Or.imp_right ?_)
    rintro ⟨hfr,j,hj,hdue⟩
    rw [hil,Output.pending,append_nil] at hdue
    exact ⟨hfr,j,hj,by rw [hbs c j hj,← hdue]; rfl⟩

/-- Due bytes are delivered, and whoever is attached then gets all but the pending chunk. -/
theorem Sound.delivered (h : Sound p) {c : ℕ} {data : List UInt8} {client : Option ℕ}
    {output : Output} (hj : p.joined c = some j) (hdue : p.received c++data <+: j.bytes p.written)
    (hpnd : output.pending <:+ p.written)
    (hcli : ∀ b, client = some b → b = c ∧ p.received c++data++output.pending = j.bytes p.written) :
    Sound ⟨p.ring,client,output,.idle,p.accepted,p.written,
      update p.received c (p.received c++data),p.joined⟩ := by
  refine ⟨h.ring,hpnd,fun b hb => ?_,h.unknown,fun b i hi => ?_,fun b hb => (nomatch hb),
    fun b s hb => (nomatch hb),fun b hb => .inr (.inr ⟨rfl,?_⟩)⟩
  · have hbc : b ≠ c := by
      rintro rfl
      exact absurd (hb.symm.trans hj) (by simp)
    rw [← h.unjoined b hb]
    exact update_of_ne hbc _ _
  · obtain ⟨hwithin,hrcv⟩ := h.joined b i hi
    refine ⟨hwithin,?_⟩
    by_cases hbc : b = c
    · subst hbc
      obtain rfl : i = j := Option.some.inj (hi.symm.trans hj)
      simpa using hdue
    · simpa [hbc] using hrcv
  · obtain ⟨rfl,hall⟩ := hcli b hb
    exact ⟨j,hj,by simpa using hall⟩

/-- A write sends the data, or a part of it and detaches the client. -/
theorem writeClient_eq (p : Proxy) (c : ℕ) (data : List UInt8) (broke : Option ℕ) :
    ∃ sent client, p.writeClient c data broke =
        { p with client := client, received := update p.received c (p.received c++sent) } ∧
      sent <+: data ∧ ∀ b, client = some b → p.client = some b ∧ (b = c → sent = data) := by
  cases broke with
  | none => exact ⟨data,p.client,rfl,prefix_rfl,fun b hb => ⟨hb,fun _ => rfl⟩⟩
  | some sent =>
    by_cases hc : p.client = some c
    · refine ⟨data.take sent,none,?_, take_prefix sent data,fun b hb => by cases hb⟩
      simp [Proxy.writeClient,Proxy.clearClient,Proxy.deliver,hc]
    · refine ⟨data.take sent,p.client,?_, take_prefix sent data,fun b hb => ⟨hb,?_⟩⟩
      · simp [Proxy.writeClient,Proxy.clearClient,Proxy.deliver,hc]
      · rintro rfl
        exact absurd hb hc

theorem Sound.live (h : Sound p) {chunk : List UInt8} (houtput : p.output = .recorded chunk)
    (hfr : p.accepting = .idle) {c : ℕ} (hc : p.client = some c) (broke : Option ℕ) :
    Sound { p.writeClient c chunk broke with output := .idle } := by
  obtain ⟨sent,client,heq,hsent,hcli⟩ := writeClient_eq p c chunk broke
  rcases h.client c hc with hbad | ⟨s,hbad⟩ | ⟨-,j,hj,hall⟩
  · simp [hfr] at hbad
  · simp [hfr] at hbad
  · rw [houtput,Output.pending] at hall
    rw [heq,hfr]
    refine h.delivered hj ?_ (nil_suffix) fun b hb => ?_
    · rw [← hall]
      exact (prefix_append_right_inj _).2 hsent
    · obtain ⟨hb,hwhl⟩ := hcli b hb
      obtain rfl : b = c := Option.some.inj (hb.symm.trans hc)
      rw [hwhl rfl]
      exact ⟨rfl,(append_nil _).trans hall⟩

theorem Sound.client_eq (h : Sound p) {c b : ℕ} {s : List UInt8} (hacc : p.accepting = .replaying c s)
    (hb : p.client = some b) : b = c := by
  rcases h.client b hb with hbad | ⟨s',hsm⟩ | ⟨hbad,-⟩
  · simp [hacc] at hbad
  · rw [hacc] at hsm
    cases hsm
    rfl
  · simp [hacc] at hbad

theorem Sound.replay (h : Sound p) {c : ℕ} {s : List UInt8} (hacc : p.accepting = .replaying c s)
    (broke : Option ℕ) : Sound { p.writeClient c s broke with accepting := .idle } := by
  obtain ⟨sent,client,heq,hsent,hcli⟩ := writeClient_eq p c s broke
  obtain ⟨hno,j,hj,hall⟩ := h.replaying c s hacc
  rw [heq]
  refine h.delivered hj ?_ h.pending fun b hb => ?_
  · rw [hno,← hall]
    exact hsent.trans (prefix_append _ _)
  · obtain ⟨hb,hwhl⟩ := hcli b hb
    obtain rfl := h.client_eq hacc hb
    rw [hno,hwhl rfl]
    exact ⟨rfl,hall⟩

theorem Sound.snapshot (h : Sound p) {c : ℕ} (hacc : p.accepting = .attached c) :
    Sound { p with
      accepting := .replaying c p.ring.snapshot
      joined := update p.joined c (some ⟨p.written.length,p.output.pending⟩) } := by
  obtain ⟨hnew,hkn⟩ := h.attached c hacc
  have hoth : ∀ {b}, b ≠ c →
      update p.joined c (some ⟨p.written.length,p.output.pending⟩) b = p.joined b := fun hb =>
    update_of_ne hb _ _
  have hbs : (⟨p.written.length,p.output.pending⟩ : Join).bytes p.written = p.ring.snapshot++p.output.pending := by
    rw [h.ring,Join.bytes,scrollback,take_length,drop_length,append_nil]
  refine ⟨h.ring,h.pending,fun b hb => ?_,fun b hb => ?_,fun b i hi => ?_,fun b hb => (nomatch hb),
    fun b s hb => ?_,fun b hb => .inr (.inl ?_)⟩
  · have hbc : b ≠ c := by
      rintro rfl
      simp at hb
    exact h.unjoined b ((hoth hbc).symm.trans hb)
  · exact (hoth (hkn.trans_le hb).ne').trans (h.unknown b hb)
  · by_cases hbc : b = c
    · subst hbc
      obtain rfl : i = ⟨p.written.length,p.output.pending⟩ := by simpa using hi.symm
      refine ⟨⟨le_rfl,?_⟩,?_⟩
      · rw [take_length]
        exact h.pending
      · rw [h.unjoined b hnew]
        exact nil_prefix
    · exact h.joined b i ((hoth hbc).symm.trans hi)
  · cases hb
    exact ⟨h.unjoined c hnew,_,update_self _ _ _,hbs.symm⟩
  · rcases h.client b hb with hsm | ⟨s,hbad⟩ | ⟨hbad,-⟩
    · rw [hacc] at hsm
      cases hsm
      exact ⟨_,rfl⟩
    · simp [hacc] at hbad
    · simp [hacc] at hbad

theorem Sound.attach (h : Sound p) :
    Sound { p with
      client := some p.accepted
      accepting := .attached p.accepted
      accepted := p.accepted + 1 } := by
  refine ⟨h.ring,h.pending,h.unjoined,fun c hc => h.unknown c (Nat.le_of_succ_le hc),h.joined,fun c hc => ?_,
    fun c s hs => (nomatch hs),fun c hc => .inl ?_⟩
  · cases hc
    exact ⟨h.unknown _ le_rfl,Nat.lt_succ_self _⟩
  · cases hc
    rfl

theorem Sound.step {p' : Proxy} {m : Move} (h : Sound p) (hst : step p m = some p') : Sound p' := by
  cases m with
  | record chunk =>
    simp only [ConsoleReplay.step] at hst
    split at hst
    · split_ifs at hst
      cases hst
      exact h.record ‹_› chunk
    · cases hst
  | live broke =>
    simp only [ConsoleReplay.step] at hst
    split at hst
    · rename_i chunk houtput hfr
      split at hst
      · rename_i hno
        cases hst
        refine ⟨h.ring,nil_suffix,h.unjoined,h.unknown,h.joined,h.attached,fun c s hs => ?_,fun c hc => ?_⟩
        · simp [hfr] at hs
        · simp [hno] at hc
      · cases hst
        exact h.live houtput hfr ‹_› broke
    · cases hst
  | attach =>
    simp only [ConsoleReplay.step] at hst
    split at hst
    · rename_i hfr
      split at hst
      · cases hst
        refine ⟨h.ring,h.pending,h.unjoined,fun c hc => h.unknown c (Nat.le_of_succ_le hc),h.joined,fun c hc => ?_,
          h.replaying,h.client⟩
        simp [hfr] at hc
      · cases hst
        exact h.attach
    · cases hst
  | snapshot =>
    simp only [ConsoleReplay.step] at hst
    split at hst
    · cases hst
      exact h.snapshot ‹_›
    · cases hst
  | replay broke =>
    simp only [ConsoleReplay.step] at hst
    split at hst
    · rename_i c s hacc
      split_ifs at hst with hemp
      · cases hst
        -- nothing is written, which is the same as writing the empty scrollback
        have hwrite := h.replay hacc none
        rw [hemp] at hwrite
        simpa [Proxy.writeClient,Proxy.deliver] using hwrite
      · cases hst
        exact h.replay hacc broke
    · cases hst
  | detach =>
    obtain ⟨c,hc,rfl⟩ := Option.map_eq_some_iff.1 hst
    rw [Proxy.clearClient,if_pos hc]
    exact ⟨h.ring,h.pending,h.unjoined,h.unknown,h.joined,h.attached,h.replaying,fun b hb => by cases hb⟩

/-- The ring holds the scrollback; a client has received a beginning of the scrollback at its
snapshot, the chunk pending then and the output since, all of it if it is attached and no write is
under way; and this is an end of some instant's scrollback with the output since exactly if no chunk
was pending or the output repeated itself. -/
theorem client_bytes_continue_iff (moves : List Move) (p : Proxy) (hrun : run step Proxy.start moves = some p)
    (c : ℕ) (j : Join) (hjoin : p.joined c = some j) :
    p.ring.snapshot = scrollback p.written p.written.length ∧ p.received c <+: j.bytes p.written ∧
      (p.client = some c → p.accepting = .idle → p.output = .idle → p.received c = j.bytes p.written) ∧
      (Continues p.written (j.bytes p.written) ↔ j.Seamless p.written) ∧
      (j.pending = [] → j.Seamless p.written) := by
  have hsnd : Sound p := run_invariant (fun _ _ _ h hstep => h.step hstep) sound_start hrun
  obtain ⟨⟨-,hpnd⟩,hrcv⟩ := hsnd.joined c j hjoin
  refine ⟨?_,hrcv,fun hc hfree hidle => ?_,Join.continues_iff hpnd,Join.seamless_of_pending_nil⟩
  · rw [hsnd.ring,scrollback,take_length]
  · rcases hsnd.client c hc with hbad | ⟨s,hbad⟩ | ⟨-,i,hi,hall⟩
    · simp [hfree] at hbad
    · simp [hfree] at hbad
    · obtain rfl : i = j := Option.some.inj (hi.symm.trans hjoin)
      rwa [hidle,Output.pending,append_nil] at hall

/-! A client between a chunk's recording and its delivery, and one after it. -/

def joinsBetween : List Move := [.record [104],.attach,.snapshot,.replay none,.live none]

def joinsAfter : List Move :=
  [.record [104],.live none,.attach,.snapshot,.replay none,.record [105],.live none]

theorem later_client_bytes :
    ∃ p j, run step Proxy.start joinsAfter = some p ∧ p.joined 0 = some j ∧ p.received 0 = [104,105] ∧
      Continues p.written (p.received 0) := by
  obtain ⟨p,hrun,hend⟩ := Option.map_eq_some_iff.mp (show (run step Proxy.start joinsAfter).map
    (fun p => (p.client,p.accepting,p.output,p.received 0,p.joined 0)) =
      some (some 0,.idle,.idle,[104,105],some ⟨1,[]⟩) by rfl)
  obtain ⟨hcli,hend⟩ := Prod.mk.inj hend
  obtain ⟨hfree,hend⟩ := Prod.mk.inj hend
  obtain ⟨hidle,hend⟩ := Prod.mk.inj hend
  obtain ⟨hrcv,hjoin⟩ := Prod.mk.inj hend
  obtain ⟨-,-,hall,hiff,hseam⟩ := client_bytes_continue_iff joinsAfter p hrun 0 ⟨1,[]⟩ hjoin
  refine ⟨p,⟨1,[]⟩,hrun,hjoin,hrcv,?_⟩
  rw [hall hcli hfree hidle]
  exact hiff.mpr (hseam rfl)

/-- The byte is in the replay and comes again. -/
theorem client_gets_byte_twice :
    ∃ p, run step Proxy.start joinsBetween = some p ∧ p.client = some 0 ∧ p.written = [104] ∧
      p.received 0 = [104,104] ∧ ¬ Continues p.written (p.received 0) := by
  obtain ⟨p,hrun,hend⟩ := Option.map_eq_some_iff.mp (show (run step Proxy.start joinsBetween).map
    (fun p => (p.client,p.written,p.received 0)) = some (some 0,[104],[104,104]) by rfl)
  obtain ⟨hcli,hend⟩ := Prod.mk.inj hend
  obtain ⟨hwrit,hrcv⟩ := Prod.mk.inj hend
  refine ⟨p,hrun,hcli,hwrit,hrcv,?_⟩
  rintro ⟨t,s,hs,hbs⟩
  rw [hwrit] at hs hbs
  rw [hrcv] at hbs
  have hlen := (hs.trans (rtake_suffix _ _)).length_le
  have htotal := congrArg List.length hbs
  simp only [length_append,length_take,length_drop,length_cons] at hlen htotal
  omega

end TalosBox.ConsoleReplay
