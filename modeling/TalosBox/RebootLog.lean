import TalosBox.StepRuns

/-! The log of node reboots. Probes of a boot time overlap and complete in any order, and a node may
be forgotten meanwhile; sequence and generation numbers tell which count. -/
open List

namespace TalosBox.Reboots

structure RebootObservation where
  bootTime : ℕ
  rebootedAt : Option ℤ
  deriving DecidableEq

structure RebootProbe where
  key : String
  generation : ℕ
  seq : ℕ
  deriving DecidableEq

structure RebootState where
  observation : RebootObservation
  generation : ℕ
  nextSeq : ℕ
  appliedSeq : ℕ

def RebootState.zero : RebootState := ⟨⟨0,none⟩,0,0,0⟩

abbrev Nodes := String → Option RebootState

def beginObserve (nodes : Nodes) (key : String) : Nodes × RebootProbe :=
  let state := (nodes key).getD .zero
  let state := { state with nextSeq := state.nextSeq+1 }
  (Function.update nodes key (some state),⟨key,state.generation,state.nextSeq⟩)

/-- The observation, the boot time before it, whether it is a reboot and whether it counts. -/
structure Answer where
  observation : RebootObservation
  previous : ℕ
  rebooted : Bool
  effective : Bool
  deriving DecidableEq

def completeObserve (nodes : Nodes) (probe : RebootProbe) (bootTime : ℕ) (now : ℤ) : Nodes × Answer :=
  match nodes probe.key with
  | none => (nodes,⟨⟨0,none⟩,0,false,false⟩)
  | some state =>
    if probe.generation ≠ state.generation ∨ probe.seq < state.appliedSeq ∨ bootTime = 0 then
      (nodes,⟨⟨0,none⟩,0,false,false⟩)
    else
      let previous := state.observation
      let store (observation : RebootObservation) :=
        Function.update nodes probe.key (some { state with observation, appliedSeq := probe.seq })
      if previous.bootTime = 0 then (store ⟨bootTime,none⟩,⟨⟨bootTime,none⟩,0,false,true⟩)
      else if previous.bootTime = bootTime then (store previous,⟨previous,previous.bootTime,false,true⟩)
      else (store ⟨bootTime,some now⟩,⟨⟨bootTime,some now⟩,previous.bootTime,true,true⟩)

def forget (nodes : Nodes) (key : String) : Nodes :=
  let state := (nodes key).getD .zero
  Function.update nodes key (some ⟨⟨0,none⟩,state.generation+1,state.nextSeq,0⟩)

inductive Event
  | begun (probe : RebootProbe)
  | completed (probe : RebootProbe) (bootTime : ℕ) (answer : Answer)
  | forgot (key : String)
  deriving DecidableEq

def Event.key : Event → String
  | .begun probe => probe.key
  | .completed probe _ _ => probe.key
  | .forgot key => key

/-- The log and its history, latest first, of which steps read the probes that are out. -/
structure Sys where
  nodes : Nodes
  history : List Event

inductive Move
  | beginObserve (key : String)
  | completeObserve (probe : RebootProbe) (bootTime : ℕ) (now : ℤ)
  | forget (key : String)

def step (s : Sys) : Move → Option Sys
  | .beginObserve key =>
    let (nodes,probe) := beginObserve s.nodes key
    some ⟨nodes,.begun probe::s.history⟩
  | .completeObserve probe bootTime now =>
    if .begun probe ∈ s.history then
      let (nodes,answer) := completeObserve s.nodes probe bootTime now
      some ⟨nodes,.completed probe bootTime answer::s.history⟩
    else none
  | .forget key => some ⟨forget s.nodes key,.forgot key::s.history⟩

def initial : Sys := ⟨fun _ => none,[]⟩

def run (moves : List Move) : Option Sys := StepRuns.run step initial moves

/-- The probes of a node begun so far. -/
def begins (key : String) (history : List Event) : ℕ :=
  history.countP fun
    | .begun probe => probe.key = key
    | _ => false

def forgets (key : String) (history : List Event) : ℕ := history.count (.forgot key)

/-- What happened since the node was last forgotten. -/
def fresh (key : String) (history : List Event) : List Event := history.takeWhile (· ≠ .forgot key)

/-- What a completion that counts, or reports a reboot, owes to the history before it. -/
structure Justified (history : List Event) (probe : RebootProbe) (bootTime : ℕ) (answer : Answer) : Prop where
  begun : answer.effective → .begun probe ∈ fresh probe.key history
  latest : answer.effective → ∀ later older, history = later++.begun probe::older →
    ∀ other t a, other.key = probe.key → .begun other ∈ later → .completed other t a ∈ later → a.effective = false
  rebooted : answer.rebooted = true → answer.effective = true ∧
    ∃ other t a, other.key = probe.key ∧ .completed other t a ∈ fresh probe.key history ∧ a.effective = true ∧
      t ≠ bootTime

/-- Every probe carries the numbers of probes and of forgets before it. -/
def Numbered (history : List Event) : Prop :=
  ∀ later probe older, history = later++.begun probe::older →
    probe.seq = begins probe.key older + 1 ∧ probe.generation = forgets probe.key older

/-- What the log keeps of the history of a node. -/
structure View (history : List Event) (key : String) (state : RebootState) : Prop where
  nextSeq : state.nextSeq = begins key history
  generation : state.generation = forgets key history
  applied : ∀ probe t a, probe.key = key → .completed probe t a ∈ fresh key history → a.effective →
    probe.seq ≤ state.appliedSeq
  observed : state.observation.bootTime ≠ 0 → ∃ probe a, probe.key = key ∧
    .completed probe state.observation.bootTime a ∈ fresh key history ∧ a.effective

structure Traced (s : Sys) : Prop where
  numbered : Numbered s.history
  view : ∀ key, View s.history key ((s.nodes key).getD .zero)
  justified : ∀ later probe t a older, s.history = later++.completed probe t a::older → Justified older probe t a

variable {history : List Event} {key : String}

lemma fresh_append {later older : List Event} (h : .forgot key ∉ later) :
    fresh key (later++older) = later++fresh key older :=
  takeWhile_append_of_pos fun e he => by simpa using ne_of_mem_of_not_mem he h

/-- A probe of the current generation was begun after the last forget. -/
theorem forgot_not_mem (probe : RebootProbe) (later older : List Event)
    (h : forgets probe.key older = forgets probe.key (later++.begun probe::older)) :
    .forgot probe.key ∉ later := by
  rw [forgets,forgets,count_append,count_cons_of_ne (by simp)] at h
  exact count_eq_zero.1 (by omega)

lemma begins_append (later older : List Event) : begins key (later++older) = begins key later + begins key older :=
  countP_append

/-- An accepted completion. -/
structure Accepted (nodes : Nodes) (probe : RebootProbe) (bootTime : ℕ) (state : RebootState)
    (result : Nodes × Answer) : Prop where
  found : nodes probe.key = some state
  generation : probe.generation = state.generation
  seq : state.appliedSeq ≤ probe.seq
  effective : result.2.effective
  rebooted : result.2.rebooted → state.observation.bootTime ≠ 0 ∧ state.observation.bootTime ≠ bootTime
  stored : ∃ observation : RebootObservation, observation.bootTime = bootTime ∧
    result.1 = Function.update nodes probe.key (some { state with observation, appliedSeq := probe.seq })

theorem completeObserve_cases (nodes : Nodes) (probe : RebootProbe) (bootTime : ℕ) (now : ℤ) :
    completeObserve nodes probe bootTime now = (nodes,⟨⟨0,none⟩,0,false,false⟩) ∨
      ∃ state, Accepted nodes probe bootTime state (completeObserve nodes probe bootTime now) := by
  unfold completeObserve
  split
  · exact .inl rfl
  rename_i state hste
  split
  · exact .inl rfl
  rename_i hok
  simp only [not_or,not_not,not_lt] at hok
  refine .inr ⟨state,?_⟩
  simp only
  split_ifs with hfst hsm
  · exact ⟨hste,hok.1,hok.2.1,rfl,nofun,_,rfl,rfl⟩
  · exact ⟨hste,hok.1,hok.2.1,rfl,nofun,_,hsm,rfl⟩
  · exact ⟨hste,hok.1,hok.2.1,rfl,fun _ => ⟨hfst,hsm⟩,_,rfl,rfl⟩

variable {e : Event} {probe : RebootProbe} {state : RebootState}

lemma fresh_cons (h : e ≠ .forgot key) : fresh key (e::history) = e::fresh key history := by
  simp [fresh,h]

theorem Numbered.cons (h : Numbered history)
    (he : ∀ probe, e = .begun probe →
      probe.seq = begins probe.key history + 1 ∧ probe.generation = forgets probe.key history) :
    Numbered (e::history) := by
  intro later probe older heq
  cases later with
  | nil =>
    obtain ⟨rfl,rfl⟩ := cons.inj heq
    exact he probe rfl
  | cons _ later => exact h later probe older (cons.inj heq).2

namespace View

/-- What happens to another node, and a completion that does not count, do not matter. -/
theorem skip (h : View history key state)
    (he : e.key ≠ key ∨ ∃ probe t a, e = .completed probe t a ∧ a.effective = false) :
    View (e::history) key state := by
  have hforgot : e ≠ .forgot key := by
    rintro rfl
    simp [Event.key] at he
  have hbegins : begins key (e::history) = begins key history := by
    rcases he with hkey | ⟨probe,t,a,rfl,-⟩
    · cases e <;> simp_all [begins,Event.key]
    · simp [begins]
  refine ⟨h.nextSeq.trans hbegins.symm,?_,fun probe t a hkey hmem ha => ?_,fun hne => ?_⟩
  · rw [forgets,count_cons_of_ne hforgot]
    exact h.generation
  · rw [fresh_cons hforgot] at hmem
    rcases mem_cons.1 hmem with rfl | hmem
    · obtain hoth | ⟨_,_,_,heq,heffe⟩ := he
      · exact absurd hkey hoth
      · cases heq
        simp [ha] at heffe
    · exact h.applied probe t a hkey hmem ha
  · obtain ⟨probe,a,hkey,hmem,ha⟩ := h.observed hne
    exact ⟨probe,a,hkey,by simp [fresh_cons hforgot,hmem],ha⟩

theorem begun (h : View history probe.key state) :
    View (.begun probe::history) probe.key { state with nextSeq := state.nextSeq+1 } := by
  refine ⟨?_,?_,fun other t a hkey hmem ha => ?_,fun hne => ?_⟩
  · simp [begins,h.nextSeq]
  · simpa [forgets] using h.generation
  · exact h.applied other t a hkey (by simpa [fresh_cons] using hmem) ha
  · obtain ⟨other,a,hkey,hmem,ha⟩ := h.observed hne
    exact ⟨other,a,hkey,by simp [fresh_cons,hmem],ha⟩

theorem accepted (h : View history probe.key state) {observation : RebootObservation} {answer : Answer}
    (hseq : state.appliedSeq ≤ probe.seq) (heffe : answer.effective) :
    View (.completed probe observation.bootTime answer::history) probe.key
      { state with observation, appliedSeq := probe.seq } := by
  refine ⟨?_,?_,fun other t a hkey hmem ha => ?_,fun _ => ?_⟩
  · simpa [begins] using h.nextSeq
  · simpa [forgets] using h.generation
  · rw [fresh_cons (by simp)] at hmem
    rcases mem_cons.1 hmem with heq | hmem
    · cases heq
      exact le_rfl
    · exact (h.applied other t a hkey hmem ha).trans hseq
  · exact ⟨probe,answer,rfl,by simp [fresh_cons],heffe⟩

theorem forgot (h : View history key state) :
    View (.forgot key::history) key ⟨⟨0,none⟩,state.generation+1,state.nextSeq,0⟩ := by
  refine ⟨?_,?_,fun other t a _ hmem => ?_,fun hne => absurd rfl hne⟩
  · simpa [begins] using h.nextSeq
  · simp [forgets,h.generation]
  · simp [fresh] at hmem

end View

theorem view_update {nodes : Nodes} (h : ∀ key, View history key ((nodes key).getD .zero))
    (hsf : View (e::history) e.key state) (key : String) :
    View (e::history) key ((Function.update nodes e.key (some state) key).getD .zero) := by
  by_cases hkey : key = e.key
  · subst hkey
    simpa using hsf
  · rw [Function.update_of_ne hkey]
    exact (h key).skip (.inl (Ne.symm hkey))

/-- A completion that is accepted is justified by what the log has kept. -/
theorem justified_of_accepted {nodes : Nodes} {bootTime : ℕ} {result : Nodes × Answer} (hnumb : Numbered history)
    (hvw : View history probe.key state) (hbgn : .begun probe ∈ history)
    (h : Accepted nodes probe bootTime state result) : Justified history probe bootTime result.2 := by
  have hlat : ∀ later older, history = later++.begun probe::older → .forgot probe.key ∉ later := by
    rintro later older rfl
    refine forgot_not_mem probe later older ?_
    rw [← (hnumb later probe older rfl).2,h.generation,hvw.generation]
  refine ⟨fun _ => ?_,fun _ later older hspl other t a hkey hoth hdn => ?_,fun hrebo => ⟨h.effective,?_⟩⟩
  · obtain ⟨later,older,rfl⟩ := append_of_mem hbgn
    rw [fresh_append (hlat later older rfl),fresh_cons (by simp)]
    simp
  · -- the other one has the higher number, and it would have been applied
    by_contra ha
    have happ := hvw.applied other t a hkey (by simp [hspl,fresh_append (hlat later older hspl),hdn])
      (by simpa using ha)
    obtain ⟨later',older',rfl⟩ := append_of_mem hoth
    have hseq := (hnumb _ probe older hspl).1
    have hseq' := (hnumb later' other (older' ++ .begun probe::older) (by simp [hspl])).1
    have hbegins : begins probe.key (.begun probe::older) = begins probe.key older + 1 := by simp [begins]
    rw [hkey,begins_append,hbegins] at hseq'
    have hle := h.seq
    omega
  · obtain ⟨hne,hdiff⟩ := h.rebooted hrebo
    obtain ⟨other,a,hkey,hmem,ha⟩ := hvw.observed hne
    exact ⟨other,_,a,hkey,hmem,ha,hdiff⟩

theorem Traced.step {s s' : Sys} {m : Move} (h : Traced s) (hst : step s m = some s') : Traced s' := by
  have hcons : ∀ {e}, (∀ probe t a, e = .completed probe t a → Justified s.history probe t a) →
      ∀ later probe t a older, e::s.history = later++.completed probe t a::older → Justified older probe t a := by
    intro e he later probe t a older heq
    cases later with
    | nil =>
      obtain ⟨rfl,rfl⟩ := cons.inj heq
      exact he probe t a rfl
    | cons _ later => exact h.justified later probe t a older (cons.inj heq).2
  cases m with
  | beginObserve key =>
    cases hst
    have hvw := h.view key
    refine ⟨h.numbered.cons fun probe hprb => ?_,view_update h.view (View.begun hvw),hcons nofun⟩
    cases hprb
    exact ⟨by simp [hvw.nextSeq],hvw.generation⟩
  | completeObserve probe bootTime now =>
    simp only [Reboots.step] at hst
    split_ifs at hst with hbgn
    cases hst
    rcases completeObserve_cases s.nodes probe bootTime now with higno | ⟨state,had⟩
    · simp only [higno]
      refine ⟨h.numbered.cons nofun,fun key => (h.view key).skip (.inr ⟨probe,_,_,rfl,rfl⟩),hcons ?_⟩
      rintro _ _ _ heq
      cases heq
      exact ⟨nofun,nofun,nofun⟩
    · have hvw : View s.history probe.key state := by simpa [had.found] using h.view probe.key
      obtain ⟨observation,rfl,hsr⟩ := had.stored
      refine ⟨h.numbered.cons nofun,?_,hcons ?_⟩
      · simp only [hsr]
        exact view_update h.view (hvw.accepted had.seq had.effective)
      · rintro _ _ _ heq
        cases heq
        exact justified_of_accepted h.numbered hvw hbgn had
  | forget key =>
    cases hst
    exact ⟨h.numbered.cons nofun,view_update h.view (View.forgot (h.view key)),hcons nofun⟩

theorem initial_traced : Traced initial := by
  refine ⟨fun later probe older heq => ?_,fun key => ?_,fun later probe t a older heq => ?_⟩
  · simp [initial] at heq
  · exact ⟨rfl,rfl,by simp [initial,fresh],fun hne => absurd rfl hne⟩
  · simp [initial] at heq

/-- Two probes that overlap, the second of them completed first, and a third one after a reboot. -/
def overlapping : List Move :=
  [.beginObserve "demo",.beginObserve "demo",.completeObserve ⟨"demo",0,2⟩ 100 0,
    .completeObserve ⟨"demo",0,1⟩ 90 1,.beginObserve "demo",.completeObserve ⟨"demo",0,3⟩ 200 2]

end TalosBox.Reboots
