import Mathlib

/-! `Suspend` of a QEMU machine: the guest is paused, its memory migrated to a file, the file put in
place and QEMU told to quit. What QEMU, its process and the file system answer is an argument. -/
namespace TalosBox.QemuSuspend

/-- A command is carried out and answered, refused, does not get through, or its answer does not
come in time. All but the first are errors of `execute`. -/
inductive Reply
  | ok
  | refused
  | unsent
  | lost
  deriving DecidableEq

def Reply.done : Reply → Bool
  | .ok | .lost => true
  | .refused | .unsent => false

inductive Command
  | stop
  | cont
  | migrate
  | queryMigrate
  | quit
  deriving DecidableEq

structure State where
  /-- `activeLocked`. -/
  active : Bool
  /-- The vCPUs run. -/
  running : Bool
  /-- The commands, with what became of them. -/
  issued : List (Command × Reply)
  /-- The machines that are retained for a saved state, by its path. -/
  saved : String → Option ℕ
  temporary : Bool
  /-- The save is in its place. -/
  renamed : Bool

def State.exits (s : State) (exits : Bool) : State := { s with active := s.active && !exits }

def State.execute (s : State) (command : Command) (reply : Reply) (exits : Bool) : State :=
  { s.exits exits with
    running := match command,reply.done with
      | .stop,true => false
      | .cont,true => true
      | _,_ => s.running
    issued := s.issued++[(command,reply)] }

inductive PrepareStep
  | encode
  | header
  | mkdir
  | create
  | chmod
  | write
  | truncate
  | close
  deriving DecidableEq

inductive CommitStep
  | openFile
  | syncFile
  | closeFile
  | rename
  | openDirectory
  | syncDirectory
  | closeDirectory
  deriving DecidableEq

/-- `prepareQEMUSave`: the step that fails. -/
def prepareQEMUSave (works : PrepareStep → Bool) : Option PrepareStep :=
  [.encode,.header,.mkdir,.create,.chmod,.write,.truncate,.close].find? (!works ·)

/-- The file is there once it is created, and removed again if a later step fails. -/
def PrepareStep.leaves (removes : Bool) : PrepareStep → Bool
  | .encode | .header | .mkdir | .create => false
  | .chmod | .write | .truncate | .close => !removes

/-- `commitQEMUSave`: the step that fails. -/
def commitQEMUSave (works : CommitStep → Bool) : Option CommitStep :=
  [.openFile,.syncFile,.closeFile,.rename,.openDirectory,.syncDirectory,.closeDirectory].find? (!works ·)

/-- The steps behind the rename. -/
def CommitStep.behindRename : CommitStep → Bool
  | .openFile | .syncFile | .closeFile | .rename => false
  | .openDirectory | .syncDirectory | .closeDirectory => true

structure Query where
  reply : Reply
  status : String
  errorDesc : String
  /-- The context ends before the next tick. -/
  expires : Bool
  exits : Bool

inductive WaitError
  | query
  | migration (status desc : String)
  | unexpected (status : String)
  | expired
  deriving DecidableEq

/-- How an answer ends the wait, if it does. -/
def Query.ends (q : Query) : Option (Option WaitError) :=
  if q.reply ≠ .ok then some (some .query)
  else if q.status = "completed" then some none
  else if q.status ∈ ["failed","cancelled"] then
    some (some (.migration q.status (if q.errorDesc = "" then "migration did not complete" else q.errorDesc)))
  else if q.status ∈ ["setup","active","postcopy-active","device","wait-unplug","pre-switchover"] then
    if q.expires then some (some .expired) else none
  else some (some (.unexpected q.status))

/-- `waitQEMUMigration`; without a further answer the context ends. -/
def waitQEMUMigration (s : State) : List Query → State × Option WaitError
  | [] => (s,some .expired)
  | q::queries =>
    let s := s.execute .queryMigrate q.reply q.exits
    match q.ends with
    | some e => (s,e)
    | none => waitQEMUMigration s queries

structure QuitAnswer where
  reply : Reply
  /-- The process is gone in time. -/
  gone : Bool
  killed : Bool

/-- `quitLocked`, which returns when the process is gone. -/
def quitLocked (s : State) (a : QuitAnswer) : State × Bool :=
  if s.active = false then (s,true)
  else (s.execute .quit a.reply true,a.gone || (a.reply = .ok && a.killed))

structure Answers where
  supported : Bool
  /-- The context has ended at the start. -/
  expired : Bool
  /-- The machine has a QMP connection. -/
  connected : Bool
  prepares : PrepareStep → Bool
  /-- The removal of the temporary file, whose error is ignored. -/
  removes : Bool
  stop : Reply
  stopExits : Bool
  migrate : Reply
  migrateExits : Bool
  queries : List Query
  cont : Reply
  contExits : Bool
  commits : CommitStep → Bool
  commitExits : Bool
  quit : QuitAnswer

inductive SuspendError
  | unsupported
  | expired
  | notActive
  | noPath
  | owned (path : String)
  | prepare (step : PrepareStep)
  | pause
  | migrate
  | wait (e : WaitError)
  | commit (step : CommitStep)
  | quit
  deriving DecidableEq

variable (a : Answers)

/-- The deferred resume. -/
def resume (s : State) : State :=
  if s.active then s.execute .cont a.cont a.contExits else s

/-- From the pause on; the temporary file is removed unless the save is committed. -/
def save (s : State) : State × Option SuspendError :=
  let s := s.execute .stop a.stop a.stopExits
  -- the resume is deferred behind the pause
  if a.stop ≠ .ok then (s,some .pause)
  else
    let s := s.execute .migrate a.migrate a.migrateExits
    if a.migrate ≠ .ok then (resume a s,some .migrate)
    else
      match waitQEMUMigration s a.queries with
      | (s,some e) => (resume a s,some (.wait e))
      | (s,none) =>
        -- from here on an error does not resume the guest
        let s := s.exits a.commitExits
        match commitQEMUSave a.commits with
        | some step =>
          ({ s with temporary := s.temporary && !step.behindRename, renamed := step.behindRename },some (.commit step))
        | none =>
          match quitLocked { s with temporary := false, renamed := true } a.quit with
          | (s,true) => (s,none)
          | (s,false) => (s,some .quit)

def retain (self : ℕ) (path : String) (s : State) : State :=
  { s with saved := Function.update s.saved path (some self) }

def forget (self : ℕ) (s : State) : State :=
  { s with saved := fun path => if s.saved path = some self then none else s.saved path }

/-- The checks before anything is done. -/
def refusal (self : ℕ) (path : String) (s : State) : Option SuspendError :=
  if a.supported = false then some .unsupported
  else if a.expired then some .expired
  else if s.active = false ∨ a.connected = false then some .notActive
  else if path = "" then some .noPath
  else if (s.saved path).any (· ≠ self) then some (.owned path)
  else none

def suspend (self : ℕ) (path : String) (s : State) : State × Option SuspendError :=
  match refusal a self path s with
  | some e => (s,some e)
  | none =>
    let s := retain self path s
    match prepareQEMUSave a.prepares with
    | some step => (forget self { s with temporary := step.leaves a.removes },some (.prepare step))
    | none =>
      match save a { s with temporary := true } with
      | (s,none) => (s,none)
      | (s,some e) => (forget self { s with temporary := s.temporary && !a.removes },some e)

/-- The last command was a resume, and it was not accepted. -/
def State.ResumeRefused (s : State) : Prop := ∃ reply, reply ≠ .ok ∧ s.issued.getLast? = some (.cont,reply)

variable {a}

lemma getLast_execute (s : State) (command : Command) (reply : Reply) (exits : Bool) :
    (s.execute command reply exits).issued.getLast? = some (command,reply) := by
  simp [State.execute]

theorem Query.reply_of_ends_well {q : Query} (h : q.ends = some none) : q.reply = .ok := by
  by_contra hrpl
  rw [Query.ends,if_pos hrpl] at h
  cases h

theorem waitQEMUMigration_running {s s' : State} {queries : List Query} {e : Option WaitError}
    (h : waitQEMUMigration s queries = (s',e)) :
    s'.running = s.running ∧ (e = none → s'.issued.getLast? = some (.queryMigrate,.ok)) := by
  induction queries generalizing s with
  | nil =>
    cases h
    exact ⟨rfl,fun he => by cases he⟩
  | cons q queries ih =>
    rw [waitQEMUMigration] at h
    cases hen : q.ends with
    | none =>
      simp only [hen] at h
      have hrs := ih h
      exact hrs
    | some e' =>
      rw [hen] at h
      cases h
      refine ⟨rfl,fun he => ?_⟩
      rw [getLast_execute,Query.reply_of_ends_well (hen.trans (congrArg some he))]

theorem quitLocked_gone {s s' : State} {q : QuitAnswer} {ok : Bool} (h : quitLocked s q = (s',ok)) :
    s'.active = false := by
  unfold quitLocked at h
  split_ifs at h with hact
  · obtain ⟨rfl,-⟩ := Prod.mk.inj h
    exact hact
  · obtain ⟨rfl,-⟩ := Prod.mk.inj h
    simp [State.execute,State.exits]

theorem resume_running {s : State} (h : (resume a s).active) :
    (resume a s).running ∨ (resume a s).ResumeRefused := by
  unfold resume at h ⊢
  split_ifs at h ⊢ with hact
  · by_cases hrpl : a.cont = .ok
    · left
      simp [State.execute,hrpl,Reply.done]
    · exact .inr ⟨a.cont,hrpl,getLast_execute s .cont a.cont a.contExits⟩
  · exact absurd h hact

/-- The errors of the commit, and of a pause that was carried out. -/
def Answers.LeavesPaused (a : Answers) : SuspendError → Prop
  | .pause => a.stop = .lost
  | .commit _ => True
  | _ => False

theorem not_resumed_of_paused {s : State} {command : Command} {reply : Reply} (hrn : s.running = false)
    (hla : s.issued.getLast? = some (command,reply)) (hcomm : command ≠ .cont) :
    ¬ (s.running ∨ s.ResumeRefused) := by
  rintro (hrun | ⟨r,-,hr⟩)
  · simp [hrn] at hrun
  · rw [hla] at hr
    exact hcomm (Prod.mk.inj (Option.some.inj hr)).1

/-- A pause that fails leaves the guest paused exactly if it was carried out. -/
theorem pause_resumed_iff {s : State} (hs : s.running) (hsp : a.stop ≠ .ok) :
    ((s.execute .stop a.stop a.stopExits).running ∨ (s.execute .stop a.stop a.stopExits).ResumeRefused) ↔
      ¬ a.LeavesPaused .pause := by
  by_cases hlost : a.stop = .lost
  · refine iff_of_false ?_ fun h => h hlost
    refine not_resumed_of_paused ?_ (getLast_execute s .stop a.stop a.stopExits) (by decide)
    simp [State.execute,hlost,Reply.done]
  · refine iff_of_true (.inl ?_) hlost
    cases hrpl : a.stop with
    | ok => exact absurd hrpl hsp
    | lost => exact absurd hrpl hlost
    | refused => exact hs
    | unsent => exact hs

theorem save_resumed_iff {s : State} (hs : s.running) {e : SuspendError} (he : (save a s).2 = some e)
    (hact : (save a s).1.active) :
    ((save a s).1.running ∨ (save a s).1.ResumeRefused) ↔ ¬ a.LeavesPaused e := by
  unfold save at he hact ⊢
  by_cases hsp : a.stop = .ok
  · have hpaused : (s.execute .stop a.stop a.stopExits).running = false := by simp [State.execute,hsp,Reply.done]
    simp only [hsp,ne_eq] at he hact ⊢
    rw [hsp] at hpaused
    generalize s.execute .stop .ok a.stopExits = s₁ at he hact hpaused ⊢
    by_cases hmigr : a.migrate = .ok
    · simp only [hmigr,not_true_eq_false,if_false] at he hact ⊢
      have hrn : (s₁.execute .migrate .ok a.migrateExits).running = false := hpaused
      generalize s₁.execute .migrate .ok a.migrateExits = s₂ at he hact hrn ⊢
      rcases hwait : waitQEMUMigration s₂ a.queries with ⟨s₃,failed⟩
      obtain ⟨hsm,hla⟩ := waitQEMUMigration_running hwait
      simp only [hwait] at he hact ⊢
      cases failed with
      | some e' =>
        cases he
        exact iff_of_true (resume_running hact) fun h => h
      | none =>
        cases hcommit : commitQEMUSave a.commits with
        | some step =>
          simp only [hcommit] at he hact ⊢
          cases he
          refine iff_of_false ?_ fun h => h trivial
          exact not_resumed_of_paused (hsm.trans hrn) (hla rfl) (by decide)
        | none =>
          -- when the quit fails the process is gone
          simp only [hcommit] at he hact
          split at he
          · cases he
          · rename_i s₄ hquit
            rw [hquit] at hact
            exact absurd hact (by simp [quitLocked_gone hquit])
    · simp only [hmigr] at he hact ⊢
      cases he
      exact iff_of_true (resume_running hact) fun h => h
  · simp only [ne_eq,hsp] at he ⊢
    cases he
    exact pause_resumed_iff hs hsp

theorem refusal_not_paused {self : ℕ} {path : String} {s : State} {e : SuspendError}
    (h : refusal a self path s = some e) : ¬ a.LeavesPaused e := by
  unfold refusal at h
  split_ifs at h <;> obtain rfl := Option.some.inj h <;> exact id

/-- Whatever fails in a suspend: if the process is active, the guest runs again or its resume was
refused, except exactly if the error is the commit's, or that of a pause carried out all the same.
-/
theorem failed_suspend_resumed_iff (a : Answers) (self : ℕ) (path : String) (s : State) (hs : s.running = true)
    (e : SuspendError) (he : (suspend a self path s).2 = some e) (hact : (suspend a self path s).1.active = true) :
    ((suspend a self path s).1.running = true ∨ (suspend a self path s).1.ResumeRefused) ↔ ¬ a.LeavesPaused e := by
  unfold suspend at he hact ⊢
  cases hrefu : refusal a self path s with
  | some early =>
    simp only [hrefu] at he ⊢
    obtain rfl := Option.some.inj he
    exact iff_of_true (.inl hs) (refusal_not_paused hrefu)
  | none =>
    simp only [hrefu] at he hact ⊢
    cases hprep : prepareQEMUSave a.prepares with
    | some step =>
      simp only [hprep] at he ⊢
      obtain rfl := Option.some.inj he
      exact iff_of_true (.inl hs) id
    | none =>
      simp only [hprep] at he hact ⊢
      rcases hsave : save a { retain self path s with temporary := true } with ⟨s',failed⟩
      simp only [hsave] at he hact ⊢
      cases failed with
      | none => cases he
      | some e' =>
        obtain rfl := Option.some.inj he
        have hiff := save_resumed_iff (a := a) (s := { retain self path s with temporary := true }) hs (e := e')
        rw [hsave] at hiff
        exact hiff rfl hact

def guest : State := ⟨true,true,[],fun _ => none,false,false⟩

/-- Everything works. -/
def smooth : Answers where
  supported := true
  expired := false
  connected := true
  prepares _ := true
  removes := true
  stop := .ok
  stopExits := false
  migrate := .ok
  migrateExits := false
  queries := [⟨.ok,"active","",false,false⟩,⟨.ok,"completed","",false,false⟩]
  cont := .ok
  contExits := false
  commits _ := true
  commitExits := false
  quit := ⟨.ok,true,true⟩

-- the machine is retained with its save and QEMU is gone
example : (suspend smooth 0 "n.vzstate" guest).2 = none ∧
    (suspend smooth 0 "n.vzstate" guest).1.saved "n.vzstate" = some 0 ∧
    (suspend smooth 0 "n.vzstate" guest).1.active = false := by decide

/-- QEMU does not take the file. -/
def migrationRefused : Answers := { smooth with migrate := .refused }

/-- The file cannot be put in place. -/
def renameFails : Answers := { smooth with commits := fun step => step ≠ .rename }

theorem guest_resumed_after_migration :
    (suspend migrationRefused 0 "n.vzstate" guest).2 = some .migrate ∧
      (suspend migrationRefused 0 "n.vzstate" guest).1.active = true ∧
      ((suspend migrationRefused 0 "n.vzstate" guest).1.running = true ∨
        (suspend migrationRefused 0 "n.vzstate" guest).1.ResumeRefused) := by
  have herr : (suspend migrationRefused 0 "n.vzstate" guest).2 = some .migrate := by decide +kernel
  have hact : (suspend migrationRefused 0 "n.vzstate" guest).1.active = true := by decide +kernel
  exact ⟨herr,hact,(failed_suspend_resumed_iff migrationRefused 0 "n.vzstate" guest rfl .migrate herr hact).mpr id⟩

/-- The process is active and the guest is paused, with no command to resume it. -/
theorem guest_paused_after_commit :
    (suspend renameFails 0 "n.vzstate" guest).2 = some (.commit .rename) ∧
      (suspend renameFails 0 "n.vzstate" guest).1.active = true ∧
      (suspend renameFails 0 "n.vzstate" guest).1.running = false ∧
      (suspend renameFails 0 "n.vzstate" guest).1.issued =
        [(.stop,.ok),(.migrate,.ok),(.queryMigrate,.ok),(.queryMigrate,.ok)] := by
  decide +kernel

end TalosBox.QemuSuspend
