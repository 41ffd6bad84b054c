import Mathlib

/-! `Close` of a QEMU machine. It is made to be called again: what it has released it drops, the
rest it tries again. The network attachment's `Close` runs once and remembers how it went. -/
open List

namespace TalosBox.QemuClose

/-- The causes that are joined in an error; without any there is none. -/
inductive Failure
  | quit
  | kill
  | qmp
  | file
  | release
  deriving DecidableEq

/-- Those of the network attachment. -/
def Failure.network : Failure → Bool
  | .file | .release => true
  | .quit | .kill | .qmp => false

/-- Which of the operations of a call succeed. -/
structure Answers where
  quit : Bool
  /-- The process is gone in time. -/
  exits : Bool
  kill : Bool
  qmp : Bool
  file : Bool
  release : Bool

/-- Nothing is in the way any more. -/
def Answers.Works (a : Answers) : Prop :=
  (a.exits ∨ a.kill) ∧ a.qmp ∧ a.file ∧ a.release

/-- `helper.Attachment`: what there is to release, and what the one release came to. -/
structure Attachment where
  file : Bool
  release : Bool
  done : Bool
  err : List Failure

def newAttachment : Attachment := ⟨true,true,false,[]⟩

/-- `Attachment.Close`, which returns the error it leaves behind. -/
def Attachment.close (t : Attachment) (a : Answers) : Attachment :=
  if t.done then t
  else
    { file := false
      release := false
      done := true
      err := (if t.file && !a.file then [.file] else []) ++
        if t.release && !a.release then [.release] else [] }

/-- A machine, and the machines its backend retains for a saved state, by its path. -/
structure Machine where
  closed : Bool
  running : Bool
  qmp : Bool
  console : Bool
  consoleGuest : Bool
  guestAgent : Bool
  attachment : Option Attachment
  qmpPath : Bool
  saved : String → Option ℕ

namespace Machine

variable (self : ℕ)

def active (m : Machine) : Bool := !m.closed && m.running

/-- `forceStopLocked` without a prior error. It returns when the process is gone. -/
def forceStop (m : Machine) (a : Answers) : Machine × List Failure :=
  if m.active then
    ({ m with running := false },
      if a.exits || a.kill then []
      else (if m.qmp && !a.quit then [.quit] else [])++[.kill])
  else (m,[])

def forget (m : Machine) : Machine :=
  { m with saved := fun path => if m.saved path = some self then none else m.saved path }

/-- What is done once nothing can fail any more. -/
def finish (m : Machine) : Machine × List Failure :=
  ({ m with attachment := none, qmpPath := false, closed := true }.forget self,[])

/-- `Close` behind the stop: the errors of the console and of the guest agent are dropped. -/
def releaseResources (m : Machine) (a : Answers) : Machine × List Failure :=
  let m := { m with console := false, consoleGuest := false, guestAgent := false }
  match m.attachment with
  | none => m.finish self
  | some t =>
    let t := t.close a
    if t.err = [] then m.finish self else ({ m with attachment := some t },t.err)

def close (m : Machine) (a : Answers) : Machine × List Failure :=
  if m.closed then (m,[])
  else
    let stopped := m.forceStop a
    let stopErr := stopped.2++if m.qmp && !a.qmp then [.qmp] else []
    let m := { stopped.1 with qmp := false }
    if stopErr = [] then m.releaseResources self a else (m,stopErr)

end Machine

inductive Event
  | close (a : Answers)
  /-- The process ends by itself. -/
  | exit

variable (self : ℕ)

/-- The machine after the events, and what the calls returned. -/
def run (m : Machine) : List Event → Machine × List (List Failure)
  | [] => (m,[])
  | .close a::events =>
    let rest := run (m.close self a).1 events
    (rest.1,(m.close self a).2::rest.2)
  | .exit::events => run { m with running := false } events

/-- The machine is closed and its backend has dropped it. -/
def Machine.Released (m : Machine) : Prop := m.closed ∧ ∀ path, m.saved path ≠ some self

/-- A machine that is not closed, with a network attachment that has not been. -/
def Machine.Fresh (m : Machine) : Prop := m.closed = false ∧ ∀ t, m.attachment = some t → t.done = false

/-- The attachment keeps the error of its release. -/
def Machine.Stuck (m : Machine) : Prop :=
  m.closed = false ∧ ∃ t, m.attachment = some t ∧ t.done ∧ t.err ≠ []

def Machine.Ready (m : Machine) : Prop := m.Fresh ∨ m.Released self

section

variable {self} {m : Machine} {a : Answers}

theorem released_finish (m : Machine) : (m.finish self).1.Released self := by
  refine ⟨rfl,fun path => ?_⟩
  simp only [Machine.finish,Machine.forget]
  split_ifs with h
  · exact nofun
  · exact h

theorem network_err_close {t : Attachment} (h : t.done = false) :
    ∀ f ∈ (t.close a).err, f.network := by
  intro f hf
  simp only [Attachment.close,h,Bool.false_eq_true,if_false,mem_append] at hf
  rcases hf with hf | hf
  · split_ifs at hf
    · obtain rfl := mem_singleton.1 hf
      rfl
    · cases hf
  · split_ifs at hf
    · obtain rfl := mem_singleton.1 hf
      rfl
    · cases hf

theorem done_close (t : Attachment) (a : Answers) : (t.close a).done := by
  unfold Attachment.close
  by_cases h : t.done
  · rw [if_pos h]
    exact h
  · rw [if_neg h]

lemma close_of_done {t : Attachment} (h : t.done) (a : Answers) : t.close a = t := by
  rw [Attachment.close,if_pos h]

lemma err_close_of_works {t : Attachment} (h : t.done = false) (ha : a.Works) : (t.close a).err = [] := by
  simp [Attachment.close,h,ha.2.2.1,ha.2.2.2]

theorem forceStop_frame (m : Machine) (a : Answers) :
    (m.forceStop a).1.closed = m.closed ∧ (m.forceStop a).1.attachment = m.attachment ∧
      ∀ f ∈ (m.forceStop a).2, f.network = false := by
  unfold Machine.forceStop
  split_ifs with hact hgn hquit
  · exact ⟨rfl,rfl,nofun⟩
  · refine ⟨rfl,rfl,fun f hf => ?_⟩
    simp only [cons_append,nil_append,mem_cons,not_mem_nil,or_false] at hf
    rcases hf with rfl | rfl <;> rfl
  · refine ⟨rfl,rfl,fun f hf => ?_⟩
    obtain rfl := mem_singleton.1 hf
    rfl
  · exact ⟨rfl,rfl,nofun⟩

theorem forceStop_of_works (m : Machine) (ha : a.Works) : (m.forceStop a).2 = [] := by
  have hgn : (a.exits || a.kill) := by simpa using ha.1
  simp only [Machine.forceStop]
  split_ifs <;> rfl

/-- `Close` stops with an error of the stop, or goes on to the resources with the same attachment.
-/
inductive Closing (self : ℕ) (m : Machine) (a : Answers) : Machine × List Failure → Prop
  | stop (m' : Machine) (err : List Failure) (hcls : m'.closed = false)
      (hatt : m'.attachment = m.attachment) (herr : err ≠ []) (hki : ∀ f ∈ err, f.network = false)
      (hfails : ¬ a.Works) : Closing self m a (m',err)
  | resources (m' : Machine) (hcls : m'.closed = false) (hatt : m'.attachment = m.attachment) :
      Closing self m a (m'.releaseResources self a)

theorem closing (self : ℕ) (h : m.closed = false) (a : Answers) : Closing self m a (m.close self a) := by
  obtain ⟨hcls,hatt,hki⟩ := forceStop_frame m a
  have hsp := forceStop_of_works m (a := a)
  unfold Machine.close
  rw [if_neg (by simp [h])]
  dsimp only
  split_ifs with hqmp herr herr
  · exact absurd (append_eq_nil_iff.1 herr).2 (by simp)
  · refine .stop _ _ (hcls.trans h) hatt herr (fun f hf => ?_) fun ha => ?_
    · rcases mem_append.1 hf with hf | hf
      · exact hki f hf
      · obtain rfl := mem_singleton.1 hf
        rfl
    · simp [ha.2.1] at hqmp
  · exact .resources _ (hcls.trans h) hatt
  · refine .stop _ _ (hcls.trans h) hatt herr (fun f hf => ?_) fun ha => herr ?_
    · exact hki f (by simpa using hf)
    · rw [hsp ha,append_nil]

/-- Behind the stop a fresh machine is released, or its attachment has failed. -/
theorem releaseResources_cases (self : ℕ) (h : m.Fresh) (a : Answers) :
    ((m.releaseResources self a).2 = [] ∧ (m.releaseResources self a).1.Released self) ∨
      (m.releaseResources self a).1.Stuck ∧ ¬ a.Works ∧
        ∃ f ∈ (m.releaseResources self a).2, f.network := by
  unfold Machine.releaseResources
  cases hatt : m.attachment with
  | none => exact .inl ⟨rfl,released_finish _⟩
  | some t =>
    have hdn := h.2 t hatt
    dsimp only
    by_cases herr : (t.close a).err = []
    · rw [if_pos herr]
      exact .inl ⟨rfl,released_finish _⟩
    · rw [if_neg herr]
      refine .inr ⟨⟨h.1,t.close a,rfl,done_close t a,herr⟩,fun ha => herr (err_close_of_works hdn ha),?_⟩
      obtain ⟨f,hf⟩ := exists_mem_of_ne_nil _ herr
      exact ⟨f,hf,network_err_close hdn f hf⟩

theorem close_ready (h : m.Ready self) (a : Answers) :
    ((m.close self a).1.Ready self ∧ ∀ f ∈ (m.close self a).2, f.network = false) ∨
      (m.close self a).1.Stuck ∧ ∃ f ∈ (m.close self a).2, f.network := by
  rcases h with h | h
  · have hclg := closing self h.1 a
    generalize m.close self a = outcome at hclg
    cases hclg with
    | stop m' err hcls hatt _ hki =>
      exact .inl ⟨.inl ⟨hcls,fun t ht => h.2 t (hatt ▸ ht)⟩,hki⟩
    | resources m' hcls hatt =>
      have hfrs : m'.Fresh := ⟨hcls,fun t ht => h.2 t (hatt ▸ ht)⟩
      rcases releaseResources_cases self hfrs a with ⟨hnil,hrel⟩ | ⟨hstk,-,hki⟩
      · exact .inl ⟨.inr hrel,by simp [hnil]⟩
      · exact .inr ⟨hstk,hki⟩
  · rw [Machine.close,if_pos h.1]
    exact .inl ⟨.inr h,nofun⟩

/-- An attachment whose release has failed fails every call that gets to it. -/
theorem close_stuck (h : m.Stuck) (a : Answers) :
    (m.close self a).1.Stuck ∧ (m.close self a).2 ≠ [] := by
  obtain ⟨hcls,t,ht,hdn,herr⟩ := h
  have hclg := closing self hcls a
  generalize m.close self a = outcome at hclg
  cases hclg with
  | stop m' err hcls hatt hne =>
    exact ⟨⟨hcls,t,hatt.trans ht,hdn,herr⟩,hne⟩
  | resources m' hcls hatt =>
    simp only [Machine.releaseResources,hatt,ht,close_of_done hdn,if_neg herr]
    exact ⟨⟨hcls,t,rfl,hdn,herr⟩,herr⟩

theorem run_stuck (h : m.Stuck) (events : List Event) : (run self m events).1.Stuck := by
  induction events generalizing m with
  | nil => exact h
  | cons event events ih =>
    cases event with
    | close a => exact ih (close_stuck h a).1
    | exit => exact ih h

theorem close_works (h : m.Ready self) (ha : a.Works) :
    (m.close self a).2 = [] ∧ (m.close self a).1.Released self := by
  rcases h with h | h
  · have hclg := closing self h.1 a
    generalize m.close self a = outcome at hclg
    cases hclg with
    | stop _ _ _ _ _ _ hfails => exact absurd ha hfails
    | resources m' hcls hatt =>
      have hfrs : m'.Fresh := ⟨hcls,fun t ht => h.2 t (hatt ▸ ht)⟩
      rcases releaseResources_cases self hfrs a with hdn | ⟨-,hfails,-⟩
      · exact hdn
      · exact absurd ha hfails
  · rw [Machine.close,if_pos h.1]
    exact ⟨rfl,h⟩

/-- A machine can be released or is stuck, the latter exactly if a call returned the attachment's
error. -/
theorem run_ready (h : m.Ready self) (events : List Event) :
    ((run self m events).1.Ready self ∧ ∀ err ∈ (run self m events).2, ∀ f ∈ err, f.network = false) ∨
      (run self m events).1.Stuck ∧ ∃ err ∈ (run self m events).2, ∃ f ∈ err, f.network := by
  induction events generalizing m with
  | nil => exact .inl ⟨h,nofun⟩
  | cons event events ih =>
    cases event with
    | close a =>
      rcases close_ready h a with ⟨hrdy,hki⟩ | ⟨hstk,hki⟩
      · rcases ih hrdy with ⟨hrdy,hrs⟩ | ⟨hstk,err,herr,hrs⟩
        · exact .inl ⟨hrdy,forall_mem_cons.2 ⟨hki,hrs⟩⟩
        · exact .inr ⟨hstk,err,mem_cons_of_mem _ herr,hrs⟩
      · exact .inr ⟨run_stuck hstk events,_,mem_cons_self,hki⟩
    | exit => exact ih (h.imp id id)

end

/-- A call that meets no failure returns no error, closes the machine and has it dropped, exactly if
no earlier call returned the attachment's error. -/
theorem later_close_succeeds_iff (self : ℕ) (m : Machine) (hm : m.Fresh) (events : List Event) (a : Answers)
    (ha : a.Works) :
    (((run self m events).1.close self a).2 = [] ∧ ((run self m events).1.close self a).1.Released self) ↔
      ∀ err ∈ (run self m events).2, ∀ f ∈ err, f.network = false := by
  have hfst : m.Ready self := .inl hm
  rcases run_ready hfst events with ⟨hrdy,hkind⟩ | ⟨hstk,err,herr,f,hf,hkind⟩
  · exact iff_of_true (close_works hrdy ha) hkind
  · refine iff_of_false (fun h => (close_stuck hstk a).2 h.1) fun h => ?_
    simp [h err herr f hf] at hkind

def retained : Machine where
  closed := false
  running := true
  qmp := true
  console := true
  consoleGuest := true
  guestAgent := true
  attachment := some newAttachment
  qmpPath := true
  saved path := if path = "n.vzstate" then some 0 else none

def smooth : Answers := ⟨true,true,true,true,true,true⟩

theorem close_after_failed_stop :
    (run 0 retained [.close { smooth with exits := false, kill := false }]).2 = [[.kill]] ∧
      ((run 0 retained [.close { smooth with exits := false, kill := false }]).1.close 0 smooth).2 = [] ∧
      ((run 0 retained [.close { smooth with exits := false, kill := false }]).1.close 0 smooth).1.Released 0 := by
  have hresu : (run 0 retained [.close { smooth with exits := false, kill := false }]).2 = [[.kill]] := by
    decide +kernel
  have hfrs : retained.Fresh := ⟨rfl,fun t ht => by cases ht; rfl⟩
  have hworks : smooth.Works := ⟨.inl rfl,rfl,rfl,rfl⟩
  refine ⟨hresu,(later_close_succeeds_iff 0 retained hfrs _ smooth hworks).mpr ?_⟩
  decide

/-- Closing the descriptor fails once; the next call returns the same error and the machine stays
retained. -/
theorem close_after_failed_descriptor :
    (run 0 retained [.close { smooth with file := false }]).2 = [[.file]] ∧
      ((run 0 retained [.close { smooth with file := false }]).1.close 0 smooth).2 = [.file] ∧
      ((run 0 retained [.close { smooth with file := false }]).1.close 0 smooth).1.closed = false ∧
      ((run 0 retained [.close { smooth with file := false }]).1.close 0 smooth).1.saved "n.vzstate" = some 0 := by
  decide +kernel

end TalosBox.QemuClose
