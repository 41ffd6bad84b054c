import TalosBox.StorageVerdicts

/-! `runProvisionTasks` statement by statement, with its tasks' waiters: a task's `done` channel is
closed in the loop after its pass, or by the deferred loop. What the loop does under the operation
lock are its goroutine's moves. -/
namespace TalosBox.StoragePasses

open List Option
open Function (update update_of_ne update_self)

/-- Where a `runProvisionTasks` is. -/
inductive Stage
  /-- In the loop, up to `finishProvision`, or at its head. -/
  | body
  /-- `finishProvision` has returned. -/
  | marking
  /-- `finished` counts the task. -/
  | closing
  /-- In the deferred loop, with the task at the position next. -/
  | leaving (position : ℕ)
  | returned
  deriving DecidableEq

structure Loop where
  tasks : List Task
  index : ℕ
  finished : ℕ
  stage : Stage

namespace Loop

/-- Where the loop goes with a move of its goroutine. -/
def follow (l : Loop) : RunnerMove → Loop
  | .finish => { l with stage := .marking }
  | .abort => { l with stage := .leaving l.finished }
  | .next => if l.index < l.tasks.length then l else { l with stage := .leaving l.finished }
  | _ => l

/-- How many of its tasks it has closed, from the first on. -/
def closed (l : Loop) : ℕ :=
  match l.stage with
  | .leaving position => position
  | .returned => l.tasks.length
  | _ => l.index

end Loop

/-- The daemon with its loops. -/
structure Waiting where
  sys : Sys
  loops : ℕ → Loop
  /-- How often the `done` channel of the task of a generation has been closed. -/
  closes : ℕ → ℕ

/-- Beside the operation lock a loop advances `finished`, closes its task's channel, or that of a
task it leaves behind. -/
inductive Act
  | daemon (m : Move)
  | mark (i : ℕ)
  | close (i : ℕ)
  | release (i : ℕ)

namespace Waiting

def initial : Waiting := ⟨StoragePasses.initial,fun _ => ⟨[],0,0,.returned⟩,fun _ => 0⟩

def enter (w : Waiting) (i : ℕ) (l : Loop) : Waiting :=
  { w with loops := update w.loops i l }

/-- `task.finish()`. -/
def finish (w : Waiting) (t : Task) : Waiting :=
  { w with closes := update w.closes t.generation (w.closes t.generation + 1) }

/-- The tasks that are begun are handed to a loop of their own. -/
def handOut (w : Waiting) (items : List Item) (skipStorage : Bool) : Waiting :=
  { w.enter w.sys.started ⟨(w.sys.beginProvisionTasks skipStorage items).2,0,0,.body⟩ with
    sys := w.sys.provision items skipStorage }

def step (w : Waiting) : Act → Option Waiting
  | .daemon (.provision items) => some (w.handOut items false)
  | .daemon (.bgp item) => some (w.handOut [item] (w.sys.bgpSkipsStorage item.name))
  | .daemon (.runner i m) =>
    if (w.loops i).stage = .body then
      (StoragePasses.step w.sys (.runner i m)).map fun sys =>
        { w.enter i ((w.loops i).follow m) with sys := sys }
    else none
  | .daemon m => (StoragePasses.step w.sys m).map fun sys => { w with sys := sys }
  | .mark i =>
    if (w.loops i).stage = .marking then
      some (w.enter i { w.loops i with finished := (w.loops i).index + 1, stage := .closing })
    else none
  | .close i =>
    if (w.loops i).stage = .closing then
      (w.loops i).tasks[(w.loops i).index]?.map fun t =>
        (w.finish t).enter i { w.loops i with index := (w.loops i).index + 1, stage := .body }
    else none
  | .release i =>
    match (w.loops i).stage with
    | .leaving position =>
      match (w.loops i).tasks[position]? with
      | some t => some ((w.finish t).enter i { w.loops i with stage := .leaving (position + 1) })
      | none => some (w.enter i { w.loops i with stage := .returned })
    | _ => none

def run (w : Waiting) (acts : List Act) : Option Waiting := StepRuns.run step w acts

end Waiting

variable {w w' : Waiting}

theorem Waiting.step_sys {a : Act} (h : w.step a = some w') :
    w'.sys = w.sys ∨ ∃ m, a = .daemon m ∧ StoragePasses.step w.sys m = some w'.sys := by
  cases a with
  | daemon m =>
    refine .inr ⟨m,rfl,?_⟩
    cases m with
    | provision items =>
      cases h
      rfl
    | bgp item =>
      cases h
      rfl
    | runner i m =>
      simp only [Waiting.step] at h
      split_ifs at h
      obtain ⟨sys,hsys,rfl⟩ := map_eq_some_iff.1 h
      exact hsys
    | _ =>
      simp only [Waiting.step] at h
      obtain ⟨sys,hsys,rfl⟩ := map_eq_some_iff.1 h
      exact hsys
  | mark i =>
    simp only [Waiting.step] at h
    split_ifs at h
    cases h
    exact .inl rfl
  | close i =>
    simp only [Waiting.step] at h
    split_ifs at h
    obtain ⟨t,-,rfl⟩ := map_eq_some_iff.1 h
    exact .inl rfl
  | release i =>
    simp only [Waiting.step] at h
    split at h
    · split at h
      · cases h
        exact .inl rfl
      · cases h
        exact .inl rfl
    · cases h

/-- The tasks whose pass is not off the register yet. -/
def Runner.unfinished : Runner → List Task
  | .idle => []
  | .working t rest => t::rest
  | .ended t _ rest => t::rest
  | .recorded t _ rest => t::rest
  | .retired _ rest => rest
  | .returned => []

/-- The loop and its goroutine are at the same place. -/
def Loop.Follows (l : Loop) (r : Runner) : Prop :=
  match l.stage with
  | .body => l.finished = l.index ∧ r ≠ .idle ∧ r ≠ .returned ∧
      l.index ≤ l.tasks.length ∧ r.unfinished = l.tasks.drop l.index
  | .marking => l.finished = l.index ∧ l.index < l.tasks.length ∧
      ∃ failed, r = .retired failed (l.tasks.drop (l.index + 1))
  | .closing => l.finished = l.index + 1 ∧ l.index < l.tasks.length ∧
      ∃ failed, r = .retired failed (l.tasks.drop (l.index + 1))
  | .leaving position => position ≤ l.tasks.length
  | .returned => True

theorem Loop.tasks_follow (l : Loop) (m : RunnerMove) : (l.follow m).tasks = l.tasks := by
  unfold Loop.follow
  split
  · rfl
  · rfl
  · split_ifs <;> rfl
  · rfl

theorem lt_of_drop_eq_cons {tasks : List Task} {index : ℕ} {t : Task} {rest : List Task}
    (h : tasks.drop index = t::rest) : index < tasks.length ∧ rest = tasks.drop (index + 1) := by
  have hlt : index < tasks.length := by
    by_contra hge
    rw [drop_of_length_le (not_lt.1 hge)] at h
    cases h
  rw [drop_eq_getElem_cons hlt] at h
  exact ⟨hlt,(cons.inj h).2.symm⟩

lemma not_lt_of_drop_eq_nil {tasks : List Task} {index : ℕ} (h : tasks.drop index = []) :
    ¬ index < tasks.length :=
  not_lt.2 (drop_eq_nil_iff.1 h)

/-- In the body a goroutine with the same tasks left is at the same place. -/
theorem Loop.Follows.stays {l : Loop} {r : Runner} (h : l.Follows r) (hbd : l.stage = .body)
    (r' : Runner) (hil : r' ≠ .idle) (hretu : r' ≠ .returned)
    (hsm : r'.unfinished = r.unfinished) : l.Follows r' := by
  simp only [Loop.Follows,hbd] at h ⊢
  exact ⟨h.1,hil,hretu,h.2.2.2.1,hsm.trans h.2.2.2.2⟩

/-- A move of the goroutine takes the loop along and closes nothing. -/
theorem Loop.Follows.follow {s s' : Sys} {i : ℕ} {m : RunnerMove} {l : Loop}
    (h : l.Follows (s.runners i)) (hbd : l.stage = .body)
    (hst : runnerStep s i m = some s') :
    (l.follow m).Follows (s'.runners i) ∧ (l.follow m).closed = l.closed := by
  obtain ⟨hfini,-,-,hle,htsk⟩ : l.finished = l.index ∧ s.runners i ≠ .idle ∧
      s.runners i ≠ .returned ∧ l.index ≤ l.tasks.length ∧
      (s.runners i).unfinished = l.tasks.drop l.index := by
    simpa only [Loop.Follows,hbd] using h
  have hcls : l.closed = l.index := by simp only [Loop.closed,hbd]
  unfold runnerStep at hst
  split at hst
  · cases hst
    refine ⟨?_,rfl⟩
    rw [(turned_observeProvisionGate s _ _ _).runners]
    exact h
  · rename_i t rest result hi
    cases hst
    rw [hi] at h
    have hended := h.stays hbd (.ended t result rest) (by simp) (by simp) rfl
    exact ⟨by simpa [Sys.enter,Loop.follow] using hended,rfl⟩
  · rename_i t result rest hi
    cases hst
    rw [hi] at h
    have hrec := h.stays hbd (.recorded t result.error.isSome rest) (by simp) (by simp) rfl
    exact ⟨by simpa [Sys.enter,Loop.follow] using hrec,rfl⟩
  · rename_i t failed rest hi
    cases hst
    rw [hi] at htsk
    obtain ⟨hlt,hrs⟩ := lt_of_drop_eq_cons htsk.symm
    refine ⟨⟨hfini,hlt,failed,?_⟩,by simp [Loop.follow,Loop.closed,hbd]⟩
    simp [Sys.enter,Loop.follow,hrs]
  · rename_i t rest hi
    cases hst
    rw [hi] at h htsk
    simp only [Loop.follow,(lt_of_drop_eq_cons htsk.symm).1]
    have hwork := h.stays hbd (.working t rest) (by simp) (by simp) rfl
    simpa [Sys.enter] using hwork
  · rename_i hi
    cases hst
    rw [hi] at htsk
    simp only [Loop.follow,not_lt_of_drop_eq_nil htsk.symm]
    exact ⟨hfini.le.trans hle,hfini.trans hcls.symm⟩
  · cases hst
    exact ⟨hfini.le.trans hle,hfini.trans hcls.symm⟩
  · cases hst

/-- A task is known by its generation, in every loop. -/
theorem Numbered.position {held : ℕ → List Task} {sequence : ℕ} (h : Numbered held sequence)
    {i j p q : ℕ} {t u : Task} (ht : (held i)[p]? = some t) (hu : (held j)[q]? = some u)
    (hgen : t.generation = u.generation) : i = j ∧ p = q := by
  by_cases hij : i = j
  · subst hij
    refine ⟨rfl,?_⟩
    obtain ⟨hp,hpt⟩ := List.getElem?_eq_some_iff.1 ht
    obtain ⟨hq,hqu⟩ := List.getElem?_eq_some_iff.1 hu
    have hpm : p < ((held i).map Task.generation).length := by simpa using hp
    have hqm : q < ((held i).map Task.generation).length := by simpa using hq
    have hsm : ((held i).map Task.generation)[p] = ((held i).map Task.generation)[q] := by
      simpa [hpt,hqu] using hgen
    exact (h.nodup i).getElem_inj_iff.1 hsm
  · exact absurd hgen
      (h.apart i j hij t (mem_of_getElem? ht) u (mem_of_getElem? hu))

/-- What holds of the loops in every state of a run. -/
structure Waited (w : Waiting) : Prop where
  numbered : Numbered (fun i => (w.loops i).tasks) w.sys.sequence
  follows : ∀ i, (w.loops i).Follows (w.sys.runners i)
  unborn : ∀ g, w.sys.sequence < g → w.closes g = 0
  counted : ∀ i p t, (w.loops i).tasks[p]? = some t →
    w.closes t.generation = if p < (w.loops i).closed then 1 else 0

theorem initial_waited : Waited Waiting.initial where
  numbered := numbered_nil 0
  follows _ := trivial
  unborn _ _ := rfl
  counted i p t ht := by simp [Waiting.initial] at ht

theorem Waited.tasks_enter (h : Waited w) (i : ℕ) {l : Loop}
    (htsk : l.tasks = (w.loops i).tasks) :
    Numbered (fun j => ((w.enter i l).loops j).tasks) w.sys.sequence := by
  refine h.numbered.sublist fun j => ?_
  by_cases hj : j = i
  · subst hj
    simp [Waiting.enter,htsk]
  · simp [Waiting.enter,hj]

theorem Waited.enter (h : Waited w) {sys : Sys} (i : ℕ) (l : Loop)
    (htsk : l.tasks = (w.loops i).tasks) (hcls : l.closed = (w.loops i).closed)
    (hsequ : sys.sequence = w.sys.sequence) (hfol : l.Follows (sys.runners i))
    (hos : ∀ j, j ≠ i → sys.runners j = w.sys.runners j) :
    Waited { w.enter i l with sys := sys } where
  numbered := by
    rw [hsequ]
    exact h.tasks_enter i htsk
  follows j := by
    by_cases hj : j = i
    · subst hj
      simpa [Waiting.enter] using hfol
    · simp only [Waiting.enter,update_of_ne hj,hos j hj]
      exact h.follows j
  unborn g hg := h.unborn g (by rwa [← hsequ])
  counted j p t ht := by
    by_cases hj : j = i
    · subst hj
      simp only [Waiting.enter,update_self,htsk] at ht
      simpa [Waiting.enter,hcls] using h.counted j p t ht
    · simp only [Waiting.enter,update_of_ne hj] at ht ⊢
      exact h.counted j p t ht

theorem Waited.finish (h : Waited w) (i : ℕ) (l : Loop) {t : Task}
    (ht : (w.loops i).tasks[(w.loops i).closed]? = some t)
    (htsk : l.tasks = (w.loops i).tasks) (hcls : l.closed = (w.loops i).closed + 1)
    (hfol : l.Follows (w.sys.runners i)) : Waited ((w.finish t).enter i l) where
  numbered := h.tasks_enter i htsk
  follows j := by
    by_cases hj : j = i
    · subst hj
      simpa [Waiting.enter,Waiting.finish] using hfol
    · simp only [Waiting.enter,update_of_ne hj]
      exact h.follows j
  unborn g hg := by
    have hborn := h.numbered.le_sequence i t (mem_of_getElem? ht)
    have hne : g ≠ t.generation := by
      rintro rfl
      exact absurd hborn (not_le.2 hg)
    simpa [Waiting.enter,Waiting.finish,hne] using h.unborn g hg
  counted j p u hu := by
    have hbef : (w.loops j).tasks[p]? = some u := by
      by_cases hj : j = i
      · subst hj
        simpa [Waiting.enter,htsk] using hu
      · simpa [Waiting.enter,Waiting.finish,hj] using hu
    have hcnt := h.counted j p u hbef
    by_cases hgen : u.generation = t.generation
    · obtain ⟨rfl,rfl⟩ := h.numbered.position hbef ht hgen
      simp only [lt_irrefl,if_false] at hcnt
      simp [Waiting.enter,Waiting.finish,hcls,hgen,← hcnt]
    · -- Every other task keeps its count, and its side of the bound.
      have hcloses : ((w.finish t).enter i l).closes u.generation = w.closes u.generation := by
        simp [Waiting.enter,Waiting.finish,hgen]
      rw [hcloses,hcnt]
      by_cases hj : j = i
      · subst hj
        have hp : p ≠ (w.loops j).closed := by
          rintro rfl
          exact hgen (congrArg Task.generation (some.inj (hbef.symm.trans ht)))
        simp only [Waiting.enter,update_self,hcls]
        have hiff : p < (w.loops j).closed ↔ p < (w.loops j).closed + 1 := by omega
        simp only [hiff]
      · simp [Waiting.enter,Waiting.finish,hj]

theorem Waited.handOut (h : Waited w) (items : List Item) (skip : Bool) :
    Waited (w.handOut items skip) := by
  obtain ⟨hgens,hsequ⟩ := generations_beginProvisionTasks skip items w.sys
  have hseq : (w.handOut items skip).sys.sequence =
      w.sys.sequence + (w.sys.beginProvisionTasks skip items).2.length := hsequ
  have hrn : (w.handOut items skip).sys.runners =
      update w.sys.runners w.sys.started
        (.retired false (w.sys.beginProvisionTasks skip items).2) :=
    runners_provision w.sys items skip
  have hhl : (fun i => ((w.handOut items skip).loops i).tasks) =
      update (fun i => (w.loops i).tasks) w.sys.started
        (w.sys.beginProvisionTasks skip items).2 := by
    funext i
    by_cases hi : i = w.sys.started
    · subst hi
      simp [Waiting.handOut,Waiting.enter]
    · simp [Waiting.handOut,Waiting.enter,hi]
  refine ⟨?_,fun i => ?_,fun g hg => h.unborn g (by omega),fun i p t ht => ?_⟩
  · rw [hhl,hseq]
    exact h.numbered.add w.sys.started hgens
  · rw [hrn]
    by_cases hi : i = w.sys.started
    · subst hi
      simp only [Waiting.handOut,Waiting.enter,update_self]
      exact ⟨rfl,nofun,nofun,Nat.zero_le _,rfl⟩
    · simp only [Waiting.handOut,Waiting.enter,update_of_ne hi]
      exact h.follows i
  · by_cases hi : i = w.sys.started
    · subst hi
      simp only [Waiting.handOut,Waiting.enter,update_self] at ht ⊢
      have hnew := (lt_of_mem_range' hgens (mem_of_getElem? ht)).1
      simp [Loop.closed,h.unborn t.generation hnew]
    · simp only [Waiting.handOut,Waiting.enter,update_of_ne hi] at ht ⊢
      exact h.counted i p t ht

theorem Waited.daemon (h : Waited w) {m : Move}
    (hst : w.step (.daemon m) = some w') : Waited w' := by
  by_cases hm : m.registers
  · cases m with
    | provision items =>
      cases hst
      exact h.handOut items false
    | bgp item =>
      cases hst
      exact h.handOut [item] _
    | _ => exact hm.elim
  · by_cases hrunner : ∃ i r, m = .runner i r
    · obtain ⟨i,r,rfl⟩ := hrunner
      simp only [Waiting.step] at hst
      split_ifs at hst with hbd
      obtain ⟨sys,hsys,rfl⟩ := map_eq_some_iff.1 hst
      obtain ⟨hfol,hcls⟩ := (h.follows i).follow hbd hsys
      have hsequ := (step_sequence hsys hm).1
      obtain ⟨s₁,r',htn,rfl,-⟩ := runnerStep_turned hsys
      refine h.enter i _ (Loop.tasks_follow _ _) hcls hsequ hfol ?_
      intro j hj
      simp only [Sys.enter,htn.runners,update_of_ne hj]
    · have hst' : (StoragePasses.step w.sys m).map (fun sys => { w with sys := sys }) =
          some w' := by
        cases m with
        | provision items => exact (hm trivial).elim
        | bgp item => exact (hm trivial).elim
        | runner i r => exact (hrunner ⟨i,r,rfl⟩).elim
        | _ => exact hst
      obtain ⟨sys,hsys,rfl⟩ := map_eq_some_iff.1 hst'
      have hrn := (runners_step hsys hm).resolve_right hrunner
      have hsequ := (step_sequence hsys hm).1
      refine ⟨?_,fun i => ?_,fun g hg => h.unborn g ?_,h.counted⟩
      · simpa only [hsequ] using h.numbered
      · simpa only [hrn] using h.follows i
      · simpa only [hsequ] using hg

theorem Waited.step (h : Waited w) {a : Act} (hst : w.step a = some w') :
    Waited w' := by
  cases a with
  | daemon m => exact h.daemon hst
  | mark i =>
    simp only [Waiting.step] at hst
    split_ifs at hst with hstg
    cases hst
    have hfol := h.follows i
    simp only [Loop.Follows,hstg] at hfol
    refine h.enter i _ rfl (by simp [Loop.closed,hstg]) rfl ?_ fun _ _ => rfl
    exact ⟨rfl,hfol.2⟩
  | close i =>
    simp only [Waiting.step] at hst
    split_ifs at hst with hstg
    obtain ⟨t,ht,rfl⟩ := map_eq_some_iff.1 hst
    have hfol := h.follows i
    simp only [Loop.Follows,hstg] at hfol
    obtain ⟨hfini,hlt,failed,hr⟩ := hfol
    have hcls : (w.loops i).closed = (w.loops i).index := by simp [Loop.closed,hstg]
    refine h.finish i _ (by rwa [hcls]) rfl (by rw [hcls]; rfl) ?_
    rw [hr]
    exact ⟨hfini,nofun,nofun,hlt,rfl⟩
  | release i =>
    simp only [Waiting.step] at hst
    split at hst
    · rename_i position hstg
      have hfol := h.follows i
      simp only [Loop.Follows,hstg] at hfol
      have hcls : (w.loops i).closed = position := by simp [Loop.closed,hstg]
      split at hst
      · rename_i t ht
        cases hst
        refine h.finish i _ (by rwa [hcls]) rfl (by rw [hcls]; rfl) ?_
        exact (List.getElem?_eq_some_iff.1 ht).1
      · rename_i hend
        cases hst
        have hlen : position = (w.loops i).tasks.length :=
          le_antisymm hfol (getElem?_eq_none_iff.1 hend)
        exact h.enter i _ rfl (by simp [Loop.closed,hstg,hlen]) rfl trivial fun _ _ => rfl
    · cases hst

lemma run_waited {acts : List Act} (hrun : Waiting.initial.run acts = some w) :
    Waited w :=
  StepRuns.run_invariant (fun _ _ _ h hst => h.step hst) initial_waited hrun

/-- The acts of the loop's own goroutine. -/
def Act.own (i : ℕ) : Act → Prop
  | .daemon (.runner j _) => j = i
  | .daemon _ => False
  | .mark j => j = i
  | .close j => j = i
  | .release j => j = i

/-- What a loop still has to do before it is at its next task. -/
def Runner.rank : Runner → ℕ
  | .recorded _ _ _ => 3
  | .ended _ _ _ => 4
  | .working _ _ => 5
  | _ => 6

def Loop.ahead (l : Loop) (r : Runner) : ℕ :=
  match l.stage with
  | .returned => 0
  | .leaving position => l.tasks.length - position + 1
  | .closing => l.tasks.length + 8 * (l.tasks.length - l.index) + 3
  | .marking => l.tasks.length + 8 * (l.tasks.length - l.index) + 4
  | .body => l.tasks.length + 8 * (l.tasks.length - l.index) + 2 + r.rank

/-- In the loop the goroutine can make its next move, once its pass has ended. -/
theorem Loop.Follows.moves {s : Sys} {i : ℕ} {l : Loop} (h : l.Follows (s.runners i))
    (hbd : l.stage = .body) : ∃ m s', runnerStep s i m = some s' ∧
      (l.follow m).ahead (s'.runners i) < l.ahead (s.runners i) := by
  simp only [Loop.Follows,hbd] at h
  obtain ⟨hfini,hil,hretu,hle,htsk⟩ := h
  cases hr : s.runners i with
  | idle => exact absurd hr hil
  | returned => exact absurd hr hretu
  | working t rest =>
    refine ⟨.ends ⟨none,none,none_unfailed⟩,_,by simp only [runnerStep,hr]; rfl,?_⟩
    simp [Sys.enter,Loop.follow,Loop.ahead,hbd,Runner.rank]
  | ended t result rest =>
    refine ⟨.record,_,by simp only [runnerStep,hr]; rfl,?_⟩
    simp [Sys.enter,Loop.follow,Loop.ahead,hbd,Runner.rank]
  | recorded t failed rest =>
    refine ⟨.finish,_,by simp only [runnerStep,hr]; rfl,?_⟩
    simp [Loop.follow,Loop.ahead,hbd,Runner.rank]
  | retired failed rest =>
    cases failed with
    | true =>
      refine ⟨.abort,_,by simp only [runnerStep,hr]; rfl,?_⟩
      simp only [Loop.follow,Loop.ahead,hbd]
      omega
    | false =>
      cases rest with
      | cons t rest =>
        rw [hr] at htsk
        have hlt := (lt_of_drop_eq_cons htsk.symm).1
        refine ⟨.next,_,by simp only [runnerStep,hr]; rfl,?_⟩
        simp [Sys.enter,Loop.follow,hlt,Loop.ahead,hbd,Runner.rank]
      | nil =>
        rw [hr] at htsk
        have hge := not_lt_of_drop_eq_nil htsk.symm
        refine ⟨.next,_,by simp only [runnerStep,hr]; rfl,?_⟩
        simp only [Loop.follow,hge,if_false,Loop.ahead,hbd]
        omega

/-- A loop that has not returned can make its next move, and comes nearer to its end. -/
theorem Waited.moves (h : Waited w) (i : ℕ) (hstg : (w.loops i).stage ≠ .returned) :
    ∃ a w', a.own i ∧ w.step a = some w' ∧ (w'.loops i).tasks = (w.loops i).tasks ∧
      (w'.loops i).ahead (w'.sys.runners i) < (w.loops i).ahead (w.sys.runners i) := by
  have hfol := h.follows i
  cases hl : (w.loops i).stage with
  | returned => exact absurd hl hstg
  | body =>
    obtain ⟨m,s',hst,hless⟩ := hfol.moves hl
    have hsys : StoragePasses.step w.sys (.runner i m) = some s' := hst
    refine ⟨.daemon (.runner i m),{ w.enter i ((w.loops i).follow m) with sys := s' },rfl,?_,?_,?_⟩
    · simp only [Waiting.step,hl,if_true,hsys,map_some]
    · simp [Waiting.enter,Loop.tasks_follow]
    · simpa [Waiting.enter] using hless
  | marking =>
    refine ⟨.mark i,_,rfl,by simp only [Waiting.step,hl]; rfl,?_,?_⟩
    · simp [Waiting.enter]
    · simp only [Waiting.enter,update_self,Loop.ahead,hl]
      omega
  | closing =>
    simp only [Loop.Follows,hl] at hfol
    obtain ⟨-,hlt,failed,hr⟩ := hfol
    obtain ⟨t,ht⟩ : ∃ t, (w.loops i).tasks[(w.loops i).index]? = some t :=
      ⟨_,getElem?_eq_getElem hlt⟩
    refine ⟨.close i,_,rfl,by simp only [Waiting.step,hl,ht]; rfl,?_,?_⟩
    · simp [Waiting.enter]
    · simp only [Waiting.enter,Waiting.finish,update_self,Loop.ahead,hl,hr,Runner.rank]
      omega
  | leaving position =>
    cases ht : (w.loops i).tasks[position]? with
    | some t =>
      have hlt := (List.getElem?_eq_some_iff.1 ht).1
      refine ⟨.release i,_,rfl,by simp only [Waiting.step,hl,ht]; rfl,?_,?_⟩
      · simp [Waiting.enter]
      · simp only [Waiting.enter,update_self,Loop.ahead,hl]
        omega
    | none =>
      refine ⟨.release i,_,rfl,by simp only [Waiting.step,hl,ht]; rfl,?_,?_⟩
      · simp [Waiting.enter]
      · simp only [Waiting.enter,update_self,Loop.ahead,hl]
        omega

theorem Waited.returns (h : Waited w) (i : ℕ) :
    ∃ acts w', (∀ a ∈ acts, Act.own i a) ∧ w.run acts = some w' ∧
      (w'.loops i).stage = .returned ∧ (w'.loops i).tasks = (w.loops i).tasks := by
  induction hn : (w.loops i).ahead (w.sys.runners i) using Nat.strong_induction_on
    generalizing w with
  | _ n ih =>
    by_cases hstg : (w.loops i).stage = .returned
    · exact ⟨[],w,by simp,rfl,hstg,rfl⟩
    · obtain ⟨a,w₁,hown,hst,htsk,hless⟩ := h.moves i hstg
      obtain ⟨acts,w',hac,hrun,hend,hkp⟩ := ih _ (hn ▸ hless) (h.step hst) rfl
      refine ⟨a::acts,w',?_,StepRuns.run_cons_eq_some.2 ⟨w₁,hst,hrun⟩,hend,
        hkp.trans htsk⟩
      intro b hb
      obtain rfl | hb := mem_cons.1 hb
      · exact hown
      · exact hac b hb

/-- In every interleaving: what a goroutine changes in a storage verdict is its task's result,
recorded while the task is active. No `done` channel is closed twice, all are closed on return, and
a return can always be reached by its own moves. -/
theorem results_current_and_waiters_released_once {acts : List Act} {w : Waiting}
    (hrun : Waiting.initial.run acts = some w) (i : ℕ) :
    (∀ m w' name, w.step (.daemon (.runner i m)) = some w' →
      w'.sys.verdict name ≠ w.sys.verdict name → ∃ t result rest,
        w.sys.runners i = .ended t result rest ∧ t.item.name = name ∧
        w.sys.current name t.generation = true ∧
        w'.sys.verdict name = (w.sys.verdict name).record result) ∧
      (∀ t ∈ (w.loops i).tasks, w.closes t.generation ≤ 1 ∧
        ((w.loops i).stage = .returned → w.closes t.generation = 1)) ∧
      ∃ own w', (∀ a ∈ own, Act.own i a) ∧ w.run own = some w' ∧
        (w'.loops i).tasks = (w.loops i).tasks ∧
        ∀ t ∈ (w.loops i).tasks, w'.closes t.generation = 1 := by
  have h := run_waited hrun
  have hcls : ∀ {w : Waiting}, Waited w → ∀ t ∈ (w.loops i).tasks, w.closes t.generation ≤ 1 ∧
      ((w.loops i).stage = .returned → w.closes t.generation = 1) := by
    intro w h t ht
    obtain ⟨p,hp⟩ := mem_iff_getElem?.mp ht
    rw [h.counted i p t hp]
    refine ⟨by split_ifs <;> omega,fun hstg => ?_⟩
    have hlt := (List.getElem?_eq_some_iff.mp hp).1
    simp [Loop.closed,hstg,hlt]
  refine ⟨fun m w' name hstep hchange => ?_,hcls h,?_⟩
  · obtain hsame | ⟨m',hm',hsys⟩ := Waiting.step_sys hstep
    · exact absurd (by rw [hsame]) hchange
    · obtain rfl : Move.runner i m = m' := by injection hm'
      have hjudged := judged_runnerStep hsys name
      generalize w'.sys.verdict name = v at hjudged hchange
      cases hjudged with
      | keep => exact absurd rfl hchange
      | clear h => exact h.elim
      | begins h => exact h.elim
      | record hm hi hname _ hcur =>
        obtain ⟨rfl,-⟩ := Move.runner.inj hm
        exact ⟨_,_,_,hi,hname,hcur,rfl⟩
      | ask hm => cases hm
      | report hm => cases hm
      | live hm => cases hm
  · obtain ⟨own,w',hown,hrun',hstg,htsk⟩ := h.returns i
    have h' : Waited w' := StepRuns.run_invariant (fun _ _ _ h hstep => h.step hstep) h hrun'
    exact ⟨own,w',hown,hrun',htsk,fun t ht => (hcls h' t (htsk ▸ ht)).2 hstg⟩

/-- The up of two clusters whose first pass fails, to its end. -/
def failedUpToItsEnd : List Act :=
  failedUp.map .daemon ++
    [.mark 0,.close 0,.daemon (.runner 0 .abort),.release 0,.release 0]

theorem failed_up_releases_both : ∃ w, Waiting.initial.run failedUpToItsEnd = some w ∧
    w.closes 1 = 1 ∧ w.closes 2 = 1 := by
  have hend : ((Waiting.initial.run failedUpToItsEnd).map fun w =>
      ((w.loops 0).stage,(w.loops 0).tasks.map Task.generation)) = some (.returned,[1,2]) := by
    decide +kernel
  obtain ⟨w,hrun,hw⟩ := map_eq_some_iff.mp hend
  obtain ⟨hstg,hgens⟩ := Prod.mk.inj hw
  obtain ⟨-,hcls,-⟩ := results_current_and_waiters_released_once hrun 0
  have hone : ∀ g ∈ (w.loops 0).tasks.map Task.generation, w.closes g = 1 := by
    intro g hg
    obtain ⟨t,ht,rfl⟩ := mem_map.mp hg
    exact (hcls t ht).2 hstg
  rw [hgens] at hone
  exact ⟨w,hrun,hone 1 (by simp),hone 2 (by simp)⟩

end TalosBox.StoragePasses
