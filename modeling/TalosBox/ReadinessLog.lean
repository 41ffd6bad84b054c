import Mathlib

/-! The log of failing readiness probes. It keeps only when a cluster's failures began and when it
last looked, and from that tells how long the latest run has been going on. -/
open List

namespace TalosBox.Readiness

/-- Ten minutes. -/
def unreadyRunAbandonWindow : ℤ := 10*60*10^9

structure UnreadyRun where
  since : ℤ
  last : ℤ
  deriving DecidableEq

structure Observation where
  name : String
  ready : Bool
  now : ℤ
  deriving DecidableEq

/-- What `observe` makes of the cluster's entry. -/
def UnreadyRun.next (run : Option UnreadyRun) (o : Observation) : Option UnreadyRun :=
  if o.ready then none
  else
    match run with
    | none => some ⟨o.now,o.now⟩
    | some run =>
      if unreadyRunAbandonWindow < o.now-run.last ∨ o.now < run.since then some ⟨o.now,o.now⟩
      else some ⟨run.since,o.now⟩

def observe (log : String → Option UnreadyRun) (o : Observation) : (String → Option UnreadyRun) × Option ℤ :=
  let run := UnreadyRun.next (log o.name) o
  (Function.update log o.name run,run.map UnreadyRun.since)

def observeAll (observations : List Observation) : String → Option UnreadyRun :=
  observations.foldl (fun log o => (observe log o).1) fun _ => none

/-- Failures at the end of a history, each seen within the window after the one before. -/
structure Run (history run : List Observation) : Prop where
  suffix : run <:+ history
  failing : ∀ o ∈ run, o.ready = false
  close : run.IsChain fun o o' => o'.now-o.now ≤ unreadyRunAbandonWindow

structure LongestRun (history run : List Observation) : Prop extends Run history run where
  longest : ∀ other, Run history other → other.length ≤ run.length

/-- The entry of a cluster with this history. -/
inductive Kept (history : List Observation) : Option UnreadyRun → Prop
  | ready (h : ∀ run, Run history run → run = []) : Kept history none
  | failing {first last : Observation} {rest : List Observation} (h : LongestRun history (first::rest))
      (hla : history.getLast? = some last) (hle : first.now ≤ last.now) :
      Kept history (some ⟨first.now,last.now⟩)

variable {hist : List Observation} {o : Observation}

/-- A run that goes on to an observation is one without it. -/
theorem run_concat_iff {run : List Observation} (hne : run ≠ []) :
    Run (hist++[o]) run ↔ o.ready = false ∧ ∃ front, run = front++[o] ∧ Run hist front ∧
      ∀ last ∈ front.getLast?, o.now-last.now ≤ unreadyRunAbandonWindow := by
  constructor
  · intro h
    obtain ⟨front,rfl,hfrt⟩ := (suffix_concat_iff.1 h.suffix).resolve_left hne
    obtain ⟨hclo,-,hgap⟩ := isChain_append.1 h.close
    exact ⟨h.failing o (by simp),front,rfl,⟨hfrt,fun p hp => h.failing p (by simp [hp]),hclo⟩,by simpa using hgap⟩
  · rintro ⟨hrdy,front,rfl,h,hgap⟩
    refine ⟨suffix_concat_iff.2 (.inr ⟨front,rfl,h.suffix⟩),fun p hp => ?_,?_⟩
    · rcases mem_append.1 hp with hp | hp
      · exact h.failing p hp
      · rwa [mem_singleton.1 hp]
    · exact isChain_append.2 ⟨h.close,isChain_singleton o,by simpa using hgap⟩

theorem Run.getLast? {run : List Observation} (h : Run hist run) (hne : run ≠ []) :
    run.getLast? = hist.getLast? := by
  obtain ⟨front,rfl⟩ := h.suffix
  rw [getLast?_append_of_ne_nil _ hne]

lemma run_singleton (hrdy : o.ready = false) : Run (hist++[o]) [o] :=
  (run_concat_iff (by simp)).2 ⟨hrdy,[],rfl,⟨nil_suffix,by simp,.nil⟩,by simp⟩

theorem kept_anew (hrdy : o.ready = false) (h : ∀ run, Run hist run → run ≠ [] →
    ∃ last ∈ run.getLast?, unreadyRunAbandonWindow < o.now-last.now) :
    Kept (hist++[o]) (some ⟨o.now,o.now⟩) := by
  refine .failing ⟨run_singleton hrdy,fun other hoth => ?_⟩ getLast?_concat le_rfl
  by_cases hne : other = []
  · simp [hne]
  obtain ⟨-,front,rfl,hfrt,hgap⟩ := (run_concat_iff hne).1 hoth
  by_cases hnil : front = []
  · simp [hnil]
  obtain ⟨last,hla,hfar⟩ := h front hfrt hnil
  exact absurd (hgap last hla) (not_le.2 hfar)

theorem Kept.next {run : Option UnreadyRun} (h : Kept hist run)
    (hsrt : ∀ last ∈ hist.getLast?, last.now ≤ o.now) : Kept (hist++[o]) (UnreadyRun.next run o) := by
  unfold UnreadyRun.next
  split
  · rename_i hrdy
    refine .ready fun other hoth => ?_
    by_contra hne
    have hfa := ((run_concat_iff hne).1 hoth).1
    simp [hrdy] at hfa
  rename_i hrdy
  have hrdy : o.ready = false := by simpa using hrdy
  cases h with
  | ready h => exact kept_anew hrdy fun run hrun hne => absurd (h run hrun) hne
  | failing h hla hle =>
    rename_i first last rest
    have hlat := hsrt last hla
    simp only
    split
    · rename_i hgap
      refine kept_anew hrdy fun run hrun hne => ⟨last,by rw [hrun.getLast? hne,hla]; rfl,?_⟩
      omega
    · rename_i hgap
      have hen : (first::rest).getLast? = some last := (h.toRun.getLast? (by simp)).trans hla
      have hrun : Run (hist++[o]) (first::(rest++[o])) := by
        refine (run_concat_iff (by simp)).2 ⟨hrdy,first::rest,rfl,h.toRun,fun p hp => ?_⟩
        obtain rfl : last = p := Option.some.inj (hen.symm.trans hp)
        omega
      refine .failing ⟨hrun,fun other hoth => ?_⟩ getLast?_concat (hle.trans hlat)
      by_cases hne : other = []
      · simp [hne]
      obtain ⟨-,front,rfl,hfrt,-⟩ := (run_concat_iff hne).1 hoth
      simpa using h.longest front hfrt

theorem kept_foldl (h : hist.Pairwise fun o o' => o.now ≤ o'.now) : Kept hist (hist.foldl UnreadyRun.next none) := by
  induction hist using reverseRecOn with
  | nil => exact .ready fun run hrun => suffix_nil.1 hrun.suffix
  | append_singleton hist o ih =>
    rw [pairwise_append] at h
    rw [foldl_append]
    exact (ih h.1).next fun last hla => h.2.2 last (mem_of_mem_getLast? hla) o (by simp)

theorem observeAll_concat (obs : List Observation) :
    observeAll (obs++[o]) = (observe (observeAll obs) o).1 := by
  rw [observeAll,foldl_append]
  rfl

theorem observeAll_eq (obs : List Observation) (name : String) :
    observeAll obs name = (obs.filter (·.name = name)).foldl UnreadyRun.next none := by
  induction obs using reverseRecOn with
  | nil => rfl
  | append_singleton obs o ih =>
    rw [observeAll_concat,filter_append,foldl_append,← ih]
    by_cases hnm : o.name = name
    · simp [observe,hnm]
    · simp [observe,hnm,Ne.symm hnm]

/-- The start that is reported for a failure is the first observation of its longest run. -/
theorem reported_since_starts_run (observations : List Observation) (o : Observation) (hrdy : o.ready = false)
    (hsrt : ((observations ++ [o]).filter (·.name = o.name)).Pairwise fun o o' => o.now ≤ o'.now) :
    ∃ first rest, LongestRun ((observations ++ [o]).filter (·.name = o.name)) (first :: rest) ∧
      (observe (observeAll observations) o).2 = some first.now := by
  have hkept := kept_foldl hsrt
  have hent : observeAll (observations ++ [o]) o.name = UnreadyRun.next (observeAll observations o.name) o := by
    rw [observeAll_concat]
    simp [observe]
  rw [← observeAll_eq,hent] at hkept
  simp only [observe]
  generalize UnreadyRun.next (observeAll observations o.name) o = run at hkept ⊢
  cases hkept with
  | ready h =>
    rw [filter_append,filter_cons_of_pos (by simp)] at h
    exact absurd (h [o] (run_singleton hrdy)) (by simp)
  | failing h _ _ => exact ⟨_,_,h,rfl⟩

/-- A cluster that is seen failing every nine minutes, after a gap. -/
def polls : List Observation :=
  [⟨"demo",false,0⟩,⟨"demo",false,660*10^9⟩,⟨"lab",true,0⟩,⟨"demo",false,1200*10^9⟩]

def poll : Observation := ⟨"demo",false,1740*10^9⟩

theorem reported_since_behind_gap :
    (observe (observeAll polls) poll).2 = some (660*10^9) ∧
      ∃ first rest, LongestRun ((polls ++ [poll]).filter (·.name = poll.name)) (first :: rest) ∧
        (observe (observeAll polls) poll).2 = some first.now :=
  ⟨by decide +kernel,reported_since_starts_run polls poll rfl (by decide +kernel)⟩

end TalosBox.Readiness
