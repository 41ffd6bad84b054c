import TalosBox.ProvisionGate
import TalosBox.StepRuns

/-! The holds on pre-ballooned memory. A start arms a hold at admission, may re-arm it at the launch
and releases it if nothing booted. An entry has a size and a deadline; who armed it is not on
record, and entries are looked up by size, newest first. -/
open List

namespace TalosBox.Holds

/-- A `balloonHold`; `deadline` is its `until`. -/
structure Hold where
  /-- Which start armed the entry. No operation reads it. -/
  start : ℕ
  reclaimMiB : ℤ
  deadline : ℤ
  deriving DecidableEq, Repr

/-- Five minutes, in nanoseconds. -/
def balloonReclaimHoldTTL : ℤ := 300000000000

def dropExpiredBalloonHolds (now : ℤ) (holds : List Hold) : List Hold :=
  holds.filter fun h => now < h.deadline

def holdBalloonReclaim (start : ℕ) (reclaimMiB now : ℤ) (holds : List Hold) : List Hold :=
  if reclaimMiB ≤ 0 then holds
  else dropExpiredBalloonHolds now holds++[⟨start,reclaimMiB,now+balloonReclaimHoldTTL⟩]

/-- The loops that look for the newest entry of a size: what stands in its place. -/
def replaceNewest (reclaimMiB : ℤ) (f : Hold → List Hold) : List Hold → Option (List Hold)
  | [] => none
  | h::older =>
    match replaceNewest reclaimMiB f older with
    | some holds => some (h::holds)
    | none => if h.reclaimMiB = reclaimMiB then some (f h++older) else none

def rearmBalloonHold (start : ℕ) (reclaimMiB now : ℤ) (holds : List Hold) : List Hold :=
  if reclaimMiB ≤ 0 then holds
  else
    let live := dropExpiredBalloonHolds now holds
    (replaceNewest reclaimMiB (fun h => [{ h with deadline := now+balloonReclaimHoldTTL }])
      live).getD (live++[⟨start,reclaimMiB,now+balloonReclaimHoldTTL⟩])

def releaseBalloonHold (reclaimMiB now : ℤ) (holds : List Hold) : List Hold :=
  if reclaimMiB ≤ 0 then holds
  else
    let live := dropExpiredBalloonHolds now holds
    (replaceNewest reclaimMiB (fun _ => []) live).getD live

def balloonHoldArmed (now : ℤ) (holds : List Hold) : Bool :=
  dropExpiredBalloonHolds now holds ≠ []

/-- The largest entry `BalloonHoldMiB` comes across. -/
def heldMiB (holds : List Hold) : ℤ :=
  holds.foldl (fun held h => if held < h.reclaimMiB then h.reclaimMiB else held) 0

/-- `BalloonHoldMiB` takes the lock twice, for a cheap check and for the answer, and the list may
change in between. -/
def balloonHoldMiB (host : Provision.Host) (now₁ : ℤ) (holds₁ : List Hold) (now₂ : ℤ)
    (holds₂ : List Hold) : ℤ :=
  if !balloonHoldArmed now₁ holds₁ then 0
  else
    let held := heldMiB (dropExpiredBalloonHolds now₂ holds₂)
    if host.reclaimCeilingMiB < held then host.reclaimCeilingMiB else held

/-- What happens to the list. Each lock taken by `BalloonHoldMiB` is one `look`. -/
inductive Act
  | arm (reclaimMiB : ℤ)
  | rearm
  | release
  | look
  deriving DecidableEq

/-- The list and the start that held the operation lock last: its number, the size it armed, and
whether it may come back to its hold. -/
structure State where
  holds : List Hold
  start : ℕ
  reclaimMiB : ℤ
  admitted : Bool
  clock : ℤ

def initial (clock : ℤ) : State := ⟨[],0,0,false,clock⟩

/-- One hold of the list's lock. A start comes back to its own hold only, and not once it has
released it. -/
def step (s : State) (now : ℤ) (act : Act) : Option State :=
  if now < s.clock then none
  else match act with
    | .arm reclaimMiB =>
      some ⟨holdBalloonReclaim (s.start+1) reclaimMiB now s.holds,s.start+1,reclaimMiB,true,now⟩
    | .rearm =>
      if s.admitted then
        some { s with holds := rearmBalloonHold s.start s.reclaimMiB now s.holds, clock := now }
      else none
    | .release =>
      if s.admitted then
        some { s with
          holds := releaseBalloonHold s.reclaimMiB now s.holds
          admitted := false
          clock := now }
      else none
    | .look => some { s with holds := dropExpiredBalloonHolds now s.holds, clock := now }

def run (s : State) (events : List (ℤ × Act)) : Option State :=
  StepRuns.run (fun s event => step s event.1 event.2) s events

section

variable {now : ℤ} {holds older : List Hold} {own : Hold}

lemma mem_dropExpired {h : Hold} :
    h ∈ dropExpiredBalloonHolds now holds ↔ h ∈ holds ∧ now < h.deadline := by
  simp [dropExpiredBalloonHolds]

lemma dropExpired_sublist (now : ℤ) (holds : List Hold) :
    (dropExpiredBalloonHolds now holds).Sublist holds := filter_sublist

theorem replaceNewest_append (f : Hold → List Hold) (older : List Hold) (own : Hold) :
    replaceNewest own.reclaimMiB f (older++[own]) = some (older++f own) := by
  induction older with
  | nil => simp [replaceNewest]
  | cons h older ih => simp [replaceNewest,ih]

/-- Deadlines in list order: when the newest entry has run out, all have. -/
theorem dropExpired_append (now : ℤ)
    (hsrt : (older++[own]).Pairwise (·.deadline ≤ ·.deadline)) :
    dropExpiredBalloonHolds now (older++[own]) =
      if now < own.deadline then dropExpiredBalloonHolds now older++[own] else [] := by
  split_ifs with hlv
  · simp [dropExpiredBalloonHolds,hlv]
  · apply filter_eq_nil_iff.mpr
    intro h hh
    have hle : h.deadline ≤ own.deadline := by
      rcases mem_append.1 hh with hold | hla
      · exact (pairwise_append.1 hsrt).2.2 h hold own (by simp)
      · exact (congrArg Hold.deadline (mem_singleton.1 hla)).le
    simp only [decide_eq_true_eq]
    omega

end

/-- While a start has not given its hold up, its entry is the newest one, or has run out with all
before it. -/
inductive OwnLast (s : State) : Prop
  | expired (hno : s.holds = [])
  | live (older : List Hold) (deadline : ℤ)
      (hspl : s.holds = older++[⟨s.start,s.reclaimMiB,deadline⟩])
      (hos : ∀ h ∈ older, h.start < s.start)

/-- What every history keeps. -/
structure Inv (s : State) : Prop where
  sorted : s.holds.Pairwise (·.deadline ≤ ·.deadline)
  bounded : ∀ h ∈ s.holds, h.deadline ≤ s.clock+balloonReclaimHoldTTL
  armed : ∀ h ∈ s.holds, h.start ≤ s.start
  own : s.admitted → 0 < s.reclaimMiB → OwnLast s
  /-- A start that took no memory has no entry. -/
  empty : s.admitted → s.reclaimMiB ≤ 0 → ∀ h ∈ s.holds, h.start < s.start

lemma initial_inv (clock : ℤ) : Inv (initial clock) :=
  ⟨by simp [initial],by simp [initial],by simp [initial],by simp [initial],by simp [initial]⟩

section

variable {s s' : State} {now : ℤ}

theorem step_cases {act : Act} (h : step s now act = some s') :
    s.clock ≤ now ∧
    ((∃ mib, act = .arm mib ∧ s' =
        ⟨holdBalloonReclaim (s.start+1) mib now s.holds,s.start+1,mib,true,now⟩) ∨
      (act = .rearm ∧ s.admitted ∧ s' =
        { s with holds := rearmBalloonHold s.start s.reclaimMiB now s.holds, clock := now }) ∨
      (act = .release ∧ s.admitted ∧ s' =
        { s with
          holds := releaseBalloonHold s.reclaimMiB now s.holds, admitted := false, clock := now }) ∨
      (act = .look ∧ s' =
        { s with holds := dropExpiredBalloonHolds now s.holds, clock := now })) := by
  rcases lt_or_ge now s.clock with hearly | hclk
  · simp [step,hearly] at h
  refine ⟨hclk,?_⟩
  simp only [step,not_lt.2 hclk,if_false] at h
  cases act with
  | arm mib => exact .inl ⟨mib,rfl,by simpa using h.symm⟩
  | rearm =>
    simp only [Option.ite_none_right_eq_some,Option.some.injEq] at h
    exact .inr (.inl ⟨rfl,h.1,h.2.symm⟩)
  | release =>
    simp only [Option.ite_none_right_eq_some,Option.some.injEq] at h
    exact .inr (.inr (.inl ⟨rfl,h.1,h.2.symm⟩))
  | look => exact .inr (.inr (.inr ⟨rfl,by simpa using h.symm⟩))

section

variable (h : Inv s)
include h

theorem Inv.bounded_later (hclk : s.clock ≤ now) {e : Hold} (he : e ∈ s.holds) :
    e.deadline ≤ now+balloonReclaimHoldTTL := by
  have := h.bounded e he
  omega

theorem Inv.look (hclk : s.clock ≤ now) :
    Inv { s with holds := dropExpiredBalloonHolds now s.holds, clock := now } where
  sorted := h.sorted.sublist (dropExpired_sublist now s.holds)
  bounded e he := h.bounded_later hclk (mem_dropExpired.1 he).1
  armed e he := h.armed e (mem_dropExpired.1 he).1
  own hadm hpos := by
    cases h.own hadm hpos with
    | expired hno => exact .expired (by simp [hno,dropExpiredBalloonHolds])
    | live older deadline hspl hos =>
      have hdp := dropExpired_append now (hspl ▸ h.sorted)
      by_cases hlv : now < deadline
      · refine .live (dropExpiredBalloonHolds now older) deadline ?_ fun e he =>
          hos e (mem_dropExpired.1 he).1
        simpa [hspl,hlv] using hdp
      · refine .expired ?_
        simpa [hspl,hlv] using hdp
  empty hadm hno e he := h.empty hadm hno e (mem_dropExpired.1 he).1

theorem Inv.sorted_append (hclk : s.clock ≤ now) {older : List Hold}
    (holder : older.Sublist s.holds) (own : Hold)
    (hown : own.deadline = now+balloonReclaimHoldTTL) :
    (older++[own]).Pairwise (·.deadline ≤ ·.deadline) := by
  refine pairwise_append.2 ⟨h.sorted.sublist holder,pairwise_singleton _ _,?_⟩
  intro e he f hf
  rw [mem_singleton.1 hf,hown]
  exact h.bounded_later hclk (holder.subset he)

theorem Inv.arm (hclk : s.clock ≤ now) (mib : ℤ) :
    Inv ⟨holdBalloonReclaim (s.start+1) mib now s.holds,s.start+1,mib,true,now⟩ := by
  have hnew : ∀ e ∈ s.holds, e.start < s.start+1 := fun e he => Nat.lt_succ_of_le (h.armed e he)
  rcases le_or_gt mib 0 with hno | hpos
  · have hsm : holdBalloonReclaim (s.start+1) mib now s.holds = s.holds := by
      simp [holdBalloonReclaim,hno]
    rw [hsm]
    refine ⟨h.sorted,fun e he => h.bounded_later hclk he,fun e he => (hnew e he).le,?_,
      fun _ _ => hnew⟩
    intro _ hpos
    exact absurd hpos (not_lt.2 hno)
  · have happ : holdBalloonReclaim (s.start+1) mib now s.holds =
        dropExpiredBalloonHolds now s.holds ++
          [⟨s.start+1,mib,now+balloonReclaimHoldTTL⟩] := by
      simp [holdBalloonReclaim,not_le.2 hpos]
    rw [happ]
    refine ⟨h.sorted_append hclk (dropExpired_sublist now s.holds) _ rfl,?_,?_,?_,?_⟩
    · intro e he
      rcases mem_append.1 he with he | he
      · exact h.bounded_later hclk (mem_dropExpired.1 he).1
      · rw [mem_singleton.1 he]
    · intro e he
      rcases mem_append.1 he with he | he
      · exact (hnew e (mem_dropExpired.1 he).1).le
      · rw [mem_singleton.1 he]
    · intro _ _
      exact .live _ _ rfl fun e he => hnew e (mem_dropExpired.1 he).1
    · intro _ hno
      exact absurd hpos (not_lt.2 hno)

/-- A re-arm gives the start's own entry the new deadline, or arms it afresh if it has run out. -/
theorem Inv.rearm_holds (now : ℤ) (hadm : s.admitted)
    (hpos : 0 < s.reclaimMiB) :
    ∃ older, (∀ e ∈ older, e.start < s.start) ∧ older.Sublist (dropExpiredBalloonHolds now s.holds) ∧
      (older++[⟨s.start,s.reclaimMiB,now+balloonReclaimHoldTTL⟩] =
        rearmBalloonHold s.start s.reclaimMiB now s.holds) ∧
      (dropExpiredBalloonHolds now s.holds = older ∧ older = [] ∨
        ∃ deadline, dropExpiredBalloonHolds now s.holds =
          older++[⟨s.start,s.reclaimMiB,deadline⟩]) := by
  simp only [rearmBalloonHold,not_le.2 hpos,if_false]
  cases h.own hadm hpos with
  | expired hno =>
    exact ⟨[],by simp,by simp,by simp [hno,dropExpiredBalloonHolds,replaceNewest],
      .inl ⟨by simp [hno,dropExpiredBalloonHolds],rfl⟩⟩
  | live older deadline hspl hos =>
    have hdp := dropExpired_append now (hspl ▸ h.sorted)
    rw [hspl,hdp]
    by_cases hlv : now < deadline
    · simp only [hlv,if_true]
      refine ⟨dropExpiredBalloonHolds now older,fun e he => hos e (mem_dropExpired.1 he).1,
        sublist_append_left _ _,?_,.inr ⟨deadline,rfl⟩⟩
      have hfnd := replaceNewest_append
        (fun h => [{ h with deadline := now+balloonReclaimHoldTTL }])
        (dropExpiredBalloonHolds now older) ⟨s.start,s.reclaimMiB,deadline⟩
      rw [hfnd,Option.getD_some]
    · simp only [hlv]
      exact ⟨[],by simp,by simp,by simp [replaceNewest],.inl ⟨rfl,rfl⟩⟩

/-- A release takes the start's own entry out, or finds nothing at all. -/
theorem Inv.release_holds (now : ℤ) (hadm : s.admitted)
    (hpos : 0 < s.reclaimMiB) :
    (∀ e ∈ releaseBalloonHold s.reclaimMiB now s.holds, e.start < s.start) ∧
      (dropExpiredBalloonHolds now s.holds = releaseBalloonHold s.reclaimMiB now s.holds ∧
          releaseBalloonHold s.reclaimMiB now s.holds = [] ∨
        ∃ deadline, dropExpiredBalloonHolds now s.holds =
          releaseBalloonHold s.reclaimMiB now s.holds++[⟨s.start,s.reclaimMiB,deadline⟩]) := by
  simp only [releaseBalloonHold,not_le.2 hpos]
  cases h.own hadm hpos with
  | expired hno => simp [hno,dropExpiredBalloonHolds,replaceNewest]
  | live older deadline hspl hos =>
    have hdp := dropExpired_append now (hspl ▸ h.sorted)
    rw [hspl,hdp]
    by_cases hlv : now < deadline
    · simp only [hlv,if_true]
      have hfnd := replaceNewest_append (fun _ => [])
        (dropExpiredBalloonHolds now older) ⟨s.start,s.reclaimMiB,deadline⟩
      simp only [append_nil] at hfnd
      rw [hfnd,Option.getD_some]
      exact ⟨fun e he => hos e (mem_dropExpired.1 he).1,.inr ⟨deadline,rfl⟩⟩
    · simp [hlv,replaceNewest]

theorem Inv.rearm (hclk : s.clock ≤ now) (hadm : s.admitted) :
    Inv { s with holds := rearmBalloonHold s.start s.reclaimMiB now s.holds, clock := now } := by
  rcases le_or_gt s.reclaimMiB 0 with hno | hpos
  · have hsm : rearmBalloonHold s.start s.reclaimMiB now s.holds = s.holds := by
      simp [rearmBalloonHold,hno]
    rw [hsm]
    refine ⟨h.sorted,fun e he => h.bounded_later hclk he,h.armed,?_,h.empty⟩
    intro _ hpos
    exact absurd hpos (not_lt.2 hno)
  · obtain ⟨older,hos,hsub,heq,-⟩ := h.rearm_holds now hadm hpos
    have hlv := hsub.trans (dropExpired_sublist now s.holds)
    rw [← heq]
    refine ⟨h.sorted_append hclk hlv _ rfl,?_,?_,fun _ _ => .live older _ rfl hos,?_⟩
    · intro e he
      rcases mem_append.1 he with he | he
      · exact h.bounded_later hclk (hlv.subset he)
      · rw [mem_singleton.1 he]
    · intro e he
      rcases mem_append.1 he with he | he
      · exact (hos e he).le
      · rw [mem_singleton.1 he]
    · intro _ hno
      exact absurd hpos (not_lt.2 hno)

theorem release_sublist (hadm : s.admitted) :
    (releaseBalloonHold s.reclaimMiB now s.holds).Sublist s.holds := by
  rcases le_or_gt s.reclaimMiB 0 with hno | hpos
  · simp [releaseBalloonHold,hno]
  · rcases (h.release_holds now hadm hpos).2 with ⟨heq,-⟩ | ⟨deadline,heq⟩
    · rw [← heq]
      exact dropExpired_sublist now s.holds
    · exact (heq ▸ sublist_append_left _ _).trans (dropExpired_sublist now s.holds)

theorem Inv.release (hclk : s.clock ≤ now) (hadm : s.admitted) :
    Inv { s with
      holds := releaseBalloonHold s.reclaimMiB now s.holds, admitted := false, clock := now } where
  sorted := h.sorted.sublist (release_sublist h hadm)
  bounded e he := h.bounded_later hclk ((release_sublist h hadm).subset he)
  armed e he := h.armed e ((release_sublist h hadm).subset he)
  own hop := absurd hop (by simp)
  empty hop := absurd hop (by simp)

theorem step_inv {act : Act} (hst : step s now act = some s') : Inv s' := by
  obtain ⟨hclk,⟨mib,-,rfl⟩ | ⟨-,hadm,rfl⟩ | ⟨-,hadm,rfl⟩ | ⟨-,rfl⟩⟩ :=
    step_cases hst
  · exact h.arm hclk mib
  · exact h.rearm hclk hadm
  · exact h.release hclk hadm
  · exact h.look hclk

end

end

lemma run_inv {events : List (ℤ × Act)} {s s' : State} (h : Inv s)
    (hrun : run s events = some s') : Inv s' :=
  StepRuns.run_invariant (fun _ _ _ h hst => step_inv h hst) h hrun

section

/-- The holds still live at a time, zero standing for none. -/
def outstanding (now : ℤ) (holds : List Hold) : Set ℤ :=
  insert 0 { x | ∃ h ∈ holds, now < h.deadline ∧ h.reclaimMiB = x }

theorem foldl_held (holds : List Hold) (held : ℤ) :
    holds.foldl (fun held h => if held < h.reclaimMiB then h.reclaimMiB else held) held =
      holds.foldl (fun held h => max held h.reclaimMiB) held := by
  congr 1
  funext held h
  split_ifs with hlt
  · exact (max_eq_right hlt.le).symm
  · exact (max_eq_left (not_lt.1 hlt)).symm

theorem isGreatest_foldl (holds : List Hold) (held : ℤ) :
    IsGreatest (insert held { x | ∃ h ∈ holds, h.reclaimMiB = x })
      (holds.foldl (fun held h => max held h.reclaimMiB) held) := by
  induction holds generalizing held with
  | nil => simp
  | cons h holds ih =>
    obtain ⟨hmem,hupper⟩ := ih (max held h.reclaimMiB)
    rw [foldl_cons]
    constructor
    · rcases hmem with heq | ⟨e,he,heq⟩
      · rw [heq]
        rcases le_total held h.reclaimMiB with hle | hle
        · exact .inr ⟨h,by simp,(max_eq_right hle).symm⟩
        · exact .inl (max_eq_left hle)
      · exact .inr ⟨e,by simp [he],heq⟩
    · rintro x (rfl | ⟨e,he,rfl⟩)
      · exact (le_max_left _ _).trans (hupper (Set.mem_insert _ _))
      · rcases mem_cons.1 he with rfl | he
        · exact (le_max_right _ _).trans (hupper (Set.mem_insert _ _))
        · exact hupper (.inr ⟨e,he,rfl⟩)

theorem isGreatest_heldMiB (now : ℤ) (holds : List Hold) :
    IsGreatest (outstanding now holds) (heldMiB (dropExpiredBalloonHolds now holds)) := by
  have h := isGreatest_foldl (dropExpiredBalloonHolds now holds) 0
  rw [← foldl_held] at h
  simpa only [outstanding,heldMiB,mem_dropExpired,and_assoc] using h

theorem reclaimCeilingMiB_nonneg (host : Provision.Host) : 0 ≤ host.reclaimCeilingMiB := by
  apply sum_nonneg
  intro x hx
  obtain ⟨memoryMiB,-,rfl⟩ := mem_map.1 hx
  exact le_max_left _ _

theorem balloonHoldMiB_eq (host : Provision.Host) (now₁ : ℤ) (holds₁ : List Hold) (now₂ : ℤ)
    (holds₂ : List Hold) :
    balloonHoldMiB host now₁ holds₁ now₂ holds₂ = min host.reclaimCeilingMiB
      (if balloonHoldArmed now₁ holds₁ then heldMiB (dropExpiredBalloonHolds now₂ holds₂)
        else heldMiB (dropExpiredBalloonHolds now₁ holds₁)) := by
  cases harmed : balloonHoldArmed now₁ holds₁ with
  | false =>
    have hno : dropExpiredBalloonHolds now₁ holds₁ = [] := by
      simpa [balloonHoldArmed] using harmed
    simp [balloonHoldMiB,harmed,hno,heldMiB,reclaimCeilingMiB_nonneg]
  | true =>
    simp only [balloonHoldMiB,harmed,Bool.not_true,Bool.false_eq_true,if_false]
    split_ifs with hlt
    · exact (min_eq_left hlt.le).symm
    · exact (min_eq_right (not_lt.1 hlt)).symm

end

section

/-- The entries one start armed. -/
def ofStart (start : ℕ) (holds : List Hold) : List Hold := holds.filter fun h => h.start = start

def ofOthers (start : ℕ) (holds : List Hold) : List Hold := holds.filter fun h => h.start ≠ start

variable {s s' : State} {now : ℤ} {start : ℕ} {older : List Hold} {own : Hold}

section

variable (h : ∀ e ∈ older, e.start < start)
include h

lemma ofOthers_of_older : ofOthers start older = older :=
  filter_eq_self.2 fun e he => by simpa using (h e he).ne

lemma ofStart_of_older : ofStart start older = [] :=
  filter_eq_nil_iff.2 fun e he => by simpa using (h e he).ne

theorem ofOthers_append (hown : own.start = start) :
    ofOthers start (older++[own]) = older := by
  have hrs := ofOthers_of_older h
  unfold ofOthers at hrs ⊢
  rw [filter_append,hrs]
  simp [hown]

theorem ofStart_append (hown : own.start = start) :
    ofStart start (older++[own]) = [own] := by
  have hrs := ofStart_of_older h
  unfold ofStart at hrs ⊢
  rw [filter_append,hrs]
  simp [hown]

end

/-- What an operation sees that leaves the other starts alone: the live entries, or the whole list
if the start took no memory. -/
def State.seen (s : State) (now : ℤ) : List Hold :=
  if 0 < s.reclaimMiB then dropExpiredBalloonHolds now s.holds else s.holds

theorem rearm_spares_others (h : Inv s) (hst : step s now .rearm = some s') :
    ofOthers s.start s'.holds = ofOthers s.start (s.seen now) ∧
    ofStart s.start s'.holds =
      if 0 < s.reclaimMiB then [⟨s.start,s.reclaimMiB,now+balloonReclaimHoldTTL⟩] else [] := by
  obtain ⟨-,⟨_,hne,-⟩ | ⟨-,hadm,rfl⟩ | ⟨hne,-,-⟩ | ⟨hne,-⟩⟩ := step_cases hst <;>
    try cases hne
  rcases le_or_gt s.reclaimMiB 0 with hno | hpos
  · simpa [State.seen,rearmBalloonHold,hno,not_lt.2 hno] using
      ofStart_of_older (h.empty hadm hno)
  · obtain ⟨older,hos,-,heq,hlv⟩ := h.rearm_holds now hadm hpos
    simp only [State.seen,hpos,if_true,← heq]
    refine ⟨(ofOthers_append hos rfl).trans ?_,ofStart_append hos rfl⟩
    rcases hlv with ⟨hlv,-⟩ | ⟨deadline,hlv⟩
    · rw [hlv,ofOthers_of_older hos]
    · rw [hlv,ofOthers_append hos rfl]

theorem release_spares_others (h : Inv s) (hst : step s now .release = some s') :
    ofOthers s.start s'.holds = ofOthers s.start (s.seen now) ∧ ofStart s.start s'.holds = [] := by
  obtain ⟨-,⟨_,hne,-⟩ | ⟨hne,-,-⟩ | ⟨-,hadm,rfl⟩ | ⟨hne,-⟩⟩ := step_cases hst <;>
    try cases hne
  rcases le_or_gt s.reclaimMiB 0 with hno | hpos
  · simpa [State.seen,releaseBalloonHold,hno,not_lt.2 hno] using
      ofStart_of_older (h.empty hadm hno)
  · obtain ⟨hos,hlv⟩ := h.release_holds now hadm hpos
    simp only [State.seen,hpos,if_true]
    refine ⟨(ofOthers_of_older hos).trans ?_,ofStart_of_older hos⟩
    rcases hlv with ⟨hlv,-⟩ | ⟨deadline,hlv⟩
    · rw [hlv,ofOthers_of_older hos]
    · rw [hlv,ofOthers_append hos rfl]

end

/-- After any serialised history a re-arm gives the calling start's entry the new deadline, or arms
it afresh; a release takes it out; neither touches a live entry of another start; and
`BalloonHoldMiB` answers the largest live hold, clamped to the ceiling. -/
theorem holds_belong_to_their_starts {clock : ℤ} {events : List (ℤ × Act)} {s : State}
    (hrun : run (initial clock) events = some s) (now : ℤ) :
    (∀ s', step s now .rearm = some s' →
      ofOthers s.start s'.holds = ofOthers s.start (s.seen now) ∧
      ofStart s.start s'.holds =
        if 0 < s.reclaimMiB then [⟨s.start,s.reclaimMiB,now+balloonReclaimHoldTTL⟩] else []) ∧
    (∀ s', step s now .release = some s' →
      ofOthers s.start s'.holds = ofOthers s.start (s.seen now) ∧ ofStart s.start s'.holds = []) ∧
    ∀ host between s₂ now₂, run s ((now,.look) :: between) = some s₂ → s₂.clock ≤ now₂ →
      ∃ largest, balloonHoldMiB host now s.holds now₂ s₂.holds =
          min host.reclaimCeilingMiB largest ∧
        IsGreatest (if balloonHoldArmed now s.holds then outstanding now₂ s₂.holds
          else outstanding now s.holds) largest := by
  have hinv : Inv s := run_inv (initial_inv clock) hrun
  refine ⟨fun s' hstep => rearm_spares_others hinv hstep,
    fun s' hstep => release_spares_others hinv hstep,?_⟩
  intro host between s₂ now₂ _ _
  refine ⟨_,balloonHoldMiB_eq host now s.holds now₂ s₂.holds,?_⟩
  split_ifs
  · exact isGreatest_heldMiB now₂ s₂.holds
  · exact isGreatest_heldMiB now s.holds

/-- Two starts that held the same size; the second one fails and lets go of its own. -/
def equalStarts : State :=
  ⟨[⟨1,512,300000000000⟩,⟨2,512,300000000060⟩],2,512,true,60⟩

theorem release_among_equal_sizes :
    run (initial 0) [(0,.arm 512),(60,.arm 512)] = some equalStarts ∧
    ((step equalStarts 90 .release).map fun s => ofOthers 2 s.holds) =
      some [⟨1,512,300000000000⟩] ∧
    ∀ s', step equalStarts 90 .release = some s' →
      ofOthers 2 s'.holds = ofOthers 2 (equalStarts.seen 90) ∧ ofStart 2 s'.holds = [] :=
  ⟨rfl,by decide,(holds_belong_to_their_starts
    (show run (initial 0) [(0,.arm 512),(60,.arm 512)] = some equalStarts from rfl) 90).2.1⟩

end TalosBox.Holds
