import TalosBox.WarmPool

/-! A step of the warm requests moves one reference and one job of it, and these alone use the locks
and slots. -/
namespace TalosBox.WarmPool

open Option
open Function (update update_of_ne update_self update_eq_self)
open KeyedLocks (Locks Stage)
open Tokens (Slots)

/-- The tag lock of a reference at work, if its reference is a tag. -/
def Ref.heldTag (st : Ref) : Stage String :=
  match st.tag with
  | some key => .holding key
  | none => .out

/-- The stage with the tag locks; `held` is that of a reference at work. -/
def RefPC.tagStage (pc : RefPC) (held : Stage String) : Stage String :=
  match pc with
  | .fresh => .out
  | .parse => .out
  | .tagEnter _ => .out
  | .tagWait key => .waiting key
  | .tagAbort key => .leaving key
  | .tagUnlock key => .holding key
  | .tagLeave key => .leaving key
  | .send => .out
  | .leave => .out
  | .gone => .out
  | _ => held

def Ref.tagStage (st : Ref) : Stage String := st.pc.tagStage st.heldTag

def RefPC.publishStage : RefPC → Stage String
  | .publishWait key => .waiting key
  | .publishAbort key => .leaving key
  | .publish key => .holding key
  | .publishUnlock key => .holding key
  | .publishLeave key => .leaving key
  | _ => .out

/-- A reference has its slot from its start to its end. -/
def RefPC.active : RefPC → Bool
  | .fresh => false
  | .gone => false
  | _ => true

/-- Active, and not at a job of its loop. -/
def RefPC.outside : RefPC → Bool
  | .body => false
  | pc => pc.active

def RefPC.looping : RefPC → Bool
  | .head => true
  | .body => true
  | .join => true
  | _ => false

namespace JobPC

def blobStage (pc : JobPC) (key : String) : Stage String :=
  match pc with
  | .idle => .out
  | .enter => .out
  | .wait => .waiting key
  | .abort => .leaving key
  | .skipped => .leaving key
  | .dropped => .leaving key
  | .forget => .leaving key
  | .record => .out
  | .releaseShared => .out
  | .releaseRequest => .out
  | .finish => .out
  | .ended => .out
  | _ => .holding key

def hasRequest : JobPC → Bool
  | .wantShared => true
  | .backOut => true
  | .acquired => true
  | .refuseShared => true
  | .refuseRequest => true
  | .running => true
  | .unlock => true
  | .forget => true
  | .record => true
  | .releaseShared => true
  | .releaseRequest => true
  | _ => false

def hasShared : JobPC → Bool
  | .acquired => true
  | .refuseShared => true
  | .running => true
  | .unlock => true
  | .forget => true
  | .record => true
  | .releaseShared => true
  | _ => false

def beforeRequest : JobPC → Bool
  | .idle => true
  | .enter => true
  | .wait => true
  | .recheck => true
  | .wantRequest => true
  | _ => false

def beforeShared : JobPC → Bool
  | .wantShared => true
  | pc => pc.beforeRequest

end JobPC

def JobState.blobStage (st : JobState) : Stage String := st.pc.blobStage st.key

/-- In whose hands a job is: the loop's, its own goroutine's. -/
inductive Phase
  | idle
  | looped
  | afloat
  | ended
  deriving DecidableEq

def JobPC.phase : JobPC → Phase
  | .idle => .idle
  | .running => .afloat
  | .unlock => .afloat
  | .forget => .afloat
  | .record => .afloat
  | .releaseShared => .afloat
  | .releaseRequest => .afloat
  | .finish => .afloat
  | .ended => .ended
  | _ => .looped

/-- The loop of a reference and its jobs. -/
structure Control (st : Ref) (jobs : ℕ → Phase) : Prop where
  past : ∀ p < st.pos, jobs p = .afloat ∨ jobs p = .ended
  body : st.pc = .body → jobs st.pos = .looped
  idle : st.pc ≠ .body → jobs st.pos = .idle
  future : ∀ p, st.pos < p → jobs p = .idle
  group : ∀ p, p ∈ st.group ↔ jobs p = .afloat
  joined : st.pc.looping = false → st.group = ∅

section

variable {st st' : Ref} {jobs : ℕ → Phase} {p : ℕ} {phase : Phase}

theorem Control.current (h : Control st jobs) (hp : jobs p = .looped) :
    p = st.pos ∧ st.pc = .body := by
  rcases lt_trichotomy p st.pos with hlt | rfl | hgt
  · rcases h.past p hlt with hpast | hpast <;> simp [hp] at hpast
  · refine ⟨rfl,?_⟩
    by_contra hbd
    simp [h.idle hbd] at hp
  · simp [h.future p hgt] at hp

theorem Control.looping (h : Control st jobs) (hp : jobs p = .afloat) : st.pc.looping := by
  by_contra hlp
  have hmem := (h.group p).2 hp
  simp [h.joined (by simpa using hlp)] at hmem

/-- How a step moves the loop and a job of it. -/
inductive Flow (st : Ref) (p : ℕ) : Phase → Ref → Phase → Prop
  | rest (phase : Phase) {st' : Ref} (hpos : st'.pos = st.pos) (hgrp : st'.group = st.group)
      (hbd : st'.pc = .body ↔ st.pc = .body)
      (hlp : st'.pc.looping = false → st.pc.looping → st.group = ∅) :
      Flow st p phase st' phase
  | enter {st' : Ref} (hpos : st'.pos = st.pos) (hgrp : st'.group = st.group)
      (hpc : st'.pc = .body) (hp : p = st.pos) : Flow st p .idle st' .looped
  | leave {st' : Ref} (hpos : st'.pos = st.pos + 1) (hgrp : st'.group = st.group)
      (hbd : st'.pc ≠ .body) (hlp : st'.pc.looping) : Flow st p .looped st' .ended
  | launch {st' : Ref} (hpos : st'.pos = st.pos + 1) (hgrp : st'.group = insert p st.group)
      (hbd : st'.pc ≠ .body) (hlp : st'.pc.looping) : Flow st p .looped st' .afloat
  | finish {st' : Ref} (hpos : st'.pos = st.pos) (hgrp : st'.group = st.group.erase p)
      (hpc : st'.pc = st.pc) : Flow st p .afloat st' .ended

section

variable (h : Control st jobs)
include h

theorem Control.group_update (hold : jobs p ≠ .afloat)
    (hph : phase ≠ .afloat) (q : ℕ) :
    q ∈ st.group ↔ update jobs p phase q = .afloat := by
  rw [h.group]
  by_cases hq : q = p
  · simp [hq,hold,hph]
  · rw [update_of_ne hq]

theorem Control.rest (hpos : st'.pos = st.pos) (hgrp : st'.group = st.group)
    (hbd : st'.pc = .body ↔ st.pc = .body)
    (hlp : st'.pc.looping = false → st.pc.looping → st.group = ∅) : Control st' jobs := by
  refine ⟨fun q hq => h.past q (hpos ▸ hq),fun hpc => ?_,fun hpc => ?_,
    fun q hq => h.future q (hpos ▸ hq),fun q => hgrp ▸ h.group q,fun hst' => ?_⟩
  · rw [hpos]
    exact h.body (hbd.1 hpc)
  · rw [hpos]
    exact h.idle fun hst => hpc (hbd.2 hst)
  · rw [hgrp]
    cases hst : st.pc.looping with
    | true => exact hlp hst' hst
    | false => exact h.joined hst

theorem Control.enter (hold : jobs st.pos = .idle) (hpos : st'.pos = st.pos)
    (hgrp : st'.group = st.group) (hpc : st'.pc = .body) :
    Control st' (update jobs st.pos .looped) := by
  refine ⟨fun q hq => ?_,fun _ => ?_,fun hbd => absurd hpc hbd,fun q hq => ?_,fun q => ?_,
    fun hst' => ?_⟩
  · rw [update_of_ne (by omega)]
    exact h.past q (hpos ▸ hq)
  · rw [hpos,update_self]
  · rw [update_of_ne (by omega)]
    exact h.future q (hpos ▸ hq)
  · rw [hgrp]
    exact h.group_update (by simp [hold]) (by simp) q
  · simp [hpc,RefPC.looping] at hst'

/-- The loop is past its current job, which is over or has a goroutine of its own. -/
theorem Control.pass (hph : phase = .afloat ∨ phase = .ended)
    (hpos : st'.pos = st.pos + 1)
    (hgrp : ∀ q, q ∈ st'.group ↔ update jobs st.pos phase q = .afloat)
    (hbd : st'.pc ≠ .body) (hlp : st'.pc.looping) :
    Control st' (update jobs st.pos phase) := by
  refine ⟨fun q hq => ?_,fun hpc => absurd hpc hbd,fun _ => ?_,fun q hq => ?_,hgrp,
    fun hst' => by simp [hlp] at hst'⟩
  · by_cases hcur : q = st.pos
    · rw [hcur,update_self]
      exact hph
    · rw [update_of_ne hcur]
      exact h.past q (by omega)
  · rw [update_of_ne (by omega)]
    exact h.future _ (by omega)
  · rw [update_of_ne (by omega)]
    exact h.future q (by omega)

theorem Control.lt_pos (hp : jobs p = .afloat) : p < st.pos := by
  rcases lt_trichotomy p st.pos with hlt | heq | hgt
  · exact hlt
  · by_cases hbd : st.pc = .body
    · simp [heq,h.body hbd] at hp
    · simp [heq,h.idle hbd] at hp
  · simp [h.future p hgt] at hp

theorem Control.finish (hold : jobs p = .afloat) (hpos : st'.pos = st.pos)
    (hgrp : st'.group = st.group.erase p) (hpc : st'.pc = st.pc) :
    Control st' (update jobs p .ended) := by
  have hlt := h.lt_pos hold
  refine ⟨fun q hq => ?_,fun hbd => ?_,fun hbd => ?_,fun q hq => ?_,fun q => ?_,fun hst' => ?_⟩
  · by_cases hqp : q = p
    · simp [hqp]
    · rw [update_of_ne hqp]
      exact h.past q (hpos ▸ hq)
  · rw [hpos,update_of_ne (by omega)]
    exact h.body (hpc ▸ hbd)
  · rw [hpos,update_of_ne (by omega)]
    exact h.idle (hpc ▸ hbd)
  · rw [update_of_ne (by omega)]
    exact h.future q (hpos ▸ hq)
  · rw [hgrp,Finset.mem_erase,h.group]
    by_cases hqp : q = p
    · simp [hqp]
    · simp [hqp]
  · rw [hgrp,h.joined (hpc ▸ hst')]
    rfl

theorem Control.flow (hflow : Flow st p (jobs p) st' phase) :
    Control st' (update jobs p phase) := by
  generalize hold : jobs p = old at hflow
  cases hflow with
  | rest _ hpos hgrp hbd hlp =>
    rw [← hold,update_eq_self]
    exact h.rest hpos hgrp hbd hlp
  | enter hpos hgrp hpc hp =>
    subst hp
    exact h.enter hold hpos hgrp hpc
  | leave hpos hgrp hbd hlp =>
    obtain ⟨rfl,-⟩ := h.current hold
    refine h.pass (.inr rfl) hpos (fun q => ?_) hbd hlp
    rw [hgrp]
    exact h.group_update (by simp [hold]) (by simp) q
  | launch hpos hgrp hbd hlp =>
    obtain ⟨rfl,-⟩ := h.current hold
    refine h.pass (.inl rfl) hpos (fun q => ?_) hbd hlp
    rw [hgrp,Finset.mem_insert,h.group]
    by_cases hq : q = st.pos
    · simp [hq]
    · simp [hq]
  | finish hpos hgrp hpc => exact h.finish hold hpos hgrp hpc

end

end

/-- A job that goes on as far as its slots are concerned. -/
structure JobPC.Onward (pc pc' : JobPC) : Prop where
  shared : Tokens.Onward pc.hasShared pc.beforeShared pc'.hasShared pc'.beforeShared
  request : Tokens.Onward pc.hasRequest pc.beforeRequest pc'.hasRequest pc'.beforeRequest

instance (pc pc' : JobPC) : Decidable (pc.Onward pc') :=
  decidable_of_iff (_ ∧ _) ⟨fun h => ⟨h.1,h.2⟩,fun h => ⟨h.shared,h.request⟩⟩

lemma JobPC.Onward.refl (pc : JobPC) : pc.Onward pc := by
  cases pc <;> decide

/-- How a step moves the starter of the request. -/
inductive Starts (q q' : Request) (index : ℕ) (st st' : Ref) : Prop
  | rest (hnx : q'.next = q.next) (hst : st' = st)
  | later (hnx : q'.next = q.next) (hst : st.pc.active) (hst' : st'.pc ≠ .fresh)
  | start (hnx : q'.next = q.next + 1) (hidx : index = q.next) (hlt : q.next < q.size)
      (hst' : st'.pc ≠ .fresh)

/-- A step of any goroutine of the reference of `j`, the starter or the caller, and what it makes of
them. -/
structure Turn (s : Sys) (j : Job) (st' : Ref) (job' : JobState) (q' : Request) (s' : Sys) : Prop where
  arrived : s'.arrived = s.arrived
  refs : s'.refs = update s.refs j.ref st'
  jobs : s'.jobs = update s.jobs j job'
  requests : s'.requests = update s.requests j.ref.request q'
  options : q'.jobs = (s.requests j.ref.request).jobs
  size : q'.size = (s.requests j.ref.request).size
  tag : KeyedLocks.Use s.tagLocks j.ref (s.refs j.ref).tagStage st'.tagStage s'.tagLocks
  publish : KeyedLocks.Use s.publishLocks j.ref (s.refs j.ref).pc.publishStage st'.pc.publishStage
    s'.publishLocks
  blob : KeyedLocks.Use s.blobLocks j (s.jobs j).blobStage job'.blobStage s'.blobLocks
  shared : Tokens.Use s.shared j (s.jobs j).pc.hasShared job'.pc.hasShared s'.shared
  slots : Tokens.Use (s.requests j.ref.request).slots j (s.jobs j).pc.hasRequest job'.pc.hasRequest
    q'.slots
  refSlots : Tokens.Use (s.requests j.ref.request).refSlots j.ref.index (s.refs j.ref).pc.active
    st'.pc.active q'.refSlots
  onward : (s.jobs j).pc.Onward job'.pc
  flow : Flow (s.refs j.ref) j.pos (s.jobs j).pc.phase st' job'.pc.phase
  starts : Starts (s.requests j.ref.request) q' j.ref.index (s.refs j.ref) st'

/-- Some such step leads from `s` to `s'`. -/
def Turns (s : Sys) (j : Job) (s' : Sys) : Prop := ∃ st' job' q', Turn s j st' job' q' s'

lemma RefPC.ne_fresh_of_active {pc : RefPC} (h : pc.active) : pc ≠ .fresh := by
  rintro rfl
  simp [RefPC.active] at h

lemma RefPC.active_of_looping {pc : RefPC} (h : pc.looping) : pc.active := by
  cases pc <;> simp_all [RefPC.looping,RefPC.active]

lemma RefPC.publishStage_of_looping {pc : RefPC} (h : pc.looping) :
    pc.publishStage = .out := by
  cases pc <;> simp_all [RefPC.looping,RefPC.publishStage]

theorem Ref.tagStage_of_looping {st : Ref} (h : st.pc.looping) :
    st.tagStage = st.heldTag := by
  unfold Ref.tagStage
  cases hpc : st.pc <;> simp_all [RefPC.looping,RefPC.tagStage]

lemma RefPC.looping_of_resulted {pc : RefPC} (h : pc.resulted) : pc.looping = false := by
  cases pc <;> simp_all [RefPC.resulted,RefPC.looping]

lemma RefPC.outside_iff {pc : RefPC} : pc.outside ↔ pc.active ∧ pc ≠ .body := by
  cases pc <;> simp [RefPC.outside]

section

variable {s s' : Sys} {id : RefId} {m : RefMove} {st st' : Ref} {pc pc' : RefPC}

/-- A move of the reference outside the body of its loop. -/
structure Ref.Passes (st : Ref) (pc pc' : RefPC) (st' : Ref) : Prop where
  source : st.pc = pc
  target : st'.pc = pc'
  outside : pc.outside
  outside' : pc'.outside
  pos : st'.pos = st.pos
  group : st'.group = st.group
  loop : pc'.looping = false → pc.looping → st.group = ∅

theorem turn_ref {tags publishes : Locks String RefId} (h : (s.refs id).Passes pc pc' st')
    (htag : KeyedLocks.Use s.tagLocks id (pc.tagStage (s.refs id).heldTag)
      (pc'.tagStage st'.heldTag) tags)
    (hpub : KeyedLocks.Use s.publishLocks id pc.publishStage pc'.publishStage publishes)
    (p : ℕ) :
    Turns s ⟨id,p⟩ (((s.setRef id st').withTags tags).withPublishes publishes) :=
  ⟨st',s.jobs ⟨id,p⟩,s.requests id.request,
  { arrived := rfl
    refs := rfl
    jobs := (update_eq_self _ _).symm
    requests := (update_eq_self _ _).symm
    options := rfl
    size := rfl
    tag := by
      rw [Ref.tagStage,Ref.tagStage,h.source,h.target]
      exact htag
    publish := by
      rw [h.source,h.target]
      exact hpub
    blob := .rest _
    shared := .rest _
    slots := .rest _
    refSlots := by
      rw [h.source,h.target,(RefPC.outside_iff.1 h.outside).1,(RefPC.outside_iff.1 h.outside').1]
      exact .rest _
    onward := .refl _
    flow := .rest _ h.pos h.group (iff_of_false (h.target ▸ (RefPC.outside_iff.1 h.outside').2)
      (h.source ▸ (RefPC.outside_iff.1 h.outside).2)) (h.source ▸ h.target ▸ h.loop)
    starts := .later rfl (h.source ▸ (RefPC.outside_iff.1 h.outside).1)
      (h.target ▸ RefPC.ne_fresh_of_active (RefPC.outside_iff.1 h.outside').1) }⟩

theorem Ref.Passes.of_pc (st' : Ref) (hpc : st.pc = pc) (hpc' : st'.pc = pc')
    (h : (pc.outside && pc'.outside && (pc'.looping || !pc.looping)))
    (hpos : st'.pos = st.pos) (hgrp : st'.group = st.group) : st.Passes pc pc' st' := by
  simp only [Bool.and_eq_true] at h
  refine ⟨hpc,hpc',h.1.1,h.1.2,hpos,hgrp,fun hle hlp => ?_⟩
  simp [hle,hlp] at h

theorem turn_goto {tags publishes : Locks String RefId} (pc' : RefPC) (hpc : (s.refs id).pc = pc)
    (h : (pc.outside && pc'.outside && (pc'.looping || !pc.looping)))
    (htag : KeyedLocks.Use s.tagLocks id (pc.tagStage (s.refs id).heldTag)
      (pc'.tagStage (s.refs id).heldTag) tags)
    (hpub : KeyedLocks.Use s.publishLocks id pc.publishStage pc'.publishStage publishes)
    (p : ℕ) :
    Turns s ⟨id,p⟩
      (((s.setRef id ((s.refs id).goto pc')).withTags tags).withPublishes publishes) :=
  turn_ref (.of_pc ((s.refs id).goto pc') hpc rfl h rfl rfl) htag hpub p

theorem Ref.exit_cases (st : Ref) :
    (∃ key, st.exit = st.goto (.tagUnlock key) ∧ st.heldTag = .holding key) ∨
      (st.exit = st.goto .send ∧ st.heldTag = .out) := by
  unfold Ref.exit Ref.heldTag
  cases st.tag with
  | some key => exact .inl ⟨key,rfl,rfl⟩
  | none => exact .inr ⟨rfl,rfl⟩

/-- The return of a reference at work, with what it did to the publish locks. -/
theorem turn_exit {publishes : Locks String RefId} (st : Ref) (hpc : (s.refs id).pc = pc)
    (houts : pc.outside) (hhl : pc.tagStage (s.refs id).heldTag = (s.refs id).heldTag)
    (hlp : pc.looping → (s.refs id).group = ∅)
    (hpub : KeyedLocks.Use s.publishLocks id pc.publishStage .out publishes)
    (hst : st.tag = (s.refs id).tag) (hpos : st.pos = (s.refs id).pos)
    (hgrp : st.group = (s.refs id).group) (p : ℕ) :
    Turns s ⟨id,p⟩ ((s.setRef id st.exit).withPublishes publishes) := by
  have htag : st.heldTag = (s.refs id).heldTag := by rw [Ref.heldTag,Ref.heldTag,hst]
  obtain ⟨key,hexit,hkey⟩ | ⟨hexit,hkey⟩ := st.exit_cases
  · have hpss : (s.refs id).Passes pc (.tagUnlock key) (st.goto (.tagUnlock key)) :=
      ⟨hpc,rfl,houts,rfl,hpos,hgrp,fun _ => hlp⟩
    rw [hexit]
    refine turn_ref hpss ?_ hpub p
    rw [hhl,← htag,hkey]
    exact .rest _
  · have hpss : (s.refs id).Passes pc .send (st.goto .send) :=
      ⟨hpc,rfl,houts,rfl,hpos,hgrp,fun _ => hlp⟩
    rw [hexit]
    refine turn_ref hpss ?_ hpub p
    rw [hhl,← htag,hkey]
    exact .rest _

theorem turn_body (st' : Ref) (hpc : (s.refs id).pc = .head) (hpc' : st'.pc = .body)
    (hjob : (s.jobs ⟨id,(s.refs id).pos⟩).pc = .idle) (hpos : st'.pos = (s.refs id).pos)
    (hgrp : st'.group = (s.refs id).group) (htag : st'.tag = (s.refs id).tag)
    (cacheDir blob : String) :
    Turns s ⟨id,(s.refs id).pos⟩
      ((s.setRef id st').setJob ⟨id,(s.refs id).pos⟩ ⟨.enter,cacheDir,blob,false⟩) :=
  ⟨st',⟨.enter,cacheDir,blob,false⟩,s.requests id.request,
  { arrived := rfl
    refs := rfl
    jobs := rfl
    requests := (update_eq_self _ _).symm
    options := rfl
    size := rfl
    tag := by
      rw [Ref.tagStage,Ref.tagStage,hpc,hpc',Ref.heldTag,Ref.heldTag,htag]
      exact .rest _
    publish := by
      rw [hpc,hpc']
      exact .rest _
    blob := by
      rw [JobState.blobStage,hjob]
      exact .rest _
    shared := by
      rw [hjob]
      exact .rest _
    slots := by
      rw [hjob]
      exact .rest _
    refSlots := by
      rw [hpc,hpc']
      exact .rest _
    onward := by
      rw [hjob]
      exact (by decide : JobPC.Onward .idle .enter)
    flow := by
      rw [hjob]
      exact .enter hpos hgrp hpc' rfl
    starts := .later rfl (by simp [hpc,RefPC.active]) (by simp [hpc']) }⟩

theorem turn_left {slots : Slots ℕ} (hpc : (s.refs id).pc = .leave)
    (hslt : (s.requests id.request).refSlots.get id.index = some slots) (p : ℕ) :
    Turns s ⟨id,p⟩ ((s.setRef id ((s.refs id).goto .gone)).setRequest id.request
        { s.requests id.request with refSlots := slots }) :=
  ⟨_,s.jobs ⟨id,p⟩,_,
  { arrived := rfl
    refs := rfl
    jobs := (update_eq_self _ _).symm
    requests := rfl
    options := rfl
    size := rfl
    tag := by
      rw [Ref.tagStage,hpc]
      exact .rest _
    publish := by
      rw [hpc]
      exact .rest _
    blob := .rest _
    shared := .rest _
    slots := .rest _
    refSlots := by
      rw [hpc]
      exact .get hslt
    onward := .refl _
    flow := .rest _ rfl rfl (by simp [hpc,Ref.goto]) (by simp [hpc,RefPC.looping])
    starts := .later rfl (by simp [hpc,RefPC.active]) (by simp [Ref.goto]) }⟩

lemma JobPC.phase_eq_idle {pc : JobPC} : pc.phase = .idle ↔ pc = .idle := by
  cases pc <;> simp [JobPC.phase]

lemma JobPC.phase_eq_ended {pc : JobPC} : pc.phase = .ended ↔ pc = .ended := by
  cases pc <;> simp [JobPC.phase]

theorem head_turn {cached : Bool} (hpc : (s.refs id).pc = .head)
    (hil : (s.jobs ⟨id,(s.refs id).pos⟩).pc = .idle)
    (h : refStep s id (.blob cached) = some s') :
    Turns s ⟨id,(s.refs id).pos⟩ s' := by
  simp only [refStep,hpc] at h
  split at h
  case h_1 =>
    cases h
    exact turn_goto .join hpc rfl (.rest _) (.rest _) _
  case h_2 blob blobs _ =>
    split_ifs at h
    · cases h
      exact turn_ref
        (.of_pc { s.refs id with pc := .head,blobs := blobs } hpc rfl rfl rfl rfl)
        (.rest _) (.rest _) _
    · cases h
      exact turn_ref
        (.of_pc { s.refs id with pc := .head,blobs := blobs,seenBlobs := blob::(s.refs id).seenBlobs } hpc rfl rfl rfl rfl)
        (.rest _) (.rest _) _
    · cases h
      exact turn_body
        { s.refs id with pc := .body,blobs := blobs,seenBlobs := blob::(s.refs id).seenBlobs }
        hpc rfl hil rfl rfl rfl _ _

theorem join_turn {key : Option String} (hpc : (s.refs id).pc = .join)
    (h : refStep s id (.joined key) = some s') (p : ℕ) :
    Turns s ⟨id,p⟩ s' := by
  simp only [refStep,hpc] at h
  split at h
  case isFalse => cases h
  case isTrue hgrp =>
    have hexit := turn_exit { s.refs id with stopped := true } hpc rfl rfl (fun _ => hgrp)
      (.rest _) rfl rfl rfl p
    split at h
    case isTrue =>
      cases h
      exact hexit
    case isFalse =>
      split at h
      case h_1 =>
        cases h
        exact hexit
      case h_2 key =>
        cases h
        have hpss : (s.refs id).Passes .join (.publishEnter key)
            { s.refs id with pc := .publishEnter key,stopped := true } :=
          ⟨hpc,rfl,rfl,rfl,rfl,rfl,fun _ _ => hgrp⟩
        exact turn_ref hpss (.rest _) (.rest _) _

theorem refStep_turn (hc : Control (s.refs id) fun p => (s.jobs ⟨id,p⟩).pc.phase)
    (h : refStep s id m = some s') :
    Turns s ⟨id,(s.refs id).pos⟩ s' := by
  have hse := h
  unfold refStep at h
  dsimp only at h
  split at h
  case h_1 hpc =>
    cases h
    exact turn_goto .send hpc rfl (.rest _) (.rest _) _
  case h_2 hpc =>
    cases h
    exact turn_ref
      (.of_pc { s.refs id with pc := .work,tag := none } hpc rfl rfl rfl rfl)
      (.rest .out) (.rest _) _
  case h_3 key hpc =>
    cases h
    exact turn_goto (.tagEnter key) hpc rfl (.rest _) (.rest _) _
  case h_4 key hpc =>
    cases h
    exact turn_goto (.tagWait key) hpc rfl (.enter key) (.rest _) _
  case h_5 key hpc =>
    obtain ⟨l,hl,rfl⟩ := map_eq_some_iff.1 h
    exact turn_ref
      (.of_pc { s.refs id with pc := .work,tag := some key } hpc rfl rfl rfl rfl)
      (.take key hl) (.rest _) _
  case h_6 key hpc =>
    split at h
    · obtain ⟨l,hl,rfl⟩ := map_eq_some_iff.1 h
      exact turn_goto (.tagAbort key) hpc rfl (.giveUp key hl) (.rest _) _
    · cases h
  case h_7 key hpc =>
    obtain ⟨l,hl,rfl⟩ := map_eq_some_iff.1 h
    exact turn_goto .send hpc rfl (.forget key hl) (.rest _) _
  case h_8 hpc =>
    cases h
    exact turn_exit _ hpc rfl rfl (by simp [RefPC.looping]) (.rest _) rfl rfl rfl _
  case h_9 cacheDir blobs hpc =>
    cases h
    exact turn_ref
      (.of_pc { s.refs id with pc := .head,cacheDir := cacheDir,blobs := blobs } hpc rfl rfl rfl rfl)
      (.rest _) (.rest _) _
  case h_10 key hpc =>
    cases h
    exact turn_goto (.publishEnter key) hpc rfl (.rest _) (.rest _) _
  case h_11 cached hpc => exact head_turn hpc (JobPC.phase_eq_idle.1 (hc.idle (by simp [hpc]))) hse
  case h_12 key hpc => exact join_turn hpc hse _
  case h_13 key hpc =>
    cases h
    exact turn_goto (.publishWait key) hpc rfl (.rest _) (.enter key) _
  case h_14 key hpc =>
    obtain ⟨l,hl,rfl⟩ := map_eq_some_iff.1 h
    exact turn_goto (.publish key) hpc rfl (.rest _) (.take key hl) _
  case h_15 key hpc =>
    split at h
    · obtain ⟨l,hl,rfl⟩ := map_eq_some_iff.1 h
      exact turn_goto (.publishAbort key) hpc rfl (.rest _) (.giveUp key hl) _
    · cases h
  case h_16 key hpc =>
    obtain ⟨l,hl,rfl⟩ := map_eq_some_iff.1 h
    exact turn_exit _ hpc rfl rfl (by simp [RefPC.looping]) (.forget key hl) rfl rfl rfl _
  case h_17 key hpc =>
    cases h
    exact turn_goto (.publishUnlock key) hpc rfl (.rest _) (.rest _) _
  case h_18 key hpc =>
    obtain ⟨l,hl,rfl⟩ := map_eq_some_iff.1 h
    exact turn_goto (.publishLeave key) hpc rfl (.rest _) (.unlock key hl) _
  case h_19 key hpc =>
    obtain ⟨l,hl,rfl⟩ := map_eq_some_iff.1 h
    exact turn_exit _ hpc rfl rfl (by simp [RefPC.looping]) (.forget key hl) rfl rfl rfl _
  case h_20 key hpc =>
    obtain ⟨l,hl,rfl⟩ := map_eq_some_iff.1 h
    exact turn_goto (.tagLeave key) hpc rfl (.unlock key hl) (.rest _) _
  case h_21 key hpc =>
    obtain ⟨l,hl,rfl⟩ := map_eq_some_iff.1 h
    exact turn_goto .send hpc rfl (.forget key hl) (.rest _) _
  case h_22 hpc =>
    cases h
    exact turn_goto .leave hpc rfl (.rest _) (.rest _) _
  case h_23 hpc =>
    obtain ⟨slots,hslt,rfl⟩ := map_eq_some_iff.1 h
    exact turn_left hpc hslt _
  case h_24 => cases h

end

section

variable {s s' : Sys} {j : Job} {m : JobMove} {pc pc' : JobPC}

/-- A move of a job its reference does not see, with the same claim to a slot. -/
theorem turn_job {blobs : Locks String Job} {shared : Slots Job} (job' : JobState)
    (hpc : (s.jobs j).pc = pc) (hpc' : job'.pc = pc') (hkey : job'.key = (s.jobs j).key)
    (hbl : KeyedLocks.Use s.blobLocks j (pc.blobStage (s.jobs j).key)
      (pc'.blobStage (s.jobs j).key) blobs)
    (hshr : Tokens.Use s.shared j pc.hasShared pc'.hasShared shared)
    (hreq : pc'.hasRequest = pc.hasRequest) (hon : pc.Onward pc')
    (hph : pc'.phase = pc.phase) :
    Turns s j (((s.setJob j job').withBlobs blobs).withShared shared) :=
  ⟨s.refs j.ref,job',s.requests j.ref.request,
  { arrived := rfl
    refs := (update_eq_self _ _).symm
    jobs := rfl
    requests := (update_eq_self _ _).symm
    options := rfl
    size := rfl
    tag := .rest _
    publish := .rest _
    blob := by
      rw [JobState.blobStage,JobState.blobStage,hpc,hpc',hkey]
      exact hbl
    shared := by
      rw [hpc,hpc']
      exact hshr
    slots := by
      rw [hpc,hpc',hreq]
      exact .rest _
    refSlots := .rest _
    onward := hpc ▸ hpc' ▸ hon
    flow := by
      rw [hpc,hpc',hph]
      exact .rest _ rfl rfl Iff.rfl fun hli hli' => by simp [hli] at hli'
    starts := .rest rfl rfl }⟩

theorem turn_slots {slots : Slots Job} (pc' : JobPC) (hpc : (s.jobs j).pc = pc)
    (hbl : pc'.blobStage (s.jobs j).key = pc.blobStage (s.jobs j).key)
    (hshr : pc'.hasShared = pc.hasShared)
    (hslt : Tokens.Use (s.requests j.ref.request).slots j pc.hasRequest pc'.hasRequest slots)
    (hon : pc.Onward pc') (hph : pc'.phase = pc.phase) :
    Turns s j ((s.setJob j ((s.jobs j).goto pc')).withSlots j.ref slots) :=
  ⟨s.refs j.ref,_,_,
  { arrived := rfl
    refs := (update_eq_self _ _).symm
    jobs := rfl
    requests := rfl
    options := rfl
    size := rfl
    tag := .rest _
    publish := .rest _
    blob := by
      rw [JobState.blobStage,hpc,← hbl]
      exact .rest _
    shared := by
      rw [hpc,← hshr]
      exact .rest _
    slots := by
      rw [hpc]
      exact hslt
    refSlots := .rest _
    onward := hpc ▸ hon
    flow := by
      rw [hpc,← hph]
      exact .rest _ rfl rfl Iff.rfl fun hli hli' => by simp [hli] at hli'
    starts := .rest rfl rfl }⟩

theorem turn_loop {blobs : Locks String Job} (pc' : JobPC) (st' : Ref) (hpc : (s.jobs j).pc = pc)
    (hbl : KeyedLocks.Use s.blobLocks j (pc.blobStage (s.jobs j).key)
      (pc'.blobStage (s.jobs j).key) blobs)
    (hshr : pc'.hasShared = pc.hasShared) (hreq : pc'.hasRequest = pc.hasRequest)
    (hon : pc.Onward pc') (hflow : Flow (s.refs j.ref) j.pos pc.phase st' pc'.phase)
    (htag : st'.tag = (s.refs j.ref).tag) (hli : (s.refs j.ref).pc.looping)
    (hli' : st'.pc.looping) :
    Turns s j (((s.setJob j ((s.jobs j).goto pc')).setRef j.ref st').withBlobs blobs) :=
  ⟨st',_,s.requests j.ref.request,
  { arrived := rfl
    refs := rfl
    jobs := rfl
    requests := (update_eq_self _ _).symm
    options := rfl
    size := rfl
    tag := by
      rw [Ref.tagStage_of_looping hli,Ref.tagStage_of_looping hli',Ref.heldTag,Ref.heldTag,
        htag]
      exact .rest _
    publish := by
      rw [RefPC.publishStage_of_looping hli,RefPC.publishStage_of_looping hli']
      exact .rest _
    blob := by
      rw [JobState.blobStage,hpc]
      exact hbl
    shared := by
      rw [hpc,← hshr]
      exact .rest _
    slots := by
      rw [hpc,← hreq]
      exact .rest _
    refSlots := by
      rw [RefPC.active_of_looping hli,RefPC.active_of_looping hli']
      exact .rest _
    onward := hpc ▸ hon
    flow := hpc ▸ hflow
    starts := .later rfl (RefPC.active_of_looping hli)
      (RefPC.ne_fresh_of_active (RefPC.active_of_looping hli')) }⟩

theorem turn_jump {blobs : Locks String Job} {shared : Slots Job} (pc' : JobPC)
    (hpc : (s.jobs j).pc = pc)
    (hbl : KeyedLocks.Use s.blobLocks j (pc.blobStage (s.jobs j).key)
      (pc'.blobStage (s.jobs j).key) blobs)
    (hshr : Tokens.Use s.shared j pc.hasShared pc'.hasShared shared)
    (hreq : pc'.hasRequest = pc.hasRequest) (hon : pc.Onward pc')
    (hph : pc'.phase = pc.phase) :
    Turns s j (((s.setJob j ((s.jobs j).goto pc')).withBlobs blobs).withShared shared) :=
  turn_job ((s.jobs j).goto pc') hpc rfl rfl hbl hshr hreq hon hph

theorem jobStep_turn (hc : Control (s.refs j.ref) fun p => (s.jobs ⟨j.ref,p⟩).pc.phase)
    (h : jobStep s j m = some s') : Turns s j s' := by
  have hlop : (s.jobs j).pc.phase = .looped → (s.refs j.ref).pc.looping := by
    intro hph
    simp [(hc.current hph).2,RefPC.looping]
  have hafloat : (s.jobs j).pc.phase = .afloat → (s.refs j.ref).pc.looping :=
    fun hph => hc.looping hph
  unfold jobStep at h
  dsimp only at h
  split at h
  case h_1 hpc =>
    cases h
    exact turn_jump .wait hpc (.enter _) (.rest _) rfl (by decide) rfl
  case h_2 hpc =>
    obtain ⟨l,hl,rfl⟩ := map_eq_some_iff.1 h
    exact turn_jump .recheck hpc (.take _ hl) (.rest _) rfl (by decide) rfl
  case h_3 hpc =>
    split at h
    · obtain ⟨l,hl,rfl⟩ := map_eq_some_iff.1 h
      exact turn_jump .abort hpc (.giveUp _ hl) (.rest _) rfl (by decide) rfl
    · cases h
  case h_4 hpc =>
    obtain ⟨l,hl,rfl⟩ := map_eq_some_iff.1 h
    exact turn_loop .ended (s.refs j.ref).break hpc (.forget _ hl) rfl rfl (by decide)
      (.leave rfl rfl (by simp [Ref.break]) rfl) rfl (hlop (by rw [hpc]; rfl)) rfl
  case h_5 hpc =>
    cases h
    exact turn_jump .skip hpc (.rest _) (.rest _) rfl (by decide) rfl
  case h_6 hpc =>
    cases h
    exact turn_jump .wantRequest hpc (.rest _) (.rest _) rfl (by decide) rfl
  case h_7 hpc =>
    obtain ⟨l,hl,rfl⟩ := map_eq_some_iff.1 h
    exact turn_jump .skipped hpc (.unlock _ hl) (.rest _) rfl (by decide) rfl
  case h_8 hpc =>
    obtain ⟨l,hl,rfl⟩ := map_eq_some_iff.1 h
    exact turn_loop .ended (s.refs j.ref).next hpc (.forget _ hl) rfl rfl (by decide)
      (.leave rfl rfl (by simp [Ref.next]) rfl) rfl (hlop (by rw [hpc]; rfl)) rfl
  case h_9 hpc =>
    obtain ⟨t,ht,rfl⟩ := map_eq_some_iff.1 h
    exact turn_slots .wantShared hpc rfl rfl (.put ht) (by decide) rfl
  case h_10 hpc =>
    split at h
    · cases h
      exact turn_jump .drop hpc (.rest _) (.rest _) rfl (by decide) rfl
    · cases h
  case h_11 hpc =>
    obtain ⟨t,ht,rfl⟩ := map_eq_some_iff.1 h
    exact turn_jump .acquired hpc (.rest _) (.put ht) rfl (by decide) rfl
  case h_12 hpc =>
    split at h
    · cases h
      exact turn_jump .backOut hpc (.rest _) (.rest _) rfl (by decide) rfl
    · cases h
  case h_13 hpc =>
    obtain ⟨t,ht,rfl⟩ := map_eq_some_iff.1 h
    exact turn_slots .drop hpc rfl rfl (.get ht) (by decide) rfl
  case h_14 hpc =>
    split at h
    · cases h
      exact turn_jump .refuseShared hpc (.rest _) (.rest _) rfl (by decide) rfl
    · cases h
      exact turn_loop .running
        { (s.refs j.ref).next with group := insert j.pos (s.refs j.ref).group } hpc (.rest _) rfl rfl
        (by decide) (.launch rfl rfl (by simp [Ref.next]) rfl) rfl (hlop (by rw [hpc]; rfl)) rfl
  case h_15 hpc =>
    obtain ⟨t,ht,rfl⟩ := map_eq_some_iff.1 h
    exact turn_jump .refuseRequest hpc (.rest _) (.get ht) rfl (by decide) rfl
  case h_16 hpc =>
    obtain ⟨t,ht,rfl⟩ := map_eq_some_iff.1 h
    exact turn_slots .drop hpc rfl rfl (.get ht) (by decide) rfl
  case h_17 hpc =>
    obtain ⟨l,hl,rfl⟩ := map_eq_some_iff.1 h
    exact turn_jump .dropped hpc (.unlock _ hl) (.rest _) rfl (by decide) rfl
  case h_18 hpc =>
    obtain ⟨l,hl,rfl⟩ := map_eq_some_iff.1 h
    exact turn_loop .ended (s.refs j.ref).break hpc (.forget _ hl) rfl rfl (by decide)
      (.leave rfl rfl (by simp [Ref.break]) rfl) rfl (hlop (by rw [hpc]; rfl)) rfl
  case h_19 failed hpc =>
    cases h
    exact turn_job { s.jobs j with pc := .unlock,failed := failed } hpc rfl rfl (.rest _)
      (.rest _) rfl (by decide : JobPC.Onward .running .unlock) rfl
  case h_20 hpc =>
    obtain ⟨l,hl,rfl⟩ := map_eq_some_iff.1 h
    exact turn_jump .forget hpc (.unlock _ hl) (.rest _) rfl (by decide) rfl
  case h_21 hpc =>
    obtain ⟨l,hl,rfl⟩ := map_eq_some_iff.1 h
    exact turn_jump .record hpc (.forget _ hl) (.rest _) rfl (by decide) rfl
  case h_22 hpc =>
    cases h
    have hli := hafloat (by rw [hpc]; rfl)
    exact turn_loop .releaseShared
      { s.refs j.ref with
        stopped := (s.refs j.ref).stopped || (s.jobs j).failed && !(s.refs j.ref).failed
        failed := (s.refs j.ref).failed || (s.jobs j).failed }
      hpc (.rest _) rfl rfl (by decide) (.rest _ rfl rfl Iff.rfl (by simp [hli])) rfl hli
      hli
  case h_23 hpc =>
    obtain ⟨t,ht,rfl⟩ := map_eq_some_iff.1 h
    exact turn_jump .releaseRequest hpc (.rest _) (.get ht) rfl (by decide) rfl
  case h_24 hpc =>
    obtain ⟨t,ht,rfl⟩ := map_eq_some_iff.1 h
    exact turn_slots .finish hpc rfl rfl (.get ht) (by decide) rfl
  case h_25 hpc =>
    cases h
    have hli := hafloat (by rw [hpc]; rfl)
    exact turn_loop .ended
      { s.refs j.ref with group := (s.refs j.ref).group.erase j.pos } hpc (.rest _) rfl rfl
      (by decide) (.finish rfl rfl rfl) rfl hli hli
  case h_26 => cases h

end

end TalosBox.WarmPool
