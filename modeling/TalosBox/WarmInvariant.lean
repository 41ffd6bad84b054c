import TalosBox.WarmTurns

/-! What holds of every state of the warm requests. -/
namespace TalosBox.WarmPool

open Function (update update_of_ne update_self update_eq_self)
open KeyedLocks (Locks Stage Staged)
open Tokens (Slots Owned)

section

variable {s s' : Sys} {j : Job} {st' : Ref} {job' : JobState} {q' : Request}

namespace Turn

section

variable (h : Turn s j st' job' q' s')
include h

lemma ref_self : s'.refs j.ref = st' := by
  rw [h.refs,update_self]

lemma ref_ne {id : RefId} (hid : id ≠ j.ref) :
    s'.refs id = s.refs id := by
  rw [h.refs,update_of_ne hid]

lemma job_self : s'.jobs j = job' := by
  rw [h.jobs,update_self]

lemma job_ne {i : Job} (hi : i ≠ j) : s'.jobs i = s.jobs i := by
  rw [h.jobs,update_of_ne hi]

lemma request_self : s'.requests j.ref.request = q' := by
  rw [h.requests,update_self]

lemma request_ne {r : ℕ} (hr : r ≠ j.ref.request) :
    s'.requests r = s.requests r := by
  rw [h.requests,update_of_ne hr]

end

end Turn

end

section

variable {s s' : Sys} {r : ℕ}

theorem turn_start {slots : Slots ℕ} (pc' : RefPC)
    (hfrs : (s.refs ⟨r,(s.requests r).next⟩).pc = .fresh)
    (hlt : (s.requests r).next < (s.requests r).size) (hpc' : pc' ≠ .fresh) (hbd : pc' ≠ .body)
    (htag : ∀ held, pc'.tagStage held = .out) (hpub : pc'.publishStage = .out)
    (hslt : Tokens.Use (s.requests r).refSlots (s.requests r).next false pc'.active slots) :
    Turn s ⟨⟨r,(s.requests r).next⟩,0⟩ ((s.refs ⟨r,(s.requests r).next⟩).goto pc')
      (s.jobs ⟨⟨r,(s.requests r).next⟩,0⟩)
      { s.requests r with next := (s.requests r).next + 1,refSlots := slots }
      ((s.setRef ⟨r,(s.requests r).next⟩
        ((s.refs ⟨r,(s.requests r).next⟩).goto pc')).setRequest r
        { s.requests r with next := (s.requests r).next + 1,refSlots := slots }) where
  arrived := rfl
  refs := rfl
  jobs := (update_eq_self _ _).symm
  requests := rfl
  options := rfl
  size := rfl
  tag := by
    rw [Ref.tagStage,Ref.tagStage,hfrs,Ref.goto,htag]
    exact .rest _
  publish := by
    rw [hfrs,Ref.goto,hpub]
    exact .rest _
  blob := .rest _
  shared := .rest _
  slots := .rest _
  refSlots := by
    rw [hfrs]
    exact hslt
  onward := .refl _
  flow := .rest _ rfl rfl (iff_of_false hbd (by simp [hfrs])) (by simp [hfrs,RefPC.looping])
  starts := .start rfl rfl hlt hpc'

theorem turn_request (q' : Request) (hjb : q'.jobs = (s.requests r).jobs)
    (hsz : q'.size = (s.requests r).size) (hnx : q'.next = (s.requests r).next)
    (hrefS : q'.refSlots = (s.requests r).refSlots)
    (hslt : q'.slots = (s.requests r).slots) :
    Turn s ⟨⟨r,0⟩,0⟩ (s.refs ⟨r,0⟩) (s.jobs ⟨⟨r,0⟩,0⟩) q' (s.setRequest r q') where
  arrived := rfl
  refs := (update_eq_self _ _).symm
  jobs := (update_eq_self _ _).symm
  requests := rfl
  options := hjb
  size := hsz
  tag := .rest _
  publish := .rest _
  blob := .rest _
  shared := .rest _
  slots := hslt ▸ .rest _
  refSlots := hrefS ▸ .rest _
  onward := .refl _
  flow := .rest _ rfl rfl Iff.rfl fun hlp hlp' => by simp [hlp] at hlp'
  starts := .rest hnx rfl

end

structure Inv (s : Sys) : Prop where
  unborn : ∀ r, s.arrived ≤ r → (s.requests r).size = 0
  next_le : ∀ r, (s.requests r).next ≤ (s.requests r).size
  fresh : ∀ id, (s.requests id.request).next ≤ id.index → s.refs id = Ref.fresh
  started : ∀ id, id.index < (s.requests id.request).next → (s.refs id).pc ≠ .fresh
  control : ∀ id, Control (s.refs id) fun p => (s.jobs ⟨id,p⟩).pc.phase
  tags : Staged s.tagLocks fun id => (s.refs id).tagStage
  publishes : Staged s.publishLocks fun id => (s.refs id).pc.publishStage
  blobs : Staged s.blobLocks fun j => (s.jobs j).blobStage
  shared : Owned s.shared maxWarmJobs (fun j => (s.jobs j).pc.hasShared)
    fun j => (s.jobs j).pc.beforeShared
  slots : ∀ r, Owned (s.requests r).slots (warmJobs (s.requests r).jobs)
    (fun j => decide (j.ref.request = r) && (s.jobs j).pc.hasRequest)
    fun j => decide (j.ref.request ≠ r) || (s.jobs j).pc.beforeRequest
  refSlots : ∀ r, Owned (s.requests r).refSlots (warmJobs (s.requests r).jobs)
    (fun i => (s.refs ⟨r,i⟩).pc.active) fun i => decide ((s.refs ⟨r,i⟩).pc = .fresh)

lemma warmJobs_pos (jobs : ℤ) : 0 < warmJobs jobs := by
  unfold warmJobs defaultWarmJobs maxWarmJobs
  split_ifs <;> omega

theorem inv_initial : Inv initial where
  unborn _ _ := rfl
  next_le _ := le_rfl
  fresh _ _ := rfl
  started _ h := absurd h (Nat.not_lt_zero _)
  control _ := ⟨fun _ h => absurd h (Nat.not_lt_zero _),fun h => by simp [initial,Ref.fresh] at h,
    fun _ => rfl,fun _ _ => rfl,fun p => by simp [initial,Ref.fresh,JobState.idle,JobPC.phase],
    fun _ => rfl⟩
  tags := ⟨KeyedLocks.sound_empty,fun _ => rfl⟩
  publishes := ⟨KeyedLocks.sound_empty,fun _ => rfl⟩
  blobs := ⟨KeyedLocks.sound_empty,fun _ => rfl⟩
  shared := ⟨Tokens.sound_empty _,rfl,fun _ => by
    simp [initial,Slots.empty,JobState.idle,JobPC.hasShared],fun _ _ => rfl⟩
  slots _ := ⟨Tokens.sound_empty _,rfl,fun _ => by
    simp [initial,newRequest,Slots.empty,JobState.idle,JobPC.hasRequest],fun _ _ => rfl⟩
  refSlots _ := ⟨Tokens.sound_empty _,rfl,fun _ => by
    simp [initial,newRequest,Slots.empty,Ref.fresh,RefPC.active],fun _ _ => rfl⟩

section

variable {s s' : Sys} {j : Job} {st' : Ref} {job' : JobState} {q' : Request}

theorem Starts.onward {q q' : Request} {index : ℕ} {st st' : Ref} (h : Starts q q' index st st')
    (hfrs : index = q.next → st.pc = .fresh) :
    Tokens.Onward st.pc.active (decide (st.pc = .fresh)) st'.pc.active
      (decide (st'.pc = .fresh)) := by
  cases h with
  | rest _ hst =>
    rw [hst]
    exact .refl fun hpc => by simp [of_decide_eq_true hpc,RefPC.active]
  | later _ hst hst' =>
    exact ⟨fun hinac => by simp [hst] at hinac,fun hpc => absurd (of_decide_eq_true hpc) hst'⟩
  | start _ hidx _ hst' =>
    exact ⟨fun _ _ => decide_eq_true (hfrs hidx),fun hpc => absurd (of_decide_eq_true hpc) hst'⟩

theorem Turn.size_eq (ht : Turn s j st' job' q' s') (r : ℕ) :
    (s'.requests r).size = (s.requests r).size := by
  by_cases hr : r = j.ref.request
  · rw [hr,ht.request_self,ht.size]
  · rw [ht.request_ne hr]

/-- The starter of a request stays, or goes on by the reference that moves. -/
theorem Turn.next_eq (ht : Turn s j st' job' q' s') (r : ℕ) :
    (s'.requests r).next = (s.requests r).next ∨
      (s'.requests r).next = (s.requests r).next + 1 ∧ j.ref = ⟨r,(s.requests r).next⟩ ∧
        (s.requests r).next < (s.requests r).size := by
  by_cases hr : r = j.ref.request
  · subst hr
    rw [ht.request_self]
    cases ht.starts with
    | rest hnx => exact .inl hnx
    | later hnx => exact .inl hnx
    | start hnx hidx hlt => exact .inr ⟨hnx,RefId.ext rfl hidx,hlt⟩
  · exact .inl (by rw [ht.request_ne hr])

section

variable (h : Inv s)
include h

theorem Inv.turn_fresh (ht : Turn s j st' job' q' s') (id : RefId)
    (hid : (s'.requests id.request).next ≤ id.index) : s'.refs id = Ref.fresh := by
  have hold : s.refs id = Ref.fresh := by
    refine h.fresh id ?_
    rcases ht.next_eq id.request with hnx | ⟨hnx,-⟩ <;> omega
  by_cases hj : id = j.ref
  · subst hj
    rw [ht.request_self] at hid
    rw [ht.ref_self]
    cases ht.starts with
    | rest hnx hst => exact hst.trans hold
    | later hnx hst =>
      rw [hold] at hst
      simp [Ref.fresh,RefPC.active] at hst
    | start hnx hidx => omega
  · rw [ht.ref_ne hj]
    exact hold

theorem Inv.turn_started (ht : Turn s j st' job' q' s') (id : RefId)
    (hid : id.index < (s'.requests id.request).next) : (s'.refs id).pc ≠ .fresh := by
  by_cases hj : id = j.ref
  · subst hj
    rw [ht.request_self] at hid
    rw [ht.ref_self]
    cases ht.starts with
    | rest hnx hst => exact hst ▸ h.started _ (hnx ▸ hid)
    | later _ _ hst' => exact hst'
    | start _ _ _ hst' => exact hst'
  · rw [ht.ref_ne hj]
    refine h.started id ?_
    rcases ht.next_eq id.request with hnx | ⟨hnx,href,-⟩
    · omega
    · have hne : id.index ≠ (s.requests id.request).next := by
        intro hidx
        rw [← hidx] at href
        exact hj href.symm
      omega

theorem Inv.turn_control (ht : Turn s j st' job' q' s') (id : RefId) :
    Control (s'.refs id) fun p => (s'.jobs ⟨id,p⟩).pc.phase := by
  by_cases hj : id = j.ref
  · subst hj
    have hjb : (fun p => (s'.jobs ⟨j.ref,p⟩).pc.phase) =
        update (fun p => (s.jobs ⟨j.ref,p⟩).pc.phase) j.pos job'.pc.phase := by
      funext p
      by_cases hp : p = j.pos
      · rw [hp,update_self,ht.job_self]
      · rw [update_of_ne hp,ht.job_ne fun hj => hp (congrArg Job.pos hj)]
    rw [ht.ref_self,hjb]
    exact (h.control j.ref).flow ht.flow
  · have hjb : (fun p => (s'.jobs ⟨id,p⟩).pc.phase) = fun p => (s.jobs ⟨id,p⟩).pc.phase := by
      funext p
      rw [ht.job_ne fun hp => hj (congrArg Job.ref hp)]
    rw [ht.ref_ne hj,hjb]
    exact h.control id

theorem Inv.turn_slots (ht : Turn s j st' job' q' s') (r : ℕ) :
    Owned (s'.requests r).slots (warmJobs (s'.requests r).jobs)
      (fun j => decide (j.ref.request = r) && (s'.jobs j).pc.hasRequest)
      fun j => decide (j.ref.request ≠ r) || (s'.jobs j).pc.beforeRequest := by
  by_cases hr : r = j.ref.request
  · subst hr
    rw [ht.request_self,ht.options]
    exact (h.slots j.ref.request).use (c := j) (by simpa [ht.job_self] using ht.slots)
      (by simpa [ht.job_self] using ht.onward.request) fun i hi => by simp [ht.job_ne hi]
  · have hoth : decide (j.ref.request = r) = false := by simp [Ne.symm hr]
    rw [ht.request_ne hr]
    -- The job is of another request, so it has no slot of this one before or after.
    refine (h.slots r).use (c := j) ?_ ?_ fun i hi => by simp [ht.job_ne hi]
    · rw [hoth,Bool.false_and,Bool.false_and]
      exact .rest _
    · simp only [hoth,decide_not,Bool.not_false,Bool.true_or,Bool.false_and]
      decide

theorem Inv.turn_refSlots (ht : Turn s j st' job' q' s') (r : ℕ) :
    Owned (s'.requests r).refSlots (warmJobs (s'.requests r).jobs)
      (fun i => (s'.refs ⟨r,i⟩).pc.active) fun i => decide ((s'.refs ⟨r,i⟩).pc = .fresh) := by
  by_cases hr : r = j.ref.request
  · subst hr
    have hfrs : j.ref.index = (s.requests j.ref.request).next → (s.refs j.ref).pc = .fresh := by
      intro hidx
      rw [h.fresh j.ref hidx.ge]
      rfl
    rw [ht.request_self,ht.options]
    refine (h.refSlots j.ref.request).use (c := j.ref.index) ?_ ?_ fun i hi => ?_
    · rw [ht.ref_self]
      exact ht.refSlots
    · rw [ht.ref_self]
      exact ht.starts.onward hfrs
    · rw [ht.ref_ne fun hid => hi (congrArg RefId.index hid)]
      exact ⟨rfl,rfl⟩
  · have hrefs : ∀ i, s'.refs ⟨r,i⟩ = s.refs ⟨r,i⟩ := fun i =>
      ht.ref_ne fun hid => hr (congrArg RefId.request hid)
    simp only [hrefs,ht.request_ne hr]
    exact h.refSlots r

theorem Inv.turn (ht : Turn s j st' job' q' s') : Inv s' where
  unborn r hr := (ht.size_eq r).trans (h.unborn r (ht.arrived ▸ hr))
  next_le r := by
    have hle := h.next_le r
    rw [ht.size_eq]
    rcases ht.next_eq r with hnx | ⟨hnx,-,hlt⟩ <;> omega
  fresh := h.turn_fresh ht
  started := h.turn_started ht
  control := h.turn_control ht
  tags := h.tags.use (ht.ref_self.symm ▸ ht.tag) fun id hid => by rw [ht.ref_ne hid]
  publishes := h.publishes.use (ht.ref_self.symm ▸ ht.publish) fun id hid => by rw [ht.ref_ne hid]
  blobs := h.blobs.use (ht.job_self.symm ▸ ht.blob) fun i hi => by rw [ht.job_ne hi]
  shared := h.shared.use (ht.job_self.symm ▸ ht.shared) (ht.job_self.symm ▸ ht.onward.shared)
    fun i hi => by simp [ht.job_ne hi]
  slots := h.turn_slots ht
  refSlots := h.turn_refSlots ht

/-- A request that has not arrived has nothing under way. -/
theorem Inv.fresh_of_unborn {id : RefId} (hid : s.arrived ≤ id.request) :
    s.refs id = Ref.fresh := by
  have hle := h.next_le id.request
  rw [h.unborn _ hid] at hle
  exact h.fresh id (by omega)

theorem Inv.idle_of_unborn (hj : s.arrived ≤ j.ref.request) :
    (s.jobs j).pc = .idle := by
  have hc := h.control j.ref
  rw [h.fresh_of_unborn hj] at hc
  refine JobPC.phase_eq_idle.1 ?_
  rcases Nat.eq_zero_or_pos j.pos with hpos | hpos
  · have hil : (s.jobs ⟨j.ref,0⟩).pc.phase = .idle := hc.idle (by simp [Ref.fresh])
    rw [← hpos] at hil
    exact hil
  · exact hc.future j.pos hpos

theorem Inv.warm (jobs : ℤ) (size : ℕ) :
    Inv { s.setRequest s.arrived (newRequest jobs size) with arrived := s.arrived + 1 } where
  unborn r hr := by
    have hne : r ≠ s.arrived := by
      rintro rfl
      exact absurd hr (Nat.not_succ_le_self _)
    simp only [Sys.setRequest,update_of_ne hne]
    exact h.unborn r (Nat.le_of_succ_le hr)
  next_le r := by
    by_cases hr : r = s.arrived
    · subst hr
      simp [Sys.setRequest,newRequest]
    · simp only [Sys.setRequest,update_of_ne hr]
      exact h.next_le r
  fresh id hid := by
    by_cases hr : id.request = s.arrived
    · exact h.fresh_of_unborn hr.ge
    · simp only [Sys.setRequest,update_of_ne hr] at hid
      exact h.fresh id hid
  started id hid := by
    by_cases hr : id.request = s.arrived
    · simp [Sys.setRequest,hr,newRequest] at hid
    · simp only [Sys.setRequest,update_of_ne hr] at hid
      exact h.started id hid
  control := h.control
  tags := h.tags
  publishes := h.publishes
  blobs := h.blobs
  shared := h.shared
  slots r := by
    by_cases hr : r = s.arrived
    · subst hr
      simp only [Sys.setRequest,update_self]
      refine ⟨Tokens.sound_empty _,rfl,fun j => ?_,fun _ _ => rfl⟩
      by_cases hj : j.ref.request = s.arrived
      · simp [newRequest,Slots.empty,h.idle_of_unborn hj.ge,JobPC.hasRequest]
      · simp [newRequest,Slots.empty,hj]
    · simp only [Sys.setRequest,update_of_ne hr]
      exact h.slots r
  refSlots r := by
    by_cases hr : r = s.arrived
    · subst hr
      simp only [Sys.setRequest,update_self]
      refine ⟨Tokens.sound_empty _,rfl,fun i => ?_,fun _ _ => rfl⟩
      have hfrs : s.refs ⟨s.arrived,i⟩ = Ref.fresh := h.fresh_of_unborn le_rfl
      simp [newRequest,Slots.empty,hfrs,Ref.fresh,RefPC.active]
    · simp only [Sys.setRequest,update_of_ne hr]
      exact h.refSlots r

theorem inv_step {m : Move} (hse : step s m = some s') : Inv s' := by
  cases m with
  | warm jobs size =>
    cases hse
    exact h.warm jobs size
  | cancel r =>
    cases hse
    exact h.turn (turn_request _ rfl rfl rfl rfl rfl)
  | start r =>
    simp only [step] at hse
    split at hse
    case isTrue hlt =>
      obtain ⟨slots,hslt,rfl⟩ := Option.map_eq_some_iff.1 hse
      have hfrs : (s.refs ⟨r,(s.requests r).next⟩).pc = .fresh := by
        rw [h.fresh _ le_rfl]
        rfl
      exact h.turn (turn_start .parse hfrs hlt (by simp) (by simp) (fun _ => rfl) rfl (.put hslt))
    case isFalse => cases hse
  | skip r =>
    simp only [step] at hse
    split at hse
    case isTrue hlt =>
      cases hse
      have hfrs : (s.refs ⟨r,(s.requests r).next⟩).pc = .fresh := by
        rw [h.fresh _ le_rfl]
        rfl
      exact h.turn (turn_start .gone hfrs hlt.1 (by simp) (by simp) (fun _ => rfl) rfl (.rest _))
    case isFalse => cases hse
  | collect r =>
    simp only [step] at hse
    split at hse
    case isTrue =>
      cases hse
      exact h.turn (turn_request _ rfl rfl rfl rfl rfl)
    case isFalse => cases hse
  | ref id m =>
    obtain ⟨_,_,_,ht⟩ := refStep_turn (h.control id) hse
    exact h.turn ht
  | job j m =>
    obtain ⟨_,_,_,ht⟩ := jobStep_turn (h.control j.ref) hse
    exact h.turn ht

end

lemma inv_run {moves : List Move} (h : run initial moves = some s) : Inv s :=
  StepRuns.run_invariant (fun _ _ _ hs hse => inv_step hs hse) inv_initial h

end

end TalosBox.WarmPool
