import TalosBox.WarmInvariant

/-! Warm requests side by side: downloads in flight, slots out, and that what waits always waits for
something that can move. -/
namespace TalosBox.WarmPool

theorem Inv.job_moves {s : Sys} (h : Inv s) (j : Job) :
    (∃ m, (jobStep s j m).isSome) ∨ (s.jobs j).pc = .idle ∨ (s.jobs j).pc = .wait ∨
      (s.jobs j).pc = .wantRequest ∨ (s.jobs j).pc = .wantShared ∨ (s.jobs j).pc = .running ∨
      (s.jobs j).pc = .ended := by
  have hforget : (s.jobs j).blobStage = .leaving (s.jobs j).key →
      (s.blobLocks.forget j).isSome := fun hstg => h.blobs.forget_isSome hstg
  have hunlock : (s.jobs j).blobStage = .holding (s.jobs j).key →
      (s.blobLocks.unlock j).isSome := fun hstg => h.blobs.unlock_isSome hstg
  have hshr : (s.jobs j).pc.hasShared → (s.shared.get j).isSome :=
    fun hhas => h.shared.get_isSome hhas
  have hreq : (s.jobs j).pc.hasRequest →
      ((s.requests j.ref.request).slots.get j).isSome := fun hhas =>
    (h.slots j.ref.request).get_isSome (by simpa using hhas)
  simp only [JobState.blobStage] at hforget hunlock
  cases hpc : (s.jobs j).pc with
  | idle => simp
  | wait => simp
  | wantRequest => simp
  | wantShared => simp
  | running => simp
  | ended => simp
  | enter => exact .inl ⟨.lock,by simp [jobStep,hpc]⟩
  | recheck => exact .inl ⟨.cached true,by simp [jobStep,hpc]⟩
  | acquired =>
    refine .inl ⟨.check,?_⟩
    simp only [jobStep,hpc]
    split <;> rfl
  | record => exact .inl ⟨.record,by simp [jobStep,hpc]⟩
  | finish => exact .inl ⟨.done,by simp [jobStep,hpc]⟩
  | abort | skipped | dropped | forget =>
    refine .inl ⟨.forget,?_⟩
    simpa [jobStep,hpc] using hforget (by rw [hpc]; rfl)
  | skip | drop | unlock =>
    refine .inl ⟨.unlock,?_⟩
    simpa [jobStep,hpc] using hunlock (by rw [hpc]; rfl)
  | refuseShared | releaseShared =>
    refine .inl ⟨.release,?_⟩
    simpa [jobStep,hpc] using hshr (by rw [hpc]; rfl)
  | backOut | refuseRequest | releaseRequest =>
    refine .inl ⟨.release,?_⟩
    simpa [jobStep,hpc] using hreq (by rw [hpc]; rfl)

/-- A reference that waits for no lock can move, once its downloads are done. -/
theorem Inv.ref_moves {s : Sys} (h : Inv s) (id : RefId) (hgrp : (s.refs id).group = ∅) :
    (∃ m, (refStep s id m).isSome) ∨ (s.refs id).pc = .fresh ∨ (s.refs id).pc = .gone ∨
      (s.refs id).pc = .body ∨ (∃ key, (s.refs id).pc = .tagWait key) ∨
      ∃ key, (s.refs id).pc = .publishWait key := by
  cases hpc : (s.refs id).pc with
  | fresh => simp
  | gone => simp
  | body => simp
  | tagWait key => simp
  | publishWait key => simp
  | parse => exact .inl ⟨.parsed none,by simp [refStep,hpc]⟩
  | tagEnter key => exact .inl ⟨.lock,by simp [refStep,hpc]⟩
  | work => exact .inl ⟨.fails,by simp [refStep,hpc]⟩
  | head =>
    refine .inl ⟨.blob true,?_⟩
    simp only [refStep,hpc]
    split
    · rfl
    · split <;> rfl
  | join =>
    refine .inl ⟨.joined none,?_⟩
    simp only [refStep,hpc,hgrp,if_true]
    split <;> rfl
  | publishEnter key => exact .inl ⟨.lock,by simp [refStep,hpc]⟩
  | publish key => exact .inl ⟨.published,by simp [refStep,hpc]⟩
  | send => exact .inl ⟨.sent,by simp [refStep,hpc]⟩
  | tagAbort key | tagLeave key =>
    have hstg : (s.refs id).tagStage = .leaving key := by
      rw [Ref.tagStage,hpc]
      rfl
    exact .inl ⟨.forget,by simpa [refStep,hpc] using h.tags.forget_isSome hstg⟩
  | publishAbort key | publishLeave key =>
    have hstg : (s.refs id).pc.publishStage = .leaving key := by
      rw [hpc]
      rfl
    exact .inl ⟨.forget,by simpa [refStep,hpc] using h.publishes.forget_isSome hstg⟩
  | tagUnlock key =>
    have hstg : (s.refs id).tagStage = .holding key := by
      rw [Ref.tagStage,hpc]
      rfl
    exact .inl ⟨.unlock,by simpa [refStep,hpc] using h.tags.unlock_isSome hstg⟩
  | publishUnlock key =>
    have hstg : (s.refs id).pc.publishStage = .holding key := by
      rw [hpc]
      rfl
    exact .inl ⟨.unlock,by simpa [refStep,hpc] using h.publishes.unlock_isSome hstg⟩
  | leave =>
    have hhas : (s.refs id).pc.active := by
      rw [hpc]
      rfl
    refine .inl ⟨.left,?_⟩
    simpa [refStep,hpc] using (h.refSlots id.request).get_isSome hhas

/-- No goroutine can move. -/
def Stuck (s : Sys) : Prop := ∀ m : Move, m.internal → step s m = none

section

variable {s : Sys}

/-- A stuck state without downloads; there is none with a request unfinished. -/
structure Halted (s : Sys) : Prop where
  inv : Inv s
  stuck : Stuck s
  quiet : ∀ j, (s.jobs j).pc ≠ .running

namespace Halted

section

variable (h : Halted s)
include h

lemma jobStep_eq (j : Job) (m : JobMove) : jobStep s j m = none :=
  h.stuck (.job j m) rfl

lemma refStep_eq (id : RefId) (m : RefMove) : refStep s id m = none :=
  h.stuck (.ref id m) rfl

theorem job (j : Job) :
    (s.jobs j).pc = .idle ∨ (s.jobs j).pc = .wait ∨ (s.jobs j).pc = .wantRequest ∨
      (s.jobs j).pc = .wantShared ∨ (s.jobs j).pc = .ended := by
  rcases h.inv.job_moves j with ⟨m,hm⟩ | hil | hwait | hreq | hshr | hrn | hended
  · simp [h.jobStep_eq] at hm
  · exact .inl hil
  · exact .inr (.inl hwait)
  · exact .inr (.inr (.inl hreq))
  · exact .inr (.inr (.inr (.inl hshr)))
  · exact absurd hrn (h.quiet j)
  · exact .inr (.inr (.inr (.inr hended)))

/-- Nobody has a shared slot then, so nobody waits for one. -/
theorem not_wantShared (j : Job) : (s.jobs j).pc ≠ .wantShared := by
  intro hpc
  have hno : ∀ i, (s.jobs i).pc.hasShared = false := by
    intro i
    rcases h.job i with hi | hi | hi | hi | hi <;> rw [hi] <;> rfl
  have hput : (s.shared.put j).isSome := h.inv.shared.put_isSome (by decide) hno
  have htk : (jobStep s j .take).isSome := by simpa [jobStep,hpc] using hput
  simp [h.jobStep_eq] at htk

theorem not_wantRequest (j : Job) : (s.jobs j).pc ≠ .wantRequest := by
  intro hpc
  have hno : ∀ i, (s.jobs i).pc.hasRequest = false := by
    intro i
    rcases h.job i with hi | hi | hi | hi | hi
    · rw [hi]; rfl
    · rw [hi]; rfl
    · rw [hi]; rfl
    · exact absurd hi (h.not_wantShared i)
    · rw [hi]; rfl
  have hput : ((s.requests j.ref.request).slots.put j).isSome :=
    (h.inv.slots j.ref.request).put_isSome (warmJobs_pos _) fun i => by simp [hno]
  have htk : (jobStep s j .take).isSome := by simpa [jobStep,hpc] using hput
  simp [h.jobStep_eq] at htk

theorem not_wait (j : Job) : (s.jobs j).pc ≠ .wait := by
  intro hpc
  have hfr : ∀ i, (s.jobs i).blobStage ≠ .holding (s.jobs j).key := by
    intro i
    rw [JobState.blobStage]
    rcases h.job i with hi | hi | hi | hi | hi
    · simp [hi,JobPC.blobStage]
    · simp [hi,JobPC.blobStage]
    · exact absurd hi (h.not_wantRequest i)
    · exact absurd hi (h.not_wantShared i)
    · simp [hi,JobPC.blobStage]
  have hstg : (s.jobs j).blobStage = .waiting (s.jobs j).key := by
    rw [JobState.blobStage,hpc]
    rfl
  have htk : (jobStep s j .take).isSome := by
    simpa [jobStep,hpc] using h.inv.blobs.take_isSome hstg hfr
  simp [h.jobStep_eq] at htk

theorem phase (j : Job) :
    (s.jobs j).pc.phase = .idle ∨ (s.jobs j).pc.phase = .ended := by
  rcases h.job j with hj | hj | hj | hj | hj
  · exact .inl (by rw [hj]; rfl)
  · exact absurd hj (h.not_wait j)
  · exact absurd hj (h.not_wantRequest j)
  · exact absurd hj (h.not_wantShared j)
  · exact .inr (by rw [hj]; rfl)

/-- Then every reference has joined its downloads, and waits for a lock or is done. -/
theorem ref (id : RefId) :
    (s.refs id).pc = .fresh ∨ (s.refs id).pc = .gone ∨ (∃ key, (s.refs id).pc = .tagWait key) ∨
      ∃ key, (s.refs id).pc = .publishWait key := by
  have hgrp : (s.refs id).group = ∅ := by
    refine Finset.eq_empty_of_forall_notMem fun p hp => ?_
    have hafloat := ((h.inv.control id).group p).1 hp
    rcases h.phase ⟨id,p⟩ with hph | hph <;> simp [hph] at hafloat
  rcases h.inv.ref_moves id hgrp with ⟨m,hm⟩ | hfrs | hgn | hbd | htag | hpub
  · simp [h.refStep_eq] at hm
  · exact .inl hfrs
  · exact .inr (.inl hgn)
  · have hlop := (h.inv.control id).body hbd
    rcases h.phase ⟨id,(s.refs id).pos⟩ with hph | hph <;> simp [hph] at hlop
  · exact .inr (.inr (.inl htag))
  · exact .inr (.inr (.inr hpub))

theorem not_publishWait (id : RefId) (key : String) :
    (s.refs id).pc ≠ .publishWait key := by
  intro hpc
  have hfr : ∀ id', (s.refs id').pc.publishStage ≠ .holding key := by
    intro id'
    rcases h.ref id' with hid | hid | ⟨_,hid⟩ | ⟨_,hid⟩ <;> simp [hid,RefPC.publishStage]
  have hstg : (s.refs id).pc.publishStage = .waiting key := by
    rw [hpc]
    rfl
  have htk : (refStep s id .take).isSome := by
    simpa [refStep,hpc] using h.inv.publishes.take_isSome hstg hfr
  simp [h.refStep_eq] at htk

theorem not_tagWait (id : RefId) (key : String) :
    (s.refs id).pc ≠ .tagWait key := by
  intro hpc
  have hfr : ∀ id', (s.refs id').tagStage ≠ .holding key := by
    intro id'
    rw [Ref.tagStage]
    rcases h.ref id' with hid | hid | ⟨_,hid⟩ | ⟨key',hid⟩
    · simp [hid,RefPC.tagStage]
    · simp [hid,RefPC.tagStage]
    · simp [hid,RefPC.tagStage]
    · exact absurd hid (h.not_publishWait id' key')
  have hstg : (s.refs id).tagStage = .waiting key := by
    rw [Ref.tagStage,hpc]
    rfl
  have htk : (refStep s id .take).isSome := by
    simpa [refStep,hpc] using h.inv.tags.take_isSome hstg hfr
  simp [h.refStep_eq] at htk

theorem done (id : RefId) :
    (s.refs id).pc = .fresh ∨ (s.refs id).pc = .gone := by
  rcases h.ref id with hid | hid | ⟨key,hid⟩ | ⟨key,hid⟩
  · exact .inl hid
  · exact .inr hid
  · exact absurd hid (h.not_tagWait id key)
  · exact absurd hid (h.not_publishWait id key)

end

end Halted

/-- With the references done the starter starts the next, or the caller reads a result. -/
theorem Inv.not_stuck (h : Inv s) (hrun : ∀ j, (s.jobs j).pc ≠ .running) {r : ℕ}
    (hr : (s.requests r).collected < (s.requests r).size) : ¬Stuck s := by
  intro hstk
  have hdn := Halted.done ⟨h,hstk,hrun⟩
  have hnx : ¬(s.requests r).next < (s.requests r).size := by
    intro hlt
    have hno : ∀ i, (s.refs ⟨r,i⟩).pc.active = false := by
      intro i
      rcases hdn ⟨r,i⟩ with hi | hi <;> rw [hi] <;> rfl
    have hput : ((s.requests r).refSlots.put (s.requests r).next).isSome :=
      (h.refSlots r).put_isSome (warmJobs_pos _) hno
    have hstr : (step s (.start r)).isSome := by simpa [step,hlt] using hput
    simp [hstk (.start r) rfl] at hstr
  have hgn : (s.refs ⟨r,(s.requests r).collected⟩).pc = .gone := by
    refine (hdn ⟨r,(s.requests r).collected⟩).resolve_left ?_
    exact h.started ⟨r,(s.requests r).collected⟩ (by dsimp only; omega)
  have hcoll : (step s (.collect r)).isSome := by simp [step,hr,hgn,RefPC.resulted]
  simp [hstk (.collect r) rfl] at hcoll

end

section

variable {s : Sys}

lemma warmJobs_le_jobs {jobs : ℤ} (h : 0 < jobs) : (warmJobs jobs : ℤ) ≤ jobs := by
  unfold warmJobs defaultWarmJobs maxWarmJobs
  split_ifs <;> omega

theorem Inv.request_downloads_le (h : Inv s) (r : ℕ) {downloads : Finset Job}
    (hdo : ∀ j ∈ downloads, j.ref.request = r ∧ (s.jobs j).pc = .running) :
    downloads.card ≤ warmJobs (s.requests r).jobs := by
  refine (h.slots r).card_le fun j hj => ?_
  obtain ⟨hr,hpc⟩ := hdo j hj
  simp [hr,hpc,JobPC.hasRequest]

theorem Inv.downloads_le (h : Inv s) {downloads : Finset Job}
    (hdo : ∀ j ∈ downloads, (s.jobs j).pc = .running) : downloads.card ≤ maxWarmJobs := by
  refine h.shared.card_le fun j hj => ?_
  simp [hdo j hj,JobPC.hasShared]

theorem Inv.request_accounted (h : Inv s) (j : Job) :
    (s.requests j.ref.request).slots.returned j + (s.jobs j).pc.hasRequest.toNat =
      (s.requests j.ref.request).slots.taken j ∧ (s.requests j.ref.request).slots.taken j ≤ 1 := by
  simpa using (h.slots j.ref.request).accounted j

/-- With the result of a reference all its downloads are over. -/
theorem Inv.settled (h : Inv s) {id : RefId} (hid : (s.refs id).pc.resulted) (p : ℕ) :
    (s.jobs ⟨id,p⟩).pc = .idle ∨ (s.jobs ⟨id,p⟩).pc = .ended := by
  have hc := h.control id
  have hlp := RefPC.looping_of_resulted hid
  have hemp := hc.joined hlp
  cases hph : (s.jobs ⟨id,p⟩).pc.phase with
  | idle => exact .inl (JobPC.phase_eq_idle.1 hph)
  | looped =>
    have hbd := (hc.current hph).2
    simp [hbd,RefPC.looping] at hlp
  | afloat =>
    have hmem := (hc.group p).2 hph
    simp [hemp] at hmem
  | ended => exact .inr (JobPC.phase_eq_ended.1 hph)

theorem Inv.exclusive (h : Inv s) {i j : Job} (hi : (s.jobs i).pc = .running)
    (hj : (s.jobs j).pc = .running) (hdir : (s.jobs i).cacheDir = (s.jobs j).cacheDir)
    (hbl : (s.jobs i).blob = (s.jobs j).blob) : i = j := by
  have hkey : (s.jobs i).key = (s.jobs j).key := by rw [JobState.key,JobState.key,hdir,hbl]
  have hi : (s.jobs i).blobStage = .holding (s.jobs j).key := by
    rw [JobState.blobStage,hi,hkey]
    rfl
  have hj : (s.jobs j).blobStage = .holding (s.jobs j).key := by
    rw [JobState.blobStage,hj]
    rfl
  exact h.blobs.exclusive hi hj

/-- The downloads in flight are within the request's jobs and `MaxWarmJobs` overall; a slot is taken
at most once by each user and returned once, the downloads' before the result; a blob of a directory
is downloaded once at a time; and while a request is unfinished with no download running, some
goroutine can move. -/
theorem warms_bounded_and_never_stuck (moves : List Move) (s : Sys)
    (hrun : run initial moves = some s) :
    (∀ r (downloads : Finset Job),
      (∀ j ∈ downloads, j.ref.request = r ∧ (s.jobs j).pc = .running) →
      downloads.card ≤ warmJobs (s.requests r).jobs ∧
        (0 < (s.requests r).jobs → (downloads.card : ℤ) ≤ (s.requests r).jobs)) ∧
    (∀ downloads : Finset Job, (∀ j ∈ downloads, (s.jobs j).pc = .running) →
      downloads.card ≤ maxWarmJobs) ∧
    (∀ j : Job,
      (s.shared.returned j + (s.jobs j).pc.hasShared.toNat = s.shared.taken j ∧
        s.shared.taken j ≤ 1) ∧
      ((s.requests j.ref.request).slots.returned j + (s.jobs j).pc.hasRequest.toNat =
        (s.requests j.ref.request).slots.taken j ∧
        (s.requests j.ref.request).slots.taken j ≤ 1) ∧
      ((s.refs j.ref).pc.resulted = true → s.shared.returned j = s.shared.taken j ∧
        (s.requests j.ref.request).slots.returned j =
          (s.requests j.ref.request).slots.taken j)) ∧
    (∀ r i, (s.requests r).refSlots.returned i + (s.refs ⟨r,i⟩).pc.active.toNat =
      (s.requests r).refSlots.taken i ∧ (s.requests r).refSlots.taken i ≤ 1) ∧
    (∀ i j, (s.jobs i).pc = .running → (s.jobs j).pc = .running →
      (s.jobs i).cacheDir = (s.jobs j).cacheDir → (s.jobs i).blob = (s.jobs j).blob → i = j) ∧
    ∀ r, (s.requests r).collected < (s.requests r).size → (∀ j, (s.jobs j).pc ≠ .running) →
      ∃ m : Move, m.internal = true ∧ (step s m).isSome = true := by
  have h := inv_run hrun
  refine ⟨fun r downloads hdown => ?_,fun _ => h.downloads_le,fun j => ?_,
    fun r i => (h.refSlots r).accounted i,fun i j => h.exclusive,fun r hr hquiet => ?_⟩
  · have hle := h.request_downloads_le r hdown
    refine ⟨hle,fun hpos => ?_⟩
    exact (Int.ofNat_le.mpr hle).trans (warmJobs_le_jobs hpos)
  · have hshr := h.shared.accounted j
    have hreq := h.request_accounted j
    refine ⟨hshr,hreq,fun hresult => ?_⟩
    -- A job that is idle or over has no slot, so all that was taken is returned.
    rcases h.settled hresult j.pos with hpc | hpc
    · simpa [hpc,JobPC.hasShared,JobPC.hasRequest] using And.intro hshr.1 hreq.1
    · simpa [hpc,JobPC.hasShared,JobPC.hasRequest] using And.intro hshr.1 hreq.1
  · by_contra hnone
    push Not at hnone
    refine h.not_stuck hquiet hr fun m hm => ?_
    simpa using hnone m hm

/-- Two requests for different tags share a layer; the first downloads it, the second waits. -/
def sharedLayer : List Move :=
  [.warm 4 1,.warm 0 1,.start 0,.start 1,.ref ⟨0,0⟩ (.parsed (some (some "a"))),
    .ref ⟨1,0⟩ (.parsed (some (some "b"))),.ref ⟨0,0⟩ .lock,.ref ⟨0,0⟩ .take,.ref ⟨1,0⟩ .lock,
    .ref ⟨1,0⟩ .take,.ref ⟨0,0⟩ (.graph "d" ["l"]),.ref ⟨1,0⟩ (.graph "d" ["l"]),
    .ref ⟨0,0⟩ (.blob false),.ref ⟨1,0⟩ (.blob false),.job ⟨⟨0,0⟩,0⟩ .lock,.job ⟨⟨1,0⟩,0⟩ .lock,
    .job ⟨⟨0,0⟩,0⟩ .take,.job ⟨⟨0,0⟩,0⟩ (.cached false),.job ⟨⟨0,0⟩,0⟩ .take,
    .job ⟨⟨0,0⟩,0⟩ .take,.job ⟨⟨0,0⟩,0⟩ .check]

/-- Two requests for one tag; the first has its lock, the second waits. -/
def sharedTag : List Move :=
  [.warm 4 1,.warm 0 1,.start 0,.start 1,.ref ⟨0,0⟩ (.parsed (some (some "a"))),
    .ref ⟨1,0⟩ (.parsed (some (some "a"))),.ref ⟨0,0⟩ .lock,.ref ⟨1,0⟩ .lock,.ref ⟨0,0⟩ .take]

theorem shared_layer_downloads_once :
    (∃ s, run initial sharedLayer = some s ∧ (s.jobs ⟨⟨0,0⟩,0⟩).pc = .running ∧
      (s.jobs ⟨⟨1,0⟩,0⟩).pc = .wait ∧
      ∀ j, (s.jobs j).pc = .running → (s.jobs j).cacheDir = "d" → (s.jobs j).blob = "l" →
        j = ⟨⟨0,0⟩,0⟩) ∧
    ∃ s, run initial sharedTag = some s ∧ (s.refs ⟨1,0⟩).pc = .tagWait "a" ∧
      ∃ m : Move, m.internal = true ∧ (step s m).isSome = true := by
  constructor
  · have hrun : (run initial sharedLayer).map (fun s => ((s.jobs ⟨⟨0,0⟩,0⟩).pc,
        (s.jobs ⟨⟨0,0⟩,0⟩).cacheDir,(s.jobs ⟨⟨0,0⟩,0⟩).blob,(s.jobs ⟨⟨1,0⟩,0⟩).pc)) =
        some (.running,"d","l",.wait) := by decide +kernel
    obtain ⟨s,hs,hvls⟩ := Option.map_eq_some_iff.mp hrun
    simp only [Prod.mk.injEq] at hvls
    obtain ⟨hpc,hdir,hblob,hwait⟩ := hvls
    refine ⟨s,hs,hpc,hwait,fun j hj hdirj hblobj => ?_⟩
    exact (warms_bounded_and_never_stuck sharedLayer s hs).2.2.2.2.1 j ⟨⟨0,0⟩,0⟩ hj hpc
      (hdirj.trans hdir.symm) (hblobj.trans hblob.symm)
  · have hrun : (run initial sharedTag).map (fun s => ((s.refs ⟨1,0⟩).pc,
        (s.requests 1).collected,(s.requests 1).size)) = some (.tagWait "a",0,1) := by
      decide +kernel
    have hjobs : (run initial sharedTag).map Sys.jobs = some fun _ => JobState.idle := rfl
    obtain ⟨s,hs,hvls⟩ := Option.map_eq_some_iff.mp hrun
    simp only [Prod.mk.injEq] at hvls
    obtain ⟨hpc,hcolle,hsize⟩ := hvls
    rw [hs,Option.map_some,Option.some.injEq] at hjobs
    refine ⟨s,hs,hpc,?_⟩
    refine (warms_bounded_and_never_stuck sharedTag s hs).2.2.2.2.2 1 (by omega) fun j => ?_
    simp [hjobs,JobState.idle]

end

end TalosBox.WarmPool
