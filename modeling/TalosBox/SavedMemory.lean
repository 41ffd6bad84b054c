import TalosBox.SuspendResume

/-! The saved memory over any run of the operations: a save that is there describes its node, or
somebody was told otherwise. -/
open List

namespace TalosBox.SavedState

/-- Where the node has moved on since its save was written, or is about to, that is on record. -/
def Accounted (c : Cluster) : Prop :=
  ∀ n s, c.saves n = some s → (s.stale ∨ c.nodeRunning n) →
    s.warned ∨ s.retried

/-- `Accounted`, of one node. -/
def AccountedAt (c : Cluster) (n : String) : Prop :=
  ∀ s, c.saves n = some s → (s.stale ∨ c.nodeRunning n) →
    s.warned ∨ s.retried

variable {c : Cluster}

theorem AccountedAt.congr {c' : Cluster} {n : String}
    (hlk : c'.vms.lookup n = c.vms.lookup n) (hsvs : c'.saves n = c.saves n)
    (h : AccountedAt c n) : AccountedAt c' n := by
  simpa [AccountedAt,Cluster.nodeRunning,Machines.running,hlk,hsvs] using h

/-- Between the launches of a batch the nodes not in `started` are as they were, but for their
machine. -/
structure Launching (c₀ : Cluster) (started : List String) (c : Cluster) : Prop where
  saves : ∀ n, n ∉ started → c.saves n = c₀.saves n
  running : ∀ n, n ∉ started → c.nodeRunning n → c₀.nodeRunning n
  stale : ∀ n ∈ started, ∀ s, c.saves n = some s → s.stale

namespace Launching

variable {c₀ c c' : Cluster} {started : List String}

lemma refl (c : Cluster) : Launching c [] c := ⟨fun _ _ => rfl,fun _ _ h => h,by simp⟩

theorem lose (h : Launching c₀ started c) (hs : c'.saves = c.saves)
    (hr : ∀ n, c'.nodeRunning n → c.nodeRunning n) :
    Launching c₀ started c' :=
  ⟨fun n hn => hs ▸ h.saves n hn,fun n hn hrun => h.running n hn (hr n hrun),
    fun n hn => hs ▸ h.stale n hn⟩

theorem untrack (h : Launching c₀ started c) (n : String) :
    Launching c₀ started (c.untrack n) := by
  refine h.lose rfl fun m hm => ?_
  by_cases hmn : m = n <;> simp_all

theorem launch (h : Launching c₀ started c) (n : String) :
    Launching c₀ (started++[n]) (c.launchMachine n) := by
  refine ⟨fun m hm => ?_,fun m hm hrun => ?_,fun m hm s hs => ?_⟩
  · have hm' : m ∉ started ∧ m ≠ n := by simpa using hm
    simpa [Cluster.launchMachine,hm'.2] using h.saves m hm'.1
  · have hm' : m ∉ started ∧ m ≠ n := by simpa using hm
    exact h.running m hm'.1 (by simpa [Cluster.launchMachine,hm'.2] using hrun)
  · by_cases hmn : m = n
    · subst hmn
      obtain ⟨u,-,rfl⟩ : ∃ u, c.saves m = some u ∧ u.outrun = s := by
        simpa [Cluster.launchMachine] using hs
      rfl
    · have hm' : m ∈ started := by simpa [hmn] using hm
      exact h.stale m hm' s (by simpa [Cluster.launchMachine,hmn] using hs)

end Launching

lemma nodeRunning_closeNodes (r : String → CloseResult) (c : Cluster) (names : List String) :
    ∀ m, (closeNodes r c names).nodeRunning m → c.nodeRunning m :=
  c.vms.running_closeNodes r names

theorem Accounted.close (h : Accounted c) (r : String → CloseResult)
    (names : List String) : Accounted (closeNodes r c names) := by
  intro n s hs hstl
  exact h n s hs (hstl.imp_right (nodeRunning_closeNodes r c names n))

section

variable (r : String → DiscardResult)

theorem vms_discardSavedStates (c : Cluster) (names : List String) :
    (discardSavedStates r c names).vms = c.vms := by
  refine KeyedFold.foldl_frame (fun s n _ => ?_) c
  unfold discardSavedState
  split <;> rfl

theorem saves_discardSavedStates (c : Cluster) (names : List String) (n : String) :
    (discardSavedStates r c names).saves n =
      if n ∈ names ∧ r n = .removed then none else c.saves n := by
  induction names generalizing c with
  | nil => simp [discardSavedStates]
  | cons k names ih =>
    show (discardSavedStates r (discardSavedState r c k) names).saves n = _
    rw [ih]
    by_cases hk : r k = .removed
    · by_cases hn : n = k <;> simp [discardSavedState,hk,hn]
    · by_cases hn : n = k <;> simp [discardSavedState,hk,hn]

/-- Discarding a batch's saves leaves every save accounted for, if the answer reports what could not
be discarded. -/
theorem Launching.discard {c₀ c : Cluster} {started : List String} {p : String → Bool}
    (h : Launching c₀ started c) (h₀ : Accounted (c₀.mark p Save.warn))
    (hp : ∀ n, undiscarded r c started n → p n) :
    Accounted ((discardSavedStates r c started).mark p Save.warn) := by
  intro n s hs hstl
  have hrun : (discardSavedStates r c started).nodeRunning n = c.nodeRunning n := by
    simp [Cluster.nodeRunning,vms_discardSavedStates]
  rw [Cluster.saves_mark,saves_discardSavedStates] at hs
  rw [Cluster.nodeRunning_mark,hrun] at hstl
  by_cases hn : n ∈ started
  · by_cases hr : r n = .removed
    · simp [hn,hr] at hs
    -- the save survived its discard, so it is reported and known to be stale
    cases hc : c.saves n with
    | none => simp [hc] at hs
    | some u =>
      have hpn : p n := by
        cases hres : r n <;> simp_all [undiscarded]
      have hu : u.warn = s := by simpa [hr,hc,hpn] using hs
      subst hu
      simp [Save.warn,h.stale n hn u hc]
  · refine h₀ n s ?_ (hstl.imp_right (h.running n hn))
    rw [Cluster.saves_mark,← h.saves n hn]
    simpa [hn] using hs

end

theorem Accounted.warn (h : Accounted c) (p : String → Bool) :
    Accounted (c.mark p Save.warn) := by
  intro n s hs hstl
  by_cases hp : p n
  · obtain ⟨u,hu,rfl⟩ : ∃ u, c.saves n = some u ∧ u.warn = s := by simpa [hp] using hs
    have hex := h n u hu (by simpa [Save.warn] using hstl)
    simp only [Save.warn]
    exact hex.imp_left (by simp [·])
  · exact h n s (by simpa [hp] using hs) hstl

theorem Accounted.outrun (h : Accounted c) :
    Accounted (c.mark c.nodeRunning Save.outrun) := by
  intro n s hs _
  by_cases hr : c.nodeRunning n
  · obtain ⟨u,hu,rfl⟩ : ∃ u, c.saves n = some u ∧ u.outrun = s := by simpa [hr] using hs
    exact h n u hu (.inr hr)
  · exact h n s (by simpa [hr] using hs) (by simp_all)

/-- An operation's cluster is accounted for once its answer is on record. -/
def Outcome.Accounted (o : Outcome) : Prop :=
  SavedState.Accounted (o.cluster.mark o.undiscarded Save.warn)

lemma Accounted.ok (h : Accounted c) : (Outcome.ok c).Accounted := h.warn _

lemma Accounted.fail (h : Accounted c) (f : Failure) :
    (Outcome.fail c f).Accounted :=
  h.warn _

section

variable (e : StartEnv)

theorem startNodes_launching {c₀ : Cluster} (nodes : List String) :
    ∀ (started : List String) (c : Cluster), Launching c₀ started c →
      Launching c₀ (startNodes e nodes started c).2.started (startNodes e nodes started c).1 := by
  induction nodes with
  | nil => exact fun started c h => h
  | cons n nodes ih =>
    intro started c h
    unfold startNodes
    split
    · exact ih started c h
    · split_ifs
      · exact h
      · exact ih _ _ ((h.untrack n).launch n)
      · exact h.untrack n

/-- `start` gives up at an inactive machine it cannot release: the guests launched run on, their
saves stay. -/
def abandons (c : Cluster) : Bool :=
  match (startNodes e c.members [] c).2 with
  | .releaseFailed _ started => !started.isEmpty
  | _ => false

theorem startNodes_started (nodes : List String) :
    ∀ (started : List String) (c : Cluster),
      ∀ n ∈ (startNodes e nodes started c).2.started, n ∈ started ∨ n ∈ nodes := by
  induction nodes with
  | nil => exact fun started c n hn => .inl hn
  | cons k nodes ih =>
    intro started c n hn
    unfold startNodes at hn
    split at hn
    · exact (ih _ _ n hn).imp_right (mem_cons_of_mem k)
    · split_ifs at hn
      · exact .inl hn
      · have := ih _ _ n hn
        simp only [mem_append,mem_cons] at this ⊢
        tauto
      · exact .inl hn

variable {c : Cluster}

theorem undiscarded_start {n : String} (h : (start e c).undiscarded n) :
    n ∈ c.members ∧ e.discard n ≠ .removed := by
  have hstd := startNodes_started e c.members [] c n
  have hmem : ∀ {d : Cluster} {names : List String}, undiscarded e.discard d names n →
      n ∈ names ∧ e.discard n ≠ .removed := fun h => by
    cases hr : e.discard n <;> simp_all [undiscarded]
  unfold start at h
  split_ifs at h
  · simp [Outcome.fail] at h
  rcases heq : startNodes e c.members [] c with ⟨c',ended⟩
  rw [heq] at h hstd
  cases ended with
  | launched started => exact ⟨by simpa using hstd (hmem h).1,(hmem h).2⟩
  | launchFailed k started => exact ⟨by simpa using hstd (hmem h).1,(hmem h).2⟩
  | releaseFailed k started => simp [Outcome.fail] at h

theorem abandons_eq_false (h : (start e c).failure = none) :
    abandons e c = false := by
  unfold start at h
  unfold abandons
  split_ifs at h
  · cases h
  rcases heq : startNodes e c.members [] c with ⟨c',ended⟩
  rw [heq] at h
  cases ended with
  | releaseFailed k started => simp [Outcome.fail] at h
  | _ => rfl

/-- A start that does not give up half-way answers for every save it could not discard. -/
theorem start_accounted (ha : abandons e c = false) {p : String → Bool}
    (h : Accounted (c.mark p Save.warn))
    (hp : ∀ n, (start e c).undiscarded n → p n) :
    Accounted ((start e c).cluster.mark p Save.warn) := by
  have hl := startNodes_launching e c.members [] c (.refl c)
  unfold abandons at ha
  unfold start at hp ⊢
  split_ifs at hp ⊢
  · exact h
  rcases heq : startNodes e c.members [] c with ⟨c',ended⟩
  rw [heq] at hl ha hp
  cases ended with
  | launched started => exact hl.discard e.discard h hp
  | launchFailed n started =>
    exact (hl.lose (saves_closeNodes e.rollback c' started)
      (nodeRunning_closeNodes e.rollback c' started)).discard e.discard h hp
  | releaseFailed n started =>
    have hnil : started = [] := by simpa using ha
    subst hnil
    intro m s hs hstl
    refine h m s ?_ (hstl.imp_right (hl.running m (by simp [StartEnd.started])))
    rw [Cluster.saves_mark,← hl.saves m (by simp [StartEnd.started])]
    exact hs

theorem Accounted.startCluster (h : Accounted c) (ha : abandons e c = false)
    (loads admitted : Bool) : (startCluster e loads admitted c).Accounted := by
  unfold SavedState.startCluster
  split_ifs
  · exact h.fail _
  · exact h.fail _
  · exact start_accounted e ha (h.warn _) fun _ hn => hn

theorem Accounted.untrack (h : Accounted c) (n : String) :
    Accounted (c.untrack n) := by
  intro m s hs hstl
  refine h m s hs (hstl.imp_right fun hr => ?_)
  by_cases hmn : m = n <;> simp_all

theorem Accounted.startNode (h : Accounted c) (loads admitted : Bool)
    (n : String) : (startNodeLocked e loads admitted c n).Accounted := by
  have hl : Launching c [n] ((c.untrack n).launchMachine n) :=
    ((Launching.refl c).untrack n).launch n
  unfold startNodeLocked
  split_ifs
  · exact h.fail _
  · exact h.ok
  · exact h.fail _
  · exact h.fail _
  · exact hl.discard e.discard (h.warn _) fun _ hm => hm
  · exact (h.untrack n).fail _
  · exact h.fail _

end

section

variable (e : ResumeEnv)

theorem resumeNodes_launching {c₀ : Cluster} (nodes : List String) :
    ∀ (tried : List String) (c : Cluster), Launching c₀ tried c →
      Launching c₀ (resumeNodes e nodes tried c).2.1 (resumeNodes e nodes tried c).1 := by
  induction nodes with
  | nil => exact fun tried c h => h
  | cons n nodes ih =>
    intro tried c h
    unfold resumeNodes
    split_ifs
    · exact ih _ _ ((h.untrack n).launch n)
    · exact h.untrack n

theorem resumeNodes_attempted (nodes : List String) :
    ∀ (tried : List String) (c : Cluster),
      ∀ n ∈ (resumeNodes e nodes tried c).2.1, n ∈ tried ∨ n ∈ nodes := by
  induction nodes with
  | nil => exact fun tried c n hn => .inl hn
  | cons k nodes ih =>
    intro tried c n hn
    unfold resumeNodes at hn
    split_ifs at hn
    · have := ih _ _ n hn
      simp only [mem_append,mem_cons] at this ⊢
      tauto
    · exact .inl hn

theorem removeSaveStateFiles_eq (c : Cluster) (names : List String) :
    removeSaveStateFiles e c names =
      discardSavedStates (fun n => if e.remove n then .removed else .removeFailed) c names := by
  have hst : (fun (c : Cluster) n => if e.remove n then c.setSave n none else c) =
      discardSavedState fun n => if e.remove n then .removed else .removeFailed := by
    funext c n
    cases hn : e.remove n <;> simp [discardSavedState,hn]
  rw [removeSaveStateFiles,hst]
  rfl

/-- A batch that is taken down again keeps its saves for the next attempt. -/
theorem Launching.rollback {c₀ c : Cluster} {tried : List String}
    (h : Launching c₀ tried c) (h₀ : Accounted c₀) (r : String → CloseResult) :
    Accounted ((closeNodes r c tried).mark (· ∈ tried) Save.retry) := by
  intro n s hs hstl
  by_cases hn : n ∈ tried
  · obtain ⟨u,hu,rfl⟩ : ∃ u, c.saves n = some u ∧ u.retry = s := by simpa [hn] using hs
    simp [Save.retry,h.stale n hn u hu]
  · have hs₀ : c₀.saves n = some s := by
      rw [← h.saves n hn]
      simpa [hn] using hs
    refine h₀ n s hs₀ (hstl.imp_right fun hr => h.running n hn ?_)
    exact nodeRunning_closeNodes r c tried n hr

/-- A resume commits by removing every save, and keeps them all if it is rolled back. -/
theorem Accounted.resume {c : Cluster} (h : Accounted c)
    (hrm : (resumeCluster e c).failure = none → ∀ n ∈ c.members, e.remove n) :
    (resumeCluster e c).Accounted := by
  have hl := resumeNodes_launching e c.members [] c (.refl c)
  have hmem := resumeNodes_attempted e c.members [] c
  unfold resumeCluster at hrm ⊢
  split_ifs at hrm ⊢
  · exact h.fail _
  · exact h.fail _
  · exact h.fail _
  rcases heq : resumeNodes e c.members [] c with ⟨c',tried,failed⟩
  rw [heq] at hl hmem hrm
  cases failed with
  | none =>
    show (Outcome.ok (removeSaveStateFiles e c' tried)).Accounted
    rw [removeSaveStateFiles_eq]
    refine hl.discard _ (h.warn _) fun n hn => ?_
    have hn' : n ∈ tried ∧ e.remove n = false := by
      cases hr : e.remove n <;> simp_all [undiscarded]
    have hin : n ∈ c.members := by simpa using hmem n hn'.1
    exact absurd (hrm rfl n hin) (by simp [hn'.2])
  | some k =>
    exact (hl.rollback h e.rollback).fail _

end

/-- The clusters differ at most in what concerns node `n`. -/
structure SameBut (n : String) (c c' : Cluster) : Prop where
  lookup : ∀ m, m ≠ n → c'.vms.lookup m = c.vms.lookup m
  saves : ∀ m, m ≠ n → c'.saves m = c.saves m

namespace SameBut

variable {n : String} {c c' : Cluster}

lemma refl (c : Cluster) : SameBut n c c := ⟨fun _ _ => rfl,fun _ _ => rfl⟩

lemma track (h : SameBut n c c') (vm : VM) : SameBut n c (c'.track n vm) :=
  ⟨fun m hm => by rw [Cluster.lookup_track,if_neg hm,h.lookup m hm],h.saves⟩

lemma untrack (h : SameBut n c c') : SameBut n c (c'.untrack n) :=
  ⟨fun m hm => by rw [Cluster.lookup_untrack,if_neg hm,h.lookup m hm],h.saves⟩

lemma setSave (h : SameBut n c c') (s : Option Save) : SameBut n c (c'.setSave n s) :=
  ⟨h.lookup,fun m hm => by rw [Cluster.saves_setSave,if_neg hm,h.saves m hm]⟩

end SameBut

section

variable (e : SuspendEnv) {c : Cluster} {n : String}

theorem suspendMachine_sameBut (vm : VM) : SameBut n c (suspendMachine e c n vm).1 := by
  unfold suspendMachine
  split
  · exact .refl c
  · split
    · exact (SameBut.refl c).setSave _
    · exact .refl c
    · exact (SameBut.refl c).setSave _

theorem prepareSavedMachine_sameBut (vm : VM) :
    SameBut n c (prepareSavedMachine e c n vm).1 := by
  have h := suspendMachine_sameBut e (c := c) (n := n) vm
  unfold prepareSavedMachine
  generalize suspendMachine e c n vm = out at h ⊢
  rcases out with ⟨c',_ | _⟩
  · cases e.close n
    · exact h.track _
    · exact h.track _
    · exact h
  · by_cases hsp : e.stop n
    · simpa [hsp] using h.track .inactive
    · cases hclo : e.close n
      · simpa [hsp] using h.track .inactive
      · simpa [hsp] using h.track .inactive
      · simpa [hsp] using h

theorem suspendNode_sameBut : SameBut n c (suspendNode e c n) := by
  unfold suspendNode
  split
  · exact .refl c
  · rename_i vm _
    have h := prepareSavedMachine_sameBut e (c := c) (n := n) vm
    rcases heq : prepareSavedMachine e c n vm with ⟨c',retain,saved⟩
    rw [heq] at h
    simp only
    split_ifs
    · exact h
    · exact h.setSave _
    · exact h
    · exact (h.setSave _).untrack
    · exact h.untrack

/-- The machine is refused, and the save its node has from before is taken for a partial
one. -/
theorem suspendNode_inactive (h : c.vms.lookup n = some .inactive) :
    (suspendNode e c n).saves n = (if e.remove n then none else c.saves n) ∧
      (suspendNode e c n).nodeRunning n = false := by
  cases hclo : e.close n <;> cases hrm : e.remove n <;>
    simp [suspendNode,prepareSavedMachine,suspendMachine,h,hclo,hrm,Cluster.nodeRunning,Machines.running,
      Cluster.lookup_track,Cluster.lookup_untrack]

/-- A running node is left with no save, or stopped with the one just written. -/
theorem suspendNode_active (h : c.vms.lookup n = some .active) (hrm : e.remove n) :
    (suspendNode e c n).saves n = none ∨
      (suspendNode e c n).saves n = some .fresh ∧ (suspendNode e c n).nodeRunning n = false := by
  cases hsusp : e.suspend n with
  | failed left =>
    rcases left with _ | ran <;> cases hclo : e.close n <;>
      simp [suspendNode,prepareSavedMachine,suspendMachine,h,hsusp,hclo,hrm]
  | saved =>
    by_cases hsp : e.stop n
    · by_cases hmarker : e.marker n
      · refine .inr ?_
        simp [suspendNode,prepareSavedMachine,suspendMachine,h,hsusp,hsp,hmarker]
      · refine .inl ?_
        simp [suspendNode,prepareSavedMachine,suspendMachine,h,hsusp,hsp,hmarker,hrm]
    · refine .inl ?_
      cases hclo : e.close n <;>
        simp [suspendNode,prepareSavedMachine,suspendMachine,h,hsusp,hsp,hclo,hrm]

/-- The loop as its nodes see it: each is settled by its own turn. -/
theorem suspendNodes_settle {Q : String → Cluster → Prop}
    (hQ : ∀ m c c', c'.vms.lookup m = c.vms.lookup m → c'.saves m = c.saves m →
      Q m c → Q m c')
    (hst : ∀ d : Cluster, ∀ m ∈ c.vms.keys, d.vms.lookup m = c.vms.lookup m →
      d.saves m = c.saves m → Q m (suspendNode e d m)) :
    ∀ m ∈ c.vms.keys, Q m (c.vms.keys.foldl (suspendNode e) c) := by
  refine KeyedFold.foldl_settles (I := fun _ => True)
    (P := fun m d => d.vms.lookup m = c.vms.lookup m ∧ d.saves m = c.saves m)
    (fun _ _ _ _ => trivial) ?_ ?_ (fun d m hm _ hP => hst d m hm hP.1 hP.2)
    c.vms.keys_nodup trivial fun _ _ => ⟨rfl,rfl⟩
  · intro d m k _ hkm hP
    have h := suspendNode_sameBut e (c := d) (n := k)
    exact ⟨(h.lookup m hkm.symm).trans hP.1,(h.saves m hkm.symm).trans hP.2⟩
  · intro d m k _ hkm hq
    have h := suspendNode_sameBut e (c := d) (n := k)
    exact hQ m d _ (h.lookup m hkm.symm) (h.saves m hkm.symm) hq

theorem suspendNodes_untracked (h : c.vms.lookup n = none) :
    (c.vms.keys.foldl (suspendNode e) c).vms.lookup n = c.vms.lookup n ∧
      (c.vms.keys.foldl (suspendNode e) c).saves n = c.saves n := by
  have hn : n ∉ c.vms.keys := AList.lookup_eq_none.1 h
  have hne : ∀ k ∈ c.vms.keys, n ≠ k := fun k hk heq => hn (heq ▸ hk)
  exact ⟨KeyedFold.foldl_frame (v := fun d : Cluster => d.vms.lookup n)
      (fun d k hk => (suspendNode_sameBut e).lookup n (hne k hk)) c,
    KeyedFold.foldl_frame (v := fun d : Cluster => d.saves n)
      (fun d k hk => (suspendNode_sameBut e).saves n (hne k hk)) c⟩

/-- A turn of the loop keeps its node accounted for, if it can clean up after a running one. -/
theorem AccountedAt.suspendNode (h : AccountedAt c n)
    (hrm : c.nodeRunning n → e.remove n) :
    AccountedAt (suspendNode e c n) n := by
  cases hvm : c.vms.lookup n with
  | none =>
    have hsm : SavedState.suspendNode e c n = c := by simp [SavedState.suspendNode,hvm]
    rwa [hsm]
  | some vm =>
    intro s hs hstl
    cases vm with
    | inactive =>
      obtain ⟨hsv,hdo⟩ := suspendNode_inactive e hvm
      rw [hsv] at hs
      split_ifs at hs
      exact h s hs (.inl (by simpa [hdo] using hstl))
    | active =>
      have hrun : c.nodeRunning n := (c.nodeRunning_iff n).2 hvm
      rcases suspendNode_active e hvm (hrm hrun) with hsv | ⟨hsv,hdo⟩
      · simp [hsv] at hs
      · rw [hsv] at hs
        cases hs
        simp [hdo,Save.fresh] at hstl

theorem Accounted.suspendNodes (h : Accounted c)
    (hrm : ∀ n, c.nodeRunning n → e.remove n) :
    Accounted (c.vms.keys.foldl (suspendNode e) c) := by
  intro n
  by_cases hn : n ∈ c.vms.keys
  · refine suspendNodes_settle e (Q := fun m d => AccountedAt d m)
      (fun m d d' hlk hsvs hq => hq.congr hlk hsvs) ?_ n hn
    intro d m _ hlk hsvs
    have hm : AccountedAt d m := AccountedAt.congr hlk hsvs (h m)
    refine hm.suspendNode e fun hrun => hrm m ?_
    rwa [c.nodeRunning_iff,← hlk,← d.nodeRunning_iff]
  · obtain ⟨hlk,hsvs⟩ := suspendNodes_untracked e (AList.lookup_eq_none.2 hn)
    exact AccountedAt.congr hlk hsvs (h n)

theorem Accounted.suspend (h : Accounted c)
    (hrm : ∀ n, c.nodeRunning n → e.remove n) :
    (suspendCluster e c).Accounted := by
  have hlp := h.suspendNodes e hrm
  unfold suspendCluster
  simp only
  split_ifs
  · exact h.fail _
  · exact h.fail _
  · exact h.fail _
  · exact hlp.ok
  · exact hlp.fail _

end

section

variable (e : RestoreEnv)

/-- Every disk was replaced and the cluster came back up, or none was and the restart discarded what
it had to. -/
def restores (c : Cluster) : Bool :=
  match e.restore with
  | .done _ => (restoreStopped e c).failure.isNone
  | .failed replaced => replaced.isEmpty && !abandons e.start c &&
      ((restart e c).failure.isSome || c.members.all fun n => e.start.discard n = .removed)

variable {c : Cluster}

theorem restart_accounted (ha : abandons e.start c = false) {p : String → Bool}
    (h : Accounted (c.mark p Save.warn))
    (hp : ∀ n, (restart e c).undiscarded n → p n) :
    Accounted ((restart e c).cluster.mark p Save.warn) := by
  unfold restart at hp ⊢
  split_ifs at hp ⊢
  · exact h
  · exact start_accounted e.start ha h hp

/-- The disks are replaced under every save that could not be removed, and each is in the warnings.
-/
theorem restoreBody_accounted {members : List String} {p : String → Bool}
    (hdn : e.restore = .done members) (hp : ∀ n, survives e c n → p n) :
    Accounted ((restoreBody e c).mark p Save.warn) := by
  intro n s hs _
  simp only [restoreBody,hdn,discardClusterSavedStates] at hs
  cases hrm : e.remove n with
  | true => simp [hrm] at hs
  | false =>
    cases hc : c.saves n with
    | none => simp [hc] at hs
    | some u =>
      have hpn : p n := hp n (by simp [survives,hrm,hc])
      have hu : u.outrun.warn = s := by simpa [hc,hrm,hpn] using hs
      subst hu
      simp [Save.warn,Save.outrun]

lemma mark_nobody (c : Cluster) (f : Save → Save) : c.mark (· ∈ ([] : List String)) f = c := by
  simp [Cluster.mark]

theorem abandons_of_restart (h : (restart e c).failure = none) :
    abandons e.start c = false := by
  unfold restart at h
  split_ifs at h
  · cases h
  · exact abandons_eq_false e.start h

theorem undiscarded_restart {n : String} (h : (restart e c).undiscarded n) :
    n ∈ c.members ∧ e.start.discard n ≠ .removed := by
  unfold restart at h
  split_ifs at h
  · simp [Outcome.fail] at h
  · exact undiscarded_start e.start h

theorem restoreStopped_done {members : List String} (hdn : e.restore = .done members)
    (hok : (restoreStopped e c).failure = none) : (restoreStopped e c).Accounted := by
  have hno : (restart e (restoreBody e c)).failure = none := by
    cases hf : (restart e (restoreBody e c)).failure with
    | none => rfl
    | some f => simp [hdn,restoreStopped,hf] at hok
  simp only [restoreStopped,hdn,hno]
  refine restart_accounted e (abandons_of_restart e hno)
    (restoreBody_accounted e hdn fun n hn => ?_) fun n hn => ?_
  · simp [hn]
  · simp [hn]

/-- No disk was replaced. The restart's warnings are lost where it succeeds, so there must be none.
-/
theorem Accounted.restoreStopped_failed (h : Accounted c)
    (hfa : e.restore = .failed []) (hup : abandons e.start c = false)
    (hbk : (restart e c).failure = none → ∀ n ∈ c.members, e.start.discard n = .removed) :
    (restoreStopped e c).Accounted := by
  have hbd : restoreBody e c = c := by
    simp only [restoreBody,hfa]
    exact mark_nobody c _
  cases hf : (restart e c).failure with
  | some f =>
    simp only [restoreStopped,hfa,hbd,hf]
    exact restart_accounted e hup (h.warn _) fun _ hn => hn
  | none =>
    simp only [restoreStopped,hfa,hbd,hf]
    refine restart_accounted e hup (h.warn _) fun n hn => ?_
    obtain ⟨hmem,hkp⟩ := undiscarded_restart e hn
    exact absurd (hbk hf n hmem) hkp

theorem Accounted.restoreStopped (h : Accounted c) (hr : restores e c) :
    (restoreStopped e c).Accounted := by
  unfold restores at hr
  cases hres : e.restore with
  | done members =>
    rw [hres] at hr
    exact restoreStopped_done e hres (by simpa using hr)
  | failed replaced =>
    simp only [hres,Bool.and_eq_true,List.isEmpty_iff,Bool.not_eq_true'] at hr
    obtain ⟨⟨rfl,hup⟩,hbk⟩ := hr
    refine h.restoreStopped_failed e hres hup fun hf n hn => ?_
    simp only [hf,Option.isSome_none,Bool.false_or,all_eq_true,decide_eq_true_eq] at hbk
    exact hbk n hn

theorem Accounted.stop (h : Accounted c) (r : String → CloseResult) :
    Accounted (stop r c).cluster := by
  simp only [SavedState.stop]
  split_ifs
  · exact h.close r _
  · exact h.close r _

end

/-- No save is left behind without a word: a resume removes every save it commits, a suspend what a
node it failed on left, a start does not give up with nodes launched, a restore ends as `restores`
says. -/
def Op.orderly (c : Cluster) : Op → Bool
  | suspend e => c.vms.keys.all fun n => !c.nodeRunning n || e.remove n
  | resume e => (resumeCluster e c).failure.isSome || c.members.all e.remove
  | start e _ _ => !abandons e c
  | startNode _ _ _ _ => true
  | stop _ => true
  | stopNode _ _ _ => true
  | restore e =>
    if !e.loads then true
    else if c.clusterRunning then
      (SavedState.stop e.stop c).failure.isSome || restores e (SavedState.stop e.stop c).cluster
    else restores e c

def orderly : Cluster → List Op → Bool
  | _, [] => true
  | c, op::ops => op.orderly c && orderly (step c op) ops

theorem exec_accounted (h : Accounted c) (op : Op) (ho : op.orderly c) :
    (op.exec c).Accounted := by
  cases op with
  | suspend e =>
    refine h.suspend e fun n hn => ?_
    have hall := all_eq_true.1 ho n (c.vms.mem_keys_of_lookup ((c.nodeRunning_iff n).1 hn))
    simpa [hn] using hall
  | resume e =>
    refine h.resume e fun hno n hn => ?_
    simp only [Op.orderly,hno] at ho
    exact all_eq_true.1 ho n hn
  | start e loads admitted => exact h.startCluster e (by simpa [Op.orderly] using ho) _ _
  | startNode e loads admitted n => exact h.startNode e _ _ n
  | stop r => exact (h.stop r).warn _
  | stopNode r loads n =>
    have hclo : Accounted (closeNodes r c [n]) := h.close r [n]
    simp only [Op.exec,stopNodeLocked]
    split_ifs
    · exact h.fail _
    · exact h.ok
    · exact hclo.ok
    · exact hclo.fail _
    · exact h.fail _
  | restore e =>
    simp only [Op.orderly] at ho
    simp only [Op.exec,snapshotRestore]
    split_ifs at ho ⊢
    · exact h.fail _
    · exact (h.stop e.stop).warn _
    · exact (h.stop e.stop).restoreStopped e (by simpa [*] using ho)
    · exact h.restoreStopped e ho

lemma step_accounted (h : Accounted c) (op : Op) (ho : op.orderly c) :
    Accounted (step c op) :=
  Accounted.outrun (exec_accounted h op ho)

theorem run_accounted (h : Accounted c) {ops : List Op}
    (ho : orderly c ops) : Accounted (run c ops) := by
  induction ops generalizing c with
  | nil => exact h
  | cons op ops ih =>
    simp only [orderly,Bool.and_eq_true] at ho
    exact ih (step_accounted h op ho.1) ho.2

/-- Two running nodes, never suspended. -/
def pair : Cluster :=
  ⟨["a","b"],((∅ : Machines).insert "a" .active).insert "b" .active,
    fun _ => none⟩

/-- A host on which nothing goes wrong. -/
def smoothSuspend : SuspendEnv :=
  ⟨true,true,fun _ => .saved,fun _ => true,fun _ => .closed,fun _ => true,fun _ => true⟩

/-- A start on a file system that does not let go of the saves. -/
def startWithStuckSaves : StartEnv :=
  ⟨true,fun _ => true,fun _ => true,fun _ => .closed,fun _ => .removeFailed⟩

/-- A resume on which the launch of `"b"` fails, after that of `"a"`. -/
def resumeWithoutB : ResumeEnv :=
  ⟨true,true,fun n => n ≠ "b",fun _ => .closed,fun _ => true⟩

section

variable (e : SuspendEnv) {c : Cluster} {n : String}

/-- The save of a node whose machine is inactive is removed, unless that fails. -/
theorem suspendNodes_inactive (h : c.vms.lookup n = some .inactive) :
    (c.vms.keys.foldl (suspendNode e) c).saves n = if e.remove n then none else c.saves n := by
  refine suspendNodes_settle e
    (Q := fun m d => c.vms.lookup m = some .inactive →
      d.saves m = if e.remove m then none else c.saves m) ?_ ?_ n (c.vms.mem_keys_of_lookup h) h
  · intro m d d' _ hsvs hq hm
    rw [hsvs,hq hm]
  · intro d m _ hlk hsvs hm
    rw [(suspendNode_inactive e (hlk.trans hm)).1,hsvs]

/-- The call ends before its loop. -/
def SuspendEnv.Refuses (e : SuspendEnv) (c : Cluster) : Prop :=
  e.loads = false ∨ c.clusterRunning = false ∨ e.suspendable = false

theorem suspendCluster_refused (h : e.Refuses c) : (suspendCluster e c).cluster = c := by
  unfold suspendCluster
  rcases h with h | h | h
  · simp [h,Outcome.fail]
  · cases e.loads <;> simp [h,Outcome.fail]
  · cases e.loads <;> cases c.clusterRunning <;> simp [h,Outcome.fail]

theorem suspendCluster_loops (h : ¬ e.Refuses c) :
    (suspendCluster e c).cluster = c.vms.keys.foldl (suspendNode e) c := by
  simp only [SuspendEnv.Refuses,not_or] at h
  simp only [suspendCluster,h.1,h.2.1,h.2.2,Bool.not_true,Bool.false_eq_true,if_false]
  split_ifs <;> rfl

/-- A suspend leaves the saves of idle nodes alone exactly if it ends before its loop, or none of
them has a tracked machine and a save that can be removed. -/
theorem suspendCluster_keeps_idle_saves_iff (e : SuspendEnv) (c : Cluster) :
    (∀ n s, c.nodeRunning n = false → c.saves n = some s →
        (suspendCluster e c).cluster.saves n = some s) ↔
      e.Refuses c ∨ ∀ n, c.vms.lookup n = some .inactive → c.saves n = none ∨ e.remove n = false := by
  by_cases hrefu : e.Refuses c
  · simp [hrefu,suspendCluster_refused e hrefu]
  rw [suspendCluster_loops e hrefu]
  refine ⟨fun h => .inr fun n hn => ?_,fun h n s hidle hs => ?_⟩
  · cases hs : c.saves n with
    | none => exact .inl rfl
    | some s =>
      have hkept := h n s (by simp [Cluster.nodeRunning,Machines.running,hn]) hs
      rw [suspendNodes_inactive e hn] at hkept
      by_cases hrm : e.remove n = true
      · simp [hrm] at hkept
      · exact .inr (by simpa using hrm)
  · have h := h.resolve_left hrefu
    cases hvm : c.vms.lookup n with
    | none => rw [(suspendNodes_untracked e hvm).2,hs]
    | some vm =>
      cases vm with
      | active => simp [Cluster.nodeRunning,Machines.running,hvm] at hidle
      | inactive =>
        rw [suspendNodes_inactive e hvm]
        rcases h n hvm with hnone | hrm
        · simp [hnone] at hs
        · simpa [hrm] using hs

/-- Suspend both nodes, start `"a"`, suspend again: the memory saved of `"b"` is deleted. -/
theorem second_suspend_deletes_idle_save :
    let c := run pair [.suspend smoothSuspend,
      .startNode ⟨true,fun _ => true,fun _ => true,fun _ => .closed,fun _ => .removed⟩ true true "a"]
    c.nodeRunning "b" = false ∧ c.saves "b" = some .fresh ∧
      (suspendCluster smoothSuspend c).cluster.saves "b" = none := by
  decide

end

end TalosBox.SavedState
