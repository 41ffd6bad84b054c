import TalosBox.ProvisionPasses

/-! When a destroy can be sure that no pass of its cluster is left: the drain waits for the one
registered pass, so every open one has to be that. -/
namespace TalosBox.Passes

namespace Phase

/-- The cluster whose mutation lock a thread in this phase holds. -/
def holds : Phase → Option String
  | locked (.create name _) => some name
  | locked (.mutate name _) => some name
  | locked (.destroy name) => some name
  | leaving name _ => some name
  | running name _ _ => name
  | waiting name _ => some name
  | removing name _ => some name
  | _ => none

/-- The cluster a destroy in this phase has drained and not yet removed. -/
def drained : Phase → Option String
  | waiting name _ => some name
  | removing name _ => some name
  | _ => none

lemma holds_of_drained {p : Phase} {name : String} (h : p.drained = some name) :
    p.holds = some name := by
  cases p <;> simp_all [drained,holds]

end Phase

variable (clusterKey resolve : String → String)

/-- While a destroy waits, only the pass it waits for may be open; once it is about to remove, none
is but one it gave up on. -/
def Settled (tasks : ℕ → Option Task) : Phase → Prop
  | .waiting name pass => ∀ g t, tasks g = some t → t.stage ≠ .closed →
      resolve t.cluster = resolve name → pass = some g
  | .removing name timedOut => ∀ g t, tasks g = some t → t.stage ≠ .closed →
      resolve t.cluster = resolve name → timedOut ∧ t.abandoned
  | _ => True

structure Inv (s : Sys) : Prop where
  fresh : ∀ g t, s.tasks g = some t → g ≤ s.sequence
  quiet : ∀ i, s.arrived ≤ i → s.threads i = .idle
  held : ∀ i name, (s.threads i).holds = some name → s.locks (clusterKey name) = some i
  /-- A working pass is on the register or waited for, unless somebody gave up on it. -/
  covered : ∀ g t, s.tasks g = some t → t.stage = .working → t.abandoned = false →
    s.provisions t.cluster = some g ∨ ∃ i, s.threads i = .waiting t.cluster (some g)
  settled : ∀ i, Settled resolve s.tasks (s.threads i)

lemma initial_inv : Inv clusterKey resolve initial :=
  ⟨by simp [initial],by simp [initial],by simp [initial,Phase.holds],by simp [initial],
    fun _ => trivial⟩

/-- The steps that leave no open pass out of the drain's sight. Only its own epilogue and a drain
take an open pass off the register; no start or up registers one between a drain and its removal;
and at a drain no pass of the directory is between its epilogue and the closing of its channel,
under another spelling, or given up on. -/
def Careful (s : Sys) (i : ℕ) (m : Move) : Prop :=
  match m, s.threads i with
  | .advance, .queued (.start name b) => b → Unattended s [name]
  | .advance, .queued (.up names) => Unattended s names
  | .advance, .queued (.stop names) => ∀ name ∈ names, s.provisions name = none
  | .advance, .locked (.create name b) => b → s.provisions name = none
  | .advance, .locked (.mutate name f) => f ≠ .nothing → s.provisions name = none
  | .advance, .locked (.destroy name) => ∀ g ≤ s.sequence, ∀ t ∈ s.tasks g,
      t.stage ≠ .closed → resolve t.cluster = resolve name →
        t.cluster = name ∧ t.stage = .working ∧ t.abandoned = false
  | .abort, .running _ passes _ => ∀ g ∈ passes, ∀ t ∈ s.tasks g,
      ∀ g' ∈ s.provisions t.cluster, g' = g
  | _, _ => True
where
  Unattended (s : Sys) (names : List String) : Prop :=
    names.Nodup ∧ ∀ name ∈ names, s.provisions name = none ∧
      ∀ j < s.arrived, ∀ other ∈ (s.threads j).drained, resolve other ≠ resolve name

variable {clusterKey resolve} {s : Sys}

theorem Settled.of_open {tasks tasks' : ℕ → Option Task} {p : Phase}
    (h : Settled resolve tasks p)
    (hop : ∀ name, p.drained = some name → ∀ g t', tasks' g = some t' → t'.stage ≠ .closed →
      resolve t'.cluster = resolve name → ∃ t, tasks g = some t ∧ t.stage ≠ .closed ∧
        resolve t.cluster = resolve name ∧ (t.abandoned → t'.abandoned)) :
    Settled resolve tasks' p := by
  cases p with
  | waiting name pass =>
    intro g t' ht' hne hdir
    obtain ⟨t,ht,hstg,hclus,-⟩ := hop name rfl g t' ht' hne hdir
    exact h g t ht hstg hclus
  | removing name timedOut =>
    intro g t' ht' hne hdir
    obtain ⟨t,ht,hstg,hclus,hgn⟩ := hop name rfl g t' ht' hne hdir
    exact (h g t ht hstg hclus).imp_right hgn
  | _ => trivial

lemma Settled.of_not_drained {tasks : ℕ → Option Task} {p : Phase} (h : p.drained = none) :
    Settled resolve tasks p := by
  cases p <;> simp_all [Phase.drained,Settled]

lemma threads_enter (i j : ℕ) (p : Phase) :
    (s.enter i p).threads j = if j = i then p else s.threads j := by
  simp [Sys.enter,Function.update_apply]

namespace Inv

variable {i : ℕ}

section

variable (h : Inv clusterKey resolve s)
include h

theorem quiet_enter (p : Phase) (hi : i < s.arrived) :
    ∀ j, s.arrived ≤ j → (s.enter i p).threads j = .idle := by
  intro j hj
  have hji : j ≠ i := (hi.trans_le hj).ne'
  rw [threads_enter,if_neg hji]
  exact h.quiet j hj

theorem held_enter {p : Phase}
    (hhl : ∀ name, p.holds = some name → s.locks (clusterKey name) = some i) :
    ∀ j name, ((s.enter i p).threads j).holds = some name →
      s.locks (clusterKey name) = some j := by
  intro j name hj
  rw [threads_enter] at hj
  split_ifs at hj with hji
  · rw [hji]
    exact hhl name hj
  · exact h.held j name hj

theorem settled_enter {p : Phase}
    (hset : Settled resolve s.tasks p) :
    ∀ j, Settled resolve s.tasks ((s.enter i p).threads j) := by
  intro j
  rw [threads_enter]
  split_ifs
  · exact hset
  · exact h.settled j

theorem enter {p : Phase} (hi : i < s.arrived)
    (hhl : ∀ name, p.holds = some name → s.locks (clusterKey name) = some i)
    (hwait : ∀ name g t, s.threads i = .waiting name (some g) → s.tasks g = some t →
      t.stage = .working → t.abandoned)
    (hset : Settled resolve s.tasks p) : Inv clusterKey resolve (s.enter i p) where
  fresh := h.fresh
  quiet := h.quiet_enter p hi
  held := h.held_enter hhl
  covered := fun g t ht hstg haban => by
    refine (h.covered g t ht hstg haban).imp_right fun ⟨j,hj⟩ => ⟨j,?_⟩
    rw [threads_enter,if_neg]
    · exact hj
    · rintro rfl
      have := hwait _ g t hj ht hstg
      simp [haban] at this
  settled := h.settled_enter hset

/-- A pass moves on: it gets no second life, and it stays given up on. -/
theorem setTask {g : ℕ} {t t' : Task} (ht : s.tasks g = some t)
    (hclus : t'.cluster = t.cluster) (hop : t'.stage ≠ .closed → t.stage ≠ .closed)
    (haban : t.abandoned → t'.abandoned)
    (hwork : t'.stage = .working → t.stage = .working) :
    Inv clusterKey resolve (s.setTask g t') := by
  have htask : ∀ k u, (s.setTask g t').tasks k = some u →
      (k = g ∧ u = t') ∨ (k ≠ g ∧ s.tasks k = some u) := by
    intro k u hk
    by_cases hkg : k = g
    · subst hkg
      exact .inl ⟨rfl,by simpa [Sys.setTask] using hk.symm⟩
    · exact .inr ⟨hkg,by simpa [Sys.setTask,hkg] using hk⟩
  refine ⟨fun k u hk => ?_,h.quiet,h.held,fun k u hk hstg hkp => ?_,fun j => ?_⟩
  · rcases htask k u hk with ⟨rfl,-⟩ | ⟨-,hk⟩
    · exact h.fresh k t ht
    · exact h.fresh k u hk
  · rcases htask k u hk with ⟨rfl,rfl⟩ | ⟨-,hk⟩
    · rw [hclus]
      refine h.covered k t ht (hwork hstg) (Bool.eq_false_iff.2 fun hgn => ?_)
      simp [haban hgn] at hkp
    · exact h.covered k u hk hstg hkp
  · refine (h.settled j).of_open fun name _ k u hk hne hdir => ?_
    rcases htask k u hk with ⟨rfl,rfl⟩ | ⟨-,hk⟩
    · exact ⟨t,ht,hop hne,hclus ▸ hdir,haban⟩
    · exact ⟨u,hk,hne,hdir,id⟩

end

variable {name : String}

section

variable (h : Inv clusterKey resolve s)
include h

/-- A name may be taken off the register if its pass is over, or somebody gave up on it. -/
theorem cancel
    (hdn : ∀ g t, s.provisions name = some g → s.tasks g = some t → t.cluster = name →
      t.stage = .working → t.abandoned) :
    Inv clusterKey resolve (s.cancelProvisionLocked name) := by
  refine ⟨h.fresh,h.quiet,h.held,fun g t ht hstg hkp => ?_,h.settled⟩
  refine (h.covered g t ht hstg hkp).imp_left fun hreg => ?_
  by_cases hnm : t.cluster = name
  · have := hdn g t (hnm ▸ hreg) ht hnm hstg
    simp [hkp] at this
  · simpa [Sys.cancelProvisionLocked,hnm] using hreg

/-- A pass is begun for a cluster without one, while nobody destroys its directory. -/
theorem beginProvision
    (hclr : s.provisions name = none)
    (hfr : ∀ j other, (s.threads j).drained = some other → resolve other ≠ resolve name) :
    Inv clusterKey resolve (s.beginProvision name) := by
  have htask : ∀ g t, (s.beginProvision name).tasks g = some t →
      (g = s.sequence + 1 ∧ t = ⟨name,.working,false⟩) ∨ s.tasks g = some t := by
    intro g t hg
    by_cases hnew : g = s.sequence + 1
    · subst hnew
      exact .inl ⟨rfl,by simpa [Sys.beginProvision] using hg.symm⟩
    · exact .inr (by simpa [Sys.beginProvision,hnew] using hg)
  refine ⟨fun g t hg => ?_,h.quiet,h.held,fun g t hg hstg hkp => ?_,fun j => ?_⟩
  · rcases htask g t hg with ⟨rfl,-⟩ | hg
    · exact le_rfl
    · exact (h.fresh g t hg).trans (Nat.le_succ _)
  · rcases htask g t hg with ⟨rfl,rfl⟩ | hg
    · exact .inl (by simp [Sys.beginProvision])
    · refine (h.covered g t hg hstg hkp).imp_left fun hreg => ?_
      have hne : t.cluster ≠ name := by
        rintro hnm
        simp [hnm,hclr] at hreg
      simpa [Sys.beginProvision,hne] using hreg
  · refine (h.settled j).of_open fun other hoth g t hg hne hdir => ?_
    rcases htask g t hg with ⟨-,rfl⟩ | hg
    · exact absurd hdir.symm (hfr j other hoth)
    · exact ⟨t,hg,hne,hdir,id⟩

theorem beginProvisionTasks {names : List String}
    (hnd : names.Nodup) (hclr : ∀ name ∈ names, s.provisions name = none)
    (hfr : ∀ name ∈ names, ∀ j other, (s.threads j).drained = some other →
      resolve other ≠ resolve name) :
    Inv clusterKey resolve (s.beginProvisionTasks names) := by
  induction names generalizing s with
  | nil => exact h
  | cons name names ih =>
    rw [List.nodup_cons] at hnd
    refine ih (h.beginProvision (hclr name (by simp)) (hfr name (by simp))) hnd.2
      (fun other hoth => ?_) fun other hoth => hfr other (by simp [hoth])
    have hne : other ≠ name := fun heq => hnd.1 (heq ▸ hoth)
    simpa [Sys.beginProvision,hne] using hclr other (by simp [hoth])

theorem lock {p : Phase} {s' : Sys}
    (hi : i < s.arrived) (hil : ∀ name g, s.threads i ≠ .waiting name (some g))
    (hp : p.holds = some name) (hdrn : p.drained = none)
    (hlc : s.lock clusterKey i name p = some s') : Inv clusterKey resolve s' := by
  unfold Sys.lock at hlc
  split_ifs at hlc with hfr
  cases hlc
  have hoth : ∀ j other, (s.threads j).holds = some other →
      clusterKey other ≠ clusterKey name := by
    intro j other hj hkey
    have := h.held j other hj
    simp [hkey,hfr] at this
  have hlocked : Inv clusterKey resolve
      { s with locks := Function.update s.locks (clusterKey name) (some i) } :=
    ⟨h.fresh,h.quiet,fun j other hj => by
      simpa [hoth j other hj] using h.held j other hj,h.covered,h.settled⟩
  refine hlocked.enter hi (fun other hp' => ?_) (fun other g t hw => absurd hw (hil other g)) ?_
  · have heq : name = other := Option.some.inj (hp.symm.trans hp')
    simp [heq]
  · exact .of_not_drained hdrn

theorem release {p : Phase}
    (hi : i < s.arrived) (hhd : (s.threads i).holds = some name) (hp : p.holds = none)
    (hwait : ∀ name g t, s.threads i = .waiting name (some g) → s.tasks g = some t →
      t.stage = .working → t.abandoned) :
    Inv clusterKey resolve ((s.enter i p).unlock clusterKey name) := by
  have hdrn : p.drained = none := by
    cases hd : p.drained with
    | none => rfl
    | some other => simp [Phase.holds_of_drained hd] at hp
  have hente : Inv clusterKey resolve (s.enter i p) :=
    h.enter hi (by simp [hp]) hwait (.of_not_drained hdrn)
  refine ⟨hente.fresh,hente.quiet,fun j other hj => ?_,hente.covered,hente.settled⟩
  have hhl := hente.held j other hj
  have hne : clusterKey other ≠ clusterKey name := by
    intro hkey
    -- the lock would have two holders
    have hmine : s.locks (clusterKey other) = some i := by rw [hkey,h.held i name hhd]
    have hji : j = i := Option.some.inj (hhl.symm.trans hmine)
    have hno : ((s.enter i p).threads j).holds = none := by
      rw [threads_enter,if_pos hji,hp]
    exact absurd (hno.symm.trans hj) (by simp)
  simpa [Sys.unlock,hne] using hhl

/-- Under the mutation lock, every open pass of the directory is the one on the register. -/
theorem drain (hi : i < s.arrived)
    (hph : s.threads i = .locked (.destroy name))
    (hcrf : ∀ g ≤ s.sequence, ∀ t ∈ s.tasks g, t.stage ≠ .closed →
      resolve t.cluster = resolve name →
        t.cluster = name ∧ t.stage = .working ∧ t.abandoned = false) :
    Inv clusterKey resolve
      ((s.cancelProvisionLocked name).enter i (.waiting name (s.provisions name))) := by
  have hhd : s.locks (clusterKey name) = some i := h.held i name (by simp [hph,Phase.holds])
  have hreg : ∀ g t, s.tasks g = some t → t.stage ≠ .closed → resolve t.cluster = resolve name →
      s.provisions name = some g := by
    intro g t ht hne hdir
    obtain ⟨hnm,hstg,hkp⟩ := hcrf g (h.fresh g t ht) t ht hne hdir
    rcases h.covered g t ht hstg hkp with hreg | ⟨j,hj⟩
    · exact hnm ▸ hreg
    · -- another destroy of the same name would hold the lock
      have hlc := h.held j name (by simp [hj,Phase.holds,hnm])
      have hji : j = i := Option.some.inj (hlc.symm.trans hhd)
      simp [hji,hph] at hj
  refine ⟨h.fresh,h.quiet_enter _ hi,h.held_enter fun other hoth => ?_,
    fun g t ht hstg hkp => ?_,h.settled_enter hreg⟩
  · cases hoth
    exact hhd
  · rcases h.covered g t ht hstg hkp with hcov | ⟨j,hj⟩
    · by_cases hnm : t.cluster = name
      · refine .inr ⟨i,?_⟩
        rw [threads_enter,if_pos rfl,hnm,← hnm,hcov]
      · exact .inl (by simpa [Sys.cancelProvisionLocked,Sys.enter,hnm] using hcov)
    · refine .inr ⟨j,?_⟩
      rw [threads_enter,if_neg]
      · exact hj
      · rintro rfl
        simp [hph] at hj

theorem arrived (hi : s.threads i ≠ .idle) :
    i < s.arrived := by
  by_contra hle
  exact hi (h.quiet i (not_lt.1 hle))

end

/-- Whoever holds the mutation lock of a cluster keeps every destroy of it from draining. -/
theorem free_of_holds (hkey : ∀ a b, resolve a = resolve b → clusterKey a = clusterKey b)
    (h : Inv clusterKey resolve s)
    (hhd : (s.threads i).holds = some name) (hdrn : (s.threads i).drained = none) :
    ∀ j other, (s.threads j).drained = some other → resolve other ≠ resolve name := by
  intro j other hj hdir
  have hlc := h.held j other (Phase.holds_of_drained hj)
  rw [hkey _ _ hdir,h.held i name hhd] at hlc
  cases hlc
  simp [hdrn] at hj

theorem free_of_unattended (h : Inv clusterKey resolve s)
    (hfr : ∀ j < s.arrived, ∀ other ∈ (s.threads j).drained, resolve other ≠ resolve name) :
    ∀ j other, (s.threads j).drained = some other → resolve other ≠ resolve name := by
  intro j other hj
  refine hfr j (h.arrived fun hil => ?_) other hj
  simp [hil,Phase.drained] at hj

end Inv

theorem cancelProvisions_of_none {names : List String}
    (hclr : ∀ name ∈ names, s.provisions name = none) : s.cancelProvisions names = s := by
  induction names with
  | nil => rfl
  | cons name names ih =>
    have hnm : s.cancelProvisionLocked name = s := by
      rw [Sys.cancelProvisionLocked,← hclr name (by simp),Function.update_eq_self]
    show (s.cancelProvisionLocked name).cancelProvisions names = s
    rw [hnm]
    exact ih fun other hoth => hclr other (by simp [hoth])

theorem beginProvisionTasks_frame (names : List String) :
    (s.beginProvisionTasks names).threads = s.threads ∧
      (s.beginProvisionTasks names).locks = s.locks ∧
      (s.beginProvisionTasks names).arrived = s.arrived := by
  induction names generalizing s with
  | nil => exact ⟨rfl,rfl,rfl⟩
  | cons name names ih => exact ih

theorem Inv.begun (h : Inv clusterKey resolve s) {i : ℕ} {p : Phase} {names : List String}
    (hi : i < s.arrived) (hil : ∀ name g, s.threads i ≠ .waiting name (some g))
    (hp : ∀ name, p.holds = some name → (s.threads i).holds = some name)
    (hdrn : p.drained = none) (hnd : names.Nodup)
    (hclr : ∀ name ∈ names, s.provisions name = none)
    (hfr : ∀ name ∈ names, ∀ j other, (s.threads j).drained = some other →
      resolve other ≠ resolve name) :
    Inv clusterKey resolve ((s.beginProvisionTasks names).enter i p) := by
  obtain ⟨hthre,hlocks,harri⟩ := beginProvisionTasks_frame (s := s) names
  refine (h.beginProvisionTasks hnd hclr hfr).enter (harri ▸ hi) (fun name hn => ?_)
    (fun name g t hw => absurd (hthre ▸ hw) (hil name g)) (.of_not_drained hdrn)
  rw [hlocks]
  exact h.held i name (hp name hn)

theorem Inv.move (h : Inv clusterKey resolve s) {i : ℕ} {p : Phase} (hi : i < s.arrived)
    (hil : ∀ name g, s.threads i ≠ .waiting name (some g))
    (hp : ∀ name, p.holds = some name → (s.threads i).holds = some name)
    (hdrn : p.drained = none) : Inv clusterKey resolve (s.enter i p) :=
  have hbgn : Inv clusterKey resolve ((s.beginProvisionTasks []).enter i p) :=
    h.begun hi hil hp hdrn (by simp) (by simp) (by simp)
  hbgn

section

variable {i : ℕ} {s' : Sys} (h : Inv clusterKey resolve s)
  (hcrf : Careful resolve s i .advance) (hst : advance clusterKey s i = some s')

include h hcrf hst

theorem advance_queued {req : Request} (hph : s.threads i = .queued req) :
    Inv clusterKey resolve s' := by
  have hi : i < s.arrived := h.arrived (by simp [hph])
  have hil : ∀ name g, s.threads i ≠ .waiting name (some g) := by simp [hph]
  simp only [advance,hph] at hst
  simp only [Careful,hph] at hcrf
  cases req with
  | create name b => exact h.lock hi hil rfl rfl hst
  | mutate name f => exact h.lock hi hil rfl rfl hst
  | destroy name => exact h.lock hi hil rfl rfl hst
  | start name b =>
    cases hst
    cases b with
    | false => exact h.move hi hil (by simp [Phase.holds]) rfl
    | true =>
      obtain ⟨hnd,hnms⟩ := hcrf rfl
      exact h.begun hi hil (by simp [Phase.holds]) rfl hnd (fun n hn => (hnms n hn).1)
        fun n hn => h.free_of_unattended (hnms n hn).2
  | up names =>
    cases hst
    obtain ⟨hnd,hnms⟩ := hcrf
    exact h.begun hi hil (by simp [Phase.holds]) rfl hnd (fun n hn => (hnms n hn).1)
      fun n hn => h.free_of_unattended (hnms n hn).2
  | stop names =>
    cases hst
    rw [cancelProvisions_of_none hcrf]
    exact h.move hi hil (by simp [Phase.holds]) rfl

theorem advance_locked (hkey : ∀ a b, resolve a = resolve b → clusterKey a = clusterKey b)
    {req : Request} (hph : s.threads i = .locked req) : Inv clusterKey resolve s' := by
  have hi : i < s.arrived := h.arrived (by simp [hph])
  have hil : ∀ name g, s.threads i ≠ .waiting name (some g) := by simp [hph]
  have hdrn : (s.threads i).drained = none := by simp [hph,Phase.drained]
  simp only [advance,hph] at hst
  simp only [Careful,hph] at hcrf
  cases req with
  | create name b =>
    cases hst
    have hhd : (s.threads i).holds = some name := by simp [hph,Phase.holds]
    have hfr := h.free_of_holds hkey hhd hdrn
    cases b with
    | false => exact h.move hi hil (by simp [Phase.holds,hph]) rfl
    | true =>
      exact h.begun hi hil (by simp [Phase.holds,hph]) rfl (by simp)
        (by simpa using hcrf rfl) (by simpa using hfr)
  | mutate name f =>
    have hhd : (s.threads i).holds = some name := by simp [hph,Phase.holds]
    have hfr := h.free_of_holds hkey hhd hdrn
    cases f with
    | begins =>
      cases hst
      exact h.begun hi hil (by simp [Phase.holds,hph]) rfl (by simp)
        (by simpa using hcrf) (by simpa using hfr)
    | cancels =>
      cases hst
      have hsm : s.cancelProvisionLocked name = s :=
        cancelProvisions_of_none (by simpa using hcrf : ∀ n ∈ [name], s.provisions n = none)
      rw [hsm]
      exact h.move hi hil (by simp [Phase.holds,hph]) rfl
    | nothing =>
      cases hst
      exact h.move hi hil (by simp [Phase.holds,hph]) rfl
  | destroy name =>
    cases hst
    exact h.drain hi hph hcrf
  | start name b => simp at hst
  | up names => simp at hst
  | stop names => simp at hst

omit hcrf in
theorem advance_leaving {name : String} {passes : List ℕ}
    (hph : s.threads i = .leaving name passes) : Inv clusterKey resolve s' := by
  simp only [advance,hph] at hst
  cases hst
  exact h.release (h.arrived (by simp [hph])) (by simp [hph,Phase.holds]) rfl
    (by simp [hph])

omit hcrf in
theorem advance_running {name : Option String} {passes : List ℕ} {finished : Bool}
    (hph : s.threads i = .running name passes finished) : Inv clusterKey resolve s' := by
  have hi : i < s.arrived := h.arrived (by simp [hph])
  cases passes with
  | cons g passes => cases name <;> simp [advance,hph] at hst
  | nil =>
    cases name with
    | none =>
      simp only [advance,hph] at hst
      cases hst
      exact h.move hi (by simp [hph]) (by simp [Phase.holds]) rfl
    | some name =>
      simp only [advance,hph] at hst
      cases hst
      exact h.release hi (by simp [hph,Phase.holds]) rfl (by simp [hph])

omit hcrf in
/-- The wait is over: the pass it was for has closed its channel. -/
theorem advance_waiting {name : String} {pass : Option ℕ}
    (hph : s.threads i = .waiting name pass) : Inv clusterKey resolve s' := by
  have hi : i < s.arrived := h.arrived (by simp [hph])
  have hlc : ∀ other, (Phase.removing name false).holds = some other →
      s.locks (clusterKey other) = some i :=
    fun other ho => h.held i other (by simpa [hph,Phase.holds] using ho)
  have hset := h.settled i
  rw [hph] at hset
  cases pass with
  | none =>
    simp only [advance,hph] at hst
    cases hst
    refine h.enter hi hlc (by simp [hph]) fun g t ht hne hdir => ?_
    exact absurd (hset g t ht hne hdir) (by simp)
  | some g =>
    simp only [advance,hph] at hst
    split_ifs at hst with hcls
    cases hst
    have hdn : ∀ t, s.tasks g = some t → t.stage = .closed := fun t ht => by
      simpa [ht] using hcls
    refine h.enter hi hlc (fun other k t hw ht hstg => ?_) fun k t ht hne hdir => ?_
    · rw [hph] at hw
      cases hw
      simp [hdn t ht] at hstg
    · have hkg : g = k := Option.some.inj (hset k t ht hne hdir)
      exact absurd (hdn t (hkg ▸ ht)) hne

omit hcrf in
/-- The directory goes; what is left on the register is at most a pass it gave up on. -/
theorem advance_removing {name : String} {timedOut : Bool}
    (hph : s.threads i = .removing name timedOut) : Inv clusterKey resolve s' := by
  have hset := h.settled i
  rw [hph] at hset
  simp only [advance,hph] at hst
  cases hst
  have hcancel : Inv clusterKey resolve (s.cancelProvisionLocked name) := by
    refine h.cancel fun g t _ ht hnm hstg => ?_
    exact (hset g t ht (by simp [hstg]) (by rw [hnm])).2
  exact hcancel.release (h.arrived (by simp [hph]))
    (by simp [Sys.cancelProvisionLocked,hph,Phase.holds]) rfl
    (by simp [Sys.cancelProvisionLocked,hph])

end

theorem advance_inv (hkey : ∀ a b, resolve a = resolve b → clusterKey a = clusterKey b)
    (h : Inv clusterKey resolve s) {i : ℕ} {s' : Sys} (hcrf : Careful resolve s i .advance)
    (hst : advance clusterKey s i = some s') : Inv clusterKey resolve s' := by
  cases hph : s.threads i with
  | idle => simp [advance,hph] at hst
  | answered => simp [advance,hph] at hst
  | queued req => exact advance_queued h hcrf hst hph
  | locked req => exact advance_locked h hcrf hst hkey hph
  | leaving name passes => exact advance_leaving h hst hph
  | running name passes finished => exact advance_running h hst hph
  | waiting name pass => exact advance_waiting h hst hph
  | removing name timedOut => exact advance_removing h hst hph

variable {t : Task} {g : ℕ}

section

variable (h : Inv clusterKey resolve s)
include h

theorem Inv.retire (ht : s.tasks g = some t)
    (hop : t.stage ≠ .closed) :
    Inv clusterKey resolve (s.setTask g { t with stage := .retired }) :=
  h.setTask ht rfl (fun _ => hop) id (by simp)

theorem Inv.cancelRetired
    (ht : s.tasks g = some t) (hop : t.stage ≠ .closed)
    (hown : ∀ g', s.provisions t.cluster = some g' → g' = g) :
    Inv clusterKey resolve
      ((s.setTask g { t with stage := .retired }).cancelProvisionLocked t.cluster) := by
  refine (h.retire ht hop).cancel fun g' t' hreg ht' _ hstg => ?_
  have hg : g' = g := hown g' hreg
  subst hg
  have ht'' : { t with stage := .retired } = t' := by simpa [Sys.setTask] using ht'
  rw [← ht''] at hstg
  simp at hstg

theorem finishProvision_inv
    (ht : s.tasks g = some t) (hop : t.stage ≠ .closed) :
    Inv clusterKey resolve (finishProvision s g t) := by
  simp only [finishProvision]
  split_ifs with hreg
  · refine h.cancelRetired ht hop fun g' hg' => ?_
    exact Option.some.inj (hg'.symm.trans hreg)
  · exact h.retire ht hop

theorem shed_inv {passes : List ℕ}
    (hop : ∀ g ∈ passes, ∃ t, s.tasks g = some t ∧ t.stage ≠ .closed)
    (hown : ∀ g ∈ passes, ∀ t ∈ s.tasks g, ∀ g' ∈ s.provisions t.cluster, g' = g) :
    Inv clusterKey resolve (passes.foldl shed s) := by
  induction passes generalizing s with
  | nil => exact h
  | cons g passes ih =>
    obtain ⟨t,ht,hstg⟩ := hop g (by simp)
    have hshed : shed s g =
        (s.setTask g { t with stage := .retired }).cancelProvisionLocked t.cluster := by
      simp [shed,ht]
    have htsk : ∀ k, (shed s g).tasks k =
        if k = g then some { t with stage := .retired } else s.tasks k := by
      simp [hshed,Sys.cancelProvisionLocked,Sys.setTask,Function.update_apply]
    have hprov : ∀ name g', (shed s g).provisions name = some g' →
        name ≠ t.cluster ∧ s.provisions name = some g' := by
      intro name g' hg'
      by_cases hnm : name = t.cluster
      · simp [hshed,Sys.cancelProvisionLocked,hnm] at hg'
      · exact ⟨hnm,by simpa [hshed,Sys.cancelProvisionLocked,Sys.setTask,hnm] using hg'⟩
    refine ih ?_ (fun k hk => ?_) fun k hk u hu g' hg' => ?_
    · rw [hshed]
      exact h.cancelRetired ht hstg (hown g (by simp) t ht)
    · rw [htsk]
      split_ifs
      · exact ⟨_,rfl,by simp⟩
      · exact hop k (by simp [hk])
    · obtain ⟨hnm,hreg⟩ := hprov _ _ hg'
      rw [htsk] at hu
      split_ifs at hu
      · cases hu
        exact absurd rfl hnm
      · exact hown k (by simp [hk]) u hu g' hreg

/-- The drain gives up: its pass is the only one open, and that is on record. -/
theorem timeout_inv {i : ℕ} {name : String}
    (hph : s.threads i = .waiting name (some g)) (ht : s.tasks g = some t) :
    Inv clusterKey resolve
      ((s.setTask g { t with abandoned := true }).enter i (.removing name true)) := by
  have hmarked : Inv clusterKey resolve (s.setTask g { t with abandoned := true }) :=
    h.setTask ht rfl id (fun _ => rfl) id
  have hgvn : ∀ u, (s.setTask g { t with abandoned := true }).tasks g = some u →
      u.abandoned := fun u hu => by
    have heq : { t with abandoned := true } = u := by simpa [Sys.setTask] using hu
    simp [← heq]
  have hset : Settled resolve _ (s.threads i) := hmarked.settled i
  rw [hph] at hset
  refine hmarked.enter (h.arrived (by simp [hph])) (fun other ho => ?_)
    (fun other k u hw hu _ => ?_) fun k u hu hne hdir => ⟨rfl,?_⟩
  · exact h.held i other (by simpa [hph,Phase.holds] using ho)
  · have hw' : s.threads i = .waiting other (some k) := hw
    rw [hph] at hw'
    cases hw'
    exact hgvn u hu
  · have hkg : g = k := Option.some.inj (hset k u hu hne hdir)
    subst hkg
    exact hgvn u hu

end

section

variable {i : ℕ} {s' : Sys}

theorem step_arrive {req : Request} (hst : step clusterKey s i (.arrive req) = some s') :
    i = s.arrived ∧ s' = { s with arrived := s.arrived + 1 }.enter i (.queued req) := by
  simp only [step] at hst
  split_ifs at hst with hi
  exact ⟨hi,(Option.some.inj hst).symm⟩

theorem step_timeout (hst : step clusterKey s i .timeout = some s') :
    ∃ name g t, s.threads i = .waiting name (some g) ∧ s.tasks g = some t ∧
      s' = (s.setTask g { t with abandoned := true }).enter i (.removing name true) := by
  simp only [step] at hst
  split at hst
  · rename_i name g hph
    split at hst
    · rename_i t ht
      exact ⟨name,g,t,hph,ht,(Option.some.inj hst).symm⟩
    · cases hst
  · cases hst

theorem step_retire (hst : step clusterKey s i .retire = some s') :
    ∃ g t, s.tasks g = some t ∧ t.stage = .working ∧ s' = finishProvision s g t := by
  simp only [step] at hst
  split at hst
  · rename_i g _ _ _
    split at hst
    · rename_i t ht
      split_ifs at hst with hstg
      exact ⟨g,t,ht,hstg,(Option.some.inj hst).symm⟩
    · cases hst
  · cases hst

theorem step_close (hst : step clusterKey s i .close = some s') :
    ∃ name g passes finished t, s.threads i = .running name (g::passes) finished ∧
      s.tasks g = some t ∧
      s' = (s.setTask g { t with stage := .closed }).enter i (.running name passes true) := by
  simp only [step] at hst
  split at hst
  · rename_i name g passes finished hph
    split at hst
    · rename_i t ht
      split_ifs at hst
      exact ⟨name,g,passes,finished,t,hph,ht,(Option.some.inj hst).symm⟩
    · cases hst
  · cases hst

theorem step_abort (hst : step clusterKey s i .abort = some s') :
    ∃ name passes, s.threads i = .running name passes true ∧
      (∀ g ∈ passes, ∃ t, s.tasks g = some t ∧ t.stage = .working) ∧
      s' = passes.foldl shed s := by
  simp only [step] at hst
  split at hst
  · rename_i name passes hph
    split_ifs at hst with hwork
    refine ⟨name,passes,hph,fun g hg => ?_,(Option.some.inj hst).symm⟩
    have hany := List.all_eq_true.1 hwork g hg
    cases ht : s.tasks g with
    | none => simp [ht] at hany
    | some t => exact ⟨t,rfl,by simpa [ht] using hany⟩
  · cases hst

end

theorem step_inv (hkey : ∀ a b, resolve a = resolve b → clusterKey a = clusterKey b)
    (h : Inv clusterKey resolve s) {i : ℕ} {m : Move} {s' : Sys} (hcrf : Careful resolve s i m)
    (hst : step clusterKey s i m = some s') : Inv clusterKey resolve s' := by
  cases m with
  | advance => exact advance_inv hkey h hcrf hst
  | arrive req =>
    obtain ⟨hi,rfl⟩ := step_arrive hst
    have hroom : Inv clusterKey resolve { s with arrived := s.arrived + 1 } :=
      ⟨h.fresh,fun j hj => h.quiet j (Nat.le_of_succ_le hj),h.held,h.covered,h.settled⟩
    have hil : s.threads i = .idle := h.quiet i hi.ge
    exact hroom.move (by simp [hi]) (by simp [hil]) (by simp [Phase.holds]) rfl
  | timeout =>
    obtain ⟨name,g,t,hph,ht,rfl⟩ := step_timeout hst
    exact timeout_inv h hph ht
  | retire =>
    obtain ⟨g,t,ht,hstg,rfl⟩ := step_retire hst
    exact finishProvision_inv h ht (by simp [hstg])
  | close =>
    obtain ⟨name,g,passes,finished,t,hph,ht,rfl⟩ := step_close hst
    have hcls : Inv clusterKey resolve (s.setTask g { t with stage := .closed }) :=
      h.setTask ht rfl (by simp) id (by simp)
    exact hcls.move (h.arrived (by simp [hph])) (by simp [Sys.setTask,hph])
      (by simp [Sys.setTask,Phase.holds,hph]) rfl
  | abort =>
    obtain ⟨name,passes,hph,hwork,rfl⟩ := step_abort hst
    simp only [Careful,hph] at hcrf
    refine shed_inv h (fun g hg => ?_) hcrf
    obtain ⟨t,ht,hstg⟩ := hwork g hg
    exact ⟨t,ht,by simp [hstg]⟩

variable (clusterKey resolve)

instance (s : Sys) (names : List String) : Decidable (Careful.Unattended resolve s names) := by
  unfold Careful.Unattended
  infer_instance

instance (s : Sys) (i : ℕ) (m : Move) : Decidable (Careful resolve s i m) := by
  unfold Careful
  split <;> infer_instance

/-- Every step of the run is a careful one. -/
def carefulRun (s : Sys) : List (ℕ × Move) → Bool
  | [] => true
  | (i,m)::events => decide (Careful resolve s i m) &&
      (step clusterKey s i m).all fun s => carefulRun s events

variable {clusterKey resolve}

theorem run_inv (hkey : ∀ a b, resolve a = resolve b → clusterKey a = clusterKey b)
    (h : Inv clusterKey resolve s) {events : List (ℕ × Move)} {s' : Sys}
    (hcrf : carefulRun clusterKey resolve s events)
    (hrun : run clusterKey s events = some s') : Inv clusterKey resolve s' := by
  induction events generalizing s with
  | nil =>
    cases hrun
    exact h
  | cons event events ih =>
    obtain ⟨t,hst,hrs⟩ := Option.bind_eq_some_iff.1 hrun
    simp only [carefulRun,hst,Bool.and_eq_true,decide_eq_true_eq] at hcrf
    exact ih (step_inv hkey h hcrf.1 hst) hcrf.2 hrs

/-- In a careful run a destroy whose drain did not time out removes the directory only after every
pass of it has closed its channel. -/
theorem careful_destroy_settled
    (hkey : ∀ a b, resolve a = resolve b → clusterKey a = clusterKey b)
    {events : List (ℕ × Move)} {s : Sys} (hrun : run clusterKey initial events = some s)
    (hcrf : carefulRun clusterKey resolve initial events = true) {i : ℕ} {name : String}
    (hremo : s.threads i = .removing name false) :
    ∀ g t, s.tasks g = some t → resolve t.cluster = resolve name → t.stage = .closed := by
  intro g t ht hdir
  have hset := (run_inv hkey (initial_inv clusterKey resolve) hcrf hrun).settled i
  rw [hremo] at hset
  by_contra hopen
  exact absurd (hset g t ht hopen hdir).1 (by simp)

/-- A start whose pass is running, and a destroy that drains it. -/
def drainedStart : List (ℕ × Move) :=
  [(0,.arrive (.start "demo" true)),(0,.advance),
    (1,.arrive (.destroy "demo")),(1,.advance),(1,.advance),(0,.retire),(0,.close),(1,.advance)]

theorem drainedStart_settled :
    (run id initial drainedStart).isSome = true ∧
      ∀ s, run id initial drainedStart = some s → s.threads 1 = .removing "demo" false ∧
        ∀ g t, s.tasks g = some t → id t.cluster = id "demo" → t.stage = .closed := by
  have hph : (run id initial drainedStart).map (fun s => s.threads 1) =
      some (.removing "demo" false) := by decide
  refine ⟨by decide,fun s hs => ?_⟩
  have hremo : s.threads 1 = .removing "demo" false := by simpa [hs] using hph
  exact ⟨hremo,careful_destroy_settled (fun _ _ h => h) hs (by decide) hremo⟩

/-- A stop cancels the start's pass without waiting, and a destroy finds nothing to wait for. -/
def stoppedStart : List (ℕ × Move) :=
  [(0,.arrive (.start "demo" true)),(0,.advance),
    (1,.arrive (.stop ["demo"])),(1,.advance),
    (2,.arrive (.destroy "demo")),(2,.advance),(2,.advance),(2,.advance)]

/-- The directory is about to go while the pass still works in it. -/
theorem stopped_pass_outlives_destroy :
    (run id initial stoppedStart).map (fun s => (s.threads 2,s.tasks 1)) =
      some (.removing "demo" false,some ⟨"demo",.working,false⟩) := by
  decide

end TalosBox.Passes
