import TalosBox.BalloonPlan

/-! The water-filling loop ends by itself, the order of the nodes plays no part, and nodes of one
size get one target. -/
namespace TalosBox.Balloon

/-- A finished run of the redistribution loop. -/
inductive Redistributes (floorMiB : ℤ) : ℤ → List Node → Targets → Targets → Prop
  | idle {remaining : ℤ} {active : List Node} {targets : Targets}
      (hil : ¬(0 < remaining ∧ active ≠ [])) :
      Redistributes floorMiB remaining active targets targets
  | last {remaining : ℤ} {active : List Node} {targets : Targets}
      (hrun : 0 < remaining ∧ active ≠ [])
      (hkp : (round floorMiB remaining targets active).clamped = false) :
      Redistributes floorMiB remaining active targets (round floorMiB remaining targets active).targets
  | again {remaining : ℤ} {active : List Node} {targets final : Targets}
      (hrun : 0 < remaining ∧ active ≠ [])
      (hclam : (round floorMiB remaining targets active).clamped)
      (hrs : Redistributes floorMiB
        (remaining-(round floorMiB remaining targets active).distributed)
        (round floorMiB remaining targets active).active
        (round floorMiB remaining targets active).targets final) :
      Redistributes floorMiB remaining active targets final

section

variable {floorMiB : ℤ}

/-- The pool's size is enough fuel: the loop has come to its own end by then. -/
theorem redistribute_finishes (fuel : ℕ) (rem : ℤ) (active : List Node) (tgts : Targets)
    (hp : Pool floorMiB tgts active) (hfuel : active.length ≤ fuel) :
    Redistributes floorMiB rem active tgts
      (redistribute floorMiB fuel rem active tgts) := by
  induction fuel generalizing rem active tgts with
  | zero =>
    have hnil : active = [] := List.length_eq_zero_iff.1 (by omega)
    exact .idle (by simp [hnil])
  | succ fuel ih =>
    have hrnd := rounded_round rem hp
    simp only [redistribute]
    split_ifs with hrun hc
    · have hlt := hrnd.active_length_lt hc
      exact .again hrun hc (ih _ _ _ hrnd.next (by omega))
    · exact .last hrun (by simpa using hc)
    · exact .idle hrun

theorem hits_of_equal {rem weight : ℤ} {tgts : Targets} {n m : Node}
    (hsz : n.configuredMiB = m.configuredMiB) (htg : tgts n.name = tgts m.name) :
    Hits rem weight floorMiB tgts n ↔ Hits rem weight floorMiB tgts m := by
  unfold Hits
  rw [hsz,htg]

theorem redistribute_equal (fuel : ℕ) (rem : ℤ) (active : List Node) (tgts : Targets)
    (hp : Pool floorMiB tgts active) {n m : Node} (hn : n ∈ active) (hm : m ∈ active)
    (hsz : n.configuredMiB = m.configuredMiB) (htg : tgts n.name = tgts m.name) :
    redistribute floorMiB fuel rem active tgts n.name =
      redistribute floorMiB fuel rem active tgts m.name := by
  induction fuel generalizing rem active tgts with
  | zero => exact htg
  | succ fuel ih =>
    have hrnd := rounded_round rem hp
    have hequal : (round floorMiB rem tgts active).targets n.name =
        (round floorMiB rem tgts active).targets m.name := by
      rw [hrnd.targets_mem n hn,hrnd.targets_mem m hm,hsz,htg]
    have hkp : n ∈ (round floorMiB rem tgts active).active ↔
        m ∈ (round floorMiB rem tgts active).active := by
      simp only [hrnd.active_eq,List.mem_filter,hn,hm,hits_of_equal hsz htg]
    simp only [redistribute]
    split_ifs
    · by_cases hnkept : n ∈ (round floorMiB rem tgts active).active
      · exact ih _ _ _ hrnd.next hnkept (hkp.1 hnkept) hequal
      · have hmdrop := fun h => hnkept (hkp.2 h)
        rw [redistribute_dropped fuel hrnd n hn hnkept,redistribute_dropped fuel hrnd m hm hmdrop]
        exact hequal
    · exact hequal
    · exact htg

end

section

variable {nodes nodes' : List Node} {deficitMiB floorMiB : ℤ}

theorem planTargets_of_pos (hdef : 0 < deficitMiB) :
    planTargets nodes deficitMiB floorMiB =
      redistribute floorMiB (activePool nodes floorMiB).length deficitMiB
        (activePool nodes floorMiB) (configuredTargets nodes) := by
  simp [planTargets,not_le.2 hdef]

theorem planTargets_finishes (hnms : (nodes.map Node.name).Nodup) (hszd : Sized floorMiB nodes)
    (hdef : 0 < deficitMiB) :
    Redistributes floorMiB deficitMiB (activePool nodes floorMiB) (configuredTargets nodes)
      (planTargets nodes deficitMiB floorMiB) := by
  rw [planTargets_of_pos hdef]
  exact redistribute_finishes _ _ _ _ (activePool_pool hnms hszd) le_rfl

lemma configuredTargets_frame {name : String} (h : name ∉ nodes.map Node.name) :
    configuredTargets nodes name = 0 :=
  foldl_configured_frame nodes _ h

theorem configuredTargets_of_perm (hpe : nodes.Perm nodes')
    (hnms : (nodes.map Node.name).Nodup) : configuredTargets nodes' = configuredTargets nodes := by
  have hnms' : (nodes'.map Node.name).Nodup := (hpe.map Node.name).nodup hnms
  funext name
  by_cases hnm : name ∈ nodes.map Node.name
  · obtain ⟨n,hn,rfl⟩ := List.mem_map.1 hnm
    rw [configuredTargets_mem hnms hn,configuredTargets_mem hnms' (hpe.subset hn)]
  · have hnm' : name ∉ nodes'.map Node.name :=
      fun h => hnm ((hpe.map Node.name).mem_iff.2 h)
    rw [configuredTargets_frame hnm,configuredTargets_frame hnm']

lemma activePool_sorted (nodes : List Node) (floorMiB : ℤ) :
    (activePool nodes floorMiB).Pairwise fun a b => a.name ≤ b.name :=
  List.pairwise_insertionSort (fun a b : Node => a.name ≤ b.name) _

/-- No two nodes share a name, so the pool has one name order. -/
theorem activePool_of_perm (hpe : nodes.Perm nodes')
    (hnms : (nodes.map Node.name).Nodup) :
    activePool nodes' floorMiB = activePool nodes floorMiB := by
  have hpools : (activePool nodes' floorMiB).Perm (activePool nodes floorMiB) :=
    ((activePool_perm nodes' floorMiB).trans (hpe.symm.filter _)).trans
      (activePool_perm nodes floorMiB).symm
  refine List.Perm.eq_of_pairwise ?_ (activePool_sorted nodes' floorMiB)
    (activePool_sorted nodes floorMiB) hpools
  intro a b ha hb hab hba
  have ha' : a ∈ nodes := (mem_activePool.1 (hpools.subset ha)).1
  exact List.inj_on_of_nodup_map hnms ha' (mem_activePool.1 hb).1 (le_antisymm hab hba)

lemma planTargets_of_perm (hpe : nodes.Perm nodes') (hnms : (nodes.map Node.name).Nodup) :
    planTargets nodes' deficitMiB floorMiB = planTargets nodes deficitMiB floorMiB := by
  simp only [planTargets,configuredTargets_of_perm hpe hnms,activePool_of_perm hpe hnms]

theorem planTargets_equal (hnms : (nodes.map Node.name).Nodup) (hszd : Sized floorMiB nodes)
    {n m : Node} (hn : n ∈ nodes) (hm : m ∈ nodes) (hsz : n.configuredMiB = m.configuredMiB) :
    planTargets nodes deficitMiB floorMiB n.name = planTargets nodes deficitMiB floorMiB m.name := by
  have hconf : configuredTargets nodes n.name = configuredTargets nodes m.name := by
    rw [configuredTargets_mem hnms hn,configuredTargets_mem hnms hm,hsz]
  rcases le_or_gt deficitMiB 0 with hno | hpos
  · simpa [planTargets,hno] using hconf
  · rcases le_or_gt n.configuredMiB floorMiB with hblw | habv
    · rw [planTargets_below hnms hszd hn hblw,
        planTargets_below hnms hszd hm (hsz ▸ hblw),hsz]
    · rw [planTargets_of_pos hpos]
      exact redistribute_equal _ _ _ _ (activePool_pool hnms hszd)
        (mem_activePool.2 ⟨hn,habv⟩) (mem_activePool.2 ⟨hm,hsz ▸ habv⟩) hsz hconf

end

/-- What `PlanTargets` promises for any list of distinctly named nodes. -/
theorem planTargets_water_filling {nodes : List Node} (hnms : (nodes.map Node.name).Nodup)
    (deficitMiB : ℤ) {floorMiB : ℤ} (hflr : 0 ≤ floorMiB) :
    let targets := planTargets nodes deficitMiB floorMiB
    (0 < deficitMiB → Redistributes floorMiB deficitMiB (activePool nodes floorMiB)
      (configuredTargets nodes) targets) ∧
    (∀ n ∈ nodes, min n.configuredMiB floorMiB ≤ targets n.name ∧
      targets n.name ≤ n.configuredMiB) ∧
    reclaimed nodes targets ≤ max 0 deficitMiB ∧
    (0 < deficitMiB →
      deficitMiB-reclaimed nodes targets < (leftAbove floorMiB targets nodes).length ∨
      ∀ n ∈ nodes, floorMiB < n.configuredMiB → targets n.name = floorMiB) ∧
    (∀ nodes', nodes.Perm nodes' → planTargets nodes' deficitMiB floorMiB = targets) ∧
    ∀ n ∈ nodes, ∀ m ∈ nodes, n.configuredMiB = m.configuredMiB →
      targets n.name = targets m.name := by
  have hszd : Sized floorMiB nodes := sized_of_nonneg hflr
  refine ⟨planTargets_finishes hnms hszd,fun n hn => planTargets_bounds hnms hszd hn,?_,?_,
    fun nodes' hperm => planTargets_of_perm hperm hnms,
    fun n hn m hm hsize => planTargets_equal hnms hszd hn hm hsize⟩
  · rw [max_comm]
    exact reclaimed_planTargets_le hnms hszd
  · intro hdef
    refine (planTargets_rest hnms hszd hdef).imp (fun hlt => ?_) id
    exact sub_lt_iff_lt_add'.mpr hlt

/-- Two guests of 4096 MiB and a small one that 1000 MiB are taken from. -/
theorem planTargets_three_guests :
    planTargets [⟨"b",4096⟩,⟨"a",4096⟩,⟨"c",512⟩] 1000 1024 "a" = 3596 ∧
    planTargets [⟨"b",4096⟩,⟨"a",4096⟩,⟨"c",512⟩] 1000 1024 "a" =
      planTargets [⟨"b",4096⟩,⟨"a",4096⟩,⟨"c",512⟩] 1000 1024 "b" :=
  ⟨by decide,(planTargets_water_filling (by decide) 1000 (by decide)).2.2.2.2.2
    ⟨"a",4096⟩ (by decide) ⟨"b",4096⟩ (by decide) rfl⟩

end TalosBox.Balloon
