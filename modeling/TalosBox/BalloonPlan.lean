import TalosBox.ProportionalShares

/-! The balloon plan: how a memory deficit is shared out over the running guests. Sizes are whole
MiB and unbounded. -/
namespace TalosBox.Balloon

open ProportionalShares List

/-- One running, configured VM eligible for ballooning. -/
structure Node where
  name : String
  configuredMiB : ℤ
  deriving DecidableEq, Repr

/-- A `map[string]int` of targets; a missing name reads as zero. -/
abbrev Targets := String → ℤ

def configuredTargets (nodes : List Node) : Targets :=
  nodes.foldl (fun targets n => Function.update targets n.name n.configuredMiB) fun _ => 0

/-- A redistribution round so far. -/
structure Round where
  targets : Targets
  active : List Node
  distributed : ℤ
  clamped : Bool

def Round.step (remaining weight floorMiB : ℤ) (r : Round) (n : Node) : Round :=
  let share := share remaining weight n.configuredMiB
  let target := r.targets n.name - share
  if target ≤ floorMiB then
    -- clamp to floor and drop from the active pool
    { targets := Function.update r.targets n.name floorMiB
      active := r.active
      distributed := r.distributed + (r.targets n.name - floorMiB)
      clamped := true }
  else
    { targets := Function.update r.targets n.name target
      active := r.active++[n]
      distributed := r.distributed + share
      clamped := r.clamped }

def weight (active : List Node) : ℤ := (active.map Node.configuredMiB).sum

def round (floorMiB remaining : ℤ) (targets : Targets) (active : List Node) : Round :=
  active.foldl (Round.step remaining (weight active) floorMiB) ⟨targets,[],0,false⟩

/-- A round that clamps nobody is the last; every other one shrinks the pool, so its size is enough
fuel. -/
def redistribute (floorMiB : ℤ) : ℕ → ℤ → List Node → Targets → Targets
  | 0, _, _, targets => targets
  | fuel+1, remaining, active, targets =>
    if 0 < remaining ∧ active ≠ [] then
      let r := round floorMiB remaining targets active
      if r.clamped then redistribute floorMiB fuel (remaining-r.distributed) r.active r.targets
      else r.targets
    else targets

/-- The nodes above the floor, in name order. -/
def activePool (nodes : List Node) (floorMiB : ℤ) : List Node :=
  (nodes.filter fun n => floorMiB < n.configuredMiB).insertionSort fun a b => a.name ≤ b.name

/-- `PlanTargets`. Node names are distinct: every caller builds the list from a map. -/
def planTargets (nodes : List Node) (deficitMiB floorMiB : ℤ) : Targets :=
  let targets := configuredTargets nodes
  if deficitMiB ≤ 0 then targets
  else
    let active := activePool nodes floorMiB
    redistribute floorMiB active.length deficitMiB active targets

example : planTargets [⟨"a",4096⟩,⟨"b",4096⟩] 1000 1024 "a" = 3596 := by decide

/-- Memory the listed nodes gave up between two target maps. -/
def given (nodes : List Node) (before after : Targets) : ℤ :=
  (nodes.map fun n => before n.name - after n.name).sum

theorem given_self (nodes : List Node) (t : Targets) : given nodes t t = 0 := by
  induction nodes with
  | nil => rfl
  | cons n nodes ih => simp [given]

theorem given_trans (nodes : List Node) (t₀ t₁ t₂ : Targets) :
    given nodes t₀ t₂ = given nodes t₀ t₁ + given nodes t₁ t₂ := by
  induction nodes with
  | nil => rfl
  | cons n nodes ih =>
    simp only [given,map_cons,sum_cons] at ih ⊢
    omega

theorem given_congr {nodes : List Node} {t₀ t₁ u₀ u₁ : Targets}
    (h₀ : ∀ n ∈ nodes, t₀ n.name = u₀ n.name) (h₁ : ∀ n ∈ nodes, t₁ n.name = u₁ n.name) :
    given nodes t₀ t₁ = given nodes u₀ u₁ := by
  unfold given
  congr 1
  apply map_congr_left
  intro n hn
  rw [h₀ n hn,h₁ n hn]

theorem given_filter {nodes : List Node} {p : Node → Bool} {t₀ t₁ : Targets}
    (h : ∀ n ∈ nodes, p n = false → t₁ n.name = t₀ n.name) :
    given nodes t₀ t₁ = given (nodes.filter p) t₀ t₁ := by
  induction nodes with
  | nil => rfl
  | cons n nodes ih =>
    have hrs := ih fun m hm => h m (by simp [hm])
    cases hp : p n with
    | false => simpa [given,hp,h n (by simp) hp] using hrs
    | true => simpa [given,hp] using hrs

/-- The active pool of a round: distinct names, every member above the floor and of positive size.
-/
structure Pool (floorMiB : ℤ) (targets : Targets) (active : List Node) : Prop where
  names : (active.map Node.name).Nodup
  above : ∀ n ∈ active, floorMiB < targets n.name
  positive : ∀ n ∈ active, 0 < n.configuredMiB

section

variable (remaining weight floorMiB : ℤ) (r : Round) (n : Node)

/-- A member whose share would take it to the floor or below. -/
def Hits (targets : Targets) (n : Node) : Prop :=
  targets n.name - share remaining weight n.configuredMiB ≤ floorMiB

instance (targets : Targets) (n : Node) : Decidable (Hits remaining weight floorMiB targets n) :=
  inferInstanceAs (Decidable (_ ≤ _))

theorem step_targets_self :
    (r.step remaining weight floorMiB n).targets n.name =
      max (r.targets n.name - share remaining weight n.configuredMiB) floorMiB := by
  simp only [Round.step]
  split_ifs with h
  · simp [max_eq_right h]
  · simp [max_eq_left (not_le.1 h).le]

theorem step_targets_other {name : String} (h : name ≠ n.name) :
    (r.step remaining weight floorMiB n).targets name = r.targets name := by
  simp only [Round.step]
  split_ifs <;> simp [Function.update_of_ne h]

theorem step_active :
    (r.step remaining weight floorMiB n).active =
      r.active++if Hits remaining weight floorMiB r.targets n then [] else [n] := by
  by_cases h : r.targets n.name - share remaining weight n.configuredMiB ≤ floorMiB <;>
    simp only [Round.step,Hits,h,↓reduceIte,append_nil]

theorem step_distributed :
    (r.step remaining weight floorMiB n).distributed = r.distributed +
      (r.targets n.name - (r.step remaining weight floorMiB n).targets n.name) := by
  simp only [Round.step]
  split_ifs <;> simp

theorem step_clamped :
    (r.step remaining weight floorMiB n).clamped ↔
      r.clamped ∨ Hits remaining weight floorMiB r.targets n := by
  simp only [Round.step,Hits]
  split_ifs with h <;> simp [h]

end

section

variable (remaining weight floorMiB : ℤ) {pool : List Node}

theorem foldl_targets_frame (r : Round) {name : String} (h : name ∉ pool.map Node.name) :
    (pool.foldl (Round.step remaining weight floorMiB) r).targets name = r.targets name := by
  induction pool generalizing r with
  | nil => rfl
  | cons n pool ih =>
    simp only [map_cons,mem_cons,not_or] at h
    rw [foldl_cons,ih _ h.2,step_targets_other _ _ _ _ _ h.1]

theorem step_targets_tail {r : Round} {n m : Node} (hn : n.name ∉ pool.map Node.name)
    (hm : m ∈ pool) :
    (r.step remaining weight floorMiB n).targets m.name = r.targets m.name :=
  step_targets_other _ _ _ _ _ fun h => hn (h ▸ mem_map_of_mem hm)

theorem step_hits_tail {r : Round} {n m : Node} (hn : n.name ∉ pool.map Node.name)
    (hm : m ∈ pool) :
    Hits remaining weight floorMiB (r.step remaining weight floorMiB n).targets m ↔
      Hits remaining weight floorMiB r.targets m := by
  unfold Hits
  rw [step_targets_tail _ _ _ hn hm]

theorem foldl_targets_mem (r : Round) (hnms : (pool.map Node.name).Nodup)
    {n : Node} (hn : n ∈ pool) :
    (pool.foldl (Round.step remaining weight floorMiB) r).targets n.name =
      max (r.targets n.name - share remaining weight n.configuredMiB) floorMiB := by
  induction pool generalizing r with
  | nil => simp at hn
  | cons m pool ih =>
    rw [map_cons,nodup_cons] at hnms
    rw [foldl_cons]
    rcases mem_cons.1 hn with rfl | hn
    · rw [foldl_targets_frame _ _ _ _ hnms.1,step_targets_self]
    · rw [ih _ hnms.2 hn,step_targets_tail _ _ _ hnms.1 hn]

theorem foldl_active (r : Round) (hnms : (pool.map Node.name).Nodup) :
    (pool.foldl (Round.step remaining weight floorMiB) r).active =
      r.active++pool.filter fun n => ¬Hits remaining weight floorMiB r.targets n := by
  induction pool generalizing r with
  | nil => simp
  | cons n pool ih =>
    rw [map_cons,nodup_cons] at hnms
    rw [foldl_cons,ih _ hnms.2,step_active,filter_cons]
    have hfilter : (pool.filter fun m => decide ¬Hits remaining weight floorMiB
          (r.step remaining weight floorMiB n).targets m) =
        pool.filter fun m => decide ¬Hits remaining weight floorMiB r.targets m :=
      filter_congr fun m hm => by
        simp only [step_hits_tail remaining weight floorMiB hnms.1 hm]
    rw [hfilter]
    by_cases h : Hits remaining weight floorMiB r.targets n <;> simp [h]

theorem foldl_distributed (r : Round) (hnms : (pool.map Node.name).Nodup) :
    (pool.foldl (Round.step remaining weight floorMiB) r).distributed = r.distributed +
      given pool r.targets (pool.foldl (Round.step remaining weight floorMiB) r).targets := by
  induction pool generalizing r with
  | nil => simp [given]
  | cons n pool ih =>
    rw [map_cons,nodup_cons] at hnms
    rw [foldl_cons,ih _ hnms.2,step_distributed,
      given_congr (fun m hm => step_targets_tail _ _ _ hnms.1 hm) fun _ _ => rfl]
    simp only [given,map_cons,sum_cons,foldl_targets_frame _ _ _ _ hnms.1]
    ring

theorem foldl_clamped (r : Round) (hnms : (pool.map Node.name).Nodup) :
    (pool.foldl (Round.step remaining weight floorMiB) r).clamped ↔
      r.clamped ∨ ∃ n ∈ pool, Hits remaining weight floorMiB r.targets n := by
  induction pool generalizing r with
  | nil => simp
  | cons n pool ih =>
    rw [map_cons,nodup_cons] at hnms
    rw [foldl_cons,ih _ hnms.2,step_clamped,or_assoc]
    have htl : (∃ m ∈ pool, Hits remaining weight floorMiB
          (r.step remaining weight floorMiB n).targets m) ↔
        ∃ m ∈ pool, Hits remaining weight floorMiB r.targets m :=
      exists_congr fun m => and_congr_right fun hm => step_hits_tail _ _ _ hnms.1 hm
    rw [htl,exists_mem_cons_iff]

end

section

variable {floorMiB remaining : ℤ} {targets : Targets} {active : List Node} {r : Round}

lemma weight_pos (h : Pool floorMiB targets active) (hne : active ≠ []) : 0 < weight active :=
  sum_pos_of_mem h.positive hne

/-- What a round makes of a pool. -/
structure Rounded (floorMiB remaining : ℤ) (targets : Targets) (active : List Node) (r : Round) :
    Prop where
  pool : Pool floorMiB targets active
  targets_mem : ∀ n ∈ active, r.targets n.name =
    max (targets n.name - share remaining (weight active) n.configuredMiB) floorMiB
  targets_frame : ∀ name ∉ active.map Node.name, r.targets name = targets name
  active_eq : r.active = active.filter fun n => ¬Hits remaining (weight active) floorMiB targets n
  distributed_eq : r.distributed = given active targets r.targets
  clamped_iff : r.clamped ↔ ∃ n ∈ active, Hits remaining (weight active) floorMiB targets n

theorem rounded_round (remaining : ℤ) (h : Pool floorMiB targets active) :
    Rounded floorMiB remaining targets active (round floorMiB remaining targets active) where
  pool := h
  targets_mem _ hn := foldl_targets_mem _ _ _ _ h.names hn
  targets_frame _ hna := foldl_targets_frame _ _ _ _ hna
  active_eq := by
    simpa [round] using foldl_active remaining (weight active) floorMiB ⟨targets,[],0,false⟩ h.names
  distributed_eq := by
    simpa [round] using foldl_distributed remaining (weight active) floorMiB ⟨targets,[],0,false⟩ h.names
  clamped_iff := by
    simpa [round] using foldl_clamped remaining (weight active) floorMiB ⟨targets,[],0,false⟩ h.names

namespace Rounded

variable (h : Rounded floorMiB remaining targets active r)
include h

theorem bounds (hr : 0 ≤ remaining) {n : Node} (hn : n ∈ active) :
    floorMiB ≤ r.targets n.name ∧ r.targets n.name ≤ targets n.name := by
  have hne : active ≠ [] := ne_nil_of_mem hn
  have hshare : 0 ≤ share remaining (weight active) n.configuredMiB :=
    share_nonneg hr (weight_pos h.pool hne).le (h.pool.positive n hn).le
  have habv := h.pool.above n hn
  rw [h.targets_mem n hn]
  omega

lemma active_sublist : r.active.Sublist active := by
  rw [h.active_eq]
  exact filter_sublist

/-- The nodes that stay in the pool form a pool again, over the round's targets. -/
theorem next : Pool floorMiB r.targets r.active := by
  refine ⟨h.pool.names.sublist (h.active_sublist.map _),?_,
    fun n hn => h.pool.positive n (h.active_sublist.subset hn)⟩
  intro n hn
  rw [h.active_eq,mem_filter] at hn
  rw [h.targets_mem n hn.1]
  have hnot : ¬Hits remaining (weight active) floorMiB targets n := by simpa using hn.2
  simp only [Hits] at hnot
  omega

/-- No member takes more than its share, so a round never hands out more than it has. -/
theorem given_le (hr : 0 ≤ remaining) (hne : active ≠ []) :
    given active targets r.targets ≤ remaining := by
  refine le_trans ?_ (sum_share_le hr active Node.configuredMiB
    (fun n hn => (h.pool.positive n hn).le) (weight_pos h.pool hne))
  apply sum_le_sum
  intro n hn
  rw [h.targets_mem n hn]
  have := le_max_left (targets n.name - share remaining (weight active) n.configuredMiB) floorMiB
  simp only [weight] at this ⊢
  omega

theorem active_length_lt (hc : r.clamped) : r.active.length < active.length := by
  obtain ⟨n,hn,hits⟩ := h.clamped_iff.1 hc
  rw [h.active_eq]
  exact length_filter_lt_length_iff_exists.2 ⟨n,hn,by simpa using hits⟩

/-- Names are distinct, so no surviving member answers to a dropped member's name. -/
theorem dropped_name {n : Node} (hn : n ∈ active) (hdp : n ∉ r.active) :
    n.name ∉ r.active.map Node.name := by
  intro hmem
  obtain ⟨m,hm,hnm⟩ := mem_map.1 hmem
  have hma : m ∈ active := h.active_sublist.subset hm
  exact hdp (inj_on_of_nodup_map h.pool.names hma hn hnm ▸ hm)

theorem dropped {n : Node} (hn : n ∈ active) (hdp : n ∉ r.active) :
    r.targets n.name = floorMiB := by
  have hits : Hits remaining (weight active) floorMiB targets n := by
    by_contra hnot
    rw [h.active_eq] at hdp
    exact hdp (mem_filter.2 ⟨hn,by simpa using hnot⟩)
  rw [h.targets_mem n hn]
  exact max_eq_right hits

theorem kept (hc : r.clamped = false) : r.active = active := by
  rw [h.active_eq]
  apply filter_eq_self.mpr
  intro n hn
  have hnot : ¬Hits remaining (weight active) floorMiB targets n := by
    intro hits
    have := h.clamped_iff.2 ⟨n,hn,hits⟩
    simp [hc] at this
  simpa using hnot

/-- What the pool gives in a round and after it, where dropped members are left alone. -/
theorem given_eq {final : Targets}
    (hdrp : ∀ n ∈ active, n ∉ r.active → final n.name = r.targets n.name) :
    given active targets final = r.distributed + given r.active r.targets final := by
  rw [given_trans active targets r.targets final,h.distributed_eq,h.active_eq]
  congr 1
  apply given_filter
  intro n hn hits
  apply hdrp n hn
  rw [h.active_eq,mem_filter,hits]
  simp

/-- A round that clamps nobody leaves less than one MiB a member undistributed. -/
theorem lt_given (hr : 0 ≤ remaining) (hne : active ≠ []) (hc : r.clamped = false) :
    remaining < given active targets r.targets + active.length := by
  have hgvn : given active targets r.targets =
      (active.map fun n => share remaining (weight active) n.configuredMiB).sum := by
    unfold given
    congr 1
    apply map_congr_left
    intro n hn
    have hkp := h.next.above n ((h.kept hc).symm ▸ hn)
    rw [h.targets_mem n hn] at hkp ⊢
    omega
  rw [hgvn]
  exact lt_sum_share_add_length hr active Node.configuredMiB
    (fun n hn => (h.pool.positive n hn).le) (weight_pos h.pool hne)

end Rounded

end

/-- The nodes of a list that a target map leaves above the floor. -/
def leftAbove (floorMiB : ℤ) (targets : Targets) (nodes : List Node) : List Node :=
  nodes.filter fun n => floorMiB < targets n.name

lemma leftAbove_length_le (floorMiB : ℤ) (targets : Targets) (nodes : List Node) :
    (leftAbove floorMiB targets nodes).length ≤ nodes.length := length_filter_le _ _

theorem leftAbove_length_mono (floorMiB : ℤ) (targets : Targets) {nodes nodes' : List Node}
    (h : nodes.Sublist nodes') :
    (leftAbove floorMiB targets nodes).length ≤ (leftAbove floorMiB targets nodes').length :=
  (h.filter _).length_le

lemma leftAbove_pool {floorMiB : ℤ} {targets : Targets} {active : List Node}
    (h : Pool floorMiB targets active) : leftAbove floorMiB targets active = active :=
  filter_eq_self.2 fun n hn => by simpa using h.above n hn

section

variable {floorMiB : ℤ}

theorem redistribute_frame (fuel : ℕ) (remaining : ℤ) (active : List Node) (targets : Targets)
    (hp : Pool floorMiB targets active) {name : String} (h : name ∉ active.map Node.name) :
    redistribute floorMiB fuel remaining active targets name = targets name := by
  induction fuel generalizing remaining active targets with
  | zero => rfl
  | succ fuel ih =>
    have hrnd := rounded_round remaining hp
    simp only [redistribute]
    split_ifs
    · rw [ih _ _ _ hrnd.next fun hm => h ((hrnd.active_sublist.map _).subset hm),
        hrnd.targets_frame name h]
    · exact hrnd.targets_frame name h
    · rfl

theorem redistribute_dropped (fuel : ℕ) {remaining : ℤ} {active : List Node} {targets : Targets}
    {r : Round} (h : Rounded floorMiB remaining targets active r) (n : Node) (hn : n ∈ active)
    (hdp : n ∉ r.active) :
    redistribute floorMiB fuel (remaining-r.distributed) r.active r.targets n.name =
      r.targets n.name :=
  redistribute_frame _ _ _ _ h.next (h.dropped_name hn hdp)

theorem redistribute_bounds (fuel : ℕ) (remaining : ℤ) (active : List Node) (targets : Targets)
    (hp : Pool floorMiB targets active) {n : Node} (hn : n ∈ active) :
    floorMiB ≤ redistribute floorMiB fuel remaining active targets n.name ∧
    redistribute floorMiB fuel remaining active targets n.name ≤ targets n.name := by
  induction fuel generalizing remaining active targets with
  | zero => exact ⟨(hp.above n hn).le,le_rfl⟩
  | succ fuel ih =>
    have hrnd := rounded_round remaining hp
    simp only [redistribute]
    split_ifs with hrun hc
    · have hbds := hrnd.bounds hrun.1.le hn
      by_cases hkp : n ∈ (round floorMiB remaining targets active).active
      · have hrs := ih (remaining - (round floorMiB remaining targets active).distributed)
          _ _ hrnd.next hkp
        exact ⟨hrs.1,hrs.2.trans hbds.2⟩
      · rw [redistribute_dropped fuel hrnd n hn hkp]
        exact hbds
    · exact hrnd.bounds hrun.1.le hn
    · exact ⟨(hp.above n hn).le,le_rfl⟩

/-- The loop ends with less than one MiB undistributed for each node above the floor, or with the
pool at the floor. -/
theorem redistribute_rest (fuel : ℕ) (remaining : ℤ) (active : List Node) (targets : Targets)
    (hp : Pool floorMiB targets active) (hfuel : active.length ≤ fuel) :
    let final := redistribute floorMiB fuel remaining active targets
    remaining < given active targets final + (leftAbove floorMiB final active).length ∨
      ∀ n ∈ active, final n.name = floorMiB := by
  induction fuel generalizing remaining active targets with
  | zero =>
    have hnil : active = [] := length_eq_zero_iff.1 (by omega)
    subst hnil
    exact .inr (by simp)
  | succ fuel ih =>
    have hrnd := rounded_round remaining hp
    simp only [redistribute]
    split_ifs with hrun hc
    · have hlt := hrnd.active_length_lt hc
      have hdrp := redistribute_dropped fuel hrnd
      have hgvn := hrnd.given_eq hdrp
      rcases ih (remaining-(round floorMiB remaining targets active).distributed) _ _
        hrnd.next (by omega) with hrs | hall
      · left
        generalize redistribute floorMiB fuel _ _ _ = final at hrs hgvn ⊢
        have hlf := leftAbove_length_mono floorMiB final hrnd.active_sublist
        omega
      · right
        intro n hn
        by_cases hkp : n ∈ (round floorMiB remaining targets active).active
        · exact hall n hkp
        · rw [hdrp n hn hkp,hrnd.dropped hn hkp]
    · left
      have hc : (round floorMiB remaining targets active).clamped = false := by simpa using hc
      have hpool := hrnd.next
      rw [hrnd.kept hc] at hpool
      rw [leftAbove_pool hpool]
      exact hrnd.lt_given hrun.1.le hrun.2 hc
    · by_cases hnil : active = []
      · exact .inr (by simp [hnil])
      · left
        have hpos := length_pos_of_ne_nil hnil
        rw [given_self,leftAbove_pool hp]
        simp only [hnil,ne_eq,not_false_eq_true,and_true] at hrun
        omega

theorem redistribute_given_le (fuel : ℕ) (remaining : ℤ) (active : List Node) (targets : Targets)
    (hp : Pool floorMiB targets active) :
    given active targets (redistribute floorMiB fuel remaining active targets) ≤
      max remaining 0 := by
  induction fuel generalizing remaining active targets with
  | zero => simp [redistribute,given_self]
  | succ fuel ih =>
    have hrnd := rounded_round remaining hp
    simp only [redistribute]
    split_ifs with hrun hc
    · have hle := hrnd.given_le hrun.1.le hrun.2
      have hrs := ih (remaining-(round floorMiB remaining targets active).distributed) _ _ hrnd.next
      rw [hrnd.given_eq (redistribute_dropped fuel hrnd)]
      rw [← hrnd.distributed_eq] at hle
      omega
    · exact (hrnd.given_le hrun.1.le hrun.2).trans (le_max_left _ _)
    · simp [given_self]

end

section

variable {nodes : List Node} {deficitMiB floorMiB : ℤ}

theorem foldl_configured_frame (nodes : List Node) (targets : Targets) {name : String}
    (h : name ∉ nodes.map Node.name) :
    nodes.foldl (fun targets n => Function.update targets n.name n.configuredMiB) targets name =
      targets name := by
  induction nodes generalizing targets with
  | nil => rfl
  | cons m nodes ih =>
    simp only [map_cons,mem_cons,not_or] at h
    rw [foldl_cons,ih _ h.2,Function.update_of_ne h.1]

theorem configuredTargets_mem (hnms : (nodes.map Node.name).Nodup) {n : Node}
    (hn : n ∈ nodes) : configuredTargets nodes n.name = n.configuredMiB := by
  unfold configuredTargets
  generalize (fun _ : String => (0 : ℤ)) = targets
  induction nodes generalizing targets with
  | nil => simp at hn
  | cons m nodes ih =>
    rw [map_cons,nodup_cons] at hnms
    rw [foldl_cons]
    rcases mem_cons.1 hn with rfl | hn
    · rw [foldl_configured_frame _ _ hnms.1,Function.update_self]
    · exact ih hnms.2 hn _

lemma activePool_perm (nodes : List Node) (floorMiB : ℤ) :
    (activePool nodes floorMiB).Perm (nodes.filter fun n => floorMiB < n.configuredMiB) :=
  perm_insertionSort _ _

theorem mem_activePool {n : Node} :
    n ∈ activePool nodes floorMiB ↔ n ∈ nodes ∧ floorMiB < n.configuredMiB := by
  rw [(activePool_perm nodes floorMiB).mem_iff]
  simp

/-- The nodes that can give memory up have a size to share it out by. -/
def Sized (floorMiB : ℤ) (nodes : List Node) : Prop :=
  ∀ n ∈ nodes, floorMiB < n.configuredMiB → 0 < n.configuredMiB

lemma sized_of_nonneg (hflr : 0 ≤ floorMiB) : Sized floorMiB nodes :=
  fun _ _ habv => hflr.trans_lt habv

section

variable (hnms : (nodes.map Node.name).Nodup)
include hnms

theorem activePool_pool (hszd : Sized floorMiB nodes) :
    Pool floorMiB (configuredTargets nodes) (activePool nodes floorMiB) where
  names := ((activePool_perm nodes floorMiB).map _).nodup_iff.mpr
    (hnms.sublist (filter_sublist.map _))
  above n hn := by
    obtain ⟨hn,habv⟩ := mem_activePool.1 hn
    rwa [configuredTargets_mem hnms hn]
  positive n hn := by
    obtain ⟨hn,habv⟩ := mem_activePool.1 hn
    exact hszd n hn habv

/-- Distinct names: a node outside the pool does not share its name with a member. -/
theorem name_not_mem_activePool {n : Node}
    (hn : n ∈ nodes) (hout : n ∉ activePool nodes floorMiB) :
    n.name ∉ (activePool nodes floorMiB).map Node.name := by
  intro hmem
  obtain ⟨m,hm,hnm⟩ := mem_map.1 hmem
  exact hout (inj_on_of_nodup_map hnms (mem_activePool.1 hm).1 hn hnm ▸ hm)

theorem planTargets_below (hszd : Sized floorMiB nodes)
    {n : Node} (hn : n ∈ nodes) (hblw : n.configuredMiB ≤ floorMiB) :
    planTargets nodes deficitMiB floorMiB n.name = n.configuredMiB := by
  unfold planTargets
  split_ifs
  · exact configuredTargets_mem hnms hn
  · have hout : n ∉ activePool nodes floorMiB := fun h => by
      have := (mem_activePool.1 h).2
      omega
    simp only
    rw [redistribute_frame _ _ _ _ (activePool_pool hnms hszd)
      (name_not_mem_activePool hnms hn hout),configuredTargets_mem hnms hn]

/-- A target lies between the floor, or a smaller configured size, and the configured size. -/
theorem planTargets_bounds (hszd : Sized floorMiB nodes)
    {n : Node} (hn : n ∈ nodes) :
    min n.configuredMiB floorMiB ≤ planTargets nodes deficitMiB floorMiB n.name ∧
    planTargets nodes deficitMiB floorMiB n.name ≤ n.configuredMiB := by
  by_cases hblw : n.configuredMiB ≤ floorMiB
  · rw [planTargets_below hnms hszd hn hblw]
    exact ⟨min_le_left _ _,le_rfl⟩
  · unfold planTargets
    split_ifs
    · rw [configuredTargets_mem hnms hn]
      exact ⟨min_le_left _ _,le_rfl⟩
    · have h := redistribute_bounds (activePool nodes floorMiB).length deficitMiB _ _
        (activePool_pool hnms hszd) (mem_activePool.2 ⟨hn,not_le.1 hblw⟩)
      rw [configuredTargets_mem hnms hn] at h
      exact ⟨(min_le_right _ _).trans h.1,h.2⟩

end

/-- Memory the nodes have given up of their configured sizes. -/
def reclaimed (nodes : List Node) (targets : Targets) : ℤ :=
  (nodes.map fun n => n.configuredMiB - targets n.name).sum

/-- Memory the nodes could give up at most. -/
def reclaimable (nodes : List Node) (floorMiB : ℤ) : ℤ :=
  (nodes.map fun n => max 0 (n.configuredMiB-floorMiB)).sum

section

variable (hnms : (nodes.map Node.name).Nodup)
include hnms

theorem reclaimed_planTargets (hszd : Sized floorMiB nodes) :
    reclaimed nodes (planTargets nodes deficitMiB floorMiB) =
      given (activePool nodes floorMiB) (configuredTargets nodes)
        (planTargets nodes deficitMiB floorMiB) := by
  have hgvn : reclaimed nodes (planTargets nodes deficitMiB floorMiB) =
      given nodes (configuredTargets nodes) (planTargets nodes deficitMiB floorMiB) := by
    unfold reclaimed given
    congr 1
    apply map_congr_left
    intro n hn
    rw [configuredTargets_mem hnms hn]
  rw [hgvn]
  refine (given_filter (p := fun n => decide (floorMiB < n.configuredMiB)) ?_).trans ?_
  · intro n hn hblw
    rw [planTargets_below hnms hszd hn (by simpa using hblw),configuredTargets_mem hnms hn]
  · exact (((activePool_perm nodes floorMiB).map _).sum_eq).symm

theorem reclaimed_planTargets_le (hszd : Sized floorMiB nodes) :
    reclaimed nodes (planTargets nodes deficitMiB floorMiB) ≤ max deficitMiB 0 := by
  rw [reclaimed_planTargets hnms hszd]
  unfold planTargets
  split_ifs
  · rw [given_self]
    exact le_max_right _ _
  · exact redistribute_given_le _ _ _ _ (activePool_pool hnms hszd)

/-- The plan leaves less than one MiB for each node above the floor, or every node at the floor. -/
theorem planTargets_rest (hszd : Sized floorMiB nodes)
    (hdef : 0 < deficitMiB) :
    let targets := planTargets nodes deficitMiB floorMiB
    deficitMiB < reclaimed nodes targets + (leftAbove floorMiB targets nodes).length ∨
      ∀ n ∈ nodes, floorMiB < n.configuredMiB → targets n.name = floorMiB := by
  intro targets
  have hpn : targets = redistribute floorMiB (activePool nodes floorMiB).length deficitMiB
      (activePool nodes floorMiB) (configuredTargets nodes) := by
    simp [targets,planTargets,not_le.2 hdef]
  have hrs := redistribute_rest _ deficitMiB _ _ (activePool_pool hnms hszd) le_rfl
  rw [← hpn] at hrs
  rcases hrs with hlt | hall
  · left
    have hlf : (leftAbove floorMiB targets (activePool nodes floorMiB)).length ≤
        (leftAbove floorMiB targets nodes).length := by
      have hpe := (activePool_perm nodes floorMiB).filter
        fun n => decide (floorMiB < targets n.name)
      exact hpe.length_eq.trans_le (leftAbove_length_mono floorMiB targets filter_sublist)
    have hgvn : reclaimed nodes targets =
        given (activePool nodes floorMiB) (configuredTargets nodes) targets :=
      reclaimed_planTargets hnms hszd
    omega
  · right
    intro n hn habv
    exact hall n (mem_activePool.2 ⟨hn,habv⟩)

theorem reclaimed_eq_reclaimable (hszd : Sized floorMiB nodes)
    (hall : ∀ n ∈ nodes, floorMiB < n.configuredMiB →
      planTargets nodes deficitMiB floorMiB n.name = floorMiB) :
    reclaimed nodes (planTargets nodes deficitMiB floorMiB) = reclaimable nodes floorMiB := by
  unfold reclaimed reclaimable
  congr 1
  apply map_congr_left
  intro n hn
  by_cases hblw : n.configuredMiB ≤ floorMiB
  · rw [planTargets_below hnms hszd hn hblw]
    omega
  · rw [hall n hn (by omega)]
    omega

/-- The plan reclaims the deficit or everything above the floor, less the residue of the integer
split. -/
theorem le_reclaimed_planTargets (hszd : Sized floorMiB nodes)
    (hdef : 0 < deficitMiB) (hne : nodes ≠ []) :
    min deficitMiB (reclaimable nodes floorMiB) - (nodes.length-1) ≤
      reclaimed nodes (planTargets nodes deficitMiB floorMiB) := by
  have hpos := length_pos_of_ne_nil hne
  rcases planTargets_rest hnms hszd hdef with hlt | hall
  · have := leftAbove_length_le floorMiB (planTargets nodes deficitMiB floorMiB) nodes
    omega
  · have heq := reclaimed_eq_reclaimable hnms hszd hall
    omega

end

end

end TalosBox.Balloon
