import TalosBox.BalloonManager

/-! The provision-start gate: what new guests may cost a host on which guests run, and the
pre-balloon that makes room. It asks every guest for one MiB more than its share and so covers the
residue of the integer split. -/
namespace TalosBox.Provision

open Balloon List

structure Usage where
  totalBytes : ℕ
  availableBytes : ℕ
  deriving DecidableEq, Repr

def Usage.usedBytes (u : Usage) : ℕ :=
  if u.totalBytes ≤ u.availableBytes then 0 else u.totalBytes-u.availableBytes

/-- The host at admission and the memory the pending operation commits. -/
structure ProvisionStart where
  runningVMMiB : ℤ
  newVMMiB : ℤ
  hostFreeMiB : ℤ
  hostTotalMiB : ℤ
  reserveMiB : ℤ
  reclaimableMiB : ℤ
  memoryPressure : Pressure
  swap : Usage

inductive Severity
  | warn | block
  deriving DecidableEq, Repr

/-- The numbers a finding states. -/
inductive Detail
  | headroom (newVMMiB runningVMMiB projectedFreeMiB hostFreeMiB reserveMiB reclaimableMiB : ℤ)
  | swap (percentUsed : ℤ) (swap : Usage) (memoryPressure : Pressure) (runningVMMiB newVMMiB : ℤ)
  deriving DecidableEq, Repr

structure Finding where
  severity : Severity
  detail : Detail
  deriving DecidableEq, Repr

structure ProvisionStartPlan where
  findings : List Finding
  reclaimMiB : ℤ

def provisionStartSwapUsedPercent : ℤ := 80
def provisionStartSwapUsedBytes : ℕ := 4*2^30

def provisionStartShortfallMiB (i : ProvisionStart) : ℤ :=
  if i.runningVMMiB ≤ 0 ∨ i.newVMMiB ≤ 0 ∨ i.hostFreeMiB ≤ 0 then 0
  else i.reserveMiB-(i.hostFreeMiB-i.newVMMiB)

def provisionStartMemoryIsScarce (i : ProvisionStart) : Bool :=
  if i.hostFreeMiB ≤ 0 ∨ i.hostTotalMiB ≤ 0 then true else i.hostFreeMiB*2 < i.hostTotalMiB

/-- The swap rule; `percentUsed` is the source's floating-point reading. -/
def swapBlocksProvisionStart (percentUsed : Usage → ℤ) (i : ProvisionStart) : Bool :=
  if i.swap.totalBytes = 0 ∨ percentUsed i.swap < provisionStartSwapUsedPercent then false
  else if i.memoryPressure = .critical then true
  else if 0 < i.hostFreeMiB ∧ i.reserveMiB+i.newVMMiB ≤ i.hostFreeMiB then false
  else if i.memoryPressure ≠ .normal then true
  else provisionStartSwapUsedBytes ≤ i.swap.usedBytes && provisionStartMemoryIsScarce i

/-- The headroom rule: the findings it adds and the memory it wants reclaimed. -/
def assessHeadroom (i : ProvisionStart) : List Finding × ℤ :=
  if 0 < i.hostFreeMiB then
    if provisionStartShortfallMiB i ≤ 0 then ([],0)
    else if provisionStartShortfallMiB i ≤ i.reclaimableMiB then ([],provisionStartShortfallMiB i)
    else ([⟨.block,.headroom i.newVMMiB i.runningVMMiB (i.hostFreeMiB-i.newVMMiB) i.hostFreeMiB
      i.reserveMiB i.reclaimableMiB⟩],0)
  else ([],0)

def assessProvisionStart (percentUsed : Usage → ℤ) (i : ProvisionStart) : ProvisionStartPlan :=
  if i.runningVMMiB ≤ 0 ∨ i.newVMMiB ≤ 0 then ⟨[],0⟩
  else
    let (findings,reclaimMiB) := assessHeadroom i
    if swapBlocksProvisionStart percentUsed i then
      ⟨findings++[⟨.block,.swap (percentUsed i.swap) i.swap i.memoryPressure i.runningVMMiB
        i.newVMMiB⟩],reclaimMiB⟩
    else ⟨findings,reclaimMiB⟩

/-- How a reclaim fails: a guest refused, or some took nothing yet. -/
inductive ApplyError
  | refused (name : String) (targetMiB : ℤ)
  | pending (names : List String) (pendingMiB : ℤ)
  deriving DecidableEq, Repr

inductive Warning
  | finding (finding : Finding) (forced : Bool)
  | reclaimFailed (reclaimMiB runningMiB : ℤ) (error : ApplyError)
  | preBallooned (reclaimMiB runningMiB addMiB reserveMiB freeMiB : ℤ)
  deriving DecidableEq, Repr

inductive Refusal
  | findings (blocking : List Finding)
  | reclaimFailed (reclaimMiB runningMiB : ℤ) (error : ApplyError)
  deriving DecidableEq, Repr

def applyPressureFindings (findings : List Finding) (force : Bool) :
    Except Refusal (List Warning) :=
  let blocking := findings.filter fun f => f.severity = .block
  let advisory := findings.filter fun f => ¬f.severity = .block
  if blocking = [] then .ok (advisory.map (.finding · false))
  else if !force then .error (.findings blocking)
  else .ok (blocking.map (.finding · true)++advisory.map (.finding · false))

/-- What a running guest holds as far as the daemon knows. -/
def currentTargetMiB (g : Guest) : ℤ :=
  match g.currentTargetMiB with
  | some target => if 0 < target then target else g.configuredMiB
  | none => g.configuredMiB

/-- The guests a reclaim can ask, what they are worth, and the floor it keeps. -/
structure BalloonReclaim where
  names : List String
  guest : String → Guest
  availableMiB : ℤ
  floorMiB : ℤ

/-- The state of `apply`'s loop; `targets` is the daemon's ledger of accepted targets. -/
structure Applying where
  targets : Targets
  calls : List Call
  heldMiB : ℤ
  pending : List String
  pendingMiB : ℤ

def applyLoop (guest : String → Guest) (plan : Targets) :
    List String → Applying → Applying × Option ApplyError
  | [], a => (a,if a.pending = [] then none else some (.pending a.pending a.pendingMiB))
  | n::names, a =>
    let answer := ((guest n).setMemoryTargetMiB (plan n)).1
    let a := { a with calls := a.calls++[⟨n,plan n,(guest n).currentTargetMiB,answer⟩] }
    match answer with
    | .accepted => applyLoop guest plan names { a with
        targets := Function.update a.targets n (plan n)
        heldMiB := a.heldMiB+max 0 ((guest n).configuredMiB-plan n) }
    | .failed => (a,some (.refused n (plan n)))
    -- a guest whose driver is not up yet, or that is being torn down, gave nothing
    | _ => applyLoop guest plan names { a with
        pending := a.pending++[n]
        pendingMiB := a.pendingMiB+(currentTargetMiB (guest n)-plan n) }

namespace BalloonReclaim

/-- The guests at their current targets. -/
def nodes (r : BalloonReclaim) : List Node :=
  r.names.map fun n => ⟨n,currentTargetMiB (r.guest n)⟩

/-- The plan takes one MiB a guest more than the deficit. -/
def plan (r : BalloonReclaim) (deficitMiB : ℤ) : Targets :=
  planTargets r.nodes (deficitMiB+r.nodes.length) r.floorMiB

def apply (r : BalloonReclaim) (targets : Targets) (deficitMiB : ℤ) :
    Applying × Option ApplyError :=
  applyLoop r.guest (r.plan deficitMiB) r.names ⟨targets,[],0,[],0⟩

end BalloonReclaim

/-- What the gate reads of the daemon and the host; a probe that fails is `none`. -/
structure Host where
  freeMiB : Option ℤ
  totalMiB : Option ℤ
  pressure : Option (Usage × Pressure)
  percentUsed : Usage → ℤ
  /-- `TBX_BALLOON_RESERVE_MIB`, where it is set to a number. -/
  reserveSetting : Option ℤ
  /-- The configured sizes of the running nodes, where the clusters can be listed. -/
  running : Option (List ℤ)
  balloonDisabled : Bool
  names : List String
  sorted : names.Pairwise (· < ·)
  guest : String → Guest

def floorMiB : ℤ := 1024

namespace Host

lemma nodup (h : Host) : h.names.Nodup := h.sorted.imp ne_of_lt

def reserveMiB (h : Host) : ℤ :=
  match h.reserveSetting with
  | some n => if 0 < n then n else 6144
  | none => 6144

def runningVMMemoryMiB (h : Host) : ℤ := (h.running.getD []).sum

/-- An upper bound on the reclaim, from the inventory alone. -/
def reclaimCeilingMiB (h : Host) : ℤ :=
  ((h.running.getD []).map fun memoryMiB => max 0 (memoryMiB-floorMiB)).sum

def balloonReclaim (h : Host) : BalloonReclaim :=
  if h.balloonDisabled ∨ h.reclaimCeilingMiB ≤ 0 then ⟨[],h.guest,0,floorMiB⟩
  else ⟨h.names,h.guest,
    (h.names.map fun n => max 0 (currentTargetMiB (h.guest n)-floorMiB)).sum,floorMiB⟩

/-- The gate's reading before any balloon credit. -/
def provisionStart (h : Host) (addMiB : ℤ) : ProvisionStart where
  runningVMMiB := h.runningVMMemoryMiB
  newVMMiB := addMiB
  hostFreeMiB := h.freeMiB.getD 0
  hostTotalMiB := h.totalMiB.getD 0
  reserveMiB := h.reserveMiB
  reclaimableMiB := 0
  memoryPressure := (h.pressure.map Prod.snd).getD .unknown
  swap := (h.pressure.map Prod.fst).getD ⟨0,0⟩

/-- The credit is measured only on a host that is short. -/
def measuredReclaim (h : Host) (addMiB : ℤ) : BalloonReclaim :=
  if 0 < provisionStartShortfallMiB (h.provisionStart addMiB) then h.balloonReclaim
  else ⟨[],h.guest,0,0⟩

def creditedStart (h : Host) (addMiB : ℤ) : ProvisionStart :=
  { h.provisionStart addMiB with reclaimableMiB := (h.measuredReclaim addMiB).availableMiB }

def assessed (h : Host) (addMiB : ℤ) : ProvisionStartPlan :=
  assessProvisionStart h.percentUsed (h.creditedStart addMiB)

end Host

/-- The gate's answer, the ledger of targets and the requests it leaves, and the hold
it placed. -/
structure Verdict where
  result : Except Refusal (List Warning × ℤ)
  targets : Targets
  calls : List Call
  hold : Option ℤ

def Verdict.admitted (v : Verdict) : Bool := v.result.isOk

def holdBalloonReclaim (reclaimMiB : ℤ) : Option ℤ :=
  if reclaimMiB ≤ 0 then none else some reclaimMiB

def checkProvisionStart (h : Host) (addMiB : ℤ) (force : Bool) : Verdict :=
  let targets n := currentTargetMiB (h.guest n)
  let plan := h.assessed addMiB
  match applyPressureFindings plan.findings force with
  | .error refusal => ⟨.error refusal,targets,[],none⟩
  | .ok warnings =>
    if plan.reclaimMiB = 0 then ⟨.ok (warnings,0),targets,[],none⟩
    else
      match (h.measuredReclaim addMiB).apply targets plan.reclaimMiB with
      | (a,some error) =>
        if !force then
          ⟨.error (.reclaimFailed plan.reclaimMiB h.runningVMMemoryMiB error),a.targets,a.calls,none⟩
        else
          ⟨.ok (warnings++[.reclaimFailed plan.reclaimMiB h.runningVMMemoryMiB error],a.heldMiB),
            a.targets,a.calls,holdBalloonReclaim a.heldMiB⟩
      | (a,none) =>
        ⟨.ok (warnings++[.preBallooned plan.reclaimMiB h.runningVMMemoryMiB addMiB h.reserveMiB
            (h.freeMiB.getD 0)],a.heldMiB),a.targets,a.calls,holdBalloonReclaim a.heldMiB⟩

section

variable {guest : String → Guest} {plan : Targets}

/-- The loop moves a guest to its planned target or not at all. -/
theorem applyLoop_targets (names : List String) (a : Applying) (n : String) :
    (applyLoop guest plan names a).1.targets n = a.targets n ∨
      (n ∈ names ∧ (applyLoop guest plan names a).1.targets n = plan n) := by
  induction names generalizing a with
  | nil => exact .inl rfl
  | cons k names ih =>
    simp only [applyLoop]
    cases ((guest k).setMemoryTargetMiB (plan k)).1 with
    | accepted =>
      refine (ih _).elim (fun h => ?_) fun ⟨hn,h⟩ => .inr ⟨by simp [hn],h⟩
      by_cases hk : n = k
      · exact .inr ⟨by simp [hk],h.trans (by simp [hk])⟩
      · exact .inl (h.trans (by simp [hk]))
    | failed => exact .inl rfl
    | pending => exact (ih _).imp id fun ⟨hn,h⟩ => ⟨by simp [hn],h⟩
    | quiesced => exact (ih _).imp id fun ⟨hn,h⟩ => ⟨by simp [hn],h⟩

/-- A loop that ends without an error asked every guest, and each one accepted. -/
theorem applyLoop_complete (names : List String) (a : Applying)
    (h : (applyLoop guest plan names a).2 = none) :
    a.pending = [] ∧
    (∀ n, n ∈ names ∨ a.targets n = plan n →
      (applyLoop guest plan names a).1.targets n = plan n) ∧
    ∀ c ∈ (applyLoop guest plan names a).1.calls, c ∈ a.calls ∨ c.answer = .accepted := by
  induction names generalizing a with
  | nil =>
    simp only [applyLoop] at h ⊢
    exact ⟨by simpa using h,by simp,fun c hc => .inl hc⟩
  | cons k names ih =>
    simp only [applyLoop] at h ⊢
    cases hans : ((guest k).setMemoryTargetMiB (plan k)).1 with
    | accepted =>
      simp only [hans] at h ⊢
      obtain ⟨hpnd,htgs,hcl⟩ := ih _ h
      refine ⟨hpnd,fun n hn => htgs n ?_,fun c hc => ?_⟩
      · by_cases hk : n = k
        · exact .inr (by simp [hk])
        · simpa [hk] using hn
      · rcases hcl c hc with hmem | hacc
        · rcases mem_append.1 hmem with hmem | hmem
          · exact .inl hmem
          · exact .inr (by simp_all)
        · exact .inr hacc
    | failed => simp [hans] at h
    | pending =>
      simp only [hans] at h
      exact absurd (ih _ h).1 (by simp)
    | quiesced =>
      simp only [hans] at h
      exact absurd (ih _ h).1 (by simp)

end

section

variable {r : BalloonReclaim} {deficitMiB : ℤ}

lemma nodes_names (r : BalloonReclaim) : r.nodes.map Node.name = r.names := by
  simp [BalloonReclaim.nodes,Function.comp_def]

theorem plan_bounds (hnms : r.names.Nodup) (hflr : 0 ≤ r.floorMiB) {n : String}
    (hn : n ∈ r.names) :
    min (currentTargetMiB (r.guest n)) r.floorMiB ≤ r.plan deficitMiB n ∧
      r.plan deficitMiB n ≤ currentTargetMiB (r.guest n) := by
  have hnds : (r.nodes.map Node.name).Nodup := by
    rw [nodes_names]
    exact hnms
  have hmem : (⟨n,currentTargetMiB (r.guest n)⟩ : Node) ∈ r.nodes := mem_map.2 ⟨n,hn,rfl⟩
  exact planTargets_bounds hnds (sized_of_nonneg hflr) hmem

/-- One MiB more a guest covers the residue: the plan takes the whole deficit if the guests are
worth it. -/
theorem le_reclaimed_plan (hnms : r.names.Nodup) (hflr : 0 ≤ r.floorMiB)
    (hpos : 0 < deficitMiB) (hwth : deficitMiB ≤ reclaimable r.nodes r.floorMiB) :
    deficitMiB ≤ reclaimed r.nodes (r.plan deficitMiB) := by
  have hnds : (r.nodes.map Node.name).Nodup := by
    rw [nodes_names]
    exact hnms
  rcases planTargets_rest hnds (sized_of_nonneg hflr) (by omega : 0 < deficitMiB+r.nodes.length) with hlt | hall
  · have hle := leftAbove_length_le r.floorMiB (r.plan deficitMiB) r.nodes
    simp only [BalloonReclaim.plan] at hlt hle ⊢
    omega
  · exact hwth.trans (reclaimed_eq_reclaimable hnds (sized_of_nonneg hflr) hall).ge

end

theorem severity_of_applied {findings : List Finding} {warnings : List Warning}
    (hok : applyPressureFindings findings false = .ok warnings) :
    ∀ f ∈ findings, f.severity ≠ .block := by
  intro f hf hsev
  have hne : findings.filter (fun f => f.severity = .block) ≠ [] :=
    ne_nil_of_mem (mem_filter.2 ⟨hf,by simpa using hsev⟩)
  simp [applyPressureFindings,hne] at hok

theorem assessProvisionStart_headroom (percentUsed : Usage → ℤ) {i : ProvisionStart}
    (hrn : 0 < i.runningVMMiB) (hnew : 0 < i.newVMMiB) :
    (assessHeadroom i).1 ⊆ (assessProvisionStart percentUsed i).findings ∧
      (assessProvisionStart percentUsed i).reclaimMiB = (assessHeadroom i).2 := by
  simp only [assessProvisionStart]
  rw [if_neg (by omega)]
  split_ifs
  · exact ⟨subset_append_left _ _,rfl⟩
  · exact ⟨Subset.refl _,rfl⟩

/-- Unforced, a plan passes only with the headroom or guests worth the shortfall. -/
theorem assessProvisionStart_ok {percentUsed : Usage → ℤ} {i : ProvisionStart}
    (hrn : 0 < i.runningVMMiB) (hnew : 0 < i.newVMMiB) (hfr : 0 < i.hostFreeMiB)
    {warnings : List Warning}
    (hok : applyPressureFindings (assessProvisionStart percentUsed i).findings false =
      .ok warnings) :
    let plan := assessProvisionStart percentUsed i
    let shortfall := i.reserveMiB-(i.hostFreeMiB-i.newVMMiB)
    (shortfall ≤ 0 ∧ plan.reclaimMiB = 0) ∨
      (0 < shortfall ∧ shortfall ≤ i.reclaimableMiB ∧ plan.reclaimMiB = shortfall) := by
  intro plan shortfall
  have hshor : provisionStartShortfallMiB i = shortfall := by
    simp only [provisionStartShortfallMiB]
    rw [if_neg (by omega)]
  obtain ⟨hsub,hrecl⟩ := assessProvisionStart_headroom percentUsed hrn hnew
  rw [hrecl]
  simp only [assessHeadroom,hshor,if_pos hfr] at hsub ⊢
  by_cases hz : shortfall ≤ 0
  · exact .inl ⟨hz,by rw [if_pos hz]⟩
  · by_cases hwth : shortfall ≤ i.reclaimableMiB
    · exact .inr ⟨not_le.1 hz,hwth,by rw [if_neg hz,if_pos hwth]⟩
    · -- the shortfall is a blocking finding
      simp only [if_neg hz,if_neg hwth] at hsub
      exact absurd rfl (severity_of_applied hok _ (hsub mem_cons_self))

namespace Host

variable {h : Host} {addMiB : ℤ}

/-- What the guests give up from their current targets to the given ones. -/
def givenUp (h : Host) (targets : Targets) : ℤ :=
  (h.names.map fun n => currentTargetMiB (h.guest n)-targets n).sum

lemma givenUp_current (h : Host) : h.givenUp (fun n => currentTargetMiB (h.guest n)) = 0 := by
  simp [givenUp]

theorem measuredReclaim_names (h : Host) (addMiB : ℤ) :
    (h.measuredReclaim addMiB).names = [] ∨
      ((h.measuredReclaim addMiB).names = h.names ∧
        (h.measuredReclaim addMiB).floorMiB = Provision.floorMiB) := by
  simp only [measuredReclaim,balloonReclaim]
  split_ifs <;> simp

theorem measuredReclaim_nodup (h : Host) (addMiB : ℤ) : (h.measuredReclaim addMiB).names.Nodup := by
  rcases h.measuredReclaim_names addMiB with hno | ⟨hall,-⟩
  · rw [hno]
    exact nodup_nil
  · rw [hall]
    exact h.nodup

lemma measuredReclaim_floor (h : Host) (addMiB : ℤ) : 0 ≤ (h.measuredReclaim addMiB).floorMiB := by
  simp only [measuredReclaim,balloonReclaim,Provision.floorMiB]
  split_ifs <;> simp

theorem measuredReclaim_guest (h : Host) (addMiB : ℤ) :
    (h.measuredReclaim addMiB).guest = h.guest := by
  simp only [measuredReclaim,balloonReclaim]
  split_ifs <;> rfl

theorem measuredReclaim_available (h : Host) (addMiB : ℤ) :
    (h.measuredReclaim addMiB).availableMiB =
      reclaimable (h.measuredReclaim addMiB).nodes (h.measuredReclaim addMiB).floorMiB := by
  simp only [measuredReclaim,balloonReclaim]
  split_ifs <;> simp [reclaimable,BalloonReclaim.nodes,Function.comp_def]

/-- The reclaim of an admission, from the targets the guests are at. -/
def preBalloon (h : Host) (addMiB deficitMiB : ℤ) : Applying × Option ApplyError :=
  (h.measuredReclaim addMiB).apply (fun n => currentTargetMiB (h.guest n)) deficitMiB

/-- A pre-balloon within the measured worth that nobody refuses gives up the deficit. -/
theorem le_givenUp_preBalloon {deficitMiB : ℤ} (hpos : 0 < deficitMiB)
    (hwth : deficitMiB ≤ (h.measuredReclaim addMiB).availableMiB)
    (hok : (h.preBalloon addMiB deficitMiB).2 = none) :
    deficitMiB ≤ h.givenUp (h.preBalloon addMiB deficitMiB).1.targets := by
  have htgs : ∀ n ∈ (h.measuredReclaim addMiB).names,
      (h.preBalloon addMiB deficitMiB).1.targets n = (h.measuredReclaim addMiB).plan deficitMiB n :=
    fun n hn => (applyLoop_complete _ _ hok).2.1 n (.inl hn)
  rw [measuredReclaim_available] at hwth
  have hpn := le_reclaimed_plan (h.measuredReclaim_nodup addMiB) (h.measuredReclaim_floor addMiB)
    hpos hwth
  rcases h.measuredReclaim_names addMiB with hno | ⟨hall,-⟩
  · simp only [reclaimed,BalloonReclaim.nodes,hno,map_nil,sum_nil] at hpn
    omega
  · refine hpn.trans (le_of_eq ?_)
    simp only [reclaimed,BalloonReclaim.nodes,map_map,hall]
    congr 1
    apply map_congr_left
    intro n hn
    simp only [Function.comp_apply,measuredReclaim_guest]
    rw [htgs n (by rwa [hall])]

/-- A pre-balloon, complete or not, raises no target and crosses no floor. -/
theorem preBalloon_bounds (deficitMiB : ℤ) (n : String) :
    (h.preBalloon addMiB deficitMiB).1.targets n ≤ currentTargetMiB (h.guest n) ∧
      (Provision.floorMiB < currentTargetMiB (h.guest n) →
        Provision.floorMiB ≤ (h.preBalloon addMiB deficitMiB).1.targets n) := by
  have hmvd : (h.preBalloon addMiB deficitMiB).1.targets n = currentTargetMiB (h.guest n) ∨
      (n ∈ (h.measuredReclaim addMiB).names ∧ (h.preBalloon addMiB deficitMiB).1.targets n =
        (h.measuredReclaim addMiB).plan deficitMiB n) := applyLoop_targets _ _ n
  rcases hmvd with hsm | ⟨hn,hpn⟩
  · rw [hsm]
    exact ⟨le_rfl,le_of_lt⟩
  · have hbds : _ ∧ (h.measuredReclaim addMiB).plan deficitMiB n ≤ _ :=
      plan_bounds (h.measuredReclaim_nodup addMiB) (h.measuredReclaim_floor addMiB) hn
    rcases h.measuredReclaim_names addMiB with hno | ⟨-,hflr⟩
    · simp [hno] at hn
    · rw [measuredReclaim_guest,hflr] at hbds
      omega

/-- The findings let the start pass. -/
def passes (h : Host) (addMiB : ℤ) (force : Bool) : Prop :=
  ∃ warnings, applyPressureFindings (h.assessed addMiB).findings force = .ok warnings

/-- A start passes unforced with the reserve free, or with guests worth what is missing and a plan.
-/
theorem reclaim_of_passes {freeMiB : ℤ} (hfr : h.freeMiB = some freeMiB) (hpos : 0 < freeMiB)
    (hadd : 0 < addMiB) (hrn : 0 < h.runningVMMemoryMiB) (hpss : h.passes addMiB false) :
    (h.reserveMiB-(freeMiB-addMiB) ≤ 0 ∧ (h.assessed addMiB).reclaimMiB = 0) ∨
      (0 < h.reserveMiB-(freeMiB-addMiB) ∧
        h.reserveMiB-(freeMiB-addMiB) ≤ (h.measuredReclaim addMiB).availableMiB ∧
        (h.assessed addMiB).reclaimMiB = h.reserveMiB-(freeMiB-addMiB)) := by
  obtain ⟨warnings,hok⟩ := hpss
  have hmeas : (h.creditedStart addMiB).hostFreeMiB = freeMiB := by
    simp [creditedStart,provisionStart,hfr]
  have hok := assessProvisionStart_ok hrn hadd (hmeas.symm ▸ hpos) hok
  rw [hmeas] at hok
  exact hok

/-- The gate decides without asking any guest, or pre-balloons, and unforced admits only if no guest
refused. -/
theorem checkProvisionStart_cases (h : Host) (addMiB : ℤ) (force : Bool) :
    let v := checkProvisionStart h addMiB force
    let d := (h.assessed addMiB).reclaimMiB
    (v.targets = (fun n => currentTargetMiB (h.guest n)) ∧ v.calls = [] ∧
      (v.admitted → h.passes addMiB force ∧ d = 0)) ∨
    (v.targets = (h.preBalloon addMiB d).1.targets ∧ v.calls = (h.preBalloon addMiB d).1.calls ∧
      h.passes addMiB force ∧ d ≠ 0 ∧
      (v.admitted → force ∨ (h.preBalloon addMiB d).2 = none)) := by
  simp only [checkProvisionStart,passes]
  cases applyPressureFindings (h.assessed addMiB).findings force with
  | error refusal => exact .inl ⟨rfl,rfl,by simp [Verdict.admitted,Except.toBool]⟩
  | ok warnings =>
    by_cases hz : (h.assessed addMiB).reclaimMiB = 0
    · simp only [hz,↓reduceIte]
      exact .inl ⟨trivial,trivial,fun _ => ⟨⟨warnings,rfl⟩,trivial⟩⟩
    · simp only [hz,preBalloon]
      right
      cases (h.measuredReclaim addMiB).apply (fun n => currentTargetMiB (h.guest n))
        (h.assessed addMiB).reclaimMiB with
      | mk a error =>
        cases error with
        | none => exact ⟨rfl,rfl,⟨warnings,rfl⟩,hz,fun _ => .inr rfl⟩
        | some error =>
          cases force with
          | true => exact ⟨rfl,rfl,⟨warnings,rfl⟩,hz,fun _ => .inl rfl⟩
          | false =>
            exact ⟨rfl,rfl,⟨warnings,rfl⟩,hz,
              by simp [Verdict.admitted,Except.toBool]⟩

end Host

/-- With guests running, an unforced start is admitted only if the reserve stays free; no target is
raised or below the floor, and a guest that refuses its target refuses the start. -/
theorem checkProvisionStart_keeps_reserve (h : Host) {addMiB freeMiB : ℤ}
    (hfree : h.freeMiB = some freeMiB) (hpos : 0 < freeMiB) (hadd : 0 < addMiB)
    (hrunn : 0 < h.runningVMMemoryMiB) :
    let v := checkProvisionStart h addMiB false
    (v.admitted = true → h.reserveMiB ≤ freeMiB+h.givenUp v.targets-addMiB) ∧
    (∀ n, v.targets n ≤ currentTargetMiB (h.guest n) ∧
      (floorMiB < currentTargetMiB (h.guest n) → floorMiB ≤ v.targets n)) ∧
    ((∃ c ∈ v.calls, c.answer ≠ .accepted) → v.admitted = false) := by
  have hassess := Host.reclaim_of_passes hfree hpos hadd hrunn
  rcases h.checkProvisionStart_cases addMiB false with
    ⟨htgs,hcl,hadm⟩ | ⟨htgs,hcl,hpss,hne,hadm⟩
  · refine ⟨fun hv => ?_,fun n => ?_,?_⟩
    · obtain ⟨hpss,hzero⟩ := hadm hv
      rw [htgs,h.givenUp_current]
      rcases hassess hpss with ⟨hroom,-⟩ | ⟨hsh,-,hrecl⟩ <;> omega
    · rw [htgs]
      exact ⟨le_rfl,le_of_lt⟩
    · rw [hcl]
      simp
  · refine ⟨fun hv => ?_,fun n => ?_,fun ⟨c,hc,hans⟩ => ?_⟩
    · have hnone := (hadm hv).resolve_left (by simp)
      rcases hassess hpss with ⟨-,hzero⟩ | ⟨hsh,hwth,hrecl⟩
      · exact absurd hzero hne
      · rw [htgs]
        have := Host.le_givenUp_preBalloon (hrecl ▸ hsh) (hrecl ▸ hwth) hnone
        omega
    · rw [htgs]
      exact Host.preBalloon_bounds _ n
    · by_contra hv
      have hnone := (hadm (by simpa using hv)).resolve_left (by simp)
      rw [hcl] at hc
      rcases (applyLoop_complete _ _ hnone).2.2 c hc with hmem | hacc
      · simp at hmem
      · exact hans hacc

/-- Two guests give up a shortfall of 904 MiB between them. -/
def tightHost : Host where
  freeMiB := some 9336
  totalMiB := some 32768
  pressure := some (⟨8*2^30,8*2^30⟩,.normal)
  percentUsed u := u.usedBytes*100/u.totalBytes
  reserveSetting := none
  running := some [4096,4096]
  balloonDisabled := false
  names := ["demo/cp-1","demo/worker-1"]
  sorted := by decide
  guest _ := ⟨4096,4096,.snapshot 4096,0,fun _ => .accepted⟩

theorem tightHost_keeps_reserve :
    (checkProvisionStart tightHost 4096 false).admitted = true ∧
      6144 ≤ 9336+tightHost.givenUp (checkProvisionStart tightHost 4096 false).targets-4096 :=
  ⟨by decide,(checkProvisionStart_keeps_reserve tightHost rfl (by decide) (by decide)
    (by decide)).1 (by decide)⟩

/-- The same host with no guest running and 5000 MiB free. -/
def idleHost : Host :=
  { tightHost with
    freeMiB := some 5000
    running := some []
    names := []
    sorted := Pairwise.nil }

/-- With no guest running the gate asks for no headroom at all. -/
theorem idleHost_admitted_below_reserve :
    (checkProvisionStart idleHost 4096 false).admitted = true ∧
      5000+idleHost.givenUp (checkProvisionStart idleHost 4096 false).targets-4096 <
        idleHost.reserveMiB := by
  decide

end TalosBox.Provision
