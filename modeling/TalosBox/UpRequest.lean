import Mathlib

/-! The `up` request up to the last provisioning intent: it observes and validates, deletes storage
engines without any lock, validates again and saves cluster by cluster. Others may change the world
wherever it does not hold the operation lock. -/
open List

namespace TalosBox.Up

inductive CNI
  | none
  | cilium
  | flannel
  deriving DecidableEq

inductive CSI
  | none
  | longhorn
  | localPath
  deriving DecidableEq

structure ProvisioningIntent where
  cni : CNI
  csi : CSI
  lb : Bool
  bgp : Bool
  hubble : Bool
  disableKubeletMemoryProtection : Bool
  deriving DecidableEq

/-- A persisted cluster, with its hypervisor and domain as they take effect. -/
structure Item where
  hypervisor : String
  domain : String
  /-- `ConfigOrigin` is `OriginManaged`. -/
  managed : Bool
  nodes : List String
  intent : ProvisioningIntent
  deriving DecidableEq

/-- An empty hypervisor leaves it open; `version`: the resolved Talos version is empty or passes
`talosversion.Validate`. -/
structure Spec where
  name : String
  hypervisor : String
  domain : String
  version : Bool
  intent : ProvisioningIntent

structure World where
  /-- `cluster.List` answers. -/
  lists : Bool
  items : String → Option Item
  nodeRunning : String → String → Bool
  /-- The Kubernetes objects of a storage engine in a cluster. -/
  objects : String → CSI → List String

/-- Why an engine may not be deleted. -/
inductive RemovalError
  | volumesUnknown
  | volumesBlock (volumes : List String)
  | invalid
  deriving DecidableEq

inductive UpError
  | unreadable
  | hypervisor (name : String)
  | domain (name : String)
  | version (name : String)
  | volumesUnknown (name : String)
  | volumesUnverified (name : String)
  | volumesBlock (name : String) (volumes : List String)
  | storageChanged (name : String)
  | cniMaintenance (name : String)
  | cniImmutable (name : String)
  | lbImmutable (name : String)
  | missing (name : String)
  | removal (name : String) (cause : RemovalError)
  | engineDelete (name : String)
  | save (name : String)
  deriving DecidableEq

/-- A cluster's nodes as observed: was it running, was it in maintenance mode. -/
structure MaintenanceObservation where
  nodes : List (String × Bool × Bool)

structure StorageObservation where
  engine : CSI
  volumes : List String
  running : List (String × Bool)

/-- What the host answers in the course of one request. -/
structure Host where
  maintenance : String → Option MaintenanceObservation
  observedVolumes : String → Option (List String)
  remainingVolumes : String → Option (List String)
  validateEngine : String → Bool
  /-- `none` when every object is deleted, else how many are before it fails. -/
  deleteEngine : String → Option ℕ
  /-- `cluster.Save`, which replaces the state file in one rename. -/
  save : String → Bool

/-- What others do in front of each cluster observed, checked or deleted from, and of each time the
lock is taken. -/
structure Others where
  observe : String → World → World
  snapshot : World → World
  validate : World → World
  check : String → World → World
  delete : String → World → World
  relock : World → World

section

def checkHypervisorUnchanged (item : Item) (spec : Spec) : Except UpError Unit :=
  if spec.hypervisor = "" ∨ spec.hypervisor = item.hypervisor then .ok ()
  else .error (.hypervisor spec.name)

def checkDomainUnchanged (item : Item) (spec : Spec) : Except UpError Unit :=
  if spec.domain = item.domain then .ok () else .error (.domain spec.name)

def MaintenanceObservation.allNodesMaintenance (o : MaintenanceObservation) (item : Item)
    (nodeRunning : String → Bool) : Bool :=
  !item.nodes.isEmpty && o.nodes.length = item.nodes.length &&
    item.nodes.all fun node => (o.nodes.lookup node).any fun seen =>
      seen.2 && seen.1 == nodeRunning node

def StorageObservation.matches (o : StorageObservation) (item : Item)
    (nodeRunning : String → Bool) : Bool :=
  o.engine = item.intent.csi && o.running.length = item.nodes.length &&
    item.nodes.all fun node => o.running.lookup node == some (nodeRunning node)

/-- The one intent a request may turn a cluster's into, and whether it differs. -/
def reconcileProvisioningIntent (name : String) (current desired : ProvisioningIntent)
    (allMaintenance : Bool) (volumes : Option (List String)) :
    Except UpError (ProvisioningIntent × Bool) :=
  if current.cni = .none then
    if desired.cni = .none then .ok (current,false)
    else if !allMaintenance then .error (.cniMaintenance name)
    else .ok (desired,true)
  else if desired.cni ≠ current.cni then .error (.cniImmutable name)
  else if current.lb ∧ !desired.lb then .error (.lbImmutable name)
  else
    let cilium := current.cni = .cilium
    let next : ProvisioningIntent :=
      { current with
        csi := desired.csi
        lb := current.lb || desired.lb
        disableKubeletMemoryProtection := desired.disableKubeletMemoryProtection
        bgp := if cilium then desired.bgp else current.bgp
        hubble := if cilium then desired.hubble else current.hubble }
    if desired.csi ≠ current.csi ∧ current.csi ≠ .none then
      match volumes with
      | none => .error (.volumesUnverified name)
      | some [] => .ok (next,next ≠ current)
      | some volumes => .error (.volumesBlock name volumes)
    else .ok (next,next ≠ current)

variable (w : World) (maintenance : String → Option MaintenanceObservation)
  (storage : String → Option StorageObservation)

/-- The volumes observed for a cluster that is to change its engine. -/
def verifiedVolumes (item : Item) (spec : Spec) : Except UpError (Option (List String)) :=
  if item.intent.csi ≠ .none ∧ item.intent.csi ≠ spec.intent.csi then
    match storage spec.name with
    | some o =>
      if o.matches item (w.nodeRunning spec.name) then .ok (some o.volumes)
      else .error (.storageChanged spec.name)
    | none => .error (.storageChanged spec.name)
  else .ok none

/-- One cluster of the preflight: the state to save, if it is to be saved. -/
def preflightCluster (item : Item) (spec : Spec) : Except UpError (Option Item) := do
  checkHypervisorUnchanged item spec
  checkDomainUnchanged item spec
  let allMaintenance := item.intent.cni = .none && spec.intent.cni ≠ .none &&
    (maintenance spec.name).any fun o => o.allNodesMaintenance item (w.nodeRunning spec.name)
  let volumes ← verifiedVolumes w storage item spec
  let (intent,changed) ←
    reconcileProvisioningIntent spec.name item.intent spec.intent allMaintenance volumes
  -- a cluster named by the file is managed by it from now on
  if changed || !item.managed then
    return some { item with managed := true, intent := intent }
  return none

def preflightUp : List Spec → Except UpError (List (String × Item))
  | [] => .ok []
  | spec::specs =>
    match w.items spec.name with
    | none => preflightUp specs
    | some item => do
      let update ← preflightCluster w maintenance storage item spec
      let updates ← preflightUp specs
      return (update.map fun next => (spec.name,next)).toList++updates

/-- Only a cluster that is to be created has its version checked. -/
def validateSpecVersions : List Spec → Except UpError Unit
  | [] => .ok ()
  | spec::specs =>
    if (w.items spec.name).isNone ∧ !spec.version then .error (.version spec.name)
    else validateSpecVersions specs

/-- What both locked phases begin with. -/
def plan (specs : List Spec) : Except UpError (List (String × Item)) := do
  if !w.lists then throw .unreadable
  validateSpecVersions w specs
  preflightUp w maintenance storage specs

end

variable (specs : List Spec) (host : Host) (others : Others)

/-- The last spec of a name that asks for a hypervisor stands for it. -/
def checkHypervisors (w : World) : List Spec → Except UpError Unit
  | [] => .ok ()
  | spec::rest =>
    match w.items spec.name with
    | some item =>
      if rest.any (fun s => s.name = spec.name ∧ s.hypervisor ≠ "") then checkHypervisors w rest
      else do
        checkHypervisorUnchanged item spec
        checkHypervisors w rest
    | none => checkHypervisors w rest

def validateUpHypervisors (w : World) (specs : List Spec) : Except UpError Unit :=
  if specs.all fun spec => spec.hypervisor = "" then .ok ()
  else if !w.lists then .error .unreadable
  else checkHypervisors w specs

/-- The clusters that are to change their engine, as `observeUpStorage` loads them. -/
def storageCandidates : List Spec → World → World × List (String × Item)
  | [], w => (w,[])
  | spec::specs, w =>
    let w := others.observe spec.name w
    let rest := storageCandidates specs w
    match w.items spec.name with
    | none => rest
    | some item =>
      if item.intent.csi = .none ∨ item.intent.csi = spec.intent.csi then rest
      else (rest.1,(spec.name,item)::rest.2)

/-- The run states are those of one hold of the lock; of two clusters of one name the last counts.
-/
def observeUpStorage (w : World) :
    List (String × Item) → Except UpError (String → Option StorageObservation)
  | [] => .ok fun _ => none
  | (name,item)::candidates =>
    match host.observedVolumes name with
    | none => .error (.volumesUnknown name)
    | some volumes => do
      let rest ← observeUpStorage w candidates
      let seen := item.nodes.map fun node => (node,w.nodeRunning name node)
      return fun other => if other = name ∧ (rest other).isNone then
        some ⟨item.intent.csi,volumes,seen⟩ else rest other

/-- The engines to delete, each checked to have no volumes and to be safe to delete. -/
def storageTargets (storage : String → Option StorageObservation) :
    List Spec → World → World × Except UpError (List (String × CSI))
  | [], w => (w,.ok [])
  | spec::specs, w =>
    match storage spec.name with
    | none => storageTargets storage specs w
    | some o =>
      let w := others.check spec.name w
      match w.items spec.name with
      | none => (w,.error (.missing spec.name))
      | some item =>
        if item.intent.csi ≠ o.engine ∨ item.intent.csi = spec.intent.csi then
          storageTargets storage specs w
        else
          match host.remainingVolumes spec.name with
          | none => (w,.error (.removal spec.name .volumesUnknown))
          | some (v::volumes) => (w,.error (.removal spec.name (.volumesBlock (v::volumes))))
          | some [] =>
            if !host.validateEngine spec.name then (w,.error (.removal spec.name .invalid))
            else
              let rest := storageTargets storage specs w
              (rest.1,rest.2.map fun targets => (spec.name,item.intent.csi)::targets)

/-- A write to a cluster's storage objects or intent, with what was there before and after. -/
inductive Write
  | objects (name : String) (engine : CSI) (before after : List String)
  | intent (name : String) (before after : Option ProvisioningIntent)
  deriving DecidableEq

def Write.neutral : Write → Prop
  | objects _ _ before after => before = after
  | intent _ before after => before = after

structure Result where
  world : World
  failure : Option UpError
  writes : List Write

/-- The request changed nothing of any cluster's storage objects or intent. -/
def Result.Untouched (r : Result) : Prop := ∀ write ∈ r.writes, write.neutral

namespace World

def setObjects (w : World) (name : String) (engine : CSI) (objects : List String) : World :=
  { w with
    objects := Function.update w.objects name (Function.update (w.objects name) engine objects) }

def setItem (w : World) (name : String) (item : Item) : World :=
  { w with items := Function.update w.items name (some item) }

def intent (w : World) (name : String) : Option ProvisioningIntent := (w.items name).map Item.intent

end World

/-- The deletions one after the other, up to the first that fails. -/
def deleteEngines : List (String × CSI) → World → Result
  | [], w => ⟨w,none,[]⟩
  | (name,engine)::targets, w =>
    let w := others.delete name w
    let before := w.objects name engine
    match host.deleteEngine name with
    | some k =>
      ⟨w.setObjects name engine (before.drop k),some (.engineDelete name),
        [.objects name engine before (before.drop k)]⟩
    | none =>
      let rest := deleteEngines targets (w.setObjects name engine [])
      ⟨rest.world,rest.failure,.objects name engine before []::rest.writes⟩

def persistIntentUpdates : List (String × Item) → World → Result
  | [], w => ⟨w,none,[]⟩
  | (name,next)::updates, w =>
    if host.save name then
      let rest := persistIntentUpdates updates (w.setItem name next)
      ⟨rest.world,rest.failure,.intent name (w.intent name) (some next.intent)::rest.writes⟩
    else ⟨w,some (.save name),[]⟩

/-- Up to the deletions: what is observed, and the engines to delete in the world at hand. -/
def prepare (w : World) :
    World × Except UpError ((String → Option StorageObservation) × List (String × CSI)) :=
  match validateUpHypervisors w specs with
  | .error e => (w,.error e)
  | .ok () =>
    let candidates := storageCandidates others specs w
    let w := others.snapshot candidates.1
    match observeUpStorage host w candidates.2 with
    | .error e => (w,.error e)
    | .ok storage =>
      let w := others.validate w
      match plan w host.maintenance storage specs with
      | .error e => (w,.error e)
      | .ok _ =>
        let targets := storageTargets host others storage specs w
        (targets.1,targets.2.map fun targets => (storage,targets))

/-- The second locked phase: validated once more, the intents are saved. -/
def settle (w : World) (storage : String → Option StorageObservation) : Result :=
  match plan w host.maintenance storage specs with
  | .error e => ⟨w,some e,[]⟩
  | .ok updates => persistIntentUpdates host updates w

/-- The request as far as its first create or start. -/
def up (w : World) : Result :=
  match prepare specs host others w with
  | (w,.error e) => ⟨w,some e,[]⟩
  | (w,.ok (storage,targets)) =>
    let deleted := deleteEngines host others targets w
    if deleted.failure.isSome then deleted
    else
      let settled := settle specs host (others.relock deleted.world) storage
      ⟨settled.world,settled.failure,deleted.writes++settled.writes⟩

section

instance (write : Write) : Decidable write.neutral := by
  unfold Write.neutral
  split <;> infer_instance

/-- Up to and including the first deletion that fails, no object is there to be deleted. -/
def Bare : List (String × CSI) → World → Prop
  | [], _ => True
  | (name,engine)::targets, w =>
    let w := others.delete name w
    match host.deleteEngine name with
    | some k => k = 0 ∨ w.objects name engine = []
    | none => w.objects name engine = [] ∧ Bare targets w

/-- The world after the deletions of a request that had nothing to delete. -/
def pass (targets : List (String × CSI)) (w : World) : World :=
  targets.foldl (fun w target => others.delete target.1 w) w

/-- Up to the first save that fails, no update changes the cluster's intent. -/
def OnlyClaims : List (String × Item) → World → Prop
  | [], _ => True
  | (name,next)::updates, w => host.save name →
      w.intent name = some next.intent ∧ OnlyClaims updates (w.setItem name next)

lemma setObjects_eq_self {w : World} {name : String} {engine : CSI} {objects : List String}
    (h : w.objects name engine = objects) : w.setObjects name engine objects = w := by
  simp [World.setObjects,← h]

theorem drop_eq_self_iff {k : ℕ} {l : List String} : l = l.drop k ↔ k = 0 ∨ l = [] := by
  cases k with
  | zero => simp
  | succ k =>
    cases l with
    | nil => simp
    | cons a l =>
      simp only [reduceCtorEq,or_self,iff_false]
      intro h
      have hlen := congrArg length h
      simp only [length_cons,length_drop] at hlen
      omega

theorem deleteEngines_neutral_iff (tgts : List (String × CSI)) (w : World) :
    (deleteEngines host others tgts w).Untouched ↔ Bare host others tgts w := by
  induction tgts generalizing w with
  | nil => simp [deleteEngines,Bare,Result.Untouched]
  | cons tgt tgts ih =>
    obtain ⟨name,engine⟩ := tgt
    simp only [deleteEngines,Bare]
    cases hd : host.deleteEngine name with
    | some k => simpa [Result.Untouched,Write.neutral] using drop_eq_self_iff
    | none =>
      simp only [Result.Untouched,forall_mem_cons]
      refine and_congr_right fun hemp => ?_
      rw [setObjects_eq_self hemp]
      exact ih _

theorem deleteEngines_failure (tgts : List (String × CSI)) (w : World) :
    (deleteEngines host others tgts w).failure.isSome = false ↔
      ∀ tgt ∈ tgts, host.deleteEngine tgt.1 = none := by
  induction tgts generalizing w with
  | nil => simp [deleteEngines]
  | cons tgt tgts ih =>
    obtain ⟨name,engine⟩ := tgt
    simp only [deleteEngines,forall_mem_cons]
    cases hd : host.deleteEngine name with
    | some k => simp
    | none => simpa using ih _

theorem deleteEngines_world {tgts : List (String × CSI)} {w : World}
    (hba : Bare host others tgts w)
    (hok : ∀ tgt ∈ tgts, host.deleteEngine tgt.1 = none) :
    (deleteEngines host others tgts w).world = pass others tgts w := by
  induction tgts generalizing w with
  | nil => rfl
  | cons tgt tgts ih =>
    obtain ⟨name,engine⟩ := tgt
    have hno : host.deleteEngine name = none := hok (name,engine) (by simp)
    simp only [Bare,hno] at hba
    simp only [deleteEngines,hno]
    rw [setObjects_eq_self hba.1]
    exact ih hba.2 fun tgt ht => hok tgt (by simp [ht])

theorem persistIntentUpdates_neutral_iff (updates : List (String × Item)) (w : World) :
    (persistIntentUpdates host updates w).Untouched ↔ OnlyClaims host updates w := by
  induction updates generalizing w with
  | nil => simp [persistIntentUpdates,OnlyClaims,Result.Untouched]
  | cons update updates ih =>
    obtain ⟨name,next⟩ := update
    simp only [persistIntentUpdates,OnlyClaims]
    cases hsv : host.save name with
    | false => simp [Result.Untouched]
    | true =>
      simp only [if_true,Result.Untouched,forall_mem_cons,forall_const]
      exact and_congr_right fun _ => ih _

theorem settle_neutral_iff (w : World) (storage : String → Option StorageObservation) :
    (settle specs host w storage).Untouched ↔
      ∀ updates, plan w host.maintenance storage specs = .ok updates →
        OnlyClaims host updates w := by
  unfold settle
  cases hpn : plan w host.maintenance storage specs with
  | error e => simp [Result.Untouched]
  | ok updates => simpa using persistIntentUpdates_neutral_iff host updates w

end

/-- The request fails before it deletes an engine, or what it deleted had no objects; and what it
saved before the save that failed only marks clusters as managed by the file. -/
def LeavesAlone (w : World) : Prop :=
  ∀ w' storage targets, prepare specs host others w = (w',.ok (storage,targets)) →
    Bare host others targets w' ∧
      ((∀ target ∈ targets, host.deleteEngine target.1 = none) →
        ∀ updates, plan (others.relock (pass others targets w')) host.maintenance storage specs =
            .ok updates →
          OnlyClaims host updates (others.relock (pass others targets w')))

theorem up_untouched_iff (w : World) :
    (up specs host others w).Untouched ↔ LeavesAlone specs host others w := by
  unfold LeavesAlone up
  rcases hprep : prepare specs host others w with ⟨w',e | ⟨storage,tgts⟩⟩
  · simp [Result.Untouched]
  have hdelete := deleteEngines_neutral_iff host others tgts w'
  have hfails := deleteEngines_failure host others tgts w'
  simp only [Prod.mk.injEq,Except.ok.injEq,and_imp]
  cases hfa : (deleteEngines host others tgts w').failure.isSome with
  | true =>
    rw [hfa] at hfails
    simp only [if_true]
    rw [hdelete]
    constructor
    · rintro hba _ _ _ rfl rfl rfl
      exact ⟨hba,fun hok => absurd (hfails.2 hok) (by simp)⟩
    · exact fun h => (h w' storage tgts rfl rfl rfl).1
  | false =>
    have hok := hfails.1 hfa
    have hspl : (∀ write ∈ (deleteEngines host others tgts w').writes ++
          (settle specs host (others.relock (deleteEngines host others tgts w').world)
            storage).writes, write.neutral) ↔
        Bare host others tgts w' ∧
          (settle specs host (others.relock (deleteEngines host others tgts w').world)
            storage).Untouched := by
      rw [forall_mem_append]
      exact and_congr_left' hdelete
    refine hspl.trans ?_
    rw [settle_neutral_iff]
    constructor
    · rintro ⟨hba,hsettle⟩ _ _ _ rfl rfl rfl
      rw [deleteEngines_world host others hba hok] at hsettle
      exact ⟨hba,fun _ => hsettle⟩
    · intro h
      obtain ⟨hba,hsettle⟩ := h w' storage tgts rfl rfl rfl
      rw [deleteEngines_world host others hba hok]
      exact ⟨hba,hsettle hok⟩

section

/-- No other operation comes in between. -/
def Others.nobody : Others := ⟨fun _ => id,id,id,fun _ => id,fun _ => id,id⟩

/-- The worlds agree on every cluster's storage objects and intent. -/
def World.Same (w w' : World) : Prop :=
  w'.objects = w.objects ∧ ∀ name, w'.intent name = w.intent name

theorem storageCandidates_world (specs : List Spec) (w : World) :
    (storageCandidates .nobody specs w).1 = w := by
  induction specs with
  | nil => rfl
  | cons spec specs ih =>
    simp only [storageCandidates]
    split
    · exact ih
    · split_ifs <;> exact ih

theorem storageTargets_world (storage : String → Option StorageObservation) (specs : List Spec)
    (w : World) : (storageTargets host .nobody storage specs w).1 = w := by
  induction specs with
  | nil => rfl
  | cons spec specs ih =>
    simp only [storageTargets]
    split
    · exact ih
    · split
      · rfl
      · split
        · exact ih
        · split
          · rfl
          · rfl
          · split_ifs
            · rfl
            · exact ih

theorem prepare_world (w : World) : (prepare specs host .nobody w).1 = w := by
  have hcand := storageCandidates_world specs w
  unfold prepare
  split
  · rfl
  · simp only [hcand]
    split
    · rfl
    · split
      · rfl
      · exact storageTargets_world host _ specs _

theorem deleteEngines_same {tgts : List (String × CSI)} {w : World}
    (h : Bare host .nobody tgts w) : (deleteEngines host .nobody tgts w).world = w := by
  induction tgts with
  | nil => rfl
  | cons tgt tgts ih =>
    obtain ⟨name,engine⟩ := tgt
    simp only [Bare,Others.nobody,id_eq] at h
    simp only [deleteEngines,Others.nobody,id_eq]
    cases hd : host.deleteEngine name with
    | some k =>
      rw [hd] at h
      exact setObjects_eq_self (drop_eq_self_iff.2 h)
    | none =>
      rw [hd] at h
      simp only
      rw [setObjects_eq_self h.1]
      exact ih h.2

theorem persistIntentUpdates_same {updates : List (String × Item)} {w : World}
    (h : OnlyClaims host updates w) : w.Same (persistIntentUpdates host updates w).world := by
  induction updates generalizing w with
  | nil => exact ⟨rfl,fun _ => rfl⟩
  | cons update updates ih =>
    obtain ⟨name,next⟩ := update
    simp only [persistIntentUpdates]
    split_ifs with hsv
    · obtain ⟨hintent,hrs⟩ := h hsv
      obtain ⟨hobje,hinte⟩ := ih hrs
      refine ⟨hobje,fun other => (hinte other).trans ?_⟩
      by_cases hnm : other = name
      · rw [hnm,hintent]
        simp [World.setItem,World.intent]
      · simp [World.setItem,World.intent,hnm]
    · exact ⟨rfl,fun _ => rfl⟩

/-- `Untouched` says the same of the writes as of the world, if nobody else changes it. -/
theorem untouched_same {w : World} (h : (up specs host .nobody w).Untouched) :
    w.Same (up specs host .nobody w).world := by
  have hcond := (up_untouched_iff specs host .nobody w).1 h
  have hworld := prepare_world specs host w
  unfold up
  rcases hprep : prepare specs host .nobody w with ⟨w',e | ⟨storage,tgts⟩⟩
  · rw [hprep] at hworld
    exact hworld ▸ ⟨rfl,fun _ => rfl⟩
  rw [hprep] at hworld
  have hw : w' = w := hworld
  subst hw
  obtain ⟨hba,hclaims⟩ := hcond w' storage tgts hprep
  have hsm := deleteEngines_same host hba
  simp only
  split_ifs with hfa
  · rw [hsm]
    exact ⟨rfl,fun _ => rfl⟩
  · have hok := (deleteEngines_failure host .nobody tgts w').1 (by simpa using hfa)
    have hps := (deleteEngines_world host .nobody hba hok).symm.trans hsm
    have hclaims' := hclaims hok
    rw [hps] at hclaims'
    rw [hsm]
    show w'.Same (settle specs host w' storage).world
    unfold settle
    cases hpn : plan w' host.maintenance storage specs with
    | error e => exact ⟨rfl,fun _ => rfl⟩
    | ok updates => exact persistIntentUpdates_same host (hclaims' updates hpn)

end

/-- A cluster on Cilium with the given engine, managed by the file. -/
def ciliumItem (csi : CSI) : Item := ⟨"qemu","k8s.test",true,["cp-1"],⟨.cilium,csi,false,false,false,false⟩⟩

/-- The request for a cluster as `ciliumItem` has it. -/
def ciliumSpec (name : String) (csi : CSI) : Spec :=
  ⟨name,"qemu","k8s.test",true,⟨.cilium,csi,false,false,false,false⟩⟩

/-- Two running clusters, `a` with Longhorn and `b` without storage. -/
def twoClusters : World where
  lists := true
  items := fun name =>
    if name = "a" then some (ciliumItem .longhorn)
    else if name = "b" then some (ciliumItem .none) else none
  nodeRunning := fun _ _ => true
  objects := fun name engine => if name = "a" ∧ engine = .longhorn then ["longhorn-manager"] else []

/-- A host without volumes on which only the save of `"b"` fails. -/
def hostWithoutSave : Host :=
  ⟨fun _ => none,fun _ => some [],fun _ => some [],fun _ => true,fun _ => none,fun name => name ≠ "b"⟩

/-- Somebody stops the nodes while the engine is being deleted. -/
def stopsNodes : Others :=
  { Others.nobody with relock := fun w => { w with nodeRunning := fun _ _ => false } }

end TalosBox.Up
