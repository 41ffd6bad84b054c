import TalosBox.KeyedFold
import TalosBox.MapLoops
import TalosBox.ReservationTable

/-! The helper's copy of every user's reservations, one partition a uid, in memory and in a file. A
push replaces one partition, after the union was checked. -/
namespace TalosBox.HelperState

open KeyedFold MapLoops
open Reservations (Node Cluster Parsers ReservationError newReservationTable Valid)

abbrev UID := Fin (2^32)

structure SyncedNode where
  name : String
  mac : String
  ip : String
  deriving DecidableEq

structure SyncedCluster where
  name : String
  subnetIndex : ℤ
  nodes : List SyncedNode
  deriving DecidableEq

abbrev Partitions := Map UID (List SyncedCluster)

/-- The decoded file: the partitions under the decimal form of their uids. -/
abbrev SyncedState := Map String (List SyncedCluster)

def formatUint (owner : UID) : String := Nat.repr owner.val

/-- `ParseUint` in base 10 for 32 bits. -/
def parseUint (key : String) : Option UID :=
  if key.toList ≠ [] ∧ key.toList.all Char.isDigit then
    if h : Nat.ofDigitChars 10 key.toList 0 < 2^32 then some ⟨Nat.ofDigitChars 10 key.toList 0,h⟩
    else none
  else none

@[simp] theorem parseUint_formatUint (owner : UID) : parseUint (formatUint owner) = some owner := by
  have hdgs : (formatUint owner).toList = Nat.toDigits 10 owner.val := Nat.toList_repr
  have hall : (Nat.toDigits 10 owner.val).all Char.isDigit :=
    List.all_eq_true.2 fun c hc => Nat.isDigit_of_mem_toDigits (by decide) (by decide) hc
  simp only [parseUint,hdgs,hall,Nat.ofDigitChars_ten_toDigits]
  rw [if_pos ⟨Nat.toDigits_ne_nil,trivial⟩,dif_pos owner.isLt]

theorem formatUint_injective : Function.Injective formatUint := by
  intro u v h
  have := congrArg parseUint h
  simpa using this

def encodeOwners (order : Order UID) (partitions : Partitions) : SyncedState :=
  collect (fun owner => some (formatUint owner)) (fun owner => (partitions.lookup owner).getD [])
    (order partitions.keys).1

/-- Owners that are no uids are dropped. -/
def decodeOwners (order : Order String) (stored : SyncedState) : Partitions :=
  collect parseUint (fun key => (stored.lookup key).getD []) (order stored.keys).1

theorem lookup_encodeOwners (order : Order UID) (partitions : Partitions) (owner : UID) :
    (encodeOwners order partitions).lookup (formatUint owner) = partitions.lookup owner := by
  cases hl : partitions.lookup owner with
  | none =>
    refine lookup_collect_of_ne fun u hu heq => ?_
    obtain rfl := formatUint_injective (Option.some.inj heq)
    simp [order.mem_keys,hl] at hu
  | some synced =>
    have hmem : owner ∈ (order partitions.keys).1 := order.mem_keys.2 (by simp [hl])
    have hvl : (encodeOwners order partitions).lookup (formatUint owner) =
        some ((partitions.lookup owner).getD []) :=
      lookup_collect hmem rfl fun u _ heq => formatUint_injective (Option.some.inj heq)
    rw [hvl,hl]
    rfl

variable {partitions : Partitions}

theorem mem_encodeOwners {order : Order UID} {key : String}
    (h : key ∈ encodeOwners order partitions) :
    ∃ owner ∈ partitions, key = formatUint owner := by
  by_contra hno
  have hlk : (encodeOwners order partitions).lookup key = none := by
    refine lookup_collect_of_ne fun u hu heq => hno ⟨u,?_,(Option.some.inj heq).symm⟩
    rwa [Order.mem,Finmap.mem_keys] at hu
  exact Finmap.lookup_eq_none.1 hlk h

/-- Whatever the orders of the two loops, what is read is what was written. -/
theorem decodeOwners_encodeOwners (order : Order UID) (order' : Order String)
    (partitions : Partitions) :
    decodeOwners order' (encodeOwners order partitions) = partitions := by
  refine Finmap.ext_lookup fun owner => ?_
  have hks : ∀ key ∈ (order' (encodeOwners order partitions).keys).1,
      ∃ u ∈ partitions, key = formatUint u := by
    intro key hkey
    rw [Order.mem,Finmap.mem_keys] at hkey
    exact mem_encodeOwners hkey
  cases hl : partitions.lookup owner with
  | none =>
    refine lookup_collect_of_ne fun key hkey heq => ?_
    obtain ⟨u,hu,rfl⟩ := hks key hkey
    obtain rfl : u = owner := by simpa using heq
    rw [← Finmap.lookup_isSome,hl] at hu
    simp at hu
  | some synced =>
    have hsr := lookup_encodeOwners order partitions owner
    have hmem : formatUint owner ∈ (order' (encodeOwners order partitions).keys).1 :=
      order'.mem_keys.2 (by simp [hsr,hl])
    rw [decodeOwners,lookup_collect hmem (parseUint_formatUint owner)]
    · simp [hsr,hl]
    · intro key hkey heq
      obtain ⟨u,-,rfl⟩ := hks key hkey
      rw [parseUint_formatUint,Option.some.injEq] at heq
      rw [heq]

inductive UnionError
  | partition (owner : UID) (cause : ReservationError)
  | name (cluster : String) (previous owner : UID)
  | table (cause : ReservationError)
  deriving DecidableEq

def SyncedCluster.convert (item : SyncedCluster) : Cluster :=
  ⟨item.name,item.subnetIndex,item.nodes.map fun node => ⟨node.name,node.mac,node.ip⟩⟩

section

variable (lib : Parsers)

def syncedClusters (input : List SyncedCluster) : Except ReservationError (List Cluster) :=
  match newReservationTable lib (input.map SyncedCluster.convert) with
  | .error e => .error e
  | .ok _ => .ok (input.map SyncedCluster.convert)

/-- The names of an owner's clusters; a name that is another owner's is refused. -/
def claim (owner : UID) : (String → Option UID) → List Cluster → Except UnionError (String → Option UID)
  | claimed,[] => .ok claimed
  | claimed,item::items =>
    match claimed item.name with
    | some previous =>
      if previous ≠ owner then .error (.name item.name previous owner)
      else claim owner (Function.update claimed item.name (some owner)) items
    | none => claim owner (Function.update claimed item.name (some owner)) items

def unionOwners (partitions : Partitions) :
    List UID → (String → Option UID) → List Cluster → Except UnionError (List Cluster)
  | [],_,union => .ok union
  | owner::owners,claimed,union =>
    match syncedClusters lib ((partitions.lookup owner).getD []) with
    | .error e => .error (.partition owner e)
    | .ok clusters =>
      match claim owner claimed clusters with
      | .error e => .error e
      | .ok claimed => unionOwners partitions owners claimed (union++clusters)

def unionClusters (partitions : Partitions) : Except UnionError (List Cluster) :=
  match unionOwners lib partitions (partitions.keys.sort (· ≤ ·)) (fun _ => none) [] with
  | .error e => .error e
  | .ok union =>
    match newReservationTable lib union with
    | .error e => .error (.table e)
    | .ok _ => .ok union

end

/-- An owner's clusters. -/
def clustersOf (partitions : Partitions) (owner : UID) : List Cluster :=
  ((partitions.lookup owner).getD []).map SyncedCluster.convert

/-- The clusters, owner by owner, form a valid table, and no name is two owners'. -/
structure Coherent (lib : Parsers) (partitions : Partitions) (union : List Cluster) : Prop where
  union_eq : union = (partitions.keys.sort (· ≤ ·)).flatMap (clustersOf partitions)
  valid : Valid lib union
  names : ∀ u v, u ≠ v → ∀ c ∈ clustersOf partitions u, ∀ d ∈ clustersOf partitions v, c.name ≠ d.name

variable {lib : Parsers}

theorem syncedClusters_eq_ok {input : List SyncedCluster} {cls : List Cluster}
    (h : syncedClusters lib input = .ok cls) : cls = input.map SyncedCluster.convert := by
  unfold syncedClusters at h
  split at h
  · cases h
  · exact (Except.ok.inj h).symm

theorem claim_eq_ok {owner : UID} {claimed claimed' : String → Option UID} {items : List Cluster}
    (h : claim owner claimed items = .ok claimed') :
    (∀ item ∈ items, claimed' item.name = some owner) ∧
      ∀ name u, claimed name = some u → claimed' name = some u := by
  induction items generalizing claimed with
  | nil =>
    cases h
    exact ⟨by simp,fun _ _ hc => hc⟩
  | cons item items ih =>
    have hrs : claim owner (Function.update claimed item.name (some owner)) items = .ok claimed' ∧
        ∀ u, claimed item.name = some u → u = owner := by
      unfold claim at h
      split at h
      · rename_i previous hprev
        split at h
        · cases h
        · rename_i hsm
          refine ⟨h,fun u hc => ?_⟩
          exact (Option.some.inj (hc.symm.trans hprev)).trans (not_not.1 hsm)
      · rename_i hno
        exact ⟨h,fun u hc => by simp [hno] at hc⟩
    obtain ⟨hclaim,hfr⟩ := hrs
    obtain ⟨hitems,hos⟩ := ih hclaim
    refine ⟨fun other hm => ?_,fun name u hc => hos name u ?_⟩
    · rcases List.mem_cons.1 hm with rfl | hm
      · exact hos _ owner (Function.update_self _ _ _)
      · exact hitems other hm
    · by_cases hnm : name = item.name
      · subst hnm
        rw [Function.update_self,hfr u hc]
      · rwa [Function.update_of_ne hnm]

/-- Every cluster of these owners is claimed by its owner. -/
def Claims (partitions : Partitions) (claimed : String → Option UID) (owners : List UID) : Prop :=
  ∀ u ∈ owners, ∀ item ∈ clustersOf partitions u, claimed item.name = some u

theorem unionOwners_eq_ok {owners done : List UID}
    {claimed : String → Option UID} {union union' : List Cluster}
    (hc : Claims partitions claimed done)
    (h : unionOwners lib partitions owners claimed union = .ok union') :
    union' = union++owners.flatMap (clustersOf partitions) ∧
      ∃ claimed', Claims partitions claimed' (done++owners) := by
  induction owners generalizing claimed union done with
  | nil =>
    cases h
    exact ⟨by simp,claimed,by simpa using hc⟩
  | cons owner owners ih =>
    unfold unionOwners at h
    split at h
    · cases h
    rename_i cls hsyn
    split at h
    · cases h
    rename_i claimed₁ hclaim
    obtain rfl : cls = clustersOf partitions owner := syncedClusters_eq_ok hsyn
    obtain ⟨hitems,hos⟩ := claim_eq_ok hclaim
    have hc₁ : Claims partitions claimed₁ (done++[owner]) := by
      intro u hu item hm
      rcases List.mem_append.1 hu with hu | hu
      · exact hos _ u (hc u hu item hm)
      · obtain rfl := List.mem_singleton.1 hu
        exact hitems item hm
    obtain ⟨hun,claimed',hc'⟩ := ih hc₁ h
    exact ⟨by rw [hun]; simp,claimed',by simpa using hc'⟩

theorem unionClusters_coherent {union : List Cluster}
    (h : unionClusters lib partitions = .ok union) : Coherent lib partitions union := by
  unfold unionClusters at h
  split at h
  · cases h
  rename_i union' hows
  split at h
  · cases h
  rename_i table htab
  cases h
  have hnob : Claims partitions (fun _ => none) [] := by simp [Claims]
  obtain ⟨hun,claimed,hc⟩ := unionOwners_eq_ok hnob hows
  refine ⟨by simpa using hun,Reservations.newReservationTable_valid htab,?_⟩
  intro u v huv c hcu d hdv hnm
  have hmem : ∀ w, ∀ item ∈ clustersOf partitions w, w ∈ partitions.keys.sort (· ≤ ·) := by
    intro w item hm
    rw [Finset.mem_sort,Finmap.mem_keys,← Finmap.lookup_isSome]
    cases hl : partitions.lookup w with
    | none => simp [clustersOf,hl] at hm
    | some synced => rfl
  have hu := hc u (by simpa using hmem u c hcu) c hcu
  have hv := hc v (by simpa using hmem v d hdv) d hdv
  rw [hnm,hv] at hu
  exact huv (Option.some.inj hu).symm

/-- The standard library's JSON encoding of the stored state. -/
structure StateCodec (Raw : Type) where
  marshal : SyncedState → Raw
  unmarshal : Raw → Option SyncedState
  unmarshal_marshal : ∀ stored, unmarshal (marshal stored) = some stored

/-- What reading the reservations file finds. -/
inductive File (Raw : Type)
  | missing
  | unreadable
  | content (raw : Raw)

structure Memory where
  partitions : Partitions
  clusters : List Cluster

def Memory.empty : Memory := ⟨∅,[]⟩

/-- The helper's state with the file behind it; without a directory it has none. -/
structure State (Raw : Type) where
  persistent : Bool
  memory : Memory
  file : File Raw

def newState {Raw : Type} (persistent : Bool) (file : File Raw) : State Raw :=
  ⟨persistent,.empty,file⟩

/-- The stages of a write that can fail. -/
inductive Stage
  | encode
  | mkdir
  | createTemp
  | write
  | close
  | chmod
  | rename
  deriving DecidableEq

inductive ReplaceError
  | invalid (cause : ReservationError)
  | collision (cause : UnionError)
  | persist (stage : Stage)
  deriving DecidableEq

section

variable {Raw : Type} (lib : Parsers) (codec : StateCodec Raw)

/-- A file that cannot be read, decoded or validated counts as empty. -/
def load (persistent : Bool) (order : Order String) (file : File Raw) : Memory :=
  if persistent then
    match file with
    | .missing => .empty
    | .unreadable => .empty
    | .content raw =>
      match codec.unmarshal raw with
      | none => .empty
      | some stored =>
        match unionClusters lib (decodeOwners order stored) with
        | .error _ => .empty
        | .ok union => ⟨decodeOwners order stored,union⟩
  else .empty

/-- The new content goes to a file of its own, which takes the old one's place at last. -/
def persist (s : State Raw) (order : Order UID) (fault : Option Stage) (partitions : Partitions) :
    File Raw × Option Stage :=
  if s.persistent then
    match fault with
    | some stage => (s.file,some stage)
    | none => (.content (codec.marshal (encodeOwners order partitions)),none)
  else (s.file,none)

def replace (s : State Raw) (owner : UID) (input : List SyncedCluster) (order : Order UID)
    (fault : Option Stage) : State Raw × Option ReplaceError :=
  match syncedClusters lib input with
  | .error e => (s,some (.invalid e))
  | .ok _ =>
    let proposed := s.memory.partitions.insert owner input
    match unionClusters lib proposed with
    | .error e => (s,some (.collision e))
    | .ok union =>
      match persist codec s order fault proposed with
      | (file,some stage) => ({ s with file := file },some (.persist stage))
      | (file,none) => (⟨s.persistent,⟨proposed,union⟩,file⟩,none)

/-- A push of one owner, or a restart of the helper. -/
inductive Op
  | replace (owner : UID) (input : List SyncedCluster) (order : Order UID) (fault : Option Stage)
  | restart (order : Order String)

def step (s : State Raw) : Op → State Raw
  | .replace owner input order fault => (replace lib codec s owner input order fault).1
  | .restart order => { s with memory := load lib codec s.persistent order s.file }

/-- The helper as it starts: a new state that loads the file it finds. -/
def start (persistent : Bool) (order : Order String) (file : File Raw) : State Raw :=
  step lib codec (newState persistent file) (.restart order)

def run (s : State Raw) (ops : List Op) : State Raw := ops.foldl (step lib codec) s

end

variable {Raw : Type} {codec : StateCodec Raw} {s : State Raw}

theorem persist_failed {order : Order UID} {fault : Option Stage}
    {file : File Raw} {stage : Stage} (h : persist codec s order fault partitions = (file,some stage)) :
    file = s.file := by
  unfold persist at h
  split at h
  · split at h
    · exact (Prod.mk.inj h).1.symm
    · cases (Prod.mk.inj h).2
  · cases (Prod.mk.inj h).2

/-- A push fails and changes nothing, or it puts the owner's partition beside the others'. -/
theorem replace_cases (lib : Parsers) (codec : StateCodec Raw) (s : State Raw) (owner : UID)
    (input : List SyncedCluster) (order : Order UID) (fault : Option Stage) :
    (∃ e, replace lib codec s owner input order fault = (s,some e)) ∨
    ∃ union, unionClusters lib (s.memory.partitions.insert owner input) = .ok union ∧
      (s.persistent → fault = none) ∧
      replace lib codec s owner input order fault =
        (⟨s.persistent,⟨s.memory.partitions.insert owner input,union⟩,
          if s.persistent then
            .content (codec.marshal (encodeOwners order (s.memory.partitions.insert owner input)))
          else s.file⟩,none) := by
  unfold replace
  split
  · exact .inl ⟨_,rfl⟩
  · dsimp only
    split
    · exact .inl ⟨_,rfl⟩
    · rename_i union hun
      split
      · rename_i file stage hpr
        obtain rfl := persist_failed hpr
        exact .inl ⟨_,rfl⟩
      · rename_i file hpr
        refine .inr ⟨union,hun,?_⟩
        unfold persist at hpr
        split at hpr
        · rename_i hp
          split at hpr
          · cases (Prod.mk.inj hpr).2
          · obtain ⟨rfl,-⟩ := Prod.mk.inj hpr
            exact ⟨fun _ => rfl,by rw [if_pos hp]⟩
        · rename_i hp
          obtain ⟨rfl,-⟩ := Prod.mk.inj hpr
          exact ⟨fun h => absurd h hp,by rw [if_neg hp]⟩

theorem unionClusters_empty (lib : Parsers) : unionClusters lib ∅ = .ok [] := by
  unfold unionClusters
  rw [Finmap.keys_empty,Finset.sort_empty]
  rfl

/-- The union in memory is that of the partitions. -/
def Memory.United (lib : Parsers) (m : Memory) : Prop := unionClusters lib m.partitions = .ok m.clusters

/-- The file loads as what is in memory. -/
def Stored (lib : Parsers) (codec : StateCodec Raw) (s : State Raw) : Prop :=
  s.persistent → ∀ order, load lib codec true order s.file = s.memory

theorem load_united (lib : Parsers) (codec : StateCodec Raw) (pers : Bool)
    (order : Order String) (file : File Raw) : (load lib codec pers order file).United lib := by
  have hemp : Memory.empty.United lib := unionClusters_empty lib
  unfold load
  split
  · split
    · exact hemp
    · exact hemp
    · split
      · exact hemp
      · split
        · exact hemp
        · assumption
  · exact hemp

/-- A file that was written loads as the partitions it was written from. -/
theorem load_marshal {union : List Cluster}
    (h : unionClusters lib partitions = .ok union) (order : Order UID) (order' : Order String) :
    load lib codec true order' (.content (codec.marshal (encodeOwners order partitions))) =
      ⟨partitions,union⟩ := by
  simp only [load,if_true,codec.unmarshal_marshal,decodeOwners_encodeOwners,h]

theorem Memory.United.step (h : s.memory.United lib) (op : Op) :
    (step lib codec s op).memory.United lib := by
  cases op with
  | replace owner input order fault =>
    show (HelperState.replace lib codec s owner input order fault).1.memory.United lib
    obtain ⟨e,heq⟩ | ⟨union,hun,-,heq⟩ := replace_cases lib codec s owner input order fault
    · rwa [heq]
    · rw [heq]
      exact hun
  | restart order => exact load_united lib codec s.persistent order s.file

theorem Stored.step (h : Stored lib codec s) (op : Op) : Stored lib codec (step lib codec s op) := by
  cases op with
  | replace owner input order fault =>
    show Stored lib codec (HelperState.replace lib codec s owner input order fault).1
    obtain ⟨e,heq⟩ | ⟨union,hun,-,heq⟩ := replace_cases lib codec s owner input order fault
    · rwa [heq]
    · rw [heq]
      intro hp order'
      rw [if_pos hp]
      exact load_marshal hun order order'
  | restart order =>
    intro hp order'
    show load lib codec true order' s.file = load lib codec s.persistent order s.file
    rw [show s.persistent from hp,h hp order,h hp order']

theorem step_persistent (lib : Parsers) (codec : StateCodec Raw) (s : State Raw) (op : Op) :
    (step lib codec s op).persistent = s.persistent := by
  cases op with
  | replace owner input order fault =>
    show (HelperState.replace lib codec s owner input order fault).1.persistent = s.persistent
    obtain ⟨e,heq⟩ | ⟨union,-,-,heq⟩ := replace_cases lib codec s owner input order fault <;> rw [heq]
  | restart order => rfl

lemma run_united (h : s.memory.United lib) (ops : List Op) :
    (run lib codec s ops).memory.United lib :=
  foldl_invariant (I := fun s : State Raw => s.memory.United lib) (fun _ op _ h => h.step op) h

lemma run_stored (h : Stored lib codec s) (ops : List Op) : Stored lib codec (run lib codec s ops) :=
  foldl_invariant (fun _ op _ h => h.step op) h

lemma run_persistent (lib : Parsers) (codec : StateCodec Raw) (s : State Raw) (ops : List Op) :
    (run lib codec s ops).persistent = s.persistent :=
  foldl_frame (fun s op _ => step_persistent lib codec s op) s

/-- Over any pushes and restarts, with any failures: the partitions live together, a push changes
its owner's partition only, and nothing if it fails, and the file loads as what is in memory, if a
file found at the start loads alike in any order. -/
theorem synced_state_sound (lib : Parsers) (codec : StateCodec Raw) (persistent : Bool)
    (order₀ : Order String) (file : File Raw) (ops : List Op) :
    let s := run lib codec (start lib codec persistent order₀ file) ops
    Coherent lib s.memory.partitions s.memory.clusters ∧
    (∀ owner input order fault,
      let (s',failure) := replace lib codec s owner input order fault
      (∀ u, u ≠ owner → s'.memory.partitions.lookup u = s.memory.partitions.lookup u) ∧
      (failure = none → s'.memory.partitions.lookup owner = some input) ∧
      (failure ≠ none → s' = s)) ∧
    (persistent = true →
      (file = .missing ∨
        ∀ order, load lib codec true order file = load lib codec true order₀ file) →
      ∀ order, load lib codec true order s.file = s.memory) := by
  intro s
  have huni : s.memory.United lib := run_united (load_united lib codec persistent order₀ file) ops
  refine ⟨unionClusters_coherent huni,fun owner input order fault => ?_,fun hp hfile => ?_⟩
  · obtain ⟨e,heq⟩ | ⟨union,-,-,heq⟩ := replace_cases lib codec s owner input order fault
    · rw [heq]
      exact ⟨fun _ _ => rfl,nofun,fun _ => rfl⟩
    · rw [heq]
      exact ⟨fun u hu => Finmap.lookup_insert_of_ne _ hu,fun _ => Finmap.lookup_insert _,
        fun h => absurd rfl h⟩
  · have hstr : Stored lib codec (start lib codec persistent order₀ file) := by
      intro _ order
      rw [hp]
      obtain rfl | hfile := hfile
      · rfl
      · exact hfile order
    have hpersi : s.persistent = true := (run_persistent lib codec _ ops).trans hp
    exact run_stored hstr ops hpersi

end TalosBox.HelperState
