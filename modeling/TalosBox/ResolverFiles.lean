import TalosBox.MapLoops
import TalosBox.DnsAuthority

/-! The resolver files of the custom domains: which are planned, and what a sync makes of the
directory and of the reload it owes. -/
namespace TalosBox.Resolver

open MapLoops List
open Router (Bytes)
open Dns (ascii Lowering DomainError)

/-- What a name of the directory is: a regular file, or a link or the like with what is in it. -/
inductive Entry
  | regular (content : Bytes)
  | other (target : Bytes)
  deriving DecidableEq

/-- The directory by its names; one that is not there has none. -/
abbrev Dir := Map Bytes Entry

def marker : Bytes := ascii "# managed by talosbox"

def content (port : ℤ) : Bytes :=
  marker++ascii "\nnameserver 127.0.0.1\nport " ++ ascii (toString port)++ascii "\n"

def managed (content : Bytes) : Bool := (marker++ascii "\n").isPrefixOf content

/-- Strings are ordered byte by byte. -/
@[reducible] def byteOrder : LinearOrder Bytes :=
  .lift' (map UInt8.toNat) (map_injective_iff.2 fun _ _ => UInt8.toNat_inj.mp)

def sortStrings (names : List Bytes) : List Bytes :=
  letI := byteOrder
  names.insertionSort (· ≤ ·)

def sorted : Order Bytes := @Order.sorted _ byteOrder

/-- Whether a wanted domain's file is to be written. -/
def stale (want : Bytes) : Option Bytes → Bool
  | none => true
  | some content => managed content && content ≠ want

instance : LawfulBEq Bytes := inferInstance

def plan (customDomains : List Bytes) (observed : Map Bytes Bytes) (port : ℤ) : List Bytes × List Bytes :=
  (sortStrings (customDomains.filter fun domain => stale (content port) (observed.lookup domain)),
    (sorted observed.keys).1.filter fun name => name ∉ customDomains && (observed.lookup name).any managed)

def regular? : Option Entry → Option Bytes
  | some (.regular content) => some content
  | _ => none

/-- Not a file, or not ours. -/
def Entry.foreign : Entry → Bool
  | .regular content => !managed content
  | .other _ => true

def nonRegular : Option Entry → Bool
  | some (.other _) => true
  | _ => false

/-- The contents of the regular files. -/
def observed (dir : Dir) : Map Bytes Bytes :=
  collect (fun name => (regular? (dir.lookup name)).map fun _ => name)
    (fun name => (regular? (dir.lookup name)).getD []) (sorted dir.keys).1

/-- A write that fails may leave any content, or nothing of its own. -/
inductive Written
  | done
  | failed (left : Option Bytes)

structure Answers where
  readDir : Bool
  readFile : Bytes → Bool
  mkdirAll : Bytes → Bool
  writeFile : Bytes → Written
  remove : Bytes → Bool
  reload : Bool

def Answers.ok : Answers := ⟨true,fun _ => true,fun _ => true,fun _ => .done,fun _ => true,true⟩

inductive SyncError
  | port (port : ℤ)
  | refused (cause : DomainError)
  | notCanonical (name : Bytes)
  | readDir
  | readFile (name : Bytes)
  | notRegular (name : Bytes)
  | mkdir
  | write (name : Bytes)
  | remove (name : Bytes)
  | reload

def refuse (lib : Lowering) (name : Bytes) : Option SyncError :=
  match Dns.validate lib name true with
  | .error e => some (.refused e)
  | .ok canonical => if canonical ≠ name then some (.notCanonical name) else none

def create (port : ℤ) (a : Answers) (entries : Dir) (s : Dir × List SyncError) (name : Bytes) :
    Dir × List SyncError :=
  if nonRegular (entries.lookup name) then (s.1,s.2++[.notRegular name])
  else if !a.mkdirAll name then (s.1,s.2++[.mkdir])
  else
    match a.writeFile name with
    | .done => (s.1.insert name (.regular (content port)),s.2)
    | .failed none => (s.1,s.2++[.write name])
    | .failed (some left) => (s.1.insert name (.regular left),s.2++[.write name])

def remove (a : Answers) (s : Dir × List SyncError) (name : Bytes) : Dir × List SyncError :=
  if a.remove name then (s.1.erase name,s.2) else (s.1,s.2++[.remove name])

structure State where
  dir : Dir
  pendingHUP : Bool
  /-- A sync has changed the directory since the last successful reload. No step reads it. -/
  owed : Bool

variable (lib : Lowering)

/-- What is known before anything is written: an error, or the plan. -/
def observe (domains : List Bytes) (port : ℤ) (a : Answers) (dir : Dir) : Except SyncError (List Bytes × List Bytes) :=
  if port < 1 ∨ 65535 < port then .error (.port port)
  else
    match domains.findSome? (refuse lib) with
    | some e => .error e
    | none =>
      if !a.readDir then .error .readDir
      else
        match (sorted dir.keys).1.find? fun name => (regular? (dir.lookup name)).isSome && !a.readFile name with
        | some name => .error (.readFile name)
        | none => .ok (plan domains (observed dir) port)

def syncDomainResolvers (domains : List Bytes) (port : ℤ) (a : Answers) (s : State) : State × List SyncError :=
  match observe lib domains port a s.dir with
  | .error e => (s,[e])
  | .ok planned =>
    let pending := s.pendingHUP || planned ≠ ([],[])
    let written := planned.1.foldl (create port a s.dir) (s.dir,[])
    let done := planned.2.foldl (remove a) written
    let owed := s.owed || done.1 ≠ s.dir
    (⟨done.1,pending && !a.reload,owed && !(pending && a.reload)⟩,
      done.2++if pending && !a.reload then [.reload] else [])

/-- A sync, or someone else changes the directory. -/
inductive Move
  | sync (domains : List Bytes) (port : ℤ) (answers : Answers)
  | edit (dir : Dir)

def step (s : State) : Move → State
  | .sync domains port a => (syncDomainResolvers lib domains port a s).1
  | .edit dir => { s with dir := dir }

def run (moves : List Move) : State := moves.foldl (step lib) ⟨∅,false,false⟩

variable {lib} {domains : List Bytes} {port : ℤ} {dir : Dir} {name : Bytes}

theorem lookup_observed (dir : Dir) (name : Bytes) : (observed dir).lookup name = regular? (dir.lookup name) := by
  cases h : regular? (dir.lookup name) with
  | none =>
    refine lookup_collect_of_ne fun other _ heq => ?_
    obtain ⟨c,hoth,rfl⟩ := Option.map_eq_some_iff.1 heq
    simp [h] at hoth
  | some c =>
    have hmem : name ∈ (sorted dir.keys).1 := by
      rw [Order.mem_keys]
      cases hnm : dir.lookup name <;> simp_all [regular?]
    rw [observed,lookup_collect hmem (by simp [h]) fun other _ heq => ?_]
    · simp [h]
    · obtain ⟨-,-,rfl⟩ := Option.map_eq_some_iff.1 heq
      rfl

lemma mem_create : name ∈ (plan domains (observed dir) port).1 ↔
    name ∈ domains ∧ stale (content port) (regular? (dir.lookup name)) := by
  rw [plan,sortStrings,mem_insertionSort,mem_filter,lookup_observed]

theorem mem_remove : name ∈ (plan domains (observed dir) port).2 ↔
    name ∉ domains ∧ (regular? (dir.lookup name)).any managed := by
  rw [plan,mem_filter,Order.mem_keys,lookup_observed]
  cases regular? (dir.lookup name) <;> simp

lemma managed_content (port : ℤ) : managed (content port) := by
  simp [managed,content,ascii]

/-- What a sync is to make of a name. -/
def settled (want : Bytes) (wanted : Bool) : Option Entry → Option Entry
  | some (.other target) => some (.other target)
  | some (.regular content) =>
    if !managed content then some (.regular content) else if wanted then some (.regular want) else none
  | none => if wanted then some (.regular want) else none

theorem lookup_foldl_create (ents : Dir) (names : List Bytes) (s : Dir × List SyncError) (name : Bytes) :
    (names.foldl (create port .ok ents) s).1.lookup name =
      if name ∈ names ∧ nonRegular (ents.lookup name) = false then some (.regular (content port))
      else s.1.lookup name := by
  induction names generalizing s with
  | nil => simp
  | cons first rest ih =>
    rw [foldl_cons,ih]
    by_cases hnm : name = first
    · subst hnm
      cases h : nonRegular (ents.lookup name) <;> simp [create,Answers.ok,h]
    · simp only [mem_cons]
      cases h : nonRegular (ents.lookup first) <;> simp [create,Answers.ok,h,hnm]

theorem lookup_foldl_remove (names : List Bytes) (s : Dir × List SyncError) (name : Bytes) :
    (names.foldl (remove .ok) s).1.lookup name = if name ∈ names then none else s.1.lookup name := by
  induction names generalizing s with
  | nil => simp
  | cons first rest ih =>
    rw [foldl_cons,ih]
    by_cases hnm : name = first
    · subst hnm
      simp [remove,Answers.ok]
    · simp [remove,Answers.ok,hnm]

def Accepted (lib : Lowering) (domains : List Bytes) (port : ℤ) : Prop :=
  (1 ≤ port ∧ port ≤ 65535) ∧ ∀ name ∈ domains, Dns.validate lib name true = .ok name

theorem observe_ok (h : Accepted lib domains port) (dir : Dir) :
    observe lib domains port .ok dir = .ok (plan domains (observed dir) port) := by
  have hpo : ¬ (port < 1 ∨ 65535 < port) := by
    have := h.1
    omega
  have hrefuse : domains.findSome? (refuse lib) = none := by
    rw [findSome?_eq_none_iff]
    intro name hnm
    simp [refuse,h.2 name hnm]
  have hrd : (sorted dir.keys).1.find? (fun name => (regular? (dir.lookup name)).isSome && !Answers.ok.readFile name) =
      none := by
    simp [Answers.ok]
  rw [observe,if_neg hpo,hrefuse,hrd]
  rfl

theorem lookup_sync (h : Accepted lib domains port) (s : State) (name : Bytes) :
    (syncDomainResolvers lib domains port .ok s).1.dir.lookup name =
      settled (content port) (name ∈ domains) (s.dir.lookup name) := by
  simp only [syncDomainResolvers,observe_ok h,lookup_foldl_remove,lookup_foldl_create,mem_create,mem_remove]
  by_cases hnm : name ∈ domains
  · rcases s.dir.lookup name with _ | c | tgt
    · simp [settled,regular?,stale,nonRegular]
    · by_cases hc : c = content port
      · simp [hnm,settled,hc]
      · cases hm : managed c <;> simp [hnm,settled,regular?,stale,nonRegular,hm]
    · simp [hnm,settled,nonRegular]
  · rcases s.dir.lookup name with _ | c | tgt
    · simp [hnm,settled]
    · cases hm : managed c <;> simp [hnm,settled,regular?,hm]
    · simp [hnm,settled,regular?]

theorem owed_step {s : State} (h : s.owed → s.pendingHUP) (m : Move) :
    (step lib s m).owed → (step lib s m).pendingHUP := by
  cases m with
  | edit dir => exact h
  | sync domains port a =>
    simp only [step,syncDomainResolvers]
    split
    · exact h
    · rename_i planned _
      by_cases hpn : planned = ([],[])
      · cases hpnd : s.pendingHUP <;> simp_all
      · simp [hpn]

theorem settled_marked_iff {want c : Bytes} {wanted : Bool} {e : Option Entry} (hwa : managed want) :
    settled want wanted e = some (.regular c) ∧ managed c ↔
      wanted ∧ c = want ∧ ∀ entry, e = some entry → entry.foreign = false := by
  rcases e with _ | c' | tgt
  · grind [settled]
  · grind [settled,Entry.foreign]
  · grind [settled,Entry.foreign]

theorem plan_settled_iff {dir' : Dir}
    (h : ∀ name, dir'.lookup name = settled (content port) (name ∈ domains) (dir.lookup name)) :
    plan domains (observed dir') port = ([],[]) ↔ ∀ name ∈ domains, nonRegular (dir.lookup name) = false := by
  simp only [Prod.ext_iff,eq_nil_iff_forall_not_mem,mem_create,mem_remove,h,← forall_and]
  refine forall_congr' fun name => ?_
  by_cases hnm : name ∈ domains
  · rcases dir.lookup name with _ | c | tgt
    · simp [hnm,settled,regular?,stale,nonRegular]
    · cases hm : managed c <;> simp [hnm,settled,regular?,stale,nonRegular,hm]
    · simp [settled,regular?,stale,nonRegular]
  · rcases dir.lookup name with _ | c | tgt
    · simp [hnm,settled,regular?]
    · cases hm : managed c <;> simp [hnm,settled,regular?,hm]
    · simp [hnm,settled,regular?]

def labTest : Bytes := ascii "lab.test"

theorem accepted_labTest : Accepted Dns.asciiLowering [labTest] 15353 := by
  refine ⟨by decide,fun name hnm => ?_⟩
  rw [mem_singleton.1 hnm]
  decide

end TalosBox.Resolver
