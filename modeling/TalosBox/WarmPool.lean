import TalosBox.KeyedLocks
import TalosBox.Tokens
import TalosBox.StepRuns

/-! Any number of `Warm` calls at once. The goroutines are each call's starter, one per reference
and one per download; each move is one operation on a channel, a context, a wait group or a mutex.
What is parsed, cached, answered and downloaded comes with the move. -/
namespace TalosBox.WarmPool

open KeyedLocks (Locks Stage)
open Tokens (Slots)

def defaultWarmJobs : ℕ := 8
def maxWarmJobs : ℕ := 16

/-- The size `newWarmPool` gives a request. -/
def warmJobs (jobs : ℤ) : ℕ :=
  if jobs ≤ 0 then defaultWarmJobs
  else if (maxWarmJobs : ℤ) < jobs then maxWarmJobs
  else jobs.toNat

/-- A reference of a request, by its place in the list. -/
@[ext] structure RefId where
  request : ℕ
  index : ℕ
  deriving DecidableEq

/-- One pass of the loop over a reference's blobs that finds a blob to download. -/
structure Job where
  ref : RefId
  pos : ℕ
  deriving DecidableEq

/-- Where the goroutine of a reference is in `warmOne`. -/
inductive RefPC
  | fresh
  | parse
  | tagEnter (key : String)
  | tagWait (key : String)
  | tagAbort (key : String)
  /-- It inspects the cache and requests the manifests. -/
  | work
  /-- At the head of the loop over the blobs. -/
  | head
  /-- In the loop, at its current job. -/
  | body
  | join
  | publishEnter (key : String)
  | publishWait (key : String)
  | publishAbort (key : String)
  | publish (key : String)
  | publishUnlock (key : String)
  | publishLeave (key : String)
  | tagUnlock (key : String)
  | tagLeave (key : String)
  | send
  | leave
  | gone
  deriving DecidableEq

structure Ref where
  pc : RefPC
  /-- The tag lock to release on return. -/
  tag : Option String
  cacheDir : String
  blobs : List String
  seenBlobs : List String
  pos : ℕ
  /-- Whether the group has an error, its context is stopped, and the downloads waited for. -/
  failed : Bool
  stopped : Bool
  group : Finset ℕ

def Ref.fresh : Ref := ⟨.fresh,none,"",[],[],0,false,false,∅⟩

def Ref.goto (st : Ref) (pc : RefPC) : Ref := { st with pc := pc }

/-- The deferred release of the tag lock, and the result. -/
def Ref.exit (st : Ref) : Ref :=
  match st.tag with
  | some key => st.goto (.tagUnlock key)
  | none => st.goto .send

/-- The loop goes on with the next blob. -/
def Ref.next (st : Ref) : Ref := { st with pc := .head,pos := st.pos + 1 }

/-- The loop is left. -/
def Ref.break (st : Ref) : Ref := { st with pc := .join,pos := st.pos + 1 }

/-- A job is with its reference up to `dropped`, in its own goroutine from `running` on. -/
inductive JobPC
  | idle
  | enter
  | wait
  | abort
  | recheck
  | skip
  | skipped
  | wantRequest
  | wantShared
  | backOut
  | acquired
  | refuseShared
  | refuseRequest
  | drop
  | dropped
  | running
  | unlock
  | forget
  | record
  | releaseShared
  | releaseRequest
  | finish
  | ended
  deriving DecidableEq

structure JobState where
  pc : JobPC
  cacheDir : String
  blob : String
  failed : Bool

def JobState.idle : JobState := ⟨.idle,"","",false⟩

def JobState.goto (st : JobState) (pc : JobPC) : JobState := { st with pc := pc }

/-- The key of the blob's lock. -/
def JobState.key (j : JobState) : String := j.cacheDir ++ " " ++ j.blob

structure Request where
  /-- `options.Jobs`. -/
  jobs : ℤ
  size : ℕ
  cancelled : Bool
  /-- The next reference the starter comes to, and the next result the caller waits for. -/
  next : ℕ
  collected : ℕ
  refSlots : Slots ℕ
  slots : Slots Job

def newRequest (jobs : ℤ) (size : ℕ) : Request :=
  ⟨jobs,size,false,0,0,.empty (warmJobs jobs),.empty (warmJobs jobs)⟩

structure Sys where
  arrived : ℕ
  requests : ℕ → Request
  refs : RefId → Ref
  jobs : Job → JobState
  /-- `warmSlots`. -/
  shared : Slots Job
  tagLocks : Locks String RefId
  publishLocks : Locks String RefId
  blobLocks : Locks String Job

def initial : Sys where
  arrived := 0
  requests := fun _ => newRequest 0 0
  refs := fun _ => .fresh
  jobs := fun _ => .idle
  shared := .empty maxWarmJobs
  tagLocks := .empty
  publishLocks := .empty
  blobLocks := .empty

namespace Sys

def setRef (s : Sys) (id : RefId) (st : Ref) : Sys := { s with refs := Function.update s.refs id st }

def setJob (s : Sys) (j : Job) (st : JobState) : Sys :=
  { s with jobs := Function.update s.jobs j st }

def setRequest (s : Sys) (r : ℕ) (q : Request) : Sys :=
  { s with requests := Function.update s.requests r q }

def withTags (s : Sys) (l : Locks String RefId) : Sys := { s with tagLocks := l }

def withPublishes (s : Sys) (l : Locks String RefId) : Sys := { s with publishLocks := l }

def withBlobs (s : Sys) (l : Locks String Job) : Sys := { s with blobLocks := l }

def withShared (s : Sys) (slots : Slots Job) : Sys := { s with shared := slots }

/-- The context of the call is done. -/
def cancelled (s : Sys) (id : RefId) : Bool := (s.requests id.request).cancelled

/-- The context of the group is done: with the call's, or by a failed sibling. -/
def stopped (s : Sys) (id : RefId) : Bool := s.cancelled id || (s.refs id).stopped

/-- The channel of the request's slots. -/
def withSlots (s : Sys) (id : RefId) (slots : Slots Job) : Sys :=
  s.setRequest id.request { s.requests id.request with slots := slots }

end Sys

inductive RefMove
  /-- What the reference parses to: an error, a digest reference, or a tag with its lock. -/
  | parsed (outcome : Option (Option String))
  | lock
  | take
  | cancelled
  | unlock
  | forget
  /-- Complete already, or an error before the blobs. -/
  | fails
  /-- The manifest lists these blobs. -/
  | graph (cacheDir : String) (blobs : List String)
  /-- There is no manifest left to go through. -/
  | publishes (key : String)
  | blob (cached : Bool)
  /-- The downloads are over; without a key there is nothing to publish. -/
  | joined (key : Option String)
  | published
  | sent
  | left

def refStep (s : Sys) (id : RefId) (m : RefMove) : Option Sys :=
  let st := s.refs id
  match st.pc,m with
  | .parse,.parsed none => some (s.setRef id (st.goto .send))
  | .parse,.parsed (some none) => some (s.setRef id { st with pc := .work,tag := none })
  | .parse,.parsed (some (some key)) => some (s.setRef id (st.goto (.tagEnter key)))
  | .tagEnter key,.lock =>
    some ((s.setRef id (st.goto (.tagWait key))).withTags (s.tagLocks.enter id key))
  | .tagWait key,.take => (s.tagLocks.take id).map fun l =>
      (s.setRef id { st with pc := .work,tag := some key }).withTags l
  | .tagWait key,.cancelled =>
    if s.cancelled id then (s.tagLocks.giveUp id).map fun l =>
      (s.setRef id (st.goto (.tagAbort key))).withTags l
    else none
  | .tagAbort _,.forget => (s.tagLocks.forget id).map fun l =>
      (s.setRef id (st.goto .send)).withTags l
  | .work,.fails => some (s.setRef id st.exit)
  | .work,.graph cacheDir blobs =>
    some (s.setRef id { st with pc := .head,cacheDir := cacheDir,blobs := blobs })
  | .work,.publishes key => some (s.setRef id (st.goto (.publishEnter key)))
  | .head,.blob cached =>
    match st.blobs with
    | [] => some (s.setRef id (st.goto .join))
    | blob::blobs =>
      if blob ∈ st.seenBlobs then some (s.setRef id { st with blobs := blobs })
      else if cached then
        some (s.setRef id { st with blobs := blobs,seenBlobs := blob::st.seenBlobs })
      else
        let s := s.setRef id
          { st with pc := .body,blobs := blobs,seenBlobs := blob::st.seenBlobs }
        some (s.setJob ⟨id,st.pos⟩ ⟨.enter,st.cacheDir,blob,false⟩)
  | .join,.joined key =>
    if st.group = ∅ then
      let st := { st with stopped := true }
      if st.failed || s.cancelled id then some (s.setRef id st.exit)
      else match key with
        | none => some (s.setRef id st.exit)
        | some key => some (s.setRef id (st.goto (.publishEnter key)))
    else none
  | .publishEnter key,.lock =>
    some ((s.setRef id (st.goto (.publishWait key))).withPublishes (s.publishLocks.enter id key))
  | .publishWait key,.take => (s.publishLocks.take id).map fun l =>
      (s.setRef id (st.goto (.publish key))).withPublishes l
  | .publishWait key,.cancelled =>
    if s.cancelled id then (s.publishLocks.giveUp id).map fun l =>
      (s.setRef id (st.goto (.publishAbort key))).withPublishes l
    else none
  | .publishAbort _,.forget => (s.publishLocks.forget id).map fun l =>
      (s.setRef id st.exit).withPublishes l
  | .publish key,.published => some (s.setRef id (st.goto (.publishUnlock key)))
  | .publishUnlock key,.unlock => (s.publishLocks.unlock id).map fun l =>
      (s.setRef id (st.goto (.publishLeave key))).withPublishes l
  | .publishLeave _,.forget => (s.publishLocks.forget id).map fun l =>
      (s.setRef id st.exit).withPublishes l
  | .tagUnlock key,.unlock => (s.tagLocks.unlock id).map fun l =>
      (s.setRef id (st.goto (.tagLeave key))).withTags l
  | .tagLeave _,.forget => (s.tagLocks.forget id).map fun l =>
      (s.setRef id (st.goto .send)).withTags l
  | .send,.sent => some (s.setRef id (st.goto .leave))
  | .leave,.left => ((s.requests id.request).refSlots.get id.index).map fun slots =>
      (s.setRef id (st.goto .gone)).setRequest id.request
        { s.requests id.request with refSlots := slots }
  | _,_ => none

inductive JobMove
  | lock
  | take
  | cancelled
  | forget
  | cached (yes : Bool)
  | unlock
  | check
  | release
  | ends (failed : Bool)
  | record
  | done

def jobStep (s : Sys) (j : Job) (m : JobMove) : Option Sys :=
  let st := s.jobs j
  let ref := s.refs j.ref
  let slots := (s.requests j.ref.request).slots
  match st.pc,m with
  | .enter,.lock =>
    some ((s.setJob j (st.goto .wait)).withBlobs (s.blobLocks.enter j st.key))
  | .wait,.take => (s.blobLocks.take j).map fun l =>
      (s.setJob j (st.goto .recheck)).withBlobs l
  | .wait,.cancelled =>
    if s.stopped j.ref then (s.blobLocks.giveUp j).map fun l =>
      (s.setJob j (st.goto .abort)).withBlobs l
    else none
  | .abort,.forget => (s.blobLocks.forget j).map fun l =>
      ((s.setJob j (st.goto .ended)).setRef j.ref ref.break).withBlobs l
  | .recheck,.cached true => some (s.setJob j (st.goto .skip))
  | .recheck,.cached false => some (s.setJob j (st.goto .wantRequest))
  | .skip,.unlock => (s.blobLocks.unlock j).map fun l =>
      (s.setJob j (st.goto .skipped)).withBlobs l
  | .skipped,.forget => (s.blobLocks.forget j).map fun l =>
      ((s.setJob j (st.goto .ended)).setRef j.ref ref.next).withBlobs l
  | .wantRequest,.take => (slots.put j).map fun t =>
      (s.setJob j (st.goto .wantShared)).withSlots j.ref t
  | .wantRequest,.cancelled =>
    if s.stopped j.ref then some (s.setJob j (st.goto .drop)) else none
  | .wantShared,.take => (s.shared.put j).map fun t =>
      (s.setJob j (st.goto .acquired)).withShared t
  | .wantShared,.cancelled =>
    if s.stopped j.ref then some (s.setJob j (st.goto .backOut)) else none
  | .backOut,.release => (slots.get j).map fun t =>
      (s.setJob j (st.goto .drop)).withSlots j.ref t
  | .acquired,.check =>
    if ref.failed then some (s.setJob j (st.goto .refuseShared))
    else some ((s.setJob j (st.goto .running)).setRef j.ref
      { ref.next with group := insert j.pos ref.group })
  | .refuseShared,.release => (s.shared.get j).map fun t =>
      (s.setJob j (st.goto .refuseRequest)).withShared t
  | .refuseRequest,.release => (slots.get j).map fun t =>
      (s.setJob j (st.goto .drop)).withSlots j.ref t
  | .drop,.unlock => (s.blobLocks.unlock j).map fun l =>
      (s.setJob j (st.goto .dropped)).withBlobs l
  | .dropped,.forget => (s.blobLocks.forget j).map fun l =>
      ((s.setJob j (st.goto .ended)).setRef j.ref ref.break).withBlobs l
  | .running,.ends failed => some (s.setJob j { st with pc := .unlock,failed := failed })
  | .unlock,.unlock => (s.blobLocks.unlock j).map fun l =>
      (s.setJob j (st.goto .forget)).withBlobs l
  | .forget,.forget => (s.blobLocks.forget j).map fun l =>
      (s.setJob j (st.goto .record)).withBlobs l
  | .record,.record => some ((s.setJob j (st.goto .releaseShared)).setRef j.ref
      { ref with
        stopped := ref.stopped || st.failed && !ref.failed
        failed := ref.failed || st.failed })
  | .releaseShared,.release => (s.shared.get j).map fun t =>
      (s.setJob j (st.goto .releaseRequest)).withShared t
  | .releaseRequest,.release => (slots.get j).map fun t =>
      (s.setJob j (st.goto .finish)).withSlots j.ref t
  | .finish,.done => some ((s.setJob j (st.goto .ended)).setRef j.ref
      { ref with group := ref.group.erase j.pos })
  | _,_ => none

inductive Move
  | warm (jobs : ℤ) (size : ℕ)
  | cancel (r : ℕ)
  /-- The starter takes a slot for its next reference, or gives the reference up. -/
  | start (r : ℕ)
  | skip (r : ℕ)
  /-- The caller reads the next result. -/
  | collect (r : ℕ)
  | ref (id : RefId) (m : RefMove)
  | job (j : Job) (m : JobMove)

/-- Moves of the goroutines; the others are those of the manager's clients. -/
def Move.internal : Move → Bool
  | .warm _ _ => false
  | .cancel _ => false
  | _ => true

/-- The result of a reference is in its channel. -/
def RefPC.resulted : RefPC → Bool
  | .leave => true
  | .gone => true
  | _ => false

def step (s : Sys) : Move → Option Sys
  | .warm jobs size => some
      { s.setRequest s.arrived (newRequest jobs size) with arrived := s.arrived + 1 }
  | .cancel r => some (s.setRequest r { s.requests r with cancelled := true })
  | .start r =>
    let q := s.requests r
    if q.next < q.size then
      (q.refSlots.put q.next).map fun slots =>
        (s.setRef ⟨r,q.next⟩ ((s.refs ⟨r,q.next⟩).goto .parse)).setRequest r
          { q with next := q.next + 1,refSlots := slots }
    else none
  | .skip r =>
    let q := s.requests r
    if q.next < q.size ∧ q.cancelled then
      some ((s.setRef ⟨r,q.next⟩ ((s.refs ⟨r,q.next⟩).goto .gone)).setRequest r
        { q with next := q.next + 1 })
    else none
  | .collect r =>
    let q := s.requests r
    if q.collected < q.size ∧ (s.refs ⟨r,q.collected⟩).pc.resulted then
      some (s.setRequest r { q with collected := q.collected + 1 })
    else none
  | .ref id m => refStep s id m
  | .job j m => jobStep s j m

def run (s : Sys) (moves : List Move) : Option Sys := StepRuns.run step s moves

end TalosBox.WarmPool
