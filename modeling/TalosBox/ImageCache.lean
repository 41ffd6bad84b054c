import TalosBox.FileTree
import TalosBox.Gathering

/-! The cache of disk images: the listing, meant to show what a prune would remove, and the prune,
which plans every removal before the first. -/
namespace TalosBox.ImageCache

open FileTree Gathering

abbrev Name := List Char

abbrev Path := List Name

inductive Leaf
  | file (size allocated : ℕ)
  | symlink
  | other
  deriving DecidableEq

abbrev Files := Tree Name Leaf

inductive Stat
  | missing
  /-- A component on the way is not a directory. -/
  | denied
  | found (node : Node Leaf)

/-- What the host adds to the tree under the root of the cache. -/
structure Host where
  /-- The path of the root is empty or cleans to `/`. -/
  unsafeRoot : Bool
  /-- The root is a link to the tree. -/
  linkedRoot : Bool
  /-- What lies at a path that leads through a link. -/
  lstat : Path → Stat
  stat : Path → Stat

inductive Architecture
  | amd64
  | arm64
  deriving DecidableEq

def Architecture.text : Architecture → Name
  | .amd64 => "amd64".toList
  | .arm64 => "arm64".toList

def architectures : List Architecture := [.amd64,.arm64]

structure Combination where
  schematic : Name
  version : Name
  architecture : Architecture
  deriving DecidableEq

structure Entry where
  combination : Combination
  path : Path
  size : ℕ
  allocatedSize : ℕ
  incomplete : Bool
  deriving DecidableEq

/-- The errors with the paths they name; `ε` is what the classifier fails with. -/
inductive CacheError (ε : Type)
  | unsafeRoot
  | readRoot
  | statImage (path : Path)
  | statArtifact (path : Path)
  | symlink (path : Path)
  | notDirectory (path : Path)
  | notRegular (path : Path)
  | remove (path : Path)
  | keep (e : ε)
  deriving DecidableEq

def diskRaw : Name := "disk.raw".toList

def pinMarkerName : Name := "pinned".toList

def mirror : Name := "mirror".toList

def knownDiskArtifactNames (architecture : Architecture) (includePin : Bool) : List Name :=
  [diskRaw,"metal-".toList++architecture.text ++ ".raw.xz".toList]++if includePin then [pinMarkerName] else []

/-- How the partial downloads of an architecture begin. -/
def tempPrefixes (architecture : Architecture) : List Name :=
  [".disk.raw-".toList,".metal-".toList++architecture.text ++ ".raw.xz-".toList]

structure ArtifactDir where
  path : Path
  names : List Name

def combinationDirs (versionDir : Path) (architecture : Architecture) : List ArtifactDir :=
  ⟨versionDir++[architecture.text],knownDiskArtifactNames architecture true⟩ ::
    match architecture with
    | .arm64 => [⟨versionDir,knownDiskArtifactNames .arm64 false⟩]
    | .amd64 => []

variable {ε : Type} (host : Host) (t : Files)

/-- `os.Lstat` of an entry of a directory. -/
def lstat (dir : Path) (name : Name) : Stat :=
  match t.lookup (dir++[name]) with
  | some node => .found node
  | none =>
    match t.lookup dir with
    | some (.leaf .symlink) => host.lstat (dir++[name])
    | some (.leaf _) => .denied
    | _ => .missing

def stat (dir : Path) (name : Name) : Stat :=
  match lstat host t dir name with
  | .found (.leaf .symlink) => host.stat (dir++[name])
  | s => s

def cacheEntry (c : Combination) (dir : Path) : Except (CacheError ε) (Option Entry) :=
  match stat host t dir diskRaw with
  | .missing => .ok none
  | .denied => .error (.statImage (dir++[diskRaw]))
  | .found (.leaf (.file size allocated)) =>
    if size = 0 then .ok none else .ok (some ⟨c,dir++[diskRaw],size,allocated,false⟩)
  | .found _ => .ok none

structure Stats where
  size : ℕ
  allocated : ℕ
  present : Bool

def artifactStats (dir : Path) : List Name → Except (CacheError ε) Stats
  | [] => .ok ⟨0,0,false⟩
  | name::names =>
    match lstat host t dir name with
    | .denied => .error (.statArtifact (dir++[name]))
    | .found (.leaf (.file size allocated)) =>
      match artifactStats dir names with
      | .error e => .error e
      | .ok s => .ok ⟨size+s.size,allocated+s.allocated,true⟩
    | _ => artifactStats dir names

/-- The first directory with an image that can be booted. -/
def readyEntry (c : Combination) : List ArtifactDir → Except (CacheError ε) (Option Entry)
  | [] => .ok none
  | dir::dirs =>
    match cacheEntry host t c dir.path with
    | .error e => .error e
    | .ok (some entry) => .ok (some entry)
    | .ok none => readyEntry c dirs

/-- What is left of a combination without one, under the first directory that has something. -/
def leftovers (c : Combination) : List ArtifactDir → Except (CacheError ε) (Option Entry)
  | [] => .ok none
  | dir::dirs =>
    match artifactStats host t dir.path dir.names with
    | .error e => .error e
    | .ok s =>
      match leftovers c dirs with
      | .error e => .error e
      | .ok rest =>
        if s.present then
          .ok (some ⟨c,dir.path,s.size+(rest.elim 0 (·.size)),s.allocated+(rest.elim 0 (·.allocatedSize)),true⟩)
        else .ok rest

def combinationEntry (c : Combination) : Except (CacheError ε) (Option Entry) :=
  let dirs := combinationDirs [c.schematic,c.version] c.architecture
  match readyEntry host t c dirs with
  | .error e => .error e
  | .ok (some entry) => .ok (some entry)
  | .ok none => leftovers host t c dirs

def listVersion (schematic version : Name) : Except (CacheError ε) (List Entry) :=
  gather (fun architecture => (combinationEntry host t ⟨schematic,version,architecture⟩).map Option.toList) architectures

def listSchematic (schematic : Name) : Except (CacheError ε) (List Entry) :=
  gather (listVersion host t schematic) (t.subdirs [schematic])

/-- The order of the listing. -/
def less (a b : Entry) : Bool :=
  if a.combination.schematic ≠ b.combination.schematic then a.combination.schematic < b.combination.schematic
  else if a.combination.version ≠ b.combination.version then a.combination.version < b.combination.version
  else a.combination.architecture.text < b.combination.architecture.text

def list : Except (CacheError ε) (List Entry) :=
  match t.lookup [] with
  | none => .ok []
  | some (.leaf _) => .error .readRoot
  | some .dir => (gather (listSchematic host t) (t.subdirs [])).map (List.insertionSort fun a b => less b a = false)

structure PruneAction where
  path : Path
  size : ℕ
  /-- A partial download, which no listing shows. -/
  temporary : Bool
  deriving DecidableEq

structure CombinationPlan where
  combination : Combination
  actions : List PruneAction

def CombinationPlan.reportable (p : CombinationPlan) : Bool := p.actions.any fun action => !action.temporary

def requireDirectoryPath (path : Path) : Except (CacheError ε) Unit :=
  match t.lookup path with
  | none => .ok ()
  | some .dir => .ok ()
  | some (.leaf .symlink) => .error (.symlink path)
  | some (.leaf _) => .error (.notDirectory path)

def planKnownArtifact (path : Path) (temporary : Bool) : Except (CacheError ε) (List PruneAction) :=
  match t.lookup path with
  | none => .ok []
  | some (.leaf .symlink) => .error (.symlink path)
  | some (.leaf (.file size _)) => .ok [⟨path,size,temporary⟩]
  | some _ => .error (.notRegular path)

def planKnownFiles (dir : Path) (names prefixes : List Name) : Except (CacheError ε) (List PruneAction) :=
  gather (fun name =>
    if name ∈ names then planKnownArtifact t (dir++[name]) false
    else if prefixes.any (·.isPrefixOf name) then planKnownArtifact t (dir++[name]) true
    else .ok []) (t.readDir dir)

variable (keep : Option (Combination → Except ε Bool))

/-- Without a classifier nothing is kept. -/
def keepCombination (c : Combination) : Except (CacheError ε) Bool :=
  match keep with
  | none => .ok false
  | some keep => (keep c).mapError .keep

/-- What is planned for one directory of a combination. -/
inductive DirPlan
  | absent
  | kept (present : Bool) (temps : List PruneAction)
  | pruned (actions : List PruneAction)

/-- The plan for an architecture directory. -/
def planArchitecture (schematic version : Name) (architecture : Architecture) : Except (CacheError ε) DirPlan :=
  let archDir := [schematic,version,architecture.text]
  let names := knownDiskArtifactNames architecture true
  if (t.lookup archDir).isNone then .ok .absent
  else do
    let kept ← keepCombination keep ⟨schematic,version,architecture⟩
    if kept then
      let s ← artifactStats host t archDir names
      requireDirectoryPath t archDir
      let temps ← planKnownFiles t archDir [] (tempPrefixes architecture)
      return .kept s.present temps
    else
      requireDirectoryPath t archDir
      let actions ← planKnownFiles t archDir names (tempPrefixes architecture)
      return .pruned actions

/-- The plan for the flat layout, which only ever held arm64 images. -/
def planLegacy (schematic version : Name) : Except (CacheError ε) DirPlan := do
  let names := knownDiskArtifactNames .arm64 false
  let kept ← keepCombination keep ⟨schematic,version,.arm64⟩
  if kept then
    let temps ← planKnownFiles t [schematic,version] [] (tempPrefixes .arm64)
    let s ← artifactStats host t [schematic,version] names
    return .kept s.present temps
  else
    let actions ← planKnownFiles t [schematic,version] names (tempPrefixes .arm64)
    return .pruned actions

namespace DirPlan

/-- The plans of an architecture directory: one that is pruned has a plan even without a file. -/
def plans (c : Combination) : DirPlan → List CombinationPlan
  | absent => []
  | kept _ temps => if temps.isEmpty then [] else [⟨c,temps⟩]
  | pruned actions => [⟨c,actions⟩]

/-- The files of both layouts make one plan. -/
def withLegacy (c : Combination) : DirPlan → DirPlan → List CombinationPlan
  | pruned actions,pruned more => [⟨c,actions++more⟩]
  | p,pruned more => p.plans c++if more.isEmpty then [] else [⟨c,more⟩]
  | p,legacy => p.plans c++legacy.plans c

def cleanup (dir : Path) : DirPlan → List Path
  | pruned _ => [dir]
  | _ => []

def counted : DirPlan → Bool
  | kept present _ => present
  | _ => false

def found : DirPlan → Bool
  | absent => false
  | _ => true

end DirPlan

/-- What the loop over the directories adds up. -/
structure Plan where
  plans : List CombinationPlan
  cleanup : List Path
  kept : ℕ
  touched : Bool

/-- The plans for the directories of a version, put together. -/
def versionPlan (schematic version : Name) (amd64 arm64 legacy : DirPlan) : Plan :=
  let plans := amd64.plans ⟨schematic,version,.amd64⟩++arm64.withLegacy ⟨schematic,version,.arm64⟩ legacy
  { plans
    cleanup := amd64.cleanup [schematic,version,Architecture.amd64.text] ++
      arm64.cleanup [schematic,version,Architecture.arm64.text]
    kept := amd64.counted.toNat+arm64.counted.toNat+(legacy.counted && !arm64.counted).toNat
    touched := amd64.found || arm64.found || !plans.isEmpty }

def planKnownVersionPrune (schematic version : Name) : Except (CacheError ε) Plan := do
  let amd64 ← planArchitecture host t keep schematic version .amd64
  let arm64 ← planArchitecture host t keep schematic version .arm64
  let legacy ← planLegacy host t keep schematic version
  return versionPlan schematic version amd64 arm64 legacy

def planVersion (schematic version : Name) : Except (CacheError ε) (List Plan) := do
  requireDirectoryPath t [schematic,version]
  let p ← planKnownVersionPrune host t keep schematic version
  return [if p.touched then { p with cleanup := p.cleanup++[[schematic,version]] } else ⟨[],[],p.kept,false⟩]

def planSchematic (schematic : Name) : Except (CacheError ε) (List Plan) := do
  requireDirectoryPath t [schematic]
  let versions ← gather (planVersion host t keep schematic) (t.subdirs [schematic])
  return versions++if versions.any (·.touched) then [⟨[],[[schematic]],0,true⟩] else []

structure PrunedCombination where
  combination : Combination
  bytes : ℕ
  deriving DecidableEq

structure CachePruneResult where
  imageCount : ℕ
  imageBytes : ℕ
  keptImages : ℕ
  images : List PrunedCombination

/-- The report on the plans: only those that a listing shows count. -/
def report (plans : List Plan) : CachePruneResult :=
  let images := ((plans.flatMap (·.plans)).filter (·.reportable)).map fun p =>
    PrunedCombination.mk p.combination (p.actions.map (·.size)).sum
  ⟨images.length,(images.map (·.bytes)).sum,(plans.map (·.kept)).sum,images⟩

def removeActions (t : Files) : List PruneAction → Files × Option (CacheError ε)
  | [] => (t,none)
  | action::actions =>
    match t.remove action.path with
    | some t => removeActions t actions
    | none => (t,some (.remove action.path))

def removeIfEmpty (t : Files) (path : Path) : Except (CacheError ε) Files :=
  match t.lookup path with
  | none => .ok t
  | some (.leaf .symlink) => .error (.symlink path)
  | some (.leaf _) => .error (.notDirectory path)
  | some .dir =>
    if (t.readDir path).isEmpty then
      match t.remove path with
      | some t => .ok t
      | none => .error (.remove path)
    else .ok t

def cleanupDirs (t : Files) : List Path → Files × Option (CacheError ε)
  | [] => (t,none)
  | path::paths =>
    match removeIfEmpty t path with
    | .ok t => cleanupDirs t paths
    | .error e => (t,some e)

def executePlans (plans : List Plan) : Files × Except (CacheError ε) CachePruneResult :=
  match removeActions t ((plans.flatMap (·.plans)).flatMap (·.actions)) with
  | (t,some e) => (t,.error e)
  | (t,none) =>
    match cleanupDirs t (plans.flatMap (·.cleanup)) with
    | (t,some e) => (t,.error e)
    | (t,none) => (t,.ok (report plans))

def pruneKnownDiskArtifacts : Files × Except (CacheError ε) CachePruneResult :=
  if (t.lookup []).isNone then (t,.ok (report []))
  else
    match gather (planSchematic host t keep) ((t.subdirs []).filter (· ≠ mirror)) with
    | .error e => (t,.error e)
    | .ok plans => executePlans t plans

def validateCacheRoot : Except (CacheError ε) Unit :=
  if host.unsafeRoot then .error .unsafeRoot
  else if host.linkedRoot then .error (.symlink [])
  else requireDirectoryPath t []

def pruneDiskExcept : Files × Except (CacheError ε) CachePruneResult :=
  match validateCacheRoot host t with
  | .error e => (t,.error e)
  | .ok () => pruneKnownDiskArtifacts host t keep

end TalosBox.ImageCache
