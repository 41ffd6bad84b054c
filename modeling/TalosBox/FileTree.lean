import TalosBox.MapLoops

/-! Trees of directories and files by their paths: what a directory lists and what removals leave.
-/
namespace TalosBox.FileTree

open MapLoops

inductive Node (φ : Type)
  | dir
  | leaf (file : φ)
  deriving DecidableEq

def isDir {φ : Type} : Option (Node φ) → Bool
  | some .dir => true
  | _ => false

@[simp] lemma isDir_iff {φ : Type} {node : Option (Node φ)} : isDir node ↔ node = some .dir := by
  rcases node with _ | _ | _ <;> simp [isDir]

/-- The root has the empty path; nothing lies outside a directory. -/
structure Tree (ν φ : Type) [LinearOrder ν] where
  nodes : Map (List ν) (Node φ)
  closed : ∀ p n, (nodes.lookup (p++[n])).isSome → nodes.lookup p = some .dir

variable {ν φ : Type} [LinearOrder ν]

namespace Tree

def lookup (t : Tree ν φ) (p : List ν) : Option (Node φ) := t.nodes.lookup p

variable {t : Tree ν φ} {p : List ν} {n : ν}

lemma parent (h : (t.lookup (p++[n])).isSome) :
    t.lookup p = some .dir := t.closed p n h

theorem lookup_child (h : t.lookup p ≠ some .dir) (n : ν) : t.lookup (p++[n]) = none := by
  cases hchd : t.lookup (p++[n]) with
  | none => rfl
  | some node =>
    have hso : (t.lookup (p++[n])).isSome := by rw [hchd]; rfl
    exact absurd (parent hso) h

def children (t : Tree ν φ) (p : List ν) : Finset ν :=
  (t.nodes.keys.filter fun q => q.dropLast = p).biUnion fun q => q.getLast?.toFinset

theorem mem_children :
    n ∈ t.children p ↔ (t.lookup (p++[n])).isSome := by
  simp only [children,Finset.mem_biUnion,Finset.mem_filter,Option.mem_toFinset]
  constructor
  · rintro ⟨q,⟨hq,rfl⟩,hn⟩
    have hpa := List.dropLast_append_getLast? n hn
    rw [lookup,hpa]
    exact Finmap.lookup_isSome.2 (Finmap.mem_keys.1 hq)
  · intro h
    exact ⟨p++[n],⟨Finmap.mem_keys.2 (Finmap.lookup_isSome.1 h),by simp⟩,by simp⟩

/-- `os.ReadDir`: the names from the least to the greatest. -/
def readDir (t : Tree ν φ) (p : List ν) : List ν := (Order.sorted (t.children p)).1

lemma mem_readDir :
    n ∈ t.readDir p ↔ (t.lookup (p++[n])).isSome := by
  rw [readDir,Order.mem,mem_children]

lemma readDir_sorted (t : Tree ν φ) (p : List ν) : (t.readDir p).Pairwise (· < ·) :=
  Order.pairwise_sorted _

/-- The names of the entries that are directories. -/
def subdirs (t : Tree ν φ) (p : List ν) : List ν :=
  (t.readDir p).filter fun n => isDir (t.lookup (p++[n]))

theorem mem_subdirs : n ∈ t.subdirs p ↔ t.lookup (p++[n]) = some .dir := by
  rw [subdirs,List.mem_filter,mem_readDir,isDir_iff,and_iff_right_iff_imp]
  intro h
  rw [h]
  rfl

lemma subdirs_sorted (t : Tree ν φ) (p : List ν) : (t.subdirs p).Pairwise (· < ·) :=
  (t.readDir_sorted p).filter _

/-- The directory of the root alone. -/
def root : Tree ν φ where
  nodes := (∅ : Map (List ν) (Node φ)).insert [] .dir
  closed p n h := by
    rw [Finmap.lookup_insert_of_ne _ (by simp),Finmap.lookup_empty] at h
    cases h

theorem lookup_root (p : List ν) : (root : Tree ν φ).lookup p = if p = [] then some .dir else none := by
  split_ifs with hp
  · subst hp
    exact Finmap.lookup_insert _
  · exact (Finmap.lookup_insert_of_ne _ hp).trans (Finmap.lookup_empty _)

/-- A new entry of a directory. -/
def put (t : Tree ν φ) (p : List ν) (n : ν) (node : Node φ) : Tree ν φ :=
  if h : isDir (t.nodes.lookup p) ∧ (t.nodes.lookup (p++[n])).isSome = false then
    { nodes := t.nodes.insert (p++[n]) node
      closed := fun q m hchd => by
        have hne : q ≠ p++[n] ∨ q = p++[n] := (eq_or_ne _ _).symm
        rcases hne with hne | rfl
        · rw [Finmap.lookup_insert_of_ne _ hne]
          by_cases heq : q++[m] = p++[n]
          · rw [(List.append_inj' heq rfl).1]
            exact isDir_iff.1 h.1
          · rw [Finmap.lookup_insert_of_ne _ heq] at hchd
            exact t.closed q m hchd
        · rw [Finmap.lookup_insert_of_ne _ (by simp)] at hchd
          have hparent := t.closed _ m hchd
          simp [hparent] at h }
  else t

theorem lookup_put (t : Tree ν φ) (p : List ν) (n : ν) (node : Node φ) (q : List ν) :
    (t.put p n node).lookup q = t.lookup q ∨ (t.put p n node).lookup q = some node := by
  unfold put
  split_ifs
  · by_cases hq : q = p++[n]
    · right
      rw [hq]
      exact Finmap.lookup_insert _
    · exact .inl (Finmap.lookup_insert_of_ne _ hq)
  · exact .inl rfl

/-- `os.Remove`, which refuses a directory with entries; what is not there stays so. -/
def remove (t : Tree ν φ) (p : List ν) : Option (Tree ν φ) :=
  if h : t.children p = ∅ then
    some
      { nodes := t.nodes.erase p
        closed := fun q m hchd => by
          have hne : q++[m] ≠ p := by
            rintro rfl
            rw [Finmap.lookup_erase] at hchd
            cases hchd
          rw [Finmap.lookup_erase_ne hne] at hchd
          by_cases hq : q = p
          · subst hq
            have hmem := mem_children.2 hchd
            simp [h] at hmem
          · rw [Finmap.lookup_erase_ne hq]
            exact t.closed q m hchd }
  else none

theorem lookup_remove {t' : Tree ν φ} (h : t.remove p = some t') (q : List ν) :
    t'.lookup q = if q = p then none else t.lookup q := by
  unfold remove at h
  split at h
  · cases h
    split_ifs with hq
    · subst hq
      exact Finmap.lookup_erase _ _
    · exact Finmap.lookup_erase_ne hq
  · cases h

theorem exists_remove (h : t.readDir p = []) : ∃ t', t.remove p = some t' := by
  have hemp : t.children p = ∅ := by
    refine Finset.eq_empty_of_forall_notMem fun n hn => ?_
    have hmem := mem_readDir.2 (mem_children.1 hn)
    simp [h] at hmem
  exact ⟨_,dif_pos hemp⟩

lemma readDir_of_not_dir (h : t.lookup p ≠ some .dir) : t.readDir p = [] := by
  refine List.eq_nil_iff_forall_not_mem.2 fun n hn => ?_
  simpa [lookup_child h n] using mem_readDir.1 hn

end Tree

/-- The given files are gone, and perhaps some directories; all the rest is as it was. -/
def Swept (gone : List (List ν)) (t t' : Tree ν φ) : Prop :=
  ∀ p, match t.lookup p with
    | none => t'.lookup p = none
    | some .dir => t'.lookup p = some .dir ∨ t'.lookup p = none
    | some (.leaf f) => t'.lookup p = if p ∈ gone then none else some (.leaf f)

namespace Swept

variable {gone : List (List ν)} {t t' : Tree ν φ}

lemma refl (t : Tree ν φ) : Swept [] t t := by
  intro p
  split <;> simp_all

variable {p : List ν}

section

variable (h : Swept gone t t')
include h

theorem dir (hp : t.lookup p = some .dir) :
    t'.lookup p = some .dir ∨ t'.lookup p = none := by
  have := h p
  rwa [hp] at this

theorem leaf {f : φ} (hp : t.lookup p = some (.leaf f)) :
    t'.lookup p = if p ∈ gone then none else some (.leaf f) := by
  have := h p
  rwa [hp] at this

lemma none (hp : t.lookup p = none) : t'.lookup p = none := by
  have := h p
  rwa [hp] at this

theorem of_dir (hp : t'.lookup p = some .dir) : t.lookup p = some .dir := by
  cases hbef : t.lookup p with
  | none => simp [h.none hbef] at hp
  | some node =>
    cases node with
    | dir => rfl
    | leaf f =>
      rw [h.leaf hbef] at hp
      split_ifs at hp
      cases hp

theorem leaf_iff {f : φ} :
    t'.lookup p = some (.leaf f) ↔ t.lookup p = some (.leaf f) ∧ p ∉ gone := by
  cases hbef : t.lookup p with
  | none => simp [h.none hbef]
  | some node =>
    cases node with
    | dir => rcases h.dir hbef with haft | haft <;> simp [haft]
    | leaf f' => by_cases hp : p ∈ gone <;> simp [h.leaf hbef,hp]

theorem remove_leaf {f : φ} (hp : t.lookup p = some (.leaf f)) {t'' : Tree ν φ}
    (hrm : t'.remove p = some t'') : Swept (gone++[p]) t t'' := by
  intro q
  rw [Tree.lookup_remove hrm]
  cases hq : t.lookup q with
  | none => simp [h.none hq]
  | some node =>
    cases node with
    | dir =>
      have hne : q ≠ p := by
        rintro rfl
        simp [hq] at hp
      simpa [hne] using h.dir hq
    | leaf f' =>
      by_cases hne : q = p
      · simp [hne]
      · simp [hne,h.leaf hq]

theorem remove_dir (hp : t'.lookup p = some .dir) {t'' : Tree ν φ}
    (hrm : t'.remove p = some t'') : Swept gone t t'' := by
  have hdir := h.of_dir hp
  intro q
  rw [Tree.lookup_remove hrm]
  by_cases hne : q = p
  · simp [hne,hdir]
  · simpa only [if_neg hne] using h q

theorem subdirs (p : List ν) :
    t'.subdirs p = (t.subdirs p).filter fun n => isDir (t'.lookup (p++[n])) := by
  have hmem : ∀ n, n ∈ t'.subdirs p ↔ n ∈ (t.subdirs p).filter fun n => isDir (t'.lookup (p++[n])) := by
    intro n
    rw [List.mem_filter,Tree.mem_subdirs,Tree.mem_subdirs,isDir_iff]
    exact ⟨fun hdir => ⟨h.of_dir hdir,hdir⟩,And.right⟩
  have hsrt := t'.subdirs_sorted p
  have hsrt' := (t.subdirs_sorted p).filter fun n => isDir (t'.lookup (p++[n]))
  refine List.Perm.eq_of_pairwise (fun _ _ _ _ hlt hlt' => absurd hlt (lt_asymm hlt')) hsrt hsrt' ?_
  exact (List.perm_ext_iff_of_nodup (hsrt.imp ne_of_lt) (hsrt'.imp ne_of_lt)).2 hmem

end

end Swept

end TalosBox.FileTree
