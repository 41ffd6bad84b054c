import Mathlib

/-! A buffer of fixed capacity, written in a circle: it holds the end of what was written. -/
namespace TalosBox.RingBuffer

open List
open Function (update update_of_ne update_self)

variable {α : Type*} {n : ℕ}

structure Buffer (α : Type*) (n : ℕ) where
  data : Fin n → α
  start : ℕ
  size : ℕ
  size_le : size ≤ n

namespace Buffer

def empty (n : ℕ) (fill : α) : Buffer α n := ⟨fun _ => fill,0,0,Nat.zero_le n⟩

/-- The place of the entry `i` behind the oldest. -/
def slot (r : Buffer α n) (hn : 0 < n) (i : ℕ) : Fin n := ⟨(r.start + i) % n,Nat.mod_lt _ hn⟩

lemma pos_of_entry (r : Buffer α n) (i : Fin r.size) : 0 < n := i.pos.trans_le r.size_le

def snapshot (r : Buffer α n) : List α :=
  ofFn fun i : Fin r.size => r.data (r.slot (r.pos_of_entry i) i)

/-- One entry, over the oldest if the buffer is full. -/
def push (r : Buffer α n) (hn : 0 < n) (b : α) : Buffer α n :=
  if hfr : r.size < n then
    ⟨update r.data (r.slot hn r.size) b,r.start,r.size + 1,hfr⟩
  else ⟨update r.data (r.slot hn r.size) b,(r.start + 1) % n,r.size,r.size_le⟩

lemma tail_index {p : List α} (h : n ≤ p.length) (i : Fin n) : p.length - n + i < p.length := by
  omega

lemma pos_of_lt {p : List α} (h : ¬ n ≤ p.length) : 0 < n := by omega

/-- What does not fit is cut at the front at once. -/
def write (r : Buffer α n) (p : List α) : Buffer α n :=
  if h : n ≤ p.length then ⟨fun i => p.get ⟨p.length - n + i,tail_index h i⟩,0,n,le_rfl⟩
  else p.foldl (fun r b => r.push (pos_of_lt h) b) r

end Buffer

lemma rtake_of_length_le {l : List α} (h : l.length ≤ n) : l.rtake n = l := by
  rw [rtake,Nat.sub_eq_zero_of_le h,drop_zero]

lemma length_rtake_le (l : List α) (n : ℕ) : (l.rtake n).length ≤ n := by
  rw [rtake,length_drop]
  omega

lemma rtake_suffix (l : List α) (n : ℕ) : l.rtake n <:+ l := drop_suffix _ l

theorem suffix_rtake {l m : List α} (h : l <:+ m) (hl : l.length ≤ n) : l <:+ m.rtake n := by
  refine suffix_of_suffix_length_le h (rtake_suffix m n) ?_
  rw [rtake,length_drop]
  have := h.length_le
  omega

/-- What is cut off before an extension would be cut off after it. -/
theorem rtake_append_rtake (l m : List α) (n : ℕ) : (l.rtake n++m).rtake n = (l++m).rtake n := by
  simp only [rtake_eq_reverse_take_reverse,reverse_append,reverse_reverse,take_append,take_take]
  rw [Nat.min_eq_left (Nat.sub_le _ _)]

theorem rtake_append_of_length_le {l m : List α} (h : n ≤ m.length) : (l++m).rtake n = m.rtake n := by
  have hcut : (l++m).length - n = l.length + (m.length - n) := by
    rw [length_append]
    omega
  rw [rtake,hcut,drop_append,drop_of_length_le (Nat.le_add_right _ _),nil_append,
    Nat.add_sub_cancel_left,rtake]

namespace Buffer

variable (r : Buffer α n)

@[simp] lemma length_snapshot : r.snapshot.length = r.size := length_ofFn

lemma getElem_snapshot (i : ℕ) (h : i < r.snapshot.length) (hn : 0 < n) :
    r.snapshot[i] = r.data (r.slot hn i) :=
  List.getElem_ofFn _

theorem slot_ne (hn : 0 < n) {i j : ℕ} (hi : i < n) (hj : j < n) (hij : i ≠ j) :
    r.slot hn i ≠ r.slot hn j := by
  intro h
  have hmod : r.start + i ≡ r.start + j [MOD n] := congrArg Fin.val h
  have hcancel : i % n = j % n := Nat.ModEq.add_left_cancel' r.start hmod
  rw [Nat.mod_eq_of_lt hi,Nat.mod_eq_of_lt hj] at hcancel
  exact hij hcancel

theorem snapshot_push_of_lt (hn : 0 < n) (b : α) (hfr : r.size < n) :
    (r.push hn b).snapshot = r.snapshot++[b] := by
  rw [push,dif_pos hfr]
  refine ext_getElem (by simp) fun i hi hi' => ?_
  rw [getElem_snapshot _ i hi hn,getElem_append]
  change update r.data (r.slot hn r.size) b (r.slot hn i) = _
  split_ifs with hold
  · rw [length_snapshot] at hold
    rw [getElem_snapshot _ _ _ hn,update_of_ne]
    exact r.slot_ne hn (hold.trans hfr) hfr hold.ne
  · obtain rfl : i = r.size := by
      simp only [length_snapshot] at hi hold
      omega
    rw [update_self]
    exact (getElem_singleton _).symm

theorem snapshot_push_of_full (hn : 0 < n) (b : α) (hfull : ¬ r.size < n) :
    (r.push hn b).snapshot = r.snapshot.tail++[b] := by
  have hsz : r.size = n := Nat.le_antisymm r.size_le (not_lt.1 hfull)
  rw [push,dif_neg hfull]
  refine ext_getElem (by simp; omega) fun i hi hi' => ?_
  -- the oldest is overwritten, the second becomes the oldest
  have hslot : ∀ i, (⟨update r.data (r.slot hn r.size) b,(r.start + 1) % n,r.size,r.size_le⟩ :
      Buffer α n).slot hn i = r.slot hn (i + 1) := by
    intro i
    apply Fin.ext
    change ((r.start + 1) % n + i) % n = (r.start + (i + 1)) % n
    rw [Nat.mod_add_mod,add_assoc,add_comm 1 i]
  rw [getElem_snapshot _ i hi hn,hslot,getElem_append]
  change update r.data (r.slot hn r.size) b (r.slot hn (i + 1)) = _
  have hwrap : r.slot hn r.size = r.slot hn 0 := by
    apply Fin.ext
    change (r.start + r.size) % n = (r.start + 0) % n
    rw [hsz,Nat.add_mod_right,Nat.add_zero]
  split_ifs with hold
  · rw [length_tail,length_snapshot] at hold
    rw [getElem_tail,getElem_snapshot _ _ _ hn,update_of_ne]
    rw [hwrap]
    exact r.slot_ne hn (by omega) hn (Nat.succ_ne_zero i)
  · have hla : i + 1 = r.size := by
      simp only [length_tail,length_snapshot] at hi hold
      omega
    rw [hla,update_self]
    exact (getElem_singleton _).symm

theorem snapshot_push (hn : 0 < n) (b : α) :
    (r.push hn b).snapshot = (r.snapshot++[b]).rtake n := by
  by_cases hfr : r.size < n
  · rw [snapshot_push_of_lt r hn b hfr,rtake_of_length_le (by simpa using hfr)]
  · have hsz : r.size = n := Nat.le_antisymm r.size_le (not_lt.1 hfr)
    obtain ⟨m,rfl⟩ := Nat.exists_eq_add_one_of_ne_zero hn.ne'
    rw [snapshot_push_of_full r hn b hfr,rtake_concat_succ,rtake,length_snapshot,hsz,
      Nat.add_sub_cancel_left,drop_one]

theorem snapshot_foldl_push (hn : 0 < n) (p : List α) :
    (p.foldl (fun r b => r.push hn b) r).snapshot = (r.snapshot++p).rtake n := by
  induction p generalizing r with
  | nil =>
    rw [foldl_nil,append_nil,rtake_of_length_le]
    simpa using r.size_le
  | cons b p ih =>
    rw [foldl_cons,ih,snapshot_push,rtake_append_rtake,append_assoc,singleton_append]

/-- Whatever was in the buffer, it holds the end of that and of what is written. -/
theorem snapshot_write (p : List α) : (r.write p).snapshot = (r.snapshot++p).rtake n := by
  rw [write]
  split_ifs with hlong
  · rw [rtake_append_of_length_le hlong]
    refine ext_getElem ?_ fun i hi hi' => ?_
    · rw [length_snapshot,rtake,length_drop]
      change n = p.length - (p.length - n)
      omega
    · have hn : i < n := by simpa using hi
      rw [getElem_snapshot _ i hi (Nat.zero_lt_of_lt hn)]
      simp [slot,rtake,Nat.mod_eq_of_lt hn]
  · exact snapshot_foldl_push r (pos_of_lt hlong) p

theorem snapshot_foldl_write (ps : List (List α)) :
    (ps.foldl write r).snapshot = (r.snapshot++ps.flatten).rtake n := by
  induction ps generalizing r with
  | nil =>
    rw [foldl_nil,flatten_nil,append_nil,rtake_of_length_le]
    simpa using r.size_le
  | cons p ps ih =>
    rw [foldl_cons,ih,snapshot_write,rtake_append_rtake,append_assoc,flatten_cons]

end Buffer

end TalosBox.RingBuffer
