import TalosBox.LinuxNetwork
import TalosBox.MapLoops
import TalosBox.StepRuns

/-! The Linux helper's DHCP listeners: one per subnet, opened into a map of the call and merged into
the manager's table at its end. -/
namespace TalosBox.HelperDhcp

open List
open Function (update update_of_ne update_self)
open KeyedFold MapLoops
open LinuxNetwork (compact sortCompact normalizeLinuxSubnetIndexes)
open StepRuns (Throughout Each)

/-- A `dhcpEntry`. The listeners are numbered in the order in which they are opened. -/
structure Entry where
  listener : ℕ
  ifindex : ℤ
  deriving DecidableEq

/-- What `Close` of a listener returns: a socket that is closed already counts as success. -/
inductive CloseAnswer
  | closed
  | alreadyClosed
  | failed
  deriving DecidableEq

def CloseAnswer.gone : CloseAnswer → Bool
  | .failed => false
  | _ => true

/-- What the host answers in one call: a bridge's index, whether a listener opens, how it closes. -/
structure Answers where
  ifindex : ℤ → Option ℤ
  listen : ℤ → Bool
  close : ℕ → CloseAnswer

inductive DhcpError
  | reservations
  | stop (subnetIndex : ℤ)
  | listen (subnetIndex : ℤ)
  deriving DecidableEq

structure Manager where
  servers : Map ℤ Entry
  /-- How many listeners have been opened. -/
  opened : ℕ
  /-- The listeners that were closed successfully. -/
  closed : Finset ℕ

namespace Manager

def initial : Manager := ⟨∅,0,∅⟩

/-- `listener.Close()`. -/
def closeListener (m : Manager) (a : Answers) (listener : ℕ) : Manager :=
  if (a.close listener).gone then { m with closed := insert listener m.closed } else m

/-- A listener that closed, and the deletion of its entry. -/
def retire (m : Manager) (subnetIndex : ℤ) (entry : Entry) : Manager :=
  { m with closed := insert entry.listener m.closed, servers := m.servers.erase subnetIndex }

def listen (a : Answers) (m : Manager) (started : Map ℤ Entry) (subnetIndex ifindex : ℤ) :
    Manager × Map ℤ Entry × Option DhcpError :=
  if a.listen subnetIndex then
    ({ m with opened := m.opened + 1 },started.insert subnetIndex ⟨m.opened,ifindex⟩,none)
  else (m,started,some (.listen subnetIndex))

/-- One subnet of the first loop of `Converge`. -/
def visit (a : Answers) (m : Manager) (started : Map ℤ Entry) (subnetIndex : ℤ) :
    Manager × Map ℤ Entry × Option DhcpError :=
  match a.ifindex subnetIndex,m.servers.lookup subnetIndex with
  | none,none => (m,started,none)
  | none,some entry =>
    if (a.close entry.listener).gone then (m.retire subnetIndex entry,started,none)
    else (m,started,some (.stop subnetIndex))
  | some ifindex,some entry =>
    if entry.ifindex = ifindex then (m,started,none)
    else if (a.close entry.listener).gone then
      (m.retire subnetIndex entry).listen a started subnetIndex ifindex
    else (m,started,some (.stop subnetIndex))
  | some ifindex,none => m.listen a started subnetIndex ifindex

/-- The first loop, up to the first error. -/
def bind (a : Answers) (m : Manager) (started : Map ℤ Entry) :
    List ℤ → Manager × Map ℤ Entry × Option DhcpError
  | [] => (m,started,none)
  | subnetIndex::desired =>
    match m.visit a started subnetIndex with
    | (m,started,none) => m.bind a started desired
    | (m,started,some e) => (m,started,some e)

/-- `closeDHCPEntries`, which drops the errors. -/
def closeEntries (a : Answers) (m : Manager) (entries : Map ℤ Entry) (keys : List ℤ) : Manager :=
  keys.foldl (fun m subnetIndex =>
    match entries.lookup subnetIndex with
    | some entry => m.closeListener a entry.listener
    | none => m) m

/-- The second loop: the listeners of the subnets that are not wanted any more. -/
def dropSurplus (a : Answers) (desired : List ℤ) (m : Manager) :
    List ℤ → Manager × Option DhcpError
  | [] => (m,none)
  | subnetIndex::keys =>
    if subnetIndex ∈ desired then m.dropSurplus a desired keys
    else
      match m.servers.lookup subnetIndex with
      | none => m.dropSurplus a desired keys
      | some entry =>
        if (a.close entry.listener).gone then (m.retire subnetIndex entry).dropSurplus a desired keys
        else (m,some (.stop subnetIndex))

/-- `Converge`, with the subnets of the clusters and of the live attachments. -/
def converge (a : Answers) (order : Order ℤ) (reservations : Bool) (subnets extra : List ℤ)
    (m : Manager) : Manager × Option DhcpError :=
  if reservations = false then (m,some .reservations)
  else
    let desired := normalizeLinuxSubnetIndexes (subnets++extra)
    match m.bind a ∅ desired with
    | (m,started,some e) => (m.closeEntries a started (order started.keys).1,some e)
    | (m,started,none) =>
      match m.dropSurplus a desired (order m.servers.keys).1 with
      | (m,some e) => (m,some e)
      | (m,none) => ({ m with servers := started ∪ m.servers },none)

/-- The entry is deleted and its listener closed, in whichever order. -/
def forget (a : Answers) (m : Manager) (subnetIndex : ℤ) (entry : Entry) : Manager :=
  { m.closeListener a entry.listener with servers := m.servers.erase subnetIndex }

def release (a : Answers) (m : Manager) (subnetIndex : ℤ) : Manager × Option DhcpError :=
  match m.servers.lookup subnetIndex with
  | none => (m,none)
  | some entry =>
    (m.forget a subnetIndex entry,
      if (a.close entry.listener).gone then none else some (.stop subnetIndex))

/-- `Close`, which joins the errors. -/
def close (a : Answers) (m : Manager) : List ℤ → Manager × List DhcpError
  | [] => (m,[])
  | subnetIndex::keys =>
    match m.servers.lookup subnetIndex with
    | none => m.close a keys
    | some entry =>
      let closed := (m.forget a subnetIndex entry).close a keys
      (closed.1,
        if (a.close entry.listener).gone then closed.2 else .stop subnetIndex::closed.2)

end Manager

inductive Call
  | converge (a : Answers) (order : Order ℤ) (reservations : Bool) (subnets extra : List ℤ)
  | release (a : Answers) (subnetIndex : ℤ)
  | close (a : Answers) (order : Order ℤ)

def step (m : Manager) : Call → Option Manager
  | .converge a order reservations subnets extra =>
    some (m.converge a order reservations subnets extra).1
  | .release a subnetIndex => some (m.release a subnetIndex).1
  | .close a order => some (m.close a (order m.servers.keys).1).1

section

variable {f : ℤ → Option Entry} {opened : ℕ} {closed : Finset ℕ}

/-- The entries are of open listeners, each of its own. -/
structure Sound (f : ℤ → Option Entry) (opened : ℕ) (closed : Finset ℕ) : Prop where
  live : ∀ n e, f n = some e → e.listener < opened ∧ e.listener ∉ closed
  unique : ∀ n n' e e', f n = some e → f n' = some e' → e.listener = e'.listener → n = n'
  born : ∀ id ∈ closed, id < opened

/-- Every listener that was opened and not closed is in the table. -/
def Accounted (f : ℤ → Option Entry) (opened : ℕ) (closed : Finset ℕ) : Prop :=
  ∀ id < opened, id ∉ closed → ∃ n e, f n = some e ∧ e.listener = id

theorem Sound.sub (h : Sound f opened closed) {g : ℤ → Option Entry}
    (hsub : ∀ n e, g n = some e → f n = some e) : Sound g opened closed where
  live n e hn := h.live n e (hsub n e hn)
  unique n n' e e' hn hn' := h.unique n n' e e' (hsub n e hn) (hsub n' e' hn')
  born := h.born

theorem Sound.retire (h : Sound f opened closed) {n : ℤ} {e : Entry} (hn : f n = some e) :
    Sound (update f n none) opened (insert e.listener closed) := by
  have hkp : ∀ {k x}, update f n none k = some x → k ≠ n ∧ f k = some x := by
    intro k x hk
    by_cases hkn : k = n
    · simp [hkn] at hk
    · exact ⟨hkn,by simpa [hkn] using hk⟩
  refine ⟨fun k x hk => ?_,fun k k' x x' hk hk' => ?_,fun id hid => ?_⟩
  · obtain ⟨hkn,hk⟩ := hkp hk
    obtain ⟨hlt,hop⟩ := h.live k x hk
    refine ⟨hlt,fun hmem => ?_⟩
    obtain heq | hmem := Finset.mem_insert.1 hmem
    · exact hkn (h.unique k n x e hk hn heq)
    · exact hop hmem
  · exact h.unique k k' x x' (hkp hk).2 (hkp hk').2
  · obtain rfl | hid := Finset.mem_insert.1 hid
    · exact (h.live n e hn).1
    · exact h.born id hid

theorem Accounted.retire (h : Accounted f opened closed) {n : ℤ} {e : Entry} (hn : f n = some e) :
    Accounted (update f n none) opened (insert e.listener closed) := by
  intro id hid hop
  obtain ⟨hne,hop⟩ : id ≠ e.listener ∧ id ∉ closed := by simpa using hop
  obtain ⟨k,x,hk,hx⟩ := h id hid hop
  refine ⟨k,x,?_,hx⟩
  rw [update_of_ne]
  · exact hk
  · rintro rfl
    cases (hn.symm.trans hk)
    exact hne hx.symm

theorem Sound.opens (h : Sound f opened closed) (n ifindex : ℤ) :
    Sound (update f n (some ⟨opened,ifindex⟩)) (opened + 1) closed := by
  have hcs : ∀ {k x}, update f n (some ⟨opened,ifindex⟩) k = some x →
      k = n ∧ x.listener = opened ∨ f k = some x := by
    intro k x hk
    by_cases hkn : k = n
    · subst hkn
      simp only [update_self,Option.some.injEq] at hk
      exact .inl ⟨rfl,hk ▸ rfl⟩
    · exact .inr (by simpa [hkn] using hk)
  refine ⟨fun k x hk => ?_,fun k k' x x' hk hk' heq => ?_,fun id hid => ?_⟩
  · obtain ⟨-,hx⟩ | hk := hcs hk
    · rw [hx]
      exact ⟨Nat.lt_succ_self _,fun hmem => absurd (h.born _ hmem) (lt_irrefl _)⟩
    · exact ⟨(h.live k x hk).1.trans (Nat.lt_succ_self _),(h.live k x hk).2⟩
  · obtain ⟨hkn,hx⟩ | hold := hcs hk
    · obtain ⟨hkn',-⟩ | hold' := hcs hk'
      · exact hkn.trans hkn'.symm
      · exact absurd (heq.symm.trans hx) (h.live k' x' hold').1.ne
    · obtain ⟨-,hx'⟩ | hold' := hcs hk'
      · exact absurd (heq.trans hx') (h.live k x hold).1.ne
      · exact h.unique k k' x x' hold hold' heq
  · exact (h.born id hid).trans (Nat.lt_succ_self _)

theorem Accounted.opens (h : Accounted f opened closed) {n : ℤ} (hn : f n = none) (ifindex : ℤ) :
    Accounted (update f n (some ⟨opened,ifindex⟩)) (opened + 1) closed := by
  intro id hid hop
  obtain hlt | rfl := Nat.lt_succ_iff_lt_or_eq.1 hid
  · obtain ⟨k,x,hk,hx⟩ := h id hlt hop
    refine ⟨k,x,?_,hx⟩
    rw [update_of_ne]
    · exact hk
    · rintro rfl
      exact nomatch hn.symm.trans hk
  · exact ⟨n,⟨id,ifindex⟩,by simp,rfl⟩

end

/-- What a call has in hand: the table and the listeners it has started. -/
def table (m : Manager) (started : Map ℤ Entry) (n : ℤ) : Option Entry :=
  (started.lookup n).or (m.servers.lookup n)

/-- A convergence closes a listener of the table, or opens one where there is none. -/
inductive Turn : Manager × Map ℤ Entry → Manager × Map ℤ Entry → Prop
  | retire {m : Manager} {started : Map ℤ Entry} {n : ℤ} {e : Entry}
      (hstd : started.lookup n = none) (hn : m.servers.lookup n = some e) :
      Turn (m,started) (m.retire n e,started)
  | opens {m : Manager} {started : Map ℤ Entry} {n : ℤ} (ifindex : ℤ)
      (hstd : started.lookup n = none) (hn : m.servers.lookup n = none) :
      Turn (m,started) ({ m with opened := m.opened + 1 },started.insert n ⟨m.opened,ifindex⟩)

abbrev Turns := Relation.ReflTransGen Turn

/-- The table and the started listeners are sound, and of different subnets. -/
structure Kept (x : Manager × Map ℤ Entry) : Prop where
  sound : Sound (table x.1 x.2) x.1.opened x.1.closed
  apart : ∀ n e, x.2.lookup n = some e → x.1.servers.lookup n = none

variable {started : Map ℤ Entry} {m : Manager} {n : ℤ}

theorem table_retire (hstd : started.lookup n = none) (e : Entry) :
    table (m.retire n e) started = update (table m started) n none := by
  funext k
  by_cases hk : k = n
  · subst hk
    simp [table,Manager.retire,hstd]
  · simp [table,Manager.retire,hk]

theorem table_opens (m : Manager) (started : Map ℤ Entry) (n : ℤ) (e : Entry) (opened : ℕ) :
    table { m with opened := opened } (started.insert n e) =
      update (table m started) n (some e) := by
  funext k
  by_cases hk : k = n
  · subst hk
    simp [table]
  · simp [table,hk]

variable {x y : Manager × Map ℤ Entry}

theorem Turn.kept (h : Turn x y) (hx : Kept x) : Kept y := by
  cases h with
  | @retire m started n e hstd hn =>
    have htab : table m started n = some e := by simp [table,hstd,hn]
    refine ⟨?_,fun k e' hk => ?_⟩
    · rw [table_retire hstd]
      exact hx.sound.retire htab
    · have hno := hx.apart k e' hk
      by_cases hkn : k = n
      · exact nomatch (hkn ▸ hk).symm.trans hstd
      · simpa [Manager.retire,Finmap.lookup_erase_ne hkn] using hno
  | @opens m started n ifindex hstd hn =>
    refine ⟨?_,fun k e' hk => ?_⟩
    · simp only [table_opens]
      exact hx.sound.opens n ifindex
    · by_cases hkn : k = n
      · exact hkn ▸ hn
      · exact hx.apart k e' (by rwa [Finmap.lookup_insert_of_ne _ hkn] at hk)

theorem Turn.accounted (h : Turn x y)
    (hx : Accounted (table x.1 x.2) x.1.opened x.1.closed) :
    Accounted (table y.1 y.2) y.1.opened y.1.closed := by
  cases h with
  | @retire m started n e hstd hn =>
    rw [table_retire hstd]
    exact hx.retire (by simp [table,hstd,hn])
  | @opens m started n ifindex hstd hn =>
    simp only [table_opens]
    exact hx.opens (by simp [table,hstd,hn]) ifindex

theorem Turns.keep {I : Manager × Map ℤ Entry → Prop} (htn : ∀ {x y}, Turn x y → I x → I y) (h : Turns x y) (hx : I x) : I y := by
  induction h with
  | refl => exact hx
  | tail _ hla ih => exact htn hla ih

theorem turns_listen (a : Answers) (ifindex : ℤ)
    (hstd : started.lookup n = none) (hn : m.servers.lookup n = none) :
    Turns (m,started) ((m.listen a started n ifindex).1,(m.listen a started n ifindex).2.1) ∧
      ∀ k, k ≠ n → (m.listen a started n ifindex).2.1.lookup k = started.lookup k := by
  unfold Manager.listen
  split_ifs
  · exact ⟨.single (.opens ifindex hstd hn),fun k hk => Finmap.lookup_insert_of_ne _ hk⟩
  · exact ⟨.refl,fun _ _ => rfl⟩

theorem turns_visit (a : Answers) (m : Manager)
    (hstd : started.lookup n = none) :
    Turns (m,started) ((m.visit a started n).1,(m.visit a started n).2.1) ∧
      ∀ k, k ≠ n → (m.visit a started n).2.1.lookup k = started.lookup k := by
  unfold Manager.visit
  split
  · exact ⟨.refl,fun _ _ => rfl⟩
  · rename_i entry _ hn
    split_ifs
    · exact ⟨.single (.retire hstd hn),fun _ _ => rfl⟩
    · exact ⟨.refl,fun _ _ => rfl⟩
  · rename_i ifindex entry _ hn
    split_ifs
    · exact ⟨.refl,fun _ _ => rfl⟩
    · obtain ⟨htu,hos⟩ := turns_listen a (m := m.retire n entry) ifindex hstd
        (Finmap.lookup_erase n m.servers)
      exact ⟨.head (.retire hstd hn) htu,hos⟩
    · exact ⟨.refl,fun _ _ => rfl⟩
  · rename_i ifindex _ hn
    exact turns_listen a ifindex hstd hn

theorem turns_bind (a : Answers) (m : Manager) (started : Map ℤ Entry) (want : List ℤ)
    (hdesi : want.Nodup) (hstd : ∀ n ∈ want, started.lookup n = none) :
    Turns (m,started) ((m.bind a started want).1,(m.bind a started want).2.1) := by
  induction want generalizing m started with
  | nil => exact .refl
  | cons n want ih =>
    obtain ⟨hnew,hdesi⟩ := nodup_cons.1 hdesi
    obtain ⟨htu,hos⟩ := turns_visit a m (hstd n mem_cons_self)
    rw [Manager.bind]
    split
    · rename_i m' started' hvis
      rw [hvis] at htu hos
      refine htu.trans (ih m' started' hdesi fun k hk => ?_)
      rw [hos k fun hkn => hnew (hkn ▸ hk)]
      exact hstd k (mem_cons_of_mem _ hk)
    · rename_i m' started' e hvis
      rw [hvis] at htu
      exact htu

theorem turns_dropSurplus (a : Answers) (want : List ℤ) (m : Manager)
    (hkp : Kept (m,started)) (keys : List ℤ) :
    Turns (m,started) ((m.dropSurplus a want keys).1,started) := by
  induction keys generalizing m with
  | nil => exact .refl
  | cons n keys ih =>
    rw [Manager.dropSurplus]
    split_ifs
    · exact ih m hkp
    · split
      · exact ih m hkp
      · rename_i entry hn
        have hstd : started.lookup n = none := by
          cases hs : started.lookup n with
          | none => rfl
          | some e => exact nomatch (hkp.apart n e hs).symm.trans hn
        have htn : Turn (m,started) (m.retire n entry,started) := .retire hstd hn
        split_ifs
        · exact .head htn (ih _ (htn.kept hkp))
        · exact .refl

theorem pairwise_compact : ∀ {l : List ℤ}, l.Pairwise (· ≤ ·) → (compact l).Pairwise (· < ·)
  | [],_ => Pairwise.nil
  | [_],_ => pairwise_singleton _ _
  | i::j::l,h => by
    obtain ⟨hfst,hrs⟩ := pairwise_cons.1 h
    have ih := pairwise_compact hrs
    rw [compact]
    split_ifs with hij
    · exact ih
    · refine pairwise_cons.2 ⟨fun k hk => ?_,ih⟩
      have hlt : i < j := lt_of_le_of_ne (hfst j mem_cons_self) hij
      obtain rfl | hk := mem_cons.1 (LinuxNetwork.mem_compact.1 hk)
      · exact hlt
      · exact hlt.trans_le ((pairwise_cons.1 hrs).1 k hk)

lemma nodup_normalizeLinuxSubnetIndexes (indexes : List ℤ) :
    (normalizeLinuxSubnetIndexes indexes).Nodup :=
  (pairwise_compact (pairwise_insertionSort _ _)).imp fun h => h.ne

/-- Every listener that was opened and has not been closed is in the manager's table. -/
def Manager.Recorded (m : Manager) : Prop := Accounted m.servers.lookup m.opened m.closed

def Manager.Sound (m : Manager) : Prop := HelperDhcp.Sound m.servers.lookup m.opened m.closed

theorem Manager.Sound.kept (h : m.Sound) : Kept (m,∅) where
  sound := by
    exact h
  apart n e hn := by simp at hn

theorem Kept.servers (h : Kept (m,started)) : m.Sound := by
  refine h.sound.sub fun n e hn => ?_
  have hno : started.lookup n = none := by
    cases hs : started.lookup n with
    | none => rfl
    | some e => exact nomatch (h.apart n e hs).symm.trans hn
  simp [table,hno,hn]

theorem Kept.not_in_servers (h : Kept (m,started))
    {e : Entry} (hn : started.lookup n = some e) :
    ∀ k x, m.servers.lookup k = some x → x.listener ≠ e.listener := by
  intro k x hk hls
  have hno := h.apart n e hn
  have hkn : k ≠ n := by
    rintro rfl
    exact nomatch hno.symm.trans hk
  have hstd : started.lookup k = none := by
    cases hs : started.lookup k with
    | none => rfl
    | some y => exact nomatch (h.apart k y hs).symm.trans hk
  exact hkn (h.sound.unique k n x e (by simp [table,hstd,hk]) (by simp [table,hn]) hls)

theorem mem_closed_closeListener (m : Manager) (a : Answers) (listener id : ℕ) :
    id ∈ (m.closeListener a listener).closed ↔
      id ∈ m.closed ∨ id = listener ∧ (a.close listener).gone := by
  unfold Manager.closeListener
  split_ifs with hgn
  · simp [hgn,or_comm]
  · simp [hgn]

theorem closeListener_same (m : Manager) (a : Answers) (listener : ℕ) :
    (m.closeListener a listener).servers = m.servers ∧
      (m.closeListener a listener).opened = m.opened := by
  unfold Manager.closeListener
  split_ifs <;> exact ⟨rfl,rfl⟩

theorem closeEntries_same (a : Answers) (m : Manager) (ents : Map ℤ Entry) (keys : List ℤ) :
    (m.closeEntries a ents keys).servers = m.servers ∧
      (m.closeEntries a ents keys).opened = m.opened := by
  refine foldl_invariant (I := fun m' : Manager => m'.servers = m.servers ∧ m'.opened = m.opened) ?_ ⟨rfl,rfl⟩
  intro m' n _ hm'
  split
  · obtain ⟨hserv,hopd⟩ := closeListener_same m' a _
    exact ⟨hserv.trans hm'.1,hopd.trans hm'.2⟩
  · exact hm'

theorem mem_closed_closeEntries (a : Answers) (m : Manager) (ents : Map ℤ Entry)
    (keys : List ℤ) (id : ℕ) : id ∈ (m.closeEntries a ents keys).closed ↔
      id ∈ m.closed ∨ ∃ n ∈ keys, ∃ e, ents.lookup n = some e ∧ id = e.listener ∧
        (a.close e.listener).gone := by
  induction keys generalizing m with
  | nil => simp [Manager.closeEntries]
  | cons n keys ih =>
    rw [Manager.closeEntries,foldl_cons]
    change id ∈ (Manager.closeEntries a _ ents keys).closed ↔ _
    rw [ih,exists_mem_cons_iff,← or_assoc]
    cases hn : ents.lookup n with
    | none => simp
    | some e => simp [mem_closed_closeListener]

/-- The rollback of a failed convergence loses no listener exactly if each it started closes. -/
theorem recorded_closeEntries_iff (h : Kept (m,started))
    (hacco : Accounted (table m started) m.opened m.closed) (a : Answers) (order : Order ℤ) :
    (m.closeEntries a started (order started.keys).1).Recorded ↔
      ∀ n e, started.lookup n = some e → (a.close e.listener).gone := by
  obtain ⟨hserv,hopd⟩ := closeEntries_same a m started (order started.keys).1
  have hcls := mem_closed_closeEntries a m started (order started.keys).1
  have hkey : ∀ {n e}, started.lookup n = some e → n ∈ (order started.keys).1 := fun hn =>
    order.mem_keys.2 (by rw [hn]; rfl)
  unfold Manager.Recorded
  rw [hserv,hopd]
  constructor
  · intro hrec n e hn
    by_contra hfa
    have htab : table m started n = some e := by simp [table,hn]
    obtain ⟨hlt,hop⟩ := h.sound.live n e htab
    obtain ⟨k,x,hk,hx⟩ := hrec e.listener hlt fun hmem => by
      obtain hmem | ⟨k,-,x,hk,hx,hgn⟩ := (hcls e.listener).1 hmem
      · exact hop hmem
      · exact hfa (hx ▸ hgn)
    exact h.not_in_servers hn k x hk hx
  · intro hgn id hid hop
    obtain ⟨n,e,hn,he⟩ := hacco id hid fun hmem => hop ((hcls id).2 (.inl hmem))
    cases hs : started.lookup n with
    | none => exact ⟨n,e,by simpa [table,hs] using hn,he⟩
    | some x =>
      obtain rfl : x = e := by simpa [table,hs] using hn
      exact absurd ((hcls id).2 (.inr ⟨n,hkey hs,x,hs,he.symm,hgn n x hs⟩)) hop

theorem sound_closeEntries (h : Kept (m,started))
    (a : Answers) (keys : List ℤ) : (m.closeEntries a started keys).Sound := by
  obtain ⟨hserv,hopd⟩ := closeEntries_same a m started keys
  have hcls := mem_closed_closeEntries a m started keys
  have hsnd := h.servers
  unfold Manager.Sound
  rw [hserv,hopd]
  refine ⟨fun n e hn => ⟨(hsnd.live n e hn).1,fun hmem => ?_⟩,hsnd.unique,fun id hid => ?_⟩
  · obtain hmem | ⟨k,-,x,hk,hx,-⟩ := (hcls e.listener).1 hmem
    · exact (hsnd.live n e hn).2 hmem
    · exact h.not_in_servers hk n e hn hx
  · obtain hid | ⟨k,-,x,hk,rfl,-⟩ := (hcls id).1 hid
    · exact hsnd.born id hid
    · exact (h.sound.live k x (by simp [table,hk])).1

theorem recorded_iff_no_started (h : Kept (m,started))
    (hacco : Accounted (table m started) m.opened m.closed) :
    m.Recorded ↔ ∀ n, started.lookup n = none := by
  constructor
  · intro hrec n
    cases hs : started.lookup n with
    | none => rfl
    | some e =>
      obtain ⟨hlt,hop⟩ := h.sound.live n e (by simp [table,hs])
      obtain ⟨k,x,hk,hx⟩ := hrec e.listener hlt hop
      exact absurd hx (h.not_in_servers hs k x hk)
  · intro hno
    have htab : table m started = m.servers.lookup := by
      funext n
      simp [table,hno n]
    unfold Manager.Recorded
    rw [← htab]
    exact hacco

theorem lookup_merge (m : Manager) (started : Map ℤ Entry) :
    (started ∪ m.servers).lookup = table m started := by
  funext n
  cases hs : started.lookup n with
  | none =>
    have hnot : n ∉ started := Finmap.lookup_eq_none.1 hs
    rw [Finmap.lookup_union_right hnot]
    simp [table,hs]
  | some e =>
    simp [table,hs]

/-- A release, a close or a rollback must not fail to close a listener, nor a convergence that
started some a surplus one. -/
def NoLeak (m : Manager) : Call → Prop
  | .converge a order reservations subnets extra =>
    reservations →
      let desired := normalizeLinuxSubnetIndexes (subnets++extra)
      match m.bind a ∅ desired with
      | (_,started,some _) => ∀ n e, started.lookup n = some e → (a.close e.listener).gone
      | (m,started,none) =>
        (m.dropSurplus a desired (order m.servers.keys).1).2 = none ∨
          ∀ n, started.lookup n = none
  | .release a subnetIndex =>
    ∀ e, m.servers.lookup subnetIndex = some e → (a.close e.listener).gone
  | .close a _ => ∀ n e, m.servers.lookup n = some e → (a.close e.listener).gone

theorem bind_kept (h : m.Sound) (a : Answers) (indexes : List ℤ) :
    Kept ((m.bind a ∅ (normalizeLinuxSubnetIndexes indexes)).1,
      (m.bind a ∅ (normalizeLinuxSubnetIndexes indexes)).2.1) ∧
      (m.Recorded → Accounted (table (m.bind a ∅ (normalizeLinuxSubnetIndexes indexes)).1
        (m.bind a ∅ (normalizeLinuxSubnetIndexes indexes)).2.1)
          (m.bind a ∅ (normalizeLinuxSubnetIndexes indexes)).1.opened
          (m.bind a ∅ (normalizeLinuxSubnetIndexes indexes)).1.closed) := by
  have htu := turns_bind a m ∅ (normalizeLinuxSubnetIndexes indexes)
    (nodup_normalizeLinuxSubnetIndexes indexes) (fun n _ => by simp)
  refine ⟨htu.keep Turn.kept h.kept,fun hrec => ?_⟩
  refine Turns.keep (I := fun x => Accounted (table x.1 x.2) x.1.opened x.1.closed)
    Turn.accounted htu ?_
  exact hrec

theorem converge_recorded (h : m.Sound) (a : Answers) (order : Order ℤ)
    (reservations : Bool) (subnets extra : List ℤ) :
    (m.converge a order reservations subnets extra).1.Sound ∧
      (m.Recorded → ((m.converge a order reservations subnets extra).1.Recorded ↔
        NoLeak m (.converge a order reservations subnets extra))) := by
  cases reservations with
  | false =>
    refine ⟨h,fun hrec => iff_of_true hrec ?_⟩
    intro hfalse
    cases hfalse
  | true =>
    obtain ⟨hkp,hacco⟩ := bind_kept h a (subnets++extra)
    simp only [Manager.converge,NoLeak,Bool.true_eq_false,if_false,true_implies]
    generalize m.bind a ∅ (normalizeLinuxSubnetIndexes (subnets++extra)) = bound at hkp hacco
    obtain ⟨m₁,started,error⟩ := bound
    cases error with
    | some e =>
      refine ⟨sound_closeEntries hkp a _,fun hrec => ?_⟩
      exact recorded_closeEntries_iff hkp (hacco hrec) a order
    | none =>
      have htu := turns_dropSurplus a (normalizeLinuxSubnetIndexes (subnets++extra)) m₁ hkp
        (order m₁.servers.keys).1
      simp only
      generalize m₁.dropSurplus a (normalizeLinuxSubnetIndexes (subnets++extra))
        (order m₁.servers.keys).1 = dropped at htu
      obtain ⟨m₂,error⟩ := dropped
      have hkp₂ : Kept (m₂,started) := htu.keep Turn.kept hkp
      have hacco₂ : m.Recorded → Accounted (table m₂ started) m₂.opened m₂.closed :=
        fun hrec => Turns.keep (I := fun x => Accounted (table x.1 x.2) x.1.opened x.1.closed)
          Turn.accounted htu (hacco hrec)
      cases error with
      | some e =>
        refine ⟨hkp₂.servers,fun hrec => ?_⟩
        simpa using recorded_iff_no_started hkp₂ (hacco₂ hrec)
      | none =>
        refine ⟨?_,fun hrec => iff_of_true ?_ (.inl rfl)⟩
        · simp only [Manager.Sound,lookup_merge]
          exact hkp₂.sound
        · simp only [Manager.Recorded,lookup_merge]
          exact hacco₂ hrec

/-- The entries of the subnets are deleted, whether or not their listeners close. -/
structure Deleted (a : Answers) (m : Manager) (gone : ℤ → Prop) (m' : Manager) : Prop where
  opened : m'.opened = m.opened
  servers : ∀ n e, m'.servers.lookup n = some e ↔ m.servers.lookup n = some e ∧ ¬ gone n
  closed : ∀ id, id ∈ m'.closed ↔ id ∈ m.closed ∨ ∃ n, gone n ∧ ∃ e,
    m.servers.lookup n = some e ∧ id = e.listener ∧ (a.close e.listener).gone

variable {gone : ℤ → Prop} {m' : Manager} {a : Answers}

theorem Deleted.sound (h : Deleted a m gone m')
    (hm : m.Sound) : m'.Sound := by
  unfold Manager.Sound
  rw [h.opened]
  refine ⟨fun n e hn => ?_,fun n n' e e' hn hn' => ?_,fun id hid => ?_⟩
  · obtain ⟨hn,hstays⟩ := (h.servers n e).1 hn
    refine ⟨(hm.live n e hn).1,fun hmem => ?_⟩
    obtain hmem | ⟨k,hk,x,hx,hls,-⟩ := (h.closed _).1 hmem
    · exact (hm.live n e hn).2 hmem
    · obtain rfl := hm.unique n k e x hn hx hls
      exact hstays hk
  · exact hm.unique n n' e e' ((h.servers n e).1 hn).1 ((h.servers n' e').1 hn').1
  · obtain hid | ⟨k,-,x,hx,rfl,-⟩ := (h.closed id).1 hid
    · exact hm.born id hid
    · exact (hm.live k x hx).1

theorem Deleted.recorded_iff (h : Deleted a m gone m') (hm : m.Sound) (hrec : m.Recorded) :
    m'.Recorded ↔ ∀ n e, gone n → m.servers.lookup n = some e →
      (a.close e.listener).gone := by
  unfold Manager.Recorded
  rw [h.opened]
  constructor
  · intro haft n e hn he
    by_contra hfa
    obtain ⟨hlt,hop⟩ := hm.live n e he
    obtain ⟨k,x,hk,hx⟩ := haft e.listener hlt fun hmem => by
      obtain hmem | ⟨k,-,x,hx,hls,hgn⟩ := (h.closed _).1 hmem
      · exact hop hmem
      · exact hfa (hls ▸ hgn)
    obtain ⟨hk,hstays⟩ := (h.servers k x).1 hk
    obtain rfl := hm.unique k n x e hk he hx
    exact hstays hn
  · intro hgn id hid hop
    obtain ⟨n,e,hn,he⟩ := hrec id hid fun hmem => hop ((h.closed id).2 (.inl hmem))
    refine ⟨n,e,(h.servers n e).2 ⟨hn,fun hdele => hop ?_⟩,he⟩
    exact (h.closed id).2 (.inr ⟨n,hdele,e,hn,he.symm,hgn n e hdele hn⟩)

theorem Deleted.congr {gone' : ℤ → Prop}
    (h : Deleted a m gone m')
    (hgn : ∀ n e, m.servers.lookup n = some e → (gone n ↔ gone' n)) : Deleted a m gone' m' where
  opened := h.opened
  servers n e := (h.servers n e).trans
    (and_congr_right fun hn => not_congr (hgn n e hn))
  closed id := by
    rw [h.closed]
    refine or_congr_right (exists_congr fun n => ?_)
    constructor
    · rintro ⟨hn,e,he,hrs⟩
      exact ⟨(hgn n e he).1 hn,e,he,hrs⟩
    · rintro ⟨hn,e,he,hrs⟩
      exact ⟨(hgn n e he).2 hn,e,he,hrs⟩

theorem Deleted.trans {m₁ m₂ : Manager} {gone' : ℤ → Prop}
    (h : Deleted a m gone m₁) (h' : Deleted a m₁ gone' m₂) :
    Deleted a m (fun n => gone n ∨ gone' n) m₂ where
  opened := h'.opened.trans h.opened
  servers n e := by
    rw [h'.servers,h.servers,not_or,and_assoc]
  closed id := by
    rw [h'.closed,h.closed,or_assoc]
    refine or_congr_right ?_
    constructor
    · rintro (⟨n,hn,hrs⟩ | ⟨n,hn,e,he,hrs⟩)
      · exact ⟨n,.inl hn,hrs⟩
      · exact ⟨n,.inr hn,e,((h.servers n e).1 he).1,hrs⟩
    · rintro ⟨n,hn,e,he,hrs⟩
      by_cases hfst : gone n
      · exact .inl ⟨n,hfst,e,he,hrs⟩
      · exact .inr ⟨n,hn.resolve_left hfst,e,(h.servers n e).2 ⟨he,hfst⟩,hrs⟩

theorem deleted_forget (a : Answers) {idx : ℤ} {entry : Entry}
    (hent : m.servers.lookup idx = some entry) :
    Deleted a m (· = idx) (m.forget a idx entry) where
  opened := (closeListener_same m a entry.listener).2
  servers n e := by
    by_cases hn : n = idx
    · subst hn
      simp [Manager.forget]
    · simp [Manager.forget,hn]
  closed id := by simp [Manager.forget,mem_closed_closeListener,hent]

theorem deleted_release (a : Answers) (m : Manager) (idx : ℤ) :
    Deleted a m (· = idx) (m.release a idx).1 := by
  unfold Manager.release
  split
  · rename_i hno
    refine ⟨rfl,fun n e => ⟨fun hn => ⟨hn,?_⟩,And.left⟩,fun id => ?_⟩
    · rintro rfl
      exact nomatch hno.symm.trans hn
    · simp [hno]
  · rename_i entry hent
    exact deleted_forget a hent

theorem deleted_close (a : Answers) (keys : List ℤ) (m : Manager) :
    Deleted a m (· ∈ keys) (m.close a keys).1 := by
  induction keys generalizing m with
  | nil => exact ⟨rfl,fun n e => by simp [Manager.close],fun id => by simp [Manager.close]⟩
  | cons n keys ih =>
    rw [Manager.close]
    split
    · rename_i hn
      refine (ih m).congr fun k e hk => ?_
      simp only [mem_cons,iff_or_self]
      rintro rfl
      exact nomatch hn.symm.trans hk
    · rename_i entry hn
      refine ((deleted_forget a hn).trans (ih (m.forget a n entry))).congr fun k e _ => ?_
      simp

theorem step_sound {c : Call} (h : m.Sound) (hst : step m c = some m') :
    m'.Sound := by
  cases c with
  | converge a order reservations subnets extra =>
    cases hst
    exact (converge_recorded h a order reservations subnets extra).1
  | release a idx =>
    cases hst
    exact (deleted_release a m idx).sound h
  | close a order =>
    cases hst
    exact (deleted_close a _ m).sound h

theorem step_recorded_iff {c : Call} (h : m.Sound) (hrec : m.Recorded)
    (hst : step m c = some m') : m'.Recorded ↔ NoLeak m c := by
  cases c with
  | converge a order reservations subnets extra =>
    cases hst
    exact (converge_recorded h a order reservations subnets extra).2 hrec
  | release a idx =>
    cases hst
    rw [(deleted_release a m idx).recorded_iff h hrec]
    exact ⟨fun hall e he => hall idx e rfl he,fun hall n e hn he => hall e (hn ▸ he)⟩
  | close a order =>
    cases hst
    rw [(deleted_close a _ m).recorded_iff h hrec]
    refine forall₂_congr fun n e => ⟨fun hall he => hall (order.mem_keys.2 ?_) he,
      fun hall _ => hall⟩
    rw [he]
    rfl

theorem initial_sound : Manager.initial.Sound where
  live n e hn := by simp [Manager.initial] at hn
  unique n n' e e' hn := by simp [Manager.initial] at hn
  born id hid := by simp [Manager.initial] at hid

lemma initial_recorded : Manager.initial.Recorded := by
  intro id hid
  exact absurd hid (Nat.not_lt_zero id)

/-- Every open listener is in the table exactly as long as no call loses one: a release, a close and
a rollback forget a listener that fails to close, and a convergence that fails to close a surplus
one forgets those it started. -/
theorem open_listeners_recorded_iff (calls : List Call) :
    Throughout step Manager.Recorded .initial calls ↔ Each step NoLeak .initial calls :=
  StepRuns.throughout_iff_each (fun _ _ _ h hstep => step_sound h hstep)
    (fun _ _ _ h hrec hstep => step_recorded_iff h hrec hstep) initial_sound
    initial_recorded

/-- A host with every bridge, on which every listener opens. -/
def host (close : ℕ → CloseAnswer) : Answers := ⟨fun _ => some 7,fun _ => true,close⟩

/-- The cluster of subnet 2 goes and one of subnet 1 comes; the old listener does not close. -/
def movedCluster : List Call :=
  [.converge (host fun _ => .closed) Order.sorted true [2] [],
    .converge (host fun listener => if listener = 0 then .failed else .closed) Order.sorted true [1] []]

/-- The second convergence has opened the listener of subnet 1 and forgets it. -/
theorem surplus_failure_forgets_started :
    ((StepRuns.run step .initial movedCluster).map fun m => (m.opened,m.closed,m.servers)) =
        some (2,∅,Finmap.singleton 2 ⟨0,7⟩) ∧
      ¬ Throughout step Manager.Recorded .initial movedCluster := by
  have hend : ((StepRuns.run step .initial movedCluster).map fun m =>
      (m.opened,m.closed,m.servers)) = some (2,∅,Finmap.singleton 2 ⟨0,7⟩) := by
    decide +kernel
  refine ⟨hend,fun h => ?_⟩
  obtain ⟨m,hrun,hm⟩ := Option.map_eq_some_iff.mp hend
  obtain ⟨hopened,hrest⟩ := Prod.mk.inj hm
  obtain ⟨hcls,hserv⟩ := Prod.mk.inj hrest
  obtain ⟨n,e,hn,he⟩ := h movedCluster m prefix_rfl hrun 1 (by simp [hopened])
    (by simp [hcls])
  have hfnd : (Finmap.singleton 2 ⟨0,7⟩ : Map ℤ Entry).lookup n = some e := hserv ▸ hn
  have hmem : n ∈ (Finmap.singleton 2 ⟨0,7⟩ : Map ℤ Entry) := Finmap.mem_iff.mpr ⟨e,hfnd⟩
  obtain rfl : n = 2 := (Finmap.mem_singleton _ _ _).mp hmem
  obtain rfl := Option.some.inj hfnd
  cases he

end TalosBox.HelperDhcp
