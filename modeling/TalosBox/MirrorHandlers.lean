import TalosBox.MirrorPaths
import TalosBox.MapLoops
import TalosBox.Recency
import TalosBox.StepRuns

/-! The handlers the catch-all mirror makes on demand. Four maps and a list go by the same keys; a
handler used again moves to the end of the list, and a new one drives out those at its beginning. -/
namespace TalosBox.Handlers

open Finmap (keys_erase lookup_erase_ne mem_iff)
open List Option
open MapLoops (Map Order)
open Mirror (Text)
open Recency (recent)

/-- A mirror server, by number or nil, or another type, which may have idle connections to close. -/
inductive Handler
  | mirror (server : Option ℕ)
  | other (id : ℕ) (idle : Bool)
  deriving DecidableEq

/-- A call of `CloseIdleConnections`. -/
inductive Call
  | server (id : ℕ)
  | handler (id : ℕ)
  deriving DecidableEq

/-- The key and the element say whose closer it is; the code knows the calls alone. -/
structure Closer where
  key : Text
  element : ℕ
  calls : List Call
  deriving DecidableEq

structure Element where
  id : ℕ
  key : Text
  deriving DecidableEq

structure Dynamic where
  handlers : Map Text Handler
  servers : Map Text (Option ℕ)
  order : List Element
  lruEntries : Map Text ℕ
  closers : Map Text Closer
  nextElement : ℕ
  nextServer : ℕ

def newDynamic : Dynamic := ⟨∅,∅,[],∅,∅,0,0⟩

def dynamicHandlerCloser : Handler → Option Call
  | .mirror server => server.map Call.server
  | .other id idle => if idle then some (.handler id) else none

def dynamicResourceCloser (handler : Handler) (retained : Option ℕ) : List Call :=
  retained.toList.map Call.server ++
    if handler = .mirror retained then [] else (dynamicHandlerCloser handler).toList

def dynamicHandlerCap : ℕ := 64

def effectiveDynamicCap (dynamicCap : ℤ) : ℕ := if 0 < dynamicCap then dynamicCap.toNat else dynamicHandlerCap

/-- `MoveToBack`. -/
def moveToBack (id : ℕ) (order : List Element) : List Element :=
  order.filter (·.id ≠ id)++(order.find? (·.id = id)).toList

namespace Dynamic

variable (d : Dynamic)

def touch (key : Text) : Dynamic :=
  match d.lruEntries.lookup key with
  | some id => { d with order := moveToBack id d.order }
  | none => d

def removeDynamicLocked (key : Text) : Option Closer × Dynamic :=
  (d.closers.lookup key,
    { d with
      handlers := d.handlers.erase key
      servers := d.servers.erase key
      order :=
        match d.lruEntries.lookup key with
        | some id => d.order.filter (·.id ≠ id)
        | none => d.order
      lruEntries := d.lruEntries.erase key
      closers := d.closers.erase key })

/-- The loop, with as many rounds as the list can give. -/
def evictRounds (cap : ℕ) : ℕ → Dynamic → List Closer × Dynamic
  | 0, d => ([],d)
  | n+1, d =>
    if d.handlers.keys.card ≤ cap then ([],d)
    else
      match d.order.head? with
      | none => ([],d)
      | some front =>
        let (closer,d) := d.removeDynamicLocked front.key
        let (closers,d) := evictRounds cap n d
        (closer.toList++closers,d)

def evictDynamicLocked (cap : ℕ) : List Closer × Dynamic := evictRounds cap d.order.length d

def removeAll : List Text → Dynamic → List Closer × Dynamic
  | [], d => ([],d)
  | key::keys, d =>
    let (closer,d) := d.removeDynamicLocked key
    let (closers,d) := removeAll keys d
    (closer.toList++closers,d)

/-- `iteration` is the order in which the loop over the map finds the keys. -/
def drainDynamicLocked (iteration : Order Text) : List Closer × Dynamic :=
  removeAll (iteration d.handlers.keys).1 d

/-- The server that is kept: the factory's, if it made one, or a new one. -/
def retainedServer (made : Option Handler) : Option ℕ :=
  match made with
  | some (.mirror server) => server
  | _ => some d.nextServer

/-- The closer of an entry that is put in for the key, if it has anything to close. -/
def newCloser (key : Text) (made : Option Handler) : Option Closer :=
  let retained := d.retainedServer made
  let calls := dynamicResourceCloser (made.getD (.mirror retained)) retained
  if calls = [] then none else some ⟨key,d.nextElement,calls⟩

def add (key : Text) (made : Option Handler) : Dynamic :=
  let retained := d.retainedServer made
  { handlers := d.handlers.insert key (made.getD (.mirror retained))
    servers := d.servers.insert key retained
    order := d.order++[⟨d.nextElement,key⟩]
    lruEntries := d.lruEntries.insert key d.nextElement
    closers := (d.newCloser key made).elim d.closers fun closer => d.closers.insert key closer
    nextElement := d.nextElement+1
    nextServer := match made with
      | some (.mirror _) => d.nextServer
      | _ => d.nextServer+1 }

end Dynamic

structure Manager where
  dynamic : Dynamic
  /-- Closers that calls of `Close` have taken out and not run yet. -/
  closing : List Closer
  /-- The closers run, the keys used and the closers made so far. Nothing reads them. -/
  ran : List Closer
  uses : List Text
  made : List Closer

def newManager : Manager := ⟨newDynamic,[],[],[],[]⟩

variable (dynamicCap : ℤ) (iteration : Order Text)

def dynamicHandler (m : Manager) (key : Text) : Option Handler × Manager :=
  match m.dynamic.handlers.lookup key with
  | none => (none,m)
  | some handler => (some handler,{ m with dynamic := m.dynamic.touch key, uses := m.uses++[key] })

/-- `made` is what the server factory returns, if there is one and it returns a handler. -/
def handlerAndServerForUpstream (m : Manager) (key : Text) (made : Option Handler) :
    (Handler × Option ℕ) × Manager :=
  match m.dynamic.handlers.lookup key with
  | some handler =>
    ((handler,(m.dynamic.servers.lookup key).getD none),
      { m with dynamic := m.dynamic.touch key, uses := m.uses++[key] })
  | none =>
    let retained := m.dynamic.retainedServer made
    let (closers,dynamic) := (m.dynamic.add key made).evictDynamicLocked (effectiveDynamicCap dynamicCap)
    ((made.getD (.mirror retained),retained),
      { m with
        dynamic := dynamic
        ran := m.ran++closers
        uses := m.uses++[key]
        made := m.made++(m.dynamic.newCloser key made).toList })

/-- `Close` up to where it lets go of the lock. -/
def close (m : Manager) : Manager :=
  let (closers,dynamic) := m.dynamic.drainDynamicLocked iteration
  { m with dynamic := dynamic, closing := m.closing++closers }

inductive Move
  | lookup (key : Text)
  | upstream (key : Text) (made : Option Handler)
  | close
  /-- A call of `Close` runs a closer it has taken out. -/
  | runCloser (closer : Closer)

def step (m : Manager) : Move → Option Manager
  | .lookup key => some (dynamicHandler m key).2
  | .upstream key made => some (handlerAndServerForUpstream dynamicCap m key made).2
  | .close => some (close iteration m)
  | .runCloser closer =>
    if closer ∈ m.closing then some { m with closing := m.closing.erase closer, ran := m.ran++[closer] }
    else none

def Dynamic.keys (d : Dynamic) : List Text := d.order.map Element.key

structure Dynamic.Sound (d : Dynamic) (uses : List Text) : Prop where
  servers : d.servers.keys = d.handlers.keys
  entries : ∀ key id, d.lruEntries.lookup key = some id ↔ ⟨id,key⟩ ∈ d.order
  ids : (d.order.map Element.id).Nodup
  below : ∀ e ∈ d.order, e.id < d.nextElement
  recent : d.keys = recent d.handlers.keys uses
  used : ∀ key ∈ d.handlers.keys, key ∈ uses
  closers : ∀ key c, d.closers.lookup key = some c → c.key = key ∧ key ∈ d.handlers.keys

namespace Dynamic

variable {d : Dynamic} {uses : List Text} {key : Text} {id : ℕ}

lemma Sound.nodup (h : d.Sound uses) : d.keys.Nodup := h.recent ▸ Recency.nodup_recent _ _

lemma Sound.mem_keys (h : d.Sound uses) : key ∈ d.keys ↔ key ∈ d.handlers.keys := by
  rw [h.recent,Recency.recent,mem_filter,mem_dedup,decide_eq_true_eq]
  exact ⟨fun hkey => hkey.2,fun hkey => ⟨h.used key hkey,hkey⟩⟩

theorem Sound.length (h : d.Sound uses) : d.order.length = d.handlers.keys.card := by
  have hset : d.keys.toFinset = d.handlers.keys := by
    ext key
    rw [List.mem_toFinset,h.mem_keys]
  rw [← hset,toFinset_card_of_nodup h.nodup,keys,length_map]

lemma mem_keys_of_order (h : ⟨id,key⟩ ∈ d.order) : key ∈ d.keys := mem_map.2 ⟨_,h,rfl⟩

section

variable (h : d.Sound uses)
include h

theorem Sound.lruEntries : d.lruEntries.keys = d.handlers.keys := by
  ext key
  rw [← h.mem_keys,Finmap.mem_keys,mem_iff]
  constructor
  · rintro ⟨id,hid⟩
    exact mem_keys_of_order ((h.entries key id).1 hid)
  · intro hkey
    obtain ⟨e,he,rfl⟩ := mem_map.1 hkey
    exact ⟨e.id,(h.entries e.key e.id).2 he⟩

theorem Sound.id_iff (hmem : ⟨id,key⟩ ∈ d.order) {e : Element} (he : e ∈ d.order) :
    e.id = id ↔ e.key = key := by
  constructor
  · intro hid
    rw [inj_on_of_nodup_map h.ids he hmem hid]
  · intro hkey
    rw [inj_on_of_nodup_map h.nodup he hmem hkey]

theorem Sound.filter_keys (hmem : ⟨id,key⟩ ∈ d.order) :
    (d.order.filter (·.id ≠ id)).map Element.key = d.keys.filter (· ≠ key) := by
  rw [keys,List.filter_map]
  congr 1
  refine filter_congr fun e he => ?_
  simp [h.id_iff hmem he]

lemma Sound.lookup_eq_none (hno : d.lruEntries.lookup key = none) : key ∉ d.keys := by
  rw [h.mem_keys,← h.lruEntries,Finmap.mem_keys]
  exact Finmap.lookup_eq_none.1 hno

theorem Sound.keys_remove (key : Text) :
    (d.removeDynamicLocked key).2.keys = d.keys.filter (· ≠ key) := by
  cases hid : d.lruEntries.lookup key with
  | none =>
    have hall : ∀ key' ∈ d.keys, decide (key' ≠ key) := by
      intro key' hkey'
      refine decide_eq_true ?_
      rintro rfl
      exact h.lookup_eq_none hid hkey'
    rw [filter_eq_self.2 hall]
    simp [removeDynamicLocked,keys,hid]
  | some id =>
    rw [← h.filter_keys ((h.entries key id).1 hid)]
    simp [removeDynamicLocked,keys,hid]

theorem Sound.mem_order_remove {e : Element} :
    e ∈ (d.removeDynamicLocked key).2.order ↔ e ∈ d.order ∧ e.key ≠ key := by
  cases hid : d.lruEntries.lookup key with
  | none =>
    have hno := h.lookup_eq_none hid
    have hne : e ∈ d.order → e.key ≠ key := by
      rintro he rfl
      exact hno (mem_keys_of_order he)
    simpa [removeDynamicLocked,hid] using hne
  | some id =>
    simp only [removeDynamicLocked,hid,mem_filter,decide_eq_true_eq]
    exact and_congr_right fun he => not_congr (h.id_iff ((h.entries key id).1 hid) he)

end

theorem remove_order_sublist (d : Dynamic) (key : Text) : (d.removeDynamicLocked key).2.order.Sublist d.order := by
  simp only [removeDynamicLocked]
  split
  · exact filter_sublist
  · exact Sublist.refl _

theorem Sound.remove (h : d.Sound uses) (key : Text) : (d.removeDynamicLocked key).2.Sound uses where
  servers := by
    show (d.servers.erase key).keys = (d.handlers.erase key).keys
    rw [keys_erase,keys_erase,h.servers]
  entries key' id := by
    rw [h.mem_order_remove,← h.entries]
    show (d.lruEntries.erase key).lookup key' = some id ↔ _
    by_cases hkey : key' = key
    · subst hkey
      simp
    · simp [hkey]
  ids := h.ids.sublist ((remove_order_sublist d key).map _)
  below e he := h.below e ((remove_order_sublist d key).subset he)
  recent := by
    show _ = Recency.recent (d.handlers.erase key).keys uses
    rw [h.keys_remove,keys_erase,Recency.recent_erase,← h.recent]
  used key' hkey' := by
    have hold : key' ∈ (d.handlers.erase key).keys := hkey'
    rw [keys_erase] at hold
    exact h.used key' (Finset.mem_of_mem_erase hold)
  closers key' c hc := by
    have hlk : (d.closers.erase key).lookup key' = some c := hc
    have hne : key' ≠ key := by
      rintro rfl
      simp at hlk
    rw [lookup_erase_ne hne] at hlk
    obtain ⟨hkey,hmem⟩ := h.closers key' c hlk
    refine ⟨hkey,?_⟩
    show key' ∈ (d.handlers.erase key).keys
    rw [keys_erase]
    exact Finset.mem_erase.2 ⟨hne,hmem⟩

/-- The closer is one the map holds. -/
def live (d : Dynamic) (c : Closer) : ℕ := if d.closers.lookup c.key = some c then 1 else 0

theorem Sound.count_remove (h : d.Sound uses) (key : Text) (c : Closer) :
    (d.removeDynamicLocked key).1.toList.count c + (d.removeDynamicLocked key).2.live c = d.live c := by
  show (d.closers.lookup key).toList.count c + (if (d.closers.erase key).lookup c.key = some c then 1 else 0) = _
  by_cases hkey : c.key = key
  · have hcnt : (d.closers.lookup key).toList.count c = d.live c := by
      rw [live,hkey]
      cases d.closers.lookup key with
      | none => rfl
      | some c' => simp [count_singleton]
    rw [hcnt,hkey]
    simp
  · have hcnt : (d.closers.lookup key).toList.count c = 0 := by
      cases hlk : d.closers.lookup key with
      | none => rfl
      | some c' =>
        have hne : c' ≠ c := by
          rintro rfl
          exact hkey (h.closers key c' hlk).1
        simp [hne]
    rw [hcnt,lookup_erase_ne hkey,live,zero_add]

/-- Entries were taken out: the closers taken out are those the map no longer holds. -/
structure Taken (d d' : Dynamic) (uses : List Text) (closers : List Closer) : Prop where
  sound : d'.Sound uses
  next : d'.nextElement = d.nextElement
  count : ∀ c, closers.count c + d'.live c = d.live c

lemma Sound.taken (h : d.Sound uses) : d.Taken d uses [] := ⟨h,rfl,fun c => by simp⟩

theorem Taken.cons {d' : Dynamic} {closers : List Closer} (h : d.Sound uses)
    (htkn : (d.removeDynamicLocked key).2.Taken d' uses closers) :
    d.Taken d' uses ((d.removeDynamicLocked key).1.toList++closers) := by
  refine ⟨htkn.sound,htkn.next,fun c => ?_⟩
  rw [count_append,Nat.add_assoc,htkn.count,h.count_remove]

theorem removeAll_taken (h : d.Sound uses) (keys : List Text) :
    d.Taken (removeAll keys d).2 uses (removeAll keys d).1 ∧
      (removeAll keys d).2.keys = d.keys.filter (· ∉ keys) := by
  induction keys generalizing d with
  | nil =>
    refine ⟨h.taken,?_⟩
    simp [removeAll]
  | cons key keys ih =>
    obtain ⟨htkn,hks⟩ := ih (h.remove key)
    refine ⟨Taken.cons h htkn,?_⟩
    show (removeAll keys (d.removeDynamicLocked key).2).2.keys = _
    rw [hks,h.keys_remove,List.filter_filter]
    simp [Bool.and_comm]

theorem drain_taken (h : d.Sound uses) (iteration : Order Text) :
    d.Taken (d.drainDynamicLocked iteration).2 uses (d.drainDynamicLocked iteration).1 ∧
      (d.drainDynamicLocked iteration).2.keys = [] := by
  obtain ⟨htkn,hks⟩ := removeAll_taken h (iteration d.handlers.keys).1
  refine ⟨htkn,hks.trans ?_⟩
  rw [filter_eq_nil_iff]
  intro key hkey
  simp [h.mem_keys.1 hkey]

theorem Sound.head (h : d.Sound uses) {front : Element} {rest : List Element} (horder : d.order = front::rest) :
    (d.removeDynamicLocked front.key).2.keys = d.keys.tail := by
  have hnd := h.nodup
  rw [keys,horder,map_cons,nodup_cons] at hnd
  rw [h.keys_remove,keys,horder,map_cons,filter_cons_of_neg (by simp),tail_cons,filter_eq_self]
  intro key hkey
  refine decide_eq_true ?_
  rintro rfl
  exact hnd.1 hkey

lemma length_keys (d : Dynamic) : d.keys.length = d.order.length := length_map _

/-- The loop ends within the cap; it has taken out the first entries of the list. -/
theorem evictRounds_taken (cap : ℕ) {n : ℕ} (h : d.Sound uses) (hn : d.order.length ≤ n) :
    d.Taken (evictRounds cap n d).2 uses (evictRounds cap n d).1 ∧
      (evictRounds cap n d).2.keys = d.keys.drop (d.keys.length-cap) ∧
      (evictRounds cap n d).2.handlers.keys.card ≤ cap := by
  induction n generalizing d with
  | zero =>
    have hlen : d.keys.length = 0 := by rw [length_keys]; omega
    refine ⟨h.taken,?_,?_⟩
    · simp [evictRounds,hlen]
    · show d.handlers.keys.card ≤ cap
      rw [← h.length]
      omega
  | succ n ih =>
    rw [evictRounds]
    by_cases hcap : d.handlers.keys.card ≤ cap
    · have hz : d.keys.length-cap = 0 := by
        rw [length_keys,h.length]
        omega
      rw [if_pos hcap,hz]
      exact ⟨h.taken,rfl,hcap⟩
    · rw [if_neg hcap]
      cases horder : d.order with
      | nil =>
        rw [← h.length,horder] at hcap
        simp at hcap
      | cons front rest =>
        have hks := h.head horder
        have hlen : (d.removeDynamicLocked front.key).2.keys.length + 1 = d.keys.length := by
          rw [hks,length_keys,horder,length_tail,length_keys,horder]
          simp
        obtain ⟨htkn,hrs,hcard⟩ := ih (h.remove front.key) (by rw [← length_keys]; rw [← length_keys] at hn; omega)
        refine ⟨Taken.cons h htkn,?_,hcard⟩
        show (evictRounds cap n (d.removeDynamicLocked front.key).2).2.keys = _
        rw [hrs,hks,← drop_one,drop_drop,length_drop]
        congr 1
        rw [← h.length,← length_keys] at hcap
        omega

theorem Sound.moveToBack (h : d.Sound uses) (hmem : ⟨id,key⟩ ∈ d.order) :
    moveToBack id d.order = d.order.filter (·.id ≠ id)++[⟨id,key⟩] := by
  cases hfi : d.order.find? (·.id = id) with
  | none =>
    have hno := find?_eq_none.1 hfi _ hmem
    simp at hno
  | some e =>
    have hid : e.id = id := by simpa using find?_some hfi
    have he : e = ⟨id,key⟩ := inj_on_of_nodup_map h.ids (mem_of_find?_eq_some hfi) hmem hid
    rw [Handlers.moveToBack,hfi,he]
    rfl

theorem Sound.touch (h : d.Sound uses) (hkey : key ∈ d.handlers.keys) : (d.touch key).Sound (uses++[key]) := by
  obtain ⟨id,hid⟩ : ∃ id, d.lruEntries.lookup key = some id := by
    rw [← h.lruEntries,Finmap.mem_keys] at hkey
    exact mem_iff.1 hkey
  have hmem := (h.entries key id).1 hid
  have htouch : d.touch key = { d with order := d.order.filter (·.id ≠ id)++[⟨id,key⟩] } := by
    rw [Dynamic.touch,hid,← h.moveToBack hmem]
  have hsm : ∀ e, e ∈ d.order.filter (·.id ≠ id)++[⟨id,key⟩] ↔ e ∈ d.order := by
    intro e
    rw [mem_append,mem_filter,mem_singleton,decide_eq_true_eq]
    constructor
    · rintro (⟨he,-⟩ | rfl)
      · exact he
      · exact hmem
    · intro he
      by_cases hne : e.id = id
      · exact .inr (inj_on_of_nodup_map h.ids he hmem hne)
      · exact .inl ⟨he,hne⟩
  rw [htouch]
  refine ⟨h.servers,fun key' id' => (h.entries key' id').trans (hsm _).symm,?_,
    fun e he => h.below e ((hsm e).1 he),?_,fun key' hkey' => mem_append_left _ (h.used key' hkey'),h.closers⟩
  · rw [map_append,nodup_append]
    refine ⟨h.ids.sublist (filter_sublist.map _),by simp,?_⟩
    intro id₁ hid₁ id₂ hid₂
    obtain ⟨e,he,rfl⟩ := mem_map.1 hid₁
    rw [map_singleton,mem_singleton] at hid₂
    rw [hid₂]
    exact of_decide_eq_true (mem_filter.1 he).2
  · rw [keys,map_append,h.filter_keys hmem,h.recent,Recency.recent_use hkey]
    rfl

lemma keys_insert {ν : Type} (m : Map Text ν) (key : Text) (v : ν) : (m.insert key v).keys = insert key m.keys := by
  ext key'
  rw [Finmap.mem_keys,Finmap.mem_insert,Finset.mem_insert,Finmap.mem_keys]

theorem newCloser_eq_some {made : Option Handler} {c : Closer} (h : d.newCloser key made = some c) :
    c.key = key ∧ c.element = d.nextElement := by
  simp only [newCloser] at h
  split_ifs at h
  cases h
  exact ⟨rfl,rfl⟩

theorem Sound.closers_none (h : d.Sound uses) (hkey : key ∉ d.handlers.keys) : d.closers.lookup key = none := by
  by_contra hso
  obtain ⟨c,hc⟩ := ne_none_iff_exists'.1 hso
  exact hkey (h.closers key c hc).2

theorem lookup_add_closers (d : Dynamic) (key : Text) (made : Option Handler) (key' : Text) :
    (d.add key made).closers.lookup key' =
      if key' = key then (d.newCloser key made).or (d.closers.lookup key) else d.closers.lookup key' := by
  show ((d.newCloser key made).elim d.closers fun closer => d.closers.insert key closer).lookup key' = _
  cases d.newCloser key made with
  | none =>
    split_ifs with hkey
    · rw [hkey]
      rfl
    · rfl
  | some c =>
    split_ifs with hkey
    · rw [hkey]
      exact Finmap.lookup_insert _
    · exact Finmap.lookup_insert_of_ne _ hkey

theorem Sound.add (h : d.Sound uses) (hkey : key ∉ d.handlers.keys) (made : Option Handler) :
    (d.add key made).Sound (uses++[key]) where
  servers := by
    show (d.servers.insert key _).keys = (d.handlers.insert key _).keys
    rw [keys_insert,keys_insert,h.servers]
  entries key' id := by
    show (d.lruEntries.insert key d.nextElement).lookup key' = some id ↔
      (⟨id,key'⟩ : Element) ∈ d.order++[⟨d.nextElement,key⟩]
    by_cases hkey' : key' = key
    · subst hkey'
      have hno : (⟨id,key'⟩ : Element) ∉ d.order := fun hmem => hkey (h.mem_keys.1 (mem_keys_of_order hmem))
      simp [hno,eq_comm]
    · rw [Finmap.lookup_insert_of_ne _ hkey',h.entries]
      simp [hkey']
  ids := by
    show ((d.order++[(⟨d.nextElement,key⟩ : Element)]).map Element.id).Nodup
    rw [map_append,nodup_append]
    refine ⟨h.ids,by simp,?_⟩
    intro id hid id' hid' heq
    obtain ⟨e,he,rfl⟩ := mem_map.1 hid
    have hlt := h.below e he
    simp only [map_cons,map_nil,mem_singleton] at hid'
    omega
  below e he := by
    rcases mem_append.1 he with he | he
    · exact Nat.lt_succ_of_lt (h.below e he)
    · rw [mem_singleton.1 he]
      exact Nat.lt_succ_self _
  recent := by
    show (d.order++[(⟨d.nextElement,key⟩ : Element)]).map Element.key = Recency.recent (d.handlers.insert key _).keys _
    rw [keys_insert,Recency.recent_insert hkey,← h.recent,map_append]
    rfl
  used key' hkey' := by
    have hinsert : key' ∈ (d.handlers.insert key (made.getD (.mirror (d.retainedServer made)))).keys := hkey'
    rw [keys_insert,Finset.mem_insert] at hinsert
    rcases hinsert with rfl | hold
    · simp
    · exact mem_append_left _ (h.used key' hold)
  closers key' c hc := by
    rw [lookup_add_closers,h.closers_none hkey,or_none] at hc
    have hhand : ∀ key', key' = key ∨ key' ∈ d.handlers.keys → key' ∈ (d.add key made).handlers.keys := by
      intro key' hkey'
      show key' ∈ (d.handlers.insert key _).keys
      rwa [keys_insert,Finset.mem_insert]
    split_ifs at hc with hkey'
    · exact ⟨(newCloser_eq_some hc).1.trans hkey'.symm,hhand key' (.inl hkey')⟩
    · obtain ⟨hc',hmem⟩ := h.closers key' c hc
      exact ⟨hc',hhand key' (.inr hmem)⟩

theorem Sound.live_add (h : d.Sound uses) (hkey : key ∉ d.handlers.keys) (made : Option Handler) (c : Closer) :
    (d.add key made).live c = d.live c + (d.newCloser key made).toList.count c := by
  rw [live,live,lookup_add_closers]
  by_cases hc : c.key = key
  · rw [if_pos hc,hc,h.closers_none hkey,or_none]
    cases d.newCloser key made with
    | none => rfl
    | some c' => simp [count_singleton]
  · rw [if_neg hc]
    cases hnew : d.newCloser key made with
    | none => rfl
    | some c' =>
      have hne : c' ≠ c := by
        rintro rfl
        exact hc (newCloser_eq_some hnew).1
      simp [hne]

end Dynamic

theorem touch_fields (d : Dynamic) (key : Text) :
    (d.touch key).handlers = d.handlers ∧ (d.touch key).closers = d.closers ∧
      (d.touch key).nextElement = d.nextElement := by
  unfold Dynamic.touch
  cases d.lruEntries.lookup key with
  | none => exact ⟨rfl,rfl,rfl⟩
  | some id => exact ⟨rfl,rfl,rfl⟩

theorem effectiveDynamicCap_pos (dynamicCap : ℤ) : 0 < effectiveDynamicCap dynamicCap := by
  unfold effectiveDynamicCap
  split_ifs
  · omega
  · decide

/-- The maps are sound and within the cap, and every closer is with its entry, with a `Close`, or
among those run. -/
structure Kept (dynamicCap : ℤ) (m : Manager) : Prop where
  sound : m.dynamic.Sound m.uses
  card : m.dynamic.handlers.keys.card ≤ effectiveDynamicCap dynamicCap
  ledger : ∀ c, m.ran.count c + m.closing.count c + m.dynamic.live c = m.made.count c
  distinct : (m.made.map Closer.element).Nodup
  below : ∀ c ∈ m.made, c.element < m.dynamic.nextElement

variable {dynamicCap iteration} {m m' : Manager} {key : Text} {made : Option Handler}

theorem kept_newManager : Kept dynamicCap newManager where
  sound := ⟨rfl,by simp [newManager,newDynamic],by simp [newManager,newDynamic],nofun,rfl,nofun,by simp [newManager,newDynamic]⟩
  card := Nat.zero_le _
  ledger c := by simp [newManager,newDynamic,Dynamic.live]
  distinct := nodup_nil
  below := nofun

theorem Kept.touch (h : Kept dynamicCap m) (hkey : key ∈ m.dynamic.handlers.keys) :
    Kept dynamicCap { m with dynamic := m.dynamic.touch key, uses := m.uses++[key] } := by
  obtain ⟨hhand,hclos,hnx⟩ := touch_fields m.dynamic key
  refine ⟨h.sound.touch hkey,?_,fun c => ?_,h.distinct,fun c hc => ?_⟩
  · rw [hhand]
    exact h.card
  · rw [Dynamic.live,hclos]
    exact h.ledger c
  · rw [hnx]
    exact h.below c hc

lemma mem_of_lookup {handler : Handler} (h : m.dynamic.handlers.lookup key = some handler) :
    key ∈ m.dynamic.handlers.keys := Finmap.mem_keys.2 (Finmap.mem_of_lookup_eq_some h)

theorem Kept.dynamicHandler (h : Kept dynamicCap m) (key : Text) : Kept dynamicCap (dynamicHandler m key).2 := by
  unfold Handlers.dynamicHandler
  cases hlk : m.dynamic.handlers.lookup key with
  | none => exact h
  | some handler => exact h.touch (mem_of_lookup hlk)

theorem upstream_of_notMem (hkey : key ∉ m.dynamic.handlers.keys) :
    (handlerAndServerForUpstream dynamicCap m key made).2 =
      { m with
        dynamic := ((m.dynamic.add key made).evictDynamicLocked (effectiveDynamicCap dynamicCap)).2
        ran := m.ran++((m.dynamic.add key made).evictDynamicLocked (effectiveDynamicCap dynamicCap)).1
        uses := m.uses++[key]
        made := m.made++(m.dynamic.newCloser key made).toList } := by
  have hno : m.dynamic.handlers.lookup key = none := by
    rw [Finmap.lookup_eq_none,← Finmap.mem_keys]
    exact hkey
  simp only [handlerAndServerForUpstream,hno]

section

variable (h : Kept dynamicCap m)
include h

theorem Kept.add (hkey : key ∉ m.dynamic.handlers.keys) :
    Kept dynamicCap (handlerAndServerForUpstream dynamicCap m key made).2 := by
  obtain ⟨htkn,-,hcard⟩ := Dynamic.evictRounds_taken (effectiveDynamicCap dynamicCap)
    (h.sound.add hkey made) le_rfl
  rw [upstream_of_notMem hkey]
  refine ⟨htkn.sound,hcard,fun c => ?_,?_,fun c hc => ?_⟩
  · have hledger := h.ledger c
    have hlv := h.sound.live_add hkey made c
    have hcnt := htkn.count c
    simp only [count_append,Dynamic.evictDynamicLocked]
    omega
  · rw [map_append,nodup_append]
    refine ⟨h.distinct,?_,fun i hi j hj heq => ?_⟩
    · cases m.dynamic.newCloser key made <;> simp
    · obtain ⟨c,hc,rfl⟩ := mem_map.1 hi
      obtain ⟨c',hc',rfl⟩ := mem_map.1 hj
      have hnew := (Dynamic.newCloser_eq_some (mem_toList.1 hc')).2
      have hold := h.below c hc
      omega
  · have hnx : ((m.dynamic.add key made).evictDynamicLocked (effectiveDynamicCap dynamicCap)).2.nextElement =
        m.dynamic.nextElement+1 := htkn.next
    rw [hnx]
    rcases mem_append.1 hc with hc | hc
    · exact Nat.lt_succ_of_lt (h.below c hc)
    · rw [(Dynamic.newCloser_eq_some (mem_toList.1 hc)).2]
      exact Nat.lt_succ_self _

theorem Kept.upstream (key : Text) (made : Option Handler) :
    Kept dynamicCap (handlerAndServerForUpstream dynamicCap m key made).2 := by
  by_cases hkey : key ∈ m.dynamic.handlers.keys
  · obtain ⟨handler,hhandl⟩ := mem_iff.1 (Finmap.mem_keys.1 hkey)
    simp only [handlerAndServerForUpstream,hhandl]
    exact h.touch hkey
  · exact h.add hkey

theorem Kept.close (iteration : Order Text) : Kept dynamicCap (close iteration m) := by
  obtain ⟨htkn,hks⟩ := Dynamic.drain_taken h.sound iteration
  refine ⟨htkn.sound,?_,fun c => ?_,h.distinct,fun c hc => ?_⟩
  · have hlen := htkn.sound.length
    rw [← Dynamic.length_keys,hks] at hlen
    show (m.dynamic.drainDynamicLocked iteration).2.handlers.keys.card ≤ _
    rw [← hlen]
    exact Nat.zero_le _
  · have hledger := h.ledger c
    have hcnt := htkn.count c
    simp only [Handlers.close,count_append]
    omega
  · have hnx : (m.dynamic.drainDynamicLocked iteration).2.nextElement = m.dynamic.nextElement := htkn.next
    show c.element < (m.dynamic.drainDynamicLocked iteration).2.nextElement
    rw [hnx]
    exact h.below c hc

theorem Kept.runCloser {closer : Closer} (hmem : closer ∈ m.closing) :
    Kept dynamicCap { m with closing := m.closing.erase closer, ran := m.ran++[closer] } := by
  refine ⟨h.sound,h.card,fun c => ?_,h.distinct,h.below⟩
  have hledger := h.ledger c
  have hpos := count_pos_iff.2 hmem
  simp only [count_append,count_erase,count_singleton]
  by_cases hc : c = closer
  · subst hc
    simp only [beq_self_eq_true,if_true]
    omega
  · have hne : (closer == c) = false := by simpa using Ne.symm hc
    simp only [hne,Bool.false_eq_true,if_false]
    omega

theorem Kept.step {move : Move} (hst : step dynamicCap iteration m move = some m') :
    Kept dynamicCap m' := by
  cases move with
  | lookup key =>
    cases hst
    exact h.dynamicHandler key
  | upstream key made =>
    cases hst
    exact h.upstream key made
  | close =>
    cases hst
    exact h.close iteration
  | runCloser closer =>
    simp only [Handlers.step] at hst
    split_ifs at hst with hmem
    cases hst
    exact h.runCloser hmem

end

lemma run_kept {moves : List Move} (h : StepRuns.run (step dynamicCap iteration) newManager moves = some m) :
    Kept dynamicCap m :=
  StepRuns.run_invariant (fun _ _ _ hm hst => hm.step hst) kept_newManager h

theorem Kept.upstream_keys (h : Kept dynamicCap m) (hkey : key ∉ m.dynamic.handlers.keys) (made : Option Handler) :
    (handlerAndServerForUpstream dynamicCap m key made).2.dynamic.keys =
      (m.dynamic.keys++[key]).drop (m.dynamic.keys.length+1-effectiveDynamicCap dynamicCap) := by
  obtain ⟨-,hks,-⟩ := Dynamic.evictRounds_taken (effectiveDynamicCap dynamicCap)
    (h.sound.add hkey made) le_rfl
  have hadd : (m.dynamic.add key made).keys = m.dynamic.keys++[key] := by
    simp [Dynamic.keys,Dynamic.add]
  rw [upstream_of_notMem hkey]
  show (Dynamic.evictRounds _ _ (m.dynamic.add key made)).2.keys = _
  rw [hks,hadd,length_append,length_singleton]

theorem mem_drop_last {keys : List Text} {cap : ℕ} (hcap : 0 < cap) (key : Text) :
    key ∈ (keys++[key]).drop (keys.length+1-cap) := by
  rw [drop_append_of_le_length (by omega)]
  simp

/-- The maps have the same keys; the list has each once, by last use, and no more than the cap
allows. A new entry drives out the first ones, never itself, and their closers run at once. A closer
no longer with its entry is run once, or about to be by a `Close`. -/
theorem handlers_kept_by_last_use (dynamicCap : ℤ) (iteration : Order Text) (moves : List Move) (m : Manager)
    (h : StepRuns.run (step dynamicCap iteration) newManager moves = some m) :
    (m.dynamic.servers.keys = m.dynamic.handlers.keys ∧ m.dynamic.lruEntries.keys = m.dynamic.handlers.keys) ∧
      (m.dynamic.keys.Nodup ∧ (∀ key, key ∈ m.dynamic.keys ↔ key ∈ m.dynamic.handlers.keys) ∧
        (∀ key id, m.dynamic.lruEntries.lookup key = some id ↔ ⟨id,key⟩ ∈ m.dynamic.order) ∧
        m.dynamic.keys = m.uses.dedup.filter (· ∈ m.dynamic.handlers.keys)) ∧
      m.dynamic.handlers.keys.card ≤ effectiveDynamicCap dynamicCap ∧
      (∀ key made m', key ∉ m.dynamic.handlers.keys → step dynamicCap iteration m (.upstream key made) = some m' →
        m'.dynamic.keys = (m.dynamic.keys ++ [key]).drop (m.dynamic.keys.length+1-effectiveDynamicCap dynamicCap) ∧
          key ∈ m'.dynamic.handlers.keys ∧ m'.dynamic.handlers.keys.card ≤ effectiveDynamicCap dynamicCap ∧
          m'.closing = m.closing) ∧
      ∀ c ∈ m.made, m.ran.count c + m.closing.count c =
        if m.dynamic.closers.lookup c.key = some c then 0 else 1 := by
  have hm := run_kept h
  refine ⟨⟨hm.sound.servers,hm.sound.lruEntries⟩,⟨hm.sound.nodup,fun key => hm.sound.mem_keys,hm.sound.entries,
    hm.sound.recent⟩,hm.card,fun key made m' hkey hstep => ?_,fun c hc => ?_⟩
  · have hm' := hm.step hstep
    cases hstep
    have hkeys := hm.upstream_keys hkey made
    refine ⟨hkeys,?_,hm'.card,by rw [upstream_of_notMem hkey]⟩
    rw [← hm'.sound.mem_keys,hkeys]
    exact mem_drop_last (effectiveDynamicCap_pos dynamicCap) key
  · have hledger := hm.ledger c
    have hone : m.made.count c = 1 := count_eq_one_of_mem hm.distinct.of_map hc
    rw [hone,Dynamic.live] at hledger
    split_ifs at hledger ⊢
    · omega
    · omega

/-- With room for two the third key drives out the one not looked up again. -/
def threeKeys : List Move :=
  [.upstream "a".toList none,.upstream "b".toList (some (.other 0 true)),.lookup "a".toList,.upstream "c".toList none,
    .close,.runCloser ⟨"a".toList,0,[.server 0]⟩]

theorem third_key_evicts_second : ∃ m, StepRuns.run (step 2 Order.sorted) newManager threeKeys = some m ∧
    m.ran = [⟨"b".toList,1,[.server 1,.handler 0]⟩,⟨"a".toList,0,[.server 0]⟩] ∧
    m.dynamic.keys = m.uses.dedup.filter (· ∈ m.dynamic.handlers.keys) ∧
    ∀ c ∈ m.made, m.ran.count c + m.closing.count c = if m.dynamic.closers.lookup c.key = some c then 0 else 1 := by
  have hran : (StepRuns.run (step 2 Order.sorted) newManager threeKeys).map Manager.ran =
      some [⟨"b".toList,1,[.server 1,.handler 0]⟩,⟨"a".toList,0,[.server 0]⟩] := by decide +kernel
  obtain ⟨m,hm,hran⟩ := map_eq_some_iff.mp hran
  have h := handlers_kept_by_last_use 2 Order.sorted threeKeys m hm
  exact ⟨m,hm,hran,h.2.1.2.2.2,h.2.2.2.2⟩

end TalosBox.Handlers
