import TalosBox.ClusterNodes
import TalosBox.IPText

/-! The addresses and names of a cluster's nodes, from `New` through additions, removals and
reloads. -/
namespace TalosBox.Snapshots

open List
open Reservations (validReservationIP)

inductive ReservationFault
  | invalid (node ip : FileName)
  | twice (ip : FileName)
  | full

def reservationIP (subnetIndex : ℤ) (host : ℕ) : FileName :=
  "172.30.".toList++(toString subnetIndex).toList ++ '.' :: (toString host).toList

/-- `net.ParseIP` and `To4`, with the text of the address. -/
def parseIP4 (s : FileName) : Option (Router.IP × FileName) :=
  (IPText.parse s).bind fun gs =>
    let x := gs.getD 6 0
    let y := gs.getD 7 0
    if IPText.is4 gs then
      some (⟨.ofNat (x/256),.ofNat (x%256),.ofNat (y/256),.ofNat (y%256)⟩,IPText.text gs)
    else none

section

variable (subnetIndex : ℤ)

def lowestFreeReservation (used : List FileName) : Except ReservationFault FileName :=
  match (range' 2 178).find? fun host => reservationIP subnetIndex host ∉ used with
  | some host => .ok (reservationIP subnetIndex host)
  | none => .error .full

def markUsed (used : List FileName) (node : Node) : Except ReservationFault (List FileName) :=
  if node.ip = [] then .ok used
  else
    match (parseIP4 node.ip).filter fun ip => validReservationIP ip.1 subnetIndex with
    | none => .error (.invalid node.name node.ip)
    | some (_,key) => if key ∈ used then .error (.twice key) else .ok (key::used)

/-- The second loop, over the nodes without an address. -/
def assign (used : List FileName) : List Node → Except ReservationFault (List Node)
  | [] => .ok []
  | node::rest =>
    if node.ip ≠ [] then (assign used rest).map (node::·)
    else
      match lowestFreeReservation subnetIndex used with
      | .error e => .error e
      | .ok ip => (assign (ip::used) rest).map ({ node with ip := ip }::·)

/-- The nodes, and whether the state has to be saved again. -/
def ensureNodeReservations (nodes : List Node) : Except ReservationFault (List Node × Bool) :=
  match nodes.foldlM (markUsed subnetIndex) [] with
  | .error e => .error e
  | .ok used => (assign subnetIndex used nodes).map fun assigned => (assigned,nodes.any (·.ip = []))

def nextReservationIP (nodes : List Node) : Except ReservationFault FileName :=
  match ensureNodeReservations subnetIndex nodes with
  | .error e => .error e
  | .ok (nodes,_) => lowestFreeReservation subnetIndex (nodes.map Node.ip)

variable (mac : FileName → FileName → FileName)

def identities : Identities := ⟨fun c => (nextReservationIP subnetIndex c.nodes).toOption,mac⟩

inductive NewError
  | name
  | subnetIndex
  | negativeCount
  | tooMany
  | negativeDefaults

structure NodeDefaults where
  memoryMiB : ℤ
  cpus : ℤ
  diskGiB : ℤ

def applyDefaults (defaults : NodeDefaults) : NodeDefaults :=
  ⟨if defaults.memoryMiB = 0 then 2048 else defaults.memoryMiB,if defaults.cpus = 0 then 2 else defaults.cpus,
    if defaults.diskGiB = 0 then 20 else defaults.diskGiB⟩

/-- The nodes of a role in a new cluster, behind others. -/
def newNodes (name : FileName) (role : Role) (before count : ℕ) : List Node :=
  (range count).map fun i =>
    let nodeName := nameStart name role++(toString (i+1)).toList
    ⟨nodeName,role,mac name nodeName,reservationIP subnetIndex (2+(before+i))⟩

def new (name : FileName) (controlPlanes workers : ℤ) (defaults : NodeDefaults) : Except NewError Cluster :=
  if validName name = false then .error .name
  else if subnetIndex < 0 ∨ 255 < subnetIndex then .error .subnetIndex
  else if controlPlanes < 0 ∨ workers < 0 then .error .negativeCount
  else if 178 < controlPlanes+workers then .error .tooMany
  else if defaults.memoryMiB < 0 ∨ defaults.cpus < 0 ∨ defaults.diskGiB < 0 then .error .negativeDefaults
  else
    let defaults := applyDefaults defaults
    .ok ⟨name,controlPlanes,workers,newNodes subnetIndex mac name .controlPlane 0 controlPlanes.toNat ++
      newNodes subnetIndex mac name .worker controlPlanes.toNat workers.toNat,defaults.diskGiB,defaults.diskGiB⟩

inductive NodeMove
  | add (role : Option Role) (name : FileName)
  | remove (name : FileName)
  /-- `Save` and `Load`: the encoding gives the same cluster back. -/
  | reload

def NodeMove.apply (c : Cluster) : NodeMove → Cluster
  | .add role name => ((addNode (identities subnetIndex mac) c role name).toOption.map Prod.fst).getD c
  | .remove name => ((removeNode c name).toOption.map Prod.fst).getD c
  | .reload => ((ensureNodeReservations subnetIndex c.nodes).toOption.map fun r => { c with nodes := r.1 }).getD c

/-- Names and addresses are the nodes' own, the addresses of the subnet, the counts those of the
roles. -/
structure Sound (c : Cluster) : Prop where
  subnet : 0 ≤ subnetIndex ∧ subnetIndex ≤ 255
  names : c.nodeNames.Nodup
  ips : (c.nodes.map Node.ip).Nodup
  hosts : ∀ node ∈ c.nodes, ∃ host, 2 ≤ host ∧ host ≤ 179 ∧ node.ip = reservationIP subnetIndex host
  controlPlanes : c.controlPlanes = c.nodes.countP (·.role = .controlPlane)
  workers : c.workers = c.nodes.countP (·.role = .worker)

variable {subnetIndex mac} {c c' : Cluster} {node : Node} {role : Option Role} {name : FileName} {host : ℕ}

theorem reservationIP_injective : Function.Injective (reservationIP subnetIndex) := by
  intro i j h
  have := append_cancel_left h
  rw [cons.injEq] at this
  exact Subnets.toDigits_injective (by simpa using this.2)

lemma reservationIP_ne_nil : reservationIP subnetIndex host ≠ [] :=
  append_ne_nil_of_right_ne_nil _ (cons_ne_nil _ _)

theorem reservationIP_eq_dotted (hsubn : 0 ≤ subnetIndex ∧ subnetIndex ≤ 255) (hho : host ≤ 179) :
    reservationIP subnetIndex host = IPText.dotted (172*256+30) (subnetIndex.toNat*256+host) := by
  have hwrite : ∀ n < 256, IPText.write 10 n = (toString n).toList := by decide +kernel
  have hfour (a b c d : FileName) : ['.'].intercalate [a,b,c,d] = a ++ '.' :: b++['.']++c ++ '.' :: d := by
    simp [List.intercalate]
  obtain ⟨n,rfl⟩ := Int.eq_ofNat_of_zero_le hsubn.1
  have hn : (n*256+host)/256 = n := by omega
  have hh : (n*256+host)%256 = host := by omega
  rw [IPText.dotted,Int.toNat_natCast,hn,hh,hfour,hwrite n (by omega),hwrite host (by omega)]
  exact congrArg (·++_++_) (by decide +kernel)

theorem parseIP4_reservationIP (hsubn : 0 ≤ subnetIndex ∧ subnetIndex ≤ 255) (hho : 2 ≤ host ∧ host ≤ 179) :
    ((parseIP4 (reservationIP subnetIndex host)).filter fun ip => validReservationIP ip.1 subnetIndex) =
      some (⟨172,30,.ofNat subnetIndex.toNat,.ofNat host⟩,reservationIP subnetIndex host) := by
  rw [reservationIP_eq_dotted hsubn hho.2]
  obtain ⟨n,rfl⟩ := Int.eq_ofNat_of_zero_le hsubn.1
  simp only [Int.toNat_natCast]
  have hprs : IPText.parse (IPText.dotted (172*256+30) (n*256+host)) =
      some [0,0,0,0,0,65535,172*256+30,n*256+host] := by
    have haddr : IPText.IsAddress [0,0,0,0,0,65535,172*256+30,n*256+host] := by
      refine ⟨rfl,?_⟩
      simp
      omega
    exact IPText.parse_text4 haddr rfl
  have hn : (n*256+host)/256 = n := by omega
  have hh : (n*256+host)%256 = host := by omega
  have hbyte : (UInt8.ofNat n).toNat = n := UInt8.toNat_ofNat_of_lt' (by simp [UInt8.size]; omega)
  have hval : validReservationIP ⟨172,30,.ofNat n,.ofNat host⟩ n := by
    simp [validReservationIP,Reservations.maxSubnetIndex,Reservations.firstNodeHost,Reservations.lastNodeHost,
      UInt8.le_iff_toNat_le]
    omega
  simp only [parseIP4,hprs]
  simp [IPText.is4,hn,hh,hval,IPText.text]

theorem lowestFreeReservation_eq_ok {used : List FileName} {ip : FileName}
    (h : lowestFreeReservation subnetIndex used = .ok ip) : ∃ host, ip = reservationIP subnetIndex host ∧
      IsLeast { host | 2 ≤ host ∧ host ≤ 179 ∧ reservationIP subnetIndex host ∉ used } host := by
  unfold lowestFreeReservation at h
  split at h
  · rename_i host hfi
    obtain ⟨hfr,hmem,hbef⟩ := find?_range'_eq_some.1 hfi
    rw [mem_range'_1] at hmem
    refine ⟨host,(Except.ok.inj h).symm,⟨by omega,by omega,by simpa using hfr⟩,fun other hoth => ?_⟩
    by_contra hlt
    have := hbef other hoth.1 (by omega)
    simp [hoth.2.2] at this
  · cases h

theorem mem_used_of_lowestFreeReservation {used : List FileName} {e : ReservationFault}
    (h : lowestFreeReservation subnetIndex used = .error e) (hho : 2 ≤ host ∧ host ≤ 179) :
    reservationIP subnetIndex host ∈ used := by
  unfold lowestFreeReservation at h
  split at h
  · cases h
  · rename_i hfi
    have := find?_eq_none.1 hfi host (by rw [mem_range'_1]; omega)
    simpa using this

theorem foldlM_markUsed (hsubn : 0 ≤ subnetIndex ∧ subnetIndex ≤ 255) {nodes : List Node} {used : List FileName}
    (hhosts : ∀ node ∈ nodes, ∃ host, 2 ≤ host ∧ host ≤ 179 ∧ node.ip = reservationIP subnetIndex host)
    (hips : (nodes.map Node.ip).Nodup) (hus : (nodes.map Node.ip).Disjoint used) :
    ∃ used', nodes.foldlM (markUsed subnetIndex) used = .ok used' := by
  induction nodes generalizing used with
  | nil => exact ⟨used,rfl⟩
  | cons node rest ih =>
    obtain ⟨host,hlow,hhigh,hip⟩ := hhosts node (by simp)
    rw [map_cons,nodup_cons] at hips
    rw [map_cons,disjoint_cons_left] at hus
    have hmk : markUsed subnetIndex used node = .ok (node.ip::used) := by
      rw [markUsed,hip,if_neg reservationIP_ne_nil,parseIP4_reservationIP hsubn ⟨hlow,hhigh⟩]
      exact if_neg (hip ▸ hus.1)
    rw [foldlM_cons,hmk]
    exact ih (fun other hoth => hhosts other (by simp [hoth])) hips.2
      (disjoint_cons_right.2 ⟨hips.1,hus.2⟩)

theorem assign_eq {used : List FileName} {nodes : List Node} (h : ∀ node ∈ nodes, node.ip ≠ []) :
    assign subnetIndex used nodes = .ok nodes := by
  induction nodes with
  | nil => rfl
  | cons node rest ih => simp_all [assign,Except.map]

theorem Sound.ensureNodeReservations (h : Sound subnetIndex c) :
    ensureNodeReservations subnetIndex c.nodes = .ok (c.nodes,false) := by
  have hne : ∀ node ∈ c.nodes, node.ip ≠ [] := by
    intro node hnd
    obtain ⟨host,-,-,hip⟩ := h.hosts node hnd
    exact hip ▸ reservationIP_ne_nil
  obtain ⟨used,hus⟩ := foldlM_markUsed h.subnet h.hosts h.ips (disjoint_nil_right _)
  simpa [Snapshots.ensureNodeReservations,hus,assign_eq hne,Except.map] using hne

def chosenName (c : Cluster) (role : Role) (name : FileName) : FileName :=
  if name = [] then nextNodeName c role else name

variable {ids : Identities}

theorem addNode_some (c : Cluster) (role : Role) (name : FileName) :
    addNode ids c (some role) name =
      let chosen := chosenName c role name
      if validName chosen = false then .error (.name chosen)
      else if chosen ∈ c.nodeNames then .error (.taken chosen)
      else
        match ids.nextReservationIP c with
        | none => .error .reservation
        | some ip =>
          let node : Node := ⟨chosen,role,ids.deterministicMAC c.name chosen,ip⟩
          .ok ({ c with
            nodes := c.nodes++[node]
            controlPlanes := c.controlPlanes + if role = .controlPlane then 1 else 0
            workers := c.workers + if role = .worker then 1 else 0 },node) := by
  cases role <;> cases hip : ids.nextReservationIP c <;>
    simp only [addNode,hip,reduceCtorEq,if_false,add_zero] <;> rfl

theorem removeNode_of_ok (h : removeNode c name = .ok (c',node)) :
    node ∈ c.nodes ∧ c'.nodes = c.nodes.erase node ∧
      c'.controlPlanes = c.controlPlanes - (if node.role = .controlPlane then 1 else 0) ∧
      c'.workers = c.workers - if node.role = .worker then 1 else 0 := by
  unfold removeNode at h
  split at h
  · cases h
  rename_i found hfi
  have hmem := mem_of_find?_eq_some hfi
  split at h
  all_goals
    rename_i hrole
    cases h
    exact ⟨hmem,rfl,by simp [hrole],by simp [hrole]⟩

theorem Sound.nextReservationIP (h : Sound subnetIndex c) :
    (identities subnetIndex mac).nextReservationIP c =
      (lowestFreeReservation subnetIndex (c.nodes.map Node.ip)).toOption := by
  simp only [identities,Snapshots.nextReservationIP,h.ensureNodeReservations]

theorem Sound.addNode (h : Sound subnetIndex c)
    (hadd : addNode (identities subnetIndex mac) c role name = .ok (c',node)) :
    Sound subnetIndex c' ∧ c'.nodes = c.nodes++[node] ∧ ∃ host, node.ip = reservationIP subnetIndex host ∧
      IsLeast { host | 2 ≤ host ∧ host ≤ 179 ∧ reservationIP subnetIndex host ∉ c.nodes.map Node.ip } host := by
  cases role with
  | none => cases hadd
  | some role =>
    rw [addNode_some,h.nextReservationIP] at hadd
    dsimp only at hadd
    split at hadd
    · cases hadd
    split at hadd
    · cases hadd
    rename_i htkn
    cases hip : lowestFreeReservation subnetIndex (c.nodes.map Node.ip) with
    | error e =>
      rw [hip] at hadd
      cases hadd
    | ok ip =>
      obtain ⟨host,rfl,hlst⟩ := lowestFreeReservation_eq_ok hip
      rw [hip] at hadd
      cases hadd
      refine ⟨⟨h.subnet,?_,?_,?_,?_,?_⟩,rfl,host,rfl,hlst⟩
      · rw [Cluster.nodeNames,map_append,map_singleton,← concat_eq_append]
        exact h.names.concat htkn
      · rw [map_append,map_singleton,← concat_eq_append]
        exact h.ips.concat hlst.1.2.2
      · simpa [or_imp,forall_and] using ⟨h.hosts,host,hlst.1.1,hlst.1.2.1,rfl⟩
      · simp [h.controlPlanes]
      · simp [h.workers]

theorem Sound.removeNode (h : Sound subnetIndex c) (hrm : removeNode c name = .ok (c',node)) :
    Sound subnetIndex c' := by
  obtain ⟨hmem,hnds,hcps,hwork⟩ := removeNode_of_ok hrm
  have hsub : c'.nodes.Sublist c.nodes := hnds ▸ erase_sublist
  have hcnt (p : Node → Bool) : (c'.nodes.countP p : ℤ) = c.nodes.countP p - if p node then 1 else 0 := by
    have hpos (hp : p node) : 0 < c.nodes.countP p := countP_pos_iff.2 ⟨node,hmem,hp⟩
    rw [hnds,countP_erase]
    split_ifs <;> grind
  refine ⟨h.subnet,(hsub.map _).nodup h.names,(hsub.map _).nodup h.ips,
    fun other hoth => h.hosts other (hsub.subset hoth),?_,?_⟩
  · simp [hcnt,hcps,h.controlPlanes]
  · simp [hcnt,hwork,h.workers]

theorem atoi_toString {n : ℤ} (h0 : 0 ≤ n) (h : n < 2^63) : Subnets.atoi (toString n).toList = some n := by
  obtain ⟨n,rfl⟩ := Int.eq_ofNat_of_zero_le h0
  have hdgs : (toString (n : ℤ)).toList = Nat.toDigits 10 n := Nat.toList_repr
  have hall : ∀ c ∈ Nat.toDigits 10 n, c.isDigit :=
    fun c hc => Nat.isDigit_of_mem_toDigits (by decide) (by decide) hc
  have hne : Nat.toDigits 10 n ≠ [] := Nat.toDigits_ne_nil
  rw [hdgs,Subnets.atoi]
  · dsimp only
    rw [if_pos ⟨hne,all_eq_true.2 hall⟩,Nat.ofDigitChars_ten_toDigits]
    exact Option.filter_eq_some_iff.2 ⟨rfl,by simp; omega⟩
  · rintro ds hds
    simp [hds] at hall
  · rintro ds hds
    simp [hds] at hall

theorem maxSuffix_spec (start : FileName) (nodes : List Node) :
    0 ≤ maxSuffix start nodes ∧
      (∀ node ∈ nodes, ∀ index, suffixIndex start node = some index → index ≤ maxSuffix start nodes) ∧
      (maxSuffix start nodes = 0 ∨ ∃ node ∈ nodes, suffixIndex start node = some (maxSuffix start nodes)) := by
  induction nodes using reverseRecOn with
  | nil => simp [maxSuffix]
  | append_singleton nodes node ih =>
    have hst : maxSuffix start (nodes++[node]) =
        (suffixIndex start node).elim (maxSuffix start nodes) (max (maxSuffix start nodes)) := by
      simp [maxSuffix]
    rw [hst]
    cases hnd : suffixIndex start node with
    | none => simpa [or_imp,forall_and,exists_or,hnd] using ih
    | some index =>
      obtain ⟨hpos,hmax,hatta⟩ := ih
      refine ⟨hpos.trans (le_max_left _ _),fun other hoth k hk => ?_,?_⟩
      · rcases mem_append.1 hoth with hoth | hoth
        · exact (hmax other hoth k hk).trans (le_max_left _ _)
        · rw [mem_singleton.1 hoth,hnd] at hk
          exact (Option.some.inj hk).ge.trans (le_max_right _ _)
      · rcases max_choice (maxSuffix start nodes) index with heq | heq
        · rw [Option.elim_some,heq]
          refine hatta.imp_right ?_
          rintro ⟨other,hoth,h⟩
          exact ⟨other,by simp [hoth],h⟩
        · exact .inr ⟨node,by simp,by rw [hnd,Option.elim_some,heq]⟩

theorem nextNodeName_not_mem {role : Role}
    (h : ∀ node ∈ c.nodes, ∀ index, suffixIndex (nameStart c.name role) node = some index → index < 2^63-1) :
    nextNodeName c role ∉ c.nodeNames := by
  obtain ⟨hpos,hmax,hatta⟩ := maxSuffix_spec (nameStart c.name role) c.nodes
  rw [nextNodeName_eq]
  intro hmem
  obtain ⟨node,hnd,hnm⟩ := mem_map.1 hmem
  generalize maxSuffix (nameStart c.name role) c.nodes = last at *
  have hla : last < 2^63-1 := by
    rcases hatta with rfl | ⟨node,hnd,hidx⟩
    · decide
    · exact h node hnd last hidx
  have hidx : suffixIndex (nameStart c.name role) node = some (last+1) := by
    rw [suffixIndex,hnm,if_pos (prefix_append _ _),drop_left,atoi_toString (by omega) (by omega)]
  have := hmax node hnd _ hidx
  omega

theorem sound_new {controlPlanes workers : ℤ} {defaults : NodeDefaults}
    (h : new subnetIndex mac name controlPlanes workers defaults = .ok c) : Sound subnetIndex c := by
  unfold new at h
  split_ifs at h with hnm hsubn hcounts hmany hdefa
  cases h
  obtain ⟨cps,rfl⟩ := Int.eq_ofNat_of_zero_le (show 0 ≤ controlPlanes by omega)
  obtain ⟨ws,rfl⟩ := Int.eq_ofNat_of_zero_le (show 0 ≤ workers by omega)
  simp only [Int.toNat_natCast]
  have hips : (newNodes subnetIndex mac name .controlPlane 0 cps ++
      newNodes subnetIndex mac name .worker cps ws).map Node.ip =
      (range (cps+ws)).map fun i => reservationIP subnetIndex (2+i) := by
    simp [newNodes,range_add,Function.comp_def]
  have hnms (role : Role) (before count : ℕ) :
      ((newNodes subnetIndex mac name role before count).map Node.name).Nodup := by
    rw [newNodes,map_map]
    refine nodup_range.map fun i j heq => ?_
    have := append_cancel_left heq
    have := Subnets.toDigits_injective (by simpa using this)
    omega
  refine ⟨by omega,?_,?_,?_,?_,?_⟩
  · rw [Cluster.nodeNames,map_append]
    refine (hnms _ _ _).append (hnms _ _ _) fun nodeName hcp hworker => ?_
    simp only [newNodes,map_map,mem_map] at hcp hworker
    obtain ⟨i,-,rfl⟩ := hcp
    obtain ⟨j,-,heq⟩ := hworker
    simp only [nameStart,append_assoc] at heq
    have hlb := append_cancel_left heq
    simp at hlb
  · rw [hips]
    exact nodup_range.map fun i j heq => by have := reservationIP_injective heq; omega
  · intro node hnd
    have hmem := mem_map_of_mem (f := Node.ip) hnd
    rw [hips] at hmem
    obtain ⟨i,hi,hip⟩ := mem_map.1 hmem
    rw [mem_range] at hi
    exact ⟨2+i,by omega,by omega,hip.symm⟩
  · simp [newNodes,Function.comp_def]
  · simp [newNodes,Function.comp_def]

theorem Sound.apply (h : Sound subnetIndex c) (m : NodeMove) : Sound subnetIndex (m.apply subnetIndex mac c) := by
  cases m with
  | add role name =>
    cases hadd : Snapshots.addNode (identities subnetIndex mac) c role name with
    | error e => simpa [NodeMove.apply,hadd,Except.toOption] using h
    | ok r => simpa [NodeMove.apply,hadd,Except.toOption] using (h.addNode hadd).1
  | remove name =>
    cases hrm : Snapshots.removeNode c name with
    | error e => simpa [NodeMove.apply,hrm,Except.toOption] using h
    | ok r => simpa [NodeMove.apply,hrm,Except.toOption] using h.removeNode hrm
  | reload => simpa [NodeMove.apply,h.ensureNodeReservations,Except.toOption] using h

/-- Whatever is done to a cluster `New` made: its names and addresses stay sound, a reload changes
nothing, a generated name is free, and a node is refused for its role, its name or a full subnet
alone and otherwise gets the lowest free address. -/
theorem nodes_sound_from_new {controlPlanes workers : ℤ} {defaults : NodeDefaults} {made : Cluster}
    (hnew : new subnetIndex mac name controlPlanes workers defaults = .ok made) (moves : List NodeMove) :
    let c := moves.foldl (NodeMove.apply subnetIndex mac) made
    let ids := identities subnetIndex mac
    let free : Set ℕ := { host | 2 ≤ host ∧ host ≤ 179 ∧ reservationIP subnetIndex host ∉ c.nodes.map Node.ip }
    Sound subnetIndex c ∧ ensureNodeReservations subnetIndex c.nodes = .ok (c.nodes,false) ∧
    (∀ role, (∀ node ∈ c.nodes, ∀ index, suffixIndex (nameStart c.name role) node = some index → index < 2^63-1) →
      ∀ taken, addNode ids c (some role) [] ≠ .error (.taken taken)) ∧
    (∀ role name e, addNode ids c role name = .error e → role = none ∨ free = ∅ ∨ ∃ r, role = some r ∧
      (validName (chosenName c r name) = false ∨ chosenName c r name ∈ c.nodeNames)) ∧
    ∀ role name c' node, addNode ids c role name = .ok (c',node) → c'.nodes = c.nodes ++ [node] ∧
      ∃ host, node.ip = reservationIP subnetIndex host ∧ IsLeast free host := by
  intro c ids free
  have h : Sound subnetIndex c :=
    KeyedFold.foldl_invariant (I := Sound subnetIndex) (fun _ m _ h => h.apply m) (sound_new hnew)
  refine ⟨h,h.ensureNodeReservations,fun role hsmall taken herr => ?_,fun role name e herr => ?_,
    fun role name c' node hadd => (h.addNode hadd).2⟩
  · have hfrs : chosenName c role [] ∉ c.nodeNames := by
      exact nextNodeName_not_mem hsmall
    rw [addNode_some] at herr
    dsimp only at herr
    split at herr
    · cases herr
    · split at herr <;> cases herr
  · cases role with
    | none => exact .inl rfl
    | some role =>
      right
      rw [addNode_some,h.nextReservationIP] at herr
      dsimp only at herr
      split at herr
      · rename_i hname
        exact .inr ⟨role,rfl,.inl hname⟩
      split at herr
      · rename_i hname
        exact .inr ⟨role,rfl,.inr hname⟩
      left
      cases hip : lowestFreeReservation subnetIndex (c.nodes.map Node.ip) with
      | error e =>
        exact Set.eq_empty_of_forall_notMem fun host hhost =>
          hhost.2.2 (mem_used_of_lowestFreeReservation hip ⟨hhost.1,hhost.2.1⟩)
      | ok ip =>
        rw [hip] at herr
        cases herr

end

theorem sound_after_reload :
    ∃ made, new 5 (fun _ node => node) "demo".toList 1 1 ⟨0,0,0⟩ = .ok made ∧
      Sound 5 ([.add (some .worker) [],.remove "demo-cp-1".toList,.reload].foldl
        (NodeMove.apply 5 fun _ node => node) made) := by
  have hok : (new 5 (fun _ node => node) "demo".toList 1 1 ⟨0,0,0⟩).isOk = true := by decide +kernel
  cases h : new 5 (fun _ node => node) "demo".toList 1 1 ⟨0,0,0⟩ with
  | ok made => exact ⟨made,rfl,(nodes_sound_from_new h _).1⟩
  | error e =>
    rw [h] at hok
    cases hok

end TalosBox.Snapshots
