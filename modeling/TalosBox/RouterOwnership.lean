import TalosBox.FrameRouter
import TalosBox.KeyedFold
import TalosBox.TwoWayIndex

/-! Ownership in the frame router over any interleaving: the address table and the ports' address
sets are two indexes of one relation, every address is one its port may hold, and a removed port
owns nothing. -/
namespace TalosBox.Router

open KeyedFold

/-- A port holds node addresses and VIPs of its subnet, of the former only the one leased. -/
structure PortSound (p : Port) : Prop where
  address : ∀ ip ∈ p.ips, isOwnedTalosboxIP ip p.subnet
  node : ∀ ip ∈ p.ips, isNodeIP ip p.subnet → p.nodeIP = some ip

theorem not_isNodeIP_of_isVIP {ip : IP} {subnet : ℤ} (h : isVIP ip subnet) :
    isNodeIP ip subnet = false := by
  simp only [isVIP,isNodeIP,Bool.and_eq_true,decide_eq_true_eq,UInt8.le_iff_toNat_le] at h ⊢
  simp only [h.1,Bool.true_and,decide_eq_false_iff_not]
  rintro ⟨-,hle⟩
  have := h.2.1.trans hle
  simp at this

namespace PortSound

variable {p q : Port} {ip : IP}

theorem congr (h : PortSound p) (hsub : q.subnet = p.subnet) (hnd : q.nodeIP = p.nodeIP)
    (hips : q.ips = p.ips) : PortSound q := by
  constructor
  · rw [hsub,hips]
    exact h.address
  · rw [hsub,hips,hnd]
    exact h.node

lemma erase (h : PortSound p) (ip : IP) : PortSound { p with ips := p.ips.erase ip } :=
  ⟨fun i hi => h.address i (Finset.mem_of_mem_erase hi),
    fun i hi => h.node i (Finset.mem_of_mem_erase hi)⟩

theorem insertVIP (h : PortSound p) (hip : isVIP ip p.subnet) :
    PortSound { p with ips := insert ip p.ips } := by
  constructor
  · intro i hi
    rcases Finset.mem_insert.1 hi with rfl | hi
    · simp [isOwnedTalosboxIP,hip]
    · exact h.address i hi
  · intro i hi hnd
    rcases Finset.mem_insert.1 hi with rfl | hi
    · simp [not_isNodeIP_of_isVIP hip] at hnd
    · exact h.node i hi hnd

theorem insertNode (h : PortSound p) (hip : isNodeIP ip p.subnet)
    (hno : ∀ i ∈ p.ips, isNodeIP i p.subnet = false) :
    PortSound { p with nodeIP := some ip,ips := insert ip p.ips } := by
  constructor
  · intro i hi
    rcases Finset.mem_insert.1 hi with rfl | hi
    · simp [isOwnedTalosboxIP,hip]
    · exact h.address i hi
  · intro i hi hnd
    rcases Finset.mem_insert.1 hi with rfl | hi
    · rfl
    · simp [hno i hi] at hnd

end PortSound

namespace FrameRouter

variable {r : FrameRouter} {p : ℕ} {ip : IP}

/-- The router's two address indexes. -/
def index (r : FrameRouter) : TwoWayIndex IP ℕ := ⟨r.ipToPort,fun p => (r.heap p).ips,r.ports⟩

@[simp] theorem modify_heap_self (f : Port → Port) : (r.modify p f).heap p = f (r.heap p) := by
  simp [modify]
theorem modify_heap_of_ne {q : ℕ} (f : Port → Port) (h : q ≠ p) :
    (r.modify p f).heap q = r.heap q := by
  simp [modify,h]

variable {f : Port → Port}

theorem modify_index (hf : (f (r.heap p)).ips = (r.heap p).ips) :
    (r.modify p f).index = r.index := by
  have hhl : (fun q => ((r.modify p f).heap q).ips) = fun q => (r.heap q).ips := by
    funext q
    by_cases hq : q = p
    · subst hq
      rw [modify_heap_self,hf]
    · rw [modify_heap_of_ne f hq]
  simp only [index,hhl]
  rfl

theorem modify_sound (h : ∀ q, PortSound (r.heap q))
    (hf : PortSound (f (r.heap p))) : ∀ q, PortSound ((r.modify p f).heap q) := by
  intro q
  by_cases hq : q = p
  · subst hq
    rw [modify_heap_self]
    exact hf
  · rw [modify_heap_of_ne f hq]
    exact h q

/-- What a frame leaves alone: the ports, their subnets, the routed addresses, and what other ports
have pinned and leased. -/
structure Beside where
  nextPort : ℕ
  ports : Finset ℕ
  routedVIPs : IP → Option IP
  subnet : ℕ → ℤ
  others : ℕ → Option (Option MAC × Option MAC × Option IP)

def beside (r : FrameRouter) (p : ℕ) : Beside where
  nextPort := r.nextPort
  ports := r.ports
  routedVIPs := r.routedVIPs
  subnet q := (r.heap q).subnet
  others q := if q = p then none else some ((r.heap q).mac,(r.heap q).gateway,(r.heap q).nodeIP)

theorem modify_beside {q : ℕ}
    (hsub : (f (r.heap q)).subnet = (r.heap q).subnet)
    (hoth : q = p ∨ ((f (r.heap q)).mac,(f (r.heap q)).gateway,(f (r.heap q)).nodeIP) =
      ((r.heap q).mac,(r.heap q).gateway,(r.heap q).nodeIP)) :
    (r.modify q f).beside p = r.beside p := by
  have hsubs : (fun q' => ((r.modify q f).heap q').subnet) = fun q' => (r.heap q').subnet := by
    funext q'
    by_cases hq : q' = q
    · subst hq
      rw [modify_heap_self,hsub]
    · rw [modify_heap_of_ne f hq]
  have hos : ((r.modify q f).beside p).others = (r.beside p).others := by
    funext q'
    show (if q' = p then none else some (((r.modify q f).heap q').mac,
      ((r.modify q f).heap q').gateway,((r.modify q f).heap q').nodeIP)) = _
    by_cases hq : q' = q
    · subst hq
      rcases hoth with rfl | hoth
      · simp [beside]
      · rw [modify_heap_self,hoth]
        rfl
    · rw [modify_heap_of_ne f hq]
      rfl
  simp only [beside] at hos ⊢
  rw [hsubs,hos]
  rfl

theorem acceptPortSourceMAC_beside {mac : MAC} {r' : FrameRouter}
    (h : r.acceptPortSourceMAC p mac = some r') : r'.beside p = r.beside p := by
  rcases acceptPortSourceMAC_cases h with ⟨rfl,-⟩ | rfl
  · rfl
  · exact modify_beside rfl (.inl rfl)

theorem bind_beside {r₁ : FrameRouter} {table : IP → Option ℕ}
    (hf : ∀ port, (f port).subnet = port.subnet) (h : r₁.beside p = r.beside p) :
    ({ r₁.modify p f with ipToPort := table } : FrameRouter).beside p = r.beside p :=
  (modify_beside (hf (r₁.heap p)) (.inl rfl)).trans h

theorem learnVIPIP_beside (r : FrameRouter) (p : ℕ) (ip : IP) :
    (r.learnVIPIP p ip).beside p = r.beside p := by
  simp only [learnVIPIP]
  split_ifs
  · rfl
  · refine bind_beside (fun _ => rfl) ?_
    split
    · split_ifs
      · exact modify_beside rfl (.inr rfl)
      · rfl
    · rfl

theorem dropLease_beside (r : FrameRouter) (p : ℕ) : (r.dropLease p).beside p = r.beside p := by
  simp only [dropLease]
  split
  · exact bind_beside (fun _ => rfl) rfl
  · rfl

theorem learnNodeIP_beside (r : FrameRouter) (p : ℕ) (ip : IP) :
    (r.learnNodeIP p ip).beside p = r.beside p := by
  simp only [learnNodeIP]
  split_ifs
  · rfl
  · rfl
  · rfl
  · exact bind_beside (fun _ => rfl) (dropLease_beside r p)

theorem learnARPSender_cases (r : FrameRouter) (p : ℕ) (src : MAC) (pay : Bytes) :
    r.learnARPSender p src pay = r ∨
      ∃ ip, r.learnARPSender p src pay = r.learnVIPIP p ip := by
  simp only [learnARPSender]
  cases parseRouterARP pay with
  | none => exact .inl rfl
  | some arp =>
    simp only
    split_ifs
    · exact .inl rfl
    · exact .inr ⟨_,rfl⟩
    · exact .inl rfl

theorem learnGateway_beside (r : FrameRouter) (p : ℕ) (dst : MAC) :
    (r.learnGateway p dst).beside p = r.beside p := by
  simp only [learnGateway]
  split_ifs
  · exact modify_beside rfl (.inl rfl)
  · rfl

theorem routeIPv4_beside (r : FrameRouter) (p : ℕ) (f : EthernetFrame) (pkt : IPv4Packet)
    (frame : Bytes) : (r.routeIPv4 p f pkt frame).router.beside p = r.beside p := by
  have hlse : (r.learnLease p f.src pkt).beside p = r.beside p := by
    rcases r.learnLease_cases p f.src pkt with heq | ⟨ip,heq⟩
    · rw [heq]
    · rw [heq]
      exact learnNodeIP_beside r p ip
  rcases r.routeIPv4_cases p f pkt frame with heq | ⟨sub,-,-,-,heq⟩
  · rw [heq]
    exact hlse
  · rw [heq,(forward_cases _ p f pkt sub frame).1]
    exact (learnGateway_beside _ p f.dst).trans hlse

theorem route_beside {port : Option ℕ} (hpo : ∀ q, port = some q → q = p) (frame : Bytes) :
    (r.route port frame).router.beside p = r.beside p := by
  rcases r.route_cases port frame with heq | ⟨f,q,r₁,-,hing,hrs⟩
  · rw [heq]
  · obtain ⟨hq,-,hacc⟩ := ingress_cases hing
    obtain rfl := hpo q hq
    have hpin := acceptPortSourceMAC_beside hacc
    rcases hrs with heq | ⟨pkt,-,heq⟩
    · rw [heq]
      rcases r₁.learnARPSender_cases q f.src f.payload with heq | ⟨ip,heq⟩
      · rw [heq]
        exact hpin
      · rw [heq]
        exact (learnVIPIP_beside r₁ q ip).trans hpin
    · rw [heq]
      exact (routeIPv4_beside r₁ q f pkt frame).trans hpin

theorem route_routedVIPs (r : FrameRouter) (port : Option ℕ) (frame : Bytes) :
    (r.route port frame).router.routedVIPs = r.routedVIPs := by
  have h : (r.route port frame).router.beside (port.getD 0) = r.beside (port.getD 0) :=
    route_beside (fun q hq => by simp [hq]) frame
  exact congrArg Beside.routedVIPs h

/-- What holds of the addresses between operations, whatever the speaker announces. -/
structure Bound (r : FrameRouter) : Prop where
  fresh : ∀ p ∈ r.ports, p ≤ r.nextPort
  agrees : r.index.Agrees
  sound : ∀ p, PortSound (r.heap p)

/-- What holds of the router between operations. -/
structure Owned (r : FrameRouter) : Prop where
  fresh : ∀ p ∈ r.ports, p ≤ r.nextPort
  agrees : r.index.Agrees
  sound : ∀ p, PortSound (r.heap p)
  routed : ∀ vip node, r.routedVIPs vip = some node →
    ∃ subnet, isVIP vip subnet ∧ isNodeIP node subnet

theorem Bound.modify (h : r.Bound) (hsub : (f (r.heap p)).subnet = (r.heap p).subnet)
    (hnd : (f (r.heap p)).nodeIP = (r.heap p).nodeIP) (hips : (f (r.heap p)).ips = (r.heap p).ips) :
    (r.modify p f).Bound where
  fresh := h.fresh
  agrees := by
    rw [modify_index hips]
    exact h.agrees
  sound := modify_sound h.sound ((h.sound p).congr hsub hnd hips)

theorem newFrameRouter_bound : newFrameRouter.Bound where
  fresh := by simp [newFrameRouter]
  agrees := by
    intro k o
    simp [index,newFrameRouter]
  sound _ := ⟨by simp [newFrameRouter],by simp [newFrameRouter]⟩

theorem Bound.addPort (h : r.Bound) (subnet : ℤ) : (r.addPort subnet).Bound where
  fresh := by
    intro q hq
    rcases Finset.mem_insert.1 hq with rfl | hq
    · exact le_rfl
    · exact (h.fresh q hq).trans (Nat.le_succ _)
  agrees := by
    have hnew : r.nextPort+1 ∉ r.index.live := fun hmem => by
      have := h.fresh _ hmem
      omega
    have hidx : (r.addPort subnet).index = r.index.enlist (r.nextPort+1) := by
      have hhl : (fun q => ((r.addPort subnet).heap q).ips) =
          fun q => if q = r.nextPort+1 then ∅ else (r.heap q).ips := by
        funext q
        by_cases hq : q = r.nextPort+1 <;> simp [FrameRouter.addPort,hq]
      simp only [index,hhl]
      rfl
    rw [hidx]
    exact h.agrees.enlist hnew
  sound := by
    intro q
    by_cases hq : q = r.nextPort+1
    · constructor <;> simp [FrameRouter.addPort,hq]
    · have hheap : (r.addPort subnet).heap q = r.heap q := by simp [FrameRouter.addPort,hq]
      rw [hheap]
      exact h.sound q

theorem Bound.removePort (h : r.Bound) (port : Option ℕ) : (r.removePort port).Bound := by
  rcases r.removePort_cases port with heq | ⟨p,-,hp,heq⟩
  · rw [heq]
    exact h
  · rw [heq]
    have hcls : (r.modify p fun port => { port with closed := true }).Bound :=
      h.modify rfl rfl rfl
    refine ⟨fun q hq => h.fresh q (Finset.mem_of_mem_erase hq),?_,hcls.sound⟩
    have hreti := hcls.agrees.retire (o := p)
    have hips : ((r.modify p fun port => { port with closed := true }).heap p).ips =
        (r.heap p).ips := by simp
    intro k q
    have := hreti k q
    simp only [index,TwoWayIndex.retire,hips] at this
    exact this

theorem Bound.acceptPortSourceMAC (h : r.Bound) {mac : MAC} {r' : FrameRouter}
    (hr : r.acceptPortSourceMAC p mac = some r') : r'.Bound ∧ r'.ports = r.ports := by
  rcases acceptPortSourceMAC_cases hr with ⟨rfl,-⟩ | rfl
  · exact ⟨h,rfl⟩
  · exact ⟨h.modify rfl rfl rfl,rfl⟩

/-- A VIP announced on a port moves to it from whoever held it. -/
theorem learnVIPIP_index (hip : isVIP ip (r.heap p).subnet) :
    (r.learnVIPIP p ip).index = r.index.take ip p := by
  have hhl : (fun q => ((r.learnVIPIP p ip).heap q).ips) = (r.index.take ip p).held := by
    funext q
    cases hown : r.ipToPort ip with
    | none =>
      by_cases hq : q = p <;>
        simp [learnVIPIP,hip,hown,TwoWayIndex.take,index,modify,hq]
    | some o =>
      by_cases ho : o = p
      · by_cases hq : q = p
        · simp [learnVIPIP,hip,hown,TwoWayIndex.take,index,hq,ho]
        · simp [learnVIPIP,hip,hown,TwoWayIndex.take,index,modify,hq,ho,Ne.symm hq]
      · by_cases hq : q = p
        · simp [learnVIPIP,hip,hown,TwoWayIndex.take,index,modify,hq,ho,Ne.symm ho]
        · by_cases hqo : q = o
          · simp [learnVIPIP,hip,hown,TwoWayIndex.take,index,modify,hqo,ho]
          · simp [learnVIPIP,hip,hown,TwoWayIndex.take,index,modify,hq,ho,hqo,Ne.symm hqo]
  have how : (r.learnVIPIP p ip).ipToPort = Function.update r.ipToPort ip (some p) ∧
      (r.learnVIPIP p ip).ports = r.ports := by
    simp only [learnVIPIP,hip]
    cases r.ipToPort ip with
    | none => exact ⟨rfl,rfl⟩
    | some o =>
      by_cases ho : o = p <;> simp [ho,modify]
  simp only [index,hhl,how]
  rfl

theorem learnVIPIP_sound (h : ∀ q, PortSound (r.heap q)) :
    ∀ q, PortSound ((r.learnVIPIP p ip).heap q) := by
  by_cases hip : isVIP ip (r.heap p).subnet
  · simp only [learnVIPIP,hip,Bool.not_true,Bool.false_eq_true,↓reduceIte]
    cases r.ipToPort ip with
    | none => exact modify_sound h ((h p).insertVIP hip)
    | some o =>
      by_cases ho : o = p
      · simp only [ho,ne_eq]
        exact modify_sound h ((h p).insertVIP hip)
      · simp only [ne_eq,ho]
        have hers : ∀ q, PortSound ((r.modify o fun port =>
            { port with ips := port.ips.erase ip }).heap q) := modify_sound h ((h o).erase ip)
        refine modify_sound hers ((hers p).insertVIP ?_)
        rw [modify_heap_of_ne _ (Ne.symm ho)]
        exact hip
  · simpa only [learnVIPIP,hip,Bool.not_false,↓reduceIte] using h

theorem Bound.learnVIPIP (h : r.Bound) (hp : p ∈ r.ports) : (r.learnVIPIP p ip).Bound := by
  by_cases hip : isVIP ip (r.heap p).subnet
  · have hagrees : (r.learnVIPIP p ip).index.Agrees := by
      rw [learnVIPIP_index hip]
      exact h.agrees.take hp
    have hports : (r.learnVIPIP p ip).ports = r.ports :=
      congrArg Beside.ports (learnVIPIP_beside r p ip)
    have hnx : (r.learnVIPIP p ip).nextPort = r.nextPort :=
      congrArg Beside.nextPort (learnVIPIP_beside r p ip)
    refine ⟨?_,hagrees,learnVIPIP_sound h.sound⟩
    rw [hports,hnx]
    exact h.fresh
  · simpa only [FrameRouter.learnVIPIP,hip,Bool.not_false,↓reduceIte] using h

theorem Bound.dropLease (h : r.Bound) (p : ℕ) : (r.dropLease p).Bound := by
  cases hnd : (r.heap p).nodeIP with
  | none => simpa only [FrameRouter.dropLease,hnd] using h
  | some old =>
    simp only [FrameRouter.dropLease,hnd]
    have hers : ∀ q, PortSound ((r.modify p fun port =>
        { port with ips := port.ips.erase old }).heap q) :=
      modify_sound h.sound ((h.sound p).erase old)
    refine ⟨h.fresh,?_,hers⟩
    have hrel := h.agrees.release (k := old) (o := p)
    have hhl : (fun q => ((r.modify p fun port => { port with ips := port.ips.erase old }).heap
        q).ips) = (r.index.release old p).held := by
      funext q
      by_cases hq : q = p <;> simp [TwoWayIndex.release,index,FrameRouter.modify,hq]
    intro k q
    have := hrel k q
    rw [← hhl] at this
    exact this

/-- Without its lease a port holds no node address. -/
theorem Bound.dropLease_ips (h : r.Bound) (p : ℕ) :
    ∀ ip ∈ ((r.dropLease p).heap p).ips, isNodeIP ip ((r.dropLease p).heap p).subnet = false := by
  intro ip hip
  by_contra hnd
  cases hold : (r.heap p).nodeIP with
  | none =>
    simp only [FrameRouter.dropLease,hold] at hip hnd
    have := (h.sound p).node ip hip (by simpa using hnd)
    simp [hold] at this
  | some old =>
    simp only [FrameRouter.dropLease,hold,modify_heap_self] at hip hnd
    have := (h.sound p).node ip (Finset.mem_of_mem_erase hip) (by simpa using hnd)
    rw [hold,Option.some.injEq] at this
    exact Finset.ne_of_mem_erase hip this.symm

theorem dropLease_frame (r : FrameRouter) (p : ℕ) :
    (r.dropLease p).ports = r.ports ∧ ((r.dropLease p).heap p).subnet = (r.heap p).subnet ∧
      ∀ ip q, q ≠ p → ((r.dropLease p).ipToPort ip = some q ↔ r.ipToPort ip = some q) := by
  cases hnd : (r.heap p).nodeIP with
  | none => simp [dropLease,hnd]
  | some old =>
    refine ⟨by simp [dropLease,hnd,modify],by simp [dropLease,hnd],fun ip q hq => ?_⟩
    simp only [dropLease,hnd]
    by_cases hold : r.ipToPort old = some p
    · by_cases hip : ip = old
      · simp [hold,hip,Ne.symm hq]
      · simp [hold,hip]
    · simp [hold]

theorem Bound.learnNodeIP (h : r.Bound) (hp : p ∈ r.ports) : (r.learnNodeIP p ip).Bound := by
  simp only [FrameRouter.learnNodeIP]
  split_ifs with hip hsm hod
  · exact h
  · exact h
  · exact h
  · obtain ⟨hports,hsub,hos⟩ := dropLease_frame r p
    have hdrp := h.dropLease p
    have hnd : isNodeIP ip ((r.dropLease p).heap p).subnet := by
      rw [hsub]
      simpa using hip
    refine ⟨hdrp.fresh,?_,?_⟩
    · have htkn := hdrp.agrees.take (k := ip) (by rwa [← hports] at hp)
      have hhl : (fun q => (((r.dropLease p).modify p fun port =>
          { port with nodeIP := some ip,ips := insert ip port.ips }).heap q).ips) =
          ((r.dropLease p).index.take ip p).held := by
        funext q
        by_cases hq : q = p
        · simp [TwoWayIndex.take,index,hq]
        · -- nobody else owned the address, so nobody else loses it
          have hnot : ¬(r.dropLease p).ipToPort ip = some q := by
            rw [hos ip q hq]
            intro hown
            simp [hown,hq] at hod
          simp [TwoWayIndex.take,index,FrameRouter.modify,hq,hnot]
      intro k q
      have := htkn k q
      rw [← hhl] at this
      exact this
    · have hsnd : ∀ q, PortSound (((r.dropLease p).modify p fun port =>
          { port with nodeIP := some ip,ips := insert ip port.ips }).heap q) :=
        modify_sound hdrp.sound ((hdrp.sound p).insertNode hnd (h.dropLease_ips p))
      exact hsnd

theorem Bound.learnARPSender (h : r.Bound) (hp : p ∈ r.ports) (src : MAC) (pay : Bytes) :
    (r.learnARPSender p src pay).Bound := by
  rcases r.learnARPSender_cases p src pay with heq | ⟨ip,heq⟩
  · rw [heq]
    exact h
  · rw [heq]
    exact h.learnVIPIP hp

theorem Bound.learnGateway (h : r.Bound) (dst : MAC) : (r.learnGateway p dst).Bound := by
  simp only [FrameRouter.learnGateway]
  split_ifs
  · exact h.modify rfl rfl rfl
  · exact h

theorem Bound.learnLease (h : r.Bound) (hp : p ∈ r.ports) (src : MAC) (pkt : IPv4Packet) :
    (r.learnLease p src pkt).Bound := by
  rcases r.learnLease_cases p src pkt with heq | ⟨ip,heq⟩
  · rw [heq]
    exact h
  · rw [heq]
    exact h.learnNodeIP hp

theorem Bound.routeIPv4 (h : r.Bound) (hp : p ∈ r.ports) (f : EthernetFrame) (pkt : IPv4Packet)
    (frame : Bytes) : (r.routeIPv4 p f pkt frame).router.Bound := by
  have hlear : (r.learnLease p f.src pkt).Bound := h.learnLease hp _ _
  rcases r.routeIPv4_cases p f pkt frame with heq | ⟨sub,-,-,-,heq⟩
  · rw [heq]
    exact hlear
  · rw [heq,(forward_cases _ p f pkt sub frame).1]
    exact hlear.learnGateway f.dst

theorem Bound.ingress (h : r.Bound) {port : Option ℕ} {src : MAC} {r' : FrameRouter}
    (hing : r.ingress port src = some (p,r')) : r'.Bound ∧ p ∈ r'.ports := by
  obtain ⟨-,hp,hacc⟩ := ingress_cases hing
  obtain ⟨hr,hports⟩ := h.acceptPortSourceMAC hacc
  exact ⟨hr,hports ▸ hp⟩

theorem Bound.route (h : r.Bound) (port : Option ℕ) (frame : Bytes) :
    (r.route port frame).router.Bound := by
  rcases r.route_cases port frame with heq | ⟨f,p,r₁,-,hing,hrs⟩
  · rw [heq]
    exact h
  · obtain ⟨hr,hp⟩ := h.ingress hing
    rcases hrs with heq | ⟨pkt,-,heq⟩
    · rw [heq]
      exact hr.learnARPSender hp _ _
    · rw [heq]
      exact hr.routeIPv4 hp f pkt frame

end FrameRouter

/-- The speaker announces a route only with a nexthop. -/
def Op.announced : Op → Prop
  | .learnRoutedVIP _ nexthop => nexthop ≠ ""
  | _ => True

namespace FrameRouter

variable {r : FrameRouter} (parseIP4 : String → Option IP)

/-- A validated pair is a VIP and, unless it is a withdrawal, a node of its subnet. -/
theorem routedVIPPair_eq_some {hostRoute nexthop : String} {vip node : IP} (hnexth : nexthop ≠ "")
    (h : routedVIPPair parseIP4 hostRoute nexthop = some (vip,node)) :
    ∃ subnet, isVIP vip subnet ∧ isNodeIP node subnet := by
  simp only [routedVIPPair] at h
  split_ifs at h
  simp only [Option.bind_eq_bind,Option.bind_eq_some_iff] at h
  obtain ⟨vip',-,subnet,-,h⟩ := h
  split_ifs at h with hvip
  simp only [Option.bind_eq_some_iff] at h
  obtain ⟨node',-,h⟩ := h
  split_ifs at h with hnd
  cases h
  exact ⟨subnet,by simpa using hvip,by simpa using hnd⟩

theorem learnRoutedVIP_cases (r : FrameRouter) (hostRoute nexthop : String) :
    r.learnRoutedVIP parseIP4 hostRoute nexthop = r ∨
      ∃ pair, routedVIPPair parseIP4 hostRoute nexthop = some pair ∧
        r.learnRoutedVIP parseIP4 hostRoute nexthop =
          { r with routedVIPs := Function.update r.routedVIPs pair.1 (some pair.2) } := by
  simp only [learnRoutedVIP]
  cases routedVIPPair parseIP4 hostRoute nexthop with
  | none => exact .inl rfl
  | some pair => exact .inr ⟨pair,rfl,rfl⟩

theorem forgetRoutedVIP_cases (r : FrameRouter) (hostRoute : String) :
    r.forgetRoutedVIP parseIP4 hostRoute = r ∨
      ∃ vip, r.forgetRoutedVIP parseIP4 hostRoute =
        { r with routedVIPs := Function.update r.routedVIPs vip none } := by
  simp only [forgetRoutedVIP]
  cases routedVIPPair parseIP4 hostRoute "" with
  | none => exact .inl rfl
  | some pair => exact .inr ⟨pair.1,rfl⟩

theorem Bound.step (h : r.Bound) (op : Op) : (r.step parseIP4 op).Bound := by
  cases op with
  | addPort subnet => exact h.addPort subnet
  | route port frame => exact h.route port frame
  | learnRoutedVIP hostRoute nexthop =>
    show (r.learnRoutedVIP parseIP4 hostRoute nexthop).Bound
    rcases learnRoutedVIP_cases parseIP4 r hostRoute nexthop with heq | ⟨pair,-,heq⟩
    · rw [heq]
      exact h
    · rw [heq]
      exact ⟨h.fresh,h.agrees,h.sound⟩
  | forgetRoutedVIP hostRoute =>
    show (r.forgetRoutedVIP parseIP4 hostRoute).Bound
    rcases forgetRoutedVIP_cases parseIP4 r hostRoute with heq | ⟨vip,heq⟩
    · rw [heq]
      exact h
    · rw [heq]
      exact ⟨h.fresh,h.agrees,h.sound⟩
  | removePort port => exact h.removePort port

theorem removePort_routedVIPs (r : FrameRouter) (port : Option ℕ) :
    (r.removePort port).routedVIPs = r.routedVIPs := by
  rcases r.removePort_cases port with heq | ⟨p,-,-,heq⟩ <;> rw [heq]
  rfl

/-- Only the speaker adds routed addresses, and those it adds were validated. -/
theorem step_routedVIPs {op : Op} {P : IP → IP → Prop}
    (hP : ∀ hostRoute nexthop vip node, op = .learnRoutedVIP hostRoute nexthop →
      routedVIPPair parseIP4 hostRoute nexthop = some (vip,node) → P vip node)
    (h : ∀ vip node, r.routedVIPs vip = some node → P vip node) :
    ∀ vip node, (r.step parseIP4 op).routedVIPs vip = some node → P vip node := by
  intro vip node hrt
  cases op with
  | addPort subnet => exact h vip node hrt
  | route port frame =>
    rw [FrameRouter.step,route_routedVIPs] at hrt
    exact h vip node hrt
  | learnRoutedVIP hostRoute nexthop =>
    rw [FrameRouter.step] at hrt
    rcases learnRoutedVIP_cases parseIP4 r hostRoute nexthop with heq | ⟨pair,hpair,heq⟩
    · rw [heq] at hrt
      exact h vip node hrt
    · rw [heq] at hrt
      by_cases hvip : vip = pair.1
      · simp only [hvip,Function.update_self,Option.some.injEq] at hrt
        subst hvip hrt
        exact hP hostRoute nexthop pair.1 pair.2 rfl hpair
      · simp only [Function.update_of_ne hvip] at hrt
        exact h vip node hrt
  | forgetRoutedVIP hostRoute =>
    rw [FrameRouter.step] at hrt
    rcases forgetRoutedVIP_cases parseIP4 r hostRoute with heq | ⟨gone,heq⟩
    · rw [heq] at hrt
      exact h vip node hrt
    · rw [heq] at hrt
      by_cases hvip : vip = gone
      · simp [hvip] at hrt
      · simp only [Function.update_of_ne hvip] at hrt
        exact h vip node hrt
  | removePort port =>
    rw [FrameRouter.step,removePort_routedVIPs] at hrt
    exact h vip node hrt

lemma run_bound (ops : List Op) : (run parseIP4 ops).Bound :=
  foldl_invariant (fun _ op _ h => h.step parseIP4 op) newFrameRouter_bound

theorem Owned.step (h : r.Owned) {op : Op} (hop : op.announced) : (r.step parseIP4 op).Owned := by
  have hbd : r.Bound := ⟨h.fresh,h.agrees,h.sound⟩
  have hst := hbd.step parseIP4 op
  refine ⟨hst.fresh,hst.agrees,hst.sound,step_routedVIPs parseIP4 ?_ h.routed⟩
  rintro hostRoute nexthop vip node rfl hpair
  exact routedVIPPair_eq_some parseIP4 hop hpair

lemma newFrameRouter_owned : newFrameRouter.Owned :=
  ⟨newFrameRouter_bound.fresh,newFrameRouter_bound.agrees,newFrameRouter_bound.sound,
    by simp [newFrameRouter]⟩

lemma run_owned {ops : List Op} (hops : ∀ op ∈ ops, op.announced) : (run parseIP4 ops).Owned :=
  foldl_invariant (fun _ op hop h => h.step parseIP4 (hops op hop))
    newFrameRouter_owned

theorem owner_bound {ip : IP} {subnet : ℤ} {p : ℕ} (h : r.owner ip subnet = some p) :
    ∃ key, r.ipToPort key = some p := by
  simp only [owner,boundPort] at h
  cases hbd : (r.ipToPort ip).filter fun p => decide ((r.heap p).subnet = subnet) with
  | some q =>
    simp only [hbd] at h
    exact ⟨ip,h ▸ (Option.filter_eq_some_iff.1 hbd).1⟩
  | none =>
    simp only [hbd] at h
    cases hrt : r.routedVIPs ip with
    | none => simp [hrt] at h
    | some nexthop =>
      simp only [hrt] at h
      exact ⟨nexthop,(Option.filter_eq_some_iff.1 h).1⟩

end FrameRouter

/-- One decimal field of a dotted address. -/
def decimalOctet (s : List Char) : Option UInt8 :=
  let value := s.foldl (fun n c => n*10+(c.toNat - '0'.toNat)) 0
  if s ≠ [] ∧ s.all Char.isDigit ∧ (s.length = 1 ∨ s.head? ≠ some '0') ∧ value ≤ 255 then
    some (.ofNat value)
  else none

/-- The dotted branch of the standard library's address parser. -/
def dottedIP4 (s : String) : Option IP :=
  match (s.toList.splitOn '.').map decimalOctet with
  | [some a,some b,some c,some d] => some ⟨a,b,c,d⟩
  | _ => none

/-- A gratuitous ARP for an address. -/
def announceARP (mac : MAC) (ip : IP) : Bytes :=
  [255,255,255,255,255,255]++mac.toList++[0x08,0x06] ++
    [0,1,0x08,0x00,6,4,0,1]++mac.toList++[ip.a,ip.b,ip.c,ip.d] ++
    [0,0,0,0,0,0]++[ip.a,ip.b,ip.c,ip.d]

/-- A port announces a VIP and the speaker routes another to a node. -/
def announcingOps : List Op :=
  [.addPort 241,.route (some 1) (announceARP ⟨2,0,0,0,0xf1,2⟩ ⟨172,30,241,200⟩),
    .learnRoutedVIP "172.30.241.201/32" "172.30.241.2"]

end TalosBox.Router
