import VijosOS.Dhcp.Server
import VijosOS.Library.Leads
import VijosOS.Net.Outcome
import VijosOS.Task.Log

/-!
# The exchange of an address

Boards that run `dhcp_entry` on one network with a server. Packets are lost, repeated, delayed and
reordered, and every board hears the replies to all of them.
-/

namespace VijosOS

open Library

/-! ## Code -/

/-- What a host of the network sends: a datagram, or an ARP packet. -/
inductive DhcpPacket where
  | udp (d : UdpDispatch)
  | arpRequest (sender : Mac) (senderIp targetIp : Ipv4Addr)
  | arpReply (sender : Mac) (senderIp : Ipv4Addr) (target : Mac) (targetIp : Ipv4Addr)
  deriving DecidableEq

/-- Before a `send_udp`, or in the `recv_udp` behind it. -/
inductive DhcpPhase where
  | discover
  | offer
  | request
  | ack
  | done
  deriving DecidableEq

/-- The variables of `dhcp_entry` and the network state of the board. -/
structure DhcpClient where
  net : NetState
  xid : BitVec 32
  phase : DhcpPhase
  serverAddr : Ipv4Addr
  ip : Ipv4Addr

namespace DhcpClient

def start (mac : Mac) (xid : BitVec 32) : DhcpClient :=
  ⟨{ initIp with ifinfo := { initIp.ifinfo with mac := mac } }, xid, .discover, 0, 0⟩

def mac (c : DhcpClient) : Mac := c.net.ifinfo.mac

def ipv4 (c : DhcpClient) : Ipv4Addr := c.net.ifinfo.ipv4

def ipReady (c : DhcpClient) : Bool := c.net.ipReady

/-- What `send_udp` puts on the network. While the MAC address of the receiver is unknown, that is
an ARP request and not the datagram. -/
def sendUdp (c : DhcpClient) (daddr : Ipv4Addr) (payload : List Byte) : DhcpPacket :=
  match ipQueryMac c.net (ipv4Compatible daddr) with
  | .ok _ => .udp ⟨dhcpServerPort.toNat, ipv4Compatible c.ipv4, dhcpClientPort.toNat, payload⟩
  | .error _ => .arpRequest c.mac c.ipv4 daddr

def send (c : DhcpClient) : Option (DhcpClient × DhcpPacket) :=
  match c.phase with
  | .discover => some ({ c with phase := .offer }, c.sendUdp ipv4Broadcast (dhcpDiscover c.mac c.xid))
  | .request => some ({ c with phase := .ack }, c.sendUdp c.serverAddr (dhcpRequest c.mac c.xid c.ip))
  | _ => none

def filter (c : DhcpClient) : Option UdpFilter :=
  match c.phase with
  | .offer => some offerFilter
  | .ack => some (ackFilter c.serverAddr)
  | _ => none

/-- The board after an accepted offer. Its server has a new address, so it is not resolved. -/
def offered (c : DhcpClient) (server yiaddr : Ipv4Addr) : DhcpClient :=
  { c with
    net := { c.net with
      ifinfo := { c.net.ifinfo with ipv4 := yiaddr }
      dhcpServerIp := ipv4Compatible server
      dhcpServerMac := macBroadcast }
    phase := .request
    serverAddr := server
    ip := yiaddr }

/-- The board after an accepted acknowledgement. -/
def acked (c : DhcpClient) (yiaddr : Ipv4Addr) : DhcpClient :=
  { c with
    net := { c.net with ifinfo := { c.net.ifinfo with ipv4 := yiaddr }, ipReady := true }
    phase := .done
    ip := yiaddr }

/-- `recv_udp` has returned `ret`. -/
def recv (c : DhcpClient) (buff : Mem) (ret : Nat) (saddr : Ipv6Addr) : DhcpClient :=
  match c.phase with
  | .offer =>
    if dhcpAccepts buff ret c.xid dhcpMessageTypeOffer then c.offered (extractIpv4 saddr) (dhcpYiaddr buff)
    else { c with phase := .discover }
  | .ack =>
    if dhcpAccepts buff ret c.xid dhcpMessageTypeAck then c.acked (dhcpYiaddr buff)
    else { c with phase := .request }
  | _ => c

def recvDatagram (c : DhcpClient) (d : UdpDispatch) : DhcpClient :=
  c.recv d.packet (min d.payload.length 1024) d.saddr

def timeout (c : DhcpClient) : DhcpClient := c.recv (fun _ => 0) 0 ipv6Unspecified

/-- The IP task learns where `addr` is. -/
def learn (c : DhcpClient) (addr : Ipv6Addr) (mac : Mac) : DhcpClient :=
  { c with net := ipUpdateMac c.net addr mac }

end DhcpClient

inductive DhcpAction where
  | send
  | timeout
  | deliver (d : UdpDispatch)
  | learn (addr : Ipv6Addr) (mac : Mac)

def DhcpClient.step (c : DhcpClient) : DhcpAction → Option DhcpClient
  | .send => c.send.map Prod.fst
  | .timeout => if c.filter.isSome then some c.timeout else none
  | .deliver d => if c.filter.any fun f => taskMatchUdp f d then some (c.recvDatagram d) else none
  | .learn addr mac => some (c.learn addr mac)

/-- What a board does with a packet that reaches it; an ARP reply is for one board only. -/
def DhcpClient.receive (c : DhcpClient) : DhcpPacket → Option DhcpClient
  | .udp d => c.step (.deliver d)
  | .arpRequest _ _ _ => none
  | .arpReply sender senderIp target _ =>
    if target = c.mac ∧ senderIp ≠ ipv4Unspecified then c.step (.learn (ipv4Compatible senderIp) sender)
    else none

/-- The boards, the addresses the server has acknowledged and the packets that were sent and not lost. -/
structure DhcpSystem (ι : Type) where
  client : ι → DhcpClient
  bound : Nat → Option Ipv4Addr
  toServer : List DhcpPacket
  toClient : List DhcpPacket

inductive DhcpEvent (ι : Type) where
  | send (i : ι)
  | timeout (i : ι)
  | deliver (i : ι) (p : DhcpPacket)
  | serve (p : DhcpPacket)
  | lose (p : DhcpPacket)

def DhcpServer.datagram (srv : DhcpServer) (type xid chaddr : Nat) (yiaddr : Ipv4Addr) : UdpDispatch :=
  ⟨dhcpClientPort.toNat, ipv4Compatible srv.addr, dhcpServerPort.toNat, srv.reply type xid chaddr yiaddr⟩

namespace DhcpSystem

variable {ι : Type} [DecidableEq ι] (srv : DhcpServer)

/-- The boards by hardware address and transaction. -/
def start (boards : ι → Mac × BitVec 32) : DhcpSystem ι :=
  ⟨fun i => .start (boards i).1 (boards i).2, fun _ => none, [], []⟩

def setClient (s : DhcpSystem ι) (i : ι) (c : DhcpClient) : DhcpSystem ι :=
  { s with client := Function.update s.client i c }

def serveDatagram (s : DhcpSystem ι) (d : UdpDispatch) : DhcpSystem ι :=
  match dhcpQuery d.payload with
  | none => s
  | some q =>
    match srv.answer q with
    | none => s
    | some (type, yiaddr) =>
      { s with
        bound := if type = dhcpMessageTypeAck then Function.update s.bound q.chaddr (some yiaddr) else s.bound
        toClient := s.toClient ++ [.udp (srv.datagram type q.xid q.chaddr yiaddr)] }

/-- The server answers a datagram to its port, or a question for its MAC address. -/
def serve (s : DhcpSystem ι) : DhcpPacket → DhcpSystem ι
  | .udp d => if d.dport = dhcpServerPort.toNat then s.serveDatagram srv d else s
  | .arpRequest sender senderIp targetIp =>
    if targetIp = srv.addr then { s with toClient := s.toClient ++ [.arpReply srv.mac srv.addr sender senderIp] }
    else s
  | .arpReply _ _ _ _ => s

/-- The network loses a packet. -/
def lose (s : DhcpSystem ι) (p : DhcpPacket) : DhcpSystem ι :=
  { s with toServer := s.toServer.erase p, toClient := s.toClient.erase p }

def step (s : DhcpSystem ι) : DhcpEvent ι → Option (DhcpSystem ι)
  | .send i =>
    match (s.client i).send with
    | some (c, p) => some { s.setClient i c with toServer := s.toServer ++ [p] }
    | none => none
  | .timeout i => ((s.client i).step .timeout).map (s.setClient i)
  | .deliver i p => if p ∈ s.toClient then ((s.client i).receive p).map (s.setClient i) else none
  | .serve p => if p ∈ s.toServer then some (s.serve srv p) else none
  | .lose p => some (s.lose p)

end DhcpSystem

/-! ## One reply -/

namespace DhcpClient

variable {c : DhcpClient} {srv : DhcpServer} {type xid chaddr : Nat} {yiaddr : Ipv4Addr}

theorem timeout_offer (hphase : c.phase = .offer) : c.timeout = { c with phase := .discover } := by
  unfold timeout recv
  rw [hphase]
  exact if_neg (by simp [dhcpAccepts])

theorem timeout_ack (hphase : c.phase = .ack) : c.timeout = { c with phase := .request } := by
  unfold timeout recv
  rw [hphase]
  exact if_neg (by simp [dhcpAccepts])

theorem recvDatagram_offer (hphase : c.phase = .offer) (hxid : xid < 2 ^ 32) (htype : type < 256) :
    c.recvDatagram (srv.datagram type xid chaddr yiaddr) =
      if xid = c.xid.toNat ∧ type = dhcpMessageTypeOffer then c.offered srv.addr yiaddr
      else { c with phase := .discover } := by
  have haccepts := dhcpAccepts_reply srv type xid chaddr yiaddr c.xid dhcpMessageTypeOffer hxid htype
  have hyiaddr := dhcpYiaddr_reply srv type xid chaddr yiaddr
  unfold recvDatagram recv
  rw [hphase]
  dsimp only
  by_cases h : xid = c.xid.toNat ∧ type = dhcpMessageTypeOffer
  · rw [if_pos h]
    refine (if_pos (haccepts.mpr h)).trans ?_
    rw [UdpDispatch.packet]
    simp only [DhcpServer.datagram, hyiaddr, extractIpv4_ipv4Compatible]
  · rw [if_neg h]
    exact if_neg fun hacc => h (haccepts.mp hacc)

theorem recvDatagram_ack (hphase : c.phase = .ack) (hxid : xid < 2 ^ 32) (htype : type < 256) :
    c.recvDatagram (srv.datagram type xid chaddr yiaddr) =
      if xid = c.xid.toNat ∧ type = dhcpMessageTypeAck then c.acked yiaddr
      else { c with phase := .request } := by
  have haccepts := dhcpAccepts_reply srv type xid chaddr yiaddr c.xid dhcpMessageTypeAck hxid htype
  have hyiaddr := dhcpYiaddr_reply srv type xid chaddr yiaddr
  unfold recvDatagram recv
  rw [hphase]
  dsimp only
  by_cases h : xid = c.xid.toNat ∧ type = dhcpMessageTypeAck
  · rw [if_pos h]
    refine (if_pos (haccepts.mpr h)).trans ?_
    rw [UdpDispatch.packet]
    simp only [DhcpServer.datagram, hyiaddr]
  · rw [if_neg h]
    exact if_neg fun hacc => h (haccepts.mp hacc)

theorem step_deliver {f : UdpFilter} {d : UdpDispatch} (hfilter : c.filter = some f)
    (hmatch : taskMatchUdp f d = true) :
    c.step (.deliver d) = some (c.recvDatagram d) := by
  rw [step, hfilter]
  exact if_pos hmatch

/-- Both filters let the replies of the server through. -/
theorem filter_matches {f : UdpFilter} (hf : c.filter = some f) (hserver : c.phase = .ack → c.serverAddr = srv.addr) :
    taskMatchUdp f (srv.datagram type xid chaddr yiaddr) = true := by
  unfold filter at hf
  split at hf
  · obtain rfl := Option.some.inj hf
    exact taskMatchUdp_iff.mpr ⟨.inr rfl, .inl rfl, .inr rfl⟩
  · rename_i hphase
    obtain rfl := Option.some.inj hf
    refine taskMatchUdp_iff.mpr ⟨.inr rfl, .inr ?_, .inr rfl⟩
    exact congrArg ipv4Compatible (hserver hphase)
  · cases hf

end DhcpClient

namespace DhcpSystem

/-! ## What holds of every board -/

section Boards

variable {ι : Type} {srv : DhcpServer} {boards : ι → Mac × BitVec 32} {bound : Nat → Option Ipv4Addr}
  {s : DhcpSystem ι} {i : ι} {c c' : DhcpClient} {d : UdpDispatch} {p : DhcpPacket}

/-- The address the server keeps for a board. -/
def leaseOf (srv : DhcpServer) (boards : ι → Mac × BitVec 32) (i : ι) : Ipv4Addr :=
  srv.lease (chaddrOf (boards i).1)

/-- What a board has at each phase, when its replies were its own. -/
structure ClientInv (srv : DhcpServer) (boards : ι → Mac × BitVec 32) (bound : Nat → Option Ipv4Addr) (i : ι)
    (c : DhcpClient) : Prop where
  mac : c.mac = (boards i).1
  xid : c.xid = (boards i).2
  serverIp : c.net.serverIp = initIp.serverIp
  ready : c.ipReady = true ↔ c.phase = .done
  asking : c.phase = .discover ∨ c.phase = .offer → c.net.dhcpServerIp = initIp.dhcpServerIp
  holding : c.phase = .request ∨ c.phase = .ack → c.net.dhcpServerIp = ipv4Compatible srv.addr ∧
    c.serverAddr = srv.addr ∧ c.ip = leaseOf srv boards i
  leased : c.phase = .done →
    c.ipv4 = leaseOf srv boards i ∧ bound (chaddrOf (boards i).1) = some (leaseOf srv boards i)

/-- A datagram of a board that asks for its own address. -/
def Asked (srv : DhcpServer) (boards : ι → Mac × BitVec 32) (d : UdpDispatch) : Prop :=
  ∃ i, d.payload = dhcpDiscover (boards i).1 (boards i).2 ∨
    d.payload = dhcpRequest (boards i).1 (boards i).2 (leaseOf srv boards i)

/-- A reply to a board, with the address kept for it; one that acknowledges says so truly. -/
def Told (srv : DhcpServer) (boards : ι → Mac × BitVec 32) (bound : Nat → Option Ipv4Addr) (d : UdpDispatch) : Prop :=
  ∃ i type, type < 256 ∧
    d = srv.datagram type (boards i).2.toNat (chaddrOf (boards i).1) (leaseOf srv boards i) ∧
    (type = dhcpMessageTypeAck → bound (chaddrOf (boards i).1) = some (leaseOf srv boards i))

theorem start_clientInv (srv : DhcpServer) (boards : ι → Mac × BitVec 32) (bound : Nat → Option Ipv4Addr) (i : ι) :
    ClientInv srv boards bound i (.start (boards i).1 (boards i).2) where
  mac := rfl
  xid := rfl
  serverIp := rfl
  ready := iff_of_false nofun nofun
  asking := fun _ => rfl
  holding := fun h => h.elim nofun nofun
  leased := nofun

/-- A phase that asks for no more than the one before. -/
theorem ClientInv.move (h : ClientInv srv boards bound i c) (hphase : c.phase ≠ .done) {p : DhcpPhase} (hp : p ≠ .done)
    (hasking : p = .discover ∨ p = .offer → c.phase = .discover ∨ c.phase = .offer)
    (hholding : p = .request ∨ p = .ack → c.phase = .request ∨ c.phase = .ack) :
    ClientInv srv boards bound i { c with phase := p } where
  mac := h.mac
  xid := h.xid
  serverIp := h.serverIp
  ready := iff_of_false (fun hr => hphase (h.ready.mp hr)) hp
  asking := fun hk => h.asking (hasking hk)
  holding := fun hk => h.holding (hholding hk)
  leased := fun hd => absurd hd hp

theorem ClientInv.learn (h : ClientInv srv boards bound i c) (addr : Ipv6Addr) (mac : Mac) :
    ClientInv srv boards bound i (c.learn addr mac) := by
  obtain ⟨hifinfo, hready⟩ := ipUpdateMac_keeps c.net addr mac
  obtain ⟨hserverIp, -, hdhcpServerIp, -⟩ := ipUpdateMac_entries c.net addr mac
  constructor
  · exact (congrArg IfInfo.mac hifinfo).trans h.mac
  · exact h.xid
  · exact hserverIp.trans h.serverIp
  · exact (iff_of_eq (congrArg (· = true) hready)).trans h.ready
  · exact fun hphase => hdhcpServerIp.trans (h.asking hphase)
  · exact fun hphase => ⟨hdhcpServerIp.trans (h.holding hphase).1, (h.holding hphase).2⟩
  · exact fun hphase => ⟨(congrArg IfInfo.ipv4 hifinfo).trans (h.leased hphase).1, (h.leased hphase).2⟩

/-- The datagram of a `send_udp`, if one is sent, has the payload that was given. -/
theorem sendUdp_payload {daddr : Ipv4Addr} {payload : List Byte} (h : c.sendUdp daddr payload = .udp d) :
    d.payload = payload := by
  unfold DhcpClient.sendUdp at h
  split at h
  · obtain rfl := DhcpPacket.udp.inj h
    rfl
  · cases h

theorem ClientInv.send (h : ClientInv srv boards bound i c) (hsend : c.send = some (c', p)) :
    ClientInv srv boards bound i c' ∧ ∀ d, p = .udp d → Asked srv boards d := by
  unfold DhcpClient.send at hsend
  split at hsend
  · rename_i hphase
    obtain ⟨rfl, rfl⟩ := Prod.mk.inj (Option.some.inj hsend)
    refine ⟨h.move ?_ nofun (fun _ => .inl hphase) fun hk => hk.elim nofun nofun, fun d hd => ⟨i, .inl ?_⟩⟩
    · rw [hphase]
      exact nofun
    · rw [sendUdp_payload hd, ← h.mac, ← h.xid]
  · rename_i hphase
    obtain ⟨rfl, rfl⟩ := Prod.mk.inj (Option.some.inj hsend)
    refine ⟨h.move ?_ nofun (fun hk => hk.elim nofun nofun) fun _ => .inl hphase, fun d hd => ⟨i, .inr ?_⟩⟩
    · rw [hphase]
      exact nofun
    · rw [sendUdp_payload hd, ← h.mac, ← h.xid, ← (h.holding (.inl hphase)).2.2]
  · cases hsend

theorem filter_phase (hfilter : c.filter.isSome = true) : c.phase = .offer ∨ c.phase = .ack := by
  cases hphase : c.phase with
  | offer => exact .inl rfl
  | ack => exact .inr rfl
  | discover | request | done => simp [DhcpClient.filter, hphase] at hfilter

/-- What a `recv_udp` that brings nothing does. -/
theorem ClientInv.retry (h : ClientInv srv boards bound i c) :
    (c.phase = .offer → ClientInv srv boards bound i { c with phase := .discover }) ∧
      (c.phase = .ack → ClientInv srv boards bound i { c with phase := .request }) := by
  constructor
  · intro hphase
    refine h.move ?_ nofun (fun _ => .inr hphase) fun hk => hk.elim nofun nofun
    rw [hphase]
    exact nofun
  · intro hphase
    refine h.move ?_ nofun (fun hk => hk.elim nofun nofun) fun _ => .inr hphase
    rw [hphase]
    exact nofun

theorem ClientInv.timeout (h : ClientInv srv boards bound i c) (hfilter : c.filter.isSome = true) :
    ClientInv srv boards bound i c.timeout := by
  rcases filter_phase hfilter with hphase | hphase
  · rw [DhcpClient.timeout_offer hphase]
    exact h.retry.1 hphase
  · rw [DhcpClient.timeout_ack hphase]
    exact h.retry.2 hphase

/-- A board takes only the replies to itself, since no other has its transaction. -/
theorem ClientInv.recv (hxid : Function.Injective fun i => (boards i).2) (h : ClientInv srv boards bound i c)
    (hfilter : c.filter.isSome = true) (htold : Told srv boards bound d) :
    ClientInv srv boards bound i (c.recvDatagram d) := by
  obtain ⟨j, type, htype, rfl, hack⟩ := htold
  have hown : (boards j).2.toNat = c.xid.toNat → j = i := by
    intro heq
    refine hxid (BitVec.eq_of_toNat_eq ?_)
    rw [heq, h.xid]
  rcases filter_phase hfilter with hphase | hphase
  · rw [DhcpClient.recvDatagram_offer hphase (boards j).2.isLt htype]
    split_ifs with htake
    · obtain rfl := hown htake.1
      refine ⟨h.mac, h.xid, h.serverIp, iff_of_false (fun hr => ?_) nofun, fun hk => hk.elim nofun nofun,
        fun _ => ⟨rfl, rfl, rfl⟩, nofun⟩
      have hdone := h.ready.mp hr
      rw [hphase] at hdone
      cases hdone
    · exact h.retry.1 hphase
  · rw [DhcpClient.recvDatagram_ack hphase (boards j).2.isLt htype]
    split_ifs with htake
    · obtain rfl := hown htake.1
      exact ⟨h.mac, h.xid, h.serverIp, iff_of_true rfl rfl, fun hk => hk.elim nofun nofun,
        fun hk => hk.elim nofun nofun, fun _ => ⟨rfl, hack htake.2⟩⟩
    · exact h.retry.2 hphase

/-! ## What holds of every exchange -/

structure Inv (srv : DhcpServer) (boards : ι → Mac × BitVec 32) (s : DhcpSystem ι) : Prop where
  client : ∀ i, ClientInv srv boards s.bound i (s.client i)
  asked : ∀ d, .udp d ∈ s.toServer → Asked srv boards d
  told : ∀ d, .udp d ∈ s.toClient → Told srv boards s.bound d

theorem start_inv (srv : DhcpServer) (boards : ι → Mac × BitVec 32) : Inv srv boards (start boards) where
  client := fun i => start_clientInv srv boards _ i
  asked := fun _ h => nomatch h
  told := fun _ h => nomatch h

/-- The server forgets no address that it has acknowledged, and keeps one for each board. -/
theorem serveDatagram_inv (h : Inv srv boards s) (hd : Asked srv boards d) :
    Inv srv boards (s.serveDatagram srv d) := by
  obtain ⟨i, hpayload | hpayload⟩ := hd
  · have hserve : s.serveDatagram srv d = { s with
        toClient := s.toClient ++
          [.udp (srv.datagram dhcpMessageTypeOffer (boards i).2.toNat (chaddrOf (boards i).1)
            (leaseOf srv boards i))] } := by
      rw [serveDatagram, hpayload, dhcpDiscover_query]
      rfl
    rw [hserve]
    refine ⟨h.client, h.asked, fun e he => ?_⟩
    rcases List.mem_append.mp he with he | he
    · exact h.told e he
    · obtain rfl := DhcpPacket.udp.inj (List.mem_singleton.mp he)
      exact ⟨i, dhcpMessageTypeOffer, by decide, rfl, fun hack => absurd hack (by decide)⟩
  · have hserve : s.serveDatagram srv d = { s with
        bound := Function.update s.bound (chaddrOf (boards i).1) (some (leaseOf srv boards i))
        toClient := s.toClient ++
          [.udp (srv.datagram dhcpMessageTypeAck (boards i).2.toNat (chaddrOf (boards i).1)
            (leaseOf srv boards i))] } := by
      have hanswer : srv.answer ⟨(boards i).2.toNat, chaddrOf (boards i).1, dhcpMessageTypeRequest,
          some (leaseOf srv boards i).toNat⟩ = some (dhcpMessageTypeAck, leaseOf srv boards i) := by
        unfold DhcpServer.answer
        rw [if_neg (show ¬ dhcpMessageTypeRequest = dhcpMessageTypeDiscover by decide), if_pos rfl]
        exact if_pos rfl
      rw [serveDatagram, hpayload, dhcpRequest_query]
      dsimp only
      rw [hanswer]
      rfl
    have hkeep : ∀ j, s.bound (chaddrOf (boards j).1) = some (leaseOf srv boards j) →
        Function.update s.bound (chaddrOf (boards i).1) (some (leaseOf srv boards i)) (chaddrOf (boards j).1) =
          some (leaseOf srv boards j) := by
      intro j hj
      by_cases hsame : chaddrOf (boards j).1 = chaddrOf (boards i).1
      · have hlease : leaseOf srv boards j = leaseOf srv boards i := congrArg srv.lease hsame
        rw [hsame, Function.update_self, hlease]
      · rw [Function.update_of_ne hsame]
        exact hj
    rw [hserve]
    refine ⟨fun j => ?_, h.asked, fun e he => ?_⟩
    · have hj := h.client j
      exact ⟨hj.mac, hj.xid, hj.serverIp, hj.ready, hj.asking, hj.holding,
        fun hd => ⟨(hj.leased hd).1, hkeep j (hj.leased hd).2⟩⟩
    · rcases List.mem_append.mp he with he | he
      · obtain ⟨j, type, htype, hdatagram, hack⟩ := h.told e he
        exact ⟨j, type, htype, hdatagram, fun ht => hkeep j (hack ht)⟩
      · obtain rfl := DhcpPacket.udp.inj (List.mem_singleton.mp he)
        exact ⟨i, dhcpMessageTypeAck, by decide, rfl, fun _ => Function.update_self _ _ _⟩

/-- What the server says about its MAC address changes nothing else. -/
theorem serve_inv (h : Inv srv boards s) (hp : p ∈ s.toServer) : Inv srv boards (s.serve srv p) := by
  cases p with
  | udp d =>
    rw [serve]
    split_ifs
    · exact serveDatagram_inv h (h.asked d hp)
    · exact h
  | arpRequest sender senderIp targetIp =>
    rw [serve]
    split_ifs
    · refine ⟨h.client, h.asked, fun e he => ?_⟩
      obtain he | he := List.mem_append.mp he
      · exact h.told e he
      · cases List.mem_singleton.mp he
    · exact h
  | arpReply sender senderIp target targetIp => exact h

theorem lose_inv (h : Inv srv boards s) (p : DhcpPacket) : Inv srv boards (s.lose p) where
  client := h.client
  asked := fun d hd => h.asked d (List.mem_of_mem_erase hd)
  told := fun d hd => h.told d (List.mem_of_mem_erase hd)

end Boards

/-! ## Runs -/

variable {ι : Type} [DecidableEq ι] {srv : DhcpServer} {boards : ι → Mac × BitVec 32} {s t : DhcpSystem ι}
  {i j : ι}

@[simp] theorem setClient_self (s : DhcpSystem ι) (i : ι) (c : DhcpClient) : (s.setClient i c).client i = c :=
  Function.update_self _ _ _

theorem setClient_of_ne (s : DhcpSystem ι) (c : DhcpClient) (h : j ≠ i) :
    (s.setClient i c).client j = s.client j := Function.update_of_ne h _ _

theorem setClient_inv (h : Inv srv boards s) {c : DhcpClient} (hc : ClientInv srv boards s.bound i c) :
    Inv srv boards (s.setClient i c) := by
  refine ⟨fun j => ?_, h.asked, h.told⟩
  by_cases hj : j = i
  · subst hj
    rw [setClient_self]
    exact hc
  · rw [setClient_of_ne s c hj]
    exact h.client j

theorem step_inv (hxid : Function.Injective fun i => (boards i).2) {e : DhcpEvent ι} (h : Inv srv boards s)
    (hstep : s.step srv e = some t) : Inv srv boards t := by
  cases e with
  | send i =>
    simp only [step] at hstep
    split at hstep
    · rename_i c p hsend
      obtain rfl := Option.some.inj hstep
      obtain ⟨hc, hd⟩ := (h.client i).send hsend
      have hset := setClient_inv h hc
      refine ⟨hset.client, fun e he => ?_, hset.told⟩
      rcases List.mem_append.mp he with he | he
      · exact h.asked e he
      · exact hd e (List.mem_singleton.mp he).symm
    · cases hstep
  | timeout i =>
    obtain ⟨c, hc, rfl⟩ := Option.map_eq_some_iff.mp hstep
    simp only [DhcpClient.step] at hc
    split_ifs at hc with hfilter
    obtain rfl := Option.some.inj hc
    exact setClient_inv h ((h.client i).timeout hfilter)
  | deliver i p =>
    simp only [step] at hstep
    split_ifs at hstep with hp
    obtain ⟨c, hc, rfl⟩ := Option.map_eq_some_iff.mp hstep
    cases p with
    | udp d =>
      simp only [DhcpClient.receive, DhcpClient.step] at hc
      split_ifs at hc with hfilter
      obtain rfl := Option.some.inj hc
      exact setClient_inv h ((h.client i).recv hxid (Option.isSome_of_any hfilter) (h.told d hp))
    | arpRequest sender senderIp targetIp => cases hc
    | arpReply sender senderIp target targetIp =>
      simp only [DhcpClient.receive, DhcpClient.step] at hc
      split_ifs at hc
      obtain rfl := Option.some.inj hc
      exact setClient_inv h ((h.client i).learn _ _)
  | serve p =>
    simp only [step] at hstep
    split_ifs at hstep with hp
    obtain rfl := Option.some.inj hstep
    exact serve_inv h hp
  | lose p =>
    obtain rfl := Option.some.inj hstep
    exact lose_inv h p

/-! ## One step -/

theorem step_send {c : DhcpClient} {p : DhcpPacket} (h : (s.client i).send = some (c, p)) :
    s.step srv (.send i) = some { s.setClient i c with toServer := s.toServer ++ [p] } := by
  simp only [step, h]

theorem step_serve {p : DhcpPacket} (h : p ∈ s.toServer) : s.step srv (.serve p) = some (s.serve srv p) := if_pos h

theorem step_deliver {c : DhcpClient} {p : DhcpPacket} (hp : p ∈ s.toClient) (h : (s.client i).receive p = some c) :
    s.step srv (.deliver i p) = some (s.setClient i c) := by
  rw [step, if_pos hp, h]
  rfl

theorem step_timeout (h : (s.client i).filter.isSome = true) :
    s.step srv (.timeout i) = some (s.setClient i (s.client i).timeout) := by
  rw [step, DhcpClient.step, if_pos h]
  rfl

/-! ## A board gets its address -/

/-- A board sends, the server answers and the board takes the answer. -/
theorem round {c : DhcpClient} {d : UdpDispatch} {f : UdpFilter} {q : DhcpQuery} {type : Nat} {yiaddr : Ipv4Addr}
    (hsend : (s.client i).send = some (c, .udp d)) (hport : d.dport = dhcpServerPort.toNat)
    (hquery : dhcpQuery d.payload = some q) (hanswer : srv.answer q = some (type, yiaddr)) (hfilter : c.filter = some f)
    (hmatch : taskMatchUdp f (srv.datagram type q.xid q.chaddr yiaddr) = true) :
    Leads (step srv) 3 s fun t =>
      t.client = Function.update s.client i (c.recvDatagram (srv.datagram type q.xid q.chaddr yiaddr)) ∧
        .udp (srv.datagram type q.xid q.chaddr yiaddr) ∈ t.toClient ∧ ∀ e ∈ s.toClient, e ∈ t.toClient := by
  let s₁ : DhcpSystem ι := { s.setClient i c with toServer := s.toServer ++ [.udp d] }
  have hserve : (s₁.serve srv (.udp d)).client = s₁.client ∧
      (s₁.serve srv (.udp d)).toClient = s.toClient ++ [.udp (srv.datagram type q.xid q.chaddr yiaddr)] := by
    rw [serve, if_pos hport, serveDatagram, hquery]
    dsimp only
    rw [hanswer]
    exact ⟨rfl, rfl⟩
  have hstep₂ : s₁.step srv (.serve (.udp d)) = some (s₁.serve srv (.udp d)) :=
    step_serve (List.mem_append_right _ (List.mem_singleton.mpr rfl))
  have hmem : .udp (srv.datagram type q.xid q.chaddr yiaddr) ∈ (s₁.serve srv (.udp d)).toClient := by
    rw [hserve.2]
    exact List.mem_append_right _ (List.mem_singleton.mpr rfl)
  have hclient : (s₁.serve srv (.udp d)).client i = c := by
    rw [hserve.1]
    exact setClient_self s i c
  have htake : ((s₁.serve srv (.udp d)).client i).receive (.udp (srv.datagram type q.xid q.chaddr yiaddr)) =
      some (c.recvDatagram (srv.datagram type q.xid q.chaddr yiaddr)) := by
    rw [hclient]
    exact DhcpClient.step_deliver hfilter hmatch
  refine Leads.cons (step_send hsend) (Leads.cons hstep₂ (Leads.cons (step_deliver hmem htake)
    (Leads.here ⟨?_, hmem, fun e he => ?_⟩)))
  · rw [setClient, hserve.1]
    exact Function.update_idem _ _ _
  · show e ∈ (s₁.serve srv (.udp d)).toClient
    rw [hserve.2]
    exact List.mem_append_left _ he

/-- The offer to a board, and the acknowledgement. -/
def offerTo (srv : DhcpServer) (mac : Mac) (xid : BitVec 32) : UdpDispatch :=
  srv.datagram dhcpMessageTypeOffer xid.toNat (chaddrOf mac) (srv.lease (chaddrOf mac))

def ackTo (srv : DhcpServer) (mac : Mac) (xid : BitVec 32) : UdpDispatch :=
  srv.datagram dhcpMessageTypeAck xid.toNat (chaddrOf mac) (srv.lease (chaddrOf mac))

section Phases

variable {c : DhcpClient} {mac : Mac} {xid : BitVec 32}

theorem take_offer (hphase : c.phase = .offer) (hxid : c.xid = xid) :
    c.recvDatagram (offerTo srv mac xid) = c.offered srv.addr (srv.lease (chaddrOf mac)) := by
  rw [offerTo, DhcpClient.recvDatagram_offer hphase xid.isLt (by decide), hxid, if_pos ⟨rfl, rfl⟩]

theorem take_ack (hphase : c.phase = .ack) (hxid : c.xid = xid) :
    c.recvDatagram (ackTo srv mac xid) = c.acked (srv.lease (chaddrOf mac)) := by
  rw [ackTo, DhcpClient.recvDatagram_ack hphase xid.isLt (by decide), hxid, if_pos ⟨rfl, rfl⟩]

theorem send_discover (hphase : c.phase = .discover) :
    c.send = some ({ c with phase := .offer }, c.sendUdp ipv4Broadcast (dhcpDiscover c.mac c.xid)) := by
  unfold DhcpClient.send
  rw [hphase]

theorem send_request (hphase : c.phase = .request) :
    c.send = some ({ c with phase := .ack }, c.sendUdp c.serverAddr (dhcpRequest c.mac c.xid c.ip)) := by
  unfold DhcpClient.send
  rw [hphase]

theorem sendUdp_known {daddr : Ipv4Addr} {receiver : Mac} (payload : List Byte)
    (h : ipQueryMac c.net (ipv4Compatible daddr) = .ok receiver) : c.sendUdp daddr payload =
      .udp ⟨dhcpServerPort.toNat, ipv4Compatible c.ipv4, dhcpClientPort.toNat, payload⟩ := by
  rw [DhcpClient.sendUdp, h]

theorem sendUdp_unknown {daddr : Ipv4Addr} {e : Int} (payload : List Byte)
    (h : ipQueryMac c.net (ipv4Compatible daddr) = .error e) :
    c.sendUdp daddr payload = .arpRequest c.mac c.ipv4 daddr := by
  rw [DhcpClient.sendUdp, h]

/-- The broadcast address needs no resolution. -/
theorem query_broadcast (hserver : c.net.serverIp = initIp.serverIp)
    (hdhcp : c.net.dhcpServerIp = initIp.dhcpServerIp) :
    ipQueryMac c.net (ipv4Compatible ipv4Broadcast) = .ok macBroadcast := by
  unfold ipQueryMac
  rw [hserver, hdhcp, if_neg (by decide), if_neg (by decide), if_pos rfl]

/-- A board that waits for its acknowledgement hears the ARP reply of the server, and then nothing else. -/
theorem learn_timeout (hphase : c.phase = .request) (addr : Ipv6Addr) :
    (({ c with phase := .ack } : DhcpClient).learn addr mac).timeout = c.learn addr mac := by
  rw [DhcpClient.timeout_ack rfl]
  cases c
  cases hphase
  rfl

end Phases

theorem offer_round (hphase : (s.client i).phase = .discover) (hserver : (s.client i).net.serverIp = initIp.serverIp)
    (hdhcp : (s.client i).net.dhcpServerIp = initIp.dhcpServerIp) : Leads (step srv) 3 s fun t =>
    t.client = Function.update s.client i
        ((s.client i).offered srv.addr (srv.lease (chaddrOf (s.client i).mac))) ∧
      .udp (offerTo srv (s.client i).mac (s.client i).xid) ∈ t.toClient ∧ ∀ e ∈ s.toClient, e ∈ t.toClient := by
  have hsend := send_discover hphase
  rw [sendUdp_known _ (query_broadcast hserver hdhcp)] at hsend
  have hquery := dhcpDiscover_query (s.client i).mac (s.client i).xid
  have hmatch : ∀ type xid chaddr yiaddr, taskMatchUdp offerFilter (srv.datagram type xid chaddr yiaddr) = true :=
    fun _ _ _ _ => DhcpClient.filter_matches (c := { s.client i with phase := .offer }) rfl nofun
  have hround := round hsend rfl hquery rfl rfl (hmatch _ _ _ _)
  refine hround.imp fun t ht => ?_
  exact ⟨ht.1.trans (congrArg _ (take_offer rfl rfl)), ht.2⟩

/-- A board that does not know where the server is asks, hears the answer and gives up waiting for
the acknowledgement of a request that was not sent. -/
theorem ask_round {e : Int} (hphase : (s.client i).phase = .request) (hserver : (s.client i).serverAddr = srv.addr)
    (hunknown : ipQueryMac (s.client i).net (ipv4Compatible srv.addr) = .error e) : Leads (step srv) 4 s fun t =>
    t.client = Function.update s.client i ((s.client i).learn (ipv4Compatible srv.addr) srv.mac) ∧
      ∀ e ∈ s.toClient, e ∈ t.toClient := by
  let request : DhcpPacket := .arpRequest (s.client i).mac (s.client i).ipv4 srv.addr
  let reply : DhcpPacket := .arpReply srv.mac srv.addr (s.client i).mac (s.client i).ipv4
  obtain ⟨c, hc, hsend⟩ : ∃ c, c = ({ s.client i with phase := .ack } : DhcpClient) ∧
      (s.client i).send = some (c, request) := by
    refine ⟨_, rfl, (send_request hphase).trans ?_⟩
    have hpacket : ∀ payload, (s.client i).sendUdp (s.client i).serverAddr payload = request := by
      intro payload
      rw [hserver]
      exact sendUdp_unknown payload hunknown
    rw [hpacket]
  let s₁ : DhcpSystem ι := { s.setClient i c with toServer := s.toServer ++ [request] }
  let s₂ : DhcpSystem ι := { s₁ with toClient := s₁.toClient ++ [reply] }
  have hstep₂ : s₁.step srv (.serve request) = some s₂ := by
    have hserve : s₁.serve srv request = s₂ := if_pos rfl
    rw [← hserve]
    exact step_serve (List.mem_append_right _ (List.mem_singleton.mpr rfl))
  have hclient : s₂.client i = c := setClient_self s i c
  have hreceive : (s₂.client i).receive reply = some (c.learn (ipv4Compatible srv.addr) srv.mac) := by
    rw [hclient, hc]
    exact if_pos ⟨rfl, srv.addr_ne⟩
  have hstep₃ : s₂.step srv (.deliver i reply) = some (s₂.setClient i (c.learn (ipv4Compatible srv.addr) srv.mac)) :=
    step_deliver (List.mem_append_right _ (List.mem_singleton.mpr rfl)) hreceive
  have hwaits : ((s₂.setClient i (c.learn (ipv4Compatible srv.addr) srv.mac)).client i).filter.isSome = true := by
    rw [setClient_self, hc]
    rfl
  refine Leads.cons (step_send hsend) (Leads.cons hstep₂ (Leads.cons hstep₃ (Leads.cons (step_timeout hwaits)
    (Leads.here ⟨?_, fun e he => List.mem_append_left _ he⟩))))
  rw [setClient_self, hc, learn_timeout hphase]
  exact (Function.update_idem _ _ _).trans ((Function.update_idem _ _ _).trans rfl)

theorem ack_round {receiver : Mac} (hphase : (s.client i).phase = .request)
    (hserver : (s.client i).serverAddr = srv.addr)
    (hip : (s.client i).ip = srv.lease (chaddrOf (s.client i).mac))
    (hknown : ipQueryMac (s.client i).net (ipv4Compatible srv.addr) = .ok receiver) : Leads (step srv) 3 s fun t =>
    t.client = Function.update s.client i ((s.client i).acked (srv.lease (chaddrOf (s.client i).mac))) ∧
      .udp (ackTo srv (s.client i).mac (s.client i).xid) ∈ t.toClient ∧ ∀ e ∈ s.toClient, e ∈ t.toClient := by
  have hsend := send_request hphase
  rw [sendUdp_known _ (hserver ▸ hknown)] at hsend
  have hquery := dhcpRequest_query (s.client i).mac (s.client i).xid (s.client i).ip
  have hanswer : srv.answer ⟨(s.client i).xid.toNat, chaddrOf (s.client i).mac, dhcpMessageTypeRequest,
      some (s.client i).ip.toNat⟩ = some (dhcpMessageTypeAck, srv.lease (chaddrOf (s.client i).mac)) := by
    unfold DhcpServer.answer
    rw [if_neg (show ¬ dhcpMessageTypeRequest = dhcpMessageTypeDiscover by decide), if_pos rfl, hip]
    exact if_pos rfl
  have hmatch : ∀ type xid chaddr yiaddr,
      taskMatchUdp (ackFilter (s.client i).serverAddr) (srv.datagram type xid chaddr yiaddr) = true :=
    fun _ _ _ _ => DhcpClient.filter_matches (c := { s.client i with phase := .ack }) rfl fun _ => hserver
  have hround := round hsend rfl hquery hanswer rfl (hmatch _ _ _ _)
  refine hround.imp fun t ht => ?_
  exact ⟨ht.1.trans (congrArg _ (take_ack rfl rfl)), ht.2⟩

/-- A board with an offer resolves the server when it has to, and gets its acknowledgement. -/
theorem request_round (hphase : (s.client i).phase = .request) (hserver : (s.client i).serverAddr = srv.addr)
    (hdhcp : (s.client i).net.dhcpServerIp = ipv4Compatible srv.addr)
    (hip : (s.client i).ip = srv.lease (chaddrOf (s.client i).mac)) : Leads (step srv) (4 + 3) s fun t =>
    (∃ c : DhcpClient, t.client = Function.update s.client i (c.acked (srv.lease (chaddrOf (s.client i).mac)))) ∧
      .udp (ackTo srv (s.client i).mac (s.client i).xid) ∈ t.toClient ∧ ∀ e ∈ s.toClient, e ∈ t.toClient := by
  cases hquery : ipQueryMac (s.client i).net (ipv4Compatible srv.addr) with
  | ok receiver =>
    exact ((ack_round hphase hserver hip hquery).imp fun t ht => ⟨⟨_, ht.1⟩, ht.2⟩).mono (by decide)
  | error e =>
    refine (ask_round hphase hserver hquery).trans fun t ht => ?_
    have hclient : t.client i = (s.client i).learn (ipv4Compatible srv.addr) srv.mac := by
      rw [ht.1, Function.update_self]
    have hmac : (t.client i).mac = (s.client i).mac := by
      rw [hclient]
      exact congrArg IfInfo.mac (ipUpdateMac_keeps _ _ _).1
    have hknown : ipQueryMac (t.client i).net (ipv4Compatible srv.addr) = .ok srv.mac := by
      rw [hclient]
      exact ipQueryMac_ipUpdateMac _ srv.mac_ne (.inr hdhcp.symm)
    have hxid : (t.client i).xid = (s.client i).xid := by
      rw [hclient]
      rfl
    have hround : Leads (step srv) 3 t _ := ack_round (by rw [hclient]; exact hphase) (by rw [hclient]; exact hserver)
      (by rw [hmac, hclient]; exact hip) hknown
    rw [hmac, hxid] at hround
    refine hround.imp fun u hu => ⟨⟨t.client i, ?_⟩, hu.2.1, fun e he => hu.2.2 e (ht.2 e he)⟩
    rw [hu.1, ht.1, Function.update_idem]

/-- A board that is to send its request is done seven steps later. -/
theorem request_leads (h : Inv srv boards s) (hphase : (s.client i).phase = .request) :
    Leads (step srv) (4 + 3) s fun t => (t.client i).ipReady = true := by
  have hi := h.client i
  obtain ⟨hdhcp, hserver, hip⟩ := hi.holding (.inl hphase)
  have hlease : (s.client i).ip = srv.lease (chaddrOf (s.client i).mac) := by
    rw [hip, hi.mac]
    rfl
  refine (request_round hphase hserver hdhcp hlease).imp fun t ht => ?_
  obtain ⟨⟨c, hc⟩, -⟩ := ht
  rw [hc, Function.update_self]
  rfl

theorem discover_leads (hxid : Function.Injective fun i => (boards i).2) (h : Inv srv boards s)
    (hphase : (s.client i).phase = .discover) :
    Leads (step srv) (3 + (4 + 3)) s fun t => (t.client i).ipReady = true := by
  have hi := h.client i
  have hround := (offer_round hphase hi.serverIp (hi.asking (.inl hphase))).keep (fun _ _ _ => step_inv hxid) h
  refine hround.trans fun t ht => request_leads ht.1 ?_
  rw [ht.2.1, Function.update_self]
  rfl

/-- While the transactions differ, a board configures the address that the server keeps for it and has
acknowledged, and from every state that is reached the network and the server can let it finish. -/
theorem run_leases (hxid : Function.Injective fun i => (boards i).2) {ls : List (DhcpEvent ι)}
    (hrun : runSteps (step srv) (start boards) ls = some s) (i : ι) :
    ((s.client i).ipReady = true → (s.client i).ipv4 = leaseOf srv boards i ∧
      s.bound (chaddrOf (boards i).1) = some (leaseOf srv boards i)) ∧
      Leads (step srv) 11 s fun t => (t.client i).ipReady = true := by
  have h : Inv srv boards s :=
    runSteps_invariant (fun _ _ _ => step_inv hxid) (start_inv srv boards) hrun
  have hi := h.client i
  refine ⟨fun hready => hi.leased (hi.ready.mp hready), ?_⟩
  cases hphase : (s.client i).phase with
  | discover => exact (discover_leads hxid h hphase).mono (by decide)
  | offer =>
    have hf : (s.client i).filter.isSome = true := by
      rw [DhcpClient.filter, hphase]
      rfl
    refine Leads.cons (step_timeout hf) (discover_leads hxid (step_inv hxid h (step_timeout hf)) ?_)
    rw [setClient_self, DhcpClient.timeout_offer hphase]
  | request => exact (request_leads h hphase).mono (by decide)
  | ack =>
    have hf : (s.client i).filter.isSome = true := by
      rw [DhcpClient.filter, hphase]
      rfl
    refine (Leads.cons (step_timeout hf) (request_leads (step_inv hxid h (step_timeout hf)) ?_)).mono (by decide)
    rw [setClient_self, DhcpClient.timeout_ack hphase]
  | done => exact ⟨[], s, Nat.zero_le 11, rfl, hi.ready.mpr hphase⟩

/-- A server that makes its addresses of the hardware addresses. -/
def smallServer : DhcpServer where
  mac := 0x010000000001
  addr := 0x0101a8c0
  lease := fun chaddr => BitVec.ofNat 32 chaddr
  options := []
  mac_ne := by decide
  addr_ne := by decide

/-- The DISCOVER of a board is lost. -/
theorem run_leases_small : ∃ s, runSteps (step smallServer) (start fun b : Bool => if b then (5, 50) else (6, 60))
    [.send true, .send false, .lose ((DhcpClient.start 6 60).sendUdp ipv4Broadcast (dhcpDiscover 6 60))] = some s ∧
      s.toServer.length = 1 ∧ Leads (step smallServer) 11 s fun t => (t.client false).ipReady = true := by
  have hxid : Function.Injective fun b : Bool => (if b then ((5, 50) : Mac × BitVec 32) else (6, 60)).2 := by decide
  have hone : (runSteps (step smallServer) (start fun b : Bool => if b then (5, 50) else (6, 60))
      [.send true, .send false, .lose ((DhcpClient.start 6 60).sendUdp ipv4Broadcast (dhcpDiscover 6 60))]).map
        (fun s => s.toServer.length) = some 1 := by
    decide +kernel
  obtain ⟨s, hrun, hlength⟩ := Option.map_eq_some_iff.mp hone
  exact ⟨s, hrun, hlength, (run_leases hxid hrun false).2⟩

/-! ## Two boards with one transaction -/

end DhcpSystem

end VijosOS
