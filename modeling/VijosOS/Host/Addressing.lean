import VijosOS.Dhcp.Exchange
import VijosOS.Host.Lease
import VijosOS.Host.Provenance

/-!
# The DHCP task as a client

What `dhcp_entry` does in a run of the host, with the other tasks between its calls of `send_udp` and
`recv_udp`, is a run of the client of the exchange.
-/

namespace VijosOS

open Library

/-! ## What the calls ask for -/

namespace UdpLog

def requests (l : UdpLog) : List (UdpFilter × Nat) := l.calls.map fun c => (c.filter, c.len)

theorem requests_modify (calls : List RecvCall) (n : Nat) {f : RecvCall → RecvCall}
    (h : ∀ c, (f c).filter = c.filter ∧ (f c).len = c.len) :
    (calls.modify n f).map (fun c => (c.filter, c.len)) = calls.map fun c => (c.filter, c.len) := by
  apply List.ext_getElem
  · simp
  · intro i hi hi'
    rw [List.getElem_map, List.getElem_map, List.getElem_modify]
    split_ifs
    · rw [(h _).1, (h _).2]
    · rfl

theorem requests_ret (l : UdpLog) (n : Nat) : (l.ret n).requests = l.requests :=
  requests_modify l.calls n (f := fun c => { c with ret := some c.outLen }) fun _ => ⟨rfl, rfl⟩

theorem requests_deliver (l : UdpLog) (n len i : Nat) (d : UdpDispatch) :
    (l.deliver n len i d).requests = l.requests :=
  requests_modify l.calls n (f := fun c => c.deliver len d) fun _ => ⟨rfl, rfl⟩

end UdpLog

namespace Sched

variable {s s' : Sched}

/-- What the call that the step makes asks for. -/
def Label.requests : Label → List (UdpFilter × Nat)
  | .recvUdp filter len _ => [(filter, len)]
  | _ => []

theorem switchTo_requests (s : Sched) (t : Nat) : (s.switchTo t).log.requests = s.log.requests := by
  obtain ⟨w, -, h⟩ | ⟨n, -, h⟩ | ⟨i, d, u, -, -, h⟩ | ⟨-, h⟩ := switchTo_cases s t
  all_goals rw [h]
  · rfl
  · exact s.log.requests_ret n
  · exact s.log.requests_deliver _ _ i d
  · rfl

theorem step_requests {l : Label} (h : s.step l = some s') : s'.log.requests = s.log.requests ++ l.requests := by
  cases step_effect h with
  | next _ p hidle =>
    have hnone : l.requests = [] := by
      cases l with
      | recvUdp filter len timeout => simp [step, hidle, idleStep] at h
      | tick | poll | idle | dispatch | wait | sleep | schedYield => rfl
    rw [hnone]
    exact (List.append_nil _).symm
  | handOff e p t => exact (switchTo_requests { s with idle := p } t).trans (List.append_nil _).symm
  | selected i t =>
    exact (switchTo_requests (Sched.modify { s with idle := .pollTtyRecv } t _) t).trans (List.append_nil _).symm
  | recvUdp filter len timeout => exact List.map_append
  | delivered d t => exact ((s.log.receive d).requests_deliver _ _ _ d).trans (List.append_nil _).symm
  | tick | undelivered | exhausted | skipped | looked | passed | wait | sleep | schedYield =>
    exact (List.append_nil _).symm

end Sched

namespace Host

variable {y y' : Host} {l : Label}

/-- Every call, delivery and frame handed over stays in the logs. -/
structure Extends (y y' : Host) : Prop where
  requests : y.sched.log.requests <+: y'.sched.log.requests
  delivered : ∀ n d, y.sched.log.Delivered n d → y'.sched.log.Delivered n d
  handed : y.handed <+: y'.handed

theorem step_handed (h : y.step l = some y') : y.handed <+: y'.handed := by
  cases step_effect h with
  | quiet _ _ _ hwire => exact hwire.handed ▸ List.prefix_rfl
  | armed _ _ _ harm =>
    rw [call_handed harm]
  | handed _ _ _ _ frame _ hwire _ _ _ htransmit =>
    rw [transmit_handed hwire htransmit]
    exact List.prefix_append _ _
  | sent | received => exact List.prefix_rfl

theorem step_extends (h : y.step l = some y') : Extends y y' := by
  have hhanded := step_handed h
  obtain hsame | ⟨k, hk, -⟩ := step_sched h
  · exact ⟨hsame ▸ List.prefix_rfl, fun _ _ hd => hsame ▸ hd, hhanded⟩
  · refine ⟨?_, fun n d hd => (Sched.step_extends hk).delivered hd, hhanded⟩
    rw [Sched.step_requests hk]
    exact List.prefix_append _ _

theorem step_handOff (hs : Sched.HandOffInv y.sched) (h : y.step l = some y') : Sched.HandOffInv y'.sched := by
  obtain hsame | ⟨k, hk, -⟩ := step_sched h
  · rw [hsame]
    exact hs
  · exact Sched.step_inv hs hk

/-- What the DHCP task and the network state are stays. -/
structure SameClient (y y' : Host) : Prop where
  dhcp : y'.dhcp = y.dhcp
  net : y'.net = y.net

theorem call_sameClient {k : Sched.Label} (h : y.call k = some y') : SameClient y y' :=
  ⟨(call_quiet h).dhcp, call_net h⟩

theorem sendUdp_sameClient {sport dport : Port} {daddr : Ipv6Addr} {payload : List Byte}
    (h : y.sendUdp sport daddr dport payload = some y') : SameClient y y' := ⟨(sendUdp_quiet h).dhcp, sendUdp_net h⟩

/-- The other tasks leave the client alone, but for a MAC address that the IP task learns. -/
theorem step_learns (hl : l ≠ .dhcp) (h : y.step l = some y') :
    y'.dhcp = y.dhcp ∧ (y'.net = y.net ∨ ∃ addr mac, y'.net = ipUpdateMac y.net addr mac) := by
  have hsame : SameClient y y' →
      y'.dhcp = y.dhcp ∧ (y'.net = y.net ∨ ∃ addr mac, y'.net = ipUpdateMac y.net addr mac) :=
    fun hs => ⟨hs.dhcp, .inl hs.net⟩
  cases l with
  | tick cycles => exact hsame (call_sameClient h)
  | idle tty =>
    simp only [step] at h
    split_ifs at h
    unfold idleStep at h
    split at h
    all_goals exact hsame (call_sameClient h)
  | ip =>
    simp only [step] at h
    split_ifs at h
    refine ⟨(ipStep_quiet h).dhcp, ?_⟩
    rw [ipStep_net h]
    split_ifs
    · have hlen : y.frame.len < 2 ^ 16 := Nat.mod_lt _ (by norm_num)
      cases @handleFrame_learns y.net _ hlen with
      | same hnet => exact .inl hnet
      | learnt addr mac _ hnet => exact .inr ⟨addr, mac, hnet⟩
    · exact .inl rfl
  | dhcp => exact absurd rfl hl
  | judge op =>
    simp only [step] at h
    split_ifs at h
    unfold judgeStep at h
    split_ifs at h
    · cases op with
      | schedYield => exact hsame (call_sameClient h)
      | sendUdp => exact hsame (sendUdp_sameClient h)
      | recvUdp => exact hsame (call_sameClient h)
    · cases h
      exact hsame ⟨rfl, rfl⟩
    · exact hsame (call_sameClient h)
  | sent =>
    obtain ⟨⟨b, len⟩, -, rfl⟩ := Option.map_eq_some_iff.mp h
    exact hsame ⟨rfl, rfl⟩
  | received frame =>
    obtain ⟨cap, -, h⟩ := Option.bind_eq_some_iff.mp h
    split_ifs at h
    cases h
    exact hsame ⟨rfl, rfl⟩

end Host

/-! ## The client of a host -/

/-- The frame is the packet on the wire. -/
inductive DhcpPacket.OnWire : DhcpPacket → List Byte → Prop where
  | udp (m : Mem) (src dst : Ipv4Addr) (sport dport : Port) (payload : List Byte)
      (wire : UdpWire m src dst sport dport payload) :
      OnWire (.udp ⟨dport.toNat, ipv4Compatible src, sport.toNat, payload⟩) (bytesAt m 0 (42 + payload.length))
  | arpRequest (m : Mem) (sender : Mac) (senderIp targetIp : Ipv4Addr)
      (wire : ArpWire m arpOpRequest sender senderIp targetIp) :
      OnWire (.arpRequest sender senderIp targetIp) (bytesAt m 0 42)

namespace DhcpClient

variable {c : DhcpClient}

/-- `send_udp` of `ip.c` sends what the client does. -/
theorem sendUdp_onWire (c : DhcpClient) (buff : Mem) (daddr : Ipv4Addr) {payload : List Byte}
    (hfit : payload.length ≤ 4052) : ∃ frame,
      (VijosOS.sendUdp c.net buff dhcpClientPort (ipv4Compatible daddr) dhcpServerPort payload).sent = [frame] ∧
        (c.sendUdp daddr payload).OnWire frame := by
  cases hquery : ipQueryMac c.net (ipv4Compatible daddr) with
  | ok mac =>
    obtain ⟨m, hsent, hwire, -⟩ := sendUdp_wire buff dhcpClientPort dhcpServerPort hfit hquery
    refine ⟨_, hsent, ?_⟩
    rw [sendUdp, hquery]
    exact .udp m _ _ _ _ _ hwire
  | error e =>
    obtain ⟨m, hsent, hwire, -⟩ := sendUdp_asks buff dhcpClientPort dhcpServerPort hfit hquery
    refine ⟨_, hsent, ?_⟩
    rw [sendUdp, hquery]
    exact .arpRequest m _ _ _ hwire

/-- The packets that the client sends in a run. -/
def packets (c : DhcpClient) : List DhcpAction → List DhcpPacket
  | [] => []
  | a :: as =>
    let sent :=
      match a with
      | .send => (c.send.map Prod.snd).toList
      | _ => []
    sent ++ (match c.step a with
      | some c' => c'.packets as
      | none => [])

theorem packets_append {c' : DhcpClient} {as : List DhcpAction} (bs : List DhcpAction)
    (hrun : runSteps step c as = some c') : c.packets (as ++ bs) = c.packets as ++ c'.packets bs := by
  induction as generalizing c with
  | nil =>
    cases hrun
    rfl
  | cons a as ih =>
    obtain ⟨c₁, ha, hrest⟩ := (runSteps_cons _ _ _ _ _).mp hrun
    simp only [List.cons_append, packets, ha, ih hrest, List.append_assoc]

/-- A run that only learns MAC addresses. -/
theorem runSteps_learn (c : DhcpClient) (entries : List (Ipv6Addr × Mac)) :
    runSteps step c (entries.map fun e => .learn e.1 e.2) =
        some { c with net := entries.foldl (fun net e => ipUpdateMac net e.1 e.2) c.net } ∧
      c.packets (entries.map fun e => .learn e.1 e.2) = [] := by
  induction entries generalizing c with
  | nil => exact ⟨rfl, rfl⟩
  | cons e entries ih =>
    obtain ⟨hrun, hpackets⟩ := ih (c.learn e.1 e.2)
    exact ⟨(runSteps_cons _ _ _ _ _).mpr ⟨_, rfl, hrun⟩, hpackets⟩

theorem recv_congr {m m' : Mem} {len : Nat} {saddr : Ipv6Addr} (hm : 244 ≤ len → AgreeUpTo 244 m m') :
    c.recv m len saddr = c.recv m' len saddr := by
  have haccepts : ∀ xid type, dhcpAccepts m len xid type = dhcpAccepts m' len xid type := by
    intro xid type
    rw [Bool.eq_iff_iff]
    constructor
    · intro h
      exact dhcpAccepts_mono (hm (dhcpAccepts_len h)) (Nat.le_refl len) h
    · intro h
      exact dhcpAccepts_mono (fun i hi => (hm (dhcpAccepts_len h) i hi).symm) (Nat.le_refl len) h
  have hyiaddr : ∀ xid type, dhcpAccepts m' len xid type = true → dhcpYiaddr m = dhcpYiaddr m' := by
    intro xid type h
    exact congrArg (BitVec.ofNat 32) ((hm (dhcpAccepts_len h)).getLe (by omega))
  unfold recv
  split
  · rw [haccepts]
    split_ifs with h
    · rw [hyiaddr _ _ h]
    · rfl
  · rw [haccepts]
    split_ifs with h
    · rw [hyiaddr _ _ h]
    · rfl
  · rfl

theorem recv_zero (m : Mem) (saddr : Ipv6Addr) : c.recv m 0 saddr = c.timeout := by
  have hnone : ∀ m xid type, dhcpAccepts m 0 xid type = false := by
    intro m xid type
    simp [dhcpAccepts]
  unfold timeout recv
  simp only [hnone, Bool.false_eq_true, if_false]

/-- A call that returns gives the client a timeout or a datagram. -/
theorem recv_call {log : UdpLog} (hlog : log.Ok) {n : Nat} {r : RecvCall} {f : UdpFilter}
    (hr : log.calls[n]? = some r) (hrequest : log.requests[n]? = some (f, 1024)) (hfilter : c.filter = some f) :
    ∃ a, c.step a = some (c.recv r.buff r.outLen r.saddr) ∧ (∀ d, a = .deliver d → log.Delivered n d) ∧
      a ≠ .send := by
  obtain ⟨hf, hlen⟩ : r.filter = f ∧ r.len = 1024 := by
    rw [UdpLog.requests, List.getElem?_map, hr] at hrequest
    exact Prod.mk.inj (Option.some.inj hrequest)
  by_cases hzero : r.outLen = 0
  · refine ⟨.timeout, ?_, (fun d h => by cases h), fun h => by cases h⟩
    rw [hzero, recv_zero, step, hfilter]
    rfl
  · obtain ⟨d, hd, hholds⟩ := hlog.holds hr hzero
    obtain ⟨-, hagree⟩ := hholds.agree
    have hout : r.outLen = min d.payload.length 1024 := by
      rw [hholds.outLen, copyLen_eq_min, hlen]
    refine ⟨.deliver d, ?_, fun e he => ?_, fun h => by cases h⟩
    · rw [step_deliver hfilter (hf ▸ hholds.matched), recvDatagram, hholds.saddr, ← hout]
      exact congrArg some (recv_congr fun h => hagree.mono h).symm
    · cases he
      exact hd

end DhcpClient

namespace Host

variable {y y' : Host} {l : Label}

def phaseOf : DhcpPoint → DhcpPhase
  | .entry | .discover => .discover
  | .discovered | .offer _ => .offer
  | .request => .request
  | .requested | .ack _ => .ack
  | .done => .done

def dhcpClient (y : Host) : DhcpClient :=
  ⟨y.net, y.dhcp.xid, phaseOf y.dhcp.point, y.dhcp.serverAddr, y.dhcp.ip⟩

theorem SameClient.dhcpClient (h : SameClient y y') : y'.dhcpClient = y.dhcpClient := by
  unfold Host.dhcpClient
  rw [h.dhcp, h.net]

/-- The call that the client waits for. -/
def callOf : DhcpPoint → Option Nat
  | .offer n | .ack n => some n
  | _ => none

/-- The calls that the client waits for ask for what its filter lets through. -/
def Asks (y : Host) : Prop :=
  ∀ n, callOf y.dhcp.point = some n →
    ∃ f, y.dhcpClient.filter = some f ∧ y.sched.log.requests[n]? = some (f, 1024)

/-- A step of the host: none of the client, or one that is given what was delivered and sends what
is handed over. -/
def Moves (y y' : Host) : Prop :=
  y'.dhcpClient = y.dhcpClient ∨ ∃ a, y.dhcpClient.step a = some y'.dhcpClient ∧
    (∀ d, a = .deliver d → ∃ n, y.sched.log.Delivered n d) ∧
    (a = .send → ∃ p frame, y.dhcpClient.send = some (y'.dhcpClient, p) ∧ y'.handed = y.handed ++ [frame] ∧
      p.OnWire frame)

/-- A step of the task that has begun. -/
structure Goes (y y' : Host) : Prop where
  moves : Moves y y'
  asks : y'.Asks
  begun : y'.dhcp.point ≠ .entry

theorem getElem?_of_prefix {α : Type*} {xs ys : List α} (h : xs <+: ys) {n : Nat} {x : α}
    (hn : xs[n]? = some x) : ys[n]? = some x := by
  obtain ⟨zs, rfl⟩ := h
  rw [List.getElem?_append_left (List.getElem?_eq_some_iff.mp hn).1]
  exact hn

theorem Asks.of_none (h : callOf y.dhcp.point = none) : y.Asks := by
  intro n hn
  rw [h] at hn
  cases hn

theorem sendUdp_transmit {sport dport : Port} {addr : Ipv6Addr} {payload frame : List Byte}
    (hsent : (VijosOS.sendUdp y.net y.udpBuff sport addr dport payload).sent = [frame]) :
    y.sendUdp sport addr dport payload = y.transmit .udpBuff frame := by
  unfold sendUdp
  rw [hsent]

theorem sendUdp_goes {p : DhcpPoint} {daddr : Ipv4Addr} {payload : List Byte}
    (h : (y.dhcpAt p).sendUdp dhcpClientPort (ipv4Compatible daddr) dhcpServerPort payload = some y')
    (hp : callOf p = none) (hbegun : p ≠ .entry) (hfit : 16 + 20 + 8 + payload.length ≤ 4096)
    (hsend : y.dhcpClient.send = some ((y.dhcpAt p).dhcpClient, y.dhcpClient.sendUdp daddr payload)) : Goes y y' := by
  have hsame := sendUdp_sameClient h
  obtain ⟨frame, hsent, hwire⟩ := y.dhcpClient.sendUdp_onWire y.udpBuff daddr (show payload.length ≤ 4052 by omega)
  have hhanded : y'.handed = y.handed ++ [frame] := by
    have htransmit : (y.dhcpAt p).sendUdp dhcpClientPort (ipv4Compatible daddr) dhcpServerPort payload =
        (y.dhcpAt p).transmit .udpBuff frame := sendUdp_transmit hsent
    exact transmit_handed (⟨rfl, rfl, rfl, rfl, rfl⟩ : SameWire y (y.dhcpAt p)) (htransmit.symm.trans h)
  refine ⟨.inr ⟨.send, ?_, (fun d h => by cases h), fun _ => ⟨_, frame, ?_, hhanded, hwire⟩⟩, Asks.of_none ?_, ?_⟩
  · rw [hsame.dhcpClient, DhcpClient.step, hsend]
    rfl
  · rw [hsame.dhcpClient]
    exact hsend
  · rw [hsame.dhcp]
    exact hp
  · rw [hsame.dhcp]
    exact hbegun

theorem recvUdp_goes {p : DhcpPoint} {f : UdpFilter} {timeout : BitVec 64}
    (h : (y.dhcpAt p).call (.recvUdp f 1024 timeout) = some y') (hp : callOf p = some y.sched.log.calls.length)
    (hbegun : p ≠ .entry) (hphase : phaseOf p = phaseOf y.dhcp.point) (hfilter : y.dhcpClient.filter = some f) :
    Goes y y' := by
  have hsame := call_sameClient h
  have hclient : y'.dhcpClient = y.dhcpClient := by
    rw [hsame.dhcpClient, dhcpClient, dhcpClient, ← hphase]
    rfl
  refine ⟨.inl hclient, fun n hn => ⟨f, hclient ▸ hfilter, ?_⟩, hsame.dhcp ▸ hbegun⟩
  rw [hsame.dhcp] at hn
  obtain rfl : y.sched.log.calls.length = n := Option.some.inj (hp.symm.trans hn)
  obtain ⟨s, hs, rfl⟩ := Option.map_eq_some_iff.mp h
  have hlength : y.sched.log.calls.length = y.sched.log.requests.length := (List.length_map _).symm
  have hrequests : s.log.requests = y.sched.log.requests ++ [(f, 1024)] := Sched.step_requests hs
  rw [hlength]
  show s.log.requests[y.sched.log.requests.length]? = _
  rw [hrequests]
  exact List.getElem?_concat_length

/-- The client goes on with what a call has left in its variables. -/
theorem returned_goes (hlog : y.sched.log.Ok) (hasks : y.Asks) {n : Nat} {r : RecvCall}
    (hcall : callOf y.dhcp.point = some n) (hr : y.sched.log.calls[n]? = some r)
    (hclient : y'.dhcpClient = y.dhcpClient.recv r.buff r.outLen r.saddr) (hpoint : callOf y'.dhcp.point = none)
    (hbegun : y'.dhcp.point ≠ .entry) : Goes y y' := by
  obtain ⟨f, hfilter, hrequest⟩ := hasks n hcall
  obtain ⟨a, ha, hdelivered, hsend⟩ := DhcpClient.recv_call hlog hr hrequest hfilter
  refine ⟨.inr ⟨a, ?_, fun d hd => ⟨n, hdelivered d hd⟩, fun hs => absurd hs hsend⟩, Asks.of_none hpoint, hbegun⟩
  rw [hclient]
  exact ha

theorem dhcpStep_goes (hlog : y.sched.log.Ok) (hasks : y.Asks) (hentry : y.dhcp.point ≠ .entry)
    (h : y.dhcpStep = some y') : Goes y y' := by
  cases hpoint : y.dhcp.point with
  | entry => exact absurd hpoint hentry
  | discover =>
    simp only [dhcpStep, hpoint] at h
    refine sendUdp_goes h rfl (fun hc => by cases hc) (dhcpReq_fits _ _ (by decide)) ?_
    simp only [DhcpClient.send, dhcpClient, phaseOf, hpoint, dhcpAt]
    rfl
  | discovered =>
    simp only [dhcpStep, hpoint] at h
    refine recvUdp_goes h rfl (fun hc => by cases hc) (by rw [hpoint]; rfl) ?_
    simp only [DhcpClient.filter, dhcpClient, phaseOf, hpoint]
  | offer n =>
    simp only [dhcpStep, hpoint] at h
    split at h
    · rename_i r hr
      have hcall : callOf y.dhcp.point = some n := by
        rw [hpoint]
        rfl
      split_ifs at h with haccepts
      · cases h
        refine returned_goes hlog hasks hcall hr ?_ rfl (fun hc => by cases hc)
        simp only [DhcpClient.recv, dhcpClient, phaseOf, hpoint, haccepts, if_true]
        rfl
      · cases h
        refine returned_goes hlog hasks hcall hr ?_ rfl (fun hc => by cases hc)
        simp only [DhcpClient.recv, dhcpClient, phaseOf, hpoint, haccepts, dhcpAt]
        rfl
    · cases h
  | request =>
    simp only [dhcpStep, hpoint] at h
    refine sendUdp_goes h rfl (fun hc => by cases hc) (dhcpReq_fits _ _ (by simp)) ?_
    simp only [DhcpClient.send, dhcpClient, phaseOf, hpoint, dhcpAt]
    rfl
  | requested =>
    simp only [dhcpStep, hpoint] at h
    refine recvUdp_goes h rfl (fun hc => by cases hc) (by rw [hpoint]; rfl) ?_
    simp only [DhcpClient.filter, dhcpClient, phaseOf, hpoint]
  | ack n =>
    simp only [dhcpStep, hpoint] at h
    split at h
    · rename_i r hr
      have hcall : callOf y.dhcp.point = some n := by
        rw [hpoint]
        rfl
      split_ifs at h with haccepts
      · have hsame := call_sameClient h
        refine returned_goes hlog hasks hcall hr ?_ ?_ ?_
        · rw [hsame.dhcpClient]
          simp only [DhcpClient.recv, dhcpClient, phaseOf, hpoint, haccepts, if_true]
          rfl
        · rw [hsame.dhcp]
          rfl
        · rw [hsame.dhcp]
          intro hentry
          cases hentry
      · cases h
        refine returned_goes hlog hasks hcall hr ?_ rfl (fun hc => by cases hc)
        simp only [DhcpClient.recv, dhcpClient, phaseOf, hpoint, haccepts, dhcpAt]
        rfl
    · cases h
  | done =>
    simp only [dhcpStep, hpoint] at h
    cases h

/-! ## Every run -/

/-- A run of the client that leads to what the host has, on datagrams that were delivered; what it
sends was handed over, in order. -/
def ClientRun (y : Host) : Prop :=
  ∃ xid as, runSteps DhcpClient.step (.start initIp.ifinfo.mac xid) as = some y.dhcpClient ∧
    (∀ d, DhcpAction.deliver d ∈ as → ∃ n, y.sched.log.Delivered n d) ∧
    ∃ frames, frames.Sublist y.handed ∧
      List.Forall₂ DhcpPacket.OnWire (DhcpClient.packets (.start initIp.ifinfo.mac xid) as) frames

/-- Nothing has been done yet, but MAC addresses may have been learnt. -/
structure Fresh (y : Host) : Prop where
  dhcp : y.dhcp = .init
  ipReady : y.net.ipReady = false
  learnt : ∃ entries : List (Ipv6Addr × Mac), y.net = entries.foldl (fun net e => ipUpdateMac net e.1 e.2) initIp

structure Follows (y : Host) : Prop where
  handOff : Sched.HandOffInv y.sched
  asks : y.Asks
  run : y.Fresh ∨ y.dhcp.point ≠ .entry ∧ y.ClientRun

theorem boot_follows : Follows boot := ⟨Sched.boot_inv 4, Asks.of_none rfl, .inl ⟨rfl, rfl, [], rfl⟩⟩

theorem ClientRun.moves (h : y.ClientRun) (hmoves : Moves y y') (hlog : Extends y y') : y'.ClientRun := by
  obtain ⟨xid, as, hrun, hdelivered, frames, hframes, hpackets⟩ := h
  have hkept : frames.Sublist y'.handed := hframes.trans hlog.handed.sublist
  obtain hsame | ⟨a, ha, hd, hsend⟩ := hmoves
  · refine ⟨xid, as, by rw [hsame, hrun], fun d hmem => ?_, frames, hkept, hpackets⟩
    obtain ⟨n, hn⟩ := hdelivered d hmem
    exact ⟨n, hlog.delivered n d hn⟩
  · refine ⟨xid, as ++ [a], ?_, fun d hmem => ?_, ?_⟩
    · rw [runSteps_append, hrun, Option.bind_some]
      exact (runSteps_cons _ _ _ _ _).mpr ⟨_, ha, rfl⟩
    · obtain hold | hnew := List.mem_append.mp hmem
      · obtain ⟨n, hn⟩ := hdelivered d hold
        exact ⟨n, hlog.delivered n d hn⟩
      · obtain ⟨n, hn⟩ := hd d (List.mem_singleton.mp hnew).symm
        exact ⟨n, hlog.delivered n d hn⟩
    · rw [DhcpClient.packets_append [a] hrun]
      cases a with
      | send =>
        obtain ⟨p, frame, hp, hhanded, hwire⟩ := hsend rfl
        refine ⟨frames ++ [frame], hhanded ▸ hframes.append (List.Sublist.refl _), List.rel_append hpackets ?_⟩
        simp only [DhcpClient.packets, hp, Option.map_some, Option.toList_some, ha, List.append_nil]
        exact .cons hwire .nil
      | timeout | deliver | learn =>
        simp only [DhcpClient.packets, ha, List.append_nil]
        exact ⟨frames, hkept, hpackets⟩

theorem entry_follows (h : Follows y) (hfresh : y.Fresh) (hstep : y.step .dhcp = some y') : Follows y' := by
  simp only [step] at hstep
  split_ifs at hstep with hcurrent
  have hpoint : y.dhcp.point = .entry := by
    rw [hfresh.dhcp]
    rfl
  have hready : ¬ (y.net.ipReady = true ∧ y.net.ifinfo.ipv4 ≠ ipv4Unspecified) := by
    rw [hfresh.ipReady]
    exact fun hr => Bool.noConfusion hr.1
  simp only [dhcpStep, hpoint, if_neg hready] at hstep
  cases hstep
  obtain ⟨entries, hlearnt⟩ := hfresh.learnt
  let xid : BitVec 32 := (y.sched.rdcycle ^^^ 0xaa55ccdd).setWidth 32
  obtain ⟨hrun, hpackets⟩ := (DhcpClient.start initIp.ifinfo.mac xid).runSteps_learn entries
  refine ⟨h.handOff, Asks.of_none rfl, .inr ⟨?_, xid, _, hrun.trans ?_, ?_, [], List.nil_sublist _, ?_⟩⟩
  · intro hentry
    cases hentry
  · rw [dhcpClient, hfresh.dhcp, hlearnt]
    rfl
  · intro d hd
    obtain ⟨e, -, he⟩ := List.mem_map.mp hd
    cases he
  · rw [hpackets]
    exact .nil

theorem step_follows (h : Follows y) (hstep : y.step l = some y') : Follows y' := by
  have hhandOff := step_handOff h.handOff hstep
  have hextends := step_extends hstep
  by_cases hl : l = .dhcp
  · subst hl
    obtain hfresh | ⟨hentry, hrun⟩ := h.run
    · exact entry_follows h hfresh hstep
    · have hdhcp : y.dhcpStep = some y' := by
        simp only [step] at hstep
        split_ifs at hstep
        exact hstep
      have hgoes := dhcpStep_goes h.handOff.log h.asks hentry hdhcp
      exact ⟨hhandOff, hgoes.asks, .inr ⟨hgoes.begun, hrun.moves hgoes.moves hextends⟩⟩
  · obtain ⟨hdhcp, hnet⟩ := step_learns hl hstep
    refine ⟨hhandOff, fun n hn => ?_, ?_⟩
    · rw [hdhcp] at hn
      obtain ⟨f, hfilter, hrequest⟩ := h.asks n hn
      refine ⟨f, ?_, getElem?_of_prefix hextends.requests hrequest⟩
      rw [← hfilter, dhcpClient, dhcpClient, hdhcp]
      rfl
    · obtain hfresh | ⟨hentry, hrun⟩ := h.run
      · refine .inl ⟨hdhcp.trans hfresh.dhcp, ?_, ?_⟩
        · obtain hnet | ⟨addr, mac, hnet⟩ := hnet
          · rw [hnet]
            exact hfresh.ipReady
          · rw [hnet, (ipUpdateMac_keeps _ _ _).2]
            exact hfresh.ipReady
        · obtain ⟨entries, hentries⟩ := hfresh.learnt
          obtain hnet | ⟨addr, mac, hnet⟩ := hnet
          · exact ⟨entries, hnet.trans hentries⟩
          · refine ⟨entries ++ [(addr, mac)], ?_⟩
            rw [List.foldl_append, ← hentries]
            exact hnet
      · refine .inr ⟨hdhcp ▸ hentry, hrun.moves ?_ hextends⟩
        obtain hnet | ⟨addr, mac, hnet⟩ := hnet
        · exact .inl (SameClient.dhcpClient ⟨hdhcp, hnet⟩)
        · refine .inr ⟨.learn addr mac, ?_, (fun d h => by cases h), fun h => by cases h⟩
          rw [dhcpClient, dhcpClient, hdhcp, hnet]
          rfl

/-- In every run of the host, what the DHCP task has is what the client of the exchange has after some
run that took, besides timeouts, only datagrams that had been dispatched to the calls of the task, and
all of whose packets were handed to the device. -/
theorem run_follows {ls : List Label} (hrun : runSteps step boot ls = some y) (hbegun : y.dhcp.point ≠ .entry) :
    ∃ xid as, runSteps DhcpClient.step (.start initIp.ifinfo.mac xid) as = some y.dhcpClient ∧
      (∀ d, DhcpAction.deliver d ∈ as → ∃ n, y.sched.log.Delivered n d) ∧
      ∃ frames, frames.Sublist y.handed ∧
        List.Forall₂ DhcpPacket.OnWire (DhcpClient.packets (.start initIp.ifinfo.mac xid) as) frames := by
  have h : Follows y := runSteps_invariant (fun _ _ _ => step_follows) boot_follows hrun
  obtain hfresh | ⟨-, hclient⟩ := h.run
  · refine absurd ?_ hbegun
    rw [hfresh.dhcp]
    rfl
  · exact hclient

/-- An exchange from start to end. -/
theorem run_follows_small : ∃ y, runSteps step boot (smallExchange
    (smallReply 0x4d01a8c0 2038 dhcpMessageTypeOffer) (smallReply 0x4d01a8c0 2038 dhcpMessageTypeAck)) = some y ∧
    y.dhcp.point = .done ∧ ∃ xid as, runSteps DhcpClient.step (.start initIp.ifinfo.mac xid) as = some y.dhcpClient ∧
      ∃ frames, frames.Sublist y.handed ∧
        List.Forall₂ DhcpPacket.OnWire (DhcpClient.packets (.start initIp.ifinfo.mac xid) as) frames := by
  have hrun : (runSteps step boot (smallExchange (smallReply 0x4d01a8c0 2038 dhcpMessageTypeOffer)
      (smallReply 0x4d01a8c0 2038 dhcpMessageTypeAck))).map (fun y => y.dhcp.point) = some .done := by
    decide +kernel
  obtain ⟨y, hy, hpoint⟩ := Option.map_eq_some_iff.mp hrun
  obtain ⟨xid, as, hclient, -, hframes⟩ := run_follows hy (by simp [hpoint])
  exact ⟨y, hy, hpoint, xid, as, hclient, hframes⟩

end Host

end VijosOS
