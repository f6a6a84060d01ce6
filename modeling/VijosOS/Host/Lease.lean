import VijosOS.Host.Host
import VijosOS.Net.Outcome
import VijosOS.Task.Log

/-!
# The lease

The address the client configures was offered and then acknowledged by one server, as long
as the offer names its server: the zero address is a wildcard of the second filter, and an
IPv6 address is none that the filter can hold.
-/

namespace VijosOS

open Library

namespace Host

variable {y y' y'' : Host} {new new' : List UdpFilter}

/-- Call `n` was given the datagram `d`, a packet of the given type for this client. -/
structure Accepted (y : Host) (n type : Nat) (d : UdpDispatch) : Prop where
  delivered : y.sched.log.Delivered n d
  sport : d.sport = dhcpServerPort.toNat
  accepts : dhcpAccepts d.packet d.payload.length y.dhcp.xid type = true

/-- One server has offered an address and later acknowledged the one that is configured. -/
def Leased (y : Host) : Prop :=
  ∃ n m d e, y.dhcp.offered = some n ∧ y.dhcp.acked = some m ∧ n < m ∧
    y.Accepted n dhcpMessageTypeOffer d ∧ y.Accepted m dhcpMessageTypeAck e ∧ e.saddr = d.saddr ∧
    y.net.ifinfo.ipv4 = dhcpYiaddr e.packet

/-- The call whose packet the step accepts as an offer. -/
def offer (y : Host) : Label → Option RecvCall
  | .dhcp =>
    match y.dhcp.point with
    | .offer n =>
      y.sched.log.calls[n]?.filter fun c => dhcpAccepts c.buff c.outLen y.dhcp.xid dhcpMessageTypeOffer
    | _ => none
  | _ => none

/-- An accepted offer comes over IPv4, and not from 0.0.0.0. -/
def NamesServer (y : Host) (l : Label) : Prop :=
  ∀ c ∈ y.offer l, isIpv4 c.saddr = true ∧ c.saddr ≠ ipv6Unspecified

instance (y : Host) (l : Label) : Decidable (y.NamesServer l) :=
  inferInstanceAs (Decidable (∀ c ∈ y.offer l, isIpv4 c.saddr = true ∧ c.saddr ≠ ipv6Unspecified))

/-! ## Steps that leave the client alone -/

structure Quiet (y y' : Host) (new : List UdpFilter) : Prop where
  dhcp : y'.dhcp = y.dhcp
  ipv4 : y'.net.ifinfo.ipv4 = y.net.ifinfo.ipv4
  ipReady : y'.net.ipReady = y.net.ipReady
  judging : y'.judging = true → y.judging = true ∨ y.net.ipReady = true
  handOff : Sched.HandOffInv y.sched → Sched.HandOffInv y'.sched
  log : y.sched.log.Extends y'.sched.log new

theorem Quiet.refl (y : Host) : Quiet y y [] := ⟨rfl, rfl, rfl, .inl, id, .refl _⟩

theorem Quiet.trans (h : Quiet y y' new) (h' : Quiet y' y'' new') : Quiet y y'' (new ++ new') := by
  refine ⟨h'.dhcp.trans h.dhcp, h'.ipv4.trans h.ipv4, h'.ipReady.trans h.ipReady, fun hj => ?_,
    h'.handOff ∘ h.handOff, h.log.trans h'.log⟩
  obtain hj' | hready := h'.judging hj
  · exact h.judging hj'
  · exact .inr (h.ipReady.symm.trans hready)

theorem call_quiet {k : Sched.Label} (h : y.call k = some y') : Quiet y y' k.filters := by
  obtain ⟨s, hs, rfl⟩ := Option.map_eq_some_iff.mp h
  exact ⟨rfl, rfl, rfl, .inl, fun hh => Sched.step_inv hh hs, Sched.step_extends hs⟩

theorem transmit_quiet {b : Buffer} {frame : List Byte} (h : y.transmit b frame = some y') :
    Quiet y y' [] := by
  have hbegin : Quiet y (y.beginSendFrame b frame) [] := by
    cases b with
    | dmaBuff | udpBuff => exact ⟨rfl, rfl, rfl, .inl, id, .refl _⟩
  exact hbegin.trans (call_quiet h)

theorem sendUdp_quiet {sport dport : Port} {daddr : Ipv6Addr} {payload : List Byte}
    (h : y.sendUdp sport daddr dport payload = some y') : Quiet y y' [] := by
  unfold sendUdp at h
  split at h
  · exact transmit_quiet h
  · cases h
    exact .refl _

theorem idleStep_quiet {tty : Bool} (h : y.idleStep tty = some y') : Quiet y y' [] := by
  unfold idleStep at h
  split at h
  all_goals exact call_quiet h

theorem ipStep_quiet (h : y.ipStep = some y') : Quiet y y' [] := by
  obtain ⟨hifinfo, hready, -⟩ := handleFrame_outcome y.net ⟨y.nic.lastRecvLen, y.dmaBuff⟩
  have hhandled : Quiet y { y with net := y.handled.net, ip := .top } [] :=
    ⟨rfl, congrArg IfInfo.ipv4 hifinfo, hready, .inl, id, .refl _⟩
  unfold ipStep at h
  split at h
  · have harmed : Quiet y { y with nic := y.nic.beginDmaRecv frameCap, ip := .recv } [] :=
      ⟨rfl, rfl, rfl, .inl, id, .refl _⟩
    exact harmed.trans (call_quiet h)
  · dsimp only at h
    split at h
    · exact hhandled.trans (transmit_quiet h)
    · exact hhandled.trans (call_quiet h)
    · cases h
      exact hhandled

/-! ## The invariant -/

/-- The offer that came to call `n`, from the server the client goes on with. -/
def Offered (y : Host) (n : Nat) : Prop :=
  ∃ d, y.dhcp.offered = some n ∧ y.Accepted n dhcpMessageTypeOffer d ∧
    d.saddr = ipv4Compatible y.dhcp.serverAddr ∧ d.saddr ≠ ipv6Unspecified

/-- What the client relies on at a point of its code. -/
def ReliesOn (y : Host) : DhcpPoint → Prop
  | .entry | .discover | .discovered => True
  | .offer n => y.sched.log.filters[n]? = some offerFilter
  | .request | .requested => ∃ n, y.Offered n
  | .ack m => ∃ n < m, y.Offered n ∧ y.sched.log.filters[m]? = some (ackFilter y.dhcp.serverAddr)
  | .done => y.Leased

structure LeaseInv (y : Host) : Prop where
  handOff : Sched.HandOffInv y.sched
  judging : y.judging = true → y.net.ipReady = true
  ports : y.net.ipReady = false → ∀ f ∈ y.sched.log.filters, f.dport = dhcpClientPort.toNat
  ready : y.net.ipReady = true ↔ y.dhcp.point = .done
  relies : y.ReliesOn y.dhcp.point

theorem boot_leaseInv : LeaseInv boot :=
  ⟨Sched.boot_inv 4, nofun, nofun, ⟨nofun, nofun⟩, trivial⟩

theorem Quiet.accepted (h : Quiet y y' new) {n type : Nat} {d : UdpDispatch} (ha : y.Accepted n type d) :
    y'.Accepted n type d := by
  refine ⟨h.log.delivered ha.delivered, ha.sport, ?_⟩
  rw [h.dhcp]
  exact ha.accepts

theorem Quiet.offered (h : Quiet y y' new) {n : Nat} (ho : y.Offered n) : y'.Offered n := by
  obtain ⟨d, hn, ha, hsaddr, hne⟩ := ho
  refine ⟨d, ?_, h.accepted ha, ?_, hne⟩
  · rw [h.dhcp]
    exact hn
  · rw [h.dhcp]
    exact hsaddr

theorem Quiet.reliesOn (h : Quiet y y' new) {p : DhcpPoint} (hp : y.ReliesOn p) : y'.ReliesOn p := by
  cases p with
  | entry | discover | discovered => trivial
  | offer n => exact h.log.filter hp
  | request | requested =>
    obtain ⟨n, ho⟩ := hp
    exact ⟨n, h.offered ho⟩
  | ack m =>
    obtain ⟨n, hn, ho, hfilter⟩ := hp
    refine ⟨n, hn, h.offered ho, ?_⟩
    rw [h.dhcp]
    exact h.log.filter hfilter
  | done =>
    obtain ⟨n, m, d, e, hn, hm, hlt, hd, he, hsaddr, hip⟩ := hp
    refine ⟨n, m, d, e, ?_, ?_, hlt, h.accepted hd, h.accepted he, hsaddr, h.ipv4.trans hip⟩
    · rw [h.dhcp]
      exact hn
    · rw [h.dhcp]
      exact hm

theorem Offered.dhcpAt {n : Nat} (h : y.Offered n) (p : DhcpPoint) : (y.dhcpAt p).Offered n := by
  obtain ⟨d, hn, ha, hsaddr, hne⟩ := h
  exact ⟨d, hn, ⟨ha.delivered, ha.sport, ha.accepts⟩, hsaddr, hne⟩

/-- The client has gone from a point before its exit to another one. -/
theorem LeaseInv.goes (h : LeaseInv y) {p : DhcpPoint} (hq : Quiet (y.dhcpAt p) y' new)
    (hold : y.dhcp.point ≠ .done) (hp : p ≠ .done) (hnew : ∀ f ∈ new, f.dport = dhcpClientPort.toNat)
    (hrelies : y'.ReliesOn p) : LeaseInv y' := by
  have hready : y.net.ipReady = false := by
    rw [Bool.eq_false_iff]
    exact fun hr => hold (h.ready.mp hr)
  have hready' : y'.net.ipReady = false := hq.ipReady.trans hready
  have hpoint : y'.dhcp.point = p := by rw [hq.dhcp]; rfl
  refine ⟨hq.handOff h.handOff, fun hj => ?_, fun _ f hf => ?_, ?_, ?_⟩
  · rw [(hq.judging hj).elim h.judging id] at hready
    cases hready
  · rw [hq.log.filters] at hf
    obtain hold' | hin := List.mem_append.mp hf
    · exact h.ports hready f hold'
    · exact hnew f hin
  · rw [hready', hpoint]
    exact ⟨nofun, fun hdone => absurd hdone hp⟩
  · rw [hpoint]
    exact hrelies

theorem LeaseInv.quiet (h : LeaseInv y) (hq : Quiet y y' new)
    (hnew : y.net.ipReady = false → ∀ f ∈ new, f.dport = dhcpClientPort.toNat) : LeaseInv y' := by
  refine ⟨hq.handOff h.handOff, fun hj => ?_, fun hready f hf => ?_, ?_, ?_⟩
  · rw [hq.ipReady]
    exact (hq.judging hj).elim h.judging id
  · rw [hq.ipReady] at hready
    rw [hq.log.filters] at hf
    obtain hold | hin := List.mem_append.mp hf
    · exact h.ports hready f hold
    · exact hnew hready f hin
  · rw [hq.ipReady, hq.dhcp]
    exact h.ready
  · rw [hq.dhcp]
    exact hq.reliesOn h.relies

/-! ## One step -/

/-- A packet that the client accepts was delivered to its call and has passed the filter. -/
theorem LeaseInv.accepts (h : LeaseInv y) {n type : Nat} {c : RecvCall} {f : UdpFilter}
    (hc : y.sched.log.calls[n]? = some c) (hf : y.sched.log.filters[n]? = some f)
    (hsport : f.expectedSport = dhcpServerPort.toNat)
    (haccepts : dhcpAccepts c.buff c.outLen y.dhcp.xid type = true) :
    ∃ d, y.Accepted n type d ∧ taskMatchUdp f d = true ∧ c.saddr = d.saddr ∧
      dhcpYiaddr c.buff = dhcpYiaddr d.packet := by
  have hlen := dhcpAccepts_len haccepts
  obtain ⟨d, hd, hholds⟩ := h.handOff.log.holds hc (by omega)
  have hfilter : c.filter = f := by
    rw [UdpLog.filters, List.getElem?_map, hc] at hf
    exact Option.some.inj hf
  have hmatch : taskMatchUdp f d = true := hfilter ▸ hholds.matched
  obtain ⟨hle, hagree⟩ := hholds.agree
  have h244 := hagree.mono hlen
  refine ⟨d, ⟨hd, ?_, dhcpAccepts_mono h244 hle haccepts⟩, hmatch, hholds.saddr, ?_⟩
  · obtain ⟨-, -, hzero | heq⟩ := taskMatchUdp_iff.mp hmatch
    · rw [hsport] at hzero
      cases hzero
    · rw [← heq, hsport]
  · exact congrArg (BitVec.ofNat 32) (h244.getLe (by omega))

theorem LeaseInv.notReady (h : LeaseInv y) (hold : y.dhcp.point ≠ .done) : y.net.ipReady = false := by
  rw [Bool.eq_false_iff]
  exact fun hr => hold (h.ready.mp hr)

theorem discovered_leaseInv (h : LeaseInv y) (hpoint : y.dhcp.point = .discovered)
    (hstep : y.dhcpStep = some y') : LeaseInv y' := by
  simp only [dhcpStep, hpoint] at hstep
  have hq := call_quiet hstep
  refine h.goes hq (by simp [hpoint]) nofun (fun f hf => ?_) ?_
  · rw [List.mem_singleton.mp hf]
    rfl
  · exact hq.log.filter_new

theorem offer_leaseInv (h : LeaseInv y) {n : Nat} (hpoint : y.dhcp.point = .offer n)
    (hnames : y.NamesServer .dhcp) (hstep : y.dhcpStep = some y') : LeaseInv y' := by
  have hready := h.notReady (by simp [hpoint])
  have hfilter := h.relies
  rw [hpoint] at hfilter
  simp only [dhcpStep, hpoint] at hstep
  split at hstep
  · next c hc =>
    split_ifs at hstep with haccepts
    · cases hstep
      obtain ⟨hipv4, hne⟩ := hnames c (by simp [offer, hpoint, hc, haccepts])
      obtain ⟨d, hd, -, hsaddr, -⟩ := h.accepts hc hfilter rfl haccepts
      refine ⟨h.handOff, h.judging, h.ports, ?_, ?_⟩
      · dsimp only
        rw [hready]
        exact ⟨nofun, nofun⟩
      · refine ⟨n, d, rfl, ⟨hd.delivered, hd.sport, hd.accepts⟩, ?_, hsaddr ▸ hne⟩
        rw [← hsaddr]
        exact (ipv4Compatible_extractIpv4 hipv4).symm
    · cases hstep
      exact h.goes (.refl _) (by simp [hpoint]) nofun nofun trivial
  · cases hstep

theorem requested_leaseInv (h : LeaseInv y) (hpoint : y.dhcp.point = .requested)
    (hstep : y.dhcpStep = some y') : LeaseInv y' := by
  have hrelies := h.relies
  rw [hpoint] at hrelies
  obtain ⟨n, hn⟩ := hrelies
  simp only [dhcpStep, hpoint] at hstep
  have hq := call_quiet hstep
  refine h.goes hq (by simp [hpoint]) nofun (fun f hf => ?_) ⟨n, ?_, ?_, ?_⟩
  · rw [List.mem_singleton.mp hf]
    rfl
  · obtain ⟨d, -, hd, -⟩ := hn
    exact h.handOff.log.delivered_lt hd.delivered
  · exact hq.offered (hn.dhcpAt _)
  · rw [hq.dhcp]
    exact hq.log.filter_new

theorem ack_leaseInv (h : LeaseInv y) {m : Nat} (hpoint : y.dhcp.point = .ack m)
    (hstep : y.dhcpStep = some y') : LeaseInv y' := by
  have hready := h.notReady (by simp [hpoint])
  have hrelies := h.relies
  rw [hpoint] at hrelies
  obtain ⟨n, hlt, hoffered, hfilter⟩ := hrelies
  simp only [dhcpStep, hpoint] at hstep
  split at hstep
  · next c hc =>
    split_ifs at hstep with haccepts
    · obtain ⟨e, he, hmatch, -, hip⟩ := h.accepts hc hfilter rfl haccepts
      obtain ⟨d, hn, hd, hsaddr, hne⟩ := hoffered
      have hsame : e.saddr = d.saddr := by
        obtain ⟨-, hzero | heq, -⟩ := taskMatchUdp_iff.mp hmatch
        · exact absurd (hsaddr.trans hzero) hne
        · exact (hsaddr.trans heq).symm
      have hq := call_quiet hstep
      have hleased := hq.reliesOn (p := .done)
        ⟨n, m, d, e, hn, rfl, hlt, ⟨hd.delivered, hd.sport, hd.accepts⟩,
          ⟨he.delivered, he.sport, he.accepts⟩, hsame, hip⟩
      have hready' : y'.net.ipReady = true := hq.ipReady
      have hpoint' : y'.dhcp.point = .done := by rw [hq.dhcp]
      refine ⟨hq.handOff h.handOff, fun _ => hready', fun hnot => ?_, iff_of_true hready' hpoint', ?_⟩
      · rw [hready'] at hnot
        cases hnot
      · rw [hpoint']
        exact hleased
    · cases hstep
      exact h.goes (.refl _) (by simp [hpoint]) nofun nofun ⟨n, hoffered.dhcpAt _⟩
  · cases hstep

theorem dhcpStep_leaseInv (h : LeaseInv y) (hnames : y.NamesServer .dhcp) (hstep : y.dhcpStep = some y') :
    LeaseInv y' := by
  cases hpoint : y.dhcp.point with
  | entry =>
    have hready := h.notReady (by simp [hpoint])
    simp only [dhcpStep, hpoint, hready, Bool.false_eq_true, false_and, if_false] at hstep
    cases hstep
    refine ⟨h.handOff, h.judging, h.ports, ?_, trivial⟩
    dsimp only
    rw [hready]
    exact ⟨nofun, nofun⟩
  | discover =>
    simp only [dhcpStep, hpoint] at hstep
    exact h.goes (sendUdp_quiet hstep) (by simp [hpoint]) nofun nofun trivial
  | discovered => exact discovered_leaseInv h hpoint hstep
  | offer n => exact offer_leaseInv h hpoint hnames hstep
  | request =>
    have hrelies := h.relies
    rw [hpoint] at hrelies
    obtain ⟨n, hn⟩ := hrelies
    simp only [dhcpStep, hpoint] at hstep
    have hq := sendUdp_quiet hstep
    exact h.goes hq (by simp [hpoint]) nofun nofun ⟨n, hq.offered (hn.dhcpAt _)⟩
  | requested => exact requested_leaseInv h hpoint hstep
  | ack m => exact ack_leaseInv h hpoint hstep
  | done =>
    simp only [dhcpStep, hpoint] at hstep
    cases hstep

theorem judgeStep_leaseInv (h : LeaseInv y) {op : JudgeOp} (hstep : y.judgeStep op = some y') :
    LeaseInv y' := by
  unfold judgeStep at hstep
  split_ifs at hstep with hjudging hready
  · cases op with
    | schedYield => exact h.quiet (call_quiet hstep) (fun _ => nofun)
    | sendUdp => exact h.quiet (sendUdp_quiet hstep) (fun _ => nofun)
    | recvUdp filter len timeout =>
      refine h.quiet (call_quiet hstep) (fun hnot => ?_)
      rw [h.judging hjudging] at hnot
      cases hnot
  · cases hstep
    exact h.quiet ⟨rfl, rfl, rfl, fun _ => .inr hready.1, id, .refl _⟩ (fun _ => nofun)
  · exact h.quiet (call_quiet hstep) (fun _ => nofun)

theorem step_leaseInv (h : LeaseInv y) {l : Label} (hnames : y.NamesServer l) (hstep : y.step l = some y') :
    LeaseInv y' := by
  cases l with
  | tick cycles => exact h.quiet (call_quiet hstep) (fun _ => nofun)
  | idle tty =>
    simp only [step] at hstep
    split_ifs at hstep
    exact h.quiet (idleStep_quiet hstep) (fun _ => nofun)
  | ip =>
    simp only [step] at hstep
    split_ifs at hstep
    exact h.quiet (ipStep_quiet hstep) (fun _ => nofun)
  | dhcp =>
    simp only [step] at hstep
    split_ifs at hstep
    exact dhcpStep_leaseInv h hnames hstep
  | judge op =>
    simp only [step] at hstep
    split_ifs at hstep
    exact judgeStep_leaseInv h hstep
  | sent =>
    obtain ⟨d, -, rfl⟩ := Option.map_eq_some_iff.mp hstep
    exact h.quiet ⟨rfl, rfl, rfl, .inl, id, .refl _⟩ (fun _ => nofun)
  | received frame =>
    obtain ⟨cap, -, hstep⟩ := Option.bind_eq_some_iff.mp hstep
    split_ifs at hstep
    cases hstep
    exact h.quiet ⟨rfl, rfl, rfl, .inl, id, .refl _⟩ (fun _ => nofun)

/-! ## Every run -/

theorem LeaseInv.dport (h : LeaseInv y) (hready : y.net.ipReady = false) {n : Nat} {d : UdpDispatch}
    (hd : y.sched.log.Delivered n d) : d.dport = dhcpClientPort.toNat := by
  obtain ⟨f, hf, hmatch⟩ := h.handOff.log.matched hd
  have hport := h.ports hready f hf
  obtain ⟨hzero | heq, -⟩ := taskMatchUdp_iff.mp hmatch
  · rw [hport] at hzero
    cases hzero
  · rw [← heq, hport]

/-- Once the address is in use it is leased; before that only DHCP packets are delivered. -/
theorem leased_of_namesServer {ls : List Label} (hnames : AllSteps step NamesServer boot ls)
    (hrun : runSteps step boot ls = some y) :
    (y.net.ipReady = true → y.Leased) ∧
      (y.net.ipReady = false → ∀ n d, y.sched.log.Delivered n d → d.dport = dhcpClientPort.toNat) := by
  have hinv : LeaseInv y := runSteps_invariant_of_allSteps
    (fun _ _ _ h hnames hstep => step_leaseInv h hnames hstep) boot_leaseInv hnames hrun
  refine ⟨fun hready => ?_, fun hready n d hd => hinv.dport hready hd⟩
  have hrelies := hinv.relies
  rw [hinv.ready.mp hready] at hrelies
  exact hrelies

/-- A DHCP reply in the first transaction, without a UDP checksum. -/
def smallReply (src : Ipv4Addr) (checksum type : Nat) : List Byte :=
  leBytes 6 0xffffffffffff ++ leBytes 6 0x010000000002 ++ leBytes 2 ethTypeIpv4 ++ [0x45, 0] ++
    leBytes 2 (htons 272) ++ leBytes 4 0 ++ [64, 17] ++ leBytes 2 checksum ++ leBytes 4 src.toNat ++
    leBytes 4 0x3801a8c0 ++ leBytes 2 (htons 67) ++ leBytes 2 (htons 68) ++ leBytes 2 (htons 252) ++
    leBytes 2 0 ++ leBytes 1 dhcpOpReply ++ leBytes 1 dhcpHtype ++ leBytes 1 dhcpHlen ++ [0] ++
    leBytes 4 0xaa55ccdd ++ List.replicate 8 0 ++ leBytes 4 0x3801a8c0 ++ List.replicate 216 0 ++
    leBytes 4 dhcpMagicCookie ++ leBytes 1 dhcpOptionMessageType ++ [1] ++ leBytes 1 type ++
    leBytes 1 dhcpOptionEnd

def smallIdle (n : Nat) : List Label := List.replicate n (.idle false)

/-- The IP task receives the frame and dispatches its datagram. -/
def smallReceive (frame : List Byte) : List Label :=
  [.received frame] ++ smallIdle 3 ++ [.judge .schedYield] ++ smallIdle 3 ++ [.ip, .ip] ++ smallIdle 6

/-- DISCOVER, the offer, REQUEST (a question for the MAC address) and the acknowledgement. -/
def smallExchange (offer ack : List Byte) : List Label :=
  smallIdle 8 ++ [.ip] ++ smallIdle 7 ++ [.dhcp, .dhcp, .sent] ++ smallIdle 4 ++ [.dhcp] ++
    smallReceive offer ++ [.dhcp, .dhcp, .sent] ++ smallIdle 4 ++ [.dhcp] ++ smallReceive ack ++ [.dhcp]

/-- Both replies come from 192.168.1.77. -/
theorem leased_of_namesServer_small : ∃ y, runSteps step boot (smallExchange
    (smallReply 0x4d01a8c0 2038 dhcpMessageTypeOffer) (smallReply 0x4d01a8c0 2038 dhcpMessageTypeAck)) = some y ∧
    y.net.ipReady = true ∧ y.net.ifinfo.ipv4 = 0x3801a8c0 ∧ y.Leased := by
  have hnames : AllSteps step NamesServer boot (smallExchange
      (smallReply 0x4d01a8c0 2038 dhcpMessageTypeOffer) (smallReply 0x4d01a8c0 2038 dhcpMessageTypeAck)) := by
    decide +kernel
  have hrun : (runSteps step boot (smallExchange
      (smallReply 0x4d01a8c0 2038 dhcpMessageTypeOffer) (smallReply 0x4d01a8c0 2038 dhcpMessageTypeAck))).map
      (fun y => (y.net.ipReady, y.net.ifinfo.ipv4)) = some (true, 0x3801a8c0) := by
    decide +kernel
  obtain ⟨y, hy, hnet⟩ := Option.map_eq_some_iff.mp hrun
  obtain ⟨hready, hipv4⟩ := Prod.mk.inj hnet
  exact ⟨y, hy, hready, hipv4, (leased_of_namesServer hnames hy).1 hready⟩

/-- The offer comes from 0.0.0.0, the acknowledgement from 192.168.1.77. -/
theorem leased_of_namesServer_wildcard : ∃ y, runSteps step boot (smallExchange
    (smallReply 0 64951 dhcpMessageTypeOffer) (smallReply 0x4d01a8c0 2038 dhcpMessageTypeAck)) = some y ∧
    y.net.ipReady = true ∧ ¬ y.Leased := by
  have hrun : (runSteps step boot (smallExchange
      (smallReply 0 64951 dhcpMessageTypeOffer) (smallReply 0x4d01a8c0 2038 dhcpMessageTypeAck))).map
      (fun y => (y.net.ipReady, [y.dhcp.offered, y.dhcp.acked], y.sched.log.deliveries,
        y.sched.log.datagrams.map UdpDispatch.saddr)) =
      some (true, [some 0, some 1], [(0, 0), (1, 1)], [ipv4Compatible 0, ipv4Compatible 0x4d01a8c0]) := by
    decide +kernel
  obtain ⟨y, hy, heq⟩ := Option.map_eq_some_iff.mp hrun
  simp only [Prod.mk.injEq, List.cons.injEq, and_true] at heq
  obtain ⟨hready, ⟨hoffered, hacked⟩, hdeliveries, hsaddrs⟩ := heq
  refine ⟨y, hy, hready, ?_⟩
  rintro ⟨n, m, d, e, hn, hm, -, hd, he, hsame, -⟩
  have hsaddr : ∀ k c, y.sched.log.Delivered k c →
      [ipv4Compatible 0, ipv4Compatible 0x4d01a8c0][k]? = some c.saddr := by
    rintro k c ⟨i, hmem, hget⟩
    rw [← hsaddrs, List.getElem?_map]
    rw [hdeliveries] at hmem
    have hik : i = k := by
      simp only [List.mem_cons, Prod.mk.injEq, List.not_mem_nil, or_false] at hmem
      omega
    rw [← hik, hget]
    rfl
  cases hoffered.symm.trans hn
  cases hacked.symm.trans hm
  have hfirst := hsaddr 0 d hd.delivered
  have hsecond := hsaddr 1 e he.delivered
  rw [hsame] at hsecond
  exact absurd (hfirst.trans hsecond.symm) (by decide)

end Host

end VijosOS
