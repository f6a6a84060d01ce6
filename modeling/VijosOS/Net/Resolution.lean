import VijosOS.Net.Answers
import VijosOS.Net.RoundTrip

/-!
# Address resolution

A datagram for a host whose MAC address is not known is replaced by a question: an ARP request
over IPv4, a neighbour solicitation over IPv6. The host that has the address answers, the answer
is learnt, and the next datagram reaches it.
-/

namespace VijosOS

open Library

/-- `fr` is the frame `b` as it was received, with stale bytes after it. -/
structure Carries (fr : Frame) (b : List Byte) : Prop where
  len : fr.len = b.length
  bytes : bytesAt fr.bytes 0 b.length = b

theorem Carries.agree {fr : Frame} {m : Mem} {n : Nat} (h : Carries fr (bytesAt m 0 n)) :
    fr.len = n ∧ AgreeUpTo n m fr.bytes := by
  obtain ⟨hlen, hbytes⟩ := h
  rw [bytesAt_length] at hlen hbytes
  exact ⟨hlen, .of_bytesAt hbytes.symm⟩

/-- A frame for the group address of all hosts, or for this host. -/
theorem handleFrame_addressed (net : NetState) (fr : Frame) {mac : Mac} (hdst : bytesAt fr.bytes 0 6 = leBytes 6 mac.toNat)
    (hmac : mac = net.ifinfo.mac ∨ mac.toNat % 2 = 1) :
    getLe fr.bytes 0 1 &&& 1 ≠ 0 ∨ bytesAt fr.bytes 0 6 = leBytes 6 net.ifinfo.mac.toNat := by
  obtain rfl | hodd := hmac
  · exact .inr hdst
  · refine .inl ?_
    have hfirst : getLe fr.bytes 0 1 = mac.toNat % 256 := by
      have hbyte : bytesAt fr.bytes 0 1 = (leBytes 6 mac.toNat).take 1 := by
        rw [← hdst, bytesAt_take _ _ (by norm_num)]
      rw [getLe, hbyte]
      simp [leBytes, leNat]
    rw [hfirst, Nat.and_one_is_mod]
    omega

/-! ## ARP -/

/-- An ARP packet about the sender `sender` with address `senderIp`. -/
structure ArpWire (m : Mem) (op : Nat) (sender : Mac) (senderIp targetIp : Ipv4Addr) : Prop where
  ethertype : getLe m 12 2 = ethTypeArp
  htype : getLe m 14 2 = arpHtypeEthernet
  ptype : getLe m 16 2 = arpPtypeIpv4
  hlen : getLe m 18 1 = 6
  plen : getLe m 19 1 = 4
  op : getLe m 20 2 = op
  senderMac : bytesAt m 22 6 = leBytes 6 sender.toNat
  senderIp : loadIpv4 m 28 = senderIp
  targetIp : loadIpv4 m 38 = targetIp

section Arp

variable {m m' : Mem} {op : Nat} {sender : Mac} {senderIp targetIp : Ipv4Addr}

theorem ArpWire.congr (w : ArpWire m op sender senderIp targetIp) (h : AgreeUpTo 42 m' m) :
    ArpWire m' op sender senderIp targetIp where
  ethertype := by rw [h.getLe (by norm_num), w.ethertype]
  htype := by rw [h.getLe (by norm_num), w.htype]
  ptype := by rw [h.getLe (by norm_num), w.ptype]
  hlen := by rw [h.getLe (by norm_num), w.hlen]
  plen := by rw [h.getLe (by norm_num), w.plen]
  op := by rw [h.getLe (by norm_num), w.op]
  senderMac := by rw [h.bytesAt (by norm_num), w.senderMac]
  senderIp := by rw [loadIpv4_congr h (by norm_num), w.senderIp]
  targetIp := by rw [loadIpv4_congr h (by norm_num), w.targetIp]

theorem loadMac_of_bytes {a : Nat} {mac : Mac} (h : bytesAt m a 6 = leBytes 6 mac.toNat) (hmac : mac.toNat < 2 ^ 48) :
    loadMac m a = mac := by
  have hvalue : getLe m a 6 = mac.toNat := by
    rw [getLe, h, leNat_leBytes]
    exact Nat.mod_eq_of_lt hmac
  rw [loadMac, hvalue, BitVec.ofNat_toNat, BitVec.setWidth_eq]

theorem loadIpv4_storeIpv4 (m : Mem) (a : Nat) (ip : Ipv4Addr) : loadIpv4 (storeIpv4 m a ip) a = ip := by
  have hlt : ip.toNat < 256 ^ 4 := ip.isLt
  rw [loadIpv4, storeIpv4, getLe_putLe, Nat.mod_eq_of_lt hlt, BitVec.ofNat_toNat, BitVec.setWidth_eq]

theorem arpMakeRequest_wire {net : NetState} {fr fr' : Frame} {ip : Ipv4Addr} {mac : Mac}
    (h : arpMakeRequest net fr 4096 ip mac = .ok fr') :
    ArpWire fr'.bytes arpOpRequest net.ifinfo.mac net.ifinfo.ipv4 ip ∧ bytesAt fr'.bytes 0 6 = leBytes 6 mac.toNat := by
  unfold arpMakeRequest at h
  extract_lets b₁ b₂ b₃ b₄ b₅ b₆ b₇ b₈ b₉ b₁₀ at h
  split_ifs at h
  obtain rfl := Except.ok.inj h
  have heth : AgreeUpTo 14 b₁₀ b₁ := by
    intro i hi
    simp (disch := omega) only [b₁₀, b₉, b₈, b₇, b₆, b₅, b₄, b₃, b₂, storeIpv4, storeMac, putLe_outside]
  obtain ⟨hdst, -, hethertype⟩ := ethHeader_fields heth
  refine ⟨?_, hdst⟩
  constructor
  · exact hethertype
  · simp (disch := simp) only [b₁₀, b₉, b₈, b₇, b₆, b₅, b₄, b₃, b₂, storeIpv4, storeMac, getLe_putLe_disjoint, getLe_putLe]
    rfl
  · simp (disch := simp) only [b₁₀, b₉, b₈, b₇, b₆, b₅, b₄, b₃, storeIpv4, storeMac, getLe_putLe_disjoint, getLe_putLe]
    rfl
  · simp (disch := simp) only [b₁₀, b₉, b₈, b₇, b₆, b₅, b₄, storeIpv4, storeMac, getLe_putLe_disjoint, getLe_putLe]
    rfl
  · simp (disch := simp) only [b₁₀, b₉, b₈, b₇, b₆, b₅, storeIpv4, storeMac, getLe_putLe_disjoint, getLe_putLe]
    rfl
  · simp (disch := simp) only [b₁₀, b₉, b₈, b₇, b₆, storeIpv4, storeMac, getLe_putLe_disjoint, getLe_putLe]
    rfl
  · have hkept : bytesAt b₁₀ 22 6 = bytesAt b₇ 22 6 := by
      refine bytesAt_congr fun i hi => ?_
      simp (disch := omega) only [b₁₀, b₉, b₈, storeIpv4, storeMac, putLe_outside]
    exact hkept.trans (bytesAt_putLe _ _ _ _)
  · have hkept : getLe b₁₀ 28 4 = getLe b₈ 28 4 := by
      simp (disch := simp) only [b₁₀, b₉, storeIpv4, storeMac, getLe_putLe_disjoint]
    rw [loadIpv4, hkept]
    exact loadIpv4_storeIpv4 _ _ _
  · exact loadIpv4_storeIpv4 _ _ _

/-- The host that is asked for answers with its own addresses. -/
theorem ArpWire.answered (w : ArpWire m arpOpRequest sender senderIp targetIp) {peer : NetState}
    (hpeer : peer.ifinfo.ipv4 = targetIp) :
    ∃ net' r, net'.ifinfo = peer.ifinfo ∧ handleArp peer ⟨42, m⟩ = .send net' ⟨42, r⟩ ∧
      ArpWire r arpOpReply peer.ifinfo.mac targetIp senderIp ∧ bytesAt r 0 6 = leBytes 6 sender.toNat := by
  unfold handleArp
  extract_lets m₀ op srcMac srcIp toMe learnt b₁ b₂ b₃ b₄ b₅ b₆
  have hifinfo : learnt.ifinfo = peer.ifinfo := (learn_keeps _ peer _ _).1
  have htoMe : toMe := w.targetIp.trans hpeer.symm
  have heth : AgreeUpTo 14 b₆ b₁ := by
    intro i hi
    simp (disch := omega) only [b₆, b₅, b₄, b₃, b₂, storeIpv4, storeMac, putLe_outside]
  obtain ⟨hdst, -, hethertype⟩ := ethHeader_fields heth
  have hkept : ∀ a n, 14 ≤ a → a + n ≤ 20 → getLe b₆ a n = getLe m a n := by
    intro a n ha hn
    simp (disch := omega) only [b₆, b₅, b₄, b₃, b₂, b₁, m₀, storeEthHeader, storeIpv4, storeMac, getLe_putLe_disjoint]
  refine ⟨learnt, b₆, hifinfo, ?_, ?_, ?_⟩
  · rw [if_neg (by norm_num), if_neg (not_not_intro ⟨w.htype, w.ptype, w.hlen, w.plen⟩),
      if_neg (fun hop => hop.1 w.op), if_pos ⟨w.op, htoMe⟩]
  · constructor
    · exact hethertype
    · rw [hkept _ _ (by norm_num) (by norm_num), w.htype]
    · rw [hkept _ _ (by norm_num) (by norm_num), w.ptype]
    · rw [hkept _ _ (by norm_num) (by norm_num), w.hlen]
    · rw [hkept _ _ (by norm_num) (by norm_num), w.plen]
    · simp (disch := simp) only [b₆, b₅, b₄, b₃, b₂, storeIpv4, storeMac, getLe_putLe_disjoint, getLe_putLe]
      rfl
    · have hmac : bytesAt b₆ 22 6 = bytesAt b₃ 22 6 := by
        refine bytesAt_congr fun i hi => ?_
        simp (disch := omega) only [b₆, b₅, b₄, storeIpv4, storeMac, putLe_outside]
      rw [hmac, ← hifinfo]
      exact bytesAt_putLe _ _ _ _
    · have hip : getLe b₆ 28 4 = getLe b₄ 28 4 := by
        simp (disch := simp) only [b₆, b₅, storeIpv4, storeMac, getLe_putLe_disjoint]
      rw [loadIpv4, hip, ← hpeer, ← hifinfo]
      exact loadIpv4_storeIpv4 _ _ _
    · rw [← w.senderIp]
      exact loadIpv4_storeIpv4 _ _ _
  · rw [hdst, leBytes_loadMac, w.senderMac]

theorem ArpWire.learnt (w : ArpWire m arpOpReply sender senderIp targetIp) (hsender : sender.toNat < 2 ^ 48)
    (hip : senderIp ≠ ipv4Unspecified) (net : NetState) :
    (handleArp net ⟨42, m⟩).net = ipUpdateMac net (ipv4Compatible senderIp) sender := by
  unfold handleArp
  extract_lets m₀ op srcMac srcIp toMe learnt b₁ b₂ b₃ b₄ b₅ b₆
  have hnet : learnt = ipUpdateMac net (ipv4Compatible senderIp) sender := by
    have hsrc : srcIp = senderIp := w.senderIp
    simp only [learnt, hsrc, if_pos hip, srcMac, m₀, loadMac_of_bytes w.senderMac hsender]
  have hop : ¬ (op = arpOpRequest ∧ toMe) := fun h => absurd (w.op.symm.trans h.1) (by decide)
  rw [if_neg (by norm_num), if_neg (not_not_intro ⟨w.htype, w.ptype, w.hlen, w.plen⟩),
    if_neg (fun hop => hop.2 w.op), if_neg hop]
  exact hnet

end Arp

/-! ## A datagram to a host that is not resolved -/

/-- `net` keeps the MAC address of the host `addr`. -/
def Watches (net : NetState) (addr : Ipv6Addr) : Prop := addr = net.serverIp ∨ addr = net.dhcpServerIp

theorem isIpv4_ipv4Compatible (ip : Ipv4Addr) : isIpv4 (ipv4Compatible ip) = true := by
  have hlow : (ipv4Compatible ip).hi &&& 0xffffffff = 0 := by
    apply BitVec.eq_of_toNat_eq
    have hmask : (0xffffffff : BitVec 64).toNat = 2 ^ 32 - 1 := rfl
    have hlt : ip.toNat < 2 ^ 32 := ip.isLt
    rw [BitVec.toNat_and, hmask, Nat.and_two_pow_sub_one_eq_mod]
    simp only [ipv4Compatible, BitVec.toNat_shiftLeft, BitVec.toNat_setWidth, Nat.shiftLeft_eq]
    change _ = 0
    omega
  rw [isIpv4, Bool.and_eq_true, beq_iff_eq, beq_iff_eq]
  exact ⟨rfl, hlow⟩

section Delivery

variable {net peer : NetState} {dst : Ipv4Addr} {payload : List Byte}

/-- `send_udp` of a datagram that fits, to a host whose MAC address is known. -/
theorem sendUdp_wire (buff : Mem) (sport dport : Port) {mac : Mac} (hfit : payload.length ≤ 4052)
    (hmac : ipQueryMac net (ipv4Compatible dst) = .ok mac) :
    ∃ sent, (sendUdp net buff sport (ipv4Compatible dst) dport payload).sent = [bytesAt sent 0 (42 + payload.length)] ∧
      UdpWire sent net.ifinfo.ipv4 dst sport dport payload ∧ bytesAt sent 0 6 = leBytes 6 mac.toNat := by
  obtain ⟨sent, hsent⟩ : ∃ sent, sent = storeMac (storeMac
    (udpFrame net buff sport (ipv4Compatible dst) dport payload).bytes 6 net.ifinfo.mac) 0 mac := ⟨_, rfl⟩
  have hsend : sendUdp net buff sport (ipv4Compatible dst) dport payload =
      .send net ⟨42 + payload.length, sent⟩ := by
    rw [sendUdp, if_neg (by omega), ipSend, hmac, hsent]
    rfl
  refine ⟨sent, congrArg FrameResult.sent hsend, ?_, ?_⟩
  · refine (udpFrame_wire net buff sport dport dst hfit).congr fun x hx _ => ?_
    rw [hsent, storeMac, storeMac, putLe_outside _ _ _ _ (by omega), putLe_outside _ _ _ _ (by omega)]
  · rw [hsent]
    exact bytesAt_putLe _ _ _ _

theorem sendUdp_delivered (buff : Mem) (sport dport : Port) {mac : Mac} (hfit : payload.length ≤ 4052)
    (hmac : ipQueryMac net (ipv4Compatible dst) = .ok mac) :
    ∃ wire, (sendUdp net buff sport (ipv4Compatible dst) dport payload).sent = [wire] ∧
      ∀ peer fr, peer.ifinfo.mac = mac → peer.ifinfo.ipv4 = dst → Carries fr wire →
        (handleFrame peer fr).dispatched = [⟨dport.toNat, ipv4Compatible net.ifinfo.ipv4, sport.toNat, payload⟩] := by
  obtain ⟨sent, hsend, hwire, hdst⟩ := sendUdp_wire buff sport dport hfit hmac
  refine ⟨bytesAt sent 0 (42 + payload.length), hsend, fun peer fr hpeerMac hpeer hfr => ?_⟩
  obtain ⟨hlen, hagree⟩ := hfr.agree
  obtain ⟨n, m⟩ := fr
  obtain rfl : n = 42 + payload.length := hlen
  have hreceived : UdpWire m net.ifinfo.ipv4 dst sport dport payload :=
    hwire.congr fun x _ hx => hagree x (by omega)
  have htoMe : bytesAt m 0 6 = leBytes 6 peer.ifinfo.mac.toNat := by
    rw [hpeerMac, ← hdst, hagree.bytesAt (by omega)]
  unfold handleFrame
  dsimp only
  rw [if_neg (not_not_intro (Or.inr htoMe)), hreceived.ethertype, if_neg (by decide), if_pos rfl,
    hreceived.handleIpv4 hfit hpeer]

/-- To a host that is not resolved an ARP request goes out in place of the datagram. -/
theorem sendUdp_asks (buff : Mem) (sport dport : Port) {e : Int} (hfit : payload.length ≤ 4052)
    (hunknown : ipQueryMac net (ipv4Compatible dst) = .error e) :
    ∃ request, (sendUdp net buff sport (ipv4Compatible dst) dport payload).sent = [bytesAt request 0 42] ∧
      ArpWire request arpOpRequest net.ifinfo.mac net.ifinfo.ipv4 dst ∧
      bytesAt request 0 6 = leBytes 6 (-1 : Mac).toNat := by
  obtain ⟨fr, hfr⟩ : ∃ fr, fr = udpFrame net buff sport (ipv4Compatible dst) dport payload := ⟨_, rfl⟩
  obtain ⟨request, hrequest⟩ : ∃ request, arpMakeRequest net fr 4096 dst (-1) = .ok request := by
    unfold arpMakeRequest
    exact ⟨_, if_neg (by norm_num)⟩
  obtain ⟨hwire, hdst⟩ := arpMakeRequest_wire hrequest
  refine ⟨request.bytes, ?_, hwire, hdst⟩
  rw [sendUdp, if_neg (by omega), ← hfr, ipSend, hunknown]
  dsimp only
  rw [isIpv4_ipv4Compatible, if_pos rfl, extractIpv4_ipv4Compatible, hrequest]
  dsimp only [FrameResult.send]
  rw [arpMakeRequest_len hrequest]

/-- The request for `dst`, received by the host that has the address. -/
theorem ArpWire.reply_sent {m : Mem} {sender : Mac} {senderIp : Ipv4Addr} {fr : Frame}
    (w : ArpWire m arpOpRequest sender senderIp dst) (hdst : bytesAt m 0 6 = leBytes 6 (-1 : Mac).toNat)
    (hfr : Carries fr (bytesAt m 0 42)) (hpeer : peer.ifinfo.ipv4 = dst) :
    (handleFrame peer fr).net.ifinfo = peer.ifinfo ∧ ∃ reply, (handleFrame peer fr).sent = [bytesAt reply 0 42] ∧
      ArpWire reply arpOpReply peer.ifinfo.mac dst senderIp ∧ bytesAt reply 0 6 = leBytes 6 sender.toNat := by
  obtain ⟨hlen, hagree⟩ := hfr.agree
  obtain ⟨n, received⟩ := fr
  obtain rfl : n = 42 := hlen
  have hwire : ArpWire received arpOpRequest sender senderIp dst := w.congr fun i hi => (hagree i hi).symm
  have hgroup : bytesAt received 0 6 = leBytes 6 (-1 : Mac).toNat := by
    rw [← hdst, hagree.bytesAt (by norm_num)]
  have htoMe := handleFrame_addressed peer ⟨42, received⟩ hgroup (.inr (by decide))
  obtain ⟨net', reply, hifinfo, hhandled, hreply, hto⟩ := hwire.answered hpeer
  have hframe : handleFrame peer ⟨42, received⟩ = .send net' ⟨42, reply⟩ := by
    rw [← hhandled, handleFrame]
    dsimp only
    rw [if_neg (not_not_intro htoMe), if_pos hwire.ethertype]
  rw [hframe]
  exact ⟨hifinfo, reply, rfl, hreply, hto⟩

theorem ArpWire.resolved {m : Mem} {mac : Mac} {targetIp : Ipv4Addr} {fr : Frame}
    (w : ArpWire m arpOpReply mac dst targetIp) (hto : bytesAt m 0 6 = leBytes 6 net.ifinfo.mac.toNat)
    (hfr : Carries fr (bytesAt m 0 42)) (hwatch : Watches net (ipv4Compatible dst)) (hdst : dst ≠ ipv4Unspecified)
    (hmac : mac.toNat < 2 ^ 48) (hbroadcast : mac ≠ macBroadcast) :
    ipQueryMac (handleFrame net fr).net (ipv4Compatible dst) = .ok mac ∧
      (handleFrame net fr).net.ifinfo = net.ifinfo := by
  obtain ⟨hlen, hagree⟩ := hfr.agree
  obtain ⟨n, received⟩ := fr
  obtain rfl : n = 42 := hlen
  have hwire : ArpWire received arpOpReply mac dst targetIp := w.congr fun i hi => (hagree i hi).symm
  have htoMe : bytesAt received 0 6 = leBytes 6 net.ifinfo.mac.toNat := by
    rw [← hto, hagree.bytesAt (by norm_num)]
  have hframe : handleFrame net ⟨42, received⟩ = handleArp net ⟨42, received⟩ := by
    rw [handleFrame]
    dsimp only
    rw [if_neg (not_not_intro (.inr htoMe)), if_pos hwire.ethertype]
  rw [hframe, hwire.learnt hmac hdst net]
  exact ⟨ipQueryMac_ipUpdateMac net hbroadcast hwatch, (ipUpdateMac_keeps _ _ _).1⟩

/-- A datagram to a host that is not resolved: it is replaced by a request, the host answers the
request, and once the answer is received the next datagram is dispatched there. In between either
side may have handled other frames, which leave its addresses alone. -/
theorem arp_resolves (buff : Mem) (sport dport : Port) {e : Int} (hfit : payload.length ≤ 4052)
    (hunknown : ipQueryMac net (ipv4Compatible dst) = .error e) (hdst : dst ≠ ipv4Unspecified)
    (hpeer : peer.ifinfo.ipv4 = dst) (hmac : peer.ifinfo.mac.toNat < 2 ^ 48)
    (hbroadcast : peer.ifinfo.mac ≠ macBroadcast) :
    ∃ request, (sendUdp net buff sport (ipv4Compatible dst) dport payload).sent = [request] ∧
      ∀ fr, Carries fr request → ∃ reply, (handleFrame peer fr).sent = [reply] ∧
        ∀ net₁ fr₁, net₁.ifinfo = net.ifinfo → Watches net₁ (ipv4Compatible dst) → Carries fr₁ reply →
          ∀ buff₁, ∃ wire,
            (sendUdp (handleFrame net₁ fr₁).net buff₁ sport (ipv4Compatible dst) dport payload).sent = [wire] ∧
            ∀ peer₂ fr₂, peer₂.ifinfo = peer.ifinfo → Carries fr₂ wire → (handleFrame peer₂ fr₂).dispatched =
              [⟨dport.toNat, ipv4Compatible net.ifinfo.ipv4, sport.toNat, payload⟩] := by
  obtain ⟨request, hsent, hrequest, hgroup⟩ := sendUdp_asks buff sport dport hfit hunknown
  refine ⟨_, hsent, fun fr hfr => ?_⟩
  obtain ⟨-, reply, hreply, hanswer, hto⟩ := hrequest.reply_sent hgroup hfr hpeer
  refine ⟨_, hreply, fun net₁ fr₁ hsame hwatch hfr₁ buff₁ => ?_⟩
  obtain ⟨hknown, hifinfo⟩ := hanswer.resolved (hsame ▸ hto) hfr₁ hwatch hdst hmac hbroadcast
  obtain ⟨wire, hwire, hdelivered⟩ := sendUdp_delivered buff₁ sport dport hfit hknown
  refine ⟨wire, hwire, fun peer₂ fr₂ hpeer₂ hfr₂ => ?_⟩
  have hmac₂ : peer₂.ifinfo.mac = peer.ifinfo.mac := congrArg IfInfo.mac hpeer₂
  have hipv4₂ : peer₂.ifinfo.ipv4 = dst := (congrArg IfInfo.ipv4 hpeer₂).trans hpeer
  rw [hdelivered peer₂ fr₂ hmac₂ hipv4₂ hfr₂, hifinfo, hsame]

/-- The server of `smallNet`. -/
def smallServer : NetState := { smallNet with ifinfo := { smallNet.ifinfo with mac := 0x010101010102, ipv4 := 0x3701a8c0 } }

theorem arp_resolves_small :
    ∃ request, (sendUdp smallNet (fun _ => 0) 1024 (ipv4Compatible 0x3701a8c0) 69 [7]).sent = [request] ∧
      ∀ fr, Carries fr request → ∃ reply, (handleFrame smallServer fr).sent = [reply] ∧
        ∀ net₁ fr₁, net₁.ifinfo = smallNet.ifinfo → Watches net₁ (ipv4Compatible 0x3701a8c0) → Carries fr₁ reply →
          ∀ buff₁, ∃ wire,
            (sendUdp (handleFrame net₁ fr₁).net buff₁ 1024 (ipv4Compatible 0x3701a8c0) 69 [7]).sent = [wire] ∧
            ∀ peer₂ fr₂, peer₂.ifinfo = smallServer.ifinfo → Carries fr₂ wire →
              (handleFrame peer₂ fr₂).dispatched = [⟨69, ipv4Compatible 0x0201a8c0, 1024, [7]⟩] :=
  arp_resolves (fun _ => 0) 1024 69 (by decide) (e := -eNOFOUND) (by rfl) (by decide) rfl (by decide) (by decide)

end Delivery

end VijosOS
