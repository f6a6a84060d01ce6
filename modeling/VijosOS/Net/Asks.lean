import VijosOS.Net.Answers
import VijosOS.Net.SendUdp

/-!
# Frames that ask

`handle_frame` sends a frame exactly when the one it has received asks for an answer: an ARP
request, a neighbour solicitation or an echo request for this host that passes every check on
the way. `send_udp` sends one exactly when the datagram fits its buffer.
-/

namespace VijosOS

open Library

section Asks

variable {net net' : NetState} {fr : Frame} {ret : Int} {r : FrameResult}

/-- A check that fails drops the frame. -/
theorem sends_unless {c : Prop} [Decidable c] :
    (if c then .drop net ret else r : FrameResult).sent ≠ [] ↔ ¬ c ∧ r.sent ≠ [] := by
  by_cases hc : c
  · rw [if_pos hc]
    exact ⟨fun h => absurd rfl h, fun h => absurd hc h.1⟩
  · rw [if_neg hc, and_iff_right hc]

theorem sends_if {c : Prop} [Decidable c] :
    (if c then .send net fr else .drop net' ret : FrameResult).sent ≠ [] ↔ c := by
  by_cases hc : c
  · rw [if_pos hc]
    exact ⟨fun _ => hc, fun _ => List.cons_ne_nil _ _⟩
  · rw [if_neg hc]
    exact ⟨fun h => absurd rfl h, fun h => absurd h hc⟩

/-! ## The handlers -/

/-- An ARP request for this host. -/
structure ArpAsks (net : NetState) (fr : Frame) : Prop where
  len : 14 + 28 ≤ fr.len
  format : getLe fr.bytes 14 2 = arpHtypeEthernet ∧ getLe fr.bytes 16 2 = arpPtypeIpv4 ∧
    getLe fr.bytes 18 1 = 6 ∧ getLe fr.bytes 19 1 = 4
  op : getLe fr.bytes 20 2 = arpOpRequest
  target : loadIpv4 fr.bytes 38 = net.ifinfo.ipv4

theorem handleArp_sends : (handleArp net fr).sent ≠ [] ↔ ArpAsks net fr := by
  unfold handleArp
  dsimp only
  rw [sends_unless, sends_unless, sends_unless, sends_if]
  constructor
  · rintro ⟨hlen, hformat, -, hop, htarget⟩
    exact ⟨Nat.not_lt.mp hlen, not_not.mp hformat, hop, htarget⟩
  · intro h
    exact ⟨Nat.not_lt.mpr h.len, not_not_intro h.format, fun hne => hne.1 h.op, h.op, h.target⟩

theorem doIcmpv4Echo_sends : (doIcmpv4Echo net fr).sent ≠ [] ↔ getLe fr.bytes 35 1 = 0 := by
  unfold doIcmpv4Echo
  dsimp only
  rw [sends_unless, not_not]
  exact and_iff_left (List.cons_ne_nil _ _)

theorem handleIcmpv4_sends : (handleIcmpv4 net fr).sent ≠ [] ↔ EchoRequest fr := by
  unfold handleIcmpv4
  dsimp only
  rw [sends_unless, sends_unless, not_lt, not_not]
  by_cases htype : getLe fr.bytes 34 1 = icmpv4TypeEchoRequest
  · rw [if_pos htype, doIcmpv4Echo_sends]
    constructor
    · rintro ⟨hlen, hsum, hcode⟩
      exact ⟨hlen, hsum, htype, hcode⟩
    · exact fun h => ⟨h.len, h.sum, h.code⟩
  · rw [if_neg htype]
    exact ⟨fun h => absurd rfl h.2.2, fun h => absurd h.type htype⟩

/-- What `handle_ipv4` checks of a frame before it calls `handle_icmpv4`. -/
structure Icmpv4Received (net : NetState) (fr : Frame) : Prop where
  header : 14 + 20 ≤ fr.len
  version : getLe fr.bytes 14 1 >>> 4 = 4
  headerLen : getLe fr.bytes 14 1 &&& 0xf = 5
  checksum : ipChecksum fr.bytes 14 20 = 0
  whole : 14 + ntohs (getLe fr.bytes 16 2) ≤ fr.len
  total : 20 ≤ ntohs (getLe fr.bytes 16 2)
  toMe : ipv4IsToMe net (loadIpv4 fr.bytes 30) = true
  ready : net.ipReady = true
  nextHeader : getLe fr.bytes 23 1 = ipv4NextHeaderIcmp

theorem handleIpv4_sends (hlen : fr.len < 2 ^ 16) : (handleIpv4 net fr).sent ≠ [] ↔
    Icmpv4Received net fr ∧ EchoRequest ⟨14 + ntohs (getLe fr.bytes 16 2), fr.bytes⟩ := by
  constructor
  · intro h
    unfold handleIpv4 at h
    dsimp only at h
    simp only [sends_unless, not_lt, not_not] at h
    obtain ⟨hheader, hversion, hihl, hsum, hwhole, htotal, htoMe, hready, h⟩ := h
    rw [wrap16_of_lt (Nat.lt_of_le_of_lt hwhole hlen)] at h
    by_cases hicmp : getLe fr.bytes 23 1 = ipv4NextHeaderIcmp
    · rw [if_pos hicmp] at h
      have hudp : getLe fr.bytes 23 1 ≠ ipNextHeaderUdp := by
        rw [hicmp]
        decide
      exact ⟨⟨hheader, hversion, hihl, hsum, hwhole, htotal, by simpa using htoMe,
        by simpa [hudp] using hready, hicmp⟩, handleIcmpv4_sends.mp h⟩
    · -- a datagram is dispatched
      rw [if_neg hicmp] at h
      split_ifs at h
      all_goals first
        | exact absurd rfl h
        | exact absurd (handleUdp_sent _ _ _ _ _) h
  · rintro ⟨hr, hreq⟩
    unfold handleIpv4
    dsimp only
    rw [if_neg (Nat.not_lt.mpr hr.header), if_neg (not_not_intro hr.version),
      if_neg (not_not_intro hr.headerLen), if_neg (not_not_intro hr.checksum),
      if_neg (Nat.not_lt.mpr hr.whole), if_neg (Nat.not_lt.mpr hr.total), hr.toMe, hr.ready,
      if_neg (by decide), if_neg (fun h => absurd h.1 (by decide)), if_pos hr.nextHeader,
      wrap16_of_lt (Nat.lt_of_le_of_lt hr.whole hlen)]
    exact handleIcmpv4_sends.mpr hreq

/-- A neighbour solicitation for this host, as `handle_ndp` checks it. -/
structure NdpAsks (net : NetState) (fr : Frame) : Prop where
  len : 14 + 40 + 8 + 16 ≤ fr.len
  hopLimit : getLe fr.bytes 21 1 = ndpHopLimit
  code : getLe fr.bytes 55 1 = 0
  type : getLe fr.bytes 54 1 ≠ icmpv6TypeNa
  target : loadIpv6 fr.bytes 62 = net.ifinfo.ipv6

theorem handleNdp_sends : (handleNdp net fr).sent ≠ [] ↔ NdpAsks net fr := by
  unfold handleNdp
  dsimp only
  rw [sends_unless, sends_unless, sends_unless, not_lt, not_not, not_not]
  by_cases hadv : getLe fr.bytes 54 1 = icmpv6TypeNa
  · rw [if_neg (not_not_intro hadv)]
    refine ⟨fun h => absurd ?_ h.2.2.2, fun h => absurd hadv h.type⟩
    split
    · split_ifs
      all_goals rfl
    · rfl
  · rw [if_pos hadv]
    have hreply : ∀ net' : NetState, ∃ fr', (if loadIpv6 fr.bytes 22 ≠ ipv6Unspecified then
        ipMakeNdp net' fr 4096 (loadIpv6 fr.bytes 22) (loadMac fr.bytes 6) true true
          (icmpv6FlagsS ||| icmpv6FlagsO)
        else ipMakeNdp net' fr 4096 ipv6Unspecified (-1) true false icmpv6FlagsO) = .ok fr' := by
      intro net'
      split_ifs
      · exact ipMakeNdp_ok _ _ _ _ _ _ _ (by decide)
      · exact ipMakeNdp_ok _ _ _ _ _ _ _ (by decide)
    -- whether the option is stored does not matter to the reply
    have hsends : (14 + 40 + 8 + 16 ≤ fr.len ∧ getLe fr.bytes 21 1 = ndpHopLimit ∧ getLe fr.bytes 55 1 = 0 ∧
        loadIpv6 fr.bytes 62 = net.ifinfo.ipv6) ↔ NdpAsks net fr := by
      constructor
      · rintro ⟨hlen, hhop, hcode, htarget⟩
        exact ⟨hlen, hhop, hcode, hadv, htarget⟩
      · exact fun h => ⟨h.len, h.hopLimit, h.code, h.target⟩
    cases ndpOptionMac fr (decide (getLe fr.bytes 54 1 = icmpv6TypeNa)) with
    | none =>
      dsimp only
      obtain ⟨fr', hfr⟩ := hreply net
      rw [hfr, sends_if]
      exact hsends
    | some optionMac =>
      dsimp only
      generalize (if loadIpv6 fr.bytes 22 ≠ ipv6Unspecified then
        ipUpdateMac net (loadIpv6 fr.bytes 22) optionMac else net) = net'
      obtain ⟨fr', hfr⟩ := hreply net'
      rw [hfr, sends_if]
      exact hsends

/-- What `handle_icmpv6` checks of a message before it calls `handle_ndp`. -/
structure NdpReceived (fr : Frame) : Prop where
  sum : ipv6L4Checksum fr.bytes 14 = 0
  type : getLe fr.bytes 54 1 = icmpv6TypeNs

theorem handleIcmpv6_sends : (handleIcmpv6 net fr).sent ≠ [] ↔
    getLe fr.bytes 54 1 = icmpv6TypeEchoRequest ∧ Icmpv6EchoRequest fr ∨ NdpReceived fr ∧ NdpAsks net fr := by
  have hns : icmpv6TypeEchoRequest ≠ icmpv6TypeNs := by decide
  have hna : icmpv6TypeEchoRequest ≠ icmpv6TypeNa := by decide
  have hcode : (doIcmpv6Echo net fr).sent ≠ [] ↔ getLe fr.bytes 55 1 = 0 := by
    unfold doIcmpv6Echo
    dsimp only
    rw [sends_unless, not_not]
    exact and_iff_left (List.cons_ne_nil _ _)
  unfold handleIcmpv6
  dsimp only
  rw [sends_unless, sends_unless, not_lt, not_not]
  by_cases hndp : getLe fr.bytes 54 1 = icmpv6TypeNs ∨ getLe fr.bytes 54 1 = icmpv6TypeNa
  · rw [if_pos hndp, handleNdp_sends]
    constructor
    · rintro ⟨-, hsum, hask⟩
      exact .inr ⟨⟨hsum, hndp.resolve_right hask.type⟩, hask⟩
    · rintro (⟨hecho, -⟩ | ⟨hreceived, hask⟩)
      · rw [hecho] at hndp
        exact absurd hndp (not_or.mpr ⟨hns, hna⟩)
      · have hlen := hask.len
        exact ⟨by omega, hreceived.sum, hask⟩
  rw [if_neg hndp]
  by_cases hecho : getLe fr.bytes 54 1 = icmpv6TypeEchoRequest
  · rw [if_pos hecho, hcode]
    constructor
    · rintro ⟨hlen, hsum, hzero⟩
      exact .inl ⟨hecho, hlen, hsum, hzero⟩
    · rintro (⟨-, hreq⟩ | ⟨hreceived, -⟩)
      · exact ⟨hreq.len, hreq.sum, hreq.code⟩
      · exact absurd (.inl hreceived.type) hndp
  · rw [if_neg hecho]
    constructor
    · exact fun h => absurd rfl h.2.2
    · rintro (⟨htype, -⟩ | ⟨hreceived, -⟩)
      · exact absurd htype hecho
      · exact absurd (.inl hreceived.type) hndp

theorem handleIpv6_sends (hlen : fr.len < 2 ^ 16) : (handleIpv6 net fr).sent ≠ [] ↔
    Icmpv6Received net fr ∧ (handleIcmpv6 net ⟨54 + ntohs (getLe fr.bytes 18 2), fr.bytes⟩).sent ≠ [] := by
  constructor
  · intro h
    obtain hnil | ⟨b, hb⟩ := (handleIpv6_outcome net fr).sent_cases
    · exact absurd hnil h
    · obtain ⟨hreceived, hsent⟩ := handleIpv6_sent hlen hb
      exact ⟨hreceived, by rw [hsent]; exact List.cons_ne_nil _ _⟩
  · rintro ⟨hreceived, hsent⟩
    rwa [hreceived.handled hlen]

/-! ## The frame -/

/-- A frame that `handle_frame` answers: an ARP request for this host, an echo request it accepts,
or a neighbour solicitation for it. -/
inductive Asks (net : NetState) (fr : Frame) : Prop where
  | arp (type : getLe fr.bytes 12 2 = ethTypeArp) (request : ArpAsks net fr)
  | echo (type : getLe fr.bytes 12 2 = ethTypeIpv4) (received : Icmpv4Received net fr)
      (request : EchoRequest ⟨14 + ntohs (getLe fr.bytes 16 2), fr.bytes⟩)
  | echo6 (type : getLe fr.bytes 12 2 = ethTypeIpv6) (accepted : Icmpv6EchoAccepted net fr)
  | solicitation (type : getLe fr.bytes 12 2 = ethTypeIpv6) (received : Icmpv6Received net fr)
      (message : NdpReceived ⟨54 + ntohs (getLe fr.bytes 18 2), fr.bytes⟩)
      (request : NdpAsks net ⟨54 + ntohs (getLe fr.bytes 18 2), fr.bytes⟩)

/-- The frame comes to this interface or to a group. -/
def ToMe (net : NetState) (fr : Frame) : Prop :=
  getLe fr.bytes 0 1 &&& 1 ≠ 0 ∨ bytesAt fr.bytes 0 6 = leBytes 6 net.ifinfo.mac.toNat

theorem handleFrame_sends (hlen : fr.len < 2 ^ 16) :
    (handleFrame net fr).sent ≠ [] ↔ ToMe net fr ∧ Asks net fr := by
  have h46 : ethTypeIpv6 ≠ ethTypeIpv4 := by decide
  have h4a : ethTypeIpv4 ≠ ethTypeArp := by decide
  have h6a : ethTypeIpv6 ≠ ethTypeArp := by decide
  unfold handleFrame
  dsimp only
  rw [sends_unless, not_not]
  refine and_congr_right fun _ => ?_
  by_cases harp : getLe fr.bytes 12 2 = ethTypeArp
  · rw [if_pos harp, handleArp_sends]
    refine ⟨.arp harp, fun h => ?_⟩
    cases h with
    | arp _ request => exact request
    | echo type => exact absurd (type.symm.trans harp) h4a
    | echo6 type | solicitation type => exact absurd (type.symm.trans harp) h6a
  rw [if_neg harp]
  by_cases h4 : getLe fr.bytes 12 2 = ethTypeIpv4
  · rw [if_pos h4, handleIpv4_sends hlen]
    refine ⟨fun h => .echo h4 h.1 h.2, fun h => ?_⟩
    cases h with
    | arp type => exact absurd type harp
    | echo _ received request => exact ⟨received, request⟩
    | echo6 type | solicitation type => exact absurd (type.symm.trans h4) h46
  rw [if_neg h4]
  by_cases h6 : getLe fr.bytes 12 2 = ethTypeIpv6
  · rw [if_pos h6, handleIpv6_sends hlen, handleIcmpv6_sends]
    constructor
    · rintro ⟨hreceived, ⟨htype, hreq⟩ | ⟨hmessage, hask⟩⟩
      · exact .echo6 h6 ⟨hreceived, htype, hreq⟩
      · exact .solicitation h6 hreceived hmessage hask
    · intro h
      cases h with
      | arp type => exact absurd type harp
      | echo type => exact absurd type h4
      | echo6 _ accepted => exact ⟨accepted.toIcmpv6Received, .inl ⟨accepted.type, accepted.request⟩⟩
      | solicitation _ received message request => exact ⟨received, .inr ⟨message, request⟩⟩
  · rw [if_neg h6]
    refine ⟨fun h => absurd rfl h, fun h => ?_⟩
    cases h with
    | arp type => exact absurd type harp
    | echo type => exact absurd type h4
    | echo6 type | solicitation type => exact absurd type h6

end Asks

/-! ## Datagrams -/

/-- `ip_send` always sends: the frame, or the question for a MAC address. -/
theorem ipSend_sends (net : NetState) (fr : Frame) (nexthop : Ipv6Addr) : (ipSend net fr nexthop).sent ≠ [] := by
  unfold ipSend
  cases ipQueryMac net nexthop with
  | ok mac => exact List.cons_ne_nil _ _
  | error _ =>
    dsimp only
    by_cases h4 : isIpv4 nexthop = true
    · rw [if_pos h4, arpMakeRequest, if_neg (by decide)]
      exact List.cons_ne_nil _ _
    · obtain ⟨request, hrequest⟩ := ipMakeNdp_ok net fr nexthop (-1) false false 0 (by decide : 88 ≤ 4096)
      rw [if_neg h4, hrequest]
      exact List.cons_ne_nil _ _

theorem sendUdp_sends (net : NetState) (buff : Mem) (sport : Port) (daddr : Ipv6Addr) (dport : Port)
    (payload : List Byte) :
    (sendUdp net buff sport daddr dport payload).sent ≠ [] ↔ 16 + 20 + 8 + payload.length ≤ 4096 := by
  unfold sendUdp
  rw [sends_unless, not_lt]
  exact and_iff_left (ipSend_sends _ _ _)

end VijosOS
