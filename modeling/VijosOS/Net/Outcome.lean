import VijosOS.Net.SendUdp

/-!
# What a handler does

A received frame is answered by one frame, handed to `task_dispatch_udp` once, or neither;
the interface keeps its addresses, and only the two MAC entries change.
-/

namespace VijosOS

open Library

structure FrameResult.Outcome (net : NetState) (r : FrameResult) : Prop where
  ifinfo : r.net.ifinfo = net.ifinfo
  ipReady : r.net.ipReady = net.ipReady
  single : r.sent.length + r.dispatched.length ≤ 1
  short : ∀ b ∈ r.sent, b.length < 2 ^ 16

namespace FrameResult

variable {net net' : NetState} {r : FrameResult}

theorem Outcome.drop (net : NetState) (ret : Int) : Outcome net (.drop net ret) :=
  ⟨rfl, rfl, Nat.zero_le _, nofun⟩

theorem Outcome.send (net : NetState) {fr : Frame} (h : fr.len < 2 ^ 16) : Outcome net (.send net fr) := by
  refine ⟨rfl, rfl, Nat.le_refl _, fun b hb => ?_⟩
  rw [List.mem_singleton.mp hb, bytesAt_length]
  exact h

/-- At most one frame is sent. -/
theorem Outcome.sent_cases (h : Outcome net r) : r.sent = [] ∨ ∃ b, r.sent = [b] := by
  have hsingle := h.single
  cases hsent : r.sent with
  | nil => exact .inl rfl
  | cons b bs =>
    rw [hsent, List.length_cons] at hsingle
    have hnil : bs = [] := List.eq_nil_of_length_eq_zero (by omega)
    exact .inr ⟨b, by rw [hnil]⟩

theorem Outcome.of_net (h : Outcome net' r) (hifinfo : net'.ifinfo = net.ifinfo)
    (hready : net'.ipReady = net.ipReady) : Outcome net r :=
  ⟨h.ifinfo.trans hifinfo, h.ipReady.trans hready, h.single, h.short⟩

theorem Outcome.ite {c : Prop} [Decidable c] {r' : FrameResult} (h : Outcome net r) (h' : Outcome net r') :
    Outcome net (if c then r else r') := by
  split_ifs
  · exact h
  · exact h'

/-- A reply is sent when it could be built. -/
theorem Outcome.reply (reply : Except Int Frame) : (∀ fr, reply = .ok fr → fr.len < 2 ^ 16) →
    Outcome net (match reply with
      | .ok fr => .send net fr
      | .error _ => .drop net 0) := by
  intro hlen
  cases reply with
  | ok fr => exact .send net (hlen fr rfl)
  | error _ => exact .drop net 0

end FrameResult

open FrameResult

theorem ipUpdateMac_keeps (net : NetState) (addr : Ipv6Addr) (mac : Mac) :
    (ipUpdateMac net addr mac).ifinfo = net.ifinfo ∧ (ipUpdateMac net addr mac).ipReady = net.ipReady := by
  unfold ipUpdateMac
  dsimp only
  split_ifs
  all_goals exact ⟨rfl, rfl⟩

theorem ipUpdateMac_entries (net : NetState) (addr : Ipv6Addr) (mac : Mac) :
    (ipUpdateMac net addr mac).serverIp = net.serverIp ∧
      (ipUpdateMac net addr mac).serverMac = (if addr = net.serverIp then mac else net.serverMac) ∧
      (ipUpdateMac net addr mac).dhcpServerIp = net.dhcpServerIp ∧
      (ipUpdateMac net addr mac).dhcpServerMac = if addr = net.dhcpServerIp then mac else net.dhcpServerMac := by
  unfold ipUpdateMac
  by_cases hserver : addr = net.serverIp
  · by_cases hdhcp : addr = net.dhcpServerIp
    · simp [← hserver, ← hdhcp]
    · simp [← hserver, hdhcp]
  · by_cases hdhcp : addr = net.dhcpServerIp
    · simp [hserver, ← hdhcp]
    · simp [hserver, hdhcp]

theorem ipQueryMac_ipUpdateMac (net : NetState) {addr : Ipv6Addr} {mac : Mac} (hmac : mac ≠ macBroadcast)
    (haddr : addr = net.serverIp ∨ addr = net.dhcpServerIp) :
    ipQueryMac (ipUpdateMac net addr mac) addr = .ok mac := by
  unfold ipQueryMac ipUpdateMac
  by_cases hserver : addr = net.serverIp
  · by_cases hdhcp : addr = net.dhcpServerIp
    · simp [← hserver, ← hdhcp, hmac]
    · simp [← hserver, hdhcp, hmac]
  · have hdhcp := haddr.resolve_left hserver
    simp [hserver, ← hdhcp, hmac]

theorem learn_keeps (c : Prop) [Decidable c] (net : NetState) (addr : Ipv6Addr) (mac : Mac) :
    (if c then ipUpdateMac net addr mac else net).ifinfo = net.ifinfo ∧
      (if c then ipUpdateMac net addr mac else net).ipReady = net.ipReady := by
  split_ifs
  · exact ipUpdateMac_keeps net addr mac
  · exact ⟨rfl, rfl⟩

theorem wrap16_lt (x : Nat) : wrap16 x < 2 ^ 16 := Nat.mod_lt _ (by decide)

theorem handleArp_outcome (net : NetState) (fr : Frame) : Outcome net (handleArp net fr) := by
  obtain ⟨hifinfo, hready⟩ := learn_keeps (loadIpv4 fr.bytes 28 ≠ ipv4Unspecified) net
    (ipv4Compatible (loadIpv4 fr.bytes 28)) (loadMac fr.bytes 22)
  unfold handleArp
  refine .ite (.drop _ _) (.ite (.drop _ _) (.ite (.drop _ _) ?_))
  exact (Outcome.ite (.send _ (by norm_num)) (.drop _ 0)).of_net hifinfo hready

theorem doIcmpv4Echo_outcome (net : NetState) (fr : Frame) : Outcome net (doIcmpv4Echo net fr) := by
  unfold doIcmpv4Echo
  exact .ite (.drop _ _) (.send net (wrap16_lt _))

theorem handleIcmpv4_outcome (net : NetState) (fr : Frame) : Outcome net (handleIcmpv4 net fr) := by
  unfold handleIcmpv4
  exact .ite (.drop _ _) (.ite (.drop _ _) (.ite (doIcmpv4Echo_outcome net fr) (.drop _ _)))

theorem handleUdp_outcome (net : NetState) (m : Mem) (saddr : Ipv6Addr) (udp len : Nat) :
    Outcome net (handleUdp net m saddr udp len) := by
  unfold handleUdp
  exact .ite (.drop _ _) (.ite (.drop _ _) (.ite (.drop _ _) ⟨rfl, rfl, Nat.le_refl _, nofun⟩))

theorem handleIpv4_outcome (net : NetState) (fr : Frame) : Outcome net (handleIpv4 net fr) := by
  unfold handleIpv4
  refine .ite (.drop _ _) (.ite (.drop _ _) (.ite (.drop _ _) (.ite (.drop _ _) ?_)))
  refine .ite (.drop _ _) (.ite (.drop _ _) (.ite (.drop _ _) (.ite (.drop _ _) ?_)))
  refine .ite (handleIcmpv4_outcome net _) (.ite ?_ (.drop _ _))
  exact .ite (.drop _ _) (.ite (.drop _ _) (handleUdp_outcome ..))

theorem ipMakeNdp_len {net : NetState} {fr fr' : Frame} {buflen : Nat} {addr : Ipv6Addr} {mac : Mac}
    {adv unicast : Bool} {flags : Nat} (h : ipMakeNdp net fr buflen addr mac adv unicast flags = .ok fr') :
    fr'.len = 86 := by
  unfold ipMakeNdp at h
  by_cases hlen : buflen < 16 + 40 + 8 + 16 + 8
  · rw [if_pos hlen] at h
    cases h
  · rw [if_neg hlen] at h
    cases h
    rfl

theorem arpMakeRequest_len {net : NetState} {fr fr' : Frame} {buflen : Nat} {ip : Ipv4Addr} {mac : Mac}
    (h : arpMakeRequest net fr buflen ip mac = .ok fr') : fr'.len = 42 := by
  unfold arpMakeRequest at h
  by_cases hlen : buflen < 16 + 28
  · rw [if_pos hlen] at h
    cases h
  · rw [if_neg hlen] at h
    cases h
    rfl

/-- The answer to a solicitation. -/
theorem ndpAnswer_len {net : NetState} {fr fr' : Frame} {c : Prop} [Decidable c] {addr : Ipv6Addr} {mac : Mac}
    (h : (if c then ipMakeNdp net fr 4096 addr mac true true (icmpv6FlagsS ||| icmpv6FlagsO)
      else ipMakeNdp net fr 4096 ipv6Unspecified (-1) true false icmpv6FlagsO) = .ok fr') : fr'.len < 2 ^ 16 := by
  have h86 : fr'.len = 86 := by
    split_ifs at h
    · exact ipMakeNdp_len h
    · exact ipMakeNdp_len h
  rw [h86]
  norm_num

theorem handleNdp_outcome (net : NetState) (fr : Frame) : Outcome net (handleNdp net fr) := by
  unfold handleNdp
  refine .ite (.drop _ _) (.ite (.drop _ _) (.ite (.drop _ _) (.ite ?_ ?_)))
  · -- A solicitation: the sender is learnt, then perhaps answered.
    cases ndpOptionMac fr (decide (getLe fr.bytes 54 1 = icmpv6TypeNa)) with
    | none =>
      dsimp only
      generalize hreply : (if loadIpv6 fr.bytes 22 ≠ ipv6Unspecified then
          ipMakeNdp net fr 4096 (loadIpv6 fr.bytes 22) (loadMac fr.bytes 6) true true
            (icmpv6FlagsS ||| icmpv6FlagsO)
        else ipMakeNdp net fr 4096 ipv6Unspecified (-1) true false icmpv6FlagsO) = reply
      exact .ite (.reply reply fun _ h => ndpAnswer_len (hreply.trans h)) (.drop net 0)
    | some optionMac =>
      obtain ⟨hifinfo, hready⟩ := learn_keeps (loadIpv6 fr.bytes 22 ≠ ipv6Unspecified) net
        (loadIpv6 fr.bytes 22) optionMac
      dsimp only
      generalize (if loadIpv6 fr.bytes 22 ≠ ipv6Unspecified then
          ipUpdateMac net (loadIpv6 fr.bytes 22) optionMac else net) = net' at hifinfo hready ⊢
      generalize hreply : (if loadIpv6 fr.bytes 22 ≠ ipv6Unspecified then
          ipMakeNdp net' fr 4096 (loadIpv6 fr.bytes 22) (loadMac fr.bytes 6) true true
            (icmpv6FlagsS ||| icmpv6FlagsO)
        else ipMakeNdp net' fr 4096 ipv6Unspecified (-1) true false icmpv6FlagsO) = reply
      exact (Outcome.ite (.reply reply fun _ h => ndpAnswer_len (hreply.trans h)) (.drop net' 0)).of_net hifinfo hready
  · split
    · next optionMac _ =>
      obtain ⟨hifinfo, hready⟩ := ipUpdateMac_keeps net (loadIpv6 fr.bytes 62) optionMac
      exact .ite ((Outcome.drop _ 0).of_net hifinfo hready) (.drop _ _)
    · exact .drop _ _

theorem doIcmpv6Echo_outcome (net : NetState) (fr : Frame) : Outcome net (doIcmpv6Echo net fr) := by
  unfold doIcmpv6Echo
  exact .ite (.drop _ _) (.send net (wrap16_lt _))

theorem handleIcmpv6_outcome (net : NetState) (fr : Frame) : Outcome net (handleIcmpv6 net fr) := by
  unfold handleIcmpv6
  refine .ite (.drop _ _) (.ite (.drop _ _) ?_)
  exact .ite (handleNdp_outcome net fr) (.ite (doIcmpv6Echo_outcome net fr) (.drop _ _))

theorem handleIpv6_outcome (net : NetState) (fr : Frame) : Outcome net (handleIpv6 net fr) := by
  unfold handleIpv6
  refine .ite (.drop _ _) (.ite (.drop _ _) (.ite (.drop _ _) (.ite (.drop _ _) ?_)))
  refine .ite (handleIcmpv6_outcome net _) (.ite ?_ (.drop _ _))
  exact .ite (.drop _ _) (handleUdp_outcome ..)

theorem handleFrame_outcome (net : NetState) (fr : Frame) : Outcome net (handleFrame net fr) := by
  unfold handleFrame
  refine .ite (.drop _ _) (.ite (handleArp_outcome net fr) ?_)
  exact .ite (handleIpv4_outcome net fr) (.ite (handleIpv6_outcome net fr) (.drop _ _))

theorem sendUdp_outcome (net : NetState) (buff : Mem) (sport : Port) (daddr : Ipv6Addr) (dport : Port)
    (payload : List Byte) : Outcome net (sendUdp net buff sport daddr dport payload) := by
  unfold sendUdp
  by_cases hlen : 4096 < 16 + 20 + 8 + payload.length
  · rw [if_pos hlen]
    exact .drop _ _
  · rw [if_neg hlen]
    unfold ipSend
    split
    · refine .send net ?_
      dsimp only [udpFrame]
      omega
    · dsimp only
      split
      · next fr hfr =>
        refine .send net ?_
        split_ifs at hfr
        · rw [arpMakeRequest_len hfr]
          norm_num
        · rw [ipMakeNdp_len hfr]
          norm_num
      · exact .drop _ _

end VijosOS
