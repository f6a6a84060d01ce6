import VijosOS.Host.Reception

/-!
# Where MAC addresses come from

The host keeps the MAC addresses of its server and of its DHCP server. In every run each of them
is still unknown or was announced, for the address it is kept for, by a frame that was received.
-/

namespace VijosOS

open Library

/-- The frame says that the host with address `addr` is at `mac`: in the sender pair of an ARP packet, in
the source option of a solicitation or in the target option of an advertisement. -/
inductive Announces (fr : Frame) (addr : Ipv6Addr) (mac : Mac) : Prop where
  | arp (full : 42 ≤ fr.len) (type : getLe fr.bytes 12 2 = ethTypeArp)
      (format : getLe fr.bytes 14 2 = arpHtypeEthernet ∧ getLe fr.bytes 16 2 = arpPtypeIpv4 ∧
        getLe fr.bytes 18 1 = 6 ∧ getLe fr.bytes 19 1 = 4)
      (sender : addr = ipv4Compatible (loadIpv4 fr.bytes 28)) (hmac : mac = loadMac fr.bytes 22)
  | solicitation (full : 86 ≤ fr.len) (type : getLe fr.bytes 12 2 = ethTypeIpv6)
      (kind : getLe fr.bytes 54 1 = icmpv6TypeNs)
      (option : getLe fr.bytes 78 1 = icmpv6OptionTypeSource ∧ getLe fr.bytes 79 1 = 1)
      (sender : addr = loadIpv6 fr.bytes 22) (hmac : mac = loadMac fr.bytes 80)
  | advertisement (full : 86 ≤ fr.len) (type : getLe fr.bytes 12 2 = ethTypeIpv6)
      (kind : getLe fr.bytes 54 1 = icmpv6TypeNa)
      (flags : getLe fr.bytes 58 4 &&& (icmpv6FlagsS ||| icmpv6FlagsO) ≠ 0)
      (option : getLe fr.bytes 78 1 = icmpv6OptionTypeTarget ∧ getLe fr.bytes 79 1 = 1)
      (target : addr = loadIpv6 fr.bytes 62) (hmac : mac = loadMac fr.bytes 80)

/-- The handler keeps the MAC entries, or updates them with what the frame announces. -/
inductive Learns (net : NetState) (fr : Frame) (net' : NetState) : Prop where
  | same (h : net' = net)
  | learnt (addr : Ipv6Addr) (mac : Mac) (announced : Announces fr addr mac) (h : net' = ipUpdateMac net addr mac)

section Handlers

variable {net : NetState} {fr : Frame}

theorem Learns.ite {c : Prop} [Decidable c] {r r' : FrameResult} (h : c → Learns net fr r.net)
    (h' : ¬ c → Learns net fr r'.net) : Learns net fr (if c then r else r').net := by
  by_cases hc : c
  · rw [if_pos hc]
    exact h hc
  · rw [if_neg hc]
    exact h' hc

theorem drop_net (net : NetState) (ret : Int) : (FrameResult.drop net ret).net = net := rfl

theorem Learns.drop (ret : Int) : Learns net fr (FrameResult.drop net ret).net := .same rfl

theorem handleArp_learns (htype : getLe fr.bytes 12 2 = ethTypeArp) : Learns net fr (handleArp net fr).net := by
  unfold handleArp
  refine .ite (fun _ => .drop _) fun hlen => .ite (fun _ => .drop _) fun hformat => .ite (fun _ => .drop _) fun _ => ?_
  have hlearnt : Learns net fr (if loadIpv4 fr.bytes 28 ≠ ipv4Unspecified then
      ipUpdateMac net (ipv4Compatible (loadIpv4 fr.bytes 28)) (loadMac fr.bytes 22) else net) := by
    split_ifs
    · exact .learnt _ _ (.arp (by omega) htype (not_not.mp hformat) rfl rfl) rfl
    · exact .same rfl
  dsimp only
  exact .ite (fun _ => hlearnt) fun _ => hlearnt

theorem Learns.iteSame {c : Prop} [Decidable c] {r r' : FrameResult} (h : Learns net fr r.net)
    (h' : Learns net fr r'.net) : Learns net fr (if c then r else r').net := .ite (fun _ => h) fun _ => h'

theorem handleUdp_learns (m : Mem) (saddr : Ipv6Addr) (udp len : Nat) :
    Learns net fr (handleUdp net m saddr udp len).net := by
  unfold handleUdp
  exact .iteSame (.drop _) (.iteSame (.drop _) (.iteSame (.drop _) (.same rfl)))

theorem handleIcmpv4_learns (fr' : Frame) : Learns net fr (handleIcmpv4 net fr').net := by
  unfold handleIcmpv4 doIcmpv4Echo
  exact .iteSame (.drop _) (.iteSame (.drop _) (.iteSame (.iteSame (.drop _) (.same rfl)) (.drop _)))

theorem handleIpv4_learns : Learns net fr (handleIpv4 net fr).net := by
  unfold handleIpv4
  refine .iteSame (.drop _) (.iteSame (.drop _) (.iteSame (.drop _) (.iteSame (.drop _) ?_)))
  refine .iteSame (.drop _) (.iteSame (.drop _) (.iteSame (.drop _) (.iteSame (.drop _) ?_)))
  refine .iteSame (handleIcmpv4_learns _) (.iteSame ?_ (.drop _))
  exact .iteSame (.drop _) (.iteSame (.drop _) (handleUdp_learns ..))

theorem ndpOptionMac_some {adv : Bool} {mac : Mac} (h : ndpOptionMac fr adv = some mac) :
    86 ≤ fr.len ∧ (getLe fr.bytes 78 1 = (if !adv then icmpv6OptionTypeSource else icmpv6OptionTypeTarget) ∧
      getLe fr.bytes 79 1 = 1) ∧ mac = loadMac fr.bytes 80 := by
  unfold ndpOptionMac at h
  obtain ⟨⟨hfull, hlen, htype⟩, hmac⟩ := Option.ite_none_right_eq_some.mp h
  exact ⟨hfull, ⟨htype, hlen⟩, (Option.some.inj hmac).symm⟩

/-- Whether the reply can be built does not change what was learnt. -/
theorem Learns.reply {net' : NetState} (reply : Except Int Frame) (h : Learns net fr net') :
    Learns net fr (match reply with
      | .ok fr => FrameResult.send net' fr
      | .error _ => .drop net' 0).net := by
  cases reply with
  | ok fr => exact h
  | error _ => exact h

theorem handleNdp_learns (htype : getLe fr.bytes 12 2 = ethTypeIpv6)
    (hkind : getLe fr.bytes 54 1 = icmpv6TypeNs ∨ getLe fr.bytes 54 1 = icmpv6TypeNa) :
    Learns net fr (handleNdp net fr).net := by
  unfold handleNdp
  refine .iteSame (.drop _) (.iteSame (.drop _) (.iteSame (.drop _) ?_))
  dsimp only
  refine .ite (fun hadv => ?_) fun hadv => ?_
  · -- A solicitation: its sender is learnt, whatever is sent in reply.
    cases hoption : ndpOptionMac fr (decide (getLe fr.bytes 54 1 = icmpv6TypeNa)) with
    | none =>
      dsimp only
      generalize (if loadIpv6 fr.bytes 22 ≠ ipv6Unspecified then
          ipMakeNdp net fr 4096 (loadIpv6 fr.bytes 22) (loadMac fr.bytes 6) true true
            (icmpv6FlagsS ||| icmpv6FlagsO)
        else ipMakeNdp net fr 4096 ipv6Unspecified (-1) true false icmpv6FlagsO) = reply
      exact .iteSame (.reply reply (.same rfl)) (.drop _)
    | some optionMac =>
      obtain ⟨hfull, hbytes, hmac⟩ := ndpOptionMac_some hoption
      rw [decide_eq_false hadv] at hbytes
      have hlearnt : Learns net fr (if loadIpv6 fr.bytes 22 ≠ ipv6Unspecified then
          ipUpdateMac net (loadIpv6 fr.bytes 22) optionMac else net) := by
        split_ifs
        · exact .learnt _ _ (.solicitation hfull htype (hkind.resolve_right hadv) hbytes rfl hmac) rfl
        · exact .same rfl
      dsimp only
      generalize (if loadIpv6 fr.bytes 22 ≠ ipv6Unspecified then
        ipUpdateMac net (loadIpv6 fr.bytes 22) optionMac else net) = net' at hlearnt ⊢
      generalize (if loadIpv6 fr.bytes 22 ≠ ipv6Unspecified then
          ipMakeNdp net' fr 4096 (loadIpv6 fr.bytes 22) (loadMac fr.bytes 6) true true
            (icmpv6FlagsS ||| icmpv6FlagsO)
        else ipMakeNdp net' fr 4096 ipv6Unspecified (-1) true false icmpv6FlagsO) = reply
      exact .iteSame (.reply reply hlearnt) hlearnt
  · split
    · next optionMac hoption =>
      obtain ⟨hfull, hbytes, hmac⟩ := ndpOptionMac_some hoption
      rw [decide_eq_true (not_not.mp hadv)] at hbytes
      refine .ite (fun hflags => ?_) fun _ => .drop _
      exact .learnt _ _ (.advertisement hfull htype (not_not.mp hadv) hflags hbytes rfl hmac) (drop_net _ _)
    · exact .drop _

/-- What the shorter frame announces, the whole one does. -/
theorem Announces.of_len {n : Nat} {addr : Ipv6Addr} {mac : Mac} (h : Announces ⟨n, fr.bytes⟩ addr mac)
    (hn : n ≤ fr.len) : Announces fr addr mac := by
  cases h with
  | arp full type format sender hmac => exact .arp (full.trans hn) type format sender hmac
  | solicitation full type kind option sender hmac =>
    exact .solicitation (full.trans hn) type kind option sender hmac
  | advertisement full type kind flags option target hmac =>
    exact .advertisement (full.trans hn) type kind flags option target hmac

theorem Learns.of_len {n : Nat} {net' : NetState} (h : Learns net ⟨n, fr.bytes⟩ net') (hn : n ≤ fr.len) :
    Learns net fr net' := by
  cases h with
  | same h => exact .same h
  | learnt addr mac announced h => exact .learnt addr mac (announced.of_len hn) h

theorem handleIcmpv6_learns (htype : getLe fr.bytes 12 2 = ethTypeIpv6) : Learns net fr (handleIcmpv6 net fr).net := by
  unfold handleIcmpv6 doIcmpv6Echo
  refine .iteSame (.drop _) (.iteSame (.drop _) ?_)
  refine .ite (fun hkind => handleNdp_learns htype hkind) fun _ => ?_
  exact .iteSame (.iteSame (.drop _) (.same rfl)) (.drop _)

theorem handleIpv6_learns (hlen : fr.len < 2 ^ 16) (htype : getLe fr.bytes 12 2 = ethTypeIpv6) :
    Learns net fr (handleIpv6 net fr).net := by
  unfold handleIpv6
  refine .iteSame (.drop _) (.iteSame (.drop _) (.ite (fun _ => .drop _) fun hfit => (.iteSame (.drop _) ?_)))
  dsimp only at hfit ⊢
  have hwrap : wrap16 (14 + 40 + ntohs (getLe fr.bytes 18 2)) ≤ fr.len := by
    rw [wrap16_of_lt (by omega)]
    omega
  refine .iteSame ?_ (.iteSame ?_ (.drop _))
  · have hicmp : Learns net ⟨wrap16 (14 + 40 + ntohs (getLe fr.bytes 18 2)), fr.bytes⟩
        (handleIcmpv6 net ⟨wrap16 (14 + 40 + ntohs (getLe fr.bytes 18 2)), fr.bytes⟩).net := handleIcmpv6_learns htype
    exact hicmp.of_len hwrap
  · exact .iteSame (.drop _) (handleUdp_learns ..)

theorem handleFrame_learns (hlen : fr.len < 2 ^ 16) : Learns net fr (handleFrame net fr).net := by
  unfold handleFrame
  refine .iteSame (.drop _) ?_
  refine .ite (fun htype => handleArp_learns htype) fun _ => ?_
  refine .iteSame handleIpv4_learns ?_
  exact .ite (fun htype => handleIpv6_learns hlen htype) fun _ => .drop _

end Handlers

/-- What a frame announces does not depend on the bytes after it. -/
theorem Announces.carries {fr fr' : Frame} {f : List Byte} {addr : Ipv6Addr} {mac : Mac} (h : Announces fr addr mac)
    (hfr : Carries fr f) (hfr' : Carries fr' f) : Announces fr' addr mac := by
  have hlen : fr'.len = fr.len := hfr'.len.trans hfr.len.symm
  have hagree : AgreeUpTo fr.len fr'.bytes fr.bytes := by
    rw [hfr.len]
    exact .of_bytesAt (hfr'.bytes.trans hfr.bytes.symm)
  cases h with
  | arp full type format sender hmac =>
    obtain ⟨hhtype, hptype, hhlen, hplen⟩ := format
    refine .arp (hlen ▸ full) ?_ ⟨?_, ?_, ?_, ?_⟩ ?_ ?_
    · rw [hagree.getLe (by omega), type]
    · rw [hagree.getLe (by omega), hhtype]
    · rw [hagree.getLe (by omega), hptype]
    · rw [hagree.getLe (by omega), hhlen]
    · rw [hagree.getLe (by omega), hplen]
    · rw [loadIpv4_congr hagree (by omega), sender]
    · rw [loadMac_congr hagree (by omega), hmac]
  | solicitation full type kind option sender hmac =>
    refine .solicitation (hlen ▸ full) ?_ ?_ ⟨?_, ?_⟩ ?_ ?_
    · rw [hagree.getLe (by omega), type]
    · rw [hagree.getLe (by omega), kind]
    · rw [hagree.getLe (by omega), option.1]
    · rw [hagree.getLe (by omega), option.2]
    · rw [loadIpv6_congr hagree (by omega), sender]
    · rw [loadMac_congr hagree (by omega), hmac]
  | advertisement full type kind flags option target hmac =>
    refine .advertisement (hlen ▸ full) ?_ ?_ ?_ ⟨?_, ?_⟩ ?_ ?_
    · rw [hagree.getLe (by omega), type]
    · rw [hagree.getLe (by omega), kind]
    · rw [hagree.getLe (by omega)]
      exact flags
    · rw [hagree.getLe (by omega), option.1]
    · rw [hagree.getLe (by omega), option.2]
    · rw [loadIpv6_congr hagree (by omega), target]
    · rw [loadMac_congr hagree (by omega), hmac]

/-! ## The steps of the host -/

namespace Host

variable {y y' : Host} {l : Label}

/-- The entries stay, but for the one of the DHCP server when the server changes. -/
structure KeepsMacs (net net' : NetState) : Prop where
  serverIp : net'.serverIp = net.serverIp
  serverMac : net'.serverMac = net.serverMac
  dhcp : net'.dhcpServerIp = net.dhcpServerIp ∧ net'.dhcpServerMac = net.dhcpServerMac ∨
    net'.dhcpServerMac = macBroadcast

theorem KeepsMacs.refl (net : NetState) : KeepsMacs net net := ⟨rfl, rfl, .inl ⟨rfl, rfl⟩⟩

theorem call_net {k : Sched.Label} (h : y.call k = some y') : y'.net = y.net := by
  obtain ⟨s, -, rfl⟩ := Option.map_eq_some_iff.mp h
  rfl

theorem transmit_net {b : Buffer} {bytes : List Byte} (h : y.transmit b bytes = some y') : y'.net = y.net := by
  rw [call_net h]
  cases b with
  | dmaBuff | udpBuff => rfl

theorem sendUdp_net {sport dport : Port} {daddr : Ipv6Addr} {payload : List Byte}
    (h : y.sendUdp sport daddr dport payload = some y') : y'.net = y.net := by
  unfold sendUdp at h
  split at h
  · exact transmit_net h
  · cases h
    rfl

theorem dhcpStep_keepsMacs (h : y.dhcpStep = some y') : KeepsMacs y.net y'.net := by
  have hsame : ∀ {y₁ : Host}, y'.net = y₁.net → y₁.net = y.net → KeepsMacs y.net y'.net := by
    intro y₁ h₁ h₂
    rw [h₁, h₂]
    exact .refl _
  unfold dhcpStep at h
  split at h
  · split_ifs at h
    · exact hsame (call_net h) rfl
    · cases h
      exact .refl _
  · exact hsame (sendUdp_net h) rfl
  · exact hsame (call_net h) rfl
  · split at h
    · split_ifs at h
      · cases h
        exact ⟨rfl, rfl, .inr rfl⟩
      · cases h
        exact .refl _
    · cases h
  · exact hsame (sendUdp_net h) rfl
  · exact hsame (call_net h) rfl
  · split at h
    · split_ifs at h
      · rw [call_net h]
        exact ⟨rfl, rfl, .inl ⟨rfl, rfl⟩⟩
      · cases h
        exact .refl _
    · cases h
  · cases h

theorem judgeStep_net {op : JudgeOp} (h : y.judgeStep op = some y') : y'.net = y.net := by
  unfold judgeStep at h
  split_ifs at h
  · cases op with
    | schedYield => exact call_net h
    | sendUdp => exact sendUdp_net h
    | recvUdp => exact call_net h
  · cases h
    rfl
  · exact call_net h

theorem ipStep_net (h : y.ipStep = some y') :
    y'.net = if y.ip = .recv then (handleFrame y.net y.frame).net else y.net := by
  have hhandled : y.handled = handleFrame y.net y.frame := rfl
  unfold ipStep at h
  cases hip : y.ip with
  | top =>
    rw [hip] at h
    rw [call_net h, if_neg (fun hc => by cases hc)]
  | recv =>
    rw [hip] at h
    dsimp only at h
    rw [hhandled] at h
    split at h
    · exact transmit_net h
    · exact call_net h
    · cases h
      rfl

/-- The MAC entries change with a frame that is handled, or are forgotten. -/
theorem step_macs (h : y.step l = some y') :
    y.handles l = [] ∧ KeepsMacs y.net y'.net ∨
      l = .ip ∧ y.ip = .recv ∧ y.sched.current = iptaskTask ∧ y'.net = (handleFrame y.net y.frame).net := by
  cases l with
  | tick cycles => exact .inl ⟨rfl, call_net h ▸ .refl _⟩
  | idle tty =>
    simp only [step] at h
    split_ifs at h
    unfold idleStep at h
    split at h
    all_goals exact .inl ⟨rfl, call_net h ▸ .refl _⟩
  | ip =>
    simp only [step] at h
    split_ifs at h with hcurrent
    have hnet := ipStep_net h
    cases hip : y.ip with
    | top =>
      rw [hip, if_neg (fun hc => by cases hc)] at hnet
      exact .inl ⟨by simp only [handles, hip], hnet ▸ .refl _⟩
    | recv =>
      rw [hip, if_pos rfl] at hnet
      exact .inr ⟨rfl, rfl, hcurrent, hnet⟩
  | dhcp =>
    simp only [step] at h
    split_ifs at h
    exact .inl ⟨rfl, dhcpStep_keepsMacs h⟩
  | judge op =>
    simp only [step] at h
    split_ifs at h
    exact .inl ⟨rfl, judgeStep_net h ▸ .refl _⟩
  | sent =>
    obtain ⟨⟨b, len⟩, -, rfl⟩ := Option.map_eq_some_iff.mp h
    exact .inl ⟨rfl, .refl _⟩
  | received frame =>
    obtain ⟨cap, -, h⟩ := Option.bind_eq_some_iff.mp h
    split_ifs at h
    cases h
    exact .inl ⟨rfl, .refl _⟩

end Host

theorem forall₂_exists {α β : Type*} {R : α → β → Prop} {xs : List α} {ys : List β}
    (h : List.Forall₂ R xs ys) {x : α} (hx : x ∈ xs) : ∃ y ∈ ys, R x y := by
  induction h with
  | nil => cases hx
  | cons hxy _ ih =>
    obtain rfl | hx := List.mem_cons.mp hx
    · exact ⟨_, List.mem_cons_self, hxy⟩
    · obtain ⟨y, hy, hR⟩ := ih hx
      exact ⟨y, List.mem_cons_of_mem _ hy, hR⟩

/-! ## Every run -/

namespace Reception

variable {r r' : Reception} {l : Host.Label}

/-- Some frame that was received announces that `addr` is at `mac`. -/
def Announced (r : Reception) (addr : Ipv6Addr) (mac : Mac) : Prop :=
  ∃ f ∈ r.received, ∀ fr, Carries fr f → Announces fr addr mac

structure MacInv (r : Reception) : Prop where
  reception : Inv r
  server : r.host.net.serverMac = macBroadcast ∨ r.Announced r.host.net.serverIp r.host.net.serverMac
  dhcp : r.host.net.dhcpServerMac = macBroadcast ∨ r.Announced r.host.net.dhcpServerIp r.host.net.dhcpServerMac

theorem boot_macInv : MacInv boot := ⟨boot_inv, .inl rfl, .inl rfl⟩

theorem Announced.step {addr : Ipv6Addr} {mac : Mac} (h : r.Announced addr mac) (hstep : r.step l = some r') :
    r'.Announced addr mac := by
  obtain ⟨y', -, rfl⟩ := Option.map_eq_some_iff.mp hstep
  obtain ⟨f, hf, hannounces⟩ := h
  exact ⟨f, List.mem_append_left _ hf, hannounces⟩

/-- The frame that the IP task handles is one of those received. -/
theorem Inv.handling (h : Inv r) (hcurrent : r.host.sched.current = Host.iptaskTask) (hip : r.host.ip = .recv) :
    ∃ f ∈ r.received, Carries r.host.frame f := by
  have hpending : r.host.pending = [r.host.frame] := by simp [Host.pending, hip, h.ipRuns hcurrent]
  have hframes := h.frames
  rw [hpending] at hframes
  exact forall₂_exists hframes (List.mem_append_right _ (List.mem_singleton_self _))

theorem step_macInv (h : MacInv r) (hstep : r.step l = some r') : MacInv r' := by
  have hinv := step_inv h.reception hstep
  have hkept : ∀ {addr mac}, r.Announced addr mac → r'.Announced addr mac := fun ha => ha.step hstep
  obtain ⟨y', hy, rfl⟩ := Option.map_eq_some_iff.mp hstep
  obtain ⟨-, hmacs⟩ | ⟨rfl, hip, hcurrent, hnet⟩ := Host.step_macs hy
  · refine ⟨hinv, ?_, ?_⟩
    · dsimp only
      rw [hmacs.serverIp, hmacs.serverMac]
      exact h.server.imp_right hkept
    · dsimp only
      obtain ⟨haddr, hmac⟩ | hforgotten := hmacs.dhcp
      · rw [haddr, hmac]
        exact h.dhcp.imp_right hkept
      · exact .inl hforgotten
  · obtain ⟨f, hf, hcarries⟩ := h.reception.handling hcurrent hip
    have hlen : r.host.frame.len < 2 ^ 16 := Nat.mod_lt _ (by norm_num)
    have hlearns : Learns r.host.net r.host.frame (handleFrame r.host.net r.host.frame).net := handleFrame_learns hlen
    cases hlearns with
    | same hsame =>
      refine ⟨hinv, ?_, ?_⟩
      · dsimp only
        rw [hnet, hsame]
        exact h.server.imp_right hkept
      · dsimp only
        rw [hnet, hsame]
        exact h.dhcp.imp_right hkept
    | learnt addr mac announced hlearnt =>
      have hnow : r.Announced addr mac := ⟨f, hf, fun fr hfr => announced.carries hcarries hfr⟩
      obtain ⟨hserverIp, hserverMac, hdhcpIp, hdhcpMac⟩ := ipUpdateMac_entries r.host.net addr mac
      refine ⟨hinv, ?_, ?_⟩
      · dsimp only
        rw [hnet, hlearnt, hserverIp, hserverMac]
        split_ifs with haddr
        · exact .inr (hkept (haddr ▸ hnow))
        · exact h.server.imp_right hkept
      · dsimp only
        rw [hnet, hlearnt, hdhcpIp, hdhcpMac]
        split_ifs with haddr
        · exact .inr (hkept (haddr ▸ hnow))
        · exact h.dhcp.imp_right hkept

/-- In every run each of the two MAC addresses the host has is one that a received frame has
announced for the address it is kept for. -/
theorem run_announced {ls : List Host.Label} (hrun : runSteps step boot ls = some r) {addr : Ipv6Addr} {mac : Mac}
    (hquery : ipQueryMac r.host.net addr = .ok mac) :
    addr = ipv4Compatible ipv4Broadcast ∧ mac = macBroadcast ∨ ∃ f ∈ r.received, ∀ fr, Carries fr f → Announces fr addr mac := by
  have hinv : MacInv r := runSteps_invariant (fun _ _ _ hr hl => step_macInv hr hl) boot_macInv hrun
  unfold ipQueryMac at hquery
  split_ifs at hquery with hserver hnone hdhcp hnone hbroadcast
  · cases hquery
    rw [hserver]
    exact .inr (hinv.server.resolve_left hnone)
  · cases hquery
    rw [hdhcp]
    exact .inr (hinv.dhcp.resolve_left hnone)
  · cases hquery
    exact .inl ⟨hbroadcast, rfl⟩

/-- A broadcast ARP request of the server for 0.0.0.0. -/
def smallServerArp : List Byte :=
  leBytes 6 0xffffffffffff ++ leBytes 6 0x010000000002 ++ leBytes 2 ethTypeArp ++ leBytes 2 arpHtypeEthernet ++
    leBytes 2 arpPtypeIpv4 ++ [6, 4] ++ leBytes 2 arpOpRequest ++ leBytes 6 0x010000000002 ++
    leBytes 4 0x3701a8c0 ++ leBytes 6 0 ++ leBytes 4 0

/-- The server is resolved by its own request. -/
def smallResolving : List Host.Label :=
  List.replicate 8 (.idle false) ++ [.ip] ++ List.replicate 7 (.idle false) ++ [.dhcp, .dhcp] ++
    [.received smallServerArp] ++ List.replicate 3 (.idle false) ++ [.ip]

theorem run_announced_small : ∃ r, runSteps step boot smallResolving = some r ∧
    ∃ f ∈ r.received, ∀ fr, Carries fr f → Announces fr (ipv4Compatible 0x3701a8c0) 0x010000000002 := by
  have hmap : (runSteps step boot smallResolving).map
      (fun r => (ipQueryMac r.host.net (ipv4Compatible 0x3701a8c0)).toOption) = some (some 0x010000000002) := by
    decide +kernel
  obtain ⟨r, hrun, hquery⟩ := Option.map_eq_some_iff.mp hmap
  have hok : ipQueryMac r.host.net (ipv4Compatible 0x3701a8c0) = .ok 0x010000000002 := by
    cases hresult : ipQueryMac r.host.net (ipv4Compatible 0x3701a8c0) with
    | ok mac =>
      rw [hresult] at hquery
      exact congrArg Except.ok (Option.some.inj hquery)
    | error e =>
      rw [hresult] at hquery
      cases hquery
  exact ⟨r, hrun, (run_announced hrun hok).resolve_left fun h => absurd h.2 (by decide)⟩

end Reception

end VijosOS
