import Mathlib.Data.List.Forall2
import VijosOS.Library.Transition
import VijosOS.Net.Icmpv4Echo
import VijosOS.Net.Icmpv6Frames
import VijosOS.Net.Outcome

/-!
# Answers

The frames that `handle_frame` sends are ARP replies, neighbour advertisements and echo replies.
Each goes back to its asker, or to all nodes when the asker has no address yet, and no host that
runs this code answers it: hosts on one wire never keep each other busy.
-/

namespace VijosOS

open Library

/-- The kinds of frames that answer: none of them asks for anything. -/
inductive IsAnswer (len : Nat) (m : Mem) : Prop where
  | arp (full : 42 ≤ len) (type : getLe m 12 2 = ethTypeArp) (op : getLe m 20 2 = arpOpReply)
  | echo (full : 42 ≤ len) (type : getLe m 12 2 = ethTypeIpv4) (kind : getLe m 34 1 = icmpv4TypeEchoReply)
  | advertisement (full : 62 ≤ len) (type : getLe m 12 2 = ethTypeIpv6) (kind : getLe m 54 1 = icmpv6TypeNa)
  | echo6 (full : 62 ≤ len) (type : getLe m 12 2 = ethTypeIpv6) (kind : getLe m 54 1 = icmpv6TypeEchoReply)

/-- The bytes of the MAC address that a frame gives for its sender. -/
def askerMac (m : Mem) : List Byte :=
  if getLe m 12 2 = ethTypeArp then bytesAt m 22 6 else bytesAt m 6 6

/-- The answer in `r` of the interface in `net` to the frame `fr`. -/
structure AnswerTo (net : NetState) (fr : Frame) (len : Nat) (r : Mem) : Prop where
  kind : IsAnswer len r
  short : len ≤ max 86 fr.len
  source : bytesAt r 6 6 = leBytes 6 net.ifinfo.mac.toNat
  dest : bytesAt r 0 6 = askerMac fr.bytes ∨ getLe fr.bytes 12 2 = ethTypeIpv6 ∧
    loadIpv6 fr.bytes 22 = ipv6Unspecified ∧ bytesAt r 0 6 = leBytes 6 (ipv6MulticastMac ipv6AllNodes).toNat

theorem IsAnswer.congr {len : Nat} {m m' : Mem} (h : IsAnswer len m) (hagree : AgreeUpTo len m' m) :
    IsAnswer len m' := by
  cases h with
  | arp full type op =>
    exact .arp full ((hagree.getLe (by omega)).trans type) ((hagree.getLe (by omega)).trans op)
  | echo full type kind =>
    exact .echo full ((hagree.getLe (by omega)).trans type) ((hagree.getLe (by omega)).trans kind)
  | advertisement full type kind =>
    exact .advertisement full ((hagree.getLe (by omega)).trans type) ((hagree.getLe (by omega)).trans kind)
  | echo6 full type kind =>
    exact .echo6 full ((hagree.getLe (by omega)).trans type) ((hagree.getLe (by omega)).trans kind)

theorem IsAnswer.full {len : Nat} {m : Mem} (h : IsAnswer len m) : 42 ≤ len := by
  cases h
  all_goals omega

theorem AnswerTo.congr {net : NetState} {fr : Frame} {len : Nat} {r r' : Mem} (h : AnswerTo net fr len r)
    (hagree : AgreeUpTo len r' r) : AnswerTo net fr len r' := by
  have hfull := h.kind.full
  refine ⟨h.kind.congr hagree, h.short, ?_, ?_⟩
  · rw [hagree.bytesAt (by omega), h.source]
  · rw [hagree.bytesAt (by omega)]
    exact h.dest

theorem leBytes_loadMac (m : Mem) (a : Nat) : leBytes 6 (loadMac m a).toNat = bytesAt m a 6 := by
  have hlt : getLe m a 6 < 2 ^ 64 := Nat.lt_trans (getLe_lt m a 6) (by norm_num)
  rw [loadMac, BitVec.toNat_ofNat, Nat.mod_eq_of_lt hlt, bytesAt_eq_leBytes]

section Handlers

variable {net : NetState} {fr : Frame} {b : List Byte}

/-! ## What an answered frame asks -/

theorem handleArp_sent (h : (handleArp net fr).sent = [b]) : getLe fr.bytes 20 2 = arpOpRequest := by
  unfold handleArp at h
  dsimp only at h
  obtain ⟨-, h⟩ := sent_of_ite h
  obtain ⟨-, h⟩ := sent_of_ite h
  obtain ⟨-, h⟩ := sent_of_ite h
  by_contra hop
  rw [if_neg fun hreq => hop hreq.1] at h
  exact absurd h (List.cons_ne_nil _ _).symm

/-- The reply to a solicitation, to its sender or to all nodes. -/
def ndpReply (net : NetState) (fr : Frame) : Except Int Frame :=
  if loadIpv6 fr.bytes 22 ≠ ipv6Unspecified then
    ipMakeNdp net fr 4096 (loadIpv6 fr.bytes 22) (loadMac fr.bytes 6) true true (icmpv6FlagsS ||| icmpv6FlagsO)
  else ipMakeNdp net fr 4096 ipv6Unspecified (-1) true false icmpv6FlagsO

theorem reply_sent {c : Prop} [Decidable c] {reply : Except Int Frame}
    (h : (if c then
        match reply with
        | .ok fr => FrameResult.send net fr
        | .error _ => .drop net 0
      else .drop net 0).sent = [b]) :
    ∃ fr', reply = .ok fr' ∧ b = bytesAt fr'.bytes 0 fr'.len := by
  by_cases hc : c
  · rw [if_pos hc] at h
    cases reply with
    | ok fr' => exact ⟨fr', rfl, (List.singleton_injective h).symm⟩
    | error e => exact absurd h (List.cons_ne_nil _ _).symm
  · rw [if_neg hc] at h
    exact absurd h (List.cons_ne_nil _ _).symm

theorem handleNdp_sent (h : (handleNdp net fr).sent = [b]) :
    getLe fr.bytes 54 1 ≠ icmpv6TypeNa ∧ ∃ (net' : NetState) (reply : Frame), net'.ifinfo = net.ifinfo ∧
      ndpReply net' fr = .ok reply ∧ b = bytesAt reply.bytes 0 reply.len := by
  unfold handleNdp at h
  dsimp only at h
  obtain ⟨-, h⟩ := sent_of_ite h
  obtain ⟨-, h⟩ := sent_of_ite h
  obtain ⟨-, h⟩ := sent_of_ite h
  by_cases hadv : getLe fr.bytes 54 1 = icmpv6TypeNa
  · -- an advertisement only updates the MAC entries
    rw [if_neg (not_not_intro hadv)] at h
    split at h
    · split_ifs at h
      all_goals exact absurd h (List.cons_ne_nil _ _).symm
    · exact absurd h (List.cons_ne_nil _ _).symm
  rw [if_pos hadv] at h
  refine ⟨hadv, ?_⟩
  cases hoption : ndpOptionMac fr (decide (getLe fr.bytes 54 1 = icmpv6TypeNa)) with
  | none =>
    rw [hoption] at h
    dsimp only at h
    generalize hreply : (if loadIpv6 fr.bytes 22 ≠ ipv6Unspecified then
        ipMakeNdp net fr 4096 (loadIpv6 fr.bytes 22) (loadMac fr.bytes 6) true true
          (icmpv6FlagsS ||| icmpv6FlagsO)
      else ipMakeNdp net fr 4096 ipv6Unspecified (-1) true false icmpv6FlagsO) = reply at h
    obtain ⟨fr', rfl, hb⟩ := reply_sent h
    exact ⟨net, fr', rfl, hreply, hb⟩
  | some optionMac =>
    rw [hoption] at h
    dsimp only at h
    have hifinfo := (learn_keeps (loadIpv6 fr.bytes 22 ≠ ipv6Unspecified) net (loadIpv6 fr.bytes 22) optionMac).1
    generalize (if loadIpv6 fr.bytes 22 ≠ ipv6Unspecified then
      ipUpdateMac net (loadIpv6 fr.bytes 22) optionMac else net) = net' at hifinfo h
    generalize hreply : (if loadIpv6 fr.bytes 22 ≠ ipv6Unspecified then
        ipMakeNdp net' fr 4096 (loadIpv6 fr.bytes 22) (loadMac fr.bytes 6) true true
          (icmpv6FlagsS ||| icmpv6FlagsO)
      else ipMakeNdp net' fr 4096 ipv6Unspecified (-1) true false icmpv6FlagsO) = reply at h
    obtain ⟨fr', rfl, hb⟩ := reply_sent h
    exact ⟨net', fr', hifinfo, hreply, hb⟩

theorem handleIcmpv6_asks (h : (handleIcmpv6 net fr).sent = [b]) :
    getLe fr.bytes 54 1 = icmpv6TypeEchoRequest ∧ (doIcmpv6Echo net fr).sent = [b] ∨
      getLe fr.bytes 54 1 = icmpv6TypeNs ∧ (handleNdp net fr).sent = [b] := by
  unfold handleIcmpv6 at h
  dsimp only at h
  obtain ⟨-, h⟩ := sent_of_ite h
  obtain ⟨-, h⟩ := sent_of_ite h
  by_cases hndp : getLe fr.bytes 54 1 = icmpv6TypeNs ∨ getLe fr.bytes 54 1 = icmpv6TypeNa
  · rw [if_pos hndp] at h
    exact .inr ⟨hndp.resolve_right (handleNdp_sent h).1, h⟩
  · rw [if_neg hndp] at h
    by_cases hecho : getLe fr.bytes 54 1 = icmpv6TypeEchoRequest
    · rw [if_pos hecho] at h
      exact .inl ⟨hecho, h⟩
    · rw [if_neg hecho] at h
      exact absurd h (List.cons_ne_nil _ _).symm

/-- A frame is sent by one of the three handlers. -/
theorem handleFrame_sent (h : (handleFrame net fr).sent = [b]) :
    getLe fr.bytes 12 2 = ethTypeArp ∧ (handleArp net fr).sent = [b] ∨
      getLe fr.bytes 12 2 = ethTypeIpv4 ∧ (handleIpv4 net fr).sent = [b] ∨
      getLe fr.bytes 12 2 = ethTypeIpv6 ∧ (handleIpv6 net fr).sent = [b] := by
  unfold handleFrame at h
  dsimp only at h
  obtain ⟨-, h⟩ := sent_of_ite h
  by_cases harp : getLe fr.bytes 12 2 = ethTypeArp
  · rw [if_pos harp] at h
    exact .inl ⟨harp, h⟩
  rw [if_neg harp] at h
  by_cases hipv4 : getLe fr.bytes 12 2 = ethTypeIpv4
  · rw [if_pos hipv4] at h
    exact .inr (.inl ⟨hipv4, h⟩)
  rw [if_neg hipv4] at h
  by_cases hipv6 : getLe fr.bytes 12 2 = ethTypeIpv6
  · rw [if_pos hipv6] at h
    exact .inr (.inr ⟨hipv6, h⟩)
  · rw [if_neg hipv6] at h
    exact absurd h (List.cons_ne_nil _ _).symm

theorem sent_eq_nil_or (net : NetState) (fr : Frame) :
    (handleFrame net fr).sent = [] ∨ ∃ b, (handleFrame net fr).sent = [b] :=
  (handleFrame_outcome net fr).sent_cases

/-! ## Answers -/

/-- The Ethernet header at the start of a reply. -/
theorem ethHeader_fields {m r : Mem} {dst src : Mac} {ethertype : Nat}
    (h : AgreeUpTo 14 r (storeEthHeader m dst src ethertype)) :
    bytesAt r 0 6 = leBytes 6 dst.toNat ∧ bytesAt r 6 6 = leBytes 6 src.toNat ∧
      getLe r 12 2 = ethertype % 256 ^ 2 := by
  have hdst : bytesAt (storeEthHeader m dst src ethertype) 0 6 = bytesAt (storeMac m 0 dst) 0 6 := by
    refine bytesAt_congr fun i hi => ?_
    simp (disch := omega) only [storeEthHeader, storeMac, putLe_outside]
  have hsrc : bytesAt (storeEthHeader m dst src ethertype) 6 6 = bytesAt (storeMac (storeMac m 0 dst) 6 src) 6 6 :=
    bytesAt_congr fun i hi => putLe_outside _ _ _ _ (by omega)
  refine ⟨?_, ?_, ?_⟩
  · rw [h.bytesAt (by norm_num), hdst, storeMac, bytesAt_putLe]
  · rw [h.bytesAt (by norm_num), hsrc, storeMac, bytesAt_putLe]
  · rw [h.getLe (by norm_num), storeEthHeader, getLe_putLe]

theorem handleArp_answer (h : (handleArp net fr).sent = [b]) (htype : getLe fr.bytes 12 2 = ethTypeArp) :
    ∃ r, b = bytesAt r 0 42 ∧ AnswerTo net fr 42 r := by
  unfold handleArp at h
  extract_lets m op srcMac srcIp toMe learnt b₁ b₂ b₃ b₄ b₅ b₆ at h
  obtain ⟨-, h⟩ := sent_of_ite h
  obtain ⟨-, h⟩ := sent_of_ite h
  obtain ⟨-, h⟩ := sent_of_ite h
  have hifinfo : learnt.ifinfo = net.ifinfo := (learn_keeps _ net _ _).1
  have heth : AgreeUpTo 14 b₆ b₁ := by
    intro i hi
    simp (disch := omega) only [b₆, b₅, b₄, b₃, b₂, storeIpv4, storeMac, putLe_outside]
  obtain ⟨hdst, hsrc, hethertype⟩ := ethHeader_fields heth
  have hop : getLe b₆ 20 2 = arpOpReply := by
    simp (disch := simp) only [b₆, b₅, b₄, b₃, b₂, storeIpv4, storeMac, getLe_putLe_disjoint, getLe_putLe]
    rfl
  split_ifs at h with hreq
  · refine ⟨b₆, (List.singleton_injective h).symm, .arp (Nat.le_refl 42) hethertype hop, ?_, ?_, .inl ?_⟩
    · omega
    · rw [hsrc, hifinfo]
    · rw [hdst, leBytes_loadMac, askerMac, if_pos htype]
  · exact absurd h (List.cons_ne_nil _ _).symm

/-- An echo reply has the addresses of the request's header exchanged. -/
theorem echoHeader_fields {m r : Mem} {mac : Mac}
    (h : AgreeUpTo 14 r (storeMac (writeBytes m 0 (bytesAt m 6 6)) 6 mac)) :
    bytesAt r 0 6 = bytesAt m 6 6 ∧ bytesAt r 6 6 = leBytes 6 mac.toNat ∧ getLe r 12 2 = getLe m 12 2 := by
  have hdst : bytesAt (storeMac (writeBytes m 0 (bytesAt m 6 6)) 6 mac) 0 6 =
      bytesAt (writeBytes m 0 (bytesAt m 6 6)) 0 6 :=
    bytesAt_congr fun i hi => putLe_outside _ _ _ _ (by omega)
  refine ⟨?_, ?_, ?_⟩
  · have hcopied := bytesAt_writeBytes m 0 (bytesAt m 6 6)
    rw [bytesAt_length] at hcopied
    rw [h.bytesAt (by norm_num), hdst, hcopied]
  · rw [h.bytesAt (by norm_num), storeMac, bytesAt_putLe]
  · rw [h.getLe (by norm_num), storeMac, getLe_putLe_disjoint _ _ _ _ _ _ (by norm_num),
      getLe_writeBytes_disjoint _ _ _ _ _ (by simp)]

theorem doIcmpv4Echo_answer (h : (doIcmpv4Echo net fr).sent = [b]) (htype : getLe fr.bytes 12 2 = ethTypeIpv4)
    (hfull : 42 ≤ 14 + ntohs (getLe fr.bytes 16 2)) (hshort : 14 + ntohs (getLe fr.bytes 16 2) ≤ fr.len)
    (hfit : 14 + ntohs (getLe fr.bytes 16 2) < 2 ^ 16) :
    ∃ len r, b = bytesAt r 0 len ∧ AnswerTo net fr len r := by
  unfold doIcmpv4Echo at h
  extract_lets m len b₁ b₂ b₃ dst b₄ b₅ b₆ b₇ b₈ sum sum₁ b₉ at h
  obtain ⟨-, h⟩ := sent_of_ite h
  have hlen : len = 14 + ntohs (getLe fr.bytes 16 2) := wrap16_of_lt hfit
  have heth : AgreeUpTo 14 b₉ b₂ := by
    intro i hi
    simp (disch := omega) only [b₉, b₈, b₇, b₆, b₅, b₄, b₃, storeIpv4, putLe_outside]
  obtain ⟨hdst, hsrc, hethertype⟩ := echoHeader_fields heth
  have hkind : getLe b₉ 34 1 = icmpv4TypeEchoReply := by
    simp (disch := simp) only [b₉, b₈, getLe_putLe_disjoint, getLe_putLe]
    rfl
  have harp : getLe fr.bytes 12 2 ≠ ethTypeArp := by
    rw [htype]
    decide
  refine ⟨len, b₉, (List.singleton_injective h).symm, .echo ?_ (hethertype.trans htype) hkind, ?_, hsrc, .inl ?_⟩
  · omega
  · omega
  · rw [hdst, askerMac, if_neg harp]

theorem doIcmpv6Echo_answer (h : (doIcmpv6Echo net fr).sent = [b]) (htype : getLe fr.bytes 12 2 = ethTypeIpv6)
    (hfull : 62 ≤ 54 + ntohs (getLe fr.bytes 18 2)) (hshort : 54 + ntohs (getLe fr.bytes 18 2) ≤ fr.len)
    (hfit : 54 + ntohs (getLe fr.bytes 18 2) < 2 ^ 16) :
    ∃ len r, b = bytesAt r 0 len ∧ AnswerTo net fr len r := by
  unfold doIcmpv6Echo at h
  extract_lets m len b₁ b₂ b₃ b₄ sum dst b₅ b₆ old sum₁ sum₂ b₇ at h
  obtain ⟨-, h⟩ := sent_of_ite h
  have hlen : len = 54 + ntohs (getLe fr.bytes 18 2) := wrap16_of_lt hfit
  have heth : AgreeUpTo 14 b₇ b₂ := by
    intro i hi
    simp (disch := omega) only [b₇, b₆, b₅, b₄, b₃, putLe_outside, storeIpv6_outside]
  obtain ⟨hdst, hsrc, hethertype⟩ := echoHeader_fields heth
  have hkind : getLe b₇ 54 1 = icmpv6TypeEchoReply := by
    simp (disch := simp) only [b₇, b₆, b₅, b₄, storeIpv6, getLe_putLe_disjoint, getLe_writeBytes_disjoint, getLe_putLe]
    rfl
  have harp : getLe fr.bytes 12 2 ≠ ethTypeArp := by
    rw [htype]
    decide
  refine ⟨len, b₇, (List.singleton_injective h).symm, .echo6 ?_ (hethertype.trans htype) hkind, ?_, hsrc, .inl ?_⟩
  · omega
  · omega
  · rw [hdst, askerMac, if_neg harp]

theorem ipMakeNdp_fields {fr' : Frame} {buflen : Nat} {addr : Ipv6Addr} {mac : Mac} {unicast : Bool} {flags : Nat}
    (h : ipMakeNdp net fr buflen addr mac true unicast flags = .ok fr') :
    IsAnswer fr'.len fr'.bytes ∧ bytesAt fr'.bytes 6 6 = leBytes 6 net.ifinfo.mac.toNat ∧
      bytesAt fr'.bytes 0 6 = leBytes 6 (if unicast then mac else ipv6MulticastMac ipv6AllNodes).toNat := by
  unfold ipMakeNdp at h
  extract_lets dstIp dstMac b₁ b₂ b₃ b₄ b₅ b₆ b₇ b₈ b₉ b₁₀ b₁₁ b₁₂ b₁₃ b₁₄ b₁₅ at h
  split_ifs at h
  obtain rfl := Except.ok.inj h
  have heth : AgreeUpTo 14 b₁₅ b₁ := by
    intro i hi
    simp (disch := omega) only [b₁₅, b₁₄, b₁₃, b₁₂, b₁₁, b₁₀, b₉, b₈, b₇, b₆, b₅, b₄, b₃, b₂, storeMac,
      putLe_outside, storeIpv6_outside]
  obtain ⟨hdst, hsrc, hethertype⟩ := ethHeader_fields heth
  have hkind : getLe b₁₅ 54 1 = icmpv6TypeNa := by
    have hcode : getLe b₁₅ 54 2 = icmpv6TypeCodeNa := by
      simp (disch := simp) only [b₁₅, b₁₄, b₁₃, b₁₂, b₁₁, b₁₀, b₉, b₈, storeIpv6, storeMac, getLe_putLe_disjoint,
        getLe_writeBytes_disjoint, getLe_putLe]
      rfl
    have hbyte := (b₁₅ 54).isLt
    rw [getLe_two, icmpv6TypeCodeNa] at hcode
    rw [getLe_one, icmpv6TypeNa]
    omega
  refine ⟨.advertisement (by norm_num) hethertype hkind, hsrc, ?_⟩
  rw [hdst]
  cases unicast with
  | true | false => rfl

theorem handleNdp_answer (h : (handleNdp net fr).sent = [b]) (htype : getLe fr.bytes 12 2 = ethTypeIpv6) :
    ∃ len r, b = bytesAt r 0 len ∧ AnswerTo net fr len r := by
  obtain ⟨-, net', reply, hifinfo, hreply, hb⟩ := handleNdp_sent h
  have harp : getLe fr.bytes 12 2 ≠ ethTypeArp := by
    rw [htype]
    decide
  refine ⟨reply.len, reply.bytes, hb, ?_⟩
  unfold ndpReply at hreply
  split_ifs at hreply with hsrc
  · obtain ⟨hkind, hsource, hdest⟩ := ipMakeNdp_fields hreply
    refine ⟨hkind, ?_, hifinfo ▸ hsource, .inl ?_⟩
    · rw [ipMakeNdp_len hreply]
      omega
    · rw [hdest, if_pos rfl, leBytes_loadMac, askerMac, if_neg harp]
  · obtain ⟨hkind, hsource, hdest⟩ := ipMakeNdp_fields hreply
    refine ⟨hkind, ?_, hifinfo ▸ hsource, .inr ⟨htype, not_not.mp hsrc, hdest⟩⟩
    rw [ipMakeNdp_len hreply]
    omega

theorem AnswerTo.of_len {n len : Nat} {r : Mem} (h : AnswerTo net ⟨n, fr.bytes⟩ len r) (hn : n ≤ fr.len) :
    AnswerTo net fr len r := by
  have hshort : len ≤ max 86 n := h.short
  exact ⟨h.kind, by omega, h.source, h.dest⟩

theorem handleIpv4_answer (hlen : fr.len < 2 ^ 16) (h : (handleIpv4 net fr).sent = [b])
    (htype : getLe fr.bytes 12 2 = ethTypeIpv4) : ∃ len r, b = bytesAt r 0 len ∧ AnswerTo net fr len r := by
  obtain ⟨hfit, hicmp⟩ := handleIpv4_sent hlen h
  obtain ⟨hreq, hecho⟩ := handleIcmpv4_sent hicmp
  have hwhole : 14 + ntohs (getLe fr.bytes 16 2) ≤ fr.len := by
    unfold handleIpv4 at h
    dsimp only at h
    obtain ⟨-, h⟩ := sent_of_ite h
    obtain ⟨-, h⟩ := sent_of_ite h
    obtain ⟨-, h⟩ := sent_of_ite h
    obtain ⟨-, h⟩ := sent_of_ite h
    exact Nat.le_of_not_lt (sent_of_ite h).1
  obtain ⟨len, r, hb, hanswer⟩ := doIcmpv4Echo_answer hecho htype hreq.len (Nat.le_refl _) hfit
  exact ⟨len, r, hb, hanswer.of_len hwhole⟩

theorem handleIpv6_answer (hlen : fr.len < 2 ^ 16) (h : (handleIpv6 net fr).sent = [b])
    (htype : getLe fr.bytes 12 2 = ethTypeIpv6) : ∃ len r, b = bytesAt r 0 len ∧ AnswerTo net fr len r := by
  obtain ⟨hreceived, hicmp⟩ := handleIpv6_sent hlen h
  have hwhole : 54 + ntohs (getLe fr.bytes 18 2) ≤ fr.len := hreceived.whole
  have hfit : 54 + ntohs (getLe fr.bytes 18 2) < 2 ^ 16 := Nat.lt_of_le_of_lt hwhole hlen
  obtain ⟨hecho, hsent⟩ | ⟨-, hsent⟩ := handleIcmpv6_asks hicmp
  · obtain ⟨hreq, -⟩ := handleIcmpv6_sent hicmp hecho
    obtain ⟨len, r, hb, hanswer⟩ := doIcmpv6Echo_answer hsent htype hreq.len (Nat.le_refl _) hfit
    exact ⟨len, r, hb, hanswer.of_len hwhole⟩
  · obtain ⟨len, r, hb, hanswer⟩ := handleNdp_answer hsent htype
    exact ⟨len, r, hb, hanswer.of_len hwhole⟩

theorem handleFrame_answer (hlen : fr.len < 2 ^ 16) (h : (handleFrame net fr).sent = [b]) :
    ∃ len r, b = bytesAt r 0 len ∧ AnswerTo net fr len r := by
  obtain ⟨htype, hsent⟩ | ⟨htype, hsent⟩ | ⟨htype, hsent⟩ := handleFrame_sent h
  · obtain ⟨r, hb, hanswer⟩ := handleArp_answer hsent htype
    exact ⟨42, r, hb, hanswer⟩
  · exact handleIpv4_answer hlen hsent htype
  · exact handleIpv6_answer hlen hsent htype

/-! ## Silence -/

/-- An answer is received without a word. -/
theorem IsAnswer.silent {len : Nat} (h : IsAnswer len fr.bytes) (hlen : fr.len < 2 ^ 16) :
    (handleFrame net fr).sent = [] := by
  obtain hnil | ⟨b, hb⟩ := sent_eq_nil_or net fr
  · exact hnil
  -- Each kind of answer contradicts what the handler of its type has checked before it sends.
  obtain ⟨htype, hsent⟩ | ⟨htype, hsent⟩ | ⟨htype, hsent⟩ := handleFrame_sent hb
  · have hreq := handleArp_sent hsent
    cases h with
    | arp _ _ op => exact absurd (hreq.symm.trans op) (by decide)
    | echo _ type | advertisement _ type | echo6 _ type => exact absurd (htype.symm.trans type) (by decide)
  · obtain ⟨-, hicmp⟩ := handleIpv4_sent hlen hsent
    have hreq : getLe fr.bytes 34 1 = icmpv4TypeEchoRequest := (handleIcmpv4_sent hicmp).1.type
    cases h with
    | echo _ _ kind => exact absurd (hreq.symm.trans kind) (by decide)
    | arp _ type | advertisement _ type | echo6 _ type => exact absurd (htype.symm.trans type) (by decide)
  · obtain ⟨-, hicmp⟩ := handleIpv6_sent hlen hsent
    have hreq : getLe fr.bytes 54 1 = icmpv6TypeEchoRequest ∨ getLe fr.bytes 54 1 = icmpv6TypeNs :=
      (handleIcmpv6_asks hicmp).imp And.left And.left
    cases h with
    | arp _ type | echo _ type => exact absurd (htype.symm.trans type) (by decide)
    | advertisement _ _ kind | echo6 _ _ kind =>
      rw [kind] at hreq
      exact absurd hreq (by decide)

end Handlers

/-! ## Hosts on one wire -/

/-- Hosts with the frames they were asked with from outside and the frames they have sent. -/
structure Wire where
  hosts : Nat → NetState
  asked : List (Nat × Frame)
  answers : List (List Byte)

namespace Wire

/-- A frame that no host has sent in answer reaches host `i`, or answer `k` does, over stale bytes. -/
inductive Delivery where
  | outside (i : Nat) (fr : Frame)
  | answer (i k : Nat) (stale : Mem)

def handle (w : Wire) (i : Nat) (fr : Frame) : Wire where
  hosts := Function.update w.hosts i (handleFrame (w.hosts i) fr).net
  asked := w.asked
  answers := w.answers ++ (handleFrame (w.hosts i) fr).sent

def step (w : Wire) : Delivery → Option Wire
  | .outside i fr => if fr.len < 2 ^ 16 then some (({ w with asked := w.asked ++ [(i, fr)] } : Wire).handle i fr) else none
  | .answer i k stale => w.answers[k]?.map fun b => w.handle i ⟨b.length, writeBytes stale 0 b⟩

/-- The frame sent in answer to `q.2` by host `q.1`. -/
def Answers (hosts : Nat → NetState) (q : Nat × Frame) (b : List Byte) : Prop :=
  b.length < 2 ^ 16 ∧ ∀ m, bytesAt m 0 b.length = b → AnswerTo (hosts q.1) q.2 b.length m

/-- The answers are those to some of the frames from outside, each to one, in order. -/
structure Inv (hosts : Nat → NetState) (w : Wire) : Prop where
  ifinfo : ∀ i, (w.hosts i).ifinfo = (hosts i).ifinfo
  answered : ∃ qs, qs.Sublist w.asked ∧ List.Forall₂ (Answers hosts) qs w.answers

variable {hosts : Nat → NetState} {w w' : Wire}

theorem handle_ifinfo (h : ∀ i, (w.hosts i).ifinfo = (hosts i).ifinfo) (i : Nat) (fr : Frame) (j : Nat) :
    ((w.handle i fr).hosts j).ifinfo = (hosts j).ifinfo := by
  by_cases hj : j = i
  · subst hj
    simp only [handle, Function.update_self]
    exact (handleFrame_outcome (w.hosts j) fr).ifinfo.trans (h j)
  · simp only [handle, Function.update_of_ne hj]
    exact h j

theorem answers_of_sent {i : Nat} {fr : Frame} {b : List Byte} (hifinfo : (w.hosts i).ifinfo = (hosts i).ifinfo)
    (hlen : fr.len < 2 ^ 16) (h : (handleFrame (w.hosts i) fr).sent = [b]) : Answers hosts (i, fr) b := by
  obtain ⟨len, r, hb, hanswer⟩ := handleFrame_answer hlen h
  obtain rfl : b.length = len := by rw [hb, bytesAt_length]
  have hshort := hanswer.short
  refine ⟨by omega, fun m hm => ?_⟩
  have hagree : AgreeUpTo b.length m r := .of_bytesAt (hm.trans hb)
  obtain ⟨hkind, hle, hsource, hdest⟩ := hanswer.congr hagree
  exact ⟨hkind, hle, hifinfo ▸ hsource, hdest⟩

/-- Every answer is of a kind that is received without a word. -/
theorem Inv.silent (h : Inv hosts w) {b : List Byte} (hb : b ∈ w.answers) (net : NetState) (stale : Mem) :
    (handleFrame net ⟨b.length, writeBytes stale 0 b⟩).sent = [] := by
  obtain ⟨qs, -, hall⟩ := h.answered
  obtain ⟨k, hk, rfl⟩ := List.mem_iff_getElem.mp hb
  obtain ⟨hlen, hanswer⟩ := List.Forall₂.get hall (by rw [hall.length_eq]; exact hk) hk
  exact (hanswer _ (bytesAt_writeBytes _ _ _)).kind.silent hlen

theorem step_inv (h : Inv hosts w) {l : Delivery} (hl : w.step l = some w') : Inv hosts w' := by
  cases l with
  | outside i fr =>
    simp only [step] at hl
    split_ifs at hl with hlen
    cases hl
    obtain ⟨qs, hsub, hall⟩ := h.answered
    refine ⟨handle_ifinfo h.ifinfo i fr, ?_⟩
    obtain hnil | ⟨b, hb⟩ := sent_eq_nil_or (w.hosts i) fr
    · refine ⟨qs, hsub.trans (List.sublist_append_left _ _), ?_⟩
      simp only [handle, hnil, List.append_nil]
      exact hall
    · refine ⟨qs ++ [(i, fr)], hsub.append_right _, ?_⟩
      simp only [handle, hb]
      exact List.rel_append hall (.cons (answers_of_sent (h.ifinfo i) hlen hb) .nil)
  | answer i k stale =>
    obtain ⟨b, hb, rfl⟩ := Option.map_eq_some_iff.mp hl
    refine ⟨handle_ifinfo h.ifinfo i _, ?_⟩
    have hsilent := h.silent (List.mem_of_getElem? hb) (w.hosts i) stale
    simp only [handle, hsilent, List.append_nil]
    exact h.answered

/-- However the frames are delivered, the hosts answer only frames from outside, each at most once
and to the MAC address it gives for its sender, or to all nodes where a solicitation has no source
address, and never each other's answers. -/
theorem run_answers {ls : List Delivery} (hrun : runSteps step ⟨hosts, [], []⟩ ls = some w) :
    (∃ qs, qs.Sublist w.asked ∧ List.Forall₂ (Answers hosts) qs w.answers) ∧
      ∀ b ∈ w.answers, ∀ net stale, (handleFrame net ⟨b.length, writeBytes stale 0 b⟩).sent = [] := by
  have hinit : Inv hosts ⟨hosts, [], []⟩ := ⟨fun _ => rfl, [], List.Sublist.refl _, .nil⟩
  have hinv : Inv hosts w := runSteps_invariant (fun _ _ _ hw hl => step_inv hw hl) hinit hrun
  exact ⟨hinv.answered, fun b hb net stale => hinv.silent hb net stale⟩

set_option maxRecDepth 4000 in
/-- A request is answered once, and the answer reaches another host. -/
theorem run_answers_small :
    ∃ w, runSteps step ⟨fun _ => smallNet, [], []⟩ [.outside 0 ⟨42, smallArpRequest 0⟩, .answer 1 0 fun _ => 0] = some w ∧
      w.answers.length = 1 ∧ ∃ qs, qs.Sublist w.asked ∧ List.Forall₂ (Answers fun _ => smallNet) qs w.answers := by
  have hlength : (runSteps step ⟨fun _ => smallNet, [], []⟩
      [.outside 0 ⟨42, smallArpRequest 0⟩, .answer 1 0 fun _ => 0]).map (fun w => w.answers.length) = some 1 := by
    decide
  obtain ⟨w, hrun, hone⟩ := Option.map_eq_some_iff.mp hlength
  exact ⟨w, hrun, hone, (run_answers hrun).1⟩

end Wire

end VijosOS
