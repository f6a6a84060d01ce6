import VijosOS.Net.ReceivedLength

/-!
# ICMPv6 frames

The builders compute the checksum of a message from scratch over its zeroed field; the
echo reply patches the checksum of the request, and in the multicast case replaces one
address of the pseudo-header by another. Both give frames the receiver accepts.
-/

namespace VijosOS

open Library

/-- The payload length and the checksum of the ICMPv6 frame of `len` bytes in `m`. -/
structure Icmpv6Valid (len : Nat) (m : Mem) : Prop where
  payloadLen : 54 + ntohs (getLe m 18 2) = len
  checksum : ipv6L4Checksum m 14 = 0

/-! ## The pseudo-header checksum -/

/-- The plain sum of what `ipv6_l4_checksum` covers. -/
def ipv6L4Sum (m : Mem) (a : Nat) : Nat :=
  byteSum m (a + 8) 16 + byteSum m (a + 24) 16 + getLe m (a + 4) 2 + getLe m (a + 6) 1 * 256 +
    byteSum m (a + 40) (ntohs (getLe m (a + 4) 2))

theorem ipv6L4Sum_lt (m : Mem) (a : Nat) : ipv6L4Sum m a < 2 ^ 32 - 65536 := by
  have hsrc := byteSum_le m (a + 8) 16
  have hdst := byteSum_le m (a + 24) 16
  have hpayload := byteSum_le m (a + 40) (ntohs (getLe m (a + 4) 2))
  have hlen := ntohs_lt (getLe m (a + 4) 2)
  have hfield := getLe_lt m (a + 4) 2
  have hnext := getLe_lt m (a + 6) 1
  unfold ipv6L4Sum
  omega

theorem ipv6L4Checksum_eq (m : Mem) (a : Nat) : ipv6L4Checksum m a = complement16 (ipv6L4Sum m a) := by
  have hlt := ipv6L4Sum_lt m a
  have hlen := ntohs_lt (getLe m (a + 4) 2)
  unfold ipv6L4Sum at hlt
  unfold ipv6L4Checksum ipv6L4Sum
  dsimp only
  rw [ipChecksumPartial_of_lt m (a + 8) (by omega), ipChecksumPartial_of_lt m (a + 24) (by omega),
    ipChecksumPartial_of_lt m (a + 40) (by omega), Nat.shiftLeft_eq]
  simp (disch := omega) only [wrap32_of_lt]
  exact ipChecksumFinal_eq (by omega)

theorem ipv6L4Checksum_eq_zero (m : Mem) (a : Nat) : ipv6L4Checksum m a = 0 ↔ Verifies (ipv6L4Sum m a) := by
  have hlt := ipv6L4Sum_lt m a
  rw [ipv6L4Checksum_eq, complement16_eq_zero (by omega)]

/-- A checksum stored in its own zeroed field verifies. -/
theorem ipv6L4Checksum_putLe (m : Mem) (a : Nat) {j : Nat} (hj : j < ntohs (getLe m (a + 4) 2) / 2)
    (hzero : getLe m (a + 40 + 2 * j) 2 = 0) :
    ipv6L4Checksum (putLe m (a + 40 + 2 * j) 2 (ipv6L4Checksum m a)) a = 0 := by
  have hlt := ipv6L4Sum_lt m a
  have hle := complement16_le (ipv6L4Sum m a)
  have hfield := byteSum_complement16 m (a + 40) (ipv6L4Sum m a) hj hzero
  have hsum : ipv6L4Sum (putLe m (a + 40 + 2 * j) 2 (complement16 (ipv6L4Sum m a))) a =
      ipv6L4Sum m a + complement16 (ipv6L4Sum m a) := by
    have hbefore : ∀ b n, b + n ≤ a + 40 →
        byteSum (putLe m (a + 40 + 2 * j) 2 (complement16 (ipv6L4Sum m a))) b n = byteSum m b n := by
      intro b n hb
      exact byteSum_congr fun i hi => putLe_outside _ _ _ _ (by omega)
    rw [ipv6L4Sum, hbefore _ _ (by omega), hbefore _ _ (by omega),
      getLe_putLe_disjoint _ _ _ _ _ _ (by omega), getLe_putLe_disjoint _ _ _ _ _ _ (by omega), hfield]
    generalize complement16 (ipv6L4Sum m a) = c
    unfold ipv6L4Sum
    omega
  rw [ipv6L4Checksum_eq m, ipv6L4Checksum_eq_zero, hsum]
  exact verifies_add_complement16 (by omega)

/-! ## Builders -/

theorem ntohs_htons_mod {x : Nat} (hx : x < 65536) : ntohs (htons x % 256 ^ 2) = x := by
  have hlt : htons x < 256 ^ 2 := ntohs_lt x
  rw [Nat.mod_eq_of_lt hlt, ntohs_htons hx]

/-- A frame with its checksum stored last over a zeroed field. -/
theorem icmpv6Valid_putLe {m : Mem} {payload : Nat} (hpayload : payload < 65536) (hicmp : 8 ≤ payload)
    (hlen : getLe m 18 2 = htons payload % 256 ^ 2) (hzero : getLe m 56 2 = 0) :
    Icmpv6Valid (54 + payload) (putLe m 56 2 (ipv6L4Checksum m 14)) := by
  have hfield : ntohs (getLe m 18 2) = payload := by rw [hlen, ntohs_htons_mod hpayload]
  constructor
  · rw [getLe_putLe_disjoint _ _ _ _ _ _ (by omega), hfield]
  · exact ipv6L4Checksum_putLe m 14 (j := 1) (by simp only [Nat.reduceAdd]; omega) hzero

/-- A buffer of 80 bytes is enough for a report. -/
theorem ipMakeMldReport_ok (net : NetState) (fr : Frame) {buflen : Nat} (maddr : Ipv6Addr)
    (hbuf : 80 ≤ buflen) : ∃ fr', ipMakeMldReport net fr buflen maddr = .ok fr' := by
  unfold ipMakeMldReport
  rw [if_neg (Nat.not_lt.mpr hbuf)]
  exact ⟨_, rfl⟩

/-- A buffer of 88 bytes is enough for a solicitation or an advertisement. -/
theorem ipMakeNdp_ok (net : NetState) (fr : Frame) {buflen : Nat} (addr : Ipv6Addr) (mac : Mac)
    (adv unicast : Bool) (flags : Nat) (hbuf : 88 ≤ buflen) :
    ∃ fr', ipMakeNdp net fr buflen addr mac adv unicast flags = .ok fr' := by
  unfold ipMakeNdp
  rw [if_neg (Nat.not_lt.mpr hbuf)]
  exact ⟨_, rfl⟩

theorem ipMakeMldReport_valid {net : NetState} {fr fr' : Frame} {buflen : Nat} {maddr : Ipv6Addr}
    (h : ipMakeMldReport net fr buflen maddr = .ok fr') : Icmpv6Valid fr'.len fr'.bytes := by
  unfold ipMakeMldReport at h
  extract_lets b₁ b₂ b₃ b₄ b₅ b₆ b₇ b₈ b₉ b₁₀ b₁₁ b₁₂ b₁₃ at h
  split_ifs at h
  obtain rfl := Except.ok.inj h
  have hlen : getLe b₁₂ 18 2 = htons (8 + 16) % 256 ^ 2 := by
    simp (disch := simp) only [b₁₂, b₁₁, b₁₀, b₉, b₈, b₇, b₆, b₅, b₄, b₃, storeIpv6,
      getLe_putLe_disjoint, getLe_writeBytes_disjoint, getLe_putLe]
  have hzero : getLe b₁₂ 56 2 = 0 := by
    simp (disch := simp) only [b₁₂, b₁₁, b₁₀, b₉, storeIpv6, getLe_putLe_disjoint,
      getLe_writeBytes_disjoint, getLe_putLe]
    rfl
  exact icmpv6Valid_putLe (by decide) (by decide) hlen hzero

theorem ipMakeNdp_valid {net : NetState} {fr fr' : Frame} {buflen : Nat} {addr : Ipv6Addr} {mac : Mac}
    {adv unicast : Bool} {flags : Nat}
    (h : ipMakeNdp net fr buflen addr mac adv unicast flags = .ok fr') :
    Icmpv6Valid fr'.len fr'.bytes := by
  unfold ipMakeNdp at h
  extract_lets dstIp dstMac b₁ b₂ b₃ b₄ b₅ b₆ b₇ b₈ b₉ b₁₀ b₁₁ b₁₂ b₁₃ b₁₄ b₁₅ at h
  split_ifs at h
  obtain rfl := Except.ok.inj h
  have hlen : getLe b₁₄ 18 2 = htons (8 + 16 + 8) % 256 ^ 2 := by
    simp (disch := simp) only [b₁₄, b₁₃, b₁₂, b₁₁, b₁₀, b₉, b₈, b₇, b₆, b₅, b₄, b₃, storeIpv6, storeMac,
      getLe_putLe_disjoint, getLe_writeBytes_disjoint, getLe_putLe]
  have hzero : getLe b₁₄ 56 2 = 0 := by
    simp (disch := simp) only [b₁₄, b₁₃, b₁₂, b₁₁, b₁₀, b₉, storeIpv6, storeMac, getLe_putLe_disjoint,
      getLe_writeBytes_disjoint, getLe_putLe]
    rfl
  exact icmpv6Valid_putLe (by decide) (by decide) hlen hzero

/-! ## Echo replies -/

/-- A valid reply to the echo request in `m`, with its identifier, sequence and payload. -/
structure Icmpv6EchoReply (m reply : Mem) : Prop where
  valid : Icmpv6Valid (54 + ntohs (getLe m 18 2)) reply
  -- an echo reply, with code 0
  typeCode : getLe reply 54 2 = icmpv6TypeEchoReply
  dst : loadIpv6 reply 38 = loadIpv6 m 22
  message : bytesAt reply 58 (ntohs (getLe m 18 2) - 4) = bytesAt m 58 (ntohs (getLe m 18 2) - 4)

/-- Patching keeps a sum verified: type, checksum `c` and address `dst` leave, their
replacements enter, and `sum` is what is complemented into the new checksum. -/
theorem verifies_patched {src dst new rest c sum k : Nat} (hlt : sum < 2 ^ 32)
    (h : Verifies (src + dst + rest + (128 + c)))
    (hsum : sum + c + dst + 128 = 65535 * k + new + 129) :
    Verifies (new + src + rest + (129 + complement16 sum)) := by
  obtain ⟨-, hdvd⟩ := h
  have hneg := dvd_add_complement16 hlt
  exact ⟨by omega, by omega⟩

theorem echoSum_unicast {c : Nat} (hc : c < 65536) :
    wrap32 ((0xffff - c) + ((0xffff - icmpv6TypeEchoRequest) + icmpv6TypeEchoReply)) + c + 128 =
      65535 * 2 + 129 := by
  have hadded : (0xffff - icmpv6TypeEchoRequest) + icmpv6TypeEchoReply = 65536 := rfl
  rw [hadded, wrap32_of_lt (by omega)]
  omega

/-- The sum of a multicast request leaves out the old address and takes the new one in. -/
theorem echoSum_multicast (old : Mem) {c new : Nat} (hc : c < 65536) (hnew : new ≤ 65535 * 8) :
    wrap32 (wrap32 (wrap32 ((0xffff - c) + ipChecksumNegPartial old 0 16) + new) +
        ((0xffff - icmpv6TypeEchoRequest) + icmpv6TypeEchoReply)) + c + byteSum old 0 16 + 128 =
      65535 * 10 + new + 129 := by
  have hneg : ipChecksumNegPartial old 0 16 + byteSum old 0 16 = 65535 * 8 :=
    ipChecksumNegPartial_add old 0 (n := 8) (by decide)
  have hadded : (0xffff - icmpv6TypeEchoRequest) + icmpv6TypeEchoReply = 65536 := rfl
  have hfirst : wrap32 ((0xffff - c) + ipChecksumNegPartial old 0 16) =
      (65535 - c) + ipChecksumNegPartial old 0 16 := wrap32_of_lt (by omega)
  have hsecond : wrap32 ((65535 - c) + ipChecksumNegPartial old 0 16 + new) =
      (65535 - c) + ipChecksumNegPartial old 0 16 + new := wrap32_of_lt (by omega)
  rw [hadded, hfirst, hsecond, wrap32_of_lt (by omega)]
  omega

theorem ipv6L4Sum_icmp {m : Mem} {k : Nat} (hlen : ntohs (getLe m 18 2) = 2 * 2 + k) :
    ipv6L4Sum m 14 = byteSum m 22 16 + byteSum m 38 16 +
      (getLe m 18 2 + getLe m 20 1 * 256 + byteSum m 58 k) + (getLe m 54 2 + getLe m 56 2) := by
  have hmessage : byteSum m 54 (2 * 2 + k) = getLe m 54 2 + getLe m 56 2 + byteSum m 58 k := by
    rw [byteSum_add]
    simp only [wordSum, Nat.reduceMul, Nat.reduceAdd, Nat.zero_add]
  unfold ipv6L4Sum
  simp only [Nat.reduceAdd]
  rw [hlen, hmessage]
  omega

theorem doIcmpv6Echo_reply (net : NetState) (len : Nat) {m : Mem} (hcode : getLe m 55 1 = 0)
    (htype : getLe m 54 1 = icmpv6TypeEchoRequest) (hfit : 54 + ntohs (getLe m 18 2) < 65536)
    (hicmp : 8 ≤ ntohs (getLe m 18 2)) (hsum : ipv6L4Checksum m 14 = 0) :
    ∃ reply, Icmpv6EchoReply m reply ∧
      doIcmpv6Echo net ⟨len, m⟩ = .send net ⟨54 + ntohs (getLe m 18 2), reply⟩ := by
  obtain ⟨k, hk⟩ : ∃ k, ntohs (getLe m 18 2) = 2 * 2 + k := ⟨ntohs (getLe m 18 2) - 4, by omega⟩
  unfold doIcmpv6Echo
  extract_lets b₀ l b₁ b₂ b₃ b₄ sum dst b₅ b₆ old sum₁ sum₂ b₇
  have hl : l = 54 + ntohs (getLe m 18 2) := wrap16_of_lt hfit
  have hmac : ∀ x, 6 ≤ x → b₁ x = m x := by
    intro x hx
    apply writeBytes_outside
    rw [bytesAt_length]
    omega
  have hb₄ : ∀ x, 22 ≤ x → x ≠ 54 → b₄ x = m x := by
    intro x hx hne
    simp (disch := omega) only [b₄, b₃, b₂, storeMac, putLe_outside, hmac]
  -- The fields of the reply, in the order of the pseudo-header.
  have hheader : ∀ x, 18 ≤ x → x < 21 → b₇ x = m x := by
    intro x hx hx'
    simp (disch := omega) only [b₇, b₆, b₅, b₄, b₃, b₂, storeMac, putLe_outside, storeIpv6_outside, hmac]
  have hlen : getLe b₇ 18 2 = getLe m 18 2 := getLe_congr fun i hi => hheader _ (by omega) (by omega)
  have hnext : getLe b₇ 20 1 = getLe m 20 1 := getLe_congr fun i hi => hheader _ (by omega) (by omega)
  have hdst : ∀ i < 16, b₇ (38 + i) = m (22 + i) := by
    intro i hi
    simp (disch := omega) only [b₇, b₆, putLe_outside, storeIpv6_outside]
    exact (storeIpv6_loadIpv6 _ _ _ _ hi).trans (hb₄ _ (by omega) (by omega))
  have hsrc : byteSum b₇ 22 16 = byteSum b₆ 22 16 :=
    byteSum_congr fun i hi => putLe_outside _ _ _ _ (by omega)
  have hword : getLe b₇ 54 2 = icmpv6TypeEchoReply := by
    have hnew : b₇ 54 = 129 := by
      have hbyte : getLe b₇ 54 1 = 129 := by
        simp (disch := simp) only [b₇, b₆, b₅, b₄, storeIpv6, getLe_putLe_disjoint,
          getLe_writeBytes_disjoint, getLe_putLe]
        rfl
      rw [getLe_one] at hbyte
      exact BitVec.eq_of_toNat_eq (by simpa using hbyte)
    have hzero : b₇ 55 = 0 := by
      have hsame : b₇ 55 = m 55 := by
        simp (disch := omega) only [b₇, b₆, b₅, putLe_outside, storeIpv6_outside, hb₄]
      rw [getLe_one] at hcode
      rw [hsame]
      exact BitVec.eq_of_toNat_eq (by simpa using hcode)
    rw [getLe_two, hnew, hzero]
    rfl
  have hmessage : ∀ x, 58 ≤ x → b₇ x = m x := by
    intro x hx
    simp (disch := omega) only [b₇, b₆, b₅, putLe_outside, storeIpv6_outside, hb₄]
  have hold : getLe b₄ 56 2 = getLe m 56 2 := getLe_congr fun i hi => hb₄ _ (by omega) (by omega)
  have holdDst : dst = loadIpv6 m 38 := loadIpv6_move fun i hi => hb₄ _ (by omega) (by omega)
  have hc : getLe m 56 2 < 65536 := getLe_lt m 56 2
  have hlt : sum₂ < 2 ^ 32 := Nat.mod_lt _ (Nat.two_pow_pos 32)
  have hbalance : ∃ n, sum₂ + getLe m 56 2 + byteSum m 38 16 + 128 =
      65535 * n + byteSum b₇ 22 16 + 129 := by
    rw [hsrc]
    by_cases hmulticast : ipv6IsMulticast dst = true
    · have hD : byteSum old 0 16 = byteSum m 38 16 := by
        apply byteSum_move
        intro i hi
        simp only [old, holdDst]
        rw [writeBytes_add _ _ _ (by simpa using hi), ipv6Bytes_loadIpv6, bytesAt_getD _ _ _ _ hi]
      have hpart : ipChecksumPartial b₆ 22 16 = byteSum b₆ 22 16 := ipChecksumPartial_of_lt _ _ (by decide)
      have hadded := echoSum_multicast old hc (byteSum_le b₆ 22 16)
      rw [hD] at hadded
      simp only [sum₂, sum₁, if_pos hmulticast, sum, hold, hpart]
      exact ⟨10, hadded⟩
    · have hkeep : byteSum b₆ 22 16 = byteSum m 38 16 := by
        apply byteSum_move
        intro i hi
        simp only [b₆]
        rw [if_neg hmulticast, holdDst]
        exact storeIpv6_loadIpv6 _ _ _ _ hi
      have hadded := echoSum_unicast hc
      simp only [sum₂, sum₁, if_neg hmulticast, sum, hold, hkeep]
      generalize wrap32 _ = s at hadded ⊢
      exact ⟨2, by omega⟩
  obtain ⟨n, hbalance⟩ := hbalance
  have hchecksum : getLe b₇ 56 2 = complement16 sum₂ := by
    have hle := complement16_le sum₂
    have hput : getLe b₇ 56 2 = ipChecksumFinal sum₂ % 256 ^ 2 := getLe_putLe _ _ _ _
    rw [hput, ipChecksumFinal_eq hlt]
    exact Nat.mod_eq_of_lt (by omega)
  have hrequest : getLe m 54 2 = 128 := by
    rw [getLe_one] at htype hcode
    rw [getLe_two, htype, hcode]
    rfl
  have hverifies : ipv6L4Checksum b₇ 14 = 0 := by
    rw [ipv6L4Checksum_eq_zero, ipv6L4Sum_icmp hk, hrequest] at hsum
    have hrest : byteSum b₇ 58 k = byteSum m 58 k := byteSum_congr fun i hi => hmessage _ (by omega)
    have hswap : byteSum b₇ 38 16 = byteSum m 22 16 := byteSum_move hdst
    rw [ipv6L4Checksum_eq_zero, ipv6L4Sum_icmp (hlen ▸ hk), hlen, hnext, hrest, hswap, hword, hchecksum]
    exact verifies_patched hlt hsum hbalance
  refine ⟨b₇, ⟨⟨by rw [hlen], hverifies⟩, hword, loadIpv6_move hdst, ?_⟩, ?_⟩
  · exact bytesAt_congr fun i hi => hmessage _ (by omega)
  · rw [if_neg (not_not_intro hcode), hl]

/-! ## The accepted requests -/

/-- What `handle_icmpv6` and `do_icmpv6_echo` have checked of a request they answer. -/
structure Icmpv6EchoRequest (fr : Frame) : Prop where
  len : 14 + 40 + 8 ≤ fr.len
  sum : ipv6L4Checksum fr.bytes 14 = 0
  code : getLe fr.bytes 55 1 = 0

theorem handleIcmpv6_sent {net : NetState} {fr : Frame} {b : List Byte}
    (h : (handleIcmpv6 net fr).sent = [b]) (htype : getLe fr.bytes 54 1 = icmpv6TypeEchoRequest) :
    Icmpv6EchoRequest fr ∧ (doIcmpv6Echo net fr).sent = [b] := by
  have hndp : ¬ (getLe fr.bytes 54 1 = icmpv6TypeNs ∨ getLe fr.bytes 54 1 = icmpv6TypeNa) := by
    rw [htype]
    decide
  unfold handleIcmpv6 at h
  dsimp only at h
  obtain ⟨hlen, h⟩ := sent_of_ite h
  obtain ⟨hsum, h⟩ := sent_of_ite h
  rw [if_neg hndp, if_pos htype] at h
  obtain ⟨hcode, -⟩ := sent_of_ite h
  exact ⟨⟨Nat.le_of_not_lt hlen, not_not.mp hsum, not_not.mp hcode⟩, h⟩

/-- What `handle_ipv6` checks of a frame before it calls `handle_icmpv6`. -/
structure Icmpv6Received (net : NetState) (fr : Frame) : Prop where
  header : 14 + 40 ≤ fr.len
  version : getLe fr.bytes 14 1 >>> 4 = 6
  whole : 14 + 40 + ntohs (getLe fr.bytes 18 2) ≤ fr.len
  toMe : ipv6IsToMe net (loadIpv6 fr.bytes 38) = true
  nextHeader : getLe fr.bytes 20 1 = ipv6NextHeaderIcmp

theorem Icmpv6Received.handled {net : NetState} {fr : Frame} (h : Icmpv6Received net fr)
    (hlen : fr.len < 2 ^ 16) :
    handleIpv6 net fr = handleIcmpv6 net ⟨54 + ntohs (getLe fr.bytes 18 2), fr.bytes⟩ := by
  have hwhole := h.whole
  have hlt : 14 + 40 + ntohs (getLe fr.bytes 18 2) < 2 ^ 16 := by omega
  unfold handleIpv6
  dsimp only
  rw [if_neg (Nat.not_lt.mpr h.header), if_neg (not_not_intro h.version),
    if_neg (Nat.not_lt.mpr h.whole), h.toMe, if_neg (by decide), if_pos h.nextHeader, wrap16_of_lt hlt]

theorem handleIpv6_sent {net : NetState} {fr : Frame} {b : List Byte} (hlen : fr.len < 2 ^ 16)
    (h : (handleIpv6 net fr).sent = [b]) :
    Icmpv6Received net fr ∧
      (handleIcmpv6 net ⟨54 + ntohs (getLe fr.bytes 18 2), fr.bytes⟩).sent = [b] := by
  have hsent := h
  unfold handleIpv6 at h
  dsimp only at h
  obtain ⟨hheader, h⟩ := sent_of_ite h
  obtain ⟨hversion, h⟩ := sent_of_ite h
  obtain ⟨hwhole, h⟩ := sent_of_ite h
  obtain ⟨htoMe, h⟩ := sent_of_ite h
  by_cases hicmp : getLe fr.bytes 20 1 = ipv6NextHeaderIcmp
  · have hreceived : Icmpv6Received net fr :=
      ⟨Nat.not_lt.mp hheader, not_not.mp hversion, Nat.not_lt.mp hwhole, by simpa using htoMe, hicmp⟩
    rw [hreceived.handled hlen] at hsent
    exact ⟨hreceived, hsent⟩
  · rw [if_neg hicmp] at h
    split_ifs at h
    all_goals first
      | exact absurd h (List.cons_ne_nil _ _).symm
      | exact absurd ((handleUdp_sent _ _ _ _ _).symm.trans h) (List.cons_ne_nil _ _).symm

/-- An echo request that passes every check of `handle_ipv6`, `handle_icmpv6` and `do_icmpv6_echo`. -/
structure Icmpv6EchoAccepted (net : NetState) (fr : Frame) : Prop extends Icmpv6Received net fr where
  type : getLe fr.bytes 54 1 = icmpv6TypeEchoRequest
  request : Icmpv6EchoRequest ⟨54 + ntohs (getLe fr.bytes 18 2), fr.bytes⟩

/-- An accepted request is answered with one frame. -/
theorem Icmpv6EchoAccepted.answered {net : NetState} {fr : Frame} (h : Icmpv6EchoAccepted net fr)
    (hlen : fr.len < 2 ^ 16) :
    ∃ reply, Icmpv6EchoReply fr.bytes reply ∧ 8 ≤ ntohs (getLe fr.bytes 18 2) ∧
      (handleIpv6 net fr).sent = [bytesAt reply 0 (54 + ntohs (getLe fr.bytes 18 2))] := by
  have hwhole := h.whole
  have hfull : 14 + 40 + 8 ≤ 54 + ntohs (getLe fr.bytes 18 2) := h.request.len
  have hicmp : 8 ≤ ntohs (getLe fr.bytes 18 2) := by omega
  have hlt : 54 + ntohs (getLe fr.bytes 18 2) < 2 ^ 16 := Nat.lt_of_le_of_lt hwhole hlen
  obtain ⟨reply, hreply, hecho⟩ := doIcmpv6Echo_reply net (54 + ntohs (getLe fr.bytes 18 2))
    h.request.code h.type hlt hicmp h.request.sum
  refine ⟨reply, hreply, hicmp, ?_⟩
  have hndp : ¬ (getLe fr.bytes 54 1 = icmpv6TypeNs ∨ getLe fr.bytes 54 1 = icmpv6TypeNa) := by
    rw [h.type]
    decide
  rw [h.toIcmpv6Received.handled hlen, handleIcmpv6]
  dsimp only
  rw [if_neg (Nat.not_lt.mpr hfull), if_neg (not_not_intro h.request.sum), if_neg hndp, if_pos h.type,
    hecho]
  rfl

/-- Equal frames are equally valid replies. -/
theorem Icmpv6EchoReply.congr {m reply reply' : Mem} (r : Icmpv6EchoReply m reply)
    (hicmp : 8 ≤ ntohs (getLe m 18 2))
    (h : AgreeUpTo (54 + ntohs (getLe m 18 2)) reply' reply) : Icmpv6EchoReply m reply' := by
  have hlen : getLe reply' 18 2 = getLe reply 18 2 := h.getLe (by omega)
  have hpayload := r.valid.payloadLen
  refine ⟨⟨by rw [hlen, hpayload], ?_⟩, ?_, ?_, ?_⟩
  · have hfield : getLe reply' (14 + 4) 2 = getLe reply 18 2 := hlen
    rw [ipv6L4Checksum_congr h (by rw [hfield]; omega), r.valid.checksum]
  · rw [h.getLe (by omega), r.typeCode]
  · rw [loadIpv6_congr h (by omega), r.dst]
  · rw [h.bytesAt (by omega), r.message]

/-- The builders succeed in a buffer that is large enough and give frames the receiver accepts;
every accepted echo request is answered with one frame, its reply, and no other one is. -/
theorem icmpv6_frames_valid (net : NetState) :
    (∀ fr buflen maddr,
        (80 ≤ buflen → ∃ fr', ipMakeMldReport net fr buflen maddr = .ok fr') ∧
        ∀ fr', ipMakeMldReport net fr buflen maddr = .ok fr' → Icmpv6Valid fr'.len fr'.bytes) ∧
      (∀ fr buflen addr mac adv unicast flags,
        (88 ≤ buflen → ∃ fr', ipMakeNdp net fr buflen addr mac adv unicast flags = .ok fr') ∧
        ∀ fr', ipMakeNdp net fr buflen addr mac adv unicast flags = .ok fr' →
          Icmpv6Valid fr'.len fr'.bytes) ∧
      ∀ fr : Frame, fr.len < 2 ^ 16 →
        (Icmpv6EchoAccepted net fr → ∃ b, (handleIpv6 net fr).sent = [b] ∧
          b.length = 54 + ntohs (getLe fr.bytes 18 2) ∧
          ∀ m, bytesAt m 0 b.length = b → Icmpv6EchoReply fr.bytes m) ∧
        ∀ b, (handleIpv6 net fr).sent = [b] → getLe fr.bytes 54 1 = icmpv6TypeEchoRequest →
          Icmpv6EchoAccepted net fr := by
  refine ⟨fun fr _ maddr => ⟨ipMakeMldReport_ok net fr maddr, fun _ => ipMakeMldReport_valid⟩,
    fun fr _ addr mac adv unicast flags =>
      ⟨ipMakeNdp_ok net fr addr mac adv unicast flags, fun _ => ipMakeNdp_valid⟩,
    fun fr hlen => ⟨?_, ?_⟩⟩
  · intro haccepted
    obtain ⟨reply, hreply, hicmp, hsent⟩ := haccepted.answered hlen
    refine ⟨_, hsent, bytesAt_length _ _ _, fun m hm => ?_⟩
    rw [bytesAt_length] at hm
    exact hreply.congr hicmp (.of_bytesAt hm)
  · intro b hsent htype
    obtain ⟨hreceived, hicmp⟩ := handleIpv6_sent hlen hsent
    exact ⟨hreceived, htype, (handleIcmpv6_sent hicmp htype).1⟩

/-- An echo request to the address of `smallNet` with one byte of payload. -/
def smallEchoRequest : Frame where
  len := 63
  bytes := writeBytes (fun _ => 0) 0
    ([2, 0x10, 0x29, 0x38, 0x47, 0x56, 2, 1, 1, 1, 1, 1, 0x86, 0xdd] ++
      [0x60, 0, 0, 0, 0, 9, 58, 64] ++ [0xfe, 0x80, 0, 0, 0, 0, 0, 0, 1, 0, 0, 0, 0, 0, 0, 0] ++
      [0xfe, 0x80, 0, 0, 0, 0, 0, 0, 2, 0, 0, 0, 0, 0, 0, 0] ++ [0x80, 0, 0x55, 0xb2, 0, 7, 0, 1, 0x2a])

theorem icmpv6_frames_valid_small :
    ∃ reply, (handleIpv6 smallNet smallEchoRequest).sent = [reply] ∧ reply.length = 63 ∧
      Icmpv6EchoReply smallEchoRequest.bytes (writeBytes (fun _ => 0) 0 reply) := by
  have haccepted : Icmpv6EchoAccepted smallNet smallEchoRequest :=
    ⟨⟨by decide, by decide +kernel, by decide +kernel, by decide +kernel, by decide +kernel⟩,
      by decide +kernel, ⟨by decide +kernel, by decide +kernel, by decide +kernel⟩⟩
  obtain ⟨reply, hsent, hlen, hreply⟩ :=
    ((icmpv6_frames_valid smallNet).2.2 smallEchoRequest (by decide)).1 haccepted
  have hpayload : ntohs (getLe smallEchoRequest.bytes 18 2) = 9 := by decide +kernel
  rw [hpayload] at hlen
  exact ⟨reply, hsent, hlen, hreply _ (bytesAt_writeBytes _ _ _)⟩

end VijosOS
