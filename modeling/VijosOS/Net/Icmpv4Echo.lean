import VijosOS.Net.ReceivedLength

/-!
# ICMPv4 echo replies

`do_icmpv4_echo` turns the request into the reply in place and patches its checksum.
The patched sum is always a multiple of 65535; the receiver's test also wants it to be
nonzero, and an echo reply of zeros has nothing but its checksum to make it so.
-/

namespace VijosOS

open Library

/-- The tests of `handle_ipv4` and `handle_icmpv4` on the frame in `m`. -/
def Icmpv4Verifies (m : Mem) : Prop :=
  ipChecksum m 14 20 = 0 ∧ ipChecksum m 34 (ntohs (getLe m 16 2) - 20) = 0

/-! ## The patched checksum -/

/-- The checksum of the reply to a request with checksum `c`. -/
def echoChecksum (c : Nat) : Nat :=
  ipChecksumFinal (wrap32 ((0xffff - c) + ((0xffff - icmpv4TypeEchoRequest) + icmpv4TypeEchoReply)))

theorem echoChecksum_eq {c : Nat} (hc : c < 65536) :
    echoChecksum c = complement16 ((65535 - c) + 65527) := by
  have hsum : (0xffff - c) + ((0xffff - icmpv4TypeEchoRequest) + icmpv4TypeEchoReply) =
      (65535 - c) + 65527 := rfl
  rw [echoChecksum, hsum, wrap32_of_lt (by omega), ipChecksumFinal_eq (by omega)]

theorem echoChecksum_lt {c : Nat} (hc : c < 65536) : echoChecksum c < 65536 := by
  rw [echoChecksum_eq hc]
  exact Nat.lt_succ_of_le (complement16_le _)

/-- With the rest of the message summing to `r`, the reply verifies unless `r` is zero. -/
theorem echoChecksum_verifies {c r : Nat} (hc : c < 65536) (h : Verifies (8 + c + r)) :
    Verifies (echoChecksum c + r) ↔ r ≠ 0 := by
  obtain ⟨-, hdvd⟩ := h
  have hneg : 65535 ∣ (65535 - c) + 65527 + echoChecksum c := by
    rw [echoChecksum_eq hc]
    exact dvd_add_complement16 (by omega)
  have hle : echoChecksum c < 65536 := echoChecksum_lt hc
  constructor
  · rintro ⟨hne, -⟩ rfl
    -- The request's checksum is 0xfff7, and its replacement is zero.
    obtain rfl : c = 65527 := by omega
    exact hne (by decide)
  · intro hr
    exact ⟨by omega, by omega⟩

/-! ## The reply -/

/-- What `do_icmpv4_echo` keeps and what it changes of the request. -/
structure EchoReply (m reply : Mem) (total : Nat) : Prop where
  totalLen : ntohs (getLe reply 16 2) = total
  header : ipChecksum reply 14 20 = 0
  typeCode : getLe reply 34 2 = 0
  checksum : getLe reply 36 2 = echoChecksum (getLe m 36 2)
  rest : ∀ x, 38 ≤ x → reply x = m x

theorem doIcmpv4Echo_reply (net : NetState) (len : Nat) {m : Mem} (hcode : getLe m 35 1 = 0)
    (hfit : 14 + ntohs (getLe m 16 2) < 65536) :
    ∃ reply, EchoReply m reply (ntohs (getLe m 16 2)) ∧
      doIcmpv4Echo net ⟨len, m⟩ = .send net ⟨14 + ntohs (getLe m 16 2), reply⟩ := by
  unfold doIcmpv4Echo
  extract_lets b₀ l b₁ b₂ b₃ dst b₄ b₅ b₆ b₇ b₈ sum sum₁ b₉
  have hl : l = 14 + ntohs (getLe m 16 2) := wrap16_of_lt hfit
  have hmac : ∀ x, 6 ≤ x → b₁ x = m x := by
    intro x hx
    apply writeBytes_outside
    rw [bytesAt_length]
    omega
  have hheader : ipChecksum b₇ 14 20 = 0 := by
    have hzero : getLe b₆ 24 2 = 0 := getLe_putLe _ _ _ _
    exact ipChecksum_putLe b₆ 14 (j := 5) (by omega) (by omega) hzero
  have hkept : ∀ i < 20, b₉ (14 + i) = b₇ (14 + i) := by
    intro i hi
    simp (disch := omega) only [b₉, b₈, putLe_outside]
  have hrest : ∀ x, 35 ≤ x → b₈ x = m x := by
    intro x hx
    simp (disch := omega) only [b₈, b₇, b₆, b₅, b₄, b₃, b₂, storeMac, storeIpv4, putLe_outside, hmac]
  have hold : getLe b₈ 36 2 = getLe m 36 2 := getLe_congr fun i hi => hrest _ (by omega)
  have hnew : sum₁ = wrap32 ((0xffff - getLe m 36 2) +
      ((0xffff - icmpv4TypeEchoRequest) + icmpv4TypeEchoReply)) := by
    simp only [sum₁, sum, hold]
  refine ⟨b₉, ⟨?_, ?_, ?_, ?_, ?_⟩, ?_⟩
  · have htotal : getLe b₉ 16 2 = getLe b₁ 16 2 := by
      simp (disch := omega) only [b₉, b₈, b₇, b₆, b₅, b₄, b₃, b₂, storeMac, storeIpv4,
        getLe_putLe_disjoint]
    rw [htotal, getLe_congr fun i hi => hmac (16 + i) (by omega)]
  · rw [ipChecksum_eq _ _ (by omega), byteSum_congr hkept, ← ipChecksum_eq _ _ (by omega), hheader]
  · have htype : b₉ 34 = 0 := by
      have hbyte : getLe b₉ 34 1 = 0 := by
        simp (disch := omega) only [b₉, b₈, getLe_putLe_disjoint, getLe_putLe]
        rfl
      rw [getLe_one] at hbyte
      exact BitVec.eq_of_toNat_eq (by simpa using hbyte)
    have hzero : b₉ 35 = 0 := by
      have hsame : b₉ 35 = m 35 := by
        rw [← hrest 35 (by omega)]
        exact putLe_outside _ _ _ _ (by omega)
      rw [getLe_one] at hcode
      rw [hsame]
      exact BitVec.eq_of_toNat_eq (by simpa using hcode)
    rw [getLe_two, htype, hzero]
    rfl
  · have hlt := echoChecksum_lt (getLe_lt m 36 2)
    have hput : getLe b₉ 36 2 = ipChecksumFinal sum₁ % 256 ^ 2 := getLe_putLe _ _ _ _
    rw [hput, hnew]
    exact Nat.mod_eq_of_lt hlt
  · intro x hx
    rw [← hrest x (by omega)]
    exact putLe_outside _ _ _ _ (by omega)
  · rw [if_neg (not_not_intro hcode), hl]

/-- What follows the checksum field in the reply is that of the request. -/
theorem EchoReply.verifies_iff {m reply : Mem} {total : Nat} (r : EchoReply m reply total)
    (htotal : 28 ≤ total) (hmax : total < 65536) (htype : getLe m 34 1 = icmpv4TypeEchoRequest)
    (hcode : getLe m 35 1 = 0) (hsum : ipChecksum m 34 (total - 20) = 0) :
    Icmpv4Verifies reply ↔ ∃ i, 38 ≤ i ∧ i < 14 + total ∧ m i ≠ 0 := by
  obtain ⟨k, rfl⟩ : ∃ k, total = 2 * 2 + (20 + k) := ⟨total - 24, by omega⟩
  have hlen : 2 * 2 + (20 + k) - 20 = 2 * 2 + k := by omega
  have hbytes : byteSum reply 38 k = byteSum m 38 k := byteSum_congr fun i hi => r.rest _ (by omega)
  have hword : getLe m 34 2 = 8 := by
    rw [getLe_one] at htype hcode
    rw [getLe_two, htype, hcode]
    rfl
  have hc : getLe m 36 2 < 65536 := getLe_lt m 36 2
  have hbefore : byteSum m 34 (2 * 2 + k) = 8 + getLe m 36 2 + byteSum m 38 k := by
    rw [byteSum_add]
    simp only [wordSum, Nat.reduceMul, Nat.reduceAdd, hword, Nat.zero_add]
  have hafter : byteSum reply 34 (2 * 2 + k) = echoChecksum (getLe m 36 2) + byteSum m 38 k := by
    rw [byteSum_add, ← hbytes]
    simp only [wordSum, Nat.reduceMul, Nat.reduceAdd, r.typeCode, r.checksum, Nat.zero_add]
  have hle := byteSum_le m 34 (2 * 2 + k)
  have hle' := byteSum_le reply 34 (2 * 2 + k)
  have hrequest : Verifies (8 + getLe m 36 2 + byteSum m 38 k) := by
    rw [hlen, ipChecksum_eq _ _ (by omega), complement16_eq_zero (by omega), hbefore] at hsum
    exact hsum
  have hreply : ipChecksum reply 34 (2 * 2 + k) = 0 ↔ byteSum m 38 k ≠ 0 := by
    rw [ipChecksum_eq _ _ (by omega), complement16_eq_zero (by omega), hafter]
    exact echoChecksum_verifies hc hrequest
  unfold Icmpv4Verifies
  rw [r.totalLen, hlen, hreply, Ne, byteSum_eq_zero]
  push Not
  constructor
  · rintro ⟨-, i, hi, hne⟩
    exact ⟨38 + i, by omega, by omega, hne⟩
  · rintro ⟨i, hlow, hhigh, hne⟩
    refine ⟨r.header, i - 38, by omega, ?_⟩
    rwa [Nat.add_sub_cancel' hlow]

/-! ## The accepted requests -/

/-- What `handle_icmpv4` and `do_icmpv4_echo` have checked of a frame they answer. -/
structure EchoRequest (fr : Frame) : Prop where
  len : 14 + 20 + 8 ≤ fr.len
  sum : ipChecksum fr.bytes 34 (sub64 (ntohs (getLe fr.bytes 16 2)) 20) = 0
  type : getLe fr.bytes 34 1 = icmpv4TypeEchoRequest
  code : getLe fr.bytes 35 1 = 0

theorem handleIcmpv4_sent {net : NetState} {fr : Frame} {b : List Byte}
    (h : (handleIcmpv4 net fr).sent = [b]) :
    EchoRequest fr ∧ (doIcmpv4Echo net fr).sent = [b] := by
  unfold handleIcmpv4 at h
  dsimp only at h
  obtain ⟨hlen, h⟩ := sent_of_ite h
  obtain ⟨hsum, h⟩ := sent_of_ite h
  by_cases htype : getLe fr.bytes 34 1 = icmpv4TypeEchoRequest
  · rw [if_pos htype] at h
    obtain ⟨hcode, -⟩ := sent_of_ite h
    exact ⟨⟨Nat.le_of_not_lt hlen, not_not.mp hsum, htype, not_not.mp hcode⟩, h⟩
  · rw [if_neg htype] at h
    exact absurd h (List.cons_ne_nil _ _).symm

theorem handleIpv4_sent {net : NetState} {fr : Frame} {b : List Byte} (hlen : fr.len < 2 ^ 16)
    (h : (handleIpv4 net fr).sent = [b]) :
    14 + ntohs (getLe fr.bytes 16 2) < 2 ^ 16 ∧
      (handleIcmpv4 net ⟨14 + ntohs (getLe fr.bytes 16 2), fr.bytes⟩).sent = [b] := by
  unfold handleIpv4 at h
  dsimp only at h
  obtain ⟨-, h⟩ := sent_of_ite h
  obtain ⟨-, h⟩ := sent_of_ite h
  obtain ⟨-, h⟩ := sent_of_ite h
  obtain ⟨-, h⟩ := sent_of_ite h
  obtain ⟨hfit, h⟩ := sent_of_ite h
  obtain ⟨-, h⟩ := sent_of_ite h
  obtain ⟨-, h⟩ := sent_of_ite h
  obtain ⟨-, h⟩ := sent_of_ite h
  have hlt : 14 + ntohs (getLe fr.bytes 16 2) < 2 ^ 16 := by omega
  rw [wrap16_of_lt hlt] at h
  refine ⟨hlt, ?_⟩
  by_cases hicmp : getLe fr.bytes 23 1 = ipv4NextHeaderIcmp
  · rwa [if_pos hicmp] at h
  · -- A UDP datagram is dispatched and not answered.
    rw [if_neg hicmp] at h
    split_ifs at h
    all_goals first
      | exact absurd h (List.cons_ne_nil _ _).symm
      | exact absurd ((handleUdp_sent _ _ _ _ _).symm.trans h) (List.cons_ne_nil _ _).symm

/-- An echo request with identifier and sequence number zero and no payload. -/
def zeroEchoRequest : Frame where
  len := 42
  bytes := writeBytes (fun _ => 0) 0
    ([2, 0x10, 0x29, 0x38, 0x47, 0x56, 2, 1, 1, 1, 1, 1, 8, 0] ++
      [0x45, 0, 0, 28, 0, 0, 0, 0, 64, 1, 0xf7, 0x57, 192, 168, 1, 55, 192, 168, 1, 2] ++
      [8, 0, 0xf7, 0xff, 0, 0, 0, 0])

/-- The reply to the echo request of zeros. -/
def zeroEchoReply : List Byte :=
  [2, 1, 1, 1, 1, 1, 2, 0x10, 0x29, 0x38, 0x47, 0x56, 8, 0] ++
    [0x45, 0, 0, 28, 0, 0, 0, 0, 255, 1, 0x38, 0x57, 192, 168, 1, 2, 192, 168, 1, 55] ++
    List.replicate 8 0

theorem icmpv4Echo_not_always :
    ¬ ∀ (net : NetState) (fr : Frame), fr.len < 2 ^ 16 → ∀ b, (handleIpv4 net fr).sent = [b] →
      ∀ m, bytesAt m 0 b.length = b → Icmpv4Verifies m := by
  intro h
  have hsent : (handleIpv4 smallNet zeroEchoRequest).sent = [zeroEchoReply] := by
    decide +kernel
  have hverifies := h smallNet zeroEchoRequest (by decide) _ hsent
    (writeBytes (fun _ => 0) 0 zeroEchoReply) (bytesAt_writeBytes _ _ _)
  exact absurd hverifies.2 (by decide +kernel)

/-- Exactly the replies with a byte other than zero after the checksum field verify. -/
theorem icmpv4Echo_verifies_iff (net : NetState) (fr : Frame) (hlen : fr.len < 2 ^ 16) {b : List Byte}
    (h : (handleIpv4 net fr).sent = [b]) (m : Mem) (hm : bytesAt m 0 b.length = b) :
    Icmpv4Verifies m ↔ ∃ i, 38 ≤ i ∧ i < 14 + ntohs (getLe fr.bytes 16 2) ∧ fr.bytes i ≠ 0 := by
  obtain ⟨hfit, hicmp⟩ := handleIpv4_sent hlen h
  obtain ⟨hreq, hsent⟩ := handleIcmpv4_sent hicmp
  obtain ⟨reply, hreply, hecho⟩ := doIcmpv4Echo_reply net
    (14 + ntohs (getLe fr.bytes 16 2)) hreq.code hfit
  have htotal : 28 ≤ ntohs (getLe fr.bytes 16 2) := by
    have hfull : 14 + 20 + 8 ≤ 14 + ntohs (getLe fr.bytes 16 2) := hreq.len
    omega
  have hsum : ipChecksum fr.bytes 34 (ntohs (getLe fr.bytes 16 2) - 20) = 0 := by
    have hreqsum := hreq.sum
    dsimp only at hreqsum
    rwa [sub64_of_le (by omega) (by omega)] at hreqsum
  obtain rfl : bytesAt reply 0 (14 + ntohs (getLe fr.bytes 16 2)) = b := by
    rw [hecho] at hsent
    exact List.singleton_injective hsent
  rw [bytesAt_length] at hm
  have hagree : AgreeUpTo (14 + ntohs (getLe fr.bytes 16 2)) m reply := .of_bytesAt hm
  have hfield : getLe m 16 2 = getLe reply 16 2 := hagree.getLe (by omega)
  replace hreply : EchoReply fr.bytes reply (ntohs (getLe fr.bytes 16 2)) := hreply
  have hsame : Icmpv4Verifies m ↔ Icmpv4Verifies reply := by
    unfold Icmpv4Verifies
    rw [hfield, hreply.totalLen, ipChecksum_congr hagree (by omega),
      ipChecksum_congr hagree (by omega)]
  rw [hsame]
  exact hreply.verifies_iff htotal (by omega) hreq.type hreq.code hsum

theorem icmpv4Echo_verifies_iff_small :
    Icmpv4Verifies (writeBytes (fun _ => 0) 0 zeroEchoReply) ↔
      ∃ i, 38 ≤ i ∧ i < 14 + 28 ∧ zeroEchoRequest.bytes i ≠ 0 :=
  icmpv4Echo_verifies_iff smallNet zeroEchoRequest (by decide)
    (by decide +kernel : (handleIpv4 smallNet zeroEchoRequest).sent = [zeroEchoReply])
    (writeBytes (fun _ => 0) 0 zeroEchoReply) (bytesAt_writeBytes _ _ _)

end VijosOS
