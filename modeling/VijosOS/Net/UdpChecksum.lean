import VijosOS.Net.InternetChecksum

/-!
# The checksum of a sent datagram

`send_udp` stores what `ipv4_l4_checksum` returns. The receiver's sum over the frame is always
zero; the field itself is zero, which the receiver takes for no checksum, exactly when the words
of the datagram and its pseudo-header sum to a multiple of 65535.
-/

namespace VijosOS

open Library

/-- The pseudo-header, the UDP header with a zero checksum, and the payload. -/
def udpSegment (src dst : Ipv4Addr) (sport dport : Port) (payload : List Byte) : List Byte :=
  let len := 8 + payload.length
  ipv4PseudoHeader (leBytes 4 src.toNat) (leBytes 4 dst.toNat) (BitVec.ofNat 8 ipNextHeaderUdp) len ++
    (beBytes 2 sport.toNat ++ (beBytes 2 dport.toNat ++ (beBytes 2 len ++ ([0, 0] ++ payload))))

/-! ## The bytes of the frame -/

theorem leBytes_of_ntohs {x v : Nat} (hx : x < 65536) (h : ntohs x = v) : leBytes 2 x = beBytes 2 v := by
  obtain rfl := h
  rw [ntohs_eq]
  have hhigh : x / 256 % 256 = x / 256 := Nat.mod_eq_of_lt (by omega)
  have hlow : (x % 256 * 256 + x / 256) / 256 = x % 256 := by omega
  simp only [beBytes, leBytes, hhigh, hlow, List.reverse_cons, List.reverse_nil, List.nil_append,
    List.singleton_append, List.cons.injEq, and_true]
  constructor
  · exact BitVec.eq_of_toNat_eq (by simp)
  · exact BitVec.eq_of_toNat_eq (by simp)

theorem bytesAt_loadIpv4 {m : Mem} {a : Nat} {ip : Ipv4Addr} (h : loadIpv4 m a = ip) :
    bytesAt m a 4 = leBytes 4 ip.toNat := by
  have hlt : getLe m a 4 < 2 ^ 32 := getLe_lt m a 4
  rw [bytesAt_eq_leBytes, ← h, loadIpv4, BitVec.toNat_ofNat, Nat.mod_eq_of_lt hlt]

/-- What the checksum covers while its own field is zero. -/
theorem UdpWire.segment {m : Mem} {c : Nat} {src dst : Ipv4Addr} {sport dport : Port} {payload : List Byte}
    (w : UdpWire (putLe m 40 2 c) src dst sport dport payload) (hzero : getLe m 40 2 = 0) :
    ipv4L4Bytes m 14 (8 + payload.length) = udpSegment src dst sport dport payload := by
  have hkept : ∀ a n, a + n ≤ 40 → getLe m a n = getLe (putLe m 40 2 c) a n := by
    intro a n ha
    exact (getLe_putLe_disjoint _ _ _ _ _ _ (by omega)).symm
  have hword : ∀ a v, a + 2 ≤ 40 → ntohs (getLe (putLe m 40 2 c) a 2) = v → bytesAt m a 2 = beBytes 2 v := by
    intro a v ha hv
    rw [bytesAt_eq_leBytes, hkept a 2 ha]
    exact leBytes_of_ntohs (getLe_lt _ _ _) hv
  have hsrc : bytesAt m 26 4 = leBytes 4 src.toNat :=
    bytesAt_loadIpv4 (by rw [loadIpv4, hkept _ _ (by omega), ← w.src, loadIpv4])
  have hdst : bytesAt m 30 4 = leBytes 4 dst.toNat :=
    bytesAt_loadIpv4 (by rw [loadIpv4, hkept _ _ (by omega), ← w.dst, loadIpv4])
  have hproto : m 23 = BitVec.ofNat 8 ipNextHeaderUdp := by
    apply BitVec.eq_of_toNat_eq
    rw [← getLe_one, hkept _ _ (by omega), w.nextHeader]
    rfl
  have hfield : bytesAt m 40 2 = [0, 0] := by
    rw [bytesAt_eq_leBytes, hzero]
    rfl
  have hpayload : bytesAt m 42 payload.length = payload := by
    rw [← w.bytes, bytesAt_length]
    exact bytesAt_congr fun i hi => (putLe_outside _ _ _ _ (by omega)).symm
  have hudp : bytesAt m 34 (8 + payload.length) = bytesAt m 34 2 ++ (bytesAt m 36 2 ++ (bytesAt m 38 2 ++
      (bytesAt m 40 2 ++ bytesAt m 42 payload.length))) := by
    rw [show 8 + payload.length = 2 + (2 + (2 + (2 + payload.length))) by omega]
    simp only [bytesAt_add]
  rw [ipv4L4Bytes, udpSegment, hudp, hsrc, hdst, hproto, hfield, hpayload,
    hword 34 _ (by omega) w.srcPort, hword 36 _ (by omega) w.dstPort, hword 38 _ (by omega) w.udpLen]

/-! ## The field -/

/-- The frame is checksummed last, over a zero field. -/
theorem udpFrame_bytes (net : NetState) (buff : Mem) (sport : Port) (daddr : Ipv6Addr) (dport : Port)
    (payload : List Byte) : ∃ m, getLe m 40 2 = 0 ∧
      (udpFrame net buff sport daddr dport payload).bytes =
        putLe m 40 2 (ipv4L4Checksum m 14 (8 + payload.length)) :=
  ⟨_, getLe_putLe _ _ _ _, rfl⟩

theorem udpFrame_extractIpv4 (net : NetState) (buff : Mem) (sport : Port) (daddr : Ipv6Addr) (dport : Port)
    (payload : List Byte) : udpFrame net buff sport daddr dport payload =
      udpFrame net buff sport (ipv4Compatible (extractIpv4 daddr)) dport payload := by
  unfold udpFrame
  rw [extractIpv4_ipv4Compatible]

theorem ipv4L4Checksum_lt (m : Mem) (a : Nat) {len : Nat} (hlen : len ≤ 65536) :
    ipv4L4Checksum m a len < 65536 := by
  rw [ipv4L4Checksum_eq m a hlen]
  exact Nat.lt_succ_of_le (complement16_le _)

/-- The protocol number of the pseudo-header alone makes the sum positive. -/
theorem sum_udpSegment_ne_zero (src dst : Ipv4Addr) (sport dport : Port) (payload : List Byte) :
    (leWords (udpSegment src dst sport dport payload)).sum ≠ 0 := by
  have hproto : (leWords ([0, BitVec.ofNat 8 ipNextHeaderUdp] ++ beBytes 2 (8 + payload.length))).sum =
      4352 + (leWords (beBytes 2 (8 + payload.length))).sum := by
    rw [sum_leWords_append (by simp)]
    rfl
  rw [udpSegment, ipv4PseudoHeader, sum_leWords_append (by simp [beBytes]), sum_leWords_append (by simp),
    sum_leWords_append (by simp), hproto]
  omega

/-- The frame that `send_udp` hands to `ip_send` carries a checksum unless the words of what it
covers sum to a multiple of 65535. -/
theorem sendUdp_checksum_iff (net : NetState) (buff : Mem) (sport : Port) (daddr : Ipv6Addr) (dport : Port)
    (payload : List Byte) (haccept : 16 + 20 + 8 + payload.length ≤ 4096) :
    let fr := udpFrame net buff sport daddr dport payload
    sendUdp net buff sport daddr dport payload = ipSend net fr daddr ∧
      ((getLe fr.bytes 40 2 ≠ 0 ∧ ipv4L4Checksum fr.bytes 14 (8 + payload.length) = 0) ↔
        ¬ 65535 ∣ (beWords (udpSegment net.ifinfo.ipv4 (extractIpv4 daddr) sport dport payload)).sum) := by
  intro fr
  have hlen : payload.length ≤ 4052 := by omega
  have hsend : sendUdp net buff sport daddr dport payload = ipSend net fr daddr := by
    unfold sendUdp
    rw [if_neg (by omega)]
  have hwire : UdpWire fr.bytes net.ifinfo.ipv4 (extractIpv4 daddr) sport dport payload := by
    have h := udpFrame_wire net buff sport dport (extractIpv4 daddr) hlen
    rwa [← udpFrame_extractIpv4] at h
  obtain ⟨m, hzero, hbytes⟩ := udpFrame_bytes net buff sport daddr dport payload
  have hsegment := (hbytes ▸ hwire).segment hzero
  have hfield : getLe fr.bytes 40 2 = ipv4L4Checksum m 14 (8 + payload.length) := by
    rw [hbytes, getLe_putLe]
    exact Nat.mod_eq_of_lt (ipv4L4Checksum_lt m 14 (by omega))
  refine ⟨hsend, ?_⟩
  rw [and_iff_left hwire.l4Sum, ne_eq, hfield, ipv4L4Checksum_zero_iff m 14 (by omega), ipv4L4Sum_eq_leWords,
    hsegment, Verifies, and_iff_right (sum_udpSegment_ne_zero _ _ _ _ _), dvd_sum_leWords]

theorem sendUdp_checksum_iff_small :
    let fr := udpFrame smallNet (fun _ => 0xaa) 1024 (ipv4Compatible 0x3701a8c0) 6969 [1, 2, 3]
    getLe fr.bytes 40 2 ≠ 0 ∧ ipv4L4Checksum fr.bytes 14 (8 + 3) = 0 :=
  (sendUdp_checksum_iff smallNet (fun _ => 0xaa) 1024 (ipv4Compatible 0x3701a8c0) 6969 [1, 2, 3]
    (by decide)).2.mpr (by decide +kernel)

/-- Two bytes whose datagram is sent with a checksum of zero. -/
theorem sendUdp_unprotected :
    ¬ ∀ (net : NetState) (buff : Mem) (sport : Port) (daddr : Ipv6Addr) (dport : Port) (payload : List Byte),
      16 + 20 + 8 + payload.length ≤ 4096 →
        let fr := udpFrame net buff sport daddr dport payload
        getLe fr.bytes 40 2 ≠ 0 ∧ ipv4L4Checksum fr.bytes 14 (8 + payload.length) = 0 := by
  intro h
  have hsent := h smallNet (fun _ => 0xaa) 1024 (ipv4Compatible 0x3701a8c0) 6969 [0x5d, 0x17] (by decide)
  exact hsent.1 (by decide +kernel)

end VijosOS
