import VijosOS.Net.ReceivedLength
import VijosOS.Net.SendUdp

/-!
# UDP round trip

`UdpWire` is a well-formed UDP frame over IPv4, field by field. `send_udp` builds one, and
`handle_frame` of the destination dispatches what a well-formed frame carries.
-/

namespace VijosOS

open Library

structure UdpWire (m : Mem) (src dst : Ipv4Addr) (sport dport : Port) (payload : List Byte) :
    Prop where
  ethertype : getLe m 12 2 = ethTypeIpv4
  version : getLe m 14 1 = 0x45
  totalLen : ntohs (getLe m 16 2) = 20 + 8 + payload.length
  nextHeader : getLe m 23 1 = ipNextHeaderUdp
  src : loadIpv4 m 26 = src
  dst : loadIpv4 m 30 = dst
  srcPort : ntohs (getLe m 34 2) = sport.toNat
  dstPort : ntohs (getLe m 36 2) = dport.toNat
  udpLen : ntohs (getLe m 38 2) = 8 + payload.length
  bytes : bytesAt m 42 payload.length = payload
  headerSum : ipChecksum m 14 20 = 0
  l4Sum : ipv4L4Checksum m 14 (8 + payload.length) = 0

/-! ## The pseudo-header checksum -/

/-- The plain sum of what `ipv4_l4_checksum` covers. -/
def ipv4L4Sum (m : Mem) (a len : Nat) : Nat :=
  byteSum m (a + 12) 4 + byteSum m (a + 16) 4 + htons len + getLe m (a + 9) 1 * 256 +
    byteSum m (a + 20) len

theorem ipv4L4Sum_lt (m : Mem) (a : Nat) {len : Nat} (hlen : len ≤ 65536) :
    ipv4L4Sum m a len < 2 ^ 32 - 65536 := by
  have hsrc := byteSum_le m (a + 12) 4
  have hdst := byteSum_le m (a + 16) 4
  have hpayload := byteSum_le m (a + 20) len
  have hproto := getLe_lt m (a + 9) 1
  have hport : htons len < 65536 := ntohs_lt len
  unfold ipv4L4Sum
  omega

theorem ipv4L4Checksum_eq (m : Mem) (a : Nat) {len : Nat} (hlen : len ≤ 65536) :
    ipv4L4Checksum m a len = complement16 (ipv4L4Sum m a len) := by
  have hlt := ipv4L4Sum_lt m a hlen
  unfold ipv4L4Sum at hlt
  unfold ipv4L4Checksum ipv4L4Sum
  dsimp only
  rw [ipChecksumPartial_of_lt m (a + 12) (by omega), ipChecksumPartial_of_lt m (a + 16) (by omega),
    ipChecksumPartial_of_lt m (a + 20) hlen, Nat.shiftLeft_eq]
  simp (disch := omega) only [wrap32_of_lt]
  exact ipChecksumFinal_eq (by omega)

theorem ipv4L4Checksum_zero_iff (m : Mem) (a : Nat) {len : Nat} (hlen : len ≤ 65536) :
    ipv4L4Checksum m a len = 0 ↔ Verifies (ipv4L4Sum m a len) := by
  have hsum := ipv4L4Sum_lt m a hlen
  rw [ipv4L4Checksum_eq m a hlen, complement16_eq_zero (by omega)]

theorem ipv4L4Checksum_putLe (m : Mem) (a : Nat) {j len : Nat} (hlen : len ≤ 65536) (hj : j < len / 2)
    (hzero : getLe m (a + 20 + 2 * j) 2 = 0) :
    ipv4L4Checksum (putLe m (a + 20 + 2 * j) 2 (ipv4L4Checksum m a len)) a len = 0 := by
  have hlt := ipv4L4Sum_lt m a hlen
  have hle := complement16_le (ipv4L4Sum m a len)
  have hfield := byteSum_complement16 m (a + 20) (ipv4L4Sum m a len) hj hzero
  have hbefore : ∀ b n, b + n ≤ a + 20 →
      byteSum (putLe m (a + 20 + 2 * j) 2 (complement16 (ipv4L4Sum m a len))) b n = byteSum m b n := by
    intro b n hb
    exact byteSum_congr fun i hi => writeBytes_outside _ _ _ (by omega)
  have hproto : getLe (putLe m (a + 20 + 2 * j) 2 (complement16 (ipv4L4Sum m a len))) (a + 9) 1 =
      getLe m (a + 9) 1 := getLe_putLe_disjoint _ _ _ _ _ _ (by omega)
  have hsum : ipv4L4Sum (putLe m (a + 20 + 2 * j) 2 (complement16 (ipv4L4Sum m a len))) a len =
      ipv4L4Sum m a len + complement16 (ipv4L4Sum m a len) := by
    rw [ipv4L4Sum, hbefore _ _ (by omega), hbefore _ _ (by omega), hproto, hfield]
    generalize complement16 (ipv4L4Sum m a len) = c
    unfold ipv4L4Sum
    omega
  rw [ipv4L4Checksum_eq m a hlen, ipv4L4Checksum_zero_iff _ a hlen, hsum]
  exact verifies_add_complement16 (by omega)

/-! ## The encoder -/

theorem UdpWire.congr {m m' : Mem} {src dst : Ipv4Addr} {sport dport : Port} {payload : List Byte}
    (w : UdpWire m src dst sport dport payload)
    (h : ∀ x, 12 ≤ x → x < 42 + payload.length → m x = m' x) :
    UdpWire m' src dst sport dport payload := by
  have hfield : ∀ a n, 12 ≤ a → a + n ≤ 42 + payload.length → getLe m a n = getLe m' a n :=
    fun a n ha hn => getLe_congr fun i hi => h _ (by omega) (by omega)
  have hsum : ∀ a n, 12 ≤ a → a + n ≤ 42 + payload.length →
      ipChecksumPartial m a n = ipChecksumPartial m' a n := by
    intro a n ha hn
    rw [ipChecksumPartial_eq, ipChecksumPartial_eq, byteSum_congr fun i hi => h _ (by omega) (by omega)]
  exact {
    ethertype := by rw [← hfield _ _ (by omega) (by omega), w.ethertype]
    version := by rw [← hfield _ _ (by omega) (by omega), w.version]
    totalLen := by rw [← hfield _ _ (by omega) (by omega), w.totalLen]
    nextHeader := by rw [← hfield _ _ (by omega) (by omega), w.nextHeader]
    src := by rw [loadIpv4, ← hfield _ _ (by omega) (by omega), ← w.src, loadIpv4]
    dst := by rw [loadIpv4, ← hfield _ _ (by omega) (by omega), ← w.dst, loadIpv4]
    srcPort := by rw [← hfield _ _ (by omega) (by omega), w.srcPort]
    dstPort := by rw [← hfield _ _ (by omega) (by omega), w.dstPort]
    udpLen := by rw [← hfield _ _ (by omega) (by omega), w.udpLen]
    bytes := by
      have hbytes : bytesAt m 42 payload.length = bytesAt m' 42 payload.length :=
        bytesAt_congr fun i hi => h _ (by omega) (by omega)
      rw [← hbytes, w.bytes]
    headerSum := by rw [ipChecksum, ← hsum _ _ (by omega) (by omega), ← ipChecksum, w.headerSum]
    l4Sum := by
      have hl4 := w.l4Sum
      unfold ipv4L4Checksum at hl4 ⊢
      rwa [hsum _ _ (by omega) (by omega), hsum _ _ (by omega) (by omega),
        hsum _ _ (by omega) (by omega), hfield _ _ (by omega) (by omega)] at hl4 }

theorem udpFrame_wire (net : NetState) (buff : Mem) (sport dport : Port) (dst : Ipv4Addr)
    {payload : List Byte} (hlen : payload.length ≤ 4052) :
    UdpWire (udpFrame net buff sport (ipv4Compatible dst) dport payload).bytes net.ifinfo.ipv4 dst
      sport dport payload := by
  have hsport := sport.isLt
  have hdport := dport.isLt
  have hload : ∀ ip : Ipv4Addr, BitVec.ofNat 32 (ip.toNat % 256 ^ 4) = ip := by
    intro ip
    have hlt : ip.toNat < 256 ^ 4 := ip.isLt
    rw [Nat.mod_eq_of_lt hlt, BitVec.ofNat_toNat, BitVec.setWidth_eq]
  have hhtons : ∀ x, x < 65536 → ntohs (htons x % 256 ^ 2) = x := by
    intro x hx
    have hlt : htons x < 256 ^ 2 := ntohs_lt x
    rw [Nat.mod_eq_of_lt hlt, ntohs_htons hx]
  unfold udpFrame
  extract_lets l b₁ b₂ b₃ b₄ b₅ b₆ b₇ b₈ b₉ b₁₀ b₁₁ b₁₂ b₁₃ b₁₄ b₁₅ b₁₆ b₁₇ b₁₈
  have hheader : ipChecksum b₁₂ 14 20 = 0 := by
    have hzero : getLe b₁₁ 24 2 = 0 := getLe_putLe _ _ _ _
    exact ipChecksum_putLe b₁₁ 14 (j := 5) (by omega) (by omega) hzero
  have hl4 : ipv4L4Checksum b₁₈ 14 (8 + l) = 0 := by
    have hzero : getLe b₁₇ 40 2 = 0 := getLe_putLe _ _ _ _
    exact ipv4L4Checksum_putLe b₁₇ 14 (j := 3) (by omega) (by omega) hzero
  have hkept : ∀ i < 20, b₁₈ (14 + i) = b₁₂ (14 + i) := by
    intro i hi
    simp (disch := omega) only [b₁₈, b₁₇, b₁₆, b₁₅, b₁₄, b₁₃, putLe_outside, writeBytes_outside]
  -- The IPv4 fields are those of `b₁₀`, the UDP fields those of `b₁₅`.
  have hip : ∀ a n, a + n ≤ 24 ∨ 26 ≤ a ∧ a + n ≤ 34 → getLe b₁₈ a n = getLe b₁₀ a n := by
    intro a n ha
    simp (disch := omega) only [b₁₈, b₁₇, b₁₆, b₁₅, b₁₄, b₁₃, b₁₂, b₁₁, getLe_putLe_disjoint,
      getLe_writeBytes_disjoint]
  have hudp : ∀ a n, a + n ≤ 40 → getLe b₁₈ a n = getLe b₁₅ a n := by
    intro a n ha
    simp (disch := omega) only [b₁₈, b₁₇, b₁₆, getLe_putLe_disjoint, getLe_writeBytes_disjoint]
  exact {
    ethertype := by
      rw [hip _ _ (by omega)]
      simp (disch := omega) only [b₁₀, b₉, b₈, b₇, b₆, b₅, b₄, b₃, b₂, b₁, storeIpv4,
        getLe_putLe_disjoint, getLe_putLe]
      rfl
    version := by
      rw [hip _ _ (by omega)]
      simp (disch := omega) only [b₁₀, b₉, b₈, b₇, b₆, b₅, b₄, b₃, b₂, storeIpv4,
        getLe_putLe_disjoint, getLe_putLe]
      rfl
    totalLen := by
      rw [hip _ _ (by omega)]
      simp (disch := omega) only [b₁₀, b₉, b₈, b₇, b₆, b₅, b₄, storeIpv4, getLe_putLe_disjoint,
        getLe_putLe]
      exact hhtons _ (by omega)
    nextHeader := by
      rw [hip _ _ (by omega)]
      simp (disch := omega) only [b₁₀, b₉, b₈, storeIpv4, getLe_putLe_disjoint, getLe_putLe]
      rfl
    src := by
      rw [loadIpv4, hip _ _ (by omega)]
      simp (disch := omega) only [b₁₀, b₉, storeIpv4, getLe_putLe_disjoint, getLe_putLe]
      exact hload _
    dst := by
      rw [loadIpv4, hip _ _ (by omega)]
      simp only [b₁₀, storeIpv4, getLe_putLe, extractIpv4_ipv4Compatible]
      exact hload _
    srcPort := by
      rw [hudp _ _ (by omega)]
      simp (disch := omega) only [b₁₅, b₁₄, b₁₃, getLe_putLe_disjoint, getLe_putLe]
      exact hhtons _ hsport
    dstPort := by
      rw [hudp _ _ (by omega)]
      simp (disch := omega) only [b₁₅, b₁₄, getLe_putLe_disjoint, getLe_putLe]
      exact hhtons _ hdport
    udpLen := by
      rw [hudp _ _ (by omega), getLe_putLe]
      exact hhtons _ (by omega)
    bytes := by
      have hbytes : bytesAt b₁₈ 42 l = bytesAt b₁₆ 42 l := by
        apply bytesAt_congr
        intro i hi
        simp (disch := omega) only [b₁₈, b₁₇, putLe_outside]
      exact hbytes.trans (bytesAt_writeBytes b₁₅ 42 payload)
    headerSum := by
      rw [ipChecksum_eq _ _ (by omega), byteSum_congr hkept, ← ipChecksum_eq _ _ (by omega), hheader]
    l4Sum := hl4 }

/-! ## The decoder -/

/-- A well-formed frame for this host gives one dispatch, of what it carries. -/
theorem UdpWire.handleIpv4 {m : Mem} {src dst : Ipv4Addr} {sport dport : Port} {payload : List Byte}
    (w : UdpWire m src dst sport dport payload) (hlen : payload.length ≤ 4052) {host : NetState}
    (hhost : host.ifinfo.ipv4 = dst) :
    handleIpv4 host ⟨42 + payload.length, m⟩ =
      ⟨0, host, [], [⟨dport.toNat, ipv4Compatible src, sport.toNat, payload⟩]⟩ := by
  have hwrap : wrap16 (14 + (20 + 8 + payload.length)) = 42 + payload.length := by
    rw [wrap16_of_lt (by omega)]
    omega
  have htome : ipv4IsToMe host dst = true := by simp [ipv4IsToMe, hhost]
  have hl4 : ipv4L4Checksum m 14 (20 + 8 + payload.length - 20) = 0 := by
    rw [show 20 + 8 + payload.length - 20 = 8 + payload.length by omega, w.l4Sum]
  unfold VijosOS.handleIpv4
  dsimp only
  rw [w.version, w.headerSum, w.totalLen, w.dst, w.src, w.nextHeader, hwrap, htome, hl4]
  rw [if_neg (by omega), if_neg (by decide), if_neg (by decide), if_neg (by decide),
    if_neg (by omega), if_neg (by omega), if_neg (by decide), if_neg (fun h => h.2 rfl),
    if_neg (by decide), if_pos rfl, if_neg (by omega), if_neg (by simp)]
  unfold handleUdp
  dsimp only
  rw [w.udpLen, w.srcPort, w.dstPort, if_neg (by omega), if_neg (by omega), if_neg (by omega),
    Nat.add_sub_cancel_left, w.bytes]

/-! ## The round trip -/

theorem sendUdp_roundtrip (net : NetState) (buff : Mem) (sport dport : Port) (dst : Ipv4Addr)
    (payload : List Byte) {mac : Mac} (hmac : ipQueryMac net (ipv4Compatible dst) = .ok mac)
    (haccept : (sendUdp net buff sport (ipv4Compatible dst) dport payload).ret ≠ -eOOB) :
    ∃ wire, (sendUdp net buff sport (ipv4Compatible dst) dport payload).sent = [wire] ∧
      ∀ (host : NetState) (m : Mem), bytesAt m 0 wire.length = wire →
        wire.take 6 = leBytes 6 host.ifinfo.mac.toNat → host.ifinfo.ipv4 = dst →
        (handleFrame host ⟨wire.length, m⟩).dispatched =
            [⟨dport.toNat, ipv4Compatible net.ifinfo.ipv4, sport.toNat, payload⟩] ∧
          ipChecksum m 14 20 = 0 ∧ ipv4L4Checksum m 14 (8 + payload.length) = 0 := by
  have hlen : payload.length ≤ 4052 := by
    by_contra hlong
    apply haccept
    unfold sendUdp
    rw [if_pos (by omega)]
    rfl
  have hframe := udpFrame_wire net buff sport dport dst hlen
  obtain ⟨fr, hfr⟩ : ∃ fr, fr = udpFrame net buff sport (ipv4Compatible dst) dport payload := ⟨_, rfl⟩
  have hsize : fr.len = 42 + payload.length := by
    rw [hfr]
    show 14 + 20 + 8 + payload.length = _
    omega
  rw [← hfr] at hframe
  have hsend : sendUdp net buff sport (ipv4Compatible dst) dport payload =
      .send net ⟨fr.len, storeMac (storeMac fr.bytes 6 net.ifinfo.mac) 0 mac⟩ := by
    unfold sendUdp
    rw [if_neg (by omega), ← hfr, ipSend, hmac]
    rfl
  -- `ip_send_with_mac` writes below the fields of `UdpWire`.
  have hwire : UdpWire (storeMac (storeMac fr.bytes 6 net.ifinfo.mac) 0 mac) net.ifinfo.ipv4 dst
      sport dport payload := by
    refine hframe.congr fun x hx _ => ?_
    rw [storeMac, storeMac, putLe_outside _ _ _ _ (by omega), putLe_outside _ _ _ _ (by omega)]
  generalize storeMac (storeMac fr.bytes 6 net.ifinfo.mac) 0 mac = sent at hsend hwire
  rw [hsend, hsize]
  refine ⟨bytesAt sent 0 (42 + payload.length), rfl, fun host m hbytes hdst hhost => ?_⟩
  rw [bytesAt_length] at hbytes ⊢
  have hagree : AgreeUpTo (42 + payload.length) sent m := .of_bytesAt hbytes.symm
  have hreceived : UdpWire m net.ifinfo.ipv4 dst sport dport payload :=
    hwire.congr fun x _ hx => hagree x hx
  refine ⟨?_, hreceived.headerSum, hreceived.l4Sum⟩
  have htome : bytesAt m 0 6 = leBytes 6 host.ifinfo.mac.toNat := by
    rw [← hdst, ← hbytes, bytesAt_take _ _ (by omega)]
  unfold handleFrame
  dsimp only
  rw [if_neg (not_not_intro (Or.inr htome)), hreceived.ethertype, if_neg (by decide), if_pos rfl,
    hreceived.handleIpv4 hlen hhost]

theorem sendUdp_roundtrip_small :
    ∃ wire, (sendUdp { smallNet with serverMac := 0x010101010102 } (fun _ => 0xaa) 1024
        (ipv4Compatible 0x3701a8c0) 6969 [1, 2, 3]).sent = [wire] ∧
      ∀ (host : NetState) (m : Mem), bytesAt m 0 wire.length = wire →
        wire.take 6 = leBytes 6 host.ifinfo.mac.toNat → host.ifinfo.ipv4 = 0x3701a8c0 →
        (handleFrame host ⟨wire.length, m⟩).dispatched =
            [⟨6969, ipv4Compatible 0x0201a8c0, 1024, [1, 2, 3]⟩] ∧
          ipChecksum m 14 20 = 0 ∧ ipv4L4Checksum m 14 (8 + 3) = 0 :=
  sendUdp_roundtrip { smallNet with serverMac := 0x010101010102 } (fun _ => 0xaa) 1024 6969 0x3701a8c0
    [1, 2, 3] (by rfl) (by decide)

end VijosOS
