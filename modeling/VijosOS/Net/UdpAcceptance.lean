import VijosOS.Net.RoundTrip

/-!
# Which UDP datagrams over IPv4 are accepted

`handle_ipv4` looks neither at the fragment offset nor at the flag for more fragments, and sums
everything after the IPv4 header where the UDP checksum covers `udp->len` octets. The accepted
frames are those of the standard except where one of these two differences shows.
-/

namespace VijosOS

open Library

/-! ## The standard -/

def ipv4TotalLen (m : Mem) : Nat := ntohs (getLe m 16 2)
def udpLen (m : Mem) : Nat := ntohs (getLe m 38 2)
def udpChecksum (m : Mem) : Nat := getLe m 40 2

/-- The fragment offset is not 0, or more fragments follow. -/
def IsFragment (m : Mem) : Prop := ntohs (getLe m 20 2) &&& 0x3fff ≠ 0

instance (m : Mem) : Decidable (IsFragment m) := inferInstanceAs (Decidable (_ ≠ _))

/-- The frame is for this host, and its IPv4 and UDP headers and their lengths are right. -/
structure UdpHeadersOk (net : NetState) (fr : Frame) : Prop where
  mac : getLe fr.bytes 0 1 &&& 1 ≠ 0 ∨ bytesAt fr.bytes 0 6 = leBytes 6 net.ifinfo.mac.toNat
  header : 14 + 20 ≤ fr.len
  version : getLe fr.bytes 14 1 >>> 4 = 4
  headerSum : Verifies (byteSum fr.bytes 14 20)
  fits : 14 + ipv4TotalLen fr.bytes ≤ fr.len
  dst : loadIpv4 fr.bytes 30 = net.ifinfo.ipv4
  protocol : getLe fr.bytes 23 1 = ipNextHeaderUdp
  udpSome : 8 ≤ udpLen fr.bytes
  udpFits : 20 + udpLen fr.bytes ≤ ipv4TotalLen fr.bytes

/-- The standard accepts the datagram of the frame. -/
structure UdpAcceptable (net : NetState) (fr : Frame) : Prop where
  headers : UdpHeadersOk net fr
  whole : ¬ IsFragment fr.bytes
  sum : udpChecksum fr.bytes = 0 ∨ Verifies (ipv4L4Sum fr.bytes 14 (udpLen fr.bytes))

/-- The datagram in a frame: the octets of `udp->len` after the UDP header. -/
def udpOf (m : Mem) : UdpDispatch :=
  ⟨ntohs (getLe m 36 2), ipv4Compatible (loadIpv4 m 26), ntohs (getLe m 34 2),
    bytesAt m 42 (udpLen m - 8)⟩

/-- The frame is dispatched exactly when the standard accepts it, with the octets of the datagram. -/
def StandardOutcome (net : NetState) (fr : Frame) : Prop :=
  (UdpAcceptable net fr → (handleFrame net fr).dispatched = [udpOf fr.bytes]) ∧
    (¬ UdpAcceptable net fr → (handleFrame net fr).dispatched = [])

/-! ## The code -/

/-- What `handle_frame` checks of a UDP datagram over IPv4. -/
structure UdpAccepted (net : NetState) (fr : Frame) : Prop where
  headers : UdpHeadersOk net fr
  sum : udpChecksum fr.bytes = 0 ∨ Verifies (ipv4L4Sum fr.bytes 14 (ipv4TotalLen fr.bytes - 20))

/-- A frame with an IPv4 header without options, as the device hands it over. -/
structure Ipv4NoOptions (fr : Frame) : Prop where
  ethertype : getLe fr.bytes 12 2 = ethTypeIpv4
  headerLen : getLe fr.bytes 14 1 &&& 0xf = 5
  len : fr.len < 2 ^ 16

theorem dispatched_of_ite {net : NetState} {ret : Int} {c : Prop} [Decidable c] {r : FrameResult}
    (h : (if c then .drop net ret else r).dispatched ≠ []) : ¬ c ∧ r.dispatched ≠ [] := by
  by_cases hc : c
  · rw [if_pos hc] at h
    exact absurd rfl h
  · rw [if_neg hc] at h
    exact ⟨hc, h⟩

theorem ipChecksum_zero_iff (m : Mem) (a : Nat) {len : Nat} (hlen : len ≤ 65536) :
    ipChecksum m a len = 0 ↔ Verifies (byteSum m a len) := by
  have hsum := byteSum_le m a len
  rw [ipChecksum_eq m a hlen, complement16_eq_zero (by omega)]

section Accept

variable {net : NetState} {fr : Frame}

theorem doIcmpv4Echo_dispatched (net : NetState) (fr : Frame) : (doIcmpv4Echo net fr).dispatched = [] := by
  unfold doIcmpv4Echo
  dsimp only
  split_ifs <;> rfl

theorem handleIcmpv4_dispatched (net : NetState) (fr : Frame) : (handleIcmpv4 net fr).dispatched = [] := by
  unfold handleIcmpv4
  dsimp only
  split_ifs
  · rfl
  · rfl
  · exact doIcmpv4Echo_dispatched net fr
  · rfl

/-- A frame that is dispatched passed every check. -/
theorem accepted_of_dispatched (hplain : Ipv4NoOptions fr) (hconf : net.ifinfo.ipv4 ≠ ipv4Unspecified)
    (h : (handleFrame net fr).dispatched ≠ []) : UdpAccepted net fr := by
  have htotal : ipv4TotalLen fr.bytes < 65536 := ntohs_lt _
  unfold handleFrame at h
  dsimp only at h
  obtain ⟨hmac, h⟩ := dispatched_of_ite h
  rw [hplain.ethertype, if_neg (by decide), if_pos rfl] at h
  unfold handleIpv4 at h
  dsimp only at h
  obtain ⟨hheader, h⟩ := dispatched_of_ite h
  obtain ⟨hversion, h⟩ := dispatched_of_ite h
  obtain ⟨_, h⟩ := dispatched_of_ite h
  obtain ⟨hsum, h⟩ := dispatched_of_ite h
  obtain ⟨hfits, h⟩ := dispatched_of_ite h
  obtain ⟨_, h⟩ := dispatched_of_ite h
  obtain ⟨htome, h⟩ := dispatched_of_ite h
  obtain ⟨_, h⟩ := dispatched_of_ite h
  by_cases hicmp : getLe fr.bytes 23 1 = ipv4NextHeaderIcmp
  · rw [if_pos hicmp] at h
    exact absurd (handleIcmpv4_dispatched _ _) h
  rw [if_neg hicmp] at h
  by_cases hudp : getLe fr.bytes 23 1 = ipNextHeaderUdp
  · rw [if_pos hudp] at h
    obtain ⟨_, h⟩ := dispatched_of_ite h
    obtain ⟨hl4, h⟩ := dispatched_of_ite h
    unfold handleUdp at h
    dsimp only at h
    obtain ⟨_, h⟩ := dispatched_of_ite h
    obtain ⟨hlen, h⟩ := dispatched_of_ite h
    obtain ⟨hsome, _⟩ := dispatched_of_ite h
    have hlt := hplain.len
    have hfield : getLe fr.bytes (34 + 4) 2 = getLe fr.bytes 38 2 := rfl
    rw [hfield] at hlen hsome
    rw [wrap16_of_lt (by omega)] at hlen
    have hdst : loadIpv4 fr.bytes 30 = net.ifinfo.ipv4 := by
      simpa [ipv4IsToMe, hconf] using htome
    unfold ipv4TotalLen at htotal
    refine ⟨⟨not_not.mp hmac, Nat.le_of_not_lt hheader, not_not.mp hversion, ?_, Nat.le_of_not_lt hfits, hdst,
      hudp, Nat.le_of_not_lt hsome, ?_⟩, ?_⟩
    · exact (ipChecksum_zero_iff fr.bytes 14 (by decide)).mp (not_not.mp hsum)
    · unfold udpLen ipv4TotalLen
      omega
    · rw [← ipv4L4Checksum_zero_iff fr.bytes 14 (by unfold ipv4TotalLen; omega)]
      by_contra hbad
      rw [not_or] at hbad
      exact hl4 hbad
  · rw [if_neg hudp] at h
    exact absurd rfl h

/-- A frame that passes every check is dispatched with the octets of its datagram. -/
theorem UdpAccepted.dispatched (hplain : Ipv4NoOptions fr) (h : UdpAccepted net fr) :
    (handleFrame net fr).dispatched = [udpOf fr.bytes] := by
  obtain ⟨⟨hmac, hheader, hversion, hsum, hfits, hdst, hudp, hsome, hlen⟩, hl4⟩ := h
  have htotal : ipv4TotalLen fr.bytes < 65536 := ntohs_lt _
  have hlt := hplain.len
  have htome : ipv4IsToMe net (loadIpv4 fr.bytes 30) = true := by simp [ipv4IsToMe, hdst]
  have hheaderSum : ipChecksum fr.bytes 14 20 = 0 := (ipChecksum_zero_iff fr.bytes 14 (by decide)).mpr hsum
  have hl4Sum : ¬ (getLe fr.bytes 40 2 ≠ 0 ∧ ipv4L4Checksum fr.bytes 14 (ntohs (getLe fr.bytes 16 2) - 20) ≠ 0) := by
    rintro ⟨hne, hbad⟩
    exact hbad ((ipv4L4Checksum_zero_iff fr.bytes 14 (by unfold ipv4TotalLen at htotal; omega)).mpr
      (hl4.resolve_left hne))
  unfold ipv4TotalLen udpLen at *
  unfold handleFrame
  dsimp only
  rw [if_neg (not_not_intro hmac), hplain.ethertype, if_neg (by decide), if_pos rfl]
  unfold handleIpv4
  dsimp only
  rw [if_neg (Nat.not_lt.mpr hheader), hversion, if_neg (by decide), hplain.headerLen, if_neg (by decide),
    hheaderSum, if_neg (by decide), if_neg (Nat.not_lt.mpr hfits), if_neg (by omega), htome,
    if_neg (by decide), hudp, if_neg (fun hbad => hbad.2 rfl), if_neg (by decide), if_pos rfl,
    if_neg (by omega), if_neg hl4Sum, wrap16_of_lt (by omega)]
  have hfield : getLe fr.bytes (34 + 4) 2 = getLe fr.bytes 38 2 := rfl
  unfold handleUdp
  dsimp only
  rw [hfield, if_neg (by omega), if_neg (by omega), if_neg (by omega)]
  rfl

/-! ## Where they agree -/

/-- Of the frames with good headers, a fragment is refused by the checksum, and for a whole
datagram the two sums are congruent or neither verifies. -/
structure SumsAgree (m : Mem) : Prop where
  fragment : IsFragment m → udpChecksum m ≠ 0 ∧ ¬ 65535 ∣ ipv4L4Sum m 14 (ipv4TotalLen m - 20)
  whole : ¬ IsFragment m → udpChecksum m = 0 ∨
    ipv4L4Sum m 14 (ipv4TotalLen m - 20) % 65535 = ipv4L4Sum m 14 (udpLen m) % 65535 ∨
    ¬ 65535 ∣ ipv4L4Sum m 14 (ipv4TotalLen m - 20) ∧ ¬ 65535 ∣ ipv4L4Sum m 14 (udpLen m)

/-- The pseudo-header has the protocol, so the sum is never 0. -/
theorem verifies_udpSum {m : Mem} (hprotocol : getLe m 23 1 = ipNextHeaderUdp) (n : Nat) :
    Verifies (ipv4L4Sum m 14 n) ↔ 65535 ∣ ipv4L4Sum m 14 n := by
  have hpos : ipv4L4Sum m 14 n ≠ 0 := by
    have hfield : getLe m (14 + 9) 1 = 17 := hprotocol
    unfold ipv4L4Sum
    rw [hfield]
    omega
  exact ⟨fun h => h.2, fun h => ⟨hpos, h⟩⟩

/-- With good headers, the checks of the code and of the standard come out the same exactly when
the sums agree. -/
theorem UdpHeadersOk.agree_iff (h : UdpHeadersOk net fr) :
    (UdpAccepted net fr ↔ UdpAcceptable net fr) ↔ SumsAgree fr.bytes := by
  have hcode : UdpAccepted net fr ↔ udpChecksum fr.bytes = 0 ∨
      65535 ∣ ipv4L4Sum fr.bytes 14 (ipv4TotalLen fr.bytes - 20) := by
    rw [← verifies_udpSum h.protocol]
    exact ⟨fun ha => ha.sum, fun hs => ⟨h, hs⟩⟩
  have hstandard : UdpAcceptable net fr ↔ ¬ IsFragment fr.bytes ∧ (udpChecksum fr.bytes = 0 ∨
      65535 ∣ ipv4L4Sum fr.bytes 14 (udpLen fr.bytes)) := by
    rw [← verifies_udpSum h.protocol]
    exact ⟨fun ha => ⟨ha.whole, ha.sum⟩, fun hs => ⟨h, hs.1, hs.2⟩⟩
  rw [hcode, hstandard]
  by_cases hfragment : IsFragment fr.bytes
  · constructor
    · intro hiff
      refine ⟨fun _ => ?_, fun hwhole => absurd hfragment hwhole⟩
      rw [← not_or]
      exact fun hsum => (hiff.mp hsum).1 hfragment
    · intro hagree
      obtain ⟨hne, hbad⟩ := hagree.fragment hfragment
      exact ⟨fun hsum => absurd hsum (not_or.mpr ⟨hne, hbad⟩), fun hs => absurd hfragment hs.1⟩
  · constructor
    · intro hiff
      refine ⟨fun hfrag => absurd hfrag hfragment, fun _ => ?_⟩
      by_cases hzero : udpChecksum fr.bytes = 0
      · exact Or.inl hzero
      · have hdvd : 65535 ∣ ipv4L4Sum fr.bytes 14 (ipv4TotalLen fr.bytes - 20) ↔
            65535 ∣ ipv4L4Sum fr.bytes 14 (udpLen fr.bytes) :=
          ⟨fun hd => ((hiff.mp (Or.inr hd)).2).resolve_left hzero,
            fun hd => (hiff.mpr ⟨hfragment, Or.inr hd⟩).resolve_left hzero⟩
        right
        by_cases hd : 65535 ∣ ipv4L4Sum fr.bytes 14 (udpLen fr.bytes)
        · left
          rw [Nat.mod_eq_zero_of_dvd hd, Nat.mod_eq_zero_of_dvd (hdvd.mpr hd)]
        · exact Or.inr ⟨fun hd' => hd (hdvd.mp hd'), hd⟩
    · intro hagree
      rcases hagree.whole hfragment with hzero | hmod | ⟨hbad, hbad'⟩
      · exact ⟨fun _ => ⟨hfragment, Or.inl hzero⟩, fun _ => Or.inl hzero⟩
      · rw [Nat.dvd_iff_mod_eq_zero, Nat.dvd_iff_mod_eq_zero, hmod]
        exact ⟨fun hs => ⟨hfragment, hs⟩, fun hs => hs.2⟩
      · exact ⟨fun hs => ⟨hfragment, Or.inl (hs.resolve_right hbad)⟩,
          fun hs => Or.inl (hs.2.resolve_right hbad')⟩

theorem standardOutcome_iff (hplain : Ipv4NoOptions fr) (hconf : net.ifinfo.ipv4 ≠ ipv4Unspecified) :
    StandardOutcome net fr ↔ (UdpAccepted net fr ↔ UdpAcceptable net fr) := by
  constructor
  · rintro ⟨haccept, hrefuse⟩
    constructor
    · intro hcode
      by_contra hbad
      have hnone := hrefuse hbad
      rw [hcode.dispatched hplain] at hnone
      exact absurd hnone (List.cons_ne_nil _ _)
    · intro hstandard
      apply accepted_of_dispatched hplain hconf
      rw [haccept hstandard]
      exact List.cons_ne_nil _ _
  · intro hiff
    refine ⟨fun hstandard => (hiff.mpr hstandard).dispatched hplain, fun hbad => ?_⟩
    by_contra hne
    exact hbad (hiff.mp (accepted_of_dispatched hplain hconf hne))

end Accept

/-- A frame is dispatched as the standard says exactly when a header is bad or the sums agree. -/
theorem handleFrame_udp_iff (net : NetState) (fr : Frame) (hplain : Ipv4NoOptions fr)
    (hconf : net.ifinfo.ipv4 ≠ ipv4Unspecified) :
    StandardOutcome net fr ↔ (UdpHeadersOk net fr → SumsAgree fr.bytes) := by
  rw [standardOutcome_iff hplain hconf]
  constructor
  · intro hiff hheaders
    exact hheaders.agree_iff.mp hiff
  · intro h
    by_cases hheaders : UdpHeadersOk net fr
    · exact hheaders.agree_iff.mpr (h hheaders)
    · exact ⟨fun hs => absurd hs.headers hheaders, fun hs => absurd hs.headers hheaders⟩

/-- The first fragment of a datagram: an empty one without a checksum. -/
def firstFragment : Frame where
  len := 42
  bytes := writeBytes (fun _ => 0) 0
    ([2, 0x10, 0x29, 0x38, 0x47, 0x56, 2, 1, 1, 1, 1, 1, 8, 0] ++
      [0x45, 0, 0, 28, 0, 0, 0x20, 0, 64, 17, 0xd7, 0x47, 192, 168, 1, 55, 192, 168, 1, 2] ++
      [4, 0, 0x1b, 0x39, 0, 8, 0, 0])

theorem firstFragment_plain : Ipv4NoOptions firstFragment := ⟨by decide, by decide, by decide⟩

/-- The theorem at the first fragment. -/
theorem handleFrame_udp_iff_small : StandardOutcome smallNet firstFragment ↔
    (UdpHeadersOk smallNet firstFragment → SumsAgree firstFragment.bytes) :=
  handleFrame_udp_iff smallNet firstFragment firstFragment_plain (by decide)

/-- The fragment is dispatched. -/
theorem handleFrame_udp_not_always : ¬ ∀ (net : NetState) (fr : Frame), Ipv4NoOptions fr →
    net.ifinfo.ipv4 ≠ ipv4Unspecified → StandardOutcome net fr := by
  intro h
  have hfragment : IsFragment firstFragment.bytes := by decide
  have hnone := (h smallNet firstFragment firstFragment_plain (by decide)).2 fun ha => ha.whole hfragment
  have hone : (handleFrame smallNet firstFragment).dispatched.length = 1 := by decide
  rw [hnone] at hone
  exact absurd hone (by decide)

end VijosOS
