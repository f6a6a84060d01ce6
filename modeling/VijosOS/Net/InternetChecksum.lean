import VijosOS.Library.Rfc1071
import VijosOS.Net.Icmpv6Frames
import VijosOS.Net.RoundTrip

/-!
# The checksum and its reference

The sums of `ip.h` and of the two pseudo-headers against RFC 1071, for every buffer that a
16-bit length can describe.
-/

namespace VijosOS

open Library

/-- A number in network byte order. -/
def beBytes (n v : Nat) : List Byte := (leBytes n v).reverse

def ipv4PseudoHeader (src dst : List Byte) (nextHeader : Byte) (len : Nat) : List Byte :=
  src ++ dst ++ ([0, nextHeader] ++ beBytes 2 len)

def ipv6PseudoHeader (src dst : List Byte) (nextHeader : Byte) (len : Nat) : List Byte :=
  src ++ dst ++ (beBytes 4 len ++ [0, 0, 0, nextHeader])

/-- What `ipv4_l4_checksum` covers. -/
def ipv4L4Bytes (m : Mem) (a len : Nat) : List Byte :=
  ipv4PseudoHeader (bytesAt m (a + 12) 4) (bytesAt m (a + 16) 4) (m (a + 9)) len ++ bytesAt m (a + 20) len

/-- What `ipv6_l4_checksum` covers. -/
def ipv6L4Bytes (m : Mem) (a : Nat) : List Byte :=
  let len := ntohs (getLe m (a + 4) 2)
  ipv6PseudoHeader (bytesAt m (a + 8) 16) (bytesAt m (a + 24) 16) (m (a + 6)) len ++ bytesAt m (a + 40) len

/-! ## Sums of bytes -/

theorem byteSum_eq_leWords (m : Mem) (a len : Nat) : byteSum m a len = (leWords (bytesAt m a len)).sum := by
  induction len using Nat.twoStepInduction generalizing a with
  | zero => rfl
  | one => simp [byteSum, wordSum, leWords, pairs, bytesAt, getLe_one]
  | more len ih _ =>
    have hbytes : bytesAt m a (len + 2) = m a :: m (a + 1) :: bytesAt m (a + 2) len := by
      rw [Nat.add_comm, bytesAt_add]
      rfl
    have hword : wordSum m a 1 = (m a).toNat + 256 * (m (a + 1)).toNat := by
      simp [wordSum, getLe_two]
    have hrest := byteSum_add m a 1 len
    rw [show 2 * 1 + len = len + 2 by omega, ih, hword] at hrest
    rw [hrest, hbytes]
    rfl

theorem sum_leWords_append {xs : List Byte} (hxs : xs.length % 2 = 0) (ys : List Byte) :
    (leWords (xs ++ ys)).sum = (leWords xs).sum + (leWords ys).sum := by
  unfold leWords
  rw [pairs_append _ hxs, List.sum_append]

/-- The length of the pseudo-header is the word that `htons` makes of it. -/
theorem sum_leWords_beBytes (len : Nat) : (leWords (beBytes 2 len)).sum = htons len := by
  have hsum : (leWords (beBytes 2 len)).sum = len / 256 % 256 + 256 * (len % 256) := by
    simp [beBytes, leBytes, leWords, pairs]
  rw [hsum, htons, ntohs_eq]
  omega

theorem sum_leWords_beBytes_four {len : Nat} (hlen : len < 65536) :
    (leWords (beBytes 4 len)).sum = htons len := by
  have hhigh : len / 65536 = 0 := Nat.div_eq_of_lt hlen
  have hsum : (leWords (beBytes 4 len)).sum = len / 256 % 256 + 256 * (len % 256) := by
    simp [beBytes, leBytes, leWords, pairs, Nat.div_div_eq_div_mul, hhigh]
  rw [hsum, htons, ntohs_eq]
  omega

theorem ipv4L4Sum_eq_leWords (m : Mem) (a len : Nat) :
    ipv4L4Sum m a len = (leWords (ipv4L4Bytes m a len)).sum := by
  have htail : (leWords ([0, m (a + 9)] ++ beBytes 2 len)).sum = getLe m (a + 9) 1 * 256 + htons len := by
    rw [sum_leWords_append (by simp), sum_leWords_beBytes]
    simp [leWords, pairs, getLe_one, Nat.mul_comm]
  unfold ipv4L4Bytes ipv4PseudoHeader
  rw [sum_leWords_append (by simp [beBytes]), sum_leWords_append (by simp), sum_leWords_append (by simp), htail,
    ← byteSum_eq_leWords, ← byteSum_eq_leWords, ← byteSum_eq_leWords, ipv4L4Sum]
  omega

theorem ipv6L4Sum_eq_leWords (m : Mem) (a : Nat) : ipv6L4Sum m a = (leWords (ipv6L4Bytes m a)).sum := by
  have hfield := getLe_lt m (a + 4) 2
  have htail : (leWords (beBytes 4 (ntohs (getLe m (a + 4) 2)) ++ [0, 0, 0, m (a + 6)])).sum =
      getLe m (a + 4) 2 + getLe m (a + 6) 1 * 256 := by
    have hlen : htons (ntohs (getLe m (a + 4) 2)) = getLe m (a + 4) 2 := ntohs_htons hfield
    rw [sum_leWords_append (by simp [beBytes]), sum_leWords_beBytes_four (ntohs_lt _), hlen]
    simp [leWords, pairs, getLe_one, Nat.mul_comm]
  unfold ipv6L4Bytes ipv6PseudoHeader
  dsimp only
  rw [sum_leWords_append (by simp [beBytes]), sum_leWords_append (by simp), sum_leWords_append (by simp), htail,
    ← byteSum_eq_leWords, ← byteSum_eq_leWords, ← byteSum_eq_leWords, ipv6L4Sum]
  omega

/-! ## The accumulator -/

/-- No addition of `ip_checksum_partial` reaches 2 ^ 32. -/
structure ExactPartial (m : Mem) (a len : Nat) : Prop where
  words : ∀ n < len / 2, checksumWords m a n + getLe m (a + 2 * n) 2 < 2 ^ 32
  tail : len % 2 = 1 → checksumWords m a (len / 2) + getLe m (a + (len - 1)) 1 < 2 ^ 32

/-- No addition of `ipv4_l4_checksum` reaches 2 ^ 32: every sum on the way is at most the last one. -/
structure ExactIpv4 (m : Mem) (a len : Nat) : Prop where
  src : ExactPartial m (a + 12) 4
  dst : ExactPartial m (a + 16) 4
  payload : ExactPartial m (a + 20) len
  terms : ipChecksumPartial m (a + 12) 4 + ipChecksumPartial m (a + 16) 4 + htons len +
    (getLe m (a + 9) 1 <<< 8) + ipChecksumPartial m (a + 20) len < 2 ^ 32

/-- No addition of `ipv6_l4_checksum` reaches 2 ^ 32. -/
structure ExactIpv6 (m : Mem) (a : Nat) : Prop where
  src : ExactPartial m (a + 8) 16
  dst : ExactPartial m (a + 24) 16
  payload : ExactPartial m (a + 40) (ntohs (getLe m (a + 4) 2))
  terms : ipChecksumPartial m (a + 8) 16 + ipChecksumPartial m (a + 24) 16 + getLe m (a + 4) 2 +
    (getLe m (a + 6) 1 <<< 8) + ipChecksumPartial m (a + 40) (ntohs (getLe m (a + 4) 2)) < 2 ^ 32

theorem exactPartial (m : Mem) (a : Nat) {len : Nat} (hlen : len ≤ 65535) : ExactPartial m a len := by
  have hsum : ∀ n ≤ len / 2, checksumWords m a n ≤ 65535 * n := by
    intro n hn
    have hwords := wordSum_le m a n
    rw [checksumWords_eq, wrap32_of_lt (by omega)]
    exact hwords
  constructor
  · intro n hn
    have hword := getLe_lt m (a + 2 * n) 2
    have hbefore := hsum n (by omega)
    omega
  · intro _
    have hlast := getLe_lt m (a + (len - 1)) 1
    have hbefore := hsum (len / 2) (Nat.le_refl _)
    omega

theorem exactIpv4 (m : Mem) (a : Nat) {len : Nat} (hlen : len ≤ 65535) : ExactIpv4 m a len := by
  refine ⟨exactPartial _ _ (by decide), exactPartial _ _ (by decide), exactPartial _ _ hlen, ?_⟩
  have hlt := ipv4L4Sum_lt m a (Nat.le_succ_of_le hlen)
  rw [ipChecksumPartial_of_lt m (a + 12) (by omega), ipChecksumPartial_of_lt m (a + 16) (by omega),
    ipChecksumPartial_of_lt m (a + 20) (by omega), Nat.shiftLeft_eq]
  unfold ipv4L4Sum at hlt
  omega

theorem exactIpv6 (m : Mem) (a : Nat) : ExactIpv6 m a := by
  have hlen := ntohs_lt (getLe m (a + 4) 2)
  have hlt := ipv6L4Sum_lt m a
  refine ⟨exactPartial _ _ (by decide), exactPartial _ _ (by decide), exactPartial _ _ (by omega), ?_⟩
  rw [ipChecksumPartial_of_lt m (a + 8) (by omega), ipChecksumPartial_of_lt m (a + 24) (by omega),
    ipChecksumPartial_of_lt m (a + 40) (by omega), Nat.shiftLeft_eq]
  unfold ipv6L4Sum at hlt
  omega

/-! ## The result -/

/-- A 16-bit result whose bytes in memory are the reference checksum. -/
def IsReference (r : Nat) (bs : List Byte) : Prop := r < 65536 ∧ beWords (leBytes 2 r) = [rfc1071 bs]

theorem isReference_complement16 {bs : List Byte} (hsum : (leWords bs).sum < 2 ^ 32) :
    IsReference (complement16 (leWords bs).sum) bs :=
  ⟨Nat.lt_succ_of_le (complement16_le _), beWords_complement16 hsum⟩

theorem checksum_reference (m : Mem) (a : Nat) {len : Nat} (hlen : len ≤ 65535) :
    (ExactPartial m a len ∧ IsReference (ipChecksum m a len) (bytesAt m a len) ∧
      ∀ j < len / 2, getLe m (a + 2 * j) 2 = 0 →
        ipChecksum (putLe m (a + 2 * j) 2 (ipChecksum m a len)) a len = 0) ∧
    (ExactIpv4 m a len ∧ IsReference (ipv4L4Checksum m a len) (ipv4L4Bytes m a len) ∧
      ∀ j < len / 2, getLe m (a + 20 + 2 * j) 2 = 0 →
        ipv4L4Checksum (putLe m (a + 20 + 2 * j) 2 (ipv4L4Checksum m a len)) a len = 0) ∧
    (ExactIpv6 m a ∧ IsReference (ipv6L4Checksum m a) (ipv6L4Bytes m a) ∧
      ∀ j < ntohs (getLe m (a + 4) 2) / 2, getLe m (a + 40 + 2 * j) 2 = 0 →
        ipv6L4Checksum (putLe m (a + 40 + 2 * j) 2 (ipv6L4Checksum m a)) a = 0) := by
  refine ⟨⟨exactPartial m a hlen, ?_, ?_⟩, ⟨exactIpv4 m a hlen, ?_, ?_⟩, ⟨exactIpv6 m a, ?_, ?_⟩⟩
  · have hsum := byteSum_le m a len
    rw [ipChecksum_eq m a (by omega)]
    rw [byteSum_eq_leWords] at hsum ⊢
    exact isReference_complement16 (by omega)
  · exact fun j hj hzero => ipChecksum_putLe m a (by omega) hj hzero
  · have hlt := ipv4L4Sum_lt m a (Nat.le_succ_of_le hlen)
    rw [ipv4L4Checksum_eq m a (by omega)]
    rw [ipv4L4Sum_eq_leWords m a len] at hlt ⊢
    exact isReference_complement16 (by omega)
  · exact fun j hj hzero => ipv4L4Checksum_putLe m a (by omega) hj hzero
  · have hlt := ipv6L4Sum_lt m a
    rw [ipv6L4Checksum_eq m a]
    rw [ipv6L4Sum_eq_leWords m a] at hlt ⊢
    exact isReference_complement16 (by omega)
  · exact fun j hj hzero => ipv6L4Checksum_putLe m a hj hzero

theorem checksum_reference_small :
    let m := writeBytes (fun _ => 0) 0 [0x45, 0x00, 0x1c]
    beWords (leBytes 2 (ipChecksum m 0 3)) = [rfc1071 (bytesAt m 0 3)] ∧
      rfc1071 (bytesAt m 0 3) = 0x9eff ∧ ipv4L4Checksum (putLe m 20 2 (ipv4L4Checksum m 0 3)) 0 3 = 0 :=
  ⟨(checksum_reference _ 0 (by decide)).1.2.1.2, by decide,
    (checksum_reference _ 0 (by decide)).2.1.2.2 0 (by decide) (by decide)⟩

end VijosOS
