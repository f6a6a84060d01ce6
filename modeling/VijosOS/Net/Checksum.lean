import VijosOS.Library.ByteMemory
import VijosOS.Library.OnesComplement
import VijosOS.Library.Words

/-!
# The Internet checksum of `ip.h`

Byte order conversion and the checksum over 16-bit little-endian words, with the
32-bit accumulator of the source.
-/

namespace VijosOS

open Library

def wrap16 (x : Nat) : Nat := x % 2 ^ 16
def wrap32 (x : Nat) : Nat := x % 2 ^ 32

def ntohs (x : Nat) : Nat := ((x <<< 8) &&& 0xff00) ||| ((x >>> 8) &&& 0xff)

def htons (x : Nat) : Nat := ntohs x

/-- The first `n` iterations of the checksum loop over the words at `a`. -/
def checksumWords (m : Mem) (a : Nat) : Nat → Nat
  | 0 => 0
  | n + 1 => wrap32 (checksumWords m a n + getLe m (a + 2 * n) 2)

def ipChecksumPartial (m : Mem) (a len : Nat) : Nat :=
  let checksum := checksumWords m a (len / 2)
  if len % 2 = 1 then wrap32 (checksum + getLe m (a + (len - 1)) 1) else checksum

def checksumNegWords (m : Mem) (a : Nat) : Nat → Nat
  | 0 => 0
  | n + 1 => wrap32 (checksumNegWords m a n + (0xffff - getLe m (a + 2 * n) 2))

def ipChecksumNegPartial (m : Mem) (a len : Nat) : Nat :=
  let checksum := checksumNegWords m a (len / 2)
  if len % 2 = 1 then wrap32 (checksum + (0xffff - getLe m (a + (len - 1)) 1)) else checksum

def ipChecksumFinal (checksum : Nat) : Nat :=
  let checksum := (checksum &&& 0xffff) + (checksum >>> 16)
  let checksum := (checksum &&& 0xffff) + (checksum >>> 16)
  0xffff - (checksum &&& 0xffff)

def ipChecksum (m : Mem) (a len : Nat) : Nat := ipChecksumFinal (ipChecksumPartial m a len)

/-! ## Byte order -/

theorem ntohs_eq (x : Nat) : ntohs x = x % 256 * 256 + x / 256 % 256 := by
  have hhigh : x <<< 8 &&& 0xff00 = (x % 256) <<< 8 := by
    have hmask : (0xff00 : Nat) = 0xff <<< 8 := by decide
    rw [hmask, ← Nat.shiftLeft_and_distrib]
    exact congrArg (· <<< 8) (Nat.and_two_pow_sub_one_eq_mod x 8)
  have hlow : x >>> 8 &&& 0xff = x / 256 % 256 := by
    rw [Nat.shiftRight_eq_div_pow]
    exact Nat.and_two_pow_sub_one_eq_mod _ 8
  rw [ntohs, hhigh, hlow]
  exact shiftLeft_or_eq_add (k := 8) (Nat.mod_lt _ (by decide))

theorem ntohs_lt (x : Nat) : ntohs x < 65536 := by
  rw [ntohs_eq]
  omega

theorem ntohs_htons {x : Nat} (hx : x < 65536) : ntohs (htons x) = x := by
  have hhigh : x / 256 % 256 = x / 256 := Nat.mod_eq_of_lt (by omega)
  have hswap : (x % 256 * 256 + x / 256) % 256 = x / 256 := by omega
  have hswap' : (x % 256 * 256 + x / 256) / 256 = x % 256 := by omega
  rw [htons, ntohs_eq, ntohs_eq, hhigh, hswap, hswap', Nat.mod_mod]
  omega

/-! ## The accumulator -/

/-- The plain sum of the `n` little-endian words at `a`. -/
def wordSum (m : Mem) (a : Nat) : Nat → Nat
  | 0 => 0
  | n + 1 => wordSum m a n + getLe m (a + 2 * n) 2

/-- The plain sum of the words of `len` bytes at `a`, an odd last byte being a word. -/
def byteSum (m : Mem) (a len : Nat) : Nat :=
  wordSum m a (len / 2) + if len % 2 = 1 then getLe m (a + (len - 1)) 1 else 0

theorem wordSum_le (m : Mem) (a n : Nat) : wordSum m a n ≤ 65535 * n := by
  induction n with
  | zero => exact Nat.le_refl 0
  | succ n ih =>
    have hword := getLe_lt m (a + 2 * n) 2
    rw [wordSum]
    omega

theorem byteSum_le (m : Mem) (a len : Nat) : byteSum m a len ≤ 65535 * ((len + 1) / 2) := by
  have hwords := wordSum_le m a (len / 2)
  have htail := getLe_lt m (a + (len - 1)) 1
  unfold byteSum
  split_ifs <;> omega

theorem checksumWords_eq (m : Mem) (a n : Nat) : checksumWords m a n = wrap32 (wordSum m a n) := by
  induction n with
  | zero => rfl
  | succ n ih =>
    rw [checksumWords, wordSum, ih, wrap32, wrap32, wrap32, Nat.mod_add_mod]

theorem ipChecksumPartial_eq (m : Mem) (a len : Nat) :
    ipChecksumPartial m a len = wrap32 (byteSum m a len) := by
  unfold ipChecksumPartial byteSum
  dsimp only
  rw [checksumWords_eq]
  split_ifs
  · rw [wrap32, wrap32, wrap32, Nat.mod_add_mod]
  · rw [Nat.add_zero]

theorem wrap32_of_lt {x : Nat} (hx : x < 2 ^ 32) : wrap32 x = x := Nat.mod_eq_of_lt hx

theorem wrap16_of_lt {x : Nat} (hx : x < 2 ^ 16) : wrap16 x = x := Nat.mod_eq_of_lt hx

/-- Below 65536 bytes the accumulator never wraps. -/
theorem ipChecksumPartial_of_lt (m : Mem) (a : Nat) {len : Nat} (hlen : len ≤ 65536) :
    ipChecksumPartial m a len = byteSum m a len := by
  have hsum := byteSum_le m a len
  rw [ipChecksumPartial_eq, wrap32_of_lt (by omega)]

/-- A word and its negation sum to 65535. -/
theorem checksumNegWords_add (m : Mem) (a : Nat) {n : Nat} (hn : n ≤ 32768) :
    checksumNegWords m a n + wordSum m a n = 65535 * n := by
  induction n with
  | zero => rfl
  | succ n ih =>
    have hword := getLe_lt m (a + 2 * n) 2
    have hrest := ih (by omega)
    rw [checksumNegWords, wordSum, wrap32_of_lt (by omega)]
    omega

theorem ipChecksumNegPartial_add (m : Mem) (a : Nat) {n : Nat} (hn : n ≤ 32768) :
    ipChecksumNegPartial m a (2 * n) + byteSum m a (2 * n) = 65535 * n := by
  have hodd : ¬ 2 * n % 2 = 1 := by omega
  have hhalf : 2 * n / 2 = n := by omega
  unfold ipChecksumNegPartial byteSum
  dsimp only
  rw [if_neg hodd, if_neg hodd, hhalf, Nat.add_zero, checksumNegWords_add m a hn]

theorem ipChecksumFinal_eq {x : Nat} (hx : x < 2 ^ 32) : ipChecksumFinal x = complement16 x := by
  have hfold : ∀ y, (y &&& 0xffff) + (y >>> 16) = fold16 y := by
    intro y
    rw [Nat.shiftRight_eq_div_pow]
    exact congrArg (· + y / 2 ^ 16) (Nat.and_two_pow_sub_one_eq_mod y 16)
  have hle := fold16_fold16_le hx
  have hlast : fold16 (fold16 x) &&& 0xffff = fold16 (fold16 x) :=
    (Nat.and_two_pow_sub_one_eq_mod _ 16).trans (Nat.mod_eq_of_lt (by omega))
  unfold ipChecksumFinal complement16
  dsimp only
  rw [hfold, hfold, hlast]

/-! ## Splitting a sum -/

theorem wordSum_add (m : Mem) (a j n : Nat) :
    wordSum m a (j + n) = wordSum m a j + wordSum m (a + 2 * j) n := by
  induction n with
  | zero => rfl
  | succ n ih =>
    have hword : a + 2 * (j + n) = a + 2 * j + 2 * n := by omega
    rw [← Nat.add_assoc, wordSum, wordSum, ih, hword, Nat.add_assoc]

theorem byteSum_add (m : Mem) (a j len : Nat) :
    byteSum m a (2 * j + len) = wordSum m a j + byteSum m (a + 2 * j) len := by
  have hhalf : (2 * j + len) / 2 = j + len / 2 := by omega
  have hodd : (2 * j + len) % 2 = len % 2 := by omega
  unfold byteSum
  rw [hhalf, hodd, wordSum_add]
  split_ifs with h
  · have hlast : a + (2 * j + len - 1) = a + 2 * j + (len - 1) := by omega
    rw [hlast, Nat.add_assoc]
  · rfl

theorem wordSum_eq_zero (m : Mem) (a n : Nat) : wordSum m a n = 0 ↔ ∀ i < 2 * n, m (a + i) = 0 := by
  induction n with
  | zero => simp [wordSum]
  | succ n ih =>
    rw [wordSum, Nat.add_eq_zero_iff, ih, getLe_two]
    constructor
    · rintro ⟨hrest, hword⟩ i hi
      have hlow : m (a + 2 * n) = 0 := BitVec.eq_of_toNat_eq (by simpa using by omega)
      have hhigh : m (a + 2 * n + 1) = 0 := BitVec.eq_of_toNat_eq (by simpa using by omega)
      rcases (by omega : i < 2 * n ∨ i = 2 * n ∨ i = 2 * n + 1) with h | rfl | rfl
      · exact hrest i h
      · exact hlow
      · exact hhigh
    · intro h
      have hlow := h (2 * n) (by omega)
      have hhigh := h (2 * n + 1) (by omega)
      rw [← Nat.add_assoc] at hhigh
      refine ⟨fun i hi => h i (by omega), ?_⟩
      simp [hlow, hhigh]

/-- Only zero bytes sum to zero. -/
theorem byteSum_eq_zero (m : Mem) (a len : Nat) : byteSum m a len = 0 ↔ ∀ i < len, m (a + i) = 0 := by
  unfold byteSum
  rw [Nat.add_eq_zero_iff, wordSum_eq_zero]
  split_ifs with hodd
  · rw [getLe_one]
    constructor
    · rintro ⟨hwords, hlast⟩ i hi
      by_cases hi' : i < 2 * (len / 2)
      · exact hwords i hi'
      · obtain rfl : i = len - 1 := by omega
        exact BitVec.eq_of_toNat_eq (by simpa using hlast)
    · intro h
      refine ⟨fun i hi => h i (by omega), ?_⟩
      rw [h (len - 1) (by omega)]
      rfl
  · constructor
    · rintro ⟨hwords, -⟩ i hi
      exact hwords i (by omega)
    · intro h
      exact ⟨fun i hi => h i (by omega), rfl⟩

/-! ## Writing a field -/

theorem wordSum_move {m m' : Mem} {a b n : Nat} (h : ∀ i < 2 * n, m (a + i) = m' (b + i)) :
    wordSum m a n = wordSum m' b n := by
  induction n with
  | zero => rfl
  | succ n ih =>
    have hword : getLe m (a + 2 * n) 2 = getLe m' (b + 2 * n) 2 := by
      apply getLe_move
      intro i hi
      rw [Nat.add_assoc, Nat.add_assoc]
      exact h _ (by omega)
    rw [wordSum, wordSum, ih fun i hi => h i (by omega), hword]

/-- Equal bytes at two addresses have equal sums. -/
theorem byteSum_move {m m' : Mem} {a b len : Nat} (h : ∀ i < len, m (a + i) = m' (b + i)) :
    byteSum m a len = byteSum m' b len := by
  unfold byteSum
  rw [wordSum_move fun i hi => h i (by omega)]
  split_ifs with hodd
  · congr 1
    apply getLe_move
    intro i hi
    obtain rfl : i = 0 := by omega
    exact h (len - 1) (by omega)
  · rfl

theorem wordSum_congr {m m' : Mem} {a n : Nat} (h : ∀ i < 2 * n, m (a + i) = m' (a + i)) :
    wordSum m a n = wordSum m' a n := wordSum_move h

theorem byteSum_congr {m m' : Mem} {a len : Nat} (h : ∀ i < len, m (a + i) = m' (a + i)) :
    byteSum m a len = byteSum m' a len := byteSum_move h

/-- Storing a word in an aligned field changes the sum by the difference. -/
theorem wordSum_putLe (m : Mem) (a : Nat) {j n : Nat} (v : Nat) (hj : j < n) :
    wordSum (putLe m (a + 2 * j) 2 v) a n + getLe m (a + 2 * j) 2 = wordSum m a n + v % 65536 := by
  induction n with
  | zero => omega
  | succ n ih =>
    rw [wordSum, wordSum]
    by_cases hlast : j = n
    · subst hlast
      have hbefore : wordSum (putLe m (a + 2 * j) 2 v) a j = wordSum m a j := by
        apply wordSum_congr
        intro i hi
        exact writeBytes_outside _ _ _ (by omega)
      rw [hbefore, getLe_putLe]
      omega
    · have hother := getLe_putLe_disjoint m (a + 2 * j) 2 v (a + 2 * n) 2 (by omega)
      have hrest := ih (by omega)
      rw [hother]
      omega

theorem byteSum_putLe (m : Mem) (a : Nat) {j len : Nat} (v : Nat) (hj : j < len / 2) :
    byteSum (putLe m (a + 2 * j) 2 v) a len + getLe m (a + 2 * j) 2 =
      byteSum m a len + v % 65536 := by
  have hwords := wordSum_putLe m a v hj
  have htail : len % 2 = 1 →
      getLe (putLe m (a + 2 * j) 2 v) (a + (len - 1)) 1 = getLe m (a + (len - 1)) 1 := by
    intro hodd
    exact getLe_putLe_disjoint _ _ _ _ _ _ (by omega)
  unfold byteSum
  split_ifs with hodd
  · rw [htail hodd]
    omega
  · omega

theorem ipChecksum_eq (m : Mem) (a : Nat) {len : Nat} (hlen : len ≤ 65536) :
    ipChecksum m a len = complement16 (byteSum m a len) := by
  have hsum := byteSum_le m a len
  rw [ipChecksum, ipChecksumPartial_of_lt m a hlen, ipChecksumFinal_eq (by omega)]

/-- A complement stored in a zeroed field adds itself to the sum. -/
theorem byteSum_complement16 (m : Mem) (a : Nat) {j len : Nat} (x : Nat) (hj : j < len / 2)
    (hzero : getLe m (a + 2 * j) 2 = 0) :
    byteSum (putLe m (a + 2 * j) 2 (complement16 x)) a len = byteSum m a len + complement16 x := by
  have hsum := byteSum_putLe m a (complement16 x) hj
  rwa [hzero, complement16_mod, Nat.add_zero] at hsum

/-- A checksum stored in its own zeroed field verifies. -/
theorem ipChecksum_putLe (m : Mem) (a : Nat) {j len : Nat} (hlen : len ≤ 65536) (hj : j < len / 2)
    (hzero : getLe m (a + 2 * j) 2 = 0) :
    ipChecksum (putLe m (a + 2 * j) 2 (ipChecksum m a len)) a len = 0 := by
  have hbound := byteSum_le m a len
  have hle := complement16_le (byteSum m a len)
  have hsum := byteSum_complement16 m a (byteSum m a len) hj hzero
  rw [ipChecksum_eq m a hlen, ipChecksum_eq _ a hlen, hsum, complement16_eq_zero (by omega)]
  exact verifies_add_complement16 (by omega)

end VijosOS
