import VijosOS.Library.ByteMemory
import VijosOS.Library.OnesComplement

/-!
# The reference checksum

RFC 1071 adds big-endian 16-bit words with end-around carry. A little-endian sum that is folded
once at its end gives the same bytes, because swapping the bytes of a word multiplies it by
256 modulo 65535.
-/

namespace VijosOS.Library

/-! ## Words of a byte string -/

/-- The pairs of a byte string, an odd last byte paired with zero. -/
def pairs (word : Byte → Byte → Nat) : List Byte → List Nat
  | [] => []
  | [b] => [word b 0]
  | b :: c :: bs => word b c :: pairs word bs

def beWords : List Byte → List Nat := pairs fun b c => 256 * b.toNat + c.toNat

def leWords : List Byte → List Nat := pairs fun b c => b.toNat + 256 * c.toNat

theorem pairs_append (word : Byte → Byte → Nat) {xs : List Byte} (hxs : xs.length % 2 = 0) (ys : List Byte) :
    pairs word (xs ++ ys) = pairs word xs ++ pairs word ys := by
  induction xs using pairs.induct with
  | case1 => rfl
  | case2 b => cases hxs
  | case3 b c bs ih =>
    have hbs : bs.length % 2 = 0 := by
      simp only [List.length_cons] at hxs
      omega
    simp only [List.cons_append, pairs, ih hbs]

theorem le_of_mem_beWords {bs : List Byte} {w : Nat} (hw : w ∈ beWords bs) : w ≤ 65535 := by
  unfold beWords at hw
  induction bs using pairs.induct with
  | case1 => cases hw
  | case2 b =>
    have hb := b.isLt
    obtain rfl := List.mem_singleton.mp hw
    show 256 * b.toNat + 0 ≤ 65535
    omega
  | case3 b c bs ih =>
    have hb := b.isLt
    have hc := c.isLt
    rcases List.mem_cons.mp hw with rfl | hw
    · show 256 * b.toNat + c.toNat ≤ 65535
      omega
    · exact ih hw

/-- The byte order of the words is a factor of 256 modulo 65535. -/
theorem sum_leWords_mod (bs : List Byte) : 256 * (leWords bs).sum % 65535 = (beWords bs).sum % 65535 := by
  unfold leWords beWords
  induction bs using pairs.induct with
  | case1 => rfl
  | case2 b => simp [pairs]
  | case3 b c bs ih =>
    simp only [pairs, List.sum_cons]
    omega

theorem sum_leWords_eq_zero (bs : List Byte) : (leWords bs).sum = 0 ↔ (beWords bs).sum = 0 := by
  unfold leWords beWords
  induction bs using pairs.induct with
  | case1 => rfl
  | case2 b => simp [pairs]
  | case3 b c bs ih =>
    simp only [pairs, List.sum_cons]
    omega

theorem dvd_sum_leWords (bs : List Byte) : 65535 ∣ (leWords bs).sum ↔ 65535 ∣ (beWords bs).sum := by
  have hmod := sum_leWords_mod bs
  omega

/-! ## End-around carry -/

/-- Ones'-complement addition. -/
def addCarry (x y : Nat) : Nat := fold16 (x + y)

/-- The checksum of RFC 1071. -/
def rfc1071 (bs : List Byte) : Nat := 65535 - (beWords bs).foldl addCarry 0

/-- A sum with end-around carry is the residue modulo 65535, with the nonzero representative of zero. -/
theorem foldl_addCarry {ws : List Nat} (hws : ∀ w ∈ ws, w ≤ 65535) {x : Nat} (hx : x ≤ 65535) :
    ws.foldl addCarry x ≤ 65535 ∧ ws.foldl addCarry x % 65535 = (x + ws.sum) % 65535 ∧
      (ws.foldl addCarry x = 0 ↔ x + ws.sum = 0) := by
  induction ws generalizing x with
  | nil => exact ⟨hx, rfl, Iff.rfl⟩
  | cons w ws ih =>
    have hw : w ≤ 65535 := hws w List.mem_cons_self
    have hle : addCarry x w ≤ 65535 := by
      unfold addCarry fold16
      omega
    have hmod : addCarry x w % 65535 = (x + w) % 65535 := fold16_mod _
    have hzero : addCarry x w = 0 ↔ x + w = 0 := fold16_eq_zero _
    obtain ⟨hle', hmod', hzero'⟩ := ih (fun v hv => hws v (List.mem_cons_of_mem _ hv)) hle
    rw [List.foldl_cons, List.sum_cons]
    refine ⟨hle', ?_, ?_⟩
    · rw [hmod', Nat.add_mod, hmod, ← Nat.add_mod, Nat.add_assoc]
    · rw [hzero']
      omega

/-! ## The two sums -/

theorem beWords_leBytes {r : Nat} (hr : r ≤ 65535) :
    beWords (leBytes 2 r) = [256 * (r % 256) + r / 256] := by
  have hhigh : r / 256 % 256 = r / 256 := Nat.mod_eq_of_lt (by omega)
  simp [beWords, leBytes, pairs, hhigh]

/-- The complement of the folded little-endian sum is the reference checksum in memory order. -/
theorem beWords_complement16 {bs : List Byte} (hsum : (leWords bs).sum < 2 ^ 32) :
    beWords (leBytes 2 (complement16 (leWords bs).sum)) = [rfc1071 bs] := by
  have hwords : ∀ w ∈ beWords bs, w ≤ 65535 := fun _ => le_of_mem_beWords
  obtain ⟨hle, hmod, hzero⟩ := foldl_addCarry hwords (Nat.zero_le 65535)
  have hswap := sum_leWords_mod bs
  have hswap_zero := sum_leWords_eq_zero bs
  have hfold := fold16_fold16_le hsum
  have hfold_mod : fold16 (fold16 (leWords bs).sum) % 65535 = (leWords bs).sum % 65535 := by
    rw [fold16_mod, fold16_mod]
  have hfold_zero : fold16 (fold16 (leWords bs).sum) = 0 ↔ (leWords bs).sum = 0 := by
    rw [fold16_eq_zero, fold16_eq_zero]
  rw [beWords_leBytes (complement16_le _), rfc1071, complement16]
  congr 1
  generalize fold16 (fold16 (leWords bs).sum) = s at *
  generalize (beWords bs).foldl addCarry 0 = c at *
  -- Swapping the bytes of `s` gives the residue of the big-endian sum.
  have hs : 256 * (s % 256) + s / 256 = c := by omega
  omega

end VijosOS.Library
