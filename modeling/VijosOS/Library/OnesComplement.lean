import Mathlib.Data.Nat.ModEq
import Mathlib.Tactic.Linarith

/-!
# Sixteen-bit ones'-complement sums

Folding the carries of a 32-bit sum twice gives its residue modulo 65535 with the
nonzero representative of zero. The complement of a folded sum makes the whole verify.
-/

namespace VijosOS.Library

/-- Add the high half of a sum to its low half. -/
def fold16 (x : Nat) : Nat := x % 65536 + x / 65536

/-- The complement of a sum folded twice. -/
def complement16 (x : Nat) : Nat := 65535 - fold16 (fold16 x)

/-- A sum whose folded complement is zero. -/
def Verifies (x : Nat) : Prop := x ≠ 0 ∧ 65535 ∣ x

theorem fold16_fold16_le {x : Nat} (hx : x < 2 ^ 32) : fold16 (fold16 x) ≤ 65535 := by
  unfold fold16
  omega

theorem fold16_mod (x : Nat) : fold16 x % 65535 = x % 65535 := by
  unfold fold16
  omega

theorem fold16_eq_zero (x : Nat) : fold16 x = 0 ↔ x = 0 := by
  unfold fold16
  omega

theorem complement16_le (x : Nat) : complement16 x ≤ 65535 := Nat.sub_le _ _

theorem complement16_mod (x : Nat) : complement16 x % 65536 = complement16 x :=
  Nat.mod_eq_of_lt (Nat.lt_succ_of_le (complement16_le x))

theorem complement16_eq_zero {x : Nat} (hx : x < 2 ^ 32) : complement16 x = 0 ↔ Verifies x := by
  have hle := fold16_fold16_le hx
  have hmod : fold16 (fold16 x) % 65535 = x % 65535 := by
    rw [fold16_mod, fold16_mod]
  have hzero : fold16 (fold16 x) = 0 ↔ x = 0 := by
    rw [fold16_eq_zero, fold16_eq_zero]
  unfold complement16 Verifies
  generalize fold16 (fold16 x) = y at *
  omega

/-- A folded complement is the negation modulo 65535. -/
theorem dvd_add_complement16 {x : Nat} (hx : x < 2 ^ 32) : 65535 ∣ x + complement16 x := by
  have hle := fold16_fold16_le hx
  have hmod : fold16 (fold16 x) % 65535 = x % 65535 := by
    rw [fold16_mod, fold16_mod]
  unfold complement16
  omega

/-- A sum with its complement added verifies. -/
theorem verifies_add_complement16 {x : Nat} (hx : x < 2 ^ 32) : Verifies (x + complement16 x) := by
  have hle := fold16_fold16_le hx
  have hmod : fold16 (fold16 x) % 65535 = x % 65535 := by
    rw [fold16_mod, fold16_mod]
  have hzero : fold16 (fold16 x) = 0 ↔ x = 0 := by
    rw [fold16_eq_zero, fold16_eq_zero]
  unfold complement16 Verifies
  generalize fold16 (fold16 x) = y at *
  omega

end VijosOS.Library
