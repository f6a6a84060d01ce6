import Mathlib.Data.Nat.Digits.Lemmas
import VijosOS.Library.ByteMemory

/-!
# Numerals

Numbers written in a base up to 36, most significant digit first, and how a reader that stops at the
first other byte gets them back.
-/

namespace VijosOS.Library

/-! ## Digits -/

def digitByte (upper : Bool) (d : Nat) : Byte :=
  BitVec.ofNat 8 (if d < 10 then 0x30 + d else (if upper then 0x41 else 0x61) + d - 10)

/-- The value of a digit of the base, in either case. -/
def digitValue (base : Nat) (c : Byte) : Option Nat :=
  let n := c.toNat
  let d := if 0x30 ≤ n ∧ n ≤ 0x39 then n - 0x30
    else if 0x41 ≤ n ∧ n ≤ 0x5a then n - 0x41 + 10
    else if 0x61 ≤ n ∧ n ≤ 0x7a then n - 0x61 + 10
    else base
  if d < base then some d else none

theorem digitValue_digitByte {base d : Nat} (hbase : base ≤ 36) (hd : d < base) (upper : Bool) :
    digitValue base (digitByte upper d) = some d := by
  have hdigit : ∀ d : Fin 36, ∀ base : Fin 37, ∀ upper : Bool, d.val < base.val →
      digitValue base (digitByte upper d) = some d.val := by decide +kernel
  exact hdigit ⟨d, by omega⟩ ⟨base, by omega⟩ upper hd

/-! ## Writing -/

/-- The digits of a number; none for zero. -/
def numeral (upper : Bool) (base n : Nat) : List Byte := ((Nat.digits base n).map (digitByte upper)).reverse

section Numeral

variable {base : Nat} (upper : Bool)

@[simp] theorem numeral_zero : numeral upper base 0 = [] := by simp [numeral]

theorem numeral_step (hbase : 1 < base) {n : Nat} (hn : 0 < n) :
    numeral upper base n = numeral upper base (n / base) ++ [digitByte upper (n % base)] := by
  rw [numeral, Nat.digits_def' hbase hn, List.map_cons, List.reverse_cons]
  rfl

theorem numeral_length (n : Nat) : (numeral upper base n).length = (Nat.digits base n).length := by
  simp [numeral]

theorem numeral_length_le (hbase : 1 < base) {k n : Nat} :
    (numeral upper base n).length ≤ k ↔ n < base ^ k := by
  rw [numeral_length, Nat.digits_length_le_iff hbase]

theorem numeral_pos {n : Nat} (hn : 0 < n) : 0 < (numeral upper base n).length := by
  rw [numeral_length]
  exact List.length_pos_of_ne_nil (Nat.digits_ne_nil_iff_ne_zero.mpr hn.ne')

/-- A numeral filled up with zeros. -/
def padded (upper : Bool) (base k n : Nat) : List Byte := List.leftpad k (digitByte upper 0) (numeral upper base n)

theorem padded_eq (k n : Nat) : padded upper base k n =
    List.replicate (k - (numeral upper base n).length) (digitByte upper 0) ++ numeral upper base n := rfl

/-- Filling up twice is filling up to the larger length. -/
theorem leftpad_padded (j k n : Nat) : List.leftpad k (digitByte upper 0) (padded upper base j n) =
    padded upper base (max j k) n := by
  have hcount : k - (j - (numeral upper base n).length + (numeral upper base n).length) +
      (j - (numeral upper base n).length) = max j k - (numeral upper base n).length := by omega
  rw [List.leftpad, padded_eq, padded_eq, List.length_append, List.length_replicate, ← List.append_assoc,
    ← List.replicate_add, hcount]

theorem padded_length (hbase : 1 < base) {k n : Nat} (hn : n < base ^ k) :
    (padded upper base k n).length = k := by
  rw [padded, List.length_leftpad]
  exact max_eq_left ((numeral_length_le upper hbase).mpr hn)

end Numeral

/-! ## Reading -/

/-- Reads digits as long as there are any; what was read before is `acc`. -/
def readDigits (base acc : Nat) : List Byte → Nat × List Byte
  | [] => (acc, [])
  | c :: s =>
    match digitValue base c with
    | some d => readDigits base (acc * base + d) s
    | none => (acc, c :: s)

section Reading

variable {base : Nat} (upper : Bool)

theorem readDigits_digit (hbase : base ≤ 36) {d : Nat} (hd : d < base) (acc : Nat) (rest : List Byte) :
    readDigits base acc (digitByte upper d :: rest) = readDigits base (acc * base + d) rest := by
  rw [readDigits, digitValue_digitByte hbase hd]

theorem readDigits_numeral (hlow : 1 < base) (hbase : base ≤ 36) (acc n : Nat) (rest : List Byte) :
    readDigits base acc (numeral upper base n ++ rest) =
      readDigits base (acc * base ^ (Nat.digits base n).length + n) rest := by
  induction n using Nat.strong_induction_on generalizing rest with
  | _ n ih =>
    rcases Nat.eq_zero_or_pos n with rfl | hn
    · simp
    · have hmod : n % base < base := Nat.mod_lt _ (by omega)
      have hvalue : (acc * base ^ (Nat.digits base (n / base)).length + n / base) * base + n % base =
          acc * base ^ (Nat.digits base n).length + n := by
        have hdiv := Nat.div_add_mod n base
        rw [Nat.digits_def' hlow hn, List.length_cons, Nat.pow_succ, Nat.add_mul, Nat.mul_assoc,
          Nat.mul_comm (n / base) base]
        omega
      rw [numeral_step upper hlow hn, List.append_assoc, List.singleton_append,
        ih _ (Nat.div_lt_self hn hlow), readDigits_digit upper hbase hmod, hvalue]

theorem readDigits_zeros (hlow : 1 < base) (hbase : base ≤ 36) (k : Nat) (rest : List Byte) :
    readDigits base 0 (List.replicate k (digitByte upper 0) ++ rest) = readDigits base 0 rest := by
  induction k with
  | zero => rfl
  | succ k ih =>
    rw [List.replicate_succ, List.cons_append, readDigits_digit upper hbase (by omega)]
    simpa using ih

/-- What is read from a numeral that no digit follows. -/
theorem readDigits_padded (hlow : 1 < base) (hbase : base ≤ 36) (k n : Nat) {rest : List Byte}
    (hrest : ∀ c ∈ rest.head?, digitValue base c = none) :
    readDigits base 0 (padded upper base k n ++ rest) = (n, rest) := by
  rw [padded_eq, List.append_assoc, readDigits_zeros upper hlow hbase, readDigits_numeral upper hlow hbase,
    Nat.zero_mul, Nat.zero_add]
  cases rest with
  | nil => rfl
  | cons c rest => rw [readDigits, hrest c rfl]

end Reading

end VijosOS.Library
