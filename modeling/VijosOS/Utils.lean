import VijosOS.Library.Words

/-!
# Shared arithmetic and error codes

64-bit wrap-around, the alignment macro and the bit scan of `utils.h`, and the
codes of `error.h`.
-/

namespace VijosOS

open Library

/-- The value an unsigned 64-bit variable holds after an assignment. -/
def wrap64 (x : Nat) : Nat := x % 2 ^ 64

/-- Bitwise complement of a 64-bit value. -/
def not64 (x : Nat) : Nat := 2 ^ 64 - 1 - x

/-- Unsigned 64-bit subtraction. -/
def sub64 (x y : Nat) : Nat := wrap64 (x + (2 ^ 64 - y))

def align (x a : Nat) : Nat := wrap64 (x + a - 1) &&& not64 (a - 1)

/-- The index of the lowest clear bit, found by isolating it and testing six masks. -/
def bitsFindZero (b : BitVec 64) : Nat :=
  let b := ~~~b
  let b := b &&& -b
  (if b &&& 0xffffffff00000000#64 ≠ 0 then 32 else 0) +
  (if b &&& 0xffff0000ffff0000#64 ≠ 0 then 16 else 0) +
  (if b &&& 0xff00ff00ff00ff00#64 ≠ 0 then 8 else 0) +
  (if b &&& 0xf0f0f0f0f0f0f0f0#64 ≠ 0 then 4 else 0) +
  (if b &&& 0xcccccccccccccccc#64 ≠ 0 then 2 else 0) +
  (if b &&& 0xaaaaaaaaaaaaaaaa#64 ≠ 0 then 1 else 0)

def eNOIMPL : Int := 1
def eOOB : Int := 2
def eNOFOUND : Int := 3
def eBADPKT : Int := 4
def eTIMEOUT : Int := 7
def ePAGEFAULT : Int := 8
def eUSER : Int := 9
def eOOM : Int := 10

/-- What a function returns that returns 0 or a negative error. -/
def RetCode (ret : Int) : Prop := -eOOM ≤ ret ∧ ret ≤ 0

instance (ret : Int) : Decidable (RetCode ret) := inferInstanceAs (Decidable (_ ∧ _))

theorem wrap64_of_lt {x : Nat} (h : x < 2 ^ 64) : wrap64 x = x := Nat.mod_eq_of_lt h

theorem sub64_of_le {x y : Nat} (hx : x < 2 ^ 64) (h : y ≤ x) : sub64 x y = x - y := by
  unfold sub64 wrap64
  omega

/-- Aligning to a power of two rounds up to its next multiple. -/
theorem align_two_pow {x k : Nat} (hk : k ≤ 64) (hx : x + 2 ^ k ≤ 2 ^ 64) :
    align x (2 ^ k) = (x + 2 ^ k - 1) / 2 ^ k * 2 ^ k := by
  have hpos : 0 < 2 ^ k := Nat.two_pow_pos k
  have hle : 2 ^ k ≤ 2 ^ 64 := Nat.pow_le_pow_right (by decide) hk
  have hmask : not64 (2 ^ k - 1) = 2 ^ 64 - 2 ^ k := by
    unfold not64
    omega
  rw [align, hmask, wrap64_of_lt (by omega), and_high_mask (by omega) hk]

/-- The six masks read the exponent of every one-hot word. -/
private theorem oneHot_index : ∀ k : Fin 64,
    (if 1#64 <<< k.val &&& 0xffffffff00000000#64 ≠ 0 then 32 else 0) +
    (if 1#64 <<< k.val &&& 0xffff0000ffff0000#64 ≠ 0 then 16 else 0) +
    (if 1#64 <<< k.val &&& 0xff00ff00ff00ff00#64 ≠ 0 then 8 else 0) +
    (if 1#64 <<< k.val &&& 0xf0f0f0f0f0f0f0f0#64 ≠ 0 then 4 else 0) +
    (if 1#64 <<< k.val &&& 0xcccccccccccccccc#64 ≠ 0 then 2 else 0) +
    (if 1#64 <<< k.val &&& 0xaaaaaaaaaaaaaaaa#64 ≠ 0 then 1 else 0) = k.val := by
  decide

/-- On any word but the full one, the scan returns the position of the lowest clear bit. -/
theorem bitsFindZero_spec {b : BitVec 64} (hb : b ≠ BitVec.allOnes 64) :
    bitsFindZero b < 64 ∧ b.getLsbD (bitsFindZero b) = false ∧
      ∀ j < bitsFindZero b, b.getLsbD j = true := by
  have hne : ~~~b ≠ 0#64 := by
    intro h
    apply hb
    rw [← BitVec.not_not (b := b), h]
    rfl
  have hset : (~~~b).getLsbD (~~~b).ctz.toNat = true := BitVec.getLsbD_true_ctz_of_ne_zero hne
  have hlt : (~~~b).ctz.toNat < 64 := BitVec.lt_of_getLsbD hset
  have hidx : bitsFindZero b = (~~~b).ctz.toNat := by
    have h := oneHot_index ⟨_, hlt⟩
    rw [bitsFindZero, and_neg_eq_twoPow hne]
    exact h
  rw [hidx]
  refine ⟨hlt, ?_, ?_⟩
  · rw [BitVec.getLsbD_not, Bool.and_eq_true, Bool.not_eq_true'] at hset
    exact hset.2
  · intro j hj
    have hlow := BitVec.getLsbD_false_of_lt_ctz hj
    rw [BitVec.getLsbD_not, Bool.and_eq_false_iff, decide_eq_false_iff_not, Bool.not_eq_false'] at hlow
    exact hlow.resolve_left (not_not_intro (by omega))

end VijosOS
