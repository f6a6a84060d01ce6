import Mathlib.Data.Nat.Bitwise
import Mathlib.Data.Nat.Count
import Mathlib.Logic.Function.Basic

/-!
# Machine words and word-packed bitmaps

Unsigned wrap-around and power-of-two masks on natural numbers, the one-hot
isolation of the lowest set bit, and bitmaps packed into words of any width.
-/

namespace VijosOS.Library

/-! ## Masks -/

/-- Clearing the low `k` bits of an `n`-bit number rounds it down. -/
theorem and_high_mask {y n k : Nat} (hy : y < 2 ^ n) (hk : k ≤ n) :
    y &&& (2 ^ n - 2 ^ k) = y / 2 ^ k * 2 ^ k := by
  have hpos : 0 < 2 ^ k := Nat.two_pow_pos k
  have hle : 2 ^ k ≤ 2 ^ n := Nat.pow_le_pow_right (by decide) hk
  have hmask : 2 ^ n - 2 ^ k = 2 ^ n - ((2 ^ k - 1) + 1) := by omega
  apply Nat.eq_of_testBit_eq
  intro i
  rw [Nat.testBit_and, hmask, Nat.testBit_two_pow_sub_succ (by omega),
    Nat.testBit_two_pow_sub_one, Nat.testBit_mul_two_pow, Nat.testBit_div_two_pow]
  by_cases hik : k ≤ i
  · have hsub : i - k + k = i := by omega
    by_cases hin : i < n
    · simp [hik, hin, hsub, Nat.not_lt.mpr hik]
    · have hz : y.testBit i = false := by
        apply Nat.testBit_lt_two_pow
        exact hy.trans_le (Nat.pow_le_pow_right (by decide) (by omega))
      simp [hz, hsub]
  · simp [hik, Nat.not_le.mp hik]

/-- Disjoint halves of a word: the or of a shifted high part and a low part is their sum. -/
theorem shiftLeft_or_eq_add {a b k : Nat} (hb : b < 2 ^ k) : a <<< k ||| b = a * 2 ^ k + b := by
  rw [Nat.shiftLeft_eq, Nat.mul_comm a, Nat.two_pow_add_eq_or_of_lt hb]

/-! ## Lowest set bit -/

/-- Anding a nonzero word with its negation leaves exactly the lowest set bit. -/
theorem and_neg_eq_twoPow {w : Nat} {x : BitVec w} (hx : x ≠ 0#w) :
    x &&& -x = 1#w <<< x.ctz.toNat := by
  have hlow : ∀ j, j < x.ctz.toNat → x.getLsbD j = false :=
    fun j hj => BitVec.getLsbD_false_of_lt_ctz hj
  have hset : x.getLsbD x.ctz.toNat = true := BitVec.getLsbD_true_ctz_of_ne_zero hx
  apply BitVec.eq_of_getLsbD_eq
  intro i hi
  rw [BitVec.getLsbD_and, BitVec.getLsbD_neg, BitVec.getLsbD_shiftLeft]
  rcases Nat.lt_trichotomy i x.ctz.toNat with hlt | heq | hgt
  · simp [hlow i hlt, hlt]
  · subst heq
    have hnone : ¬ ∃ j < x.ctz.toNat, x.getLsbD j = true := by
      rintro ⟨j, hj, hbit⟩
      simp [hlow j hj] at hbit
    have hw : 0 < w := Nat.zero_lt_of_lt hi
    rw [hset]
    simp [hnone, hi, hw]
  · have hsome : ∃ j < i, x.getLsbD j = true := ⟨_, hgt, hset⟩
    have hne : i - x.ctz.toNat ≠ 0 := by omega
    have hle : ¬ i < x.ctz.toNat := by omega
    cases hbit : x.getLsbD i <;> simp [hsome, hne, hle, hi]

/-- Testing a word against a one-bit mask reads that bit. -/
theorem and_one_shiftLeft_eq_zero {w : Nat} (x : BitVec w) {k : Nat} (hk : k < w) :
    x &&& 1#w <<< k = 0#w ↔ x.getLsbD k = false := by
  constructor
  · intro h
    have hbit := congrArg (fun y : BitVec w => y.getLsbD k) h
    simpa [hk, Nat.zero_lt_of_lt hk] using hbit
  · intro h
    apply BitVec.eq_of_getLsbD_eq
    intro i hi
    rw [BitVec.getLsbD_and, BitVec.getLsbD_shiftLeft, BitVec.getLsbD_one]
    by_cases hik : i = k
    · simp [hik, h]
    · have hor : i < k ∨ i - k ≠ 0 := by omega
      rcases hor with h' | h' <;> simp [h']

/-- A mask survives an `and` when each of its bits is set. -/
theorem and_eq_right_iff {w : Nat} (x y : BitVec w) :
    x &&& y = y ↔ ∀ i, y.getLsbD i = true → x.getLsbD i = true := by
  constructor
  · intro h i hi
    rw [← h, BitVec.getLsbD_and, Bool.and_eq_true] at hi
    exact hi.1
  · intro h
    apply BitVec.eq_of_getLsbD_eq
    intro i _
    rw [BitVec.getLsbD_and]
    cases hi : y.getLsbD i with
    | false => exact Bool.and_false _
    | true => rw [h i hi, Bool.and_self]

theorem and_eq_right_or_iff {w : Nat} (x y z : BitVec w) :
    x &&& (y ||| z) = y ||| z ↔ x &&& y = y ∧ x &&& z = z := by
  simp only [and_eq_right_iff, BitVec.getLsbD_or, Bool.or_eq_true, or_imp, forall_and]

theorem and_one_shiftLeft_eq_self_iff {w : Nat} (x : BitVec w) {k : Nat} (hk : k < w) :
    x &&& 1#w <<< k = 1#w <<< k ↔ x &&& 1#w <<< k ≠ 0#w := by
  rw [Ne, and_one_shiftLeft_eq_zero x hk, Bool.not_eq_false, and_eq_right_iff]
  constructor
  · intro h
    apply h
    simp [hk]
  · intro h i hi
    have hik : i = k := by
      rw [BitVec.getLsbD_shiftLeft, BitVec.getLsbD_one] at hi
      simp only [Bool.and_eq_true, decide_eq_true_eq, Bool.not_eq_true', decide_eq_false_iff_not] at hi
      omega
    rw [hik]
    exact h

/-! ## Counting -/

/-- Counting below a product is counting in each of the blocks. -/
theorem count_mul (p : Nat → Prop) [DecidablePred p] (a b : Nat) :
    Nat.count p (a * b) =
      ((List.range a).map fun i => Nat.count (fun j => p (i * b + j)) b).sum := by
  induction a with
  | zero => simp
  | succ a ih => rw [Nat.succ_mul, Nat.count_add, ih, List.range_succ, List.map_append, List.sum_append,
      List.map_singleton, List.sum_singleton]

theorem count_congr {p q : Nat → Prop} [DecidablePred p] [DecidablePred q] {n : Nat}
    (h : ∀ m < n, p m ↔ q m) : Nat.count p n = Nat.count q n :=
  le_antisymm (Nat.count_mono_left fun m hm => (h m hm).mp)
    (Nat.count_mono_left fun m hm => (h m hm).mpr)

/-- One more number satisfies the predicate. -/
theorem count_flip {p q : Nat → Prop} [DecidablePred p] [DecidablePred q] {i n : Nat} (hi : i < n)
    (hp : ¬ p i) (hq : q i) (hsame : ∀ j, j ≠ i → (q j ↔ p j)) :
    Nat.count q n = Nat.count p n + 1 := by
  induction n with
  | zero => exact absurd hi (Nat.not_lt_zero i)
  | succ n ih =>
    rw [Nat.count_succ, Nat.count_succ]
    by_cases hin : i = n
    · subst hin
      have hbelow : Nat.count q i = Nat.count p i := count_congr fun m hm => hsame m (Nat.ne_of_lt hm)
      rw [hbelow, if_pos hq, if_neg hp]
    · have hsmall := ih (by omega)
      simp only [hsmall, hsame n (Ne.symm hin)]
      omega

/-! ## Bitmaps packed into words -/

section Bitmap

variable {w : Nat}

/-- The bit of index `n` in a bitmap of `w`-bit words. -/
def bitAt (bits : Nat → BitVec w) (n : Nat) : Bool := (bits (n / w)).getLsbD (n % w)

/-- The bitmap with bit `n` set. -/
def setBit (bits : Nat → BitVec w) (n : Nat) : Nat → BitVec w :=
  Function.update bits (n / w) (bits (n / w) ||| 1#w <<< (n % w))

/-- The number of set bits below `n`. -/
def countBits (bits : Nat → BitVec w) (n : Nat) : Nat := Nat.count (fun i => bitAt bits i = true) n

theorem bitAt_setBit (hw : 0 < w) (bits : Nat → BitVec w) (n m : Nat) :
    bitAt (setBit bits n) m = (decide (m = n) || bitAt bits m) := by
  have hmod : m % w < w := Nat.mod_lt _ hw
  unfold bitAt setBit
  by_cases hword : m / w = n / w
  · have heq : m = n ↔ m % w = n % w := by
      constructor
      · exact fun h => h ▸ rfl
      · intro h
        rw [← Nat.div_add_mod m w, ← Nat.div_add_mod n w, hword, h]
    rw [hword, Function.update_self, BitVec.getLsbD_or, BitVec.getLsbD_shiftLeft]
    have hone : (decide (m % w < w) && !decide (m % w < n % w) &&
        (1#w).getLsbD (m % w - n % w)) = decide (m = n) := by
      have heq' : decide (m = n) = decide (m % w = n % w) := decide_eq_decide.mpr heq
      rw [BitVec.getLsbD_one, heq']
      by_cases hbit : m % w = n % w
      · have hn : n % w < w := Nat.mod_lt _ hw
        simp [hbit, hn, hw]
      · have hor : m % w < n % w ∨ m % w - n % w ≠ 0 := by omega
        rcases hor with h | h <;> simp [hbit, h]
    rw [hone, Bool.or_comm]
  · have hne : m ≠ n := fun h => hword (h ▸ rfl)
    rw [Function.update_of_ne hword]
    simp [hne]

@[simp] theorem bitAt_setBit_self (hw : 0 < w) (bits : Nat → BitVec w) (n : Nat) :
    bitAt (setBit bits n) n = true := by
  simp [bitAt_setBit hw]

/-- The population count is full exactly when every bit is set. -/
theorem countBits_eq_iff (bits : Nat → BitVec w) (n : Nat) :
    countBits bits n = n ↔ ∀ m < n, bitAt bits m = true := Nat.count_iff_forall

theorem countBits_congr {bits bits' : Nat → BitVec w} {n : Nat}
    (h : ∀ m < n, bitAt bits m = bitAt bits' m) : countBits bits n = countBits bits' n :=
  count_congr fun m hm => by rw [h m hm]

theorem countBits_split (bits : Nat → BitVec w) {m n : Nat} (h : m ≤ n) :
    countBits bits n = countBits bits m + Nat.count (fun i => bitAt bits (m + i) = true) (n - m) := by
  obtain ⟨d, rfl⟩ := Nat.exists_eq_add_of_le h
  rw [Nat.add_sub_cancel_left]
  exact Nat.count_add _ m d

/-- Setting a clear bit raises the population count by one. -/
theorem countBits_setBit (hw : 0 < w) (bits : Nat → BitVec w) {n k : Nat} (hn : n < k)
    (hclear : bitAt bits n = false) : countBits (setBit bits n) k = countBits bits k + 1 := by
  refine count_flip hn ?_ (bitAt_setBit_self hw bits n) fun m hm => ?_
  · simp [hclear]
  · simp [bitAt_setBit hw, hm]

end Bitmap

end VijosOS.Library
