import Mathlib.Data.List.OfFn
import Mathlib.Data.Nat.Bitwise

/-!
# Byte-addressed memory and little-endian words

Memory is a total map from addresses to bytes. Words are read and written in
little-endian order; a copy replaces one contiguous range and nothing else.
-/

namespace VijosOS.Library

abbrev Byte := BitVec 8

/-! ## Little-endian numbers -/

/-- The number whose little-endian byte string is given. -/
def leNat : List Byte → Nat
  | [] => 0
  | b :: bs => b.toNat + 256 * leNat bs

/-- The low `n` bytes of a number, least significant first. -/
def leBytes : Nat → Nat → List Byte
  | 0, _ => []
  | n + 1, v => BitVec.ofNat 8 v :: leBytes n (v / 256)

@[simp] theorem leBytes_length (n v : Nat) : (leBytes n v).length = n := by
  induction n generalizing v with
  | zero => rfl
  | succ n ih => simp [leBytes, ih]

theorem leNat_lt (bs : List Byte) : leNat bs < 256 ^ bs.length := by
  induction bs with
  | nil => simp [leNat]
  | cons b bs ih =>
    have hb := b.isLt
    simp only [leNat, List.length_cons, pow_succ]
    omega

theorem leNat_leBytes (n v : Nat) : leNat (leBytes n v) = v % 256 ^ n := by
  induction n generalizing v with
  | zero => simp [leNat, leBytes, Nat.mod_one]
  | succ n ih =>
    have hbyte : (BitVec.ofNat 8 v).toNat = v % 256 := BitVec.toNat_ofNat v 8
    rw [leBytes, leNat, ih, hbyte, Nat.pow_succ, Nat.mul_comm (256 ^ n), Nat.mod_mul]

theorem leBytes_leNat (bs : List Byte) : leBytes bs.length (leNat bs) = bs := by
  induction bs with
  | nil => rfl
  | cons b bs ih =>
    have hb := b.isLt
    have hhead : BitVec.ofNat 8 (b.toNat + 256 * leNat bs) = b := by
      apply BitVec.eq_of_toNat_eq
      rw [BitVec.toNat_ofNat]
      omega
    have htail : (b.toNat + 256 * leNat bs) / 256 = leNat bs := by omega
    simp only [List.length_cons, leNat, leBytes, hhead, htail, ih]

/-! ## Memory -/

abbrev Mem := Nat → Byte

/-- The `n` bytes from address `a`. -/
def bytesAt (m : Mem) (a n : Nat) : List Byte := List.ofFn fun i : Fin n => m (a + i)

/-- Replace the `n` bytes from address `a` by those of `src`. -/
def copyTo (m : Mem) (a n : Nat) (src : Nat → Byte) : Mem :=
  fun x => if a ≤ x ∧ x < a + n then src (x - a) else m x

/-- Replace the bytes from address `a` by a byte string. -/
def writeBytes (m : Mem) (a : Nat) (bs : List Byte) : Mem :=
  copyTo m a bs.length fun i => bs.getD i 0

@[simp] theorem bytesAt_length (m : Mem) (a n : Nat) : (bytesAt m a n).length = n := by
  simp [bytesAt]

theorem bytesAt_getD (m : Mem) (a n i : Nat) (hi : i < n) : (bytesAt m a n).getD i 0 = m (a + i) := by
  rw [List.getD_eq_getElem _ _ (by simpa using hi)]
  simp [bytesAt]

/-- Two ranges read equal exactly when they agree byte by byte. -/
theorem bytesAt_congr {m m' : Mem} {a a' n : Nat} (h : ∀ i < n, m (a + i) = m' (a' + i)) :
    bytesAt m a n = bytesAt m' a' n := by
  unfold bytesAt
  congr 1
  funext i
  exact h i i.isLt

theorem copyTo_inside (m : Mem) (a n : Nat) (src : Nat → Byte) {x : Nat} (h : a ≤ x ∧ x < a + n) :
    copyTo m a n src x = src (x - a) := if_pos h

theorem copyTo_outside (m : Mem) (a n : Nat) (src : Nat → Byte) {x : Nat}
    (h : ¬ (a ≤ x ∧ x < a + n)) : copyTo m a n src x = m x := if_neg h

theorem copyTo_add (m : Mem) (a n : Nat) (src : Nat → Byte) {i : Nat} (h : i < n) :
    copyTo m a n src (a + i) = src i := by
  rw [copyTo_inside _ _ _ _ ⟨by omega, by omega⟩, Nat.add_sub_cancel_left]

theorem bytesAt_writeBytes (m : Mem) (a : Nat) (bs : List Byte) :
    bytesAt (writeBytes m a bs) a bs.length = bs := by
  apply List.ext_getElem (by simp)
  intro i h₁ h₂
  have hi : i < bs.length := h₂
  simp only [bytesAt, List.getElem_ofFn, writeBytes]
  rw [copyTo_add _ _ _ _ hi, List.getD_eq_getElem _ _ hi]

theorem bytesAt_add (m : Mem) (a n k : Nat) : bytesAt m a (n + k) = bytesAt m a n ++ bytesAt m (a + n) k := by
  apply List.ext_getElem (by simp)
  intro i _ _
  by_cases hi : i < n
  · simp [bytesAt, hi]
  · have hsplit : a + n + (i - n) = a + i := by omega
    simp [bytesAt, List.getElem_append, hi, hsplit]

theorem bytesAt_writeBytes_inside (m : Mem) (b : Nat) {a n : Nat} (bs : List Byte) (h : a + n ≤ bs.length) :
    bytesAt (writeBytes m b bs) (b + a) n = (bs.drop a).take n := by
  apply List.ext_getElem (by simp; omega)
  intro i h₁ h₂
  have hi : i < n := by simpa using h₁
  simp only [bytesAt, List.getElem_ofFn, writeBytes, Nat.add_assoc b a i]
  rw [copyTo_add _ _ _ _ (by omega), List.getD_eq_getElem _ _ (by omega), List.getElem_take,
    List.getElem_drop]

theorem writeBytes_add (m : Mem) (a : Nat) (bs : List Byte) {i : Nat} (hi : i < bs.length) :
    writeBytes m a bs (a + i) = bs.getD i 0 := copyTo_add _ _ _ _ hi

theorem writeBytes_outside (m : Mem) (a : Nat) (bs : List Byte) {x : Nat}
    (h : ¬ (a ≤ x ∧ x < a + bs.length)) : writeBytes m a bs x = m x := copyTo_outside _ _ _ _ h

@[simp] theorem writeBytes_nil (m : Mem) (a : Nat) : writeBytes m a [] = m := by
  funext x
  exact writeBytes_outside _ _ _ (by simp)

/-- Adjacent writes are one write. -/
theorem writeBytes_append (m : Mem) (a : Nat) (bs cs : List Byte) :
    writeBytes (writeBytes m a bs) (a + bs.length) cs = writeBytes m a (bs ++ cs) := by
  funext x
  by_cases hsecond : a + bs.length ≤ x ∧ x < a + bs.length + cs.length
  · obtain ⟨i, rfl⟩ := Nat.exists_eq_add_of_le hsecond.1
    rw [writeBytes_add _ _ _ (by omega), Nat.add_assoc,
      writeBytes_add _ _ _ (by rw [List.length_append]; omega)]
    simp [List.getD_eq_getElem?_getD, List.getElem?_append_right]
  · rw [writeBytes_outside _ _ _ hsecond]
    by_cases hfirst : a ≤ x ∧ x < a + bs.length
    · obtain ⟨i, rfl⟩ := Nat.exists_eq_add_of_le hfirst.1
      have hi : i < bs.length := by omega
      rw [writeBytes_add _ _ _ hi, writeBytes_add _ _ _ (by rw [List.length_append]; omega)]
      simp [List.getD_eq_getElem?_getD, List.getElem?_append_left hi]
    · rw [writeBytes_outside _ _ _ hfirst, writeBytes_outside _ _ _ (by rw [List.length_append]; omega)]

theorem writeBytes_bytesAt (m f : Mem) (n : Nat) :
    writeBytes m 0 (bytesAt f 0 n) = fun i => if i < n then f i else m i := by
  funext i
  by_cases hi : i < n
  · have h := writeBytes_add m 0 (bytesAt f 0 n) (show i < (bytesAt f 0 n).length by rwa [bytesAt_length])
    rw [Nat.zero_add, bytesAt_getD _ _ _ _ hi, Nat.zero_add] at h
    rw [if_pos hi, h]
  · rw [if_neg hi]
    exact writeBytes_outside _ _ _ (by rw [bytesAt_length]; omega)

theorem bytesAt_writeBytes_disjoint (m : Mem) (a b n : Nat) (bs : List Byte)
    (h : b + n ≤ a ∨ a + bs.length ≤ b) : bytesAt (writeBytes m a bs) b n = bytesAt m b n := by
  apply bytesAt_congr
  intro i hi
  exact writeBytes_outside _ _ _ (by omega)

/-! ## Fields -/

/-- The `n`-byte little-endian number at address `a`. -/
def getLe (m : Mem) (a n : Nat) : Nat := leNat (bytesAt m a n)

def putLe (m : Mem) (a n v : Nat) : Mem := writeBytes m a (leBytes n v)

theorem bytesAt_eq_leBytes (m : Mem) (a n : Nat) : bytesAt m a n = leBytes n (getLe m a n) := by
  have h := leBytes_leNat (bytesAt m a n)
  rw [bytesAt_length] at h
  exact h.symm

theorem bytesAt_putLe (m : Mem) (a n v : Nat) : bytesAt (putLe m a n v) a n = leBytes n v := by
  have h := bytesAt_writeBytes m a (leBytes n v)
  rwa [leBytes_length] at h

theorem getLe_lt (m : Mem) (a n : Nat) : getLe m a n < 256 ^ n := by
  have h := leNat_lt (bytesAt m a n)
  rwa [bytesAt_length] at h

theorem getLe_move {m m' : Mem} {a b n : Nat} (h : ∀ i < n, m (a + i) = m' (b + i)) :
    getLe m a n = getLe m' b n := by
  rw [getLe, getLe, bytesAt_congr h]

theorem getLe_congr {m m' : Mem} {a n : Nat} (h : ∀ i < n, m (a + i) = m' (a + i)) :
    getLe m a n = getLe m' a n := getLe_move h

theorem getLe_one (m : Mem) (a : Nat) : getLe m a 1 = (m a).toNat := by
  simp [getLe, bytesAt, leNat]

theorem getLe_two (m : Mem) (a : Nat) : getLe m a 2 = (m a).toNat + 256 * (m (a + 1)).toNat := by
  simp [getLe, bytesAt, leNat]

theorem getLe_putLe (m : Mem) (a n v : Nat) : getLe (putLe m a n v) a n = v % 256 ^ n := by
  have h := bytesAt_writeBytes m a (leBytes n v)
  rw [leBytes_length] at h
  rw [getLe, putLe, h, leNat_leBytes]

theorem getLe_writeBytes_disjoint (m : Mem) (a b n : Nat) (bs : List Byte)
    (h : b + n ≤ a ∨ a + bs.length ≤ b) : getLe (writeBytes m a bs) b n = getLe m b n := by
  rw [getLe, bytesAt_writeBytes_disjoint _ _ _ _ _ h, getLe]

theorem getLe_putLe_disjoint (m : Mem) (a k v b n : Nat) (h : b + n ≤ a ∨ a + k ≤ b) :
    getLe (putLe m a k v) b n = getLe m b n :=
  getLe_writeBytes_disjoint _ _ _ _ _ (by simpa using h)

theorem putLe_outside (m : Mem) (a n v : Nat) {x : Nat} (h : ¬ (a ≤ x ∧ x < a + n)) :
    putLe m a n v x = m x := writeBytes_outside _ _ _ (by simpa using h)

/-! ## Agreement on a prefix -/

/-- Two memories agree on the first `n` bytes. -/
def AgreeUpTo (n : Nat) (m m' : Mem) : Prop := ∀ i < n, m i = m' i

theorem AgreeUpTo.mono {n k : Nat} {m m' : Mem} (h : AgreeUpTo n m m') (hk : k ≤ n) :
    AgreeUpTo k m m' := fun i hi => h i (Nat.lt_of_lt_of_le hi hk)

theorem AgreeUpTo.bytesAt {n a k : Nat} {m m' : Mem} (h : AgreeUpTo n m m') (hk : a + k ≤ n) :
    bytesAt m a k = Library.bytesAt m' a k :=
  bytesAt_congr fun i hi => h _ (by omega)

theorem AgreeUpTo.getLe {n a k : Nat} {m m' : Mem} (h : AgreeUpTo n m m') (hk : a + k ≤ n) :
    getLe m a k = Library.getLe m' a k :=
  getLe_congr fun i hi => h _ (by omega)

theorem AgreeUpTo.of_bytesAt {n : Nat} {m m' : Mem} (h : Library.bytesAt m 0 n = Library.bytesAt m' 0 n) :
    AgreeUpTo n m m' := by
  intro i hi
  have hm := bytesAt_getD m 0 n i hi
  have hm' := bytesAt_getD m' 0 n i hi
  rw [Nat.zero_add] at hm hm'
  rw [← hm, ← hm', h]

theorem bytesAt_take (m : Mem) (a : Nat) {k n : Nat} (hk : k ≤ n) :
    (Library.bytesAt m a n).take k = Library.bytesAt m a k := by
  apply List.ext_getElem (by simpa using hk)
  intro i _ _
  simp [Library.bytesAt]

/-- Writing the same bytes keeps the agreement, and extends it when they continue the prefix. -/
theorem AgreeUpTo.writeBytes {n k a : Nat} {m m' : Mem} (h : AgreeUpTo n m m') (bs : List Byte)
    (hk : k ≤ n ∨ a ≤ n ∧ k ≤ a + bs.length) :
    AgreeUpTo k (writeBytes m a bs) (Library.writeBytes m' a bs) := by
  intro i hi
  by_cases hin : a ≤ i ∧ i < a + bs.length
  · have hsplit : i = a + (i - a) := by omega
    rw [hsplit, writeBytes_add _ _ _ (by omega), writeBytes_add _ _ _ (by omega)]
  · rw [writeBytes_outside _ _ _ hin, writeBytes_outside _ _ _ hin]
    exact h i (by omega)

theorem AgreeUpTo.putLe {n k a w : Nat} {m m' : Mem} (h : AgreeUpTo n m m') (v : Nat)
    (hk : k ≤ n ∨ a ≤ n ∧ k ≤ a + w) :
    AgreeUpTo k (putLe m a w v) (Library.putLe m' a w v) :=
  h.writeBytes _ (by simpa using hk)

/-! ## Words -/

/-- The little-endian 64-bit word at an address. -/
def load64 (m : Mem) (a : Nat) : BitVec 64 := BitVec.ofNat 64 (leNat (bytesAt m a 8))

def store64 (m : Mem) (a : Nat) (v : BitVec 64) : Mem := writeBytes m a (leBytes 8 v.toNat)

@[simp] theorem load64_store64 (m : Mem) (a : Nat) (v : BitVec 64) :
    load64 (store64 m a v) a = v := by
  have h := bytesAt_writeBytes m a (leBytes 8 v.toNat)
  rw [leBytes_length] at h
  have hv : v.toNat % 256 ^ 8 = v.toNat := Nat.mod_eq_of_lt v.isLt
  rw [load64, store64, h, leNat_leBytes, hv, BitVec.ofNat_toNat, BitVec.setWidth_eq]

theorem load64_store64_disjoint (m : Mem) (a b : Nat) (v : BitVec 64)
    (h : b + 8 ≤ a ∨ a + 8 ≤ b) : load64 (store64 m a v) b = load64 m b := by
  rw [load64, store64, bytesAt_writeBytes_disjoint _ _ _ _ _ (by simpa using h), load64]

theorem store64_outside (m : Mem) (a : Nat) (v : BitVec 64) {x : Nat}
    (h : ¬ (a ≤ x ∧ x < a + 8)) : store64 m a v x = m x :=
  writeBytes_outside _ _ _ (by simpa using h)

theorem load64_congr {m m' : Mem} {a : Nat} (h : ∀ i < 8, m (a + i) = m' (a + i)) :
    load64 m a = load64 m' a := by
  rw [load64, load64, bytesAt_congr h]

theorem load64_zero {m : Mem} {a : Nat} (h : ∀ i < 8, m (a + i) = 0) : load64 m a = 0 := by
  have hz : bytesAt m a 8 = List.replicate 8 0 := by
    apply List.ext_getElem (by simp)
    intro i h₁ _
    simp only [bytesAt, List.getElem_ofFn, List.getElem_replicate]
    exact h i (by simpa using h₁)
  rw [load64, hz]
  rfl

end VijosOS.Library
