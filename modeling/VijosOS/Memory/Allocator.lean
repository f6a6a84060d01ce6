import VijosOS.Utils

/-!
# The page allocator

`mm.c`: one bitmap word for each 64 pages, a population counter, a next-fit hint
and a snapshot of all three. The bitmap array is a total function, so that it also
stands for the memory behind the allocated words.
-/

namespace VijosOS

open Library

abbrev pgShift : Nat := 12
abbrev pgSize : Nat := 0x1000

def pgAlign (x : Nat) : Nat := wrap64 (x + pgSize - 1) &&& not64 (pgSize - 1)
def pgAlignFloor (x : Nat) : Nat := x &&& not64 (pgSize - 1)

/-! ## Code -/

structure MmBitmap where
  size : Nat
  next : Nat
  used : Nat
  bits : Nat → BitVec 64

/-- The two static bitmap pointers of `mm.c` and what they point to. -/
structure Mm where
  mmbmAt : Nat
  mmbm : MmBitmap
  mmbmSnapshotAt : Nat
  mmbmSnapshot : MmBitmap

-- `sizeof(mm_bitmap_t)` is 24: the flexible array member has no size.
def bitmapBytes (b : MmBitmap) : Nat := wrap64 (24 + align (b.size >>> 3) 8)

def mmbmSize (mm : Mm) : Nat := bitmapBytes mm.mmbm
def mmbmSnapshotSize (mm : Mm) : Nat := bitmapBytes mm.mmbmSnapshot

/-- `memcpy` of `n ≥ 24` bytes between two bitmaps: the header and whole words. -/
def copyBitmap (dst src : MmBitmap) (n : Nat) : MmBitmap :=
  { src with bits := fun i => if i < (n - 24) / 8 then src.bits i else dst.bits i }

/-- `memset(&bits[at], 0, n)` for a byte count that is a multiple of eight. -/
def zeroWords (bits : Nat → BitVec 64) (start n : Nat) : Nat → BitVec 64 :=
  fun i => if start ≤ i ∧ i < start + n / 8 then 0 else bits i

def initMm (bssEnd : Nat) (mm : Mm) : Mm :=
  { mm with
    mmbmAt := align bssEnd 0x10
    mmbm := { mm.mmbm with size := 0, next := 0, used := 0 } }

def takePage (b : MmBitmap) (pg : Nat) : MmBitmap :=
  let index := pg >>> 6
  let mask := 1#64 <<< (pg &&& 63)
  if b.bits index &&& mask = 0#64 then
    { b with bits := Function.update b.bits index (b.bits index ||| mask), used := b.used + 1 }
  else b

-- The loop of `take_pages` from page `pg` with `n` iterations left.
def takePagesFrom (b : MmBitmap) (pg : Nat) : Nat → MmBitmap
  | 0 => b
  | n + 1 => takePagesFrom (takePage b pg) (pg + 1) n

def takePages (start n : Nat) (mm : Mm) : Mm :=
  { mm with mmbm := takePagesFrom mm.mmbm (start >>> pgShift) n }

/-- `none` is the endless loop after the message about pages added before. -/
def addPages (start n : Nat) (mm : Mm) : Option Mm :=
  let lastAdded := mm.mmbm.size
  let start := start >>> pgShift
  if start < lastAdded then none
  else
    let size := wrap64 (start + n)
    let lastNblocks := lastAdded >>> 6
    let nblocks := size >>> 6
    let bits := zeroWords mm.mmbm.bits lastNblocks (wrap64 (sub64 nblocks lastNblocks * 8))
    some (takePages (wrap64 (lastAdded <<< pgShift)) (start - lastAdded)
      { mm with mmbm := { mm.mmbm with size := size, bits := bits } })

def finishAddPages (mm : Mm) : Mm :=
  let mm := { mm with mmbmSnapshotAt := wrap64 (mm.mmbmAt + mmbmSize mm) }
  let availableStart := pgAlign (wrap64 (mm.mmbmSnapshotAt + mmbmSize mm))
  takePages 0 (availableStart >>> pgShift) mm

-- The scan of `get_free_page` at word `index` with `i` iterations left.
def getFreePageFrom (b : MmBitmap) (nblocks : Nat) : Nat → Nat → Nat × MmBitmap
  | 0, _ => (0, b)
  | i + 1, index =>
    if b.bits index ≠ BitVec.allOnes 64 then
      let offset := bitsFindZero (b.bits index)
      let bits := Function.update b.bits index (b.bits index ||| 1#64 <<< offset)
      (wrap64 ((index <<< 6 ||| offset) <<< pgShift),
        { b with bits := bits, next := index, used := b.used + 1 })
    else getFreePageFrom b nblocks i (if index = nblocks - 1 then 0 else index + 1)

/-- The physical address of a page that was free, or 0. -/
def getFreePage (mm : Mm) : Nat × Mm :=
  if mm.mmbm.used = mm.mmbm.size then (0, mm)
  else
    let nblocks := mm.mmbm.size >>> 6
    let r := getFreePageFrom mm.mmbm nblocks nblocks mm.mmbm.next
    (r.1, { mm with mmbm := r.2 })

def mmTakeSnapshot (mm : Mm) : Mm :=
  { mm with mmbmSnapshot := copyBitmap mm.mmbmSnapshot mm.mmbm (mmbmSize mm) }

def mmRestoreSnapshot (mm : Mm) : Mm :=
  { mm with mmbm := copyBitmap mm.mmbm mm.mmbmSnapshot (mmbmSnapshotSize mm) }

/-! ## Arithmetic of the macros -/

theorem pgAlignFloor_eq {x : Nat} (hx : x < 2 ^ 64) : pgAlignFloor x = x / 4096 * 4096 := by
  have hmask : not64 (pgSize - 1) = 2 ^ 64 - 2 ^ 12 := by decide
  have h := and_high_mask hx (k := 12) (by decide)
  rw [pgAlignFloor, hmask]
  exact h

theorem pgAlign_eq {x : Nat} (hx : x + 4096 ≤ 2 ^ 64) :
    pgAlign x = (x + 4095) / 4096 * 4096 := by
  have h := align_two_pow (x := x) (k := 12) (by decide) (by omega)
  have hone : x + 2 ^ 12 - 1 = x + 4095 := by omega
  rw [hone] at h
  exact h

theorem bitmapBytes_eq (b : MmBitmap) (hblock : 64 ∣ b.size) (hbound : b.size ≤ 2 ^ 52) :
    bitmapBytes b = 24 + b.size / 64 * 8 := by
  have hshift : b.size >>> 3 = b.size / 8 := Nat.shiftRight_eq_div_pow _ 3
  have hmul : b.size / 8 = b.size / 64 * 8 := by
    obtain ⟨c, hc⟩ := hblock
    omega
  have halign : align (b.size / 8) 8 = b.size / 64 * 8 := by
    have h : align (b.size / 8) 8 = (b.size / 8 + 8 - 1) / 8 * 8 :=
      align_two_pow (k := 3) (by decide) (by omega)
    omega
  rw [bitmapBytes, hshift, halign, wrap64_of_lt (by omega)]

/-! ## Taking pages -/

theorem takePage_eq (b : MmBitmap) (pg : Nat) :
    takePage b pg = if bitAt b.bits pg = false
      then { b with bits := setBit b.bits pg, used := b.used + 1 } else b := by
  have hidx : pg >>> 6 = pg / 64 := Nat.shiftRight_eq_div_pow _ 6
  have hbit : pg &&& 63 = pg % 64 := Nat.and_two_pow_sub_one_eq_mod pg 6
  have hlt : pg % 64 < 64 := Nat.mod_lt _ (by decide)
  simp only [takePage, hidx, hbit]
  by_cases h : bitAt b.bits pg = false
  · rw [if_pos h, if_pos ((and_one_shiftLeft_eq_zero _ hlt).mpr h), setBit]
  · rw [if_neg h, if_neg (fun hz => h ((and_one_shiftLeft_eq_zero _ hlt).mp hz))]

theorem takePage_bitAt (b : MmBitmap) (pg m : Nat) :
    bitAt (takePage b pg).bits m = (decide (m = pg) || bitAt b.bits m) := by
  rw [takePage_eq]
  split
  · exact bitAt_setBit (by decide) _ _ _
  · rename_i h
    by_cases hm : m = pg
    · subst hm
      simpa using h
    · simp [hm]

theorem takePage_used (b : MmBitmap) {pg size : Nat} (hpg : pg < size) :
    (takePage b pg).used + countBits b.bits size = b.used + countBits (takePage b pg).bits size := by
  rw [takePage_eq]
  split
  · rename_i h
    show b.used + 1 + countBits b.bits size = b.used + countBits (setBit b.bits pg) size
    rw [countBits_setBit (by decide) b.bits hpg h]
    omega
  · rfl

@[simp] theorem takePage_size (b : MmBitmap) (pg : Nat) : (takePage b pg).size = b.size := by
  rw [takePage_eq]
  split <;> rfl

@[simp] theorem takePage_next (b : MmBitmap) (pg : Nat) : (takePage b pg).next = b.next := by
  rw [takePage_eq]
  split <;> rfl

@[simp] theorem takePagesFrom_size (b : MmBitmap) (pg n : Nat) :
    (takePagesFrom b pg n).size = b.size := by
  induction n generalizing b pg with
  | zero => rfl
  | succ n ih => rw [takePagesFrom, ih, takePage_size]

@[simp] theorem takePagesFrom_next (b : MmBitmap) (pg n : Nat) :
    (takePagesFrom b pg n).next = b.next := by
  induction n generalizing b pg with
  | zero => rfl
  | succ n ih => rw [takePagesFrom, ih, takePage_next]

/-- Taking a range marks exactly that range, whatever was marked before. -/
theorem takePagesFrom_bitAt (b : MmBitmap) (pg n m : Nat) :
    bitAt (takePagesFrom b pg n).bits m =
      (decide (pg ≤ m ∧ m < pg + n) || bitAt b.bits m) := by
  induction n generalizing b pg with
  | zero => simp [takePagesFrom]
  | succ n ih =>
    have hrange : (pg ≤ m ∧ m < pg + (n + 1)) ↔ (pg + 1 ≤ m ∧ m < pg + 1 + n) ∨ m = pg := by
      omega
    rw [takePagesFrom, ih, takePage_bitAt, ← Bool.or_assoc, ← Bool.decide_or]
    rw [decide_eq_decide.mpr hrange]

/-- Taking pages adds to the counter what it adds to the population count. -/
theorem takePagesFrom_used (b : MmBitmap) {pg n size : Nat} (hn : pg + n ≤ size) :
    (takePagesFrom b pg n).used + countBits b.bits size =
      b.used + countBits (takePagesFrom b pg n).bits size := by
  induction n generalizing b pg with
  | zero => rfl
  | succ n ih =>
    have hstep := takePage_used b (show pg < size by omega)
    have hrest := ih (takePage b pg) (show pg + 1 + n ≤ size by omega)
    rw [takePagesFrom]
    omega

theorem takePagesFrom_count (b : MmBitmap) {pg n : Nat} (hn : pg + n ≤ b.size)
    (hused : b.used = countBits b.bits b.size) :
    (takePagesFrom b pg n).used = countBits (takePagesFrom b pg n).bits b.size := by
  have hboth := takePagesFrom_used b hn
  omega

/-! ## Adding pages -/

theorem zeroWords_bitAt (bits : Nat → BitVec 64) (start words pg : Nat) :
    bitAt (zeroWords bits start (words * 8)) pg =
      (!decide (start ≤ pg / 64 ∧ pg / 64 < start + words) && bitAt bits pg) := by
  rw [bitAt, zeroWords, Nat.mul_div_cancel _ (by decide)]
  split_ifs with hin
  · simp [hin]
  · simp [hin, bitAt]

/-- The bitmap between the two steps of `add_pages`, with the words up to the new size cleared. -/
def MmBitmap.grow (b : MmBitmap) (size : Nat) : MmBitmap :=
  { b with size := size, bits := zeroWords b.bits (b.size / 64) ((size / 64 - b.size / 64) * 8) }

theorem addPages_eq {mm : Mm} {start n : Nat} (hstart : start < 2 ^ 64)
    (hsize : start / 4096 + n ≤ 2 ^ 52) (hold : mm.mmbm.size ≤ start / 4096) :
    addPages start n mm = some { mm with
      mmbm := takePagesFrom (mm.mmbm.grow (start / 4096 + n)) mm.mmbm.size
        (start / 4096 - mm.mmbm.size) } := by
  have hpage : start >>> pgShift = start / 4096 := Nat.shiftRight_eq_div_pow _ 12
  have hnew : wrap64 (start / 4096 + n) = start / 4096 + n := wrap64_of_lt (by omega)
  have hfrom : wrap64 (mm.mmbm.size <<< pgShift) >>> pgShift = mm.mmbm.size := by
    rw [Nat.shiftLeft_eq, Nat.shiftRight_eq_div_pow]
    show wrap64 (mm.mmbm.size * 4096) / 4096 = mm.mmbm.size
    rw [wrap64_of_lt (by omega), Nat.mul_div_cancel _ (by decide)]
  have hblocks : ∀ x : Nat, x >>> 6 = x / 64 := fun x => Nat.shiftRight_eq_div_pow _ 6
  have hbytes : wrap64 (sub64 ((start / 4096 + n) / 64) (mm.mmbm.size / 64) * 8) =
      ((start / 4096 + n) / 64 - mm.mmbm.size / 64) * 8 := by
    rw [sub64_of_le (by omega) (by omega)]
    exact wrap64_of_lt (by omega)
  simp only [addPages, hpage, if_neg (Nat.not_lt.mpr hold), hnew, takePages, hfrom, hblocks, hbytes,
    MmBitmap.grow]

/-! ## Handing out pages -/

/-- The bitmap's own bookkeeping: whole words, a hint inside them, and an exact counter. -/
structure MmBitmap.Counted (b : MmBitmap) : Prop where
  block : 64 ∣ b.size
  bound : b.size ≤ 2 ^ 52
  next_lt : b.next < b.size / 64
  used_eq : b.used = countBits b.bits b.size

/-- The bitmap after page `pg` was handed out. -/
def MmBitmap.mark (b : MmBitmap) (pg : Nat) : MmBitmap :=
  { b with bits := setBit b.bits pg, next := pg / 64, used := b.used + 1 }

theorem MmBitmap.mark_bitAt (b : MmBitmap) (pg m : Nat) :
    bitAt (b.mark pg).bits m = (decide (m = pg) || bitAt b.bits m) :=
  bitAt_setBit (by decide) _ _ _

theorem MmBitmap.Counted.mark {b : MmBitmap} (h : b.Counted) {pg : Nat} (hpg : pg < b.size)
    (hfree : bitAt b.bits pg = false) : (b.mark pg).Counted where
  block := h.block
  bound := h.bound
  next_lt := by
    have hblock := h.block
    show pg / 64 < b.size / 64
    omega
  used_eq := by
    show b.used + 1 = countBits (setBit b.bits pg) b.size
    rw [countBits_setBit (by decide) b.bits hpg hfree, h.used_eq]

/-- Page `pg` is the first free one from word `index` on, around the words. -/
structure FirstFree (b : MmBitmap) (nblocks index pg : Nat) : Prop where
  inside : pg / 64 < nblocks
  free : bitAt b.bits pg = false
  low : ∀ q < pg, q / 64 = pg / 64 → bitAt b.bits q = true
  ahead : index ≤ pg / 64 → ∀ w, index ≤ w → w < pg / 64 → b.bits w = BitVec.allOnes 64
  around : pg / 64 < index →
    (∀ w, index ≤ w → w < nblocks → b.bits w = BitVec.allOnes 64) ∧
    ∀ w < pg / 64, b.bits w = BitVec.allOnes 64

theorem bitAt_of_full {b : MmBitmap} {pg : Nat} (h : b.bits (pg / 64) = BitVec.allOnes 64) :
    bitAt b.bits pg = true := by
  have hlt : pg % 64 < 64 := Nat.mod_lt _ (by decide)
  rw [bitAt, h, BitVec.getLsbD_allOnes]
  exact decide_eq_true hlt

theorem FirstFree.skip {b : MmBitmap} {nblocks index pg : Nat} (hindex : index < nblocks)
    (hword : b.bits index = BitVec.allOnes 64)
    (h : FirstFree b nblocks (if index = nblocks - 1 then 0 else index + 1) pg) :
    FirstFree b nblocks index pg := by
  have hne : pg / 64 ≠ index := by
    intro heq
    have hset : bitAt b.bits pg = true := bitAt_of_full (heq ▸ hword)
    rw [h.free] at hset
    exact Bool.noConfusion hset
  have hinside := h.inside
  refine ⟨h.inside, h.free, h.low, ?_, ?_⟩
  · intro hle w hw hlt
    rw [if_neg (show ¬ index = nblocks - 1 by omega)] at h
    by_cases hwi : w = index
    · rw [hwi, hword]
    · exact h.ahead (by omega) w (by omega) hlt
  · intro hlt
    split_ifs at h with hlast
    · refine ⟨fun w hw hwn => ?_, fun w hw => h.ahead (Nat.zero_le _) w (Nat.zero_le _) hw⟩
      rw [show w = index by omega, hword]
    · obtain ⟨hafter, hbefore⟩ := h.around (by omega)
      refine ⟨fun w hw hwn => ?_, hbefore⟩
      by_cases hwi : w = index
      · rw [hwi, hword]
      · exact hafter w (by omega) hwn

/-- The scan either marks the first free page or has seen only full words. -/
theorem getFreePageFrom_spec (b : MmBitmap) {nblocks : Nat} (hsize : nblocks * 64 ≤ 2 ^ 52)
    (i index : Nat) (hindex : index < nblocks) :
    (∃ pg, FirstFree b nblocks index pg ∧
      getFreePageFrom b nblocks i index = (pg * 4096, b.mark pg)) ∨
    (getFreePageFrom b nblocks i index = (0, b) ∧
      ∀ t < i, b.bits ((index + t) % nblocks) = BitVec.allOnes 64) := by
  induction i generalizing index with
  | zero => exact Or.inr ⟨rfl, by simp⟩
  | succ i ih =>
    by_cases hword : b.bits index = BitVec.allOnes 64
    · have hskip : getFreePageFrom b nblocks (i + 1) index =
          getFreePageFrom b nblocks i (if index = nblocks - 1 then 0 else index + 1) := by
        rw [getFreePageFrom, if_neg (not_not.mpr hword)]
      have hnext : (if index = nblocks - 1 then 0 else index + 1) = (index + 1) % nblocks := by
        split
        · rename_i hlast
          rw [hlast, Nat.sub_add_cancel (by omega), Nat.mod_self]
        · rw [Nat.mod_eq_of_lt (by omega)]
      rw [hskip]
      have hlt : (if index = nblocks - 1 then 0 else index + 1) < nblocks := by
        rw [hnext]
        exact Nat.mod_lt _ (by omega)
      rcases ih _ hlt with ⟨pg, hfound, heq⟩ | ⟨hnone, hfull⟩
      · exact Or.inl ⟨pg, hfound.skip hindex hword, heq⟩
      · refine Or.inr ⟨hnone, ?_⟩
        intro t ht
        cases t with
        | zero => rw [Nat.add_zero, Nat.mod_eq_of_lt hindex, hword]
        | succ t =>
          have h := hfull t (by omega)
          rw [hnext, Nat.mod_add_mod] at h
          rw [show index + (t + 1) = index + 1 + t by omega, h]
    · obtain ⟨hlt, hclear, hlow⟩ := bitsFindZero_spec hword
      let pg := index * 64 + bitsFindZero (b.bits index)
      have hdiv : pg / 64 = index := by omega
      have hmod : pg % 64 = bitsFindZero (b.bits index) := by omega
      have haddr : wrap64 ((index <<< 6 ||| bitsFindZero (b.bits index)) <<< pgShift) = pg * 4096 := by
        rw [shiftLeft_or_eq_add (k := 6) hlt, Nat.shiftLeft_eq]
        change wrap64 (pg * 4096) = pg * 4096
        exact wrap64_of_lt (by omega)
      refine Or.inl ⟨pg, ⟨by omega, ?_, ?_, by omega, by omega⟩, ?_⟩
      · rw [bitAt, hdiv, hmod, hclear]
      · intro q hq hsame
        rw [bitAt, hsame, hdiv]
        exact hlow _ (by omega)
      · rw [getFreePageFrom, if_pos hword]
        simp only [haddr, MmBitmap.mark, setBit, hdiv, hmod]

/-- `get_free_page` marks the first free page, or every page of a whole word is marked. -/
theorem getFreePage_scan {mm : Mm} (hbound : mm.mmbm.size ≤ 2 ^ 52)
    (hnext : mm.mmbm.next = 0 ∨ mm.mmbm.next < mm.mmbm.size / 64)
    (hused : mm.mmbm.used = countBits mm.mmbm.bits mm.mmbm.size) :
    (getFreePage mm = (0, mm) ∧ ∀ pg < mm.mmbm.size / 64 * 64, bitAt mm.mmbm.bits pg = true) ∨
    ∃ pg, FirstFree mm.mmbm (mm.mmbm.size / 64) mm.mmbm.next pg ∧
      getFreePage mm = (pg * 4096, { mm with mmbm := mm.mmbm.mark pg }) := by
  have hn : mm.mmbm.size >>> 6 = mm.mmbm.size / 64 := Nat.shiftRight_eq_div_pow _ 6
  by_cases hfull : mm.mmbm.used = mm.mmbm.size
  · refine Or.inl ⟨by rw [getFreePage, if_pos hfull], ?_⟩
    rw [hused] at hfull
    exact fun pg hpg => (countBits_eq_iff _ _).mp hfull pg (by omega)
  · rw [getFreePage, if_neg hfull, hn]
    by_cases hempty : mm.mmbm.size / 64 = 0
    · rw [hempty]
      exact Or.inl ⟨rfl, fun pg hpg => absurd hpg (by omega)⟩
    rcases getFreePageFrom_spec mm.mmbm (show mm.mmbm.size / 64 * 64 ≤ 2 ^ 52 by omega)
      (mm.mmbm.size / 64) mm.mmbm.next (by omega) with ⟨pg, hfirst, heq⟩ | ⟨heq, hwords⟩
    · exact Or.inr ⟨pg, hfirst, by simp only [heq]⟩
    · refine Or.inl ⟨by simp only [heq], fun pg hpg => bitAt_of_full ?_⟩
      let k := mm.mmbm.size / 64
      have hv := hwords ((pg / 64 + k - mm.mmbm.next) % k) (Nat.mod_lt _ (by omega))
      have hsum : mm.mmbm.next + (pg / 64 + k - mm.mmbm.next) = pg / 64 + k := by omega
      rw [Nat.add_mod_mod, hsum, Nat.add_mod_right, Nat.mod_eq_of_lt (by omega)] at hv
      exact hv

/-- `get_free_page` fails only on a full bitmap, and otherwise marks one clear bit. -/
theorem getFreePage_spec {mm : Mm} (h : mm.mmbm.Counted) :
    (getFreePage mm = (0, mm) ∧ ∀ pg < mm.mmbm.size, bitAt mm.mmbm.bits pg = true) ∨
    ∃ pg < mm.mmbm.size, bitAt mm.mmbm.bits pg = false ∧
      getFreePage mm = (pg * 4096, { mm with mmbm := mm.mmbm.mark pg }) := by
  have hwhole : mm.mmbm.size / 64 * 64 = mm.mmbm.size := Nat.div_mul_cancel h.block
  rcases getFreePage_scan h.bound (Or.inr h.next_lt) h.used_eq with ⟨heq, hall⟩ | ⟨pg, hfirst, heq⟩
  · rw [hwhole] at hall
    exact Or.inl ⟨heq, hall⟩
  · have hinside := hfirst.inside
    exact Or.inr ⟨pg, by omega, hfirst.free, heq⟩

end VijosOS
