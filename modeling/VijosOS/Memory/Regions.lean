import VijosOS.Library.Transition
import VijosOS.Memory.Allocator

/-!
# Adding any regions of pages

Runs of `add_pages`, `take_pages` and `get_free_page` from `init_mm`. The code clears, sizes
and scans whole words of 64 pages, each rounded its own way, so a region whose ends lie
inside a word is added exactly only when the word happens to suit.
-/

namespace VijosOS

open Library

inductive RegionOp where
  | addPages (start n : Nat)
  | takePages (start n : Nat)
  | getFreePage

/-- The allocator with what the run added, as first page and length, and the pages taken or
handed out. -/
structure RegionRun where
  mm : Mm
  regions : List (Nat × Nat)
  taken : List Nat

def RegionRun.step (r : RegionRun) : RegionOp → Option RegionRun
  | .addPages start n =>
    if start < 2 ^ 64 ∧ n < 2 ^ 64 ∧ start % pgSize = 0 then
      (addPages start n r.mm).map fun mm => { r with mm, regions := (start / pgSize, n) :: r.regions }
    else none
  | .takePages start n =>
    -- existing pages only
    if start / pgSize + n ≤ r.mm.mmbm.size then
      some { r with mm := takePages start n r.mm, taken := List.range' (start / pgSize) n ++ r.taken }
    else none
  | .getFreePage =>
    let got := getFreePage r.mm
    some { r with mm := got.2, taken := if got.1 = 0 then r.taken else got.1 / pgSize :: r.taken }

/-- After `init_mm`, over any memory. -/
def startedRun (bssEnd : Nat) (mm : Mm) : RegionRun := ⟨initMm bssEnd mm, [], []⟩

def RegionRun.Marked (r : RegionRun) (pg : Nat) : Prop := bitAt r.mm.mmbm.bits pg = true

instance (r : RegionRun) (pg : Nat) : Decidable (r.Marked pg) := inferInstanceAs (Decidable (_ = _))

def RegionRun.Added (r : RegionRun) (pg : Nat) : Prop := ∃ g ∈ r.regions, g.1 ≤ pg ∧ pg < g.1 + g.2

/-- The bookkeeping is exact. -/
structure RegionRun.Exact (r : RegionRun) : Prop where
  free_iff : ∀ pg < r.mm.mmbm.size, ¬ r.Marked pg ↔ r.Added pg ∧ pg ∉ r.taken
  gap : ∀ pg < r.mm.mmbm.size, ¬ r.Added pg → r.Marked pg
  used_eq : r.mm.mmbm.used = countBits r.mm.mmbm.bits r.mm.mmbm.size
  covers : r.mm.mmbm.size ≤ 8 * (mmbmSize r.mm - 24)

/-- A call leaves the bookkeeping exact, unmarks nothing, and fails only when no page is free. -/
def RegionRun.StepExact (r : RegionRun) (op : RegionOp) : Prop :=
  ∀ r', r.step op = some r' → r'.Exact ∧ (∀ pg < r.mm.mmbm.size, r.Marked pg → r'.Marked pg) ∧
    (op = .getFreePage → (getFreePage r.mm).1 = 0 → ∀ pg < r.mm.mmbm.size, r.Marked pg)

/-- The region lies in the 64-bit address space. -/
def RegionOp.InSpace : RegionOp → Prop
  | .addPages start n => start / pgSize + n ≤ 2 ^ 52
  | _ => True

/-- What a call relies on. A new region must find free the pages of a word it clears, must find
clear the bits of its last word, which it does not clear, and must not end within the first eight
pages of a word. A request must find a free page in a whole word, other than page 0, or none. -/
def RegionRun.Suits (r : RegionRun) : RegionOp → Prop
  | .addPages start n =>
    let last := r.mm.mmbm.size
    let size := start / pgSize + n
    (last / 64 < size / 64 → ∀ pg, last / 64 * 64 ≤ pg → pg < last → ¬ r.Marked pg) ∧
      (∀ pg, last ≤ pg → size / 64 * 64 ≤ pg → pg < size → ¬ r.Marked pg) ∧
      ¬ (0 < size % 64 ∧ size % 64 < 8)
  | .takePages _ _ => True
  | .getFreePage =>
    (∀ pg < r.mm.mmbm.size, r.Marked pg) ∨
      (∃ pg < r.mm.mmbm.size / 64 * 64, ¬ r.Marked pg) ∧
        (¬ r.Marked 0 → r.mm.mmbm.next ≠ 0 ∧
          ∃ pg < r.mm.mmbm.size / 64 * 64, r.mm.mmbm.next * 64 ≤ pg ∧ ¬ r.Marked pg)

/-- What every exact run keeps besides. -/
structure RegionRun.Inv (r : RegionRun) : Prop where
  exact : r.Exact
  bound : r.mm.mmbm.size ≤ 2 ^ 52
  next : r.mm.mmbm.next = 0 ∨ r.mm.mmbm.next < r.mm.mmbm.size / 64
  added : ∀ pg, r.Added pg → pg < r.mm.mmbm.size
  taken : ∀ pg ∈ r.taken, pg < r.mm.mmbm.size

theorem startedRun_inv (bssEnd : Nat) (mm : Mm) : (startedRun bssEnd mm).Inv := by
  have hnone : ∀ pg, ¬ (startedRun bssEnd mm).Added pg := by
    rintro pg ⟨g, hg, _⟩
    cases hg
  refine ⟨⟨?_, ?_, ?_, ?_⟩, Nat.zero_le _, Or.inl rfl, ?_, ?_⟩
  · exact fun pg hpg => absurd hpg (Nat.not_lt_zero pg)
  · exact fun pg hpg => absurd hpg (Nat.not_lt_zero pg)
  · exact (Nat.count_zero (fun pg => bitAt mm.mmbm.bits pg = true)).symm
  · exact Nat.zero_le _
  · exact fun pg hpg => absurd hpg (hnone pg)
  · exact fun pg hpg => absurd hpg (List.not_mem_nil)

/-! ## The size of the bitmap -/

theorem bitmapBytes_covers {b : MmBitmap} (hbound : b.size ≤ 2 ^ 52) :
    b.size ≤ 8 * (bitmapBytes b - 24) ↔ ¬ (0 < b.size % 64 ∧ b.size % 64 < 8) := by
  have hshift : b.size >>> 3 = b.size / 8 := Nat.shiftRight_eq_div_pow _ 3
  have halign : align (b.size / 8) 8 = (b.size / 8 + 8 - 1) / 8 * 8 :=
    align_two_pow (k := 3) (by decide) (by omega)
  rw [bitmapBytes, hshift, halign, wrap64_of_lt (by omega)]
  omega

/-! ## Taking pages -/

section Steps

variable {r r' : RegionRun}

/-- What is left to show once the marks are exact. -/
theorem RegionRun.Exact.of_free
    (hfree : ∀ pg < r.mm.mmbm.size, ¬ r.Marked pg ↔ r.Added pg ∧ pg ∉ r.taken)
    (hused : r.mm.mmbm.used = countBits r.mm.mmbm.bits r.mm.mmbm.size)
    (hcovers : r.mm.mmbm.size ≤ 8 * (mmbmSize r.mm - 24)) : r.Exact := by
  refine ⟨hfree, ?_, hused, hcovers⟩
  intro pg hpg hgap
  by_contra hclear
  exact hgap ((hfree pg hpg).mp hclear).1

/-- Marking more pages and recording them keeps the invariant. -/
theorem RegionRun.Inv.mark_more (h : r.Inv) {b : MmBitmap} {more : List Nat}
    (hbit : ∀ pg, bitAt b.bits pg = true ↔ pg ∈ more ∨ r.Marked pg)
    (hmore : ∀ pg ∈ more, pg < r.mm.mmbm.size) (hsize : b.size = r.mm.mmbm.size)
    (hnext : b.next = 0 ∨ b.next < b.size / 64) (hused : b.used = countBits b.bits b.size) :
    RegionRun.Inv { r with mm := { r.mm with mmbm := b }, taken := more ++ r.taken } := by
  refine ⟨RegionRun.Exact.of_free ?_ hused ?_, ?_, hnext, ?_, ?_⟩
  · intro pg hpg
    have hold := h.exact.free_iff pg (hsize ▸ hpg)
    show ¬ bitAt b.bits pg = true ↔ r.Added pg ∧ pg ∉ more ++ r.taken
    rw [hbit, not_or, hold, List.mem_append, not_or]
    exact ⟨fun ⟨hm, ha, ht⟩ => ⟨ha, hm, ht⟩, fun ⟨ha, hm, ht⟩ => ⟨hm, ha, ht⟩⟩
  · have hcovers := h.exact.covers
    simp only [mmbmSize, bitmapBytes] at hcovers ⊢
    rw [hsize]
    exact hcovers
  · rw [hsize]
    exact h.bound
  · intro pg hpg
    show pg < b.size
    rw [hsize]
    exact h.added pg hpg
  · intro pg hpg
    show pg < b.size
    rw [hsize]
    rcases List.mem_append.mp hpg with hm | ht
    · exact hmore pg hm
    · exact h.taken pg ht

theorem step_takePages (h : r.Inv) {start n : Nat} (hstep : r.step (.takePages start n) = some r') :
    r'.Inv ∧ ∀ pg < r.mm.mmbm.size, r.Marked pg → r'.Marked pg := by
  simp only [RegionRun.step] at hstep
  split_ifs at hstep with hexist
  obtain rfl := Option.some.inj hstep
  have hpage : start >>> pgShift = start / pgSize := Nat.shiftRight_eq_div_pow _ 12
  have hbit : ∀ pg, bitAt (takePagesFrom r.mm.mmbm (start / pgSize) n).bits pg = true ↔
      pg ∈ List.range' (start / pgSize) n ∨ r.Marked pg := by
    intro pg
    rw [takePagesFrom_bitAt, Bool.or_eq_true, decide_eq_true_iff, List.mem_range'_1]
    rfl
  rw [takePages, hpage]
  constructor
  · refine h.mark_more hbit ?_ (takePagesFrom_size _ _ _) ?_ ?_
    · intro pg hpg
      rw [List.mem_range'_1] at hpg
      omega
    · rw [takePagesFrom_next, takePagesFrom_size]
      exact h.next
    · rw [takePagesFrom_size]
      exact takePagesFrom_count _ hexist h.exact.used_eq
  · exact fun pg _ hmarked => (hbit pg).mpr (Or.inr hmarked)

/-! ## Handing out pages -/

/-- The scan returns page 0 only from its own word or past every later one. -/
theorem FirstFree.ne_zero {b : MmBitmap} {nblocks index pg : Nat} (h : FirstFree b nblocks index pg)
    (hne : pg ≠ 0) (hzero : bitAt b.bits 0 = false) : index ≠ 0 ∧ index ≤ pg / 64 := by
  have hword : pg / 64 ≠ 0 := by
    intro hfirst
    have hset := h.low 0 (Nat.pos_of_ne_zero hne) hfirst.symm
    rw [hzero] at hset
    exact Bool.noConfusion hset
  have hfull : b.bits (0 / 64) ≠ BitVec.allOnes 64 := by
    intro hfull
    have hset := bitAt_of_full hfull
    rw [hzero] at hset
    exact Bool.noConfusion hset
  constructor
  · rintro rfl
    exact hfull (h.ahead (Nat.zero_le _) 0 (Nat.le_refl 0) (Nat.pos_of_ne_zero hword))
  · by_contra hlt
    exact hfull ((h.around (by omega)).2 0 (Nat.pos_of_ne_zero hword))

theorem FirstFree.zero {b : MmBitmap} {nblocks index q : Nat} (h : FirstFree b nblocks index 0)
    (hne : index ≠ 0) (hlow : index * 64 ≤ q) (hhigh : q < nblocks * 64) : bitAt b.bits q = true :=
  bitAt_of_full ((h.around (Nat.pos_of_ne_zero hne)).1 _ (by omega) (by omega))

theorem MmBitmap.mark_used {b : MmBitmap} {pg : Nat} (hpg : pg < b.size)
    (hfree : bitAt b.bits pg = false) (hused : b.used = countBits b.bits b.size) :
    (b.mark pg).used = countBits (b.mark pg).bits b.size := by
  show b.used + 1 = countBits (setBit b.bits pg) b.size
  rw [countBits_setBit (by decide) b.bits hpg hfree, hused]

theorem step_getFreePage_iff (h : r.Inv) (hstep : r.step .getFreePage = some r') :
    (r.Suits .getFreePage ↔ ((getFreePage r.mm).1 = 0 → ∀ pg < r.mm.mmbm.size, r.Marked pg)) ∧
      (r.Suits .getFreePage → r'.Inv ∧ ∀ pg < r.mm.mmbm.size, r.Marked pg → r'.Marked pg) := by
  obtain rfl := Option.some.inj hstep
  rcases getFreePage_scan h.bound h.next h.exact.used_eq with ⟨heq, hall⟩ | ⟨pg, hfirst, heq⟩
  · -- no page of a whole word is free
    simp only [heq, if_true]
    refine ⟨⟨?_, ?_⟩, fun _ => ⟨h, fun _ _ hmarked => hmarked⟩⟩
    · rintro (hmarked | ⟨⟨pg, hpg, hfree⟩, _⟩) _
      · exact hmarked
      · exact absurd (hall pg hpg) hfree
    · exact fun hmarked => Or.inl (hmarked trivial)
  · have hinside := hfirst.inside
    have hpg : pg < r.mm.mmbm.size := by omega
    have hfree : ¬ r.Marked pg := by
      unfold RegionRun.Marked
      rw [hfirst.free]
      exact Bool.noConfusion
    have hsuits : r.Suits .getFreePage ↔ pg ≠ 0 := by
      constructor
      · rintro (hmarked | ⟨_, hzero⟩) rfl
        · exact hfree (hmarked 0 hpg)
        · obtain ⟨hne, q, hhigh, hlow, hq⟩ := hzero hfree
          exact hq (hfirst.zero hne hlow hhigh)
      · intro hne
        refine Or.inr ⟨⟨pg, by omega, hfree⟩, fun hzero => ?_⟩
        obtain ⟨hnext, hle⟩ := hfirst.ne_zero hne (Bool.eq_false_iff.mpr hzero)
        exact ⟨hnext, pg, by omega, by omega, hfree⟩
    simp only [heq]
    constructor
    · rw [hsuits]
      constructor
      · intro hne hzero
        omega
      · rintro hall rfl
        exact hfree (hall rfl 0 hpg)
    · intro hs
      have hne := hsuits.mp hs
      rw [if_neg (show ¬ pg * 4096 = 0 by omega), Nat.mul_div_cancel _ (by decide)]
      have hbit : ∀ q, bitAt (r.mm.mmbm.mark pg).bits q = true ↔ q ∈ [pg] ∨ r.Marked q := by
        intro q
        rw [MmBitmap.mark_bitAt, Bool.or_eq_true, decide_eq_true_iff, List.mem_singleton]
        rfl
      constructor
      · have hmore : ∀ q ∈ [pg], q < r.mm.mmbm.size := by
          intro q hq
          rw [List.mem_singleton.mp hq]
          exact hpg
        exact h.mark_more hbit hmore rfl (Or.inr hinside)
          (MmBitmap.mark_used hpg hfirst.free h.exact.used_eq)
      · exact fun q _ hmarked => (hbit q).mpr (Or.inr hmarked)

/-! ## Adding a region -/

/-- What an accepted call does, before any condition: the gap below the region is marked in the
grown bitmap. -/
structure AddedTo (r r' : RegionRun) (first size : Nat) : Prop where
  old : r.mm.mmbm.size ≤ first
  fits : first ≤ size ∧ size ≤ 2 ^ 52
  size_eq : r'.mm.mmbm.size = size
  next_eq : r'.mm.mmbm.next = r.mm.mmbm.next
  taken_eq : r'.taken = r.taken
  added : ∀ pg, r'.Added pg ↔ (first ≤ pg ∧ pg < size) ∨ r.Added pg
  marked : ∀ pg, r'.Marked pg ↔
    (r.mm.mmbm.size ≤ pg ∧ pg < first) ∨ bitAt (r.mm.mmbm.grow size).bits pg = true
  used : r'.mm.mmbm.used + countBits (r.mm.mmbm.grow size).bits size =
    r.mm.mmbm.used + countBits r'.mm.mmbm.bits size

theorem step_addPages {start n : Nat} (hspace : start / pgSize + n ≤ 2 ^ 52)
    (hstep : r.step (.addPages start n) = some r') :
    AddedTo r r' (start / pgSize) (start / pgSize + n) := by
  simp only [RegionRun.step] at hstep
  split_ifs at hstep with hvalid
  obtain ⟨mm, hadd, rfl⟩ := Option.map_eq_some_iff.mp hstep
  by_cases hold : r.mm.mmbm.size ≤ start / pgSize
  · rw [addPages_eq hvalid.1 hspace hold] at hadd
    obtain rfl := Option.some.inj hadd
    have hgap : r.mm.mmbm.size + (start / 4096 - r.mm.mmbm.size) = start / 4096 :=
      Nat.add_sub_cancel' hold
    refine ⟨hold, ⟨Nat.le_add_right _ _, hspace⟩, takePagesFrom_size _ _ _, takePagesFrom_next _ _ _,
      rfl, ?_, ?_, ?_⟩
    · intro pg
      simp only [RegionRun.Added, List.exists_mem_cons_iff]
    · intro pg
      rw [RegionRun.Marked, takePagesFrom_bitAt, Bool.or_eq_true, decide_eq_true_iff, hgap]
    · exact takePagesFrom_used _ (by rw [hgap]; exact Nat.le_add_right _ _)
  · have hpage : start >>> pgShift = start / pgSize := Nat.shiftRight_eq_div_pow _ 12
    rw [addPages, hpage, if_pos (Nat.lt_of_not_le hold)] at hadd
    cases hadd

theorem grow_bitAt (b : MmBitmap) (size pg : Nat) :
    bitAt (b.grow size).bits pg =
      (!decide (b.size / 64 ≤ pg / 64 ∧ pg / 64 < size / 64) && bitAt b.bits pg) := by
  have hwords : b.size / 64 ≤ pg / 64 ∧ pg / 64 < b.size / 64 + (size / 64 - b.size / 64) ↔
      b.size / 64 ≤ pg / 64 ∧ pg / 64 < size / 64 := by omega
  rw [MmBitmap.grow, zeroWords_bitAt, decide_eq_decide.mpr hwords]

/-- The old counter is right for the grown bitmap when the new pages are all clear. -/
theorem grow_count {b : MmBitmap} {size : Nat} (hsize : b.size ≤ size)
    (hused : b.used = countBits b.bits b.size)
    (hkeep : ∀ pg < b.size, bitAt (b.grow size).bits pg = bitAt b.bits pg) :
    b.used = countBits (b.grow size).bits size ↔
      ∀ pg, b.size ≤ pg → pg < size → bitAt (b.grow size).bits pg = false := by
  have hsplit := countBits_split (b.grow size).bits hsize
  rw [countBits_congr hkeep, ← hused] at hsplit
  rw [hsplit, Nat.left_eq_add, Nat.count_iff_forall_not]
  constructor
  · intro hnone pg hle hlt
    have hclear := hnone (pg - b.size) (by omega)
    rw [Nat.add_sub_cancel' hle] at hclear
    exact Bool.eq_false_iff.mpr hclear
  · intro hclear i hi
    rw [hclear _ (Nat.le_add_right _ _) (by omega)]
    exact Bool.noConfusion

/-- The words cleared below the old size hold no marked page exactly when no page is unmarked. -/
theorem grow_words_iff (r : RegionRun) (size : Nat) :
    (r.mm.mmbm.size / 64 < size / 64 →
      ∀ pg, r.mm.mmbm.size / 64 * 64 ≤ pg → pg < r.mm.mmbm.size → ¬ r.Marked pg) ↔
      ∀ pg < r.mm.mmbm.size, bitAt (r.mm.mmbm.grow size).bits pg = bitAt r.mm.mmbm.bits pg := by
  constructor
  · intro hword pg hpg
    rw [grow_bitAt]
    by_cases hcleared : r.mm.mmbm.size / 64 ≤ pg / 64 ∧ pg / 64 < size / 64
    · have hfree := hword (by omega) pg (by omega) hpg
      rw [Bool.eq_false_iff.mpr hfree, Bool.and_false]
    · rw [decide_eq_false hcleared, Bool.not_false, Bool.true_and]
  · intro hkeep hlt pg hle hpg
    have hbit := hkeep pg hpg
    rw [grow_bitAt, decide_eq_true (by omega)] at hbit
    exact Bool.eq_false_iff.mp hbit.symm

theorem AddedTo.kept_iff {first size : Nat} (h : AddedTo r r' first size) :
    (∀ pg < r.mm.mmbm.size, r.Marked pg → r'.Marked pg) ↔
      ∀ pg < r.mm.mmbm.size, bitAt (r.mm.mmbm.grow size).bits pg = bitAt r.mm.mmbm.bits pg := by
  constructor
  · intro hkept pg hpg
    cases hbit : bitAt r.mm.mmbm.bits pg with
    | false => rw [grow_bitAt, hbit, Bool.and_false]
    | true =>
      rcases (h.marked pg).mp (hkept pg hpg hbit) with hgap | hgrown
      · omega
      · exact hgrown
  · intro hkeep pg hpg hm
    exact (h.marked pg).mpr (Or.inr ((hkeep pg hpg).trans hm))

/-- Of the pages above the old size, only those of the last word keep what memory held. -/
theorem grow_clear_iff (r : RegionRun) (size : Nat) :
    (∀ pg, r.mm.mmbm.size ≤ pg → pg < size → bitAt (r.mm.mmbm.grow size).bits pg = false) ↔
      ∀ pg, r.mm.mmbm.size ≤ pg → size / 64 * 64 ≤ pg → pg < size → ¬ r.Marked pg := by
  constructor
  · intro hclear pg hlow hlast hpg
    have hbit := hclear pg hlow hpg
    rw [grow_bitAt, decide_eq_false (by omega)] at hbit
    exact Bool.eq_false_iff.mp hbit
  · intro hclear pg hlow hpg
    rw [grow_bitAt]
    by_cases hcleared : r.mm.mmbm.size / 64 ≤ pg / 64 ∧ pg / 64 < size / 64
    · rw [decide_eq_true hcleared]
      rfl
    · rw [Bool.eq_false_iff.mpr (hclear pg hlow (by omega) hpg), Bool.and_false]

/-- The counter is right when the pages above the old size are clear before the gap is taken. -/
theorem AddedTo.used_iff {first size : Nat} (h : AddedTo r r' first size)
    (hused : r.mm.mmbm.used = countBits r.mm.mmbm.bits r.mm.mmbm.size)
    (hkeep : ∀ pg < r.mm.mmbm.size, bitAt (r.mm.mmbm.grow size).bits pg = bitAt r.mm.mmbm.bits pg) :
    r'.mm.mmbm.used = countBits r'.mm.mmbm.bits r'.mm.mmbm.size ↔
      ∀ pg, r.mm.mmbm.size ≤ pg → pg < size → bitAt (r.mm.mmbm.grow size).bits pg = false := by
  have hsum := h.used
  rw [h.size_eq, ← grow_count (Nat.le_trans h.old h.fits.1) hused hkeep]
  omega

theorem AddedTo.free_iff {first size : Nat} (h : AddedTo r r' first size) (hinv : r.Inv)
    (hkeep : ∀ pg < r.mm.mmbm.size, bitAt (r.mm.mmbm.grow size).bits pg = bitAt r.mm.mmbm.bits pg)
    (hclear : ∀ pg, r.mm.mmbm.size ≤ pg → pg < size → bitAt (r.mm.mmbm.grow size).bits pg = false) :
    ∀ pg < size, ¬ r'.Marked pg ↔ r'.Added pg ∧ pg ∉ r'.taken := by
  intro pg hpg
  have hold := h.old
  rw [h.marked, h.added, h.taken_eq, not_or]
  by_cases hlow : pg < r.mm.mmbm.size
  · have hfree := hinv.exact.free_iff pg hlow
    rw [hkeep pg hlow]
    constructor
    · rintro ⟨_, hm⟩
      obtain ⟨hadded, htaken⟩ := hfree.mp hm
      exact ⟨Or.inr hadded, htaken⟩
    · rintro ⟨hadded, htaken⟩
      have hbefore := hadded.resolve_left (by omega)
      exact ⟨by omega, hfree.mpr ⟨hbefore, htaken⟩⟩
  · have hnew : ¬ r.Added pg := fun hadded => hlow (hinv.added pg hadded)
    have htaken : pg ∉ r.taken := fun ht => hlow (hinv.taken pg ht)
    rw [hclear pg (by omega) hpg]
    constructor
    · rintro ⟨hgap, _⟩
      exact ⟨Or.inl (by omega), htaken⟩
    · rintro ⟨hadded, _⟩
      have hin := hadded.resolve_right hnew
      exact ⟨by omega, Bool.noConfusion⟩

theorem step_addPages_iff (h : r.Inv) {start n : Nat} (hspace : start / pgSize + n ≤ 2 ^ 52)
    (hstep : r.step (.addPages start n) = some r') :
    (r.Suits (.addPages start n) ↔
      r'.Exact ∧ ∀ pg < r.mm.mmbm.size, r.Marked pg → r'.Marked pg) ∧
      (r'.Exact → r'.Inv) := by
  have hto := step_addPages hspace hstep
  have hcovers : r'.mm.mmbm.size ≤ 8 * (mmbmSize r'.mm - 24) ↔
      ¬ (0 < (start / pgSize + n) % 64 ∧ (start / pgSize + n) % 64 < 8) := by
    rw [← hto.size_eq]
    exact bitmapBytes_covers (by rw [hto.size_eq]; exact hspace)
  refine ⟨⟨?_, ?_⟩, ?_⟩
  · rintro ⟨hword, hnew, hend⟩
    have hkeep := (grow_words_iff r _).mp hword
    have hclear := (grow_clear_iff r _).mpr hnew
    have hused := (hto.used_iff h.exact.used_eq hkeep).mpr hclear
    refine ⟨RegionRun.Exact.of_free ?_ hused (hcovers.mpr hend), hto.kept_iff.mpr hkeep⟩
    rw [hto.size_eq]
    exact hto.free_iff h hkeep hclear
  · rintro ⟨hexact, hkept⟩
    have hkeep := hto.kept_iff.mp hkept
    have hclear := (hto.used_iff h.exact.used_eq hkeep).mp hexact.used_eq
    exact ⟨(grow_words_iff r _).mpr hkeep, (grow_clear_iff r _).mp hclear, hcovers.mp hexact.covers⟩
  · intro hexact
    have hold := hto.old
    have hfits := hto.fits
    refine ⟨hexact, by rw [hto.size_eq]; exact hspace, ?_, ?_, ?_⟩
    · rw [hto.next_eq, hto.size_eq]
      have hnext := h.next
      omega
    · intro pg hpg
      rw [hto.size_eq]
      rcases (hto.added pg).mp hpg with hin | hbefore
      · exact hin.2
      · have hlow := h.added pg hbefore
        omega
    · intro pg hpg
      rw [hto.taken_eq] at hpg
      rw [hto.size_eq]
      have hlow := h.taken pg hpg
      omega

end Steps

/-! ## Runs -/

/-- The call adds no region outside the address space, and is exact. -/
def RegionRun.Proper (r : RegionRun) (op : RegionOp) : Prop := op.InSpace ∧ r.StepExact op

/-- The call adds no region outside the address space, and what it relies on holds if it returns. -/
def RegionRun.Guarded (r : RegionRun) (op : RegionOp) : Prop :=
  op.InSpace ∧ (r.step op ≠ none → r.Suits op)

theorem proper_iff_guarded {r : RegionRun} (h : r.Inv) (op : RegionOp) :
    r.Proper op ↔ r.Guarded op := by
  refine and_congr_right fun hspace => ?_
  cases hstep : r.step op with
  | none => simp [RegionRun.StepExact, hstep]
  | some r' =>
    have hone : r.StepExact op ↔ r'.Exact ∧ (∀ pg < r.mm.mmbm.size, r.Marked pg → r'.Marked pg) ∧
        (op = .getFreePage → (getFreePage r.mm).1 = 0 → ∀ pg < r.mm.mmbm.size, r.Marked pg) := by
      simp [RegionRun.StepExact, hstep]
    rw [hone]
    simp only [ne_eq, reduceCtorEq, not_false_eq_true, true_implies]
    cases op with
    | addPages start n =>
      rw [(step_addPages_iff h hspace hstep).1, ← and_assoc]
      simp
    | takePages start n =>
      obtain ⟨hinv, hkept⟩ := step_takePages h hstep
      exact ⟨fun _ => trivial, fun _ => ⟨hinv.exact, hkept, nofun⟩⟩
    | getFreePage =>
      obtain ⟨hiff, hdone⟩ := step_getFreePage_iff h hstep
      constructor
      · rintro ⟨_, _, hzero⟩
        exact hiff.mpr (hzero rfl)
      · intro hsuits
        obtain ⟨hinv, hkept⟩ := hdone hsuits
        exact ⟨hinv.exact, hkept, fun _ => hiff.mp hsuits⟩

theorem Proper.inv {r r' : RegionRun} {op : RegionOp} (h : r.Inv) (hproper : r.Proper op)
    (hstep : r.step op = some r') : r'.Inv := by
  obtain ⟨hspace, hexact⟩ := hproper
  cases op with
  | addPages start n => exact (step_addPages_iff h hspace hstep).2 (hexact r' hstep).1
  | takePages start n => exact (step_takePages h hstep).1
  | getFreePage =>
    obtain ⟨hiff, hdone⟩ := step_getFreePage_iff h hstep
    exact (hdone (hiff.mpr ((hexact r' hstep).2.2 rfl))).1

/-- Over any memory, every call of a run is exact if and only if every call finds what it relies
on. -/
theorem regionRuns_exact_iff (bssEnd : Nat) (mm : Mm) (ops : List RegionOp) :
    AllSteps RegionRun.step RegionRun.Proper (startedRun bssEnd mm) ops ↔
      AllSteps RegionRun.step RegionRun.Guarded (startedRun bssEnd mm) ops :=
  allSteps_congr (fun _ op h => proper_iff_guarded h op)
    (fun _ _ _ h hproper hstep => Proper.inv h hproper hstep) (startedRun_inv bssEnd mm)

set_option maxRecDepth 4000 in
/-- A first region of ten pages, over memory of zeros: none of them is ever handed out. -/
theorem regionRuns_exact_iff_short :
    ¬ AllSteps RegionRun.step RegionRun.StepExact (startedRun 0x40800 ⟨0, ⟨0, 0, 0, fun _ => 0⟩, 0,
      ⟨0, 0, 0, fun _ => 0⟩⟩) [.addPages 0x40000 10, .getFreePage] := by
  intro hall
  have hrun : ((startedRun 0x40800 ⟨0, ⟨0, 0, 0, fun _ => 0⟩, 0, ⟨0, 0, 0, fun _ => 0⟩⟩).step
      (.addPages 0x40000 10)).map (fun r =>
        ((getFreePage r.mm).1, r.mm.mmbm.size, decide (r.Marked 64))) = some (0, 74, false) := by
    decide
  obtain ⟨r, hr, heq⟩ := Option.map_eq_some_iff.mp hrun
  simp only [Prod.mk.injEq, decide_eq_false_iff_not] at heq
  obtain ⟨hzero, hsize, hfree⟩ := heq
  have hget := (hall.2 r hr).1 _ rfl
  exact hfree (hget.2.2 rfl hzero 64 (by omega))

end VijosOS
