import VijosOS.Library.Transition
import VijosOS.Memory.Allocator

/-!
# Boot and runs of the allocator

The boot sequence of `init_arch_dev`, then any sequence of `get_free_page`,
`mm_take_snapshot` and `mm_restore_snapshot`. The history of a run records the
pages returned since the last restore and since the last snapshot.
-/

namespace VijosOS

open Library

/-- `init_mm`, one `add_pages` and `finish_add_pages`, over any memory contents. -/
def bootMm (bssEnd start n : Nat) (mm : Mm) : Option Mm :=
  (addPages start n (initMm bssEnd mm)).map finishAddPages

/-- The first address `finish_add_pages` leaves available. -/
def availableStart (mm : Mm) : Nat := pgAlign (wrap64 (mm.mmbmSnapshotAt + mmbmSize mm))

/-- A region of whole bitmap words with the kernel image and both bitmaps inside it. -/
structure BootLayout (bssEnd start n : Nat) : Prop where
  first : 64 ∣ start >>> pgShift
  last : 64 ∣ (start >>> pgShift) + n
  space : ((start >>> pgShift) + n) * 4096 < 2 ^ 64
  bss_inside : start ≤ bssEnd
  fits : (bssEnd + 15) / 16 * 16 + 2 * (24 + ((start >>> pgShift) + n) / 8) ≤
    ((start >>> pgShift) + n) * 4096

/-- Where the kernel image and the two bitmaps lie, below `available_start`. -/
structure Mm.Placed (mm : Mm) (bssEnd : Nat) : Prop where
  image : bssEnd ≤ mm.mmbmAt
  bitmap : mm.mmbmAt + mmbmSize mm ≤ mm.mmbmSnapshotAt
  snapshot : mm.mmbmSnapshotAt + mmbmSize mm ≤ availableStart mm
  aligned : availableStart mm % 4096 = 0
  pos : 0 < availableStart mm
  within : availableStart mm ≤ mm.mmbm.size * 4096

/-- Every page below `available_start` is marked. -/
def Mm.Reserved (mm : Mm) : Prop :=
  ∀ pg < availableStart mm / 4096, bitAt mm.mmbm.bits pg = true

theorem bootMm_spec {bssEnd start n : Nat} (h : BootLayout bssEnd start n) (mm₀ : Mm) :
    ∃ mm, bootMm bssEnd start n mm₀ = some mm ∧ mm.mmbm.size = start / 4096 + n ∧
      mm.mmbm.Counted ∧ mm.Placed bssEnd ∧ start ≤ availableStart mm ∧
      ∀ pg < mm.mmbm.size, bitAt mm.mmbm.bits pg = decide (pg < availableStart mm / 4096) := by
  have hfirst := h.first
  have hlast := h.last
  have hspace := h.space
  have hbss := h.bss_inside
  have hfits := h.fits
  have hpage : start >>> pgShift = start / 4096 := Nat.shiftRight_eq_div_pow _ 12
  rw [hpage] at hfirst hlast hspace hfits
  obtain ⟨a, ha⟩ := hfirst
  obtain ⟨c, hc⟩ := hlast
  let size := start / 4096 + n
  let base := (bssEnd + 15) / 16 * 16
  let bytes := 24 + size / 64 * 8
  let avail := (base + bytes + bytes + 4095) / 4096 * 4096
  have hbase : align bssEnd 0x10 = base :=
    align_two_pow (k := 4) (by decide) (by omega)
  -- the bitmap after `add_pages`: cleared words, then the pages below the region taken
  let grown : MmBitmap := (initMm bssEnd mm₀).mmbm.grow size
  let added : MmBitmap := takePagesFrom grown 0 (start / 4096)
  have hclear : ∀ pg < size, bitAt grown.bits pg = false := by
    intro pg hpg
    show bitAt (zeroWords _ (0 / 64) ((size / 64 - 0 / 64) * 8)) pg = false
    rw [zeroWords_bitAt, decide_eq_true (show 0 / 64 ≤ pg / 64 ∧ pg / 64 < 0 / 64 + (size / 64 - 0 / 64)
      by omega)]
    rfl
  have hzero : (0 : Nat) = countBits grown.bits size := by
    symm
    apply Nat.count_iff_forall_not.mpr
    intro pg hpg
    simp [hclear pg hpg]
  have hadd : addPages start n (initMm bssEnd mm₀) =
      some { mm₀ with mmbmAt := base, mmbm := added } := by
    rw [addPages_eq (by omega) (by omega) (Nat.zero_le _)]
    simp only [initMm, hbase, added, grown, size, Nat.sub_zero]
  have hadded_size : added.size = size := takePagesFrom_size _ _ _
  have hadded_count : added.used = countBits added.bits size :=
    takePagesFrom_count _ (by show 0 + start / 4096 ≤ size; omega) hzero
  have hadded_bit : ∀ pg < size, bitAt added.bits pg = decide (pg < start / 4096) := by
    intro pg hpg
    rw [takePagesFrom_bitAt, hclear pg hpg]
    simp
  -- `finish_add_pages` places the snapshot and takes everything below `available_start`
  have hbytes : ∀ b : MmBitmap, b.size = size → bitmapBytes b = bytes := by
    intro b hb
    rw [bitmapBytes_eq b (by rw [hb]; exact ⟨c, hc⟩) (by omega), hb]
  have havail : pgAlign (wrap64 (base + bytes + bytes)) = avail := by
    rw [wrap64_of_lt (by omega), pgAlign_eq (by omega)]
  let final : Mm := { mm₀ with
    mmbmAt := base
    mmbm := takePagesFrom added 0 (avail / 4096)
    mmbmSnapshotAt := base + bytes }
  have hfinish : finishAddPages { mm₀ with mmbmAt := base, mmbm := added } = final := by
    have hshift : avail >>> pgShift = avail / 4096 := Nat.shiftRight_eq_div_pow _ 12
    have hat : wrap64 (base + bytes) = base + bytes := wrap64_of_lt (by omega)
    simp only [finishAddPages, mmbmSize, hbytes added hadded_size, hat, havail, hshift, takePages,
      final, Nat.zero_shiftRight]
  have hfinal_size : final.mmbm.size = size := by
    rw [takePagesFrom_size, hadded_size]
  have hfinal_avail : availableStart final = avail := by
    rw [availableStart, mmbmSize, hbytes final.mmbm hfinal_size]
    exact havail
  refine ⟨final, by rw [bootMm, hadd, Option.map_some, hfinish], hfinal_size, ?_, ?_, ?_, ?_⟩
  · refine ⟨by rw [hfinal_size]; exact ⟨c, hc⟩, by rw [hfinal_size]; omega, ?_, ?_⟩
    · have hnext : final.mmbm.next = 0 := by
        simp [final, added, grown, MmBitmap.grow, initMm]
      rw [hnext, hfinal_size]
      omega
    · rw [hfinal_size, ← hadded_size]
      exact takePagesFrom_count _ (by rw [hadded_size]; omega) (by rw [hadded_size]; exact hadded_count)
  · have hm : mmbmSize final = bytes := hbytes _ hfinal_size
    refine ⟨by show bssEnd ≤ base; omega, by rw [hm], ?_, ?_, ?_, ?_⟩
    · rw [hm, hfinal_avail]
      show base + bytes + bytes ≤ avail
      omega
    · rw [hfinal_avail]
      omega
    · rw [hfinal_avail]
      omega
    · rw [hfinal_avail, hfinal_size]
      omega
  · rw [hfinal_avail]
    omega
  · intro pg hpg
    rw [hfinal_size] at hpg
    rw [hfinal_avail, takePagesFrom_bitAt, hadded_bit pg hpg, ← Bool.decide_or]
    apply decide_eq_decide.mpr
    omega

/-! ## Runs -/

/-- What the allocator keeps from boot on. -/
structure Mm.Inv (mm : Mm) (bssEnd : Nat) : Prop where
  counted : mm.mmbm.Counted
  placed : mm.Placed bssEnd
  reserved : mm.Reserved

theorem availableStart_congr {mm mm' : Mm} (hat : mm'.mmbmSnapshotAt = mm.mmbmSnapshotAt)
    (hsize : mm'.mmbm.size = mm.mmbm.size) : availableStart mm' = availableStart mm := by
  simp only [availableStart, mmbmSize, bitmapBytes, hat, hsize]

theorem Mm.Placed.congr {mm mm' : Mm} {bssEnd : Nat} (h : mm.Placed bssEnd)
    (hat : mm'.mmbmAt = mm.mmbmAt) (hsnap : mm'.mmbmSnapshotAt = mm.mmbmSnapshotAt)
    (hsize : mm'.mmbm.size = mm.mmbm.size) : mm'.Placed bssEnd := by
  have havail := availableStart_congr hsnap hsize
  have hbytes : mmbmSize mm' = mmbmSize mm := by
    simp only [mmbmSize, bitmapBytes, hsize]
  exact ⟨by rw [hat]; exact h.image, by rw [hat, hsnap, hbytes]; exact h.bitmap,
    by rw [hsnap, hbytes, havail]; exact h.snapshot, by rw [havail]; exact h.aligned,
    by rw [havail]; exact h.pos, by rw [havail, hsize]; exact h.within⟩

theorem Mm.Inv.mark {mm : Mm} {bssEnd pg : Nat} (h : mm.Inv bssEnd) (hpg : pg < mm.mmbm.size)
    (hfree : bitAt mm.mmbm.bits pg = false) :
    ({ mm with mmbm := mm.mmbm.mark pg } : Mm).Inv bssEnd where
  counted := h.counted.mark hpg hfree
  placed := h.placed.congr rfl rfl rfl
  reserved := by
    intro m hm
    have hold := h.reserved m hm
    rw [MmBitmap.mark_bitAt, hold, Bool.or_true]

/-- A page the allocator returns was free and lies above its own metadata. -/
theorem getFreePage_page {mm : Mm} {bssEnd : Nat} (h : mm.Inv bssEnd)
    (hne : (getFreePage mm).1 ≠ 0) :
    ∃ pg < mm.mmbm.size, bitAt mm.mmbm.bits pg = false ∧ availableStart mm ≤ pg * 4096 ∧
      getFreePage mm = (pg * 4096, { mm with mmbm := mm.mmbm.mark pg }) := by
  rcases getFreePage_spec h.counted with ⟨heq, _⟩ | ⟨pg, hpg, hfree, heq⟩
  · rw [heq] at hne
    exact absurd rfl hne
  · refine ⟨pg, hpg, hfree, ?_, heq⟩
    have haligned := h.placed.aligned
    by_contra hlow
    have hused := h.reserved pg (by omega)
    rw [hused] at hfree
    exact Bool.noConfusion hfree

theorem getFreePage_eq_zero {mm : Mm} {bssEnd : Nat} (h : mm.Inv bssEnd) :
    (getFreePage mm).1 = 0 ↔ ∀ pg < mm.mmbm.size, bitAt mm.mmbm.bits pg = true := by
  constructor
  · intro hz
    rcases getFreePage_spec h.counted with ⟨_, hall⟩ | ⟨pg, hpg, hfree, heq⟩
    · exact hall
    · -- page 0 is below `available_start`, so a marked page has a nonzero address
      have hpos := h.placed.pos
      have haligned := h.placed.aligned
      have hzero : pg = 0 := by
        rw [heq] at hz
        simp only at hz
        omega
      have hused := h.reserved pg (by omega)
      rw [hused] at hfree
      exact Bool.noConfusion hfree
  · intro hall
    rcases getFreePage_spec h.counted with ⟨heq, _⟩ | ⟨pg, hpg, hfree, _⟩
    · rw [heq]
    · rw [hall pg hpg] at hfree
      exact Bool.noConfusion hfree

theorem copyBitmap_bitAt (dst src : MmBitmap) {pg : Nat} (hblock : 64 ∣ src.size)
    (hbound : src.size ≤ 2 ^ 52) (hpg : pg < src.size) :
    bitAt (copyBitmap dst src (bitmapBytes src)).bits pg = bitAt src.bits pg := by
  have hword : pg / 64 < (bitmapBytes src - 24) / 8 := by
    rw [bitmapBytes_eq src hblock hbound]
    omega
  simp only [bitAt, copyBitmap, if_pos hword]

theorem MmBitmap.Counted.copy {src : MmBitmap} (h : src.Counted) (dst : MmBitmap) :
    (copyBitmap dst src (bitmapBytes src)).Counted where
  block := h.block
  bound := h.bound
  next_lt := h.next_lt
  used_eq := by
    show src.used = countBits (copyBitmap dst src (bitmapBytes src)).bits src.size
    rw [h.used_eq]
    apply countBits_congr
    intro pg hpg
    rw [copyBitmap_bitAt dst src h.block h.bound hpg]

inductive MmOp where
  | getFreePage
  | takeSnapshot
  | restoreSnapshot

/-- The allocator with the history of its run: the pages returned since the last
restore, and those returned since the last snapshot once there is one. -/
structure MmRun where
  mm : Mm
  live : List Nat
  sinceTake : Option (List Nat)

def MmRun.step (r : MmRun) : MmOp → Option MmRun
  | .getFreePage =>
    let got := getFreePage r.mm
    if got.1 = 0 then some { r with mm := got.2 }
    else some ⟨got.2, got.1 :: r.live, r.sinceTake.map (got.1 :: ·)⟩
  | .takeSnapshot => some ⟨mmTakeSnapshot r.mm, r.live, some []⟩
  | .restoreSnapshot =>
    match r.sinceTake with
    | none => none
    | some pages => some ⟨mmRestoreSnapshot r.mm, [], some pages⟩

/-- What every state of a run promises to the callers of the allocator. -/
structure MmRun.Correct (r : MmRun) (bssEnd start n : Nat) : Prop where
  size_eq : r.mm.mmbm.size = start / 4096 + n
  used_eq : r.mm.mmbm.used = countBits r.mm.mmbm.bits r.mm.mmbm.size
  next_lt : r.mm.mmbm.next < r.mm.mmbm.size / 64
  placed : r.mm.Placed bssEnd
  zero_iff : (getFreePage r.mm).1 = 0 ↔ ∀ pg < r.mm.mmbm.size, bitAt r.mm.mmbm.bits pg = true
  zero_keeps : (getFreePage r.mm).1 = 0 → (getFreePage r.mm).2 = r.mm
  returned : (getFreePage r.mm).1 ≠ 0 → ∃ pg, (getFreePage r.mm).1 = pg * 4096 ∧
    bitAt r.mm.mmbm.bits pg = false ∧ start / 4096 ≤ pg ∧ pg < start / 4096 + n ∧
    availableStart r.mm ≤ pg * 4096 ∧
    ∀ m, bitAt (getFreePage r.mm).2.mmbm.bits m = (decide (m = pg) || bitAt r.mm.mmbm.bits m)
  not_twice : (getFreePage r.mm).1 ≠ 0 → (getFreePage r.mm).1 ∉ r.live
  restored : ∀ pages, r.sinceTake = some pages → ∀ pg < r.mm.mmbm.size,
    (bitAt (mmRestoreSnapshot r.mm).mmbm.bits pg = false ↔
      bitAt r.mm.mmbm.bits pg = false ∨ pg * 4096 ∈ pages)

/-- The invariant of a run that started with `size` pages and `available_start = avail`. -/
structure MmRun.Inv (r : MmRun) (bssEnd size avail : Nat) : Prop where
  mm : r.mm.Inv bssEnd
  size_eq : r.mm.mmbm.size = size
  avail_eq : availableStart r.mm = avail
  live : ∀ a ∈ r.live, bitAt r.mm.mmbm.bits (a / 4096) = true
  snapshot : ∀ pages, r.sinceTake = some pages →
    r.mm.mmbmSnapshot.Counted ∧ r.mm.mmbmSnapshot.size = size ∧
    (∀ pg < avail / 4096, bitAt r.mm.mmbmSnapshot.bits pg = true) ∧
    ∀ pg < size, (bitAt r.mm.mmbmSnapshot.bits pg = false ↔
      bitAt r.mm.mmbm.bits pg = false ∨ pg * 4096 ∈ pages)

private theorem MmRun.Inv.get {r : MmRun} {bssEnd size avail pg : Nat}
    (h : r.Inv bssEnd size avail) (hpg : pg < r.mm.mmbm.size)
    (hfree : bitAt r.mm.mmbm.bits pg = false) :
    MmRun.Inv ⟨{ r.mm with mmbm := r.mm.mmbm.mark pg }, pg * 4096 :: r.live,
      r.sinceTake.map (pg * 4096 :: ·)⟩ bssEnd size avail where
  mm := h.mm.mark hpg hfree
  size_eq := h.size_eq
  avail_eq := h.avail_eq
  live := by
    intro a ha
    rw [MmBitmap.mark_bitAt]
    rcases List.mem_cons.mp ha with rfl | hold
    · simp
    · rw [h.live a hold, Bool.or_true]
  snapshot := by
    intro pages hpages
    obtain ⟨old, hold, rfl⟩ := Option.map_eq_some_iff.mp hpages
    obtain ⟨hcounted, hsize, hlow, hfreed⟩ := h.snapshot old hold
    refine ⟨hcounted, hsize, hlow, ?_⟩
    intro m hm
    have hmul : m * 4096 = pg * 4096 ↔ m = pg := by omega
    rw [hfreed m hm, MmBitmap.mark_bitAt, List.mem_cons, hmul]
    by_cases hmp : m = pg
    · subst hmp
      simp [hfree]
    · simp [hmp]

private theorem MmRun.Inv.take {r : MmRun} {bssEnd size avail : Nat}
    (h : r.Inv bssEnd size avail) :
    MmRun.Inv ⟨mmTakeSnapshot r.mm, r.live, some []⟩ bssEnd size avail where
  mm := ⟨h.mm.counted, h.mm.placed.congr rfl rfl rfl, h.mm.reserved⟩
  size_eq := h.size_eq
  avail_eq := h.avail_eq
  live := h.live
  snapshot := by
    intro pages hpages
    have hbit : ∀ pg < size, bitAt (mmTakeSnapshot r.mm).mmbmSnapshot.bits pg =
        bitAt r.mm.mmbm.bits pg := by
      intro pg hpg
      exact copyBitmap_bitAt _ _ h.mm.counted.block h.mm.counted.bound (by rw [h.size_eq]; exact hpg)
    refine ⟨h.mm.counted.copy _, h.size_eq, ?_, ?_⟩
    · intro pg hpg
      have hwithin := h.mm.placed.within
      rw [h.avail_eq, h.size_eq] at hwithin
      rw [hbit pg (by omega)]
      exact h.mm.reserved pg (by rw [h.avail_eq]; exact hpg)
    · intro pg hpg
      obtain rfl := Option.some.inj hpages
      rw [hbit pg hpg]
      simp [mmTakeSnapshot]

private theorem MmRun.Inv.restored_bitAt {r : MmRun} {bssEnd size avail : Nat}
    (h : r.Inv bssEnd size avail) {pages : List Nat} (hpages : r.sinceTake = some pages) {pg : Nat}
    (hpg : pg < size) :
    bitAt (mmRestoreSnapshot r.mm).mmbm.bits pg = bitAt r.mm.mmbmSnapshot.bits pg := by
  obtain ⟨hcounted, hsize, _, _⟩ := h.snapshot pages hpages
  exact copyBitmap_bitAt _ _ hcounted.block hcounted.bound (by rw [hsize]; exact hpg)

private theorem MmRun.Inv.restore {r : MmRun} {bssEnd size avail : Nat}
    (h : r.Inv bssEnd size avail) {pages : List Nat} (hpages : r.sinceTake = some pages) :
    MmRun.Inv ⟨mmRestoreSnapshot r.mm, [], some pages⟩ bssEnd size avail := by
  obtain ⟨hcounted, hsize, hlow, hfreed⟩ := h.snapshot pages hpages
  have hsize' : (mmRestoreSnapshot r.mm).mmbm.size = r.mm.mmbm.size := by
    rw [h.size_eq]
    exact hsize
  have havail := availableStart_congr (show (mmRestoreSnapshot r.mm).mmbmSnapshotAt = r.mm.mmbmSnapshotAt from rfl) hsize'
  have hwithin := h.mm.placed.within
  rw [h.avail_eq, h.size_eq] at hwithin
  refine ⟨⟨hcounted.copy _, h.mm.placed.congr rfl rfl hsize', ?_⟩, hsize, ?_, ?_, ?_⟩
  · intro pg hpg
    rw [havail, h.avail_eq] at hpg
    rw [h.restored_bitAt hpages (by omega)]
    exact hlow pg hpg
  · rw [← h.avail_eq]
    exact havail
  · intro a ha
    exact absurd ha List.not_mem_nil
  · intro pages' hpages'
    obtain rfl := Option.some.inj hpages'
    refine ⟨hcounted, hsize, hlow, ?_⟩
    intro pg hpg
    rw [h.restored_bitAt hpages hpg]
    have hold := hfreed pg hpg
    constructor
    · exact Or.inl
    · rintro (hfree | hmem)
      · exact hfree
      · exact hold.mpr (Or.inr hmem)

theorem MmRun.step_inv {bssEnd size avail : Nat} (r : MmRun) (op : MmOp) (r' : MmRun)
    (h : r.Inv bssEnd size avail) (hstep : r.step op = some r') : r'.Inv bssEnd size avail := by
  cases op with
  | getFreePage =>
    rcases getFreePage_spec h.mm.counted with ⟨heq, _⟩ | ⟨pg, hpg, hfree, heq⟩
    · simp only [MmRun.step, heq, if_true, Option.some.injEq] at hstep
      subst hstep
      exact h
    · have hne : pg * 4096 ≠ 0 := by
        have hz := (getFreePage_eq_zero h.mm).not.mpr (by
          intro hall
          rw [hall pg hpg] at hfree
          exact Bool.noConfusion hfree)
        rw [heq] at hz
        exact hz
      simp only [MmRun.step, heq, if_neg hne, Option.some.injEq] at hstep
      subst hstep
      exact h.get hpg hfree
  | takeSnapshot =>
    simp only [MmRun.step, Option.some.injEq] at hstep
    subst hstep
    exact h.take
  | restoreSnapshot =>
    cases hpages : r.sinceTake with
    | none => simp [MmRun.step, hpages] at hstep
    | some pages =>
      simp only [MmRun.step, hpages, Option.some.injEq] at hstep
      subst hstep
      exact h.restore hpages

theorem MmRun.Inv.correct {r : MmRun} {bssEnd start n avail : Nat}
    (h : r.Inv bssEnd (start / 4096 + n) avail) (hstart : start ≤ avail) :
    r.Correct bssEnd start n where
  size_eq := h.size_eq
  used_eq := h.mm.counted.used_eq
  next_lt := h.mm.counted.next_lt
  placed := h.mm.placed
  zero_iff := getFreePage_eq_zero h.mm
  zero_keeps := by
    intro hz
    rcases getFreePage_spec h.mm.counted with ⟨heq, _⟩ | ⟨pg, hpg, hfree, _⟩
    · rw [heq]
    · have hall := (getFreePage_eq_zero h.mm).mp hz pg hpg
      rw [hall] at hfree
      exact Bool.noConfusion hfree
  returned := by
    intro hne
    obtain ⟨pg, hpg, hfree, habove, heq⟩ := getFreePage_page h.mm hne
    have havail := h.avail_eq
    have hsize := h.size_eq
    refine ⟨pg, by rw [heq], hfree, by omega, by omega, habove, ?_⟩
    intro m
    rw [heq]
    exact MmBitmap.mark_bitAt _ _ _
  not_twice := by
    intro hne hlive
    obtain ⟨pg, _, hfree, _, heq⟩ := getFreePage_page h.mm hne
    have hused := h.live _ hlive
    rw [heq] at hused
    simp only [Nat.mul_div_cancel pg (by decide : 0 < 4096)] at hused
    rw [hused] at hfree
    exact Bool.noConfusion hfree
  restored := by
    intro pages hpages pg hpg
    rw [h.size_eq] at hpg
    obtain ⟨_, _, _, hfreed⟩ := h.snapshot pages hpages
    rw [h.restored_bitAt hpages hpg]
    exact hfreed pg hpg

theorem bootMm_inv {bssEnd start n : Nat} (h : BootLayout bssEnd start n) (mm₀ : Mm) :
    ∃ mm, bootMm bssEnd start n mm₀ = some mm ∧ start ≤ availableStart mm ∧
      MmRun.Inv ⟨mm, [], none⟩ bssEnd (start / 4096 + n) (availableStart mm) := by
  obtain ⟨mm, hboot, hsize, hcounted, hplaced, hstart, hbits⟩ := bootMm_spec h mm₀
  refine ⟨mm, hboot, hstart, ⟨hcounted, hplaced, ?_⟩, hsize, rfl, by simp, by simp⟩
  intro pg hpg
  have hwithin := hplaced.within
  change pg < availableStart mm / 4096 at hpg
  exact (hbits pg (by omega)).trans (decide_eq_true hpg)

/-- The allocator states some run from some boot ends in. -/
def Mm.Reachable (mm : Mm) (bssEnd : Nat) : Prop :=
  ∃ start n mm₀ booted, BootLayout bssEnd start n ∧ bootMm bssEnd start n mm₀ = some booted ∧
    ∃ ops r, runSteps MmRun.step ⟨booted, [], none⟩ ops = some r ∧ r.mm = mm

theorem Mm.Reachable.inv {mm : Mm} {bssEnd : Nat} (h : mm.Reachable bssEnd) : mm.Inv bssEnd := by
  obtain ⟨start, n, mm₀, booted, hlayout, hboot, ops, r, hrun, rfl⟩ := h
  obtain ⟨mm, hboot', _, hinit⟩ := bootMm_inv hlayout mm₀
  rw [hboot, Option.some.injEq] at hboot'
  subst hboot'
  exact (runSteps_invariant MmRun.step_inv hinit hrun).mm

/-- From any boot whose metadata fits, every run of the allocator keeps its promises. -/
theorem bootMm_runs_correct {bssEnd start n : Nat} (h : BootLayout bssEnd start n) (mm₀ : Mm) :
    ∃ mm, bootMm bssEnd start n mm₀ = some mm ∧ ∀ ops r,
      runSteps MmRun.step ⟨mm, [], none⟩ ops = some r → r.Correct bssEnd start n := by
  obtain ⟨mm, hboot, hstart, hinit⟩ := bootMm_inv h mm₀
  refine ⟨mm, hboot, ?_⟩
  intro ops r hrun
  exact (runSteps_invariant MmRun.step_inv hinit hrun).correct hstart

/-- A region of 64 pages whose first half is the kernel image. -/
theorem smallLayout : BootLayout 0x40800 0x40000 64 :=
  ⟨by decide, by decide, by decide, by decide, by decide⟩

set_option maxRecDepth 4000 in
/-- The theorem after a rewound run in a region of 64 pages. -/
theorem bootMm_runs_correct_small :
    ∃ mm r, bootMm 0x40800 0x40000 64 ⟨0, ⟨0, 0, 0, fun _ => 0⟩, 0, ⟨0, 0, 0, fun _ => 0⟩⟩ = some mm ∧
      runSteps MmRun.step ⟨mm, [], none⟩
        [.getFreePage, .takeSnapshot, .getFreePage, .restoreSnapshot] = some r ∧
      r.Correct 0x40800 0x40000 64 := by
  obtain ⟨mm, hboot, hall⟩ := bootMm_runs_correct smallLayout
    ⟨0, ⟨0, 0, 0, fun _ => 0⟩, 0, ⟨0, 0, 0, fun _ => 0⟩⟩
  have hrun : ((bootMm 0x40800 0x40000 64
      ⟨0, ⟨0, 0, 0, fun _ => 0⟩, 0, ⟨0, 0, 0, fun _ => 0⟩⟩).bind fun mm =>
        runSteps MmRun.step ⟨mm, [], none⟩
          [.getFreePage, .takeSnapshot, .getFreePage, .restoreSnapshot]).isSome = true := by
    decide
  rw [hboot] at hrun
  obtain ⟨r, hr⟩ := Option.isSome_iff_exists.mp hrun
  exact ⟨mm, r, hboot, hr, hall _ r hr⟩

end VijosOS
