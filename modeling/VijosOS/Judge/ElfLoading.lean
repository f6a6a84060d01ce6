import VijosOS.Judge.Elf
import VijosOS.Memory.VmCopy

/-!
# ELF loading is faithful

What one program header adds to user memory, and by induction over the header table
what `load_elf` builds on a fresh page table when the segments do not overlap.
-/

namespace VijosOS

open Library

/-- The pages of `page` are mapped, with the bytes `wr` has; nothing else changes. -/
structure Grown (root : Nat) (page : Nat → Prop) (wr : Nat → Option Byte) (k k' : Kernel) :
    Prop where
  inside : ∀ x < 2 ^ 39, page x →
    userByte k'.mem root x = some ((wr x).getD ((userByte k.mem root x).getD 0))
  outside : ∀ x < 2 ^ 39, ¬ page x → userByte k'.mem root x = userByte k.mem root x

/-- The bytes of the file a segment places in memory. -/
def segmentBytes (elf : Nat → Byte) (ph : Elf64Phdr) (x : Nat) : Option Byte :=
  if ph.pVaddr ≤ x ∧ x < ph.pVaddr + ph.pFilesz then some (elf (ph.pOffset + (x - ph.pVaddr)))
  else none

section Grown

variable {k k' k'' : Kernel} {bssEnd : Nat} {ts : List Table} {t : Table}

theorem Copied.grown {va len : Nat} {flags : BitVec 64} {src : Nat → Option Byte}
    (h : Copied ts t.root va flags src len k k') (ht : t ∈ ts) :
    Grown t.root (Touches va len)
      (fun x => if va ≤ x ∧ x < va + len then src (x - va) else none) k k' := by
  obtain ⟨pages, hcopy⟩ := h
  constructor
  · intro x hx hpage
    have hold : ((userView k.mem t.root x).getD (makePte 0 (pages (x / 4096)) flags, 0)).2 =
        (userByte k.mem t.root x).getD 0 := by
      unfold userByte
      cases userView k.mem t.root x <;> rfl
    rw [userByte, hcopy t.root x ⟨t, ht, rfl⟩ hx, if_pos rfl, copiedAt, if_pos hpage]
    simp only [Option.map_some, hold]
    split_ifs
    · rfl
    · rfl
  · intro x hx hpage
    rw [userByte, hcopy t.root x ⟨t, ht, rfl⟩ hx, if_pos rfl, copiedAt, if_neg hpage, userByte]

theorem Grown.refl (root : Nat) (wr : Nat → Option Byte) (k : Kernel) :
    Grown root (fun _ => False) wr k k := ⟨fun _ _ hf => hf.elim, fun _ _ _ => rfl⟩

/-- Mapping further pages after a copy. -/
theorem Grown.mapMore {root : Nat} {page page' : Nat → Prop} {wr wr' : Nat → Option Byte}
    (h : Grown root page wr k k') (h' : Grown root page' wr' k' k'') (hwr : ∀ x, wr x ≠ none → page x)
    (hwr' : ∀ x, wr' x = none) : Grown root (fun x => page x ∨ page' x) wr k k'' := by
  constructor
  · intro x hx hpage
    by_cases hold : page x
    · by_cases hnew : page' x
      · rw [h'.inside x hx hnew, hwr' x, h.inside x hx hold, Option.getD_none, Option.getD_some]
      · rw [h'.outside x hx hnew, h.inside x hx hold]
    · have hnew : page' x := hpage.resolve_left hold
      have hnone : wr x = none := by_contra fun hne => hold (hwr x hne)
      rw [h'.inside x hx hnew, hwr' x, h.outside x hx hold, hnone]
  · intro x hx hpage
    rw [h'.outside x hx (fun hh => hpage (Or.inr hh)), h.outside x hx (fun hh => hpage (Or.inl hh))]

theorem Grown.congr {root : Nat} {page page' : Nat → Prop} {wr : Nat → Option Byte}
    (h : Grown root page wr k k') (hpage : ∀ x, page x ↔ page' x) : Grown root page' wr k k' :=
  ⟨fun x hx hp => h.inside x hx ((hpage x).mpr hp),
    fun x hx hp => h.outside x hx (fun hh => hp ((hpage x).mp hh))⟩

/-! ## One segment -/

/-- The checks a header passed when its segment was loaded. -/
structure SegmentOk (ph : Elf64Phdr) : Prop where
  size : ph.pFilesz ≤ ph.pMemsz
  low : userBottom ≤ ph.pVaddr
  high : ph.pVaddr + ph.pMemsz ≤ userTop

/-- A header is refused before anything is mapped, or passed the checks. -/
theorem loadSegment_cases {pt : Option Nat} {elf : Nat → Byte} {len i : Nat} {ret : Int}
    (hload : (elfPhdr elf i).pType = ptLoad)
    (hrun : loadSegment pt elf len (elfPhdr elf i) k = (ret, k')) :
    ret ≠ 0 ∧ k' = k ∨ SegmentOk (elfPhdr elf i) ∧ mapSegment pt elf (elfPhdr elf i) k = (ret, k') := by
  have hvaddr : (elfPhdr elf i).pVaddr < 2 ^ 64 := getLe_lt elf _ 8
  have hmemsz : (elfPhdr elf i).pMemsz < 2 ^ 64 := getLe_lt elf _ 8
  generalize elfPhdr elf i = ph at *
  rw [loadSegment, if_neg (not_not_intro hload)] at hrun
  by_cases hfile : ph.pFilesz ≠ 0 ∧ ¬ (ph.pOffset ≤ wrap64 (ph.pOffset + ph.pFilesz) ∧
      wrap64 (ph.pOffset + ph.pFilesz) ≤ len)
  · rw [if_pos hfile] at hrun
    obtain ⟨rfl, rfl⟩ := Prod.mk.inj hrun
    exact Or.inl ⟨by decide, rfl⟩
  rw [if_neg hfile] at hrun
  by_cases hrange : ¬ (userBottom ≤ ph.pVaddr ∧ ph.pVaddr ≤ wrap64 (ph.pVaddr + ph.pMemsz) ∧
      wrap64 (ph.pVaddr + ph.pMemsz) ≤ userTop)
  · rw [if_pos hrange] at hrun
    obtain ⟨rfl, rfl⟩ := Prod.mk.inj hrun
    exact Or.inl ⟨by decide, rfl⟩
  rw [if_neg hrange] at hrun
  by_cases hsize : ph.pFilesz > ph.pMemsz
  · rw [if_pos hsize] at hrun
    obtain ⟨rfl, rfl⟩ := Prod.mk.inj hrun
    exact Or.inl ⟨by decide, rfl⟩
  rw [if_neg hsize] at hrun
  have hbounds := not_not.mp hrange
  have htop : ph.pVaddr + ph.pMemsz ≤ userTop := by
    unfold userTop userBottom wrap64 at *
    omega
  exact Or.inr ⟨⟨Nat.not_lt.mp hsize, hbounds.1, htop⟩, hrun⟩

/-- A segment that loads passed the checks. -/
theorem loadSegment_checked {pt : Option Nat} {elf : Nat → Byte} {len i : Nat}
    (hload : (elfPhdr elf i).pType = ptLoad)
    (hrun : loadSegment pt elf len (elfPhdr elf i) k = (0, k')) :
    SegmentOk (elfPhdr elf i) ∧ mapSegment pt elf (elfPhdr elf i) k = (0, k') :=
  (loadSegment_cases hload hrun).resolve_left fun h => h.1 rfl

/-- How a segment was loaded: `n` bytes of the file were copied, then the pages of `m` bytes
from `lo` were mapped. -/
structure SegmentCopy (ts : List Table) (root : Nat) (elf : Nat → Byte) (ph : Elf64Phdr)
    (n lo m : Nat) (k k₁ k' : Kernel) : Prop where
  file : Copied ts root ph.pVaddr (segmentFlags ph.pFlags) (fun i => some (elf (ph.pOffset + i))) n k k₁
  bss : Copied ts root lo (segmentFlags ph.pFlags) (fun _ => none) m k₁ k'
  inside : ∀ x, Touches ph.pVaddr n x ∨ Touches lo m x → Touches ph.pVaddr ph.pMemsz x

/-- The two ranges of a segment that loaded. -/
structure SegmentDone (ph : Elf64Phdr) (n lo m : Nat) : Prop where
  file : n = ph.pFilesz
  pages : ∀ x, Touches ph.pVaddr ph.pMemsz x → Touches ph.pVaddr n x ∨ Touches lo m x

/-- A segment is copied and mapped as far as the memory lasts. -/
theorem mapSegment_spec (h : VmInv k bssEnd ts) (ht : t ∈ ts) {elf : Nat → Byte} {ph : Elf64Phdr}
    {ret : Int} (hok : SegmentOk ph) (hrun : mapSegment (some t.root) elf ph k = (ret, k')) :
    VmInv k' bssEnd ts ∧ ∃ k₁ n lo m, SegmentCopy ts t.root elf ph n lo m k k₁ k' ∧
      (ret = 0 → SegmentDone ph n lo m) := by
  have hsize := hok.size
  have htop := hok.high
  unfold userTop at htop
  rcases hcopy : mapAndCopy (some t.root) ph.pVaddr (segmentFlags ph.pFlags)
    (fun i => elf (ph.pOffset + i)) ph.pFilesz k with ⟨ret₁, k₁⟩
  obtain ⟨h₁, n, hn, hcopied, hret⟩ := mapAndCopy_spec h ht (by omega) hcopy
  have hnothing : Copied ts t.root 0 (segmentFlags ph.pFlags) (fun _ => none) 0 k₁ k₁ :=
    (SameViews.refl ts k₁).copied
  have hpre : ∀ x, Touches ph.pVaddr n x ∨ Touches 0 0 x → Touches ph.pVaddr ph.pMemsz x := by
    intro x
    unfold Touches
    omega
  simp only [mapSegment, hcopy] at hrun
  rcases hret with ⟨rfl, rfl⟩ | rfl
  · rw [if_neg (by decide)] at hrun
    by_cases hbss : ph.pFilesz < ph.pMemsz
    · have hend : pgAlignFloor (wrap64 (ph.pVaddr + ph.pFilesz)) =
          (ph.pVaddr + ph.pFilesz) / 4096 * 4096 := by
        rw [wrap64_of_lt (by omega)]
        exact pgAlignFloor_eq (by omega)
      have hmem : pgAlign (wrap64 (ph.pVaddr + ph.pMemsz)) =
          (ph.pVaddr + ph.pMemsz + 4095) / 4096 * 4096 := by
        rw [wrap64_of_lt (by omega)]
        exact pgAlign_eq (by omega)
      have hcount : pageCount ((ph.pVaddr + ph.pFilesz) / 4096 * 4096)
          ((ph.pVaddr + ph.pMemsz + 4095) / 4096 * 4096) =
          (ph.pVaddr + ph.pMemsz + 4095) / 4096 - (ph.pVaddr + ph.pFilesz) / 4096 := by
        simp only [pageCount, pgSize]
        omega
      simp only [if_pos hbss, hend, hmem, mapRange, hcount] at hrun
      rcases hmap : mapPagesFrom (some t.root) (segmentFlags ph.pFlags)
        ((ph.pVaddr + ph.pFilesz) / 4096 * 4096)
        ((ph.pVaddr + ph.pMemsz + 4095) / 4096 - (ph.pVaddr + ph.pFilesz) / 4096) k₁ with ⟨ok, k₂⟩
      obtain ⟨h₂, m, hm, hmapped, hall⟩ := mapPagesFrom_spec h₁ ht (by omega) (by omega) hmap
      have hinside : ∀ x, Touches ph.pVaddr ph.pFilesz x ∨
          Touches ((ph.pVaddr + ph.pFilesz) / 4096 * 4096) (m * 4096) x →
          Touches ph.pVaddr ph.pMemsz x := by
        intro x
        unfold Touches
        omega
      simp only [hmap] at hrun
      cases ok with
      | false =>
        obtain ⟨rfl, rfl⟩ := Prod.mk.inj hrun
        exact ⟨h₂, k₁, _, _, _, ⟨hcopied, hmapped, hinside⟩, fun hzero => absurd hzero (by decide)⟩
      | true =>
        obtain rfl := (Prod.mk.inj hrun).2
        obtain rfl := hall rfl
        refine ⟨h₂, k₁, _, _, _, ⟨hcopied, hmapped, hinside⟩, fun _ => ⟨rfl, ?_⟩⟩
        intro x
        unfold Touches
        omega
    · rw [if_neg hbss] at hrun
      obtain rfl := (Prod.mk.inj hrun).2
      have hfull : ph.pFilesz = ph.pMemsz := by omega
      exact ⟨h₁, k₁, _, _, _, ⟨hcopied, hnothing, hpre⟩, fun _ => ⟨rfl, fun x hx => Or.inl (hfull ▸ hx)⟩⟩
  · rw [if_pos (by decide)] at hrun
    obtain ⟨rfl, rfl⟩ := Prod.mk.inj hrun
    exact ⟨h₁, k₁, n, _, _, ⟨hcopied, hnothing, hpre⟩, fun hzero => absurd hzero (by decide)⟩

theorem loadSegment_spec (h : VmInv k bssEnd ts) (ht : t ∈ ts) {elf : Nat → Byte} {len i : Nat}
    (hload : (elfPhdr elf i).pType = ptLoad)
    (hrun : loadSegment (some t.root) elf len (elfPhdr elf i) k = (0, k')) :
    VmInv k' bssEnd ts ∧ SegmentOk (elfPhdr elf i) ∧
      Grown t.root (Touches (elfPhdr elf i).pVaddr (elfPhdr elf i).pMemsz)
        (segmentBytes elf (elfPhdr elf i)) k k' := by
  obtain ⟨hok, hrun⟩ := loadSegment_checked hload hrun
  obtain ⟨h', k₁, n, lo, m, hcopy, hdone⟩ := mapSegment_spec h ht hok hrun
  obtain ⟨rfl, hpages⟩ := hdone rfl
  refine ⟨h', hok, ((hcopy.file.grown ht).mapMore (hcopy.bss.grown ht) ?_ ?_).congr ?_⟩
  · intro x hx
    by_contra hpage
    unfold Touches at hpage
    exact hx (if_neg (by omega))
  · intro x
    exact ite_self _
  · exact fun x => ⟨hcopy.inside x, hpages x⟩

end Grown

/-! ## The header table -/

/-- A `PT_LOAD` header among the first `n`. -/
def IsLoad (elf : Nat → Byte) (n i : Nat) : Prop := i < n ∧ (elfPhdr elf i).pType = ptLoad

/-- Virtual address `x` belongs to the memory range of header `i`. -/
def InSegment (elf : Nat → Byte) (i x : Nat) : Prop :=
  (elfPhdr elf i).pVaddr ≤ x ∧ x < (elfPhdr elf i).pVaddr + (elfPhdr elf i).pMemsz

def DisjointLoads (elf : Nat → Byte) (n : Nat) : Prop :=
  ∀ i j x, IsLoad elf n i → IsLoad elf n j → InSegment elf i x → InSegment elf j x → i = j

/-- What the first `n` headers have put in user memory. -/
structure LoadedUpTo (elf : Nat → Byte) (n root : Nat) (m : Mem) : Prop where
  ok : ∀ i, IsLoad elf n i → SegmentOk (elfPhdr elf i)
  mapped : ∀ i x, IsLoad elf n i → InSegment elf i x → userByte m root x ≠ none
  file : ∀ i x b, IsLoad elf n i → segmentBytes elf (elfPhdr elf i) x = some b →
    userByte m root x = some b
  zero : ∀ x < 2 ^ 39, ∀ b, userByte m root x = some b →
    (∀ i, IsLoad elf n i → segmentBytes elf (elfPhdr elf i) x = none) → b = 0
  only : ∀ x < 2 ^ 39, userByte m root x ≠ none →
    ∃ i y, IsLoad elf n i ∧ InSegment elf i y ∧ y / 4096 = x / 4096

theorem IsLoad.succ {elf : Nat → Byte} {n i : Nat} (h : IsLoad elf (n + 1) i) :
    IsLoad elf n i ∨ i = n := by
  rcases Nat.lt_succ_iff_lt_or_eq.mp h.1 with hlt | heq
  · exact Or.inl ⟨hlt, h.2⟩
  · exact Or.inr heq

theorem IsLoad.mono {elf : Nat → Byte} {n m i : Nat} (h : IsLoad elf n i) (hnm : n ≤ m) :
    IsLoad elf m i := ⟨Nat.lt_of_lt_of_le h.1 hnm, h.2⟩

theorem segmentBytes_inSegment {elf : Nat → Byte} {i x : Nat} {b : Byte}
    (hok : SegmentOk (elfPhdr elf i)) (h : segmentBytes elf (elfPhdr elf i) x = some b) :
    InSegment elf i x := by
  have hsize := hok.size
  by_cases hin : (elfPhdr elf i).pVaddr ≤ x ∧ x < (elfPhdr elf i).pVaddr + (elfPhdr elf i).pFilesz
  · unfold InSegment
    omega
  · rw [segmentBytes, if_neg hin] at h
    exact absurd h (by simp)

theorem InSegment.touches {elf : Nat → Byte} {i x : Nat} (h : InSegment elf i x) :
    Touches (elfPhdr elf i).pVaddr (elfPhdr elf i).pMemsz x := by
  unfold InSegment at h
  unfold Touches
  omega

theorem InSegment.lt {elf : Nat → Byte} {i x : Nat} (h : InSegment elf i x)
    (hok : SegmentOk (elfPhdr elf i)) : x < 2 ^ 39 := by
  have hhigh := hok.high
  unfold InSegment at h
  unfold userTop at hhigh
  omega

/-- Every page a range touches holds an address of the range. -/
theorem Touches.exists_inSegment {elf : Nat → Byte} {i x : Nat}
    (h : Touches (elfPhdr elf i).pVaddr (elfPhdr elf i).pMemsz x) :
    ∃ y, InSegment elf i y ∧ y / 4096 = x / 4096 := by
  unfold Touches at h
  by_cases hlow : (elfPhdr elf i).pVaddr ≤ x / 4096 * 4096
  · exact ⟨x / 4096 * 4096, ⟨hlow, h.2.2⟩, by omega⟩
  · exact ⟨(elfPhdr elf i).pVaddr, ⟨Nat.le_refl _, by omega⟩, by omega⟩

/-- Loading one more disjoint segment leaves the earlier ones alone. -/
theorem LoadedUpTo.next {elf : Nat → Byte} {n root : Nat} {k k' : Kernel}
    (h : LoadedUpTo elf n root k.mem) (hdisj : DisjointLoads elf (n + 1))
    (hload : (elfPhdr elf n).pType = ptLoad) (hok : SegmentOk (elfPhdr elf n))
    (hgrown : Grown root (Touches (elfPhdr elf n).pVaddr (elfPhdr elf n).pMemsz)
      (segmentBytes elf (elfPhdr elf n)) k k') : LoadedUpTo elf (n + 1) root k'.mem := by
  have hnew : IsLoad elf (n + 1) n := ⟨Nat.lt_succ_self n, hload⟩
  have hok' : ∀ i, IsLoad elf (n + 1) i → SegmentOk (elfPhdr elf i) := by
    intro i hi
    rcases hi.succ with hold | rfl
    · exact h.ok i hold
    · exact hok
  refine ⟨hok', ?_, ?_, ?_, ?_⟩
  · intro i x hi hx
    have hlt := hx.lt (hok' i hi)
    by_cases htouch : Touches (elfPhdr elf n).pVaddr (elfPhdr elf n).pMemsz x
    · rw [hgrown.inside x hlt htouch]
      exact Option.some_ne_none _
    · rcases hi.succ with hold | rfl
      · rw [hgrown.outside x hlt htouch]
        exact h.mapped i x hold hx
      · exact absurd hx.touches htouch
  · intro i x b hi hb
    have hin := segmentBytes_inSegment (hok' i hi) hb
    have hlt := hin.lt (hok' i hi)
    rcases hi.succ with hold | rfl
    · have hbyte := h.file i x b hold hb
      by_cases htouch : Touches (elfPhdr elf n).pVaddr (elfPhdr elf n).pMemsz x
      · -- the new segment shares the page but not the address
        have hother : segmentBytes elf (elfPhdr elf n) x = none := by
          by_contra hne
          obtain ⟨c, hc⟩ := Option.ne_none_iff_exists'.mp hne
          have heq := hdisj i n x hi hnew hin (segmentBytes_inSegment hok hc)
          exact absurd hold.1 (by omega)
        rw [hgrown.inside x hlt htouch, hother, hbyte]
        rfl
      · rw [hgrown.outside x hlt htouch, hbyte]
    · rw [hgrown.inside x hlt hin.touches, hb]
      rfl
  · intro x hx b hb hfree
    have hold : ∀ i, IsLoad elf n i → segmentBytes elf (elfPhdr elf i) x = none :=
      fun i hi => hfree i (hi.mono (Nat.le_succ n))
    by_cases htouch : Touches (elfPhdr elf n).pVaddr (elfPhdr elf n).pMemsz x
    · rw [hgrown.inside x hx htouch, hfree n hnew, Option.getD_none, Option.some.injEq] at hb
      cases hbyte : userByte k.mem root x with
      | none =>
        rw [hbyte] at hb
        exact hb.symm
      | some c =>
        rw [hbyte, Option.getD_some] at hb
        rw [← hb]
        exact h.zero x hx c hbyte hold
    · rw [hgrown.outside x hx htouch] at hb
      exact h.zero x hx b hb hold
  · intro x hx hne
    by_cases htouch : Touches (elfPhdr elf n).pVaddr (elfPhdr elf n).pMemsz x
    · obtain ⟨y, hy, hpage⟩ := htouch.exists_inSegment
      exact ⟨n, y, hnew, hy, hpage⟩
    · rw [hgrown.outside x hx htouch] at hne
      obtain ⟨i, y, hi, hy, hpage⟩ := h.only x hx hne
      exact ⟨i, y, hi.mono (Nat.le_succ n), hy, hpage⟩

/-- A header that is not `PT_LOAD` adds nothing. -/
theorem LoadedUpTo.skip {elf : Nat → Byte} {n root : Nat} {m : Mem} (h : LoadedUpTo elf n root m)
    (hload : (elfPhdr elf n).pType ≠ ptLoad) : LoadedUpTo elf (n + 1) root m := by
  have hsame : ∀ i, IsLoad elf (n + 1) i → IsLoad elf n i := by
    intro i hi
    rcases hi.succ with hold | rfl
    · exact hold
    · exact absurd hi.2 hload
  refine ⟨fun i hi => h.ok i (hsame i hi), fun i x hi => h.mapped i x (hsame i hi),
    fun i x b hi => h.file i x b (hsame i hi), ?_, ?_⟩
  · intro x hx b hb hfree
    exact h.zero x hx b hb fun i hi => hfree i (hi.mono (Nat.le_succ n))
  · intro x hx hne
    obtain ⟨i, y, hi, hy, hpage⟩ := h.only x hx hne
    exact ⟨i, y, hi.mono (Nat.le_succ n), hy, hpage⟩

theorem loadSegment_null {elf : Nat → Byte} {len i : Nat} {k k' : Kernel}
    (hload : (elfPhdr elf i).pType = ptLoad)
    (hrun : loadSegment none elf len (elfPhdr elf i) k = (0, k')) :
    (elfPhdr elf i).pFilesz = 0 ∧ (elfPhdr elf i).pMemsz = 0 := by
  obtain ⟨hok, hrun⟩ := loadSegment_checked hload hrun
  generalize elfPhdr elf i = ph at *
  have hsize := hok.size
  have htop := hok.high
  unfold userTop at htop
  suffices hmem : ph.pMemsz = 0 from ⟨by omega, hmem⟩
  by_contra hmem
  simp only [mapSegment, mapAndCopy_null] at hrun
  by_cases hfile : ph.pFilesz = 0
  · have hpos : ph.pFilesz < ph.pMemsz := by omega
    rw [if_pos hfile, if_neg (by decide), if_pos hpos] at hrun
    have hcount : ∃ n, pageCount (pgAlignFloor (wrap64 (ph.pVaddr + ph.pFilesz)))
        (pgAlign (wrap64 (ph.pVaddr + ph.pMemsz))) = n + 1 := by
      rw [wrap64_of_lt (by omega), wrap64_of_lt (by omega), pgAlignFloor_eq (by omega),
        pgAlign_eq (by omega)]
      apply Nat.exists_eq_succ_of_ne_zero
      simp only [pageCount, pgSize]
      omega
    obtain ⟨n, hn⟩ := hcount
    simp only [mapRange, hn] at hrun
    exact absurd (Prod.mk.inj hrun).1 (by decide)
  · rw [if_neg hfile, if_pos (by decide)] at hrun
    exact absurd (Prod.mk.inj hrun).1 (by decide)

theorem loadSegments_spec {bssEnd : Nat} {ts : List Table} {t : Table} (ht : t ∈ ts)
    {elf : Nat → Byte} {len i n : Nat} {k k' : Kernel} (h : VmInv k bssEnd ts)
    (hdisj : DisjointLoads elf (i + n)) (hinv : LoadedUpTo elf i t.root k.mem)
    (hrun : loadSegments (some t.root) elf len i n k = (0, k')) :
    VmInv k' bssEnd ts ∧ LoadedUpTo elf (i + n) t.root k'.mem := by
  induction n generalizing i k with
  | zero =>
    obtain rfl := (Prod.mk.inj hrun).2
    exact ⟨h, hinv⟩
  | succ n ih =>
    rcases hseg : loadSegment (some t.root) elf len (elfPhdr elf i) k with ⟨ret, k₁⟩
    simp only [loadSegments, hseg] at hrun
    by_cases hret : ret = 0
    · subst hret
      rw [if_neg (by decide)] at hrun
      have hnext : i + (n + 1) = i + 1 + n := by omega
      rw [hnext] at hdisj ⊢
      have hdisj' : DisjointLoads elf (i + 1) := fun a b x ha hb =>
        hdisj a b x (ha.mono (by omega)) (hb.mono (by omega))
      by_cases hload : (elfPhdr elf i).pType = ptLoad
      · obtain ⟨h₁, hok, hgrown⟩ := loadSegment_spec h ht hload hseg
        exact ih h₁ hdisj (hinv.next hdisj' hload hok hgrown) hrun
      · rw [loadSegment, if_pos hload] at hseg
        obtain rfl := (Prod.mk.inj hseg).2
        exact ih h hdisj (hinv.skip hload) hrun
    · rw [if_pos hret] at hrun
      exact absurd (Prod.mk.inj hrun).1 hret

/-- Every segment of a table that loaded passed the checks. -/
theorem loadSegments_checked {pt : Option Nat} {elf : Nat → Byte} {len i n : Nat} {k k' : Kernel}
    (hrun : loadSegments pt elf len i n k = (0, k')) :
    ∀ j, i ≤ j → IsLoad elf (i + n) j → SegmentOk (elfPhdr elf j) := by
  induction n generalizing i k with
  | zero =>
    intro j hj hload
    exact absurd hload.1 (by omega)
  | succ n ih =>
    rcases hseg : loadSegment pt elf len (elfPhdr elf i) k with ⟨ret, k₁⟩
    simp only [loadSegments, hseg] at hrun
    by_cases hret : ret = 0
    · subst hret
      rw [if_neg (by decide)] at hrun
      intro j hj hload
      have hnext : i + (n + 1) = i + 1 + n := by omega
      rw [hnext] at hload
      rcases Nat.eq_or_lt_of_le hj with rfl | hlt
      · exact (loadSegment_checked hload.2 hseg).1
      · exact ih hrun j hlt hload
    · rw [if_pos hret] at hrun
      exact absurd (Prod.mk.inj hrun).1 hret

/-- With no table, loading succeeds only on headers that occupy no memory. -/
theorem loadSegments_null {elf : Nat → Byte} {len i n : Nat} {k k' : Kernel}
    (hrun : loadSegments none elf len i n k = (0, k')) :
    ∀ j, i ≤ j → IsLoad elf (i + n) j → (elfPhdr elf j).pFilesz = 0 ∧ (elfPhdr elf j).pMemsz = 0 := by
  induction n generalizing i k with
  | zero =>
    intro j hj hload
    exact absurd hload.1 (by omega)
  | succ n ih =>
    rcases hseg : loadSegment none elf len (elfPhdr elf i) k with ⟨ret, k₁⟩
    simp only [loadSegments, hseg] at hrun
    by_cases hret : ret = 0
    · subst hret
      rw [if_neg (by decide)] at hrun
      intro j hj hload
      have hnext : i + (n + 1) = i + 1 + n := by omega
      rw [hnext] at hload
      rcases Nat.eq_or_lt_of_le hj with rfl | hlt
      · exact loadSegment_null hload.2 hseg
      · exact ih hrun j hlt hload
    · rw [if_pos hret] at hrun
      exact absurd (Prod.mk.inj hrun).1 hret

/-! ## The whole image -/

/-- The byte at a virtual address of the table `create_pt` returned, which may be null. -/
def tableByte (pt : Option Nat) (m : Mem) (x : Nat) : Option Byte :=
  pt.bind fun root => userByte m root x

/-- A successful load went through the whole header table. -/
theorem loadElf_loaded {pt : Option Nat} {elf : Nat → Byte} {len : Nat} {k : Kernel}
    (hret : (loadElf pt elf len k).ret = 0) :
    loadSegments pt elf len 0 (elfHeader elf).ePhnum k = (0, (loadElf pt elf len k).kernel) := by
  unfold loadElf at hret ⊢
  dsimp only at hret ⊢
  split_ifs at hret ⊢
  any_goals
    change -_ = 0 at hret
    exact absurd hret (by decide)
  exact Prod.ext hret rfl

/-- Loading on a fresh table shows exactly the segments of an image without overlaps. -/
theorem loadElf_faithful {mm : Mm} {bssEnd : Nat} (hmm : mm.Reachable bssEnd) (mem : Mem)
    (elf : Nat → Byte) (len : Nat) {pt : Option Nat} {k : Kernel}
    (hcreate : createPt ⟨mm, mem, []⟩ = (pt, k)) (hret : (loadElf pt elf len k).ret = 0)
    (hdisj : DisjointLoads elf (elfHeader elf).ePhnum) :
    (∀ i, IsLoad elf (elfHeader elf).ePhnum i →
      (∀ j < (elfPhdr elf i).pFilesz,
        tableByte pt (loadElf pt elf len k).kernel.mem ((elfPhdr elf i).pVaddr + j) =
          some (elf ((elfPhdr elf i).pOffset + j))) ∧
      ∀ j, (elfPhdr elf i).pFilesz ≤ j → j < (elfPhdr elf i).pMemsz →
        tableByte pt (loadElf pt elf len k).kernel.mem ((elfPhdr elf i).pVaddr + j) = some 0) ∧
    ∀ x < 2 ^ 39, tableByte pt (loadElf pt elf len k).kernel.mem x ≠ none →
      ∃ i y, IsLoad elf (elfHeader elf).ePhnum i ∧ InSegment elf i y ∧ y / 4096 = x / 4096 := by
  have hrun := loadElf_loaded hret
  generalize (loadElf pt elf len k).kernel = k' at hrun ⊢
  have hstart := VmInv.start hmm.inv mem
  rcases createPt_spec hstart with hfull | ⟨a, k₁, hcreated, _, h₁, hempty⟩
  · -- no page for the root
    obtain ⟨rfl, rfl⟩ := Prod.mk.inj (hfull.symm.trans hcreate)
    refine ⟨?_, fun x _ hx => absurd rfl hx⟩
    intro i hi
    obtain ⟨hfile, hmem⟩ := loadSegments_null hrun i (Nat.zero_le i) (by rw [Nat.zero_add]; exact hi)
    exact ⟨fun j hj => absurd hj (by omega), fun j _ hj => absurd hj (by omega)⟩
  · obtain ⟨rfl, rfl⟩ := Prod.mk.inj (hcreated.symm.trans hcreate)
    have ht : (⟨a, 0⟩ : Table) ∈ [(⟨a, 0⟩ : Table)] := List.mem_singleton.mpr rfl
    have hnothing : LoadedUpTo elf 0 a k₁.mem := by
      have hbyte : ∀ x, userByte k₁.mem a x = none := by
        intro x
        rw [userByte, hempty x]
        rfl
      refine ⟨fun i hi => absurd hi.1 (Nat.not_lt_zero i), fun i x hi => absurd hi.1 (Nat.not_lt_zero i),
        fun i x b hi => absurd hi.1 (Nat.not_lt_zero i), ?_, fun x _ hx => absurd (hbyte x) hx⟩
      intro x _ b hb
      rw [hbyte x] at hb
      exact absurd hb (by simp)
    have hphnum : 0 + (elfHeader elf).ePhnum = (elfHeader elf).ePhnum := Nat.zero_add _
    obtain ⟨_, hloaded⟩ := loadSegments_spec ht h₁ (by rw [hphnum]; exact hdisj) hnothing hrun
    rw [hphnum] at hloaded
    refine ⟨?_, hloaded.only⟩
    intro i hi
    have hok := hloaded.ok i hi
    have hsize := hok.size
    refine ⟨?_, ?_⟩
    · intro j hj
      apply hloaded.file i _ _ hi
      rw [segmentBytes, if_pos ⟨Nat.le_add_right _ _, by omega⟩, Nat.add_sub_cancel_left]
    · intro j hlow hhigh
      have hin : InSegment elf i ((elfPhdr elf i).pVaddr + j) := ⟨Nat.le_add_right _ _, by omega⟩
      obtain ⟨b, hb⟩ := Option.ne_none_iff_exists'.mp (hloaded.mapped i _ hi hin)
      show userByte k'.mem a _ = some 0
      rw [hb, hloaded.zero _ (hin.lt hok) b hb]
      -- no file range of another segment reaches into this one
      intro i' hi'
      by_contra hne
      obtain ⟨c, hc⟩ := Option.ne_none_iff_exists'.mp hne
      have hin' := segmentBytes_inSegment (hloaded.ok i' hi') hc
      obtain rfl := hdisj i' i _ hi' hi hin' hin
      rw [segmentBytes, if_neg (by omega)] at hc
      exact absurd hc (by simp)

/-- An image with one segment: four bytes of the file and four of `.bss` at 0x10040. -/
def smallElf : Nat → Byte
  | 0 => 0x7f | 1 => 0x45 | 2 => 0x4c | 3 => 0x46
  | 16 => 2 | 32 => 64 | 54 => 56 | 56 => 1
  | 64 => 1 | 68 => 4 | 80 => 0x40 | 82 => 1 | 96 => 4 | 104 => 8
  | _ => 0

/-- The theorem at the small image, loaded right after boot. -/
theorem loadElf_faithful_small :
    ∃ pt m, tableByte pt m 0x10040 = some 0x7f ∧ tableByte pt m 0x10047 = some 0 ∧
      ∀ x < 2 ^ 39, tableByte pt m x ≠ none →
        ∃ i y, IsLoad smallElf 1 i ∧ InSegment smallElf i y ∧ y / 4096 = x / 4096 := by
  let mm₀ : Mm := ⟨0, ⟨0, 0, 0, fun _ => 0⟩, 0, ⟨0, 0, 0, fun _ => 0⟩⟩
  have hlayout : BootLayout 0x40800 0x40000 64 :=
    ⟨by decide, by decide, by decide, by decide, by decide⟩
  obtain ⟨mm, hboot, _, _⟩ := bootMm_inv hlayout mm₀
  have hmm : mm.Reachable 0x40800 := ⟨_, _, mm₀, mm, hlayout, hboot, [], _, rfl, rfl⟩
  have hret : (bootMm 0x40800 0x40000 64 mm₀).map (fun mm =>
      (loadElf (createPt ⟨mm, fun _ => 0, []⟩).1 smallElf 120
        (createPt ⟨mm, fun _ => 0, []⟩).2).ret) = some 0 := by
    decide +kernel
  rw [hboot, Option.map_some, Option.some.injEq] at hret
  have hphnum : (elfHeader smallElf).ePhnum = 1 := by decide +kernel
  have hdisj : DisjointLoads smallElf (elfHeader smallElf).ePhnum := by
    rw [hphnum]
    rintro i j x ⟨hi, _⟩ ⟨hj, _⟩ _ _
    omega
  obtain ⟨hbytes, honly⟩ := loadElf_faithful hmm (fun _ => 0) smallElf 120 rfl hret hdisj
  rw [hphnum] at hbytes honly
  obtain ⟨hfile, hbss⟩ := hbytes 0 ⟨by decide, by decide +kernel⟩
  have hvaddr : (elfPhdr smallElf 0).pVaddr = 0x10040 := by decide +kernel
  have hfilesz : (elfPhdr smallElf 0).pFilesz = 4 := by decide +kernel
  have hmemsz : (elfPhdr smallElf 0).pMemsz = 8 := by decide +kernel
  have hoffset : (elfPhdr smallElf 0).pOffset = 0 := by decide +kernel
  rw [hvaddr, hfilesz, hoffset] at hfile
  rw [hvaddr, hfilesz, hmemsz] at hbss
  exact ⟨_, _, hfile 0 (by decide), hbss 7 (by decide) (by decide), honly⟩

end VijosOS
