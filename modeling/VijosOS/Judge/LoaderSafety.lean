import VijosOS.Judge.DoJudge
import VijosOS.Judge.ElfLoading
import VijosOS.Memory.Agreement

/-!
# The loader on arbitrary images

The loader again, instrumented with its accesses to the image and its loops over pages. It
computes what `load_elf` computes, from the bytes it reads and no others. Every read lies
inside the image, every loop ends, and nothing is mapped outside the user range, whatever
the image and the free memory. The fields of the program headers are loaded in place, and
nothing checks that the table is aligned: at a misaligned field the load traps.
-/

namespace VijosOS

open Library

/-- An access of the loader to the image, or a loop over pages. -/
inductive LoadEvent where
  -- a field, in one load instruction
  | load (off size : Nat)
  -- a `memcpy` or `memcmp`, byte by byte
  | copy (off size : Nat)
  -- the pages of `[lo, hi)`
  | pages (lo hi : Nat)

/-- The bytes of the image an event reads. -/
def LoadEvent.Reads (x : Nat) : LoadEvent → Prop
  | .load off size => off ≤ x ∧ x < off + size
  | .copy off size => off ≤ x ∧ x < off + size
  | .pages _ _ => False

/-- The loop `for (va = lo; va < hi; va += PGSIZE)` over 64-bit values ends after `n` passes. -/
def LoopEnds (lo hi n : Nat) : Prop :=
  (∀ i < n, wrap64 (lo + i * pgSize) < hi) ∧ hi ≤ wrap64 (lo + n * pgSize)

/-! ## A misaligned load -/

def causeMisalignedLoad : BitVec 64 := 4

/-- What `trap_entry` saves when the kernel, which runs in M-mode, loads from the misaligned `addr`. -/
def misalignedLoad (tf : TrapFrame) (addr : Nat) : TrapFrame :=
  { tf with
    status := tf.status ||| mstatusMPP
    tval := BitVec.ofNat 64 addr
    cause := causeMisalignedLoad }

/-- `trap_handler` does not return from it. -/
theorem trapHandler_misalignedLoad (satp cycle : BitVec 64) (tf : TrapFrame) (addr : Nat)
    (s : TrapState) : (trapHandler satp cycle (misalignedLoad tf addr) s).1 = .kernelException := by
  have hmode : (tf.status ||| mstatusMPP) &&& mstatusMPP ≠ 0 := by
    have hmpp : (tf.status ||| mstatusMPP) &&& mstatusMPP = mstatusMPP := by
      ext i hi
      simp only [BitVec.getElem_and, BitVec.getElem_or]
      cases tf.status[i] <;> cases mstatusMPP[i] <;> rfl
    rw [hmpp]
    decide
  have hfault : ¬ (causeMisalignedLoad = causePfFetch ∨ causeMisalignedLoad = causePfLoad ∨
      causeMisalignedLoad = causePfStore) := by decide
  have hinst : ¬ (causeMisalignedLoad = causeIllinst ∧
      BitVec.ofNat 64 addr &&& 0xffeff07f = 0xc0002073) := fun h => absurd h.1 (by decide)
  have hsync : causeMisalignedLoad &&& causeInt = 0 := by decide
  unfold trapHandler misalignedLoad
  dsimp only
  rw [if_neg hfault, if_neg hinst, if_pos hsync, if_pos hmode]

/-- The kernel gets past the event, with the image at `buff`: a load at a misaligned address
only if the trap handler resumes it. -/
def LoadEvent.Completes (buff : Nat) : LoadEvent → Prop
  | .load off size => size ∣ buff + off ∨
      ∃ satp cycle tf s tf', (trapHandler satp cycle (misalignedLoad tf (buff + off)) s).1 = .resume tf'
  | .copy _ _ => True
  | .pages lo hi => LoopEnds lo hi (pageCount lo hi)

theorem completes_load {buff off size : Nat} :
    (LoadEvent.load off size).Completes buff ↔ size ∣ buff + off := by
  constructor
  · rintro (haligned | ⟨satp, cycle, tf, s, tf', hresume⟩)
    · exact haligned
    · rw [trapHandler_misalignedLoad] at hresume
      cases hresume
  · exact Or.inl

/-- The address of `judge_tftp_buff`, declared with `aligned (16)`. -/
structure JudgeTftpBuff where
  addr : Nat
  aligned : 16 ∣ addr

/-! ## The instrumented loader -/

def mapAndWriteT (pt : Option Nat) (va : Nat) (flags : BitVec 64) (off : Nat) (elf : Nat → Byte)
    (u8 n : Nat) (k : Kernel) : (Bool × Kernel) × List LoadEvent :=
  let r := mapAndWrite pt va flags off (fun i => elf (u8 + i)) n k
  (r, if r.1 then [.copy u8 n] else [])

def copyHeadT (pt : Option Nat) (va : Nat) (flags : BitVec 64) (elf : Nat → Byte) (u8 len : Nat)
    (k : Kernel) : (Bool × Kernel) × List LoadEvent :=
  if va ≠ pgAlignFloor va then
    mapAndWriteT pt (pgAlignFloor va) flags (va - pgAlignFloor va) elf u8 (headChunk va len) k
  else ((true, k), [])

def copyPagesFromT (pt : Option Nat) (flags : BitVec 64) (elf : Nat → Byte) :
    Nat → Nat → Nat → Kernel → (Bool × Kernel) × List LoadEvent
  | _, 0, _, k => ((true, k), [])
  | va, n + 1, u8, k =>
    let r := mapAndWriteT pt va flags 0 elf u8 pgSize k
    if r.1.1 then
      let rest := copyPagesFromT pt flags elf (va + pgSize) n (u8 + pgSize) r.1.2
      (rest.1, r.2 ++ rest.2)
    else r

def copyTailT (pt : Option Nat) (va : Nat) (flags : BitVec 64) (elf : Nat → Byte) (u8 len : Nat)
    (k : Kernel) : (Bool × Kernel) × List LoadEvent :=
  if len > 0 then mapAndWriteT pt va flags 0 elf u8 len k else ((true, k), [])

/-- `map_and_copy` of `len` bytes of the image from offset `u8`. -/
def mapAndCopyT (pt : Option Nat) (va : Nat) (flags : BitVec 64) (elf : Nat → Byte) (u8 len : Nat)
    (k : Kernel) : (Int × Kernel) × List LoadEvent :=
  if len = 0 then ((0, k), [])
  else
    let head := copyHeadT pt va flags elf u8 len k
    if head.1.1 then
      let done := headChunk va len
      let midBegin := pgAlign va
      let midEnd := pgAlignFloor (wrap64 (va + len))
      let n := pageCount midBegin midEnd
      let mid := copyPagesFromT pt flags elf midBegin n (u8 + done) head.1.2
      let loop := head.2 ++ .pages midBegin midEnd :: mid.2
      if mid.1.1 then
        let done := done + n * pgSize
        let tail := copyTailT pt midEnd flags elf (u8 + done) (len - done) mid.1.2
        ((if tail.1.1 then 0 else -eOOM, tail.1.2), loop ++ tail.2)
      else ((-eOOM, mid.1.2), loop)
    else ((-eOOM, head.1.2), head.2)

def mapSegmentT (pt : Option Nat) (elf : Nat → Byte) (ph : Elf64Phdr) (k : Kernel) :
    (Int × Kernel) × List LoadEvent :=
  let flags := segmentFlags ph.pFlags
  let copy := mapAndCopyT pt ph.pVaddr flags elf ph.pOffset ph.pFilesz k
  if copy.1.1 < 0 then copy
  else if ph.pFilesz < ph.pMemsz then
    let fileEnd := pgAlignFloor (wrap64 (ph.pVaddr + ph.pFilesz))
    let memEnd := pgAlign (wrap64 (ph.pVaddr + ph.pMemsz))
    let bss := mapRange pt flags fileEnd memEnd copy.1.2
    ((if bss.1 then 0 else -eOOM, bss.2), copy.2 ++ [.pages fileEnd memEnd])
  else ((0, copy.1.2), copy.2)

/-- The fields of the program header at offset `ph` that `load_elf` prints, checks or uses. -/
def phdrReads (ph : Nat) : List LoadEvent :=
  [.load ph 4, .load (ph + 4) 4, .load (ph + 8) 8, .load (ph + 16) 8, .load (ph + 24) 8,
    .load (ph + 32) 8, .load (ph + 40) 8]

def loadSegmentT (pt : Option Nat) (elf : Nat → Byte) (len : Nat) (ph : Elf64Phdr) (k : Kernel) :
    (Int × Kernel) × List LoadEvent :=
  if ph.pType ≠ ptLoad then ((0, k), [])
  else if ph.pFilesz ≠ 0 ∧ ¬ (ph.pOffset ≤ wrap64 (ph.pOffset + ph.pFilesz) ∧
      wrap64 (ph.pOffset + ph.pFilesz) ≤ len) then ((-eOOB, k), [])
  else if ¬ (userBottom ≤ ph.pVaddr ∧ ph.pVaddr ≤ wrap64 (ph.pVaddr + ph.pMemsz) ∧
      wrap64 (ph.pVaddr + ph.pMemsz) ≤ userTop) then ((-eOOB, k), [])
  else if ph.pFilesz > ph.pMemsz then ((-eBADPKT, k), [])
  else mapSegmentT pt elf ph k

/-- A pass of either loop over the table at `phoff`: the loop test, then the header. -/
def passReads (phoff i : Nat) : List LoadEvent := .load 56 2 :: phdrReads (phoff + elf64PhdrSize * i)

def loadSegmentsT (pt : Option Nat) (elf : Nat → Byte) (len phoff : Nat) :
    Nat → Nat → Kernel → (Int × Kernel) × List LoadEvent
  | _, 0, k => ((0, k), [])
  | i, n + 1, k =>
    let seg := loadSegmentT pt elf len (elfPhdr elf i) k
    if seg.1.1 ≠ 0 then (seg.1, passReads phoff i ++ seg.2)
    else
      let rest := loadSegmentsT pt elf len phoff (i + 1) n seg.1.2
      (rest.1, passReads phoff i ++ seg.2 ++ rest.2)

def printReads (phoff n : Nat) : List LoadEvent := (List.range n).flatMap (passReads phoff)

def loadElfT (pt : Option Nat) (elf : Nat → Byte) (len : Nat) (k : Kernel) :
    ElfResult × List LoadEvent :=
  if len < elf64EhdrSize then (⟨-eOOB, none, k⟩, [])
  else
    let elfHeader := elfHeader elf
    let es := [LoadEvent.copy 0 4]
    -- the message shows the first eight bytes
    if elfHeader.eMagic ≠ elfMag then (⟨-eBADPKT, none, k⟩, es ++ [.load 0 8])
    else
      let es := es ++ [.load 16 2]
      if elfHeader.eType ≠ etExec then (⟨-eBADPKT, none, k⟩, es)
      else
        let entry := elfHeader.eEntry
        let es := es ++ [.load 24 8, .load 56 2]
        if elfHeader.ePhnum = 0 then (⟨-eBADPKT, some entry, k⟩, es)
        else
          let es := es ++ [.load 54 2]
          if elfHeader.ePhentsize ≠ elf64PhdrSize then (⟨-eNOIMPL, some entry, k⟩, es)
          else
            let phsize := elfHeader.ePhnum * elf64PhdrSize
            let es := es ++ [.load 56 2, .load 32 8]
            if ¬ (elfHeader.ePhoff ≤ wrap64 (elfHeader.ePhoff + phsize) ∧
                wrap64 (elfHeader.ePhoff + phsize) ≤ len) then (⟨-eOOB, some entry, k⟩, es)
            else
              let es := es ++ printReads elfHeader.ePhoff elfHeader.ePhnum
              let load := loadSegmentsT pt elf len elfHeader.ePhoff 0 elfHeader.ePhnum k
              (⟨load.1.1, some entry, load.1.2⟩, es ++ load.2 ++ [.load 56 2])

def parseElfPhdrReads : List LoadEvent := [.load 32 8, .load 54 2, .load 56 2]

/-- The copy of the header page in `do_judge`, after `load_elf` returned 0. -/
def headerPageT (pt : Option Nat) (elf : Nat → Byte) (len : Nat) (k : Kernel) :
    (Int × Kernel) × List LoadEvent :=
  mapAndCopyT pt elfHeaderVa (vmU ||| vmR ||| vmA) elf 0 (if len < pgSize then len else pgSize) k

/-! ## It computes what the loader computes -/

section Projection

variable (pt : Option Nat) (flags : BitVec 64) (elf : Nat → Byte)

theorem copyHeadT_fst (va u8 len : Nat) (k : Kernel) :
    (copyHeadT pt va flags elf u8 len k).1 = copyHead pt va flags (fun i => elf (u8 + i)) len k := by
  unfold copyHeadT copyHead
  split_ifs
  · rfl
  · rfl

theorem copyTailT_fst (va u8 len : Nat) (k : Kernel) :
    (copyTailT pt va flags elf u8 len k).1 = copyTail pt va flags (fun i => elf (u8 + i)) len k := by
  unfold copyTailT copyTail
  split_ifs
  · rfl
  · rfl

theorem copyPagesFromT_fst (va n u8 : Nat) (k : Kernel) :
    (copyPagesFromT pt flags elf va n u8 k).1 =
      copyPagesFrom pt flags va n (fun i => elf (u8 + i)) k := by
  induction n generalizing va u8 k with
  | zero => rfl
  | succ n ih =>
    rcases hpage : mapAndWrite pt va flags 0 (fun i => elf (u8 + i)) pgSize k with ⟨ok, k₁⟩
    cases ok with
    | false => simp [copyPagesFromT, copyPagesFrom, mapAndWriteT, hpage]
    | true => simp [copyPagesFromT, copyPagesFrom, mapAndWriteT, hpage, ih, Nat.add_assoc]

theorem mapAndCopyT_fst (va u8 len : Nat) (k : Kernel) :
    (mapAndCopyT pt va flags elf u8 len k).1 = mapAndCopy pt va flags (fun i => elf (u8 + i)) len k := by
  unfold mapAndCopyT mapAndCopy
  by_cases hlen : len = 0
  · rw [if_pos hlen, if_pos hlen]
  rw [if_neg hlen, if_neg hlen]
  dsimp only
  rw [copyHeadT_fst]
  rcases copyHead pt va flags (fun i => elf (u8 + i)) len k with ⟨ok₁, k₁⟩
  cases ok₁ with
  | false => rfl
  | true =>
    simp only [if_true, copyPagesFromT_fst, Nat.add_assoc]
    rcases copyPagesFrom pt flags (pgAlign va)
      (pageCount (pgAlign va) (pgAlignFloor (wrap64 (va + len))))
      (fun i => elf (u8 + (headChunk va len + i))) k₁ with ⟨ok₂, k₂⟩
    cases ok₂ with
    | false => rfl
    | true =>
      simp only [if_true, copyTailT_fst, Nat.add_assoc]
      generalize copyTail pt _ flags _ _ k₂ = r
      rcases r with ⟨ok₃, k₃⟩
      cases ok₃ with
      | false => rfl
      | true => rfl

end Projection

theorem mapSegmentT_fst (pt : Option Nat) (elf : Nat → Byte) (ph : Elf64Phdr) (k : Kernel) :
    (mapSegmentT pt elf ph k).1 = mapSegment pt elf ph k := by
  rcases hcopy : mapAndCopyT pt ph.pVaddr (segmentFlags ph.pFlags) elf ph.pOffset ph.pFilesz k
    with ⟨⟨ret, k₁⟩, es⟩
  have hfst := mapAndCopyT_fst pt (segmentFlags ph.pFlags) elf ph.pVaddr ph.pOffset ph.pFilesz k
  rw [hcopy] at hfst
  simp only [mapSegmentT, mapSegment, hcopy, ← hfst]
  by_cases hret : ret < 0
  · rw [if_pos hret, if_pos hret]
  rw [if_neg hret, if_neg hret]
  by_cases hbss : ph.pFilesz < ph.pMemsz
  · rw [if_pos hbss, if_pos hbss]
    generalize mapRange pt (segmentFlags ph.pFlags) _ _ k₁ = r
    rcases r with ⟨ok, k₂⟩
    cases ok with
    | false => rfl
    | true => rfl
  · rw [if_neg hbss, if_neg hbss]

theorem loadSegmentT_fst (pt : Option Nat) (elf : Nat → Byte) (len : Nat) (ph : Elf64Phdr) (k : Kernel) :
    (loadSegmentT pt elf len ph k).1 = loadSegment pt elf len ph k := by
  unfold loadSegmentT loadSegment
  split_ifs
  any_goals rfl
  exact mapSegmentT_fst pt elf ph k

theorem loadSegmentsT_fst (pt : Option Nat) (elf : Nat → Byte) (len phoff i n : Nat) (k : Kernel) :
    (loadSegmentsT pt elf len phoff i n k).1 = loadSegments pt elf len i n k := by
  induction n generalizing i k with
  | zero => rfl
  | succ n ih =>
    simp only [loadSegmentsT, loadSegments, loadSegmentT_fst]
    rcases loadSegment pt elf len (elfPhdr elf i) k with ⟨ret, k₁⟩
    dsimp only
    by_cases hret : ret ≠ 0
    · rw [if_pos hret, if_pos hret]
    · rw [if_neg hret, if_neg hret]
      exact ih (i + 1) k₁

theorem loadElfT_fst (pt : Option Nat) (elf : Nat → Byte) (len : Nat) (k : Kernel) :
    (loadElfT pt elf len k).1 = loadElf pt elf len k := by
  unfold loadElfT loadElf
  dsimp only
  rw [loadSegmentsT_fst]
  split_ifs
  all_goals rfl

/-! ## It depends on the bytes it reads -/

/-- Two images with the same bytes wherever one of the events reads. -/
def SameReads (es : List LoadEvent) (elf elf' : Nat → Byte) : Prop :=
  ∀ e ∈ es, ∀ x, e.Reads x → elf' x = elf x

section Footprint

variable {elf elf' : Nat → Byte}

theorem SameReads.left {es es' : List LoadEvent} (h : SameReads (es ++ es') elf elf') :
    SameReads es elf elf' := fun e he => h e (List.mem_append_left es' he)

theorem SameReads.right {es es' : List LoadEvent} (h : SameReads (es ++ es') elf elf') :
    SameReads es' elf elf' := fun e he => h e (List.mem_append_right es he)

theorem SameReads.tail {e : LoadEvent} {es : List LoadEvent} (h : SameReads (e :: es) elf elf') :
    SameReads es elf elf' := fun e' he => h e' (List.mem_cons_of_mem e he)

/-- The value of a field that was loaded. -/
theorem SameReads.getLe {es : List LoadEvent} (h : SameReads es elf elf') {off size : Nat}
    (hload : .load off size ∈ es) : getLe elf' off size = getLe elf off size :=
  getLe_congr fun i hi => h _ hload (off + i) ⟨by omega, by omega⟩

variable (pt : Option Nat) (flags : BitVec 64)

theorem mapAndWriteT_footprint {va off u8 n : Nat} {k : Kernel}
    (h : SameReads (mapAndWriteT pt va flags off elf u8 n k).2 elf elf') :
    mapAndWriteT pt va flags off elf' u8 n k = mapAndWriteT pt va flags off elf u8 n k := by
  rcases hmap : mapPage pt va flags k with ⟨_ | pg, k₁⟩
  · simp only [mapAndWriteT, mapAndWrite, hmap]
  · simp only [mapAndWriteT, mapAndWrite, hmap, if_true] at h ⊢
    have hmem : copyTo k₁.mem (pg + off) n (fun i => elf' (u8 + i)) =
        copyTo k₁.mem (pg + off) n (fun i => elf (u8 + i)) := by
      funext x
      exact copyTo_eq rfl fun i hi =>
        h _ (List.mem_singleton.mpr rfl) (u8 + i) ⟨by omega, by omega⟩
    rw [hmem]

theorem copyHeadT_footprint {va u8 len : Nat} {k : Kernel}
    (h : SameReads (copyHeadT pt va flags elf u8 len k).2 elf elf') :
    copyHeadT pt va flags elf' u8 len k = copyHeadT pt va flags elf u8 len k := by
  unfold copyHeadT at h ⊢
  split_ifs at h ⊢
  · exact mapAndWriteT_footprint pt flags h
  · rfl

theorem copyTailT_footprint {va u8 len : Nat} {k : Kernel}
    (h : SameReads (copyTailT pt va flags elf u8 len k).2 elf elf') :
    copyTailT pt va flags elf' u8 len k = copyTailT pt va flags elf u8 len k := by
  unfold copyTailT at h ⊢
  split_ifs at h ⊢
  · exact mapAndWriteT_footprint pt flags h
  · rfl

theorem copyPagesFromT_footprint {va n u8 : Nat} {k : Kernel}
    (h : SameReads (copyPagesFromT pt flags elf va n u8 k).2 elf elf') :
    copyPagesFromT pt flags elf' va n u8 k = copyPagesFromT pt flags elf va n u8 k := by
  induction n generalizing va u8 k with
  | zero => rfl
  | succ n ih =>
    unfold copyPagesFromT at h ⊢
    dsimp only at h ⊢
    by_cases hok : (mapAndWriteT pt va flags 0 elf u8 pgSize k).1.1 = true
    · rw [if_pos hok] at h
      rw [mapAndWriteT_footprint pt flags h.left, ih h.right]
    · rw [if_neg hok] at h
      rw [mapAndWriteT_footprint pt flags h, if_neg hok, if_neg hok]

theorem mapAndCopyT_footprint {va u8 len : Nat} {k : Kernel}
    (h : SameReads (mapAndCopyT pt va flags elf u8 len k).2 elf elf') :
    mapAndCopyT pt va flags elf' u8 len k = mapAndCopyT pt va flags elf u8 len k := by
  unfold mapAndCopyT at h ⊢
  by_cases hlen : len = 0
  · rw [if_pos hlen, if_pos hlen]
  rw [if_neg hlen] at h
  rw [if_neg hlen, if_neg hlen]
  dsimp only at h ⊢
  by_cases hok₁ : (copyHeadT pt va flags elf u8 len k).1.1 = true
  · rw [if_pos hok₁] at h
    by_cases hok₂ : (copyPagesFromT pt flags elf (pgAlign va)
        (pageCount (pgAlign va) (pgAlignFloor (wrap64 (va + len)))) (u8 + headChunk va len)
        (copyHeadT pt va flags elf u8 len k).1.2).1.1 = true
    · rw [if_pos hok₂] at h
      rw [copyHeadT_footprint pt flags h.left.left, copyPagesFromT_footprint pt flags h.left.right.tail,
        copyTailT_footprint pt flags h.right]
    · rw [if_neg hok₂] at h
      rw [copyHeadT_footprint pt flags h.left, copyPagesFromT_footprint pt flags h.right.tail,
        if_neg hok₂, if_neg hok₂]
  · rw [if_neg hok₁] at h
    rw [copyHeadT_footprint pt flags h, if_neg hok₁, if_neg hok₁]

theorem loadSegmentT_footprint {len : Nat} {ph : Elf64Phdr} {k : Kernel}
    (h : SameReads (loadSegmentT pt elf len ph k).2 elf elf') :
    loadSegmentT pt elf' len ph k = loadSegmentT pt elf len ph k := by
  unfold loadSegmentT at h ⊢
  split_ifs at h ⊢
  any_goals rfl
  have hcopy : SameReads (mapAndCopyT pt ph.pVaddr (segmentFlags ph.pFlags) elf ph.pOffset ph.pFilesz k).2
      elf elf' := by
    unfold mapSegmentT at h
    dsimp only at h
    generalize mapAndCopyT pt ph.pVaddr (segmentFlags ph.pFlags) elf ph.pOffset ph.pFilesz k = copy at h ⊢
    by_cases hret : copy.1.1 < 0
    · rwa [if_pos hret] at h
    rw [if_neg hret] at h
    by_cases hbss : ph.pFilesz < ph.pMemsz
    · rw [if_pos hbss] at h
      exact h.left
    · rwa [if_neg hbss] at h
  rw [mapSegmentT, mapSegmentT, mapAndCopyT_footprint pt _ hcopy]

theorem elfPhdr_footprint {es : List LoadEvent} {i : Nat}
    (hphoff : (elfHeader elf').ePhoff = (elfHeader elf).ePhoff)
    (h : SameReads (passReads (elfHeader elf).ePhoff i ++ es) elf elf') :
    elfPhdr elf' i = elfPhdr elf i := by
  have hread : ∀ off size, .load off size ∈ phdrReads ((elfHeader elf).ePhoff + elf64PhdrSize * i) →
      getLe elf' off size = getLe elf off size := fun off size hload => h.left.tail.getLe hload
  unfold elfPhdr
  dsimp only
  rw [hphoff]
  simp only [phdrReads, List.mem_cons, LoadEvent.load.injEq] at hread
  rw [hread _ 4 (by simp), hread _ 4 (by simp), hread _ 8 (by simp), hread _ 8 (by simp),
    hread _ 8 (by simp), hread _ 8 (by simp)]

theorem loadSegmentsT_footprint {len i n : Nat} {k : Kernel}
    (hphoff : (elfHeader elf').ePhoff = (elfHeader elf).ePhoff)
    (h : SameReads (loadSegmentsT pt elf len (elfHeader elf).ePhoff i n k).2 elf elf') :
    loadSegmentsT pt elf' len (elfHeader elf).ePhoff i n k =
      loadSegmentsT pt elf len (elfHeader elf).ePhoff i n k := by
  induction n generalizing i k with
  | zero => rfl
  | succ n ih =>
    unfold loadSegmentsT at h ⊢
    dsimp only at h ⊢
    by_cases hret : (loadSegmentT pt elf len (elfPhdr elf i) k).1.1 ≠ 0
    · rw [if_pos hret] at h
      rw [elfPhdr_footprint hphoff h, loadSegmentT_footprint pt h.right, if_pos hret, if_pos hret]
    · rw [if_neg hret] at h
      rw [elfPhdr_footprint hphoff h.left, loadSegmentT_footprint pt h.left.right, ih h.right]

/-- The trace is complete: an image that differs only in bytes that are not read loads alike. -/
theorem loadElfT_footprint {len : Nat} {k : Kernel}
    (h : SameReads (loadElfT pt elf len k).2 elf elf') :
    loadElfT pt elf' len k = loadElfT pt elf len k := by
  unfold loadElfT at h ⊢
  by_cases hlen : len < elf64EhdrSize
  · rw [if_pos hlen, if_pos hlen]
  rw [if_neg hlen] at h
  rw [if_neg hlen, if_neg hlen]
  dsimp only at h ⊢
  -- what a branch reads decides the next test
  have hmagic : (elfHeader elf').eMagic = (elfHeader elf).eMagic := by
    refine bytesAt_congr fun i hi => h (.copy 0 4) ?_ (0 + i) ⟨by omega, by omega⟩
    split_ifs <;> simp
  rw [hmagic]
  by_cases hm : (elfHeader elf).eMagic ≠ elfMag
  · rw [if_pos hm, if_pos hm]
  rw [if_neg hm] at h
  rw [if_neg hm, if_neg hm]
  have htype : (elfHeader elf').eType = (elfHeader elf).eType := by
    refine h.getLe (?_ : LoadEvent.load 16 2 ∈ _)
    split_ifs <;> simp
  rw [htype]
  by_cases ht : (elfHeader elf).eType ≠ etExec
  · rw [if_pos ht, if_pos ht]
  rw [if_neg ht] at h
  rw [if_neg ht, if_neg ht]
  have hentry : (elfHeader elf').eEntry = (elfHeader elf).eEntry := by
    refine h.getLe (?_ : LoadEvent.load 24 8 ∈ _)
    split_ifs <;> simp
  have hphnum : (elfHeader elf').ePhnum = (elfHeader elf).ePhnum := by
    refine h.getLe (?_ : LoadEvent.load 56 2 ∈ _)
    split_ifs <;> simp
  rw [hentry, hphnum]
  by_cases hn : (elfHeader elf).ePhnum = 0
  · rw [if_pos hn, if_pos hn]
  rw [if_neg hn] at h
  rw [if_neg hn, if_neg hn]
  have hentsize : (elfHeader elf').ePhentsize = (elfHeader elf).ePhentsize := by
    refine h.getLe (?_ : LoadEvent.load 54 2 ∈ _)
    split_ifs <;> simp
  rw [hentsize]
  by_cases hs : (elfHeader elf).ePhentsize ≠ elf64PhdrSize
  · rw [if_pos hs, if_pos hs]
  rw [if_neg hs] at h
  rw [if_neg hs, if_neg hs]
  have hphoff : (elfHeader elf').ePhoff = (elfHeader elf).ePhoff := by
    refine h.getLe (?_ : LoadEvent.load 32 8 ∈ _)
    split_ifs <;> simp
  rw [hphoff]
  split_ifs with htable
  · rw [if_neg (not_not_intro htable)] at h
    rw [loadSegmentsT_footprint pt hphoff h.left.right]
  · rfl

end Footprint

/-! ## Reads and loops -/

/-- The event stays inside the image; a load of a field is aligned when the headers are. -/
def LoadEvent.Safe (len : Nat) (aligned : Prop) : LoadEvent → Prop
  | .load off size => off + size ≤ len ∧ (aligned → size ∣ 16 ∧ size ∣ off)
  | .copy off size => off + size ≤ len
  | .pages lo hi => LoopEnds lo hi (pageCount lo hi)

theorem LoadEvent.Safe.mono {len len' : Nat} {aligned : Prop} {e : LoadEvent} (h : e.Safe len aligned)
    (hle : len ≤ len') : e.Safe len' aligned := by
  cases e with
  | load off size => exact ⟨Nat.le_trans h.1 hle, h.2⟩
  | copy off size => exact Nat.le_trans h hle
  | pages lo hi => exact h

theorem LoadEvent.Safe.weaken {len : Nat} {aligned aligned' : Prop} {e : LoadEvent}
    (h : e.Safe len aligned) (himp : aligned' → aligned) : e.Safe len aligned' := by
  cases e with
  | load off size => exact ⟨h.1, fun haligned => h.2 (himp haligned)⟩
  | copy off size => exact h
  | pages lo hi => exact h

theorem LoadEvent.Safe.reads {len : Nat} {aligned : Prop} {e : LoadEvent} (h : e.Safe len aligned)
    {x : Nat} (hx : e.Reads x) : x < len := by
  cases e with
  | load off size => exact Nat.lt_of_lt_of_le hx.2 h.1
  | copy off size => exact Nat.lt_of_lt_of_le hx.2 h
  | pages lo hi => exact hx.elim

theorem LoadEvent.Safe.completes {len : Nat} {aligned : Prop} {e : LoadEvent} (h : e.Safe len aligned)
    (haligned : aligned) (buff : JudgeTftpBuff) : e.Completes buff.addr := by
  cases e with
  | load off size =>
    obtain ⟨hsize, hoff⟩ := h.2 haligned
    exact completes_load.mpr (Nat.dvd_add (hsize.trans buff.aligned) hoff)
  | copy off size => trivial
  | pages lo hi => exact h

/-- A loop below the last page of the address space ends. -/
theorem loopEnds_pageCount {lo hi : Nat} (hlo : lo < 2 ^ 64) (hhi : hi + pgSize ≤ 2 ^ 64) :
    LoopEnds lo hi (pageCount lo hi) := by
  simp only [pgSize] at hhi
  constructor
  · intro i hi'
    simp only [pageCount, pgSize] at hi' ⊢
    rw [wrap64_of_lt (by omega)]
    omega
  · simp only [pageCount, pgSize]
    rw [wrap64_of_lt (by omega)]
    omega

/-- Every event of the list is safe. -/
def AllSafe (len : Nat) (aligned : Prop) (es : List LoadEvent) : Prop := ∀ e ∈ es, e.Safe len aligned

section AllSafe

variable {len len' : Nat} {aligned : Prop} {es es' : List LoadEvent}

theorem AllSafe.nil (len : Nat) (aligned : Prop) : AllSafe len aligned [] :=
  fun _ he => absurd he (List.not_mem_nil)

theorem AllSafe.append (h : AllSafe len aligned es) (h' : AllSafe len aligned es') :
    AllSafe len aligned (es ++ es') := by
  intro e he
  rcases List.mem_append.mp he with hl | hr
  · exact h e hl
  · exact h' e hr

theorem AllSafe.cons {e : LoadEvent} (h : e.Safe len aligned) (h' : AllSafe len aligned es) :
    AllSafe len aligned (e :: es) := by
  intro e' he'
  rcases List.mem_cons.mp he' with rfl | hr
  · exact h
  · exact h' e' hr

theorem AllSafe.mono (h : AllSafe len aligned es) (hle : len ≤ len') : AllSafe len' aligned es :=
  fun e he => (h e he).mono hle

end AllSafe

/-- `load_elf` comes to read the table of program headers: no check on the ELF header fails. -/
structure TableRead (elf : Nat → Byte) (len : Nat) : Prop where
  header : elf64EhdrSize ≤ len
  magic : (elfHeader elf).eMagic = elfMag
  type : (elfHeader elf).eType = etExec
  phnum : (elfHeader elf).ePhnum ≠ 0
  entsize : (elfHeader elf).ePhentsize = elf64PhdrSize
  table : (elfHeader elf).ePhoff ≤
      wrap64 ((elfHeader elf).ePhoff + (elfHeader elf).ePhnum * elf64PhdrSize) ∧
    wrap64 ((elfHeader elf).ePhoff + (elfHeader elf).ePhnum * elf64PhdrSize) ≤ len

/-- The table then lies inside the image. -/
theorem TableRead.inside {elf : Nat → Byte} {len : Nat} (h : TableRead elf len) :
    (elfHeader elf).ePhoff + (elfHeader elf).ePhnum * elf64PhdrSize ≤ len := by
  have hphoff : (elfHeader elf).ePhoff < 2 ^ 64 := getLe_lt elf _ 8
  have hphnum : (elfHeader elf).ePhnum < 2 ^ 16 := getLe_lt elf _ 2
  have htable := h.table
  unfold elf64PhdrSize wrap64 at *
  omega

section Copies

variable (pt : Option Nat) (flags : BitVec 64) (elf : Nat → Byte) (aligned : Prop)

theorem mapAndWriteT_safe (va off u8 n : Nat) (k : Kernel) :
    AllSafe (u8 + n) aligned (mapAndWriteT pt va flags off elf u8 n k).2 := by
  unfold mapAndWriteT
  dsimp only
  split_ifs
  · exact AllSafe.cons (Nat.le_refl _) (AllSafe.nil _ _)
  · exact AllSafe.nil _ _

theorem copyPagesFromT_safe (va n u8 : Nat) (k : Kernel) :
    AllSafe (u8 + n * pgSize) aligned (copyPagesFromT pt flags elf va n u8 k).2 := by
  induction n generalizing va u8 k with
  | zero => exact AllSafe.nil _ _
  | succ n ih =>
    have hpage : AllSafe (u8 + (n + 1) * pgSize) aligned (mapAndWriteT pt va flags 0 elf u8 pgSize k).2 :=
      (mapAndWriteT_safe pt flags elf aligned va 0 u8 pgSize k).mono (by simp only [pgSize]; omega)
    unfold copyPagesFromT
    dsimp only
    split_ifs
    · refine hpage.append ((ih _ (u8 + pgSize) _).mono ?_)
      simp only [pgSize]
      omega
    · exact hpage

theorem copyHeadT_safe (va u8 len : Nat) (k : Kernel) :
    AllSafe (u8 + len) aligned (copyHeadT pt va flags elf u8 len k).2 := by
  have hchunk := headChunk_le va len
  unfold copyHeadT
  split_ifs
  · exact (mapAndWriteT_safe pt flags elf aligned _ _ u8 _ k).mono (by omega)
  · exact AllSafe.nil _ _

theorem copyTailT_safe (va u8 len : Nat) (k : Kernel) :
    AllSafe (u8 + len) aligned (copyTailT pt va flags elf u8 len k).2 := by
  unfold copyTailT
  split_ifs
  · exact mapAndWriteT_safe pt flags elf aligned va 0 u8 len k
  · exact AllSafe.nil _ _

/-- A copy reads its source only. -/
theorem mapAndCopyT_safe {va len : Nat} (u8 : Nat) (k : Kernel) (htop : va + len ≤ 2 ^ 39) :
    AllSafe (u8 + len) aligned (mapAndCopyT pt va flags elf u8 len k).2 := by
  have hchunk := headChunk_le va len
  obtain ⟨hbegin, hend, hcount, hreach⟩ := copy_middle htop
  unfold mapAndCopyT
  by_cases hlen : len = 0
  · rw [if_pos hlen]
    exact AllSafe.nil _ _
  rw [if_neg hlen]
  dsimp only
  have hhead := copyHeadT_safe pt flags elf aligned va u8 len k
  generalize copyHeadT pt va flags elf u8 len k = head at hhead ⊢
  rw [hbegin, hend] at hcount
  have hfit : headChunk va len + ((va + len) / 4096 - (va + 4095) / 4096) * pgSize ≤ len := by
    simp only [pgSize]
    omega
  have hloop : LoadEvent.Safe (u8 + len) aligned
      (.pages (pgAlign va) (pgAlignFloor (wrap64 (va + len)))) := by
    refine loopEnds_pageCount ?_ ?_
    · rw [hbegin]
      omega
    · rw [hend]
      simp only [pgSize]
      omega
  rw [hbegin, hend] at hloop
  simp only [hbegin, hend, hcount]
  generalize (va + len) / 4096 - (va + 4095) / 4096 = n at hfit ⊢
  have hmid := copyPagesFromT_safe pt flags elf aligned ((va + 4095) / 4096 * 4096) n
    (u8 + headChunk va len) head.1.2
  generalize copyPagesFromT pt flags elf ((va + 4095) / 4096 * 4096) n _ head.1.2 = mid at hmid ⊢
  have hpre : AllSafe (u8 + len) aligned (head.2 ++ .pages ((va + 4095) / 4096 * 4096)
      ((va + len) / 4096 * 4096) :: mid.2) :=
    hhead.append (AllSafe.cons hloop (hmid.mono (by omega)))
  by_cases hok₁ : head.1.1 = true
  · rw [if_pos hok₁]
    by_cases hok₂ : mid.1.1 = true
    · rw [if_pos hok₂]
      refine hpre.append ((copyTailT_safe pt flags elf aligned _ _ _ _).mono ?_)
      omega
    · rw [if_neg hok₂]
      exact hpre
  · rw [if_neg hok₁]
    exact hhead

end Copies

theorem loadSegmentT_safe (pt : Option Nat) (elf : Nat → Byte) (len : Nat) (aligned : Prop) (i : Nat)
    (k : Kernel) : AllSafe len aligned (loadSegmentT pt elf len (elfPhdr elf i) k).2 := by
  have hoffset : (elfPhdr elf i).pOffset < 2 ^ 64 := getLe_lt elf _ 8
  have hfilesz : (elfPhdr elf i).pFilesz < 2 ^ 64 := getLe_lt elf _ 8
  have hvaddr : (elfPhdr elf i).pVaddr < 2 ^ 64 := getLe_lt elf _ 8
  have hmemsz : (elfPhdr elf i).pMemsz < 2 ^ 64 := getLe_lt elf _ 8
  generalize elfPhdr elf i = ph at *
  unfold loadSegmentT
  by_cases hload : ph.pType ≠ ptLoad
  · rw [if_pos hload]
    exact AllSafe.nil _ _
  rw [if_neg hload]
  by_cases hfile : ph.pFilesz ≠ 0 ∧ ¬ (ph.pOffset ≤ wrap64 (ph.pOffset + ph.pFilesz) ∧
      wrap64 (ph.pOffset + ph.pFilesz) ≤ len)
  · rw [if_pos hfile]
    exact AllSafe.nil _ _
  rw [if_neg hfile]
  by_cases hrange : ¬ (userBottom ≤ ph.pVaddr ∧ ph.pVaddr ≤ wrap64 (ph.pVaddr + ph.pMemsz) ∧
      wrap64 (ph.pVaddr + ph.pMemsz) ≤ userTop)
  · rw [if_pos hrange]
    exact AllSafe.nil _ _
  rw [if_neg hrange]
  by_cases hsize : ph.pFilesz > ph.pMemsz
  · rw [if_pos hsize]
    exact AllSafe.nil _ _
  rw [if_neg hsize]
  have htop : ph.pVaddr + ph.pMemsz ≤ 2 ^ 38 := by
    unfold userTop userBottom wrap64 at hrange
    omega
  have hcopy : AllSafe len aligned (mapAndCopyT pt ph.pVaddr (segmentFlags ph.pFlags) elf
      ph.pOffset ph.pFilesz k).2 := by
    by_cases hempty : ph.pFilesz = 0
    · unfold mapAndCopyT
      rw [if_pos hempty]
      exact AllSafe.nil _ _
    · refine (mapAndCopyT_safe pt _ _ _ _ _ (by omega)).mono ?_
      unfold wrap64 at hfile
      omega
  have hbss : LoadEvent.Safe len aligned (.pages (pgAlignFloor (wrap64 (ph.pVaddr + ph.pFilesz)))
      (pgAlign (wrap64 (ph.pVaddr + ph.pMemsz)))) := by
    rw [wrap64_of_lt (by omega), wrap64_of_lt (by omega), pgAlignFloor_eq (by omega),
      pgAlign_eq (by omega)]
    exact loopEnds_pageCount (by omega) (by simp only [pgSize]; omega)
  unfold mapSegmentT
  dsimp only
  generalize mapAndCopyT pt ph.pVaddr _ _ _ ph.pFilesz k = copy at hcopy ⊢
  by_cases hret : copy.1.1 < 0
  · rw [if_pos hret]
    exact hcopy
  rw [if_neg hret]
  by_cases hgap : ph.pFilesz < ph.pMemsz
  · rw [if_pos hgap]
    exact hcopy.append (AllSafe.cons hbss (AllSafe.nil _ _))
  · rw [if_neg hgap]
    exact hcopy

theorem passReads_safe {len phoff n : Nat} (hlen : elf64EhdrSize ≤ len)
    (htable : phoff + n * elf64PhdrSize ≤ len) {i : Nat} (hi : i < n) :
    AllSafe len (8 ∣ phoff) (passReads phoff i) := by
  have hmul : elf64PhdrSize * i + 56 ≤ n * elf64PhdrSize := by
    unfold elf64PhdrSize
    omega
  unfold elf64EhdrSize at hlen
  intro e he
  simp only [passReads, phdrReads, List.mem_cons, List.not_mem_nil, or_false] at he
  have hentry : 8 ∣ phoff → 8 ∣ phoff + elf64PhdrSize * i := by
    unfold elf64PhdrSize
    omega
  rcases he with rfl | rfl | rfl | rfl | rfl | rfl | rfl | rfl
  all_goals
    refine ⟨by omega, fun haligned => ⟨by decide, ?_⟩⟩
    have haligned := hentry haligned
    omega

theorem loadSegmentsT_safe {pt : Option Nat} {elf : Nat → Byte} {len phoff i n : Nat} {k : Kernel}
    (hlen : elf64EhdrSize ≤ len) (htable : phoff + (i + n) * elf64PhdrSize ≤ len) :
    AllSafe len (8 ∣ phoff) (loadSegmentsT pt elf len phoff i n k).2 := by
  induction n generalizing i k with
  | zero => exact AllSafe.nil _ _
  | succ n ih =>
    have hpass := passReads_safe hlen htable (by omega : i < i + (n + 1))
    have hseg := loadSegmentT_safe pt elf len (8 ∣ phoff) i k
    unfold loadSegmentsT
    dsimp only
    generalize loadSegmentT pt elf len (elfPhdr elf i) k = seg at hseg ⊢
    by_cases hret : seg.1.1 ≠ 0
    · rw [if_pos hret]
      exact hpass.append hseg
    · rw [if_neg hret]
      have hnext : i + 1 + n = i + (n + 1) := by omega
      exact (hpass.append hseg).append (ih (hnext ▸ htable))

/-- The fields of the ELF header are aligned. -/
theorem ehdr_safe {len : Nat} (hlen : elf64EhdrSize ≤ len) (aligned : Prop) {off size : Nat}
    (hfit : off + size ≤ elf64EhdrSize) (hsize : size ∣ 16 ∧ size ∣ off) :
    AllSafe len aligned [.load off size] :=
  AllSafe.cons ⟨Nat.le_trans hfit hlen, fun _ => hsize⟩ (AllSafe.nil _ _)

theorem loadElfT_safe (pt : Option Nat) (elf : Nat → Byte) (len : Nat) (k : Kernel) :
    AllSafe len (TableRead elf len → 8 ∣ (elfHeader elf).ePhoff) (loadElfT pt elf len k).2 := by
  unfold loadElfT
  by_cases hlen : len < elf64EhdrSize
  · rw [if_pos hlen]
    exact AllSafe.nil _ _
  rw [if_neg hlen]
  replace hlen := Nat.not_lt.mp hlen
  have h₁ : AllSafe len (TableRead elf len → 8 ∣ (elfHeader elf).ePhoff) [.copy 0 4] :=
    AllSafe.cons (Nat.le_trans (by decide) hlen) (AllSafe.nil _ _)
  have h₂ := h₁.append (ehdr_safe hlen _ (by decide : 16 + 2 ≤ elf64EhdrSize) (by decide))
  have h₃ := h₂.append ((ehdr_safe hlen _ (by decide : 24 + 8 ≤ elf64EhdrSize) (by decide)).append
    (ehdr_safe hlen _ (by decide : 56 + 2 ≤ elf64EhdrSize) (by decide)))
  have h₄ := h₃.append (ehdr_safe hlen _ (by decide : 54 + 2 ≤ elf64EhdrSize) (by decide))
  have h₅ := h₄.append ((ehdr_safe hlen _ (by decide : 56 + 2 ≤ elf64EhdrSize) (by decide)).append
    (ehdr_safe hlen _ (by decide : 32 + 8 ≤ elf64EhdrSize) (by decide)))
  dsimp only
  split_ifs with hmagic htype hphnum hentsize htable
  · exact h₁.append (ehdr_safe hlen _ (by decide : 0 + 8 ≤ elf64EhdrSize) (by decide))
  · exact h₂
  · exact h₃
  · exact h₄
  · have hread : TableRead elf len :=
      ⟨hlen, not_not.mp hmagic, not_not.mp htype, hphnum, not_not.mp hentsize, htable⟩
    have hinside := hread.inside
    have hphdr : ∀ es, AllSafe len (8 ∣ (elfHeader elf).ePhoff) es →
        AllSafe len (TableRead elf len → 8 ∣ (elfHeader elf).ePhoff) es :=
      fun es hes e he => (hes e he).weaken fun haligned => haligned hread
    have hprint : AllSafe len (8 ∣ (elfHeader elf).ePhoff)
        (printReads (elfHeader elf).ePhoff (elfHeader elf).ePhnum) := by
      intro e he
      obtain ⟨i, hi, hpass⟩ := List.mem_flatMap.mp he
      exact passReads_safe hlen hinside (List.mem_range.mp hi) e hpass
    have hload : AllSafe len (8 ∣ (elfHeader elf).ePhoff)
        (loadSegmentsT pt elf len (elfHeader elf).ePhoff 0 (elfHeader elf).ePhnum k).2 := by
      refine loadSegmentsT_safe hlen ?_
      rwa [Nat.zero_add]
    exact ((h₅.append (hphdr _ hprint)).append (hphdr _ hload)).append
      (ehdr_safe hlen _ (by decide : 56 + 2 ≤ elf64EhdrSize) (by decide))
  · exact h₅

/-- The first pass of the printing loop loads `p_offset`. -/
theorem loadElfT_loads_offset {elf : Nat → Byte} {len : Nat} (h : TableRead elf len) (pt : Option Nat)
    (k : Kernel) : .load ((elfHeader elf).ePhoff + 8) 8 ∈ (loadElfT pt elf len k).2 := by
  have hfirst : .load ((elfHeader elf).ePhoff + 8) 8 ∈
      printReads (elfHeader elf).ePhoff (elfHeader elf).ePhnum := by
    refine List.mem_flatMap.mpr ⟨0, List.mem_range.mpr (Nat.pos_of_ne_zero h.phnum), ?_⟩
    simp [passReads, phdrReads]
  unfold loadElfT
  rw [if_neg (Nat.not_lt.mpr h.header)]
  dsimp only
  rw [if_neg (not_not_intro h.magic), if_neg (not_not_intro h.type), if_neg h.phnum,
    if_neg (not_not_intro h.entsize), if_neg (not_not_intro h.table)]
  exact List.mem_append_left _ (List.mem_append_left _ (List.mem_append_right _ hfirst))

/-! ## Mapped pages -/

section Mapped

variable {k k' : Kernel} {bssEnd : Nat} {ts : List Table} {t : Table}

/-- What the table at `root` maps beyond what it mapped lies in the user range. -/
def MapsUser (root : Nat) (k k' : Kernel) : Prop :=
  ∀ x < 2 ^ 39, userView k'.mem root x ≠ none →
    userView k.mem root x ≠ none ∨ userBottom ≤ x ∧ x < userTop

theorem MapsUser.refl (root : Nat) (k : Kernel) : MapsUser root k k := fun _ _ hx => Or.inl hx

theorem MapsUser.trans {root : Nat} {k'' : Kernel} (h : MapsUser root k k') (h' : MapsUser root k' k'') :
    MapsUser root k k'' := by
  intro x hx hmapped
  rcases h' x hx hmapped with hold | hnew
  · exact h x hx hold
  · exact Or.inr hnew

theorem Copied.mapsUser {va len : Nat} {flags : BitVec 64} {src : Nat → Option Byte}
    (h : Copied ts t.root va flags src len k k') (ht : t ∈ ts)
    (hin : ∀ x, Touches va len x → userBottom ≤ x ∧ x < userTop) : MapsUser t.root k k' := by
  obtain ⟨pages, hcopy⟩ := h
  intro x hx hmapped
  by_cases hpage : Touches va len x
  · exact Or.inr (hin x hpage)
  · rw [hcopy t.root x ⟨t, ht, rfl⟩ hx, if_pos rfl, copiedAt, if_neg hpage] at hmapped
    exact Or.inl hmapped

theorem loadSegment_mapsUser (h : VmInv k bssEnd ts) (ht : t ∈ ts) {elf : Nat → Byte} {len i : Nat}
    {ret : Int} (hrun : loadSegment (some t.root) elf len (elfPhdr elf i) k = (ret, k')) :
    VmInv k' bssEnd ts ∧ MapsUser t.root k k' := by
  by_cases hload : (elfPhdr elf i).pType = ptLoad
  · rcases loadSegment_cases hload hrun with ⟨_, rfl⟩ | ⟨hok, hmap⟩
    · exact ⟨h, MapsUser.refl _ _⟩
    · obtain ⟨h', k₁, n, lo, m, hcopy, _⟩ := mapSegment_spec h ht hok hmap
      have hlow := hok.low
      have hhigh := hok.high
      have huser : ∀ x, Touches (elfPhdr elf i).pVaddr (elfPhdr elf i).pMemsz x →
          userBottom ≤ x ∧ x < userTop := by
        intro x hx
        unfold Touches at hx
        unfold userTop userBottom at *
        omega
      exact ⟨h', (hcopy.file.mapsUser ht fun x hx => huser x (hcopy.inside x (Or.inl hx))).trans
        (hcopy.bss.mapsUser ht fun x hx => huser x (hcopy.inside x (Or.inr hx)))⟩
  · rw [loadSegment, if_pos hload] at hrun
    obtain rfl := (Prod.mk.inj hrun).2
    exact ⟨h, MapsUser.refl _ _⟩

theorem loadSegments_mapsUser (h : VmInv k bssEnd ts) (ht : t ∈ ts) {elf : Nat → Byte}
    {len i n : Nat} {ret : Int} (hrun : loadSegments (some t.root) elf len i n k = (ret, k')) :
    VmInv k' bssEnd ts ∧ MapsUser t.root k k' := by
  induction n generalizing i k with
  | zero =>
    obtain rfl := (Prod.mk.inj hrun).2
    exact ⟨h, MapsUser.refl _ _⟩
  | succ n ih =>
    rcases hseg : loadSegment (some t.root) elf len (elfPhdr elf i) k with ⟨ret₁, k₁⟩
    obtain ⟨h₁, hmaps⟩ := loadSegment_mapsUser h ht hseg
    simp only [loadSegments, hseg] at hrun
    by_cases hret : ret₁ ≠ 0
    · rw [if_pos hret] at hrun
      obtain rfl := (Prod.mk.inj hrun).2
      exact ⟨h₁, hmaps⟩
    · rw [if_neg hret] at hrun
      obtain ⟨h', hrest⟩ := ih h₁ hrun
      exact ⟨h', hmaps.trans hrest⟩

theorem loadElf_kernel (pt : Option Nat) (elf : Nat → Byte) (len : Nat) (k : Kernel) :
    (loadElf pt elf len k).kernel = k ∨
      (loadElf pt elf len k).kernel = (loadSegments pt elf len 0 (elfHeader elf).ePhnum k).2 := by
  rw [loadElf]
  by_cases hlen : len < elf64EhdrSize
  · rw [if_pos hlen]
    exact Or.inl rfl
  rw [if_neg hlen]
  dsimp only
  by_cases hmagic : (elfHeader elf).eMagic ≠ elfMag
  · rw [if_pos hmagic]
    exact Or.inl rfl
  rw [if_neg hmagic]
  by_cases htype : (elfHeader elf).eType ≠ etExec
  · rw [if_pos htype]
    exact Or.inl rfl
  rw [if_neg htype]
  by_cases hphnum : (elfHeader elf).ePhnum = 0
  · rw [if_pos hphnum]
    exact Or.inl rfl
  rw [if_neg hphnum]
  by_cases hentsize : (elfHeader elf).ePhentsize ≠ elf64PhdrSize
  · rw [if_pos hentsize]
    exact Or.inl rfl
  rw [if_neg hentsize]
  by_cases htable : ¬ ((elfHeader elf).ePhoff ≤
      wrap64 ((elfHeader elf).ePhoff + (elfHeader elf).ePhnum * elf64PhdrSize) ∧
      wrap64 ((elfHeader elf).ePhoff + (elfHeader elf).ePhnum * elf64PhdrSize) ≤ len)
  · rw [if_pos htable]
    exact Or.inl rfl
  rw [if_neg htable]
  exact Or.inr rfl

theorem loadElf_mapsUser (h : VmInv k bssEnd ts) (ht : t ∈ ts) (elf : Nat → Byte) (len : Nat) :
    VmInv (loadElf (some t.root) elf len k).kernel bssEnd ts ∧
      MapsUser t.root k (loadElf (some t.root) elf len k).kernel := by
  rcases loadElf_kernel (some t.root) elf len k with hsame | hload
  · rw [hsame]
    exact ⟨h, MapsUser.refl _ _⟩
  · rw [hload]
    exact loadSegments_mapsUser h ht rfl

end Mapped

/-- An accepted image holds its ELF header. -/
theorem loadElf_header {pt : Option Nat} {elf : Nat → Byte} {len : Nat} {k : Kernel}
    (hret : (loadElf pt elf len k).ret = 0) : elf64EhdrSize ≤ len := by
  by_contra hshort
  have hfail : (loadElf pt elf len k).ret = -eOOB := by
    rw [loadElf, if_pos (Nat.not_le.mp hshort)]
  rw [hfail] at hret
  exact absurd hret (by decide)

/-- `load_elf` at an image in `judge_tftp_buff`: the call ends, reads nothing outside the image
and maps user addresses only; once it returned 0, so do the copy of the header page and
`parse_elf_phdr`. -/
structure LoaderSafe (buff : JudgeTftpBuff) (pt : Option Nat) (elf : Nat → Byte) (len : Nat)
    (k : Kernel) : Prop where
  returns : ∀ e ∈ (loadElfT pt elf len k).2, e.Completes buff.addr
  reads : ∀ e ∈ (loadElfT pt elf len k).2, ∀ x, e.Reads x → x < len
  maps : ∀ x < 2 ^ 39, tableByte pt (loadElfT pt elf len k).1.kernel.mem x ≠ none →
    userBottom ≤ x ∧ x < userTop
  after : (loadElfT pt elf len k).1.ret = 0 → ∀ k', ∀ e ∈ (headerPageT pt elf len k').2 ++ parseElfPhdrReads,
    e.Completes buff.addr ∧ ∀ x, e.Reads x → x < len

/-- What `load_elf` maps on a fresh table is user memory. -/
theorem loadElf_maps {mm : Mm} {bssEnd : Nat} (hmm : mm.Reachable bssEnd) (mem : Mem)
    (elf : Nat → Byte) (len : Nat) {pt : Option Nat} {k : Kernel}
    (hcreate : createPt ⟨mm, mem, []⟩ = (pt, k)) {x : Nat} (hx : x < 2 ^ 39)
    (hmapped : tableByte pt (loadElf pt elf len k).kernel.mem x ≠ none) :
    userBottom ≤ x ∧ x < userTop := by
  rcases createPt_spec (VmInv.start hmm.inv mem) with hfull | ⟨a, k₁, hcreated, _, h₁, hempty⟩
  · obtain ⟨rfl, rfl⟩ := Prod.mk.inj (hfull.symm.trans hcreate)
    exact absurd rfl hmapped
  · obtain ⟨rfl, rfl⟩ := Prod.mk.inj (hcreated.symm.trans hcreate)
    have ht : (⟨a, 0⟩ : Table) ∈ [(⟨a, 0⟩ : Table)] := List.mem_singleton.mpr rfl
    have hview : userView (loadElf (some a) elf len k₁).kernel.mem a x ≠ none := by
      intro hnone
      apply hmapped
      show userByte _ a x = none
      rw [userByte, hnone]
      rfl
    refine ((loadElf_mapsUser h₁ ht elf len).2 x hx hview).resolve_left ?_
    exact not_not_intro (hempty x)

/-- The header-page copy and `parse_elf_phdr` after a successful load. -/
theorem headerPageT_safe {pt : Option Nat} {elf : Nat → Byte} {len : Nat} (hheader : elf64EhdrSize ≤ len)
    (aligned : Prop) (k : Kernel) : AllSafe len aligned ((headerPageT pt elf len k).2 ++ parseElfPhdrReads) := by
  have htop : elfHeaderVa + (if len < pgSize then len else pgSize) ≤ 2 ^ 39 := by
    unfold elfHeaderVa userTop
    simp only [pgSize]
    split_ifs <;> omega
  have hcopy := mapAndCopyT_safe pt (vmU ||| vmR ||| vmA) elf aligned 0 k htop
  refine (hcopy.mono (by split_ifs <;> omega)).append ?_
  exact (ehdr_safe hheader _ (by decide : 32 + 8 ≤ elf64EhdrSize) (by decide)).append
    ((ehdr_safe hheader _ (by decide : 54 + 2 ≤ elf64EhdrSize) (by decide)).append
      (ehdr_safe hheader _ (by decide : 56 + 2 ≤ elf64EhdrSize) (by decide)))

/-- Loading is safe exactly when the image is refused before its program headers are read, or
their table is at a multiple of 8. -/
theorem loadElf_safe_iff (buff : JudgeTftpBuff) {mm : Mm} {bssEnd : Nat} (hmm : mm.Reachable bssEnd)
    (mem : Mem) (elf : Nat → Byte) (len : Nat) {pt : Option Nat} {k : Kernel}
    (hcreate : createPt ⟨mm, mem, []⟩ = (pt, k)) :
    (loadElfT pt elf len k).1 = loadElf pt elf len k ∧
      (LoaderSafe buff pt elf len k ↔ (TableRead elf len → 8 ∣ (elfHeader elf).ePhoff)) := by
  refine ⟨loadElfT_fst pt elf len k, ?_, ?_⟩
  · intro h hread
    have hbuff : 8 ∣ buff.addr := Nat.dvd_trans (by decide) buff.aligned
    have hload := completes_load.mp (h.returns _ (loadElfT_loads_offset hread pt k))
    omega
  · intro haligned
    have hsafe := loadElfT_safe pt elf len k
    refine ⟨fun e he => (hsafe e he).completes haligned buff, fun e he x => (hsafe e he).reads, ?_, ?_⟩
    · rw [loadElfT_fst]
      exact fun x hx => loadElf_maps hmm mem elf len hcreate hx
    · rw [loadElfT_fst]
      intro hret k' e he
      have hafter := @headerPageT_safe pt elf _ (loadElf_header hret) True k' e he
      exact ⟨hafter.completes trivial buff, fun x => hafter.reads⟩

/-- The small image, loaded with success right after boot. -/
theorem loadElf_safe_iff_small : ∃ mm bssEnd, mm.Reachable bssEnd ∧
    (loadElf (createPt ⟨mm, fun _ => 0, []⟩).1 smallElf 120 (createPt ⟨mm, fun _ => 0, []⟩).2).ret = 0 ∧
    LoaderSafe ⟨0x80010000, by decide⟩ (createPt ⟨mm, fun _ => 0, []⟩).1 smallElf 120
      (createPt ⟨mm, fun _ => 0, []⟩).2 := by
  let mm₀ : Mm := ⟨0, ⟨0, 0, 0, fun _ => 0⟩, 0, ⟨0, 0, 0, fun _ => 0⟩⟩
  obtain ⟨mm, hboot, _, _⟩ := bootMm_inv smallLayout mm₀
  have hmm : mm.Reachable 0x40800 := ⟨_, _, mm₀, mm, smallLayout, hboot, [], _, rfl, rfl⟩
  have hret : (bootMm 0x40800 0x40000 64 mm₀).map (fun mm =>
      (loadElf (createPt ⟨mm, fun _ => 0, []⟩).1 smallElf 120
        (createPt ⟨mm, fun _ => 0, []⟩).2).ret) = some 0 := by
    decide +kernel
  rw [hboot, Option.map_some, Option.some.injEq] at hret
  have hphoff : (elfHeader smallElf).ePhoff = 64 := by decide +kernel
  refine ⟨mm, _, hmm, hret, (loadElf_safe_iff _ hmm (fun _ => 0) smallElf 120 rfl).2.mpr fun _ => ?_⟩
  rw [hphoff]
  decide

/-- An image whose one program header, with nothing to load, is at offset 65. -/
def oddElf : Nat → Byte
  | 0 => 0x7f | 1 => 0x45 | 2 => 0x4c | 3 => 0x46
  | 16 => 2 | 32 => 65 | 54 => 56 | 56 => 1
  | _ => 0

/-- It passes the checks of the ELF header, and the load of its first `p_offset` is misaligned. -/
theorem loadElf_safe_iff_odd : ∃ mm bssEnd, mm.Reachable bssEnd ∧
    .load 73 8 ∈ (loadElfT (createPt ⟨mm, fun _ => 0, []⟩).1 oddElf 121
      (createPt ⟨mm, fun _ => 0, []⟩).2).2 ∧
    ¬ (LoadEvent.load 73 8).Completes 0x80010000 ∧
    ¬ LoaderSafe ⟨0x80010000, by decide⟩ (createPt ⟨mm, fun _ => 0, []⟩).1 oddElf 121
      (createPt ⟨mm, fun _ => 0, []⟩).2 := by
  let mm₀ : Mm := ⟨0, ⟨0, 0, 0, fun _ => 0⟩, 0, ⟨0, 0, 0, fun _ => 0⟩⟩
  obtain ⟨mm, hboot, _, _⟩ := bootMm_inv smallLayout mm₀
  have hmm : mm.Reachable 0x40800 := ⟨_, _, mm₀, mm, smallLayout, hboot, [], _, rfl, rfl⟩
  have hphoff : (elfHeader oddElf).ePhoff = 65 := by decide +kernel
  have hphnum : (elfHeader oddElf).ePhnum = 1 := by decide +kernel
  have hread : TableRead oddElf 121 := by
    refine ⟨by decide, by decide +kernel, by decide +kernel, by rw [hphnum]; decide,
      by decide +kernel, ?_⟩
    rw [hphoff, hphnum]
    decide +kernel
  have hload := loadElfT_loads_offset hread (createPt ⟨mm, fun _ => 0, []⟩).1
    (createPt ⟨mm, fun _ => 0, []⟩).2
  rw [hphoff] at hload
  have hstuck : ¬ (LoadEvent.load 73 8).Completes 0x80010000 := by
    rw [completes_load]
    decide
  exact ⟨mm, _, hmm, hload, hstuck, fun hsafe => hstuck (hsafe.returns _ hload)⟩

end VijosOS
