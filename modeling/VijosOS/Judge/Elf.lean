import VijosOS.Memory.Vm

/-!
# The ELF loader

`elf.c`. The image is a byte function with a length; bytes at or beyond the length are
whatever the download buffer holds.
-/

namespace VijosOS

open Library

structure Elf64Ehdr where
  eMagic : List Byte
  eType : Nat
  eEntry : Nat
  ePhoff : Nat
  ePhentsize : Nat
  ePhnum : Nat

structure Elf64Phdr where
  pType : Nat
  pFlags : Nat
  pOffset : Nat
  pVaddr : Nat
  pFilesz : Nat
  pMemsz : Nat

def elf64EhdrSize : Nat := 64
def elf64PhdrSize : Nat := 56
def elfMag : List Byte := [0x7f, 0x45, 0x4c, 0x46]
def etExec : Nat := 2
def ptLoad : Nat := 1
def pfX : Nat := 1
def pfW : Nat := 2
def pfR : Nat := 4

def elfHeader (elf : Nat → Byte) : Elf64Ehdr where
  eMagic := bytesAt elf 0 4
  eType := getLe elf 16 2
  eEntry := getLe elf 24 8
  ePhoff := getLe elf 32 8
  ePhentsize := getLe elf 54 2
  ePhnum := getLe elf 56 2

/-- The fields of `phdr[i]` of the table at `e_phoff`, as their loads give them. A load at a
misaligned place gives nothing: it traps (`LoadEvent.Completes`). -/
def elfPhdr (elf : Nat → Byte) (i : Nat) : Elf64Phdr :=
  let at' := (elfHeader elf).ePhoff + elf64PhdrSize * i
  { pType := getLe elf at' 4
    pFlags := getLe elf (at' + 4) 4
    pOffset := getLe elf (at' + 8) 8
    pVaddr := getLe elf (at' + 16) 8
    pFilesz := getLe elf (at' + 32) 8
    pMemsz := getLe elf (at' + 40) 8 }

def segmentFlags (pFlags : Nat) : BitVec 64 :=
  let flags := vmU ||| vmA
  let flags := if pFlags &&& pfR ≠ 0 then flags ||| vmR else flags
  let flags := if pFlags &&& pfW ≠ 0 then flags ||| (vmW ||| vmD) else flags
  if pFlags &&& pfX ≠ 0 then flags ||| vmX else flags

-- The end of a pass of the loading loop, after the checks.
def mapSegment (pt : Option Nat) (elf : Nat → Byte) (ph : Elf64Phdr) (k : Kernel) : Int × Kernel :=
  let flags := segmentFlags ph.pFlags
  match mapAndCopy pt ph.pVaddr flags (fun i => elf (ph.pOffset + i)) ph.pFilesz k with
  | (ret, k) =>
    if ret < 0 then (ret, k)
    else if ph.pFilesz < ph.pMemsz then
      let fileEnd := pgAlignFloor (wrap64 (ph.pVaddr + ph.pFilesz))
      let memEnd := pgAlign (wrap64 (ph.pVaddr + ph.pMemsz))
      match mapRange pt flags fileEnd memEnd k with
      | (false, k) => (-eOOM, k)
      | (true, k) => (0, k)
    else (0, k)

/-- One pass of the loading loop; a nonzero result ends `load_elf`. -/
def loadSegment (pt : Option Nat) (elf : Nat → Byte) (len : Nat) (ph : Elf64Phdr) (k : Kernel) :
    Int × Kernel :=
  if ph.pType ≠ ptLoad then (0, k)
  else if ph.pFilesz ≠ 0 ∧ ¬ (ph.pOffset ≤ wrap64 (ph.pOffset + ph.pFilesz) ∧
      wrap64 (ph.pOffset + ph.pFilesz) ≤ len) then (-eOOB, k)
  else if ¬ (userBottom ≤ ph.pVaddr ∧ ph.pVaddr ≤ wrap64 (ph.pVaddr + ph.pMemsz) ∧
      wrap64 (ph.pVaddr + ph.pMemsz) ≤ userTop) then (-eOOB, k)
  else if ph.pFilesz > ph.pMemsz then (-eBADPKT, k)
  else mapSegment pt elf ph k

/-- The loading loop over `n` headers from index `i`. -/
def loadSegments (pt : Option Nat) (elf : Nat → Byte) (len : Nat) : Nat → Nat → Kernel → Int × Kernel
  | _, 0, k => (0, k)
  | i, n + 1, k =>
    match loadSegment pt elf len (elfPhdr elf i) k with
    | (ret, k) => if ret ≠ 0 then (ret, k) else loadSegments pt elf len (i + 1) n k

structure ElfResult where
  ret : Int
  -- `*entry_va`, when it was written
  entry : Option Nat
  kernel : Kernel

/-- What `load_elf` leaves behind when it returns. -/
def loadElf (pt : Option Nat) (elf : Nat → Byte) (len : Nat) (k : Kernel) : ElfResult :=
  if len < elf64EhdrSize then ⟨-eOOB, none, k⟩
  else
    let elfHeader := elfHeader elf
    if elfHeader.eMagic ≠ elfMag then ⟨-eBADPKT, none, k⟩
    else if elfHeader.eType ≠ etExec then ⟨-eBADPKT, none, k⟩
    else
      let entry := elfHeader.eEntry
      if elfHeader.ePhnum = 0 then ⟨-eBADPKT, some entry, k⟩
      else if elfHeader.ePhentsize ≠ elf64PhdrSize then ⟨-eNOIMPL, some entry, k⟩
      else
        let phsize := elfHeader.ePhnum * elf64PhdrSize
        if ¬ (elfHeader.ePhoff ≤ wrap64 (elfHeader.ePhoff + phsize) ∧
            wrap64 (elfHeader.ePhoff + phsize) ≤ len) then ⟨-eOOB, some entry, k⟩
        else
          match loadSegments pt elf len 0 elfHeader.ePhnum k with
          | (ret, k) => ⟨ret, some entry, k⟩

/-- The offset, entry size and length of the program header table. -/
def parseElfPhdr (elf : Nat → Byte) : Nat × Nat × Nat :=
  ((elfHeader elf).ePhoff, (elfHeader elf).ePhentsize, (elfHeader elf).ePhnum)

end VijosOS
