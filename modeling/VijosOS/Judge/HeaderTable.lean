import VijosOS.Arch.Sv39
import VijosOS.Judge.UserMap

/-!
# The program headers a program is told of

`AT_PHDR` is the file offset of the program header table added to the address of a page that
holds the first page of the file. The program finds the table there exactly when the table ends
in that page and no segment bound the page before without read permission.
-/

namespace VijosOS

open Library

/-! ## The table in the file -/

/-- What `load_elf` checked of the header table. -/
structure TableOk (image : Nat → Byte) (len : Nat) : Prop where
  some : 0 < (elfHeader image).ePhnum
  size : (elfHeader image).ePhentsize = 56
  inside : (elfHeader image).ePhoff + 56 * (elfHeader image).ePhnum ≤ len

theorem loadElf_table {pt : Option Nat} {image : Nat → Byte} {len : Nat} {k : Kernel}
    (hret : (loadElf pt image len k).ret = 0) : TableOk image len := by
  have hphoff : (elfHeader image).ePhoff < 2 ^ 64 := getLe_lt image 32 8
  have hphnum : (elfHeader image).ePhnum < 2 ^ 16 := getLe_lt image 56 2
  unfold loadElf at hret
  dsimp only at hret
  split_ifs at hret with hlen hmagic htype hnum hent hoff
  · exact absurd hret (show ¬ -eOOB = 0 by decide)
  · exact absurd hret (show ¬ -eBADPKT = 0 by decide)
  · exact absurd hret (show ¬ -eBADPKT = 0 by decide)
  · exact absurd hret (show ¬ -eBADPKT = 0 by decide)
  · exact absurd hret (show ¬ -eNOIMPL = 0 by decide)
  · rw [not_not] at hent
    unfold elf64PhdrSize wrap64 at *
    exact ⟨by omega, hent, by omega⟩
  · exact absurd hret (show ¬ -eOOB = 0 by decide)

/-! ## The table in user memory -/

/-- A load of the program from `va` finds `b`; a page fault sets the accessed bit. -/
def UserReads (m : Mem) (root : Nat) (va : BitVec 64) (b : Byte) : Prop :=
  Canonical va ∧ ∃ e, userView m root va.toNat = some (e, b) ∧ e &&& pteU ≠ 0 ∧ e &&& pteR ≠ 0

/-- At the value of `AT_PHDR` the program can read the header table of the file. -/
def PhdrTruthful (image : Nat → Byte) (root : Nat) (m : Mem) : Prop :=
  ∀ j < (parseElfPhdr image).2.2 * (parseElfPhdr image).2.1,
    UserReads m root (BitVec.ofNat 64 (phdrVa image + j)) (image ((parseElfPhdr image).1 + j))

/-- The table ends in the first page of the file, and the first segment on the page that shows it
is readable. -/
def TableShown (image : Nat → Byte) : Prop :=
  (elfHeader image).ePhoff + 56 * (elfHeader image).ePhnum ≤ 4096 ∧
    ∀ j, FirstOn image (elfHeader image).ePhnum elfHeaderVa j → (elfPhdr image j).pFlags &&& pfR ≠ 0

/-- The low half of the address space. -/
theorem canonical_iff {x : Nat} (hx : x < 2 ^ 39) : Canonical (BitVec.ofNat 64 x) ↔ x < 2 ^ 38 := by
  have hwidth : (BitVec.ofNat 64 x).toNat = x := by
    rw [BitVec.toNat_ofNat]
    omega
  have hlow : ((BitVec.ofNat 64 x).setWidth 39).toNat = x := by
    rw [BitVec.toNat_setWidth, hwidth]
    omega
  have hsign : ((BitVec.ofNat 64 x).setWidth 39).msb = decide (2 ^ 38 ≤ x) := by
    rw [BitVec.msb_eq_decide, hlow]
  have hextend : (((BitVec.ofNat 64 x).setWidth 39).signExtend 64).toNat =
      x + if 2 ^ 38 ≤ x then 2 ^ 64 - 2 ^ 39 else 0 := by
    rw [BitVec.toNat_signExtend, hsign, BitVec.toNat_setWidth, hlow]
    simp only [decide_eq_true_eq]
    omega
  rw [Canonical, ← BitVec.toNat_inj, hextend, hwidth]
  split_ifs <;> omega

section Header

variable {ts : List Table} {t : Table} {image : Nat → Byte} {elfLen : Nat} {input : List Byte}
  {k k₁ k₂ k₃ k₄ k₅ k' : Kernel}

/-- The ranges bound after the header page lie below it. -/
theorem UserBuilt.header_kept (h : UserBuilt ts t.root image elfLen input k k₁ k₂ k₃ k₄ k₅ k') (ht : t ∈ ts)
    (hlen : input.length ≤ judgeTftpBuffSize) {o : Nat} (ho : o < 4096) :
    userView k'.mem t.root (elfHeaderVa + o) = userView k₁.mem t.root (elfHeaderVa + o) := by
  obtain ⟨hstdin, hstdout, hstack⟩ := ranges_eq hlen
  have hheader : elfHeaderVa = 0x3FFFFFF000 := by decide
  unfold judgeTftpBuffSize at hlen
  have hx : elfHeaderVa + o < 2 ^ 39 := by omega
  have hnot : ∀ va len, va + len ≤ 0x3FFFFFF000 → ¬ Touches va len (elfHeaderVa + o) := by
    intro va len hle htouch
    unfold Touches at htouch
    omega
  have hin₁ := hnot (stdinVa input.length) input.length (by omega)
  have hin₂ := hnot (stdoutVa input.length) stdoutLimit (by unfold stdoutLimit; omega)
  have hin₃ := hnot (stackLimit input.length) stackSize (by unfold stackSize; omega)
  have hin₄ := hnot heapVa heapSize (by decide)
  rw [h.words _ hx hin₃, h.heap.outside ht hx hin₄, h.stack.outside ht hx hin₃,
    h.stdout.outside ht hx hin₂, h.stdin.outside ht hx hin₁]

/-- An entry for the header page grants reading as its first segment does, and reading if it is new. -/
theorem header_flags {root : Nat} {m : Mem} (hflags : FlagsUpTo image (elfHeader image).ePhnum root m)
    {o : Nat} (ho : o < 4096) (a : Nat) :
    (userPte m root (elfHeaderVa + o)).getD (makePte 0 a (vmU ||| vmR ||| vmA)) &&& pteU ≠ 0 ∧
      ((userPte m root (elfHeaderVa + o)).getD (makePte 0 a (vmU ||| vmR ||| vmA)) &&& pteR ≠ 0 ↔
        ∀ j, FirstOn image (elfHeader image).ePhnum elfHeaderVa j → (elfPhdr image j).pFlags &&& pfR ≠ 0) := by
  have hheader : elfHeaderVa = 0x3FFFFFF000 := by decide
  have hx : elfHeaderVa + o < 2 ^ 39 := by omega
  have htouch : ∀ va len, Touches va len (elfHeaderVa + o) ↔ Touches va len elfHeaderVa := by
    intro va len
    unfold Touches
    omega
  have hfirst : ∀ j, FirstOn image (elfHeader image).ePhnum (elfHeaderVa + o) j ↔
      FirstOn image (elfHeader image).ePhnum elfHeaderVa j := by
    intro j
    constructor
    · intro h
      exact ⟨h.load, (htouch _ _).mp h.on, fun i hi hl hon => h.first i hi hl ((htouch _ _).mpr hon)⟩
    · intro h
      exact ⟨h.load, (htouch _ _).mpr h.on, fun i hi hl hon => h.first i hi hl ((htouch _ _).mp hon)⟩
  by_cases hon : ∃ i, IsLoad image (elfHeader image).ePhnum i ∧
      Touches (elfPhdr image i).pVaddr (elfPhdr image i).pMemsz (elfHeaderVa + o)
  · obtain ⟨i, hi, hon⟩ := hon
    obtain ⟨j, hj⟩ := exists_firstOn hi hon
    obtain ⟨b, hb⟩ := hflags.bound _ hx j hj
    obtain ⟨huser, hread, _⟩ := permissionFlags_and (decide ((elfPhdr image j).pFlags &&& pfR ≠ 0))
      (decide ((elfPhdr image j).pFlags &&& pfW ≠ 0)) (decide ((elfPhdr image j).pFlags &&& pfX ≠ 0))
    rw [hb, Option.getD_some, makePte_segmentFlags b _ (by decide), makePte_segmentFlags b _ (by decide),
      hread, decide_eq_true_iff]
    refine ⟨huser, fun hr i hfi => ?_, fun hall => hall j ((hfirst j).mp hj)⟩
    obtain rfl := ((hfirst i).mpr hfi).unique hj
    exact hr
  · have hnone := hflags.free _ hx fun i hi hi' => hon ⟨i, hi, hi'⟩
    rw [hnone, Option.getD_none, makePte_and 0 a _ (by decide), makePte_and 0 a _ (by decide)]
    refine ⟨by decide, fun _ j hj => ?_, fun _ => by decide⟩
    exact absurd ⟨j, hj.load, ((hfirst j).mpr hj).on⟩ hon

/-- A byte of the first page of the file, as the program sees it. -/
theorem UserBuilt.header_view (h : UserBuilt ts t.root image elfLen input k k₁ k₂ k₃ k₄ k₅ k') (ht : t ∈ ts)
    (hlen : input.length ≤ judgeTftpBuffSize)
    (hflags : FlagsUpTo image (elfHeader image).ePhnum t.root k.mem) {o : Nat} (ho : o < 4096)
    (hfile : o < elfLen) :
    ∃ e, userView k'.mem t.root (elfHeaderVa + o) = some (e, image o) ∧ e &&& pteU ≠ 0 ∧
      (e &&& pteR ≠ 0 ↔ ∀ j, FirstOn image (elfHeader image).ePhnum elfHeaderVa j →
        (elfPhdr image j).pFlags &&& pfR ≠ 0) := by
  have hheader : elfHeaderVa = 0x3FFFFFF000 := by decide
  have hx : elfHeaderVa + o < 2 ^ 39 := by omega
  have hin : o < if elfLen < pgSize then elfLen else pgSize := by
    simp only [pgSize]
    split_ifs <;> omega
  obtain ⟨pages, hcopy⟩ := h.header
  have htouch : Touches elfHeaderVa (if elfLen < pgSize then elfLen else pgSize) (elfHeaderVa + o) := by
    unfold Touches
    omega
  have hold : ((userView k.mem t.root (elfHeaderVa + o)).getD
      (makePte 0 (pages ((elfHeaderVa + o) / 4096)) (vmU ||| vmR ||| vmA), 0)).1 =
      (userPte k.mem t.root (elfHeaderVa + o)).getD
        (makePte 0 (pages ((elfHeaderVa + o) / 4096)) (vmU ||| vmR ||| vmA)) := by
    unfold userPte
    cases userView k.mem t.root (elfHeaderVa + o) <;> rfl
  refine ⟨_, ?_, header_flags hflags ho (pages ((elfHeaderVa + o) / 4096))⟩
  rw [h.header_kept ht hlen ho, hcopy t.root _ ⟨t, ht, rfl⟩ hx, if_pos rfl, copiedAt, if_pos htouch]
  have hat : elfHeaderVa ≤ elfHeaderVa + o ∧
      elfHeaderVa + o < elfHeaderVa + (if elfLen < pgSize then elfLen else pgSize) := by omega
  simp only [hold, if_pos hat, Nat.add_sub_cancel_left, Option.getD_some]

theorem UserBuilt.phdr_iff (h : UserBuilt ts t.root image elfLen input k k₁ k₂ k₃ k₄ k₅ k') (ht : t ∈ ts)
    (hlen : input.length ≤ judgeTftpBuffSize) (hsize : elfLen ≤ judgeTftpBuffSize)
    (hflags : FlagsUpTo image (elfHeader image).ePhnum t.root k.mem) (htable : TableOk image elfLen) :
    PhdrTruthful image t.root k'.mem ↔ TableShown image := by
  obtain ⟨hsome, hent, hinside⟩ := htable
  have hheader : elfHeaderVa = 0x3FFFFFF000 := by decide
  unfold judgeTftpBuffSize at hsize
  have hva : phdrVa image = elfHeaderVa + (elfHeader image).ePhoff := by
    rw [phdrVa, parseElfPhdr, wrap64_of_lt (by simp only; omega), Nat.add_comm]
  unfold PhdrTruthful
  rw [hva]
  simp only [parseElfPhdr, hent]
  have hnat : ∀ o < 2 ^ 32, (BitVec.ofNat 64 (elfHeaderVa + o)).toNat = elfHeaderVa + o := by
    intro o ho
    rw [BitVec.toNat_ofNat]
    omega
  constructor
  · intro hall
    have hfits : (elfHeader image).ePhoff + 56 * (elfHeader image).ePhnum ≤ 4096 := by
      by_contra hover
      -- the first byte of the table that lies past the user space
      obtain ⟨hcanonical, _⟩ := hall (max 4096 (elfHeader image).ePhoff - (elfHeader image).ePhoff) (by omega)
      have hlow := (canonical_iff (by omega)).mp hcanonical
      omega
    refine ⟨hfits, ?_⟩
    obtain ⟨_, e, hview, _, hread⟩ := hall 0 (by omega)
    obtain ⟨e', hview', _, hiff⟩ := h.header_view ht hlen hflags
      (o := (elfHeader image).ePhoff) (by omega) (by omega)
    rw [Nat.add_zero, hnat _ (by omega), hview', Option.some.injEq, Prod.mk.injEq] at hview
    obtain ⟨rfl, _⟩ := hview
    exact hiff.mp hread
  · rintro ⟨hfits, hfirst⟩ j hj
    obtain ⟨e, hview, huser, hiff⟩ := h.header_view ht hlen hflags
      (o := (elfHeader image).ePhoff + j) (by omega) (by omega)
    rw [Nat.add_assoc]
    refine ⟨(canonical_iff (by omega)).mpr (by omega), e, ?_, huser, hiff.mpr hfirst⟩
    rw [hnat _ (by omega)]
    exact hview

end Header

/-! ## Every job -/

/-- The words at the stack pointer. -/
theorem UserStack.words {root stdinLen : Nat} {image : Nat → Byte} {u : UserEntry} {m : Mem}
    (h : UserStack root image stdinLen u m) (hlen : stdinLen ≤ judgeTftpBuffSize) :
    userBytes m root (u.x 2).toNat 104 = (wordBytes (stackWords image)).map some := by
  obtain ⟨_, hstdout, _⟩ := ranges_eq hlen
  obtain ⟨hargs, _, hsp⟩ := args_eq hlen
  unfold judgeTftpBuffSize at hlen
  obtain ⟨pg, hpage, _, hwords⟩ := h.set
  have hva : argsVa stdinLen / 4096 * 4096 + (4096 - 0x10 - 56 - 104) = (u.x 2).toNat := by
    rw [h.sp, hsp, hargs, hstdout, BitVec.toNat_ofNat]
    omega
  have hbytes := bytesAt_page (n := 104) hpage (show 4096 - 0x10 - 56 - 104 + 104 ≤ 4096 by decide)
  rw [hva] at hbytes
  exact hbytes.symm.trans (congrArg (List.map some) hwords)

/-- The program finds `AT_PHDR` among the words on its stack, and the header table there exactly
when the table ends in the first page of the file and the page that shows it is readable. -/
theorem doJudge_phdr_iff {mm : Mm} {bssEnd : Nat} (hmm : mm.Reachable bssEnd) {mem : Mem}
    {req : JudgeReq} {elf input : List Byte} {zerosLast : BitVec 64} {buff : Nat → Byte}
    {u : UserEntry} {k : Kernel} (hfile : elf.length ≤ judgeTftpBuffSize)
    (hlen : input.length ≤ judgeTftpBuffSize)
    (hrun : doJudge req (.file elf) (.file input) zerosLast buff ⟨mm, mem, []⟩ = (.ok u, k)) :
    ∃ root, u.pt = some root ∧
      userBytes k.mem root (u.x 2).toNat 104 = (wordBytes (stackWords (writeBytes buff 0 elf))).map some ∧
      (PhdrTruthful (writeBytes buff 0 elf) root k.mem ↔ TableShown (writeBytes buff 0 elf)) := by
  obtain ⟨root, hbuilt, hstack, hflags, _, _, _, _, _, huser⟩ := doJudge_parts hmm hlen hrun
  have ht : (⟨root, 0⟩ : Table) ∈ [(⟨root, 0⟩ : Table)] := List.mem_singleton.mpr rfl
  have htable := loadElf_table hbuilt.loaded
  exact ⟨root, hbuilt.pt, hstack.words hlen, UserBuilt.phdr_iff (t := ⟨root, 0⟩) huser ht hlen hfile hflags htable⟩

/-- The theorem at the small image. -/
theorem doJudge_phdr_iff_small : ∃ mm u k root,
    doJudge ⟨1, 1000, 0⟩ (.file (bytesAt smallElf 0 120)) (.file []) 0 (fun _ => 0)
      ⟨mm, fun _ => 0, []⟩ = (.ok u, k) ∧ u.pt = some root ∧
    (PhdrTruthful (writeBytes (fun _ => 0) 0 (bytesAt smallElf 0 120)) root k.mem ↔
      TableShown (writeBytes (fun _ => 0) 0 (bytesAt smallElf 0 120))) := by
  obtain ⟨mm, hmm, _, u, k, hrun⟩ := boot_reaches (bytesAt smallElf 0 120) (by decide +kernel)
  have hfile : (bytesAt smallElf 0 120).length ≤ judgeTftpBuffSize :=
    (bytesAt_length smallElf 0 120).trans_le (by decide)
  obtain ⟨root, hpt, _, hiff⟩ := doJudge_phdr_iff hmm hfile (show [].length ≤ judgeTftpBuffSize by decide) hrun
  exact ⟨mm, u, k, root, hrun, hpt, hiff⟩

/-- An image whose header table is at the start of its second page. -/
def farTableElf : Nat → Byte
  | 0 => 0x7f | 1 => 0x45 | 2 => 0x4c | 3 => 0x46
  | 16 => 2 | 33 => 0x10 | 54 => 56 | 56 => 1
  | 4096 => 1 | 4100 => 4 | 4114 => 1 | 4128 => 4 | 4136 => 4
  | _ => 0

/-- A header table in the second page of the file is not at `AT_PHDR`. -/
theorem doJudge_phdr_not_always :
    ¬ ∀ (mm : Mm) (bssEnd : Nat), mm.Reachable bssEnd → ∀ (mem : Mem) (req : JudgeReq)
      (elf input : List Byte) (zerosLast : BitVec 64) (buff : Nat → Byte) (u : UserEntry) (k : Kernel),
      elf.length ≤ judgeTftpBuffSize → input.length ≤ judgeTftpBuffSize →
      doJudge req (.file elf) (.file input) zerosLast buff ⟨mm, mem, []⟩ = (.ok u, k) →
      ∃ root, u.pt = some root ∧ PhdrTruthful (writeBytes buff 0 elf) root k.mem := by
  intro h
  have hfile : (bytesAt farTableElf 0 4152).length ≤ judgeTftpBuffSize :=
    (bytesAt_length farTableElf 0 4152).trans_le (by decide)
  have hlen : ([] : List Byte).length ≤ judgeTftpBuffSize := by decide
  obtain ⟨mm, hmm, _, u, k, hrun⟩ := boot_reaches (bytesAt farTableElf 0 4152) (by
    simp only [LoadsWithRoom, writeBytes_bytesAt, bytesAt_length]
    decide +kernel)
  obtain ⟨root, hbuilt, _, hflags, _, _, _, _, _, huser⟩ := doJudge_parts hmm hlen hrun
  obtain ⟨root', hpt, htruthful⟩ := h mm _ hmm _ _ _ [] _ _ u k hfile hlen hrun
  obtain rfl := Option.some.inj (hbuilt.pt.symm.trans hpt)
  have ht : (⟨root, 0⟩ : Table) ∈ [(⟨root, 0⟩ : Table)] := List.mem_singleton.mpr rfl
  have hshown := (UserBuilt.phdr_iff (t := ⟨root, 0⟩) huser ht hlen hfile hflags
    (loadElf_table hbuilt.loaded)).mp htruthful
  have hphoff : (elfHeader (writeBytes (fun _ => 0) 0 (bytesAt farTableElf 0 4152))).ePhoff = 4096 := by
    rw [writeBytes_bytesAt]
    decide +kernel
  have hphnum : (elfHeader (writeBytes (fun _ => 0) 0 (bytesAt farTableElf 0 4152))).ePhnum = 1 := by
    rw [writeBytes_bytesAt]
    decide +kernel
  have hfits := hshown.1
  rw [hphoff, hphnum] at hfits
  exact absurd hfits (by decide)

end VijosOS
