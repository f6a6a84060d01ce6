import VijosOS.Judge.LoaderSafety
import VijosOS.Judge.Permissions
import VijosOS.Memory.FreePages
import VijosOS.Memory.TableFormat

/-!
# The address space of a started program

A run of `do_judge` that reaches user mode loaded every segment and then bound five ranges
of pages. What its table maps in the end follows from these steps.
-/

namespace VijosOS

open Library

/-! ## A run that succeeds -/

/-- Sequenced code that returned went through both parts. -/
theorem kernelM_bind_ok {α β : Type} {x : KernelM α} {f : α → KernelM β} {k k' : Kernel} {b : β}
    (h : (x >>= f) k = (.ok b, k')) : ∃ a k₁, x k = (.ok a, k₁) ∧ f a k₁ = (.ok b, k') := by
  rw [kernelM_bind] at h
  rcases hx : x k with ⟨r, k₁⟩
  rw [hx] at h
  cases r with
  | ok a => exact ⟨a, k₁, rfl, h⟩
  | error e => cases h

theorem check_ok {op : Kernel → Int × Kernel} {k k' : Kernel} {a : Unit}
    (h : check op k = (.ok a, k')) : ∃ ret, 0 ≤ ret ∧ op k = (ret, k') := by
  rcases hop : op k with ⟨ret, k₁⟩
  simp only [check, hop] at h
  by_cases hret : ret < 0
  · rw [if_pos hret] at h
    cases h
  · rw [if_neg hret] at h
    cases h
    exact ⟨ret, Int.not_lt.mp hret, rfl⟩

theorem checkOom_ok {op : Kernel → Bool × Kernel} {k k' : Kernel} {a : Unit}
    (h : checkOom op k = (.ok a, k')) : op k = (true, k') := by
  rcases hop : op k with ⟨ok, k₁⟩
  simp only [checkOom, hop] at h
  cases ok with
  | false => cases h
  | true =>
    cases h
    rfl

theorem setupStack_eq (pt : Option Nat) (va : Nat) (aux stackWord : List Nat) (k : Kernel) :
    setupStack pt va aux stackWord k =
      (.ok (), { (mapPage pt va (vmU ||| vmR ||| vmW) k).2 with
        mem := Library.writeBytes
          (Library.writeBytes (mapPage pt va (vmU ||| vmR ||| vmW) k).2.mem
            ((mapPage pt va (vmU ||| vmR ||| vmW) k).1.getD 0 + pgSize - 0x10 - 8 * aux.length)
            (wordBytes aux))
          ((mapPage pt va (vmU ||| vmR ||| vmW) k).1.getD 0 + pgSize - 0x10 - 8 * aux.length -
            8 * stackWord.length) (wordBytes stackWord) }) := by
  simp only [setupStack, kernelM_bind, pageOf, store]

/-- An image shorter than its header never loads. -/
theorem yields_loadImage (pt : Option Nat) (elf : Nat → Byte) (len : Nat) :
    Yields (fun _ => elf64EhdrSize ≤ len) (loadImage pt elf len) := by
  intro k entry h
  by_contra hshort
  have hfail : loadImage pt elf len k = (.error (-eOOB), k) := by
    simp only [loadImage, loadElf, if_pos (Nat.not_le.mp hshort)]
    rfl
  rw [hfail] at h
  cases h

/-- A copy to a null table fails unless it is empty. -/
theorem yields_copy (pt : Option Nat) (va : Nat) (flags : BitVec 64) (src : Nat → Byte) {len : Nat}
    (hlen : len ≠ 0) : Yields (fun _ => pt ≠ none) (check (mapAndCopy pt va flags src len)) := by
  intro k a h
  rintro rfl
  have hneg : -eOOM < 0 := by decide
  simp only [check, mapAndCopy_null, if_neg hlen, if_pos hneg] at h
  cases h

/-- The program starts on the table it was built in, which is not null. -/
theorem yields_buildUser (req : JudgeReq) (elf : List Byte) (stdin : Download)
    (zerosLast : BitVec 64) (buff : Nat → Byte) (pt : Option Nat) :
    Yields (fun u => u.pt = pt ∧ pt ≠ none) (buildUser req elf stdin zerosLast buff pt) := by
  unfold buildUser
  dsimp only
  refine Yields.bind (fun _ => elf64EhdrSize ≤ elf.length) (yields_loadImage _ _ _) ?_
  intro _ hlen
  refine Yields.bind (fun _ => pt ≠ none) (yields_copy _ _ _ _ ?_) ?_
  · unfold elf64EhdrSize at hlen
    simp only [pgSize]
    split_ifs <;> omega
  intro _ hne
  refine Yields.after fun _ => Yields.after fun _ => Yields.after fun _ => ?_
  refine Yields.after fun _ => Yields.after fun _ => Yields.after fun _ => ?_
  exact yields_pure ⟨rfl, hne⟩

theorem mapAndCopy_retCode (pt : Option Nat) (va : Nat) (flags : BitVec 64) (src : Nat → Byte) (len : Nat)
    (k : Kernel) : RetCode (mapAndCopy pt va flags src len k).1 := by
  unfold mapAndCopy
  dsimp only
  split_ifs
  · exact (by decide : RetCode 0)
  · split
    · exact (by decide : RetCode (-eOOM))
    · split
      · exact (by decide : RetCode (-eOOM))
      · split
        · exact (by decide : RetCode (-eOOM))
        · exact (by decide : RetCode 0)

theorem mapSegment_retCode (pt : Option Nat) (elf : Nat → Byte) (ph : Elf64Phdr) (k : Kernel) :
    RetCode (mapSegment pt elf ph k).1 := by
  rw [mapSegment]
  have hcopy := mapAndCopy_retCode pt ph.pVaddr (segmentFlags ph.pFlags) (fun i => elf (ph.pOffset + i))
    ph.pFilesz k
  generalize mapAndCopy pt _ _ _ _ k = copy at hcopy
  rcases copy with ⟨ret, k₁⟩
  dsimp only
  split_ifs with hneg hgap
  · exact hcopy
  · generalize mapRange pt _ _ _ k₁ = bss
    rcases bss with ⟨ok, k₂⟩
    cases ok with
    | false => exact (by decide : RetCode (-eOOM))
    | true => exact (by decide : RetCode 0)
  · exact (by decide : RetCode 0)

theorem loadSegment_retCode (pt : Option Nat) (elf : Nat → Byte) (len : Nat) (ph : Elf64Phdr)
    (k : Kernel) : RetCode (loadSegment pt elf len ph k).1 := by
  rw [loadSegment]
  split_ifs
  · exact (by decide : RetCode 0)
  · exact (by decide : RetCode (-eOOB))
  · exact (by decide : RetCode (-eBADPKT))
  · exact mapSegment_retCode pt elf ph k
  · exact (by decide : RetCode (-eOOB))

/-- `load_elf` returns 0 or a negative error. -/
theorem loadSegments_retCode (pt : Option Nat) (elf : Nat → Byte) (len i n : Nat) (k : Kernel) :
    RetCode (loadSegments pt elf len i n k).1 := by
  induction n generalizing i k with
  | zero => exact (by decide : RetCode 0)
  | succ n ih =>
    have hseg := loadSegment_retCode pt elf len (elfPhdr elf i) k
    rw [loadSegments]
    generalize loadSegment pt elf len (elfPhdr elf i) k = seg at hseg
    rcases seg with ⟨ret, k₁⟩
    dsimp only at hseg ⊢
    split_ifs
    · exact hseg
    · exact ih _ _

theorem loadElf_retCode (pt : Option Nat) (elf : Nat → Byte) (len : Nat) (k : Kernel) :
    RetCode (loadElf pt elf len k).ret := by
  have hload := loadSegments_retCode pt elf len 0 (elfHeader elf).ePhnum k
  unfold loadElf
  dsimp only
  split_ifs
  · exact (by decide : RetCode (-eOOB))
  · exact (by decide : RetCode (-eBADPKT))
  · exact (by decide : RetCode (-eBADPKT))
  · exact (by decide : RetCode (-eBADPKT))
  · exact (by decide : RetCode (-eNOIMPL))
  · exact hload
  · exact (by decide : RetCode (-eOOB))

theorem loadImage_ok {pt : Option Nat} {elf : Nat → Byte} {len entry : Nat} {k k' : Kernel}
    (h : loadImage pt elf len k = (.ok entry, k')) :
    (loadElf pt elf len k).ret = 0 ∧ (loadElf pt elf len k).kernel = k' := by
  obtain ⟨_, hle⟩ := loadElf_retCode pt elf len k
  simp only [loadImage] at h
  by_cases hret : (loadElf pt elf len k).ret < 0
  · rw [if_pos hret] at h
    cases h
  · rw [if_neg hret] at h
    exact ⟨by omega, (Prod.mk.inj h).2⟩

theorem Bound.mapped {root : Nat} {page : Nat → Prop} {flags : BitVec 64} {k k' : Kernel}
    (h : Bound root page flags k k') {x : Nat} (hx : x < 2 ^ 39) :
    userPte k'.mem root x ≠ none ↔ page x ∨ userPte k.mem root x ≠ none := by
  by_cases hpage : page x
  · obtain ⟨a, ha⟩ := h.inside x hx hpage
    rw [ha]
    exact ⟨fun _ => Or.inl hpage, fun _ => Option.some_ne_none _⟩
  · rw [h.outside x hx hpage]
    exact ⟨Or.inr, fun hold => hold.resolve_left hpage⟩

/-! ## The steps of the loader -/

section Loader

variable {k k' : Kernel} {bssEnd : Nat} {ts : List Table} {t : Table}

theorem mapSegment_steps (h : VmInv k bssEnd ts) (ht : t ∈ ts) {elf : Nat → Byte} {ph : Elf64Phdr}
    {ret : Int} (hok : SegmentOk ph) (hrun : mapSegment (some t.root) elf ph k = (ret, k')) :
    VmSteps ts k k' := by
  have hsize := hok.size
  have htop := hok.high
  unfold userTop at htop
  rcases hcopy : mapAndCopy (some t.root) ph.pVaddr (segmentFlags ph.pFlags)
    (fun i => elf (ph.pOffset + i)) ph.pFilesz k with ⟨ret₁, k₁⟩
  have hsteps := mapAndCopy_steps h ht (by omega) hcopy
  simp only [mapSegment, hcopy] at hrun
  by_cases hret : ret₁ < 0
  · rw [if_pos hret] at hrun
    obtain rfl := (Prod.mk.inj hrun).2
    exact hsteps
  rw [if_neg hret] at hrun
  by_cases hbss : ph.pFilesz < ph.pMemsz
  · rw [if_pos hbss] at hrun
    rcases hmap : mapRange (some t.root) (segmentFlags ph.pFlags)
      (pgAlignFloor (wrap64 (ph.pVaddr + ph.pFilesz))) (pgAlign (wrap64 (ph.pVaddr + ph.pMemsz))) k₁
      with ⟨ok, k₂⟩
    have hall := hsteps.trans (mapPagesFrom_steps (VmSteps.inv hsteps h) ht hmap)
    simp only [hmap] at hrun
    cases ok with
    | false =>
      obtain rfl := (Prod.mk.inj hrun).2
      exact hall
    | true =>
      obtain rfl := (Prod.mk.inj hrun).2
      exact hall
  · rw [if_neg hbss] at hrun
    obtain rfl := (Prod.mk.inj hrun).2
    exact hsteps

theorem loadSegments_steps (h : VmInv k bssEnd ts) (ht : t ∈ ts) {elf : Nat → Byte} {len i n : Nat}
    {ret : Int} (hrun : loadSegments (some t.root) elf len i n k = (ret, k')) : VmSteps ts k k' := by
  induction n generalizing i k with
  | zero =>
    obtain rfl := (Prod.mk.inj hrun).2
    exact .refl
  | succ n ih =>
    rcases hseg : loadSegment (some t.root) elf len (elfPhdr elf i) k with ⟨ret₁, k₁⟩
    have hsteps : VmSteps ts k k₁ := by
      by_cases hload : (elfPhdr elf i).pType = ptLoad
      · rcases loadSegment_cases hload hseg with ⟨_, rfl⟩ | ⟨hok, hmap⟩
        · exact .refl
        · exact mapSegment_steps h ht hok hmap
      · rw [loadSegment, if_pos hload] at hseg
        obtain rfl := (Prod.mk.inj hseg).2
        exact .refl
    simp only [loadSegments, hseg] at hrun
    by_cases hret : ret₁ ≠ 0
    · rw [if_pos hret] at hrun
      obtain rfl := (Prod.mk.inj hrun).2
      exact hsteps
    · rw [if_neg hret] at hrun
      exact hsteps.trans (ih (VmSteps.inv hsteps h) hrun)

theorem loadElf_steps (h : VmInv k bssEnd ts) (ht : t ∈ ts) (elf : Nat → Byte) (len : Nat) :
    VmSteps ts k (loadElf (some t.root) elf len k).kernel := by
  rcases loadElf_kernel (some t.root) elf len k with hsame | hload
  · rw [hsame]
  · rw [hload]
    exact loadSegments_steps h ht rfl

end Loader

/-! ## The ranges -/

def stdinVa (stdinLen : Nat) : Nat := sub64 elfHeaderVa (pgAlign stdinLen)
def stdoutVa (stdinLen : Nat) : Nat := sub64 (stdinVa stdinLen) stdoutLimit
def stackLimit (stdinLen : Nat) : Nat := sub64 (stdoutVa stdinLen) stackSize

/-- The ranges lie one below the other from the top of the user space. -/
theorem ranges_eq {stdinLen : Nat} (hlen : stdinLen ≤ judgeTftpBuffSize) :
    stdinVa stdinLen = 0x3FFFFFF000 - (stdinLen + 4095) / 4096 * 4096 ∧
      stdoutVa stdinLen = 0x3FFFFEF000 - (stdinLen + 4095) / 4096 * 4096 ∧
      stackLimit stdinLen = 0x3FFFBEF000 - (stdinLen + 4095) / 4096 * 4096 := by
  unfold judgeTftpBuffSize at hlen
  have hheader : elfHeaderVa = 0x3FFFFFF000 := by decide
  have hstdin : stdinVa stdinLen = 0x3FFFFFF000 - (stdinLen + 4095) / 4096 * 4096 := by
    rw [stdinVa, hheader, pgAlign_eq (by omega), sub64_of_le (by omega) (by omega)]
  have hstdout : stdoutVa stdinLen = 0x3FFFFEF000 - (stdinLen + 4095) / 4096 * 4096 := by
    rw [stdoutVa, hstdin, sub64_of_le (by omega) (by unfold stdoutLimit; omega)]
    unfold stdoutLimit
    omega
  refine ⟨hstdin, hstdout, ?_⟩
  rw [stackLimit, hstdout, sub64_of_le (by omega) (by unfold stackSize; omega)]
  unfold stackSize
  omega

/-- The ranges are page-aligned, inside the user space, and the stack ends where the output starts. -/
structure RangesFit (stdinLen : Nat) : Prop where
  stdin : stdinVa stdinLen + stdinLen ≤ 2 ^ 39
  stdoutAligned : stdoutVa stdinLen % 4096 = 0
  stdout : stdoutVa stdinLen + stdoutLimit ≤ 2 ^ 39
  stackAligned : stackLimit stdinLen % 4096 = 0
  stack : stackLimit stdinLen + stackSize ≤ 2 ^ 39
  stackEnd : stdoutVa stdinLen = wrap64 (stackLimit stdinLen + stackSize)

theorem rangesFit {stdinLen : Nat} (hlen : stdinLen ≤ judgeTftpBuffSize) : RangesFit stdinLen := by
  obtain ⟨hstdin, hstdout, hstack⟩ := ranges_eq hlen
  unfold judgeTftpBuffSize at hlen
  have hend : wrap64 (stackLimit stdinLen + stackSize) = stackLimit stdinLen + stackSize := by
    rw [hstack]
    apply wrap64_of_lt
    unfold stackSize
    omega
  constructor
  · rw [hstdin]
    omega
  · rw [hstdout]
    omega
  · rw [hstdout]
    unfold stdoutLimit
    omega
  · rw [hstack]
    omega
  · rw [hstack]
    unfold stackSize
    omega
  · rw [hend, hstdout, hstack]
    unfold stackSize
    omega

/-- A loop over the pages of an aligned range binds exactly that range. -/
theorem mapRange_copied {k k' : Kernel} {bssEnd : Nat} {ts : List Table} {t : Table}
    {flags : BitVec 64} (h : VmInv k bssEnd ts) (ht : t ∈ ts) {lo size : Nat} (hlo : lo % 4096 = 0)
    (hsize : size % 4096 = 0) (htop : lo + size ≤ 2 ^ 39)
    (hrun : mapRange (some t.root) flags lo (wrap64 (lo + size)) k = (true, k')) :
    VmSteps ts k k' ∧ Copied ts t.root lo flags (fun _ => none) size k k' := by
  have hcount : pageCount lo (wrap64 (lo + size)) = size / 4096 := by
    rw [wrap64_of_lt (by omega)]
    simp only [pageCount, pgSize]
    omega
  rw [mapRange, hcount] at hrun
  obtain ⟨_, m, _, hcopy, hall⟩ := mapPagesFrom_spec h ht hlo (by omega) hrun
  obtain rfl := hall rfl
  have hexact : size / 4096 * 4096 = size := by omega
  rw [hexact] at hcopy
  exact ⟨mapPagesFrom_steps h ht hrun, hcopy⟩

theorem headerCopy_fits (elfLen : Nat) :
    elfHeaderVa + (if elfLen < pgSize then elfLen else pgSize) ≤ 2 ^ 39 := by
  have hva : elfHeaderVa = 0x3FFFFFF000 := by decide
  rw [hva]
  simp only [pgSize]
  split_ifs <;> omega

theorem mapAndCopy_copied {k k' : Kernel} {bssEnd : Nat} {ts : List Table} {t : Table}
    {flags : BitVec 64} {src : Nat → Byte} {ret : Int} (h : VmInv k bssEnd ts) (ht : t ∈ ts)
    {va len : Nat} (htop : va + len ≤ 2 ^ 39) (hret : 0 ≤ ret)
    (hrun : mapAndCopy (some t.root) va flags src len k = (ret, k')) :
    VmSteps ts k k' ∧ Copied ts t.root va flags (fun i => some (src i)) len k k' := by
  obtain ⟨_, n, _, hcopy, hdone⟩ := mapAndCopy_spec h ht htop hrun
  rcases hdone with ⟨_, rfl⟩ | rfl
  · exact ⟨mapAndCopy_steps h ht htop hrun, hcopy⟩
  · exact absurd hret (by decide)

/-- Bytes written inside a mapped page are one step, which binds nothing and changes no other page. -/
theorem writeBytes_page {k : Kernel} {bssEnd : Nat} {ts : List Table} {t : Table} {va pg : Nat}
    (h : VmInv k bssEnd ts) (ht : t ∈ ts) (off : Nat) (bs : List Byte)
    (hleaf : follow (tableSucc k.mem) t.root [ptIdx 2 va, ptIdx 1 va, ptIdx 0 va] = some pg)
    (hfit : off + bs.length ≤ 4096) :
    VmStep ts k { k with mem := writeBytes k.mem (pg + off) bs } ∧
      follow (tableSucc (writeBytes k.mem (pg + off) bs)) t.root [ptIdx 2 va, ptIdx 1 va, ptIdx 0 va] =
        some pg ∧
      (∀ x, userPte (writeBytes k.mem (pg + off) bs) t.root x = userPte k.mem t.root x) ∧
      ∀ x, ¬ SamePage x va →
        userView (writeBytes k.mem (pg + off) bs) t.root x = userView k.mem t.root x := by
  have hroot : Roots ts t.root := ⟨t, ht, rfl⟩
  have haligned := h.kernel.aligned pg (h.handed hroot (by simp) hleaf)
  have hout : ∀ x, x / 4096 ≠ pg / 4096 → writeBytes k.mem (pg + off) bs x = k.mem x :=
    fun x hx => writeBytes_outside _ _ _ (by omega)
  have hview := fun x => write_leaf_view h ht (fun i => bs.getD i 0) hleaf hfit hroot x
  refine ⟨.write hroot rfl hleaf hout, ?_, ?_, ?_⟩
  · rw [follow_of_agree (d := 3) hroot (by simp) (h.leaf_tables hroot rfl hleaf hout)]
    exact hleaf
  · intro x
    show ((userView (copyTo k.mem (pg + off) bs.length fun i => bs.getD i 0) t.root x).map Prod.fst) = _
    rw [hview x, userPte]
    split_ifs
    · rw [Option.map_map]
      rfl
    · rfl
  · intro x hx
    exact (hview x).trans (if_neg fun h => hx h.2)

/-- The page of `va` ends in 16 free bytes, with the `aux_t` below them and `stack_word` below that. -/
def StackSet (root va : Nat) (aux stackWord : List Nat) (m : Mem) : Prop :=
  ∃ pg, follow (tableSucc m) root [ptIdx 2 va, ptIdx 1 va, ptIdx 0 va] = some pg ∧
    bytesAt m (pg + (4096 - 0x10 - 8 * aux.length)) (8 * aux.length) = wordBytes aux ∧
    bytesAt m (pg + (4096 - 0x10 - 8 * aux.length - 8 * stackWord.length)) (8 * stackWord.length) =
      wordBytes stackWord

/-- The stack words go to the last page of the stack: no page is bound or rebound, and no byte
of another page changes. -/
theorem setupStack_views {k k' : Kernel} {bssEnd : Nat} {ts : List Table} {t : Table} {va : Nat}
    {aux stackWord : List Nat} {a : Unit} (h : VmInv k bssEnd ts) (ht : t ∈ ts)
    (hsize : 0x10 + 8 * aux.length + 8 * stackWord.length ≤ 4096)
    (hmapped : userView k.mem t.root va ≠ none)
    (hrun : setupStack (some t.root) va aux stackWord k = (.ok a, k')) :
    VmSteps ts k k' ∧ StackSet t.root va aux stackWord k'.mem ∧
      (∀ x, userPte k'.mem t.root x = userPte k.mem t.root x) ∧
      ∀ x, ¬ SamePage x va → userView k'.mem t.root x = userView k.mem t.root x := by
  obtain ⟨pg, hmap, hleaf⟩ := mapPage_mapped (vmU ||| vmR ||| vmW) hmapped
  have haux := wordBytes_length aux
  have hword := wordBytes_length stackWord
  rw [setupStack_eq, hmap] at hrun
  obtain rfl := (Prod.mk.inj hrun).2
  have hat : pg + pgSize - 0x10 - 8 * aux.length = pg + (4096 - 0x10 - 8 * aux.length) := by
    simp only [pgSize]
    omega
  have hat' : pg + (4096 - 0x10 - 8 * aux.length) - 8 * stackWord.length =
      pg + (4096 - 0x10 - 8 * aux.length - 8 * stackWord.length) := by
    omega
  simp only [Option.getD_some, hat, hat']
  obtain ⟨hstep₁, hleaf₁, hpte₁, hview₁⟩ := writeBytes_page h ht (4096 - 0x10 - 8 * aux.length)
    (wordBytes aux) hleaf (by omega)
  obtain ⟨hstep₂, hleaf₂, hpte₂, hview₂⟩ := writeBytes_page (hstep₁.inv h) ht
    (4096 - 0x10 - 8 * aux.length - 8 * stackWord.length) (wordBytes stackWord) hleaf₁ (by omega)
  refine ⟨.tail (.single hstep₁) hstep₂, ⟨pg, hleaf₂, ?_, ?_⟩, fun x => (hpte₂ x).trans (hpte₁ x),
    fun x hx => (hview₂ x hx).trans (hview₁ x hx)⟩
  · rw [bytesAt_writeBytes_disjoint _ _ _ _ _ (by omega), ← haux]
    exact bytesAt_writeBytes _ _ _
  · rw [← hword]
    exact bytesAt_writeBytes _ _ _

/-- The steps after the image was loaded: the kernel after each of the five ranges, and after
the stack words. -/
structure UserBuilt (ts : List Table) (root : Nat) (image : Nat → Byte) (elfLen : Nat)
    (input : List Byte) (k k₁ k₂ k₃ k₄ k₅ k' : Kernel) : Prop where
  header : Copied ts root elfHeaderVa (vmU ||| vmR ||| vmA) (fun i => some (image i))
    (if elfLen < pgSize then elfLen else pgSize) k k₁
  stdin : Copied ts root (stdinVa input.length) (vmU ||| vmR ||| vmA)
    (fun i => some (writeBytes image 0 input i)) input.length k₁ k₂
  stdout : Copied ts root (stdoutVa input.length) (vmU ||| vmR ||| vmW) (fun _ => none)
    stdoutLimit k₂ k₃
  stack : Copied ts root (stackLimit input.length) (vmU ||| vmR ||| vmW) (fun _ => none)
    stackSize k₃ k₄
  heap : Copied ts root heapVa (vmU ||| vmR ||| vmW) (fun _ => none) heapSize k₄ k₅
  entries : ∀ x, userPte k'.mem root x = userPte k₅.mem root x
  words : ∀ x < 2 ^ 39, ¬ Touches (stackLimit input.length) stackSize x →
    userView k'.mem root x = userView k₅.mem root x

/-- `stack_va` when `map_page` finds the page of the arguments, and the address of `aux`. -/
def argsVa (stdinLen : Nat) : Nat := sub64 (stdoutVa stdinLen) 0x10
def auxVa (stdinLen : Nat) : Nat := sub64 (argsVa stdinLen) 56

/-- The fields of `aux` before the program runs. -/
def auxWords (stdinLen : Nat) : List Nat :=
  [stdinVa stdinLen, stdinLen, stdoutVa stdinLen, stdoutLimit, 0, heapVa, wrap64 (heapVa + heapSize)]

/-- The value of `AT_PHDR`. -/
def phdrVa (image : Nat → Byte) : Nat := wrap64 ((parseElfPhdr image).1 + elfHeaderVa)

def stackWords (image : Nat → Byte) : List Nat :=
  [0, 0, 0, atPhdr, phdrVa image, atPhent, (parseElfPhdr image).2.1, atPhnum, (parseElfPhdr image).2.2,
    atPagesz, pgSize, 0, 0]

/-- The stack a program starts on. -/
structure UserStack (root : Nat) (image : Nat → Byte) (stdinLen : Nat) (u : UserEntry) (m : Mem) :
    Prop where
  sp : u.x 2 = BitVec.ofNat 64 (sub64 (auxVa stdinLen) 104)
  set : StackSet root (argsVa stdinLen) (auxWords stdinLen) (stackWords image) m

/-- The arguments, `aux` and the stack pointer are in the last page of the stack. -/
theorem args_eq {stdinLen : Nat} (hlen : stdinLen ≤ judgeTftpBuffSize) :
    argsVa stdinLen = stdoutVa stdinLen - 16 ∧ auxVa stdinLen = stdoutVa stdinLen - 72 ∧
      sub64 (auxVa stdinLen) 104 = stdoutVa stdinLen - 176 := by
  obtain ⟨_, hstdout, _⟩ := ranges_eq hlen
  unfold judgeTftpBuffSize at hlen
  have hargs : argsVa stdinLen = stdoutVa stdinLen - 16 := by
    rw [argsVa, hstdout, sub64_of_le (by omega) (by omega)]
  have haux : auxVa stdinLen = stdoutVa stdinLen - 72 := by
    rw [auxVa, hargs, hstdout, sub64_of_le (by omega) (by omega)]
    omega
  refine ⟨hargs, haux, ?_⟩
  rw [haux, hstdout, sub64_of_le (by omega) (by omega)]
  omega

theorem buildUser_built {k k' : Kernel} {bssEnd : Nat} {ts : List Table} {t : Table} {req : JudgeReq}
    {elf input : List Byte} {zerosLast : BitVec 64} {buff : Nat → Byte} {u : UserEntry}
    (h : VmInv k bssEnd ts) (ht : t ∈ ts) (hlen : input.length ≤ judgeTftpBuffSize)
    (hrun : buildUser req elf (.file input) zerosLast buff (some t.root) k = (.ok u, k')) :
    (loadElf (some t.root) (writeBytes buff 0 elf) elf.length k).ret = 0 ∧ VmSteps ts k k' ∧
      UserStack t.root (writeBytes buff 0 elf) input.length u k'.mem ∧
      ∃ k₁ k₂ k₃ k₄ k₅, UserBuilt ts t.root (writeBytes buff 0 elf) elf.length input
        (loadElf (some t.root) (writeBytes buff 0 elf) elf.length k).kernel k₁ k₂ k₃ k₄ k₅ k' := by
  have hfit := rangesFit hlen
  unfold buildUser at hrun
  dsimp only at hrun
  obtain ⟨entry, k₀, hload, hrun⟩ := kernelM_bind_ok hrun
  obtain ⟨hret, rfl⟩ := loadImage_ok hload
  have hs₀ := loadElf_steps h ht (writeBytes buff 0 elf) elf.length
  refine ⟨hret, ?_⟩
  generalize (loadElf (some t.root) (writeBytes buff 0 elf) elf.length k).kernel = k₀ at *
  have h₀ := VmSteps.inv hs₀ h
  obtain ⟨_, k₁, hheader, hrun⟩ := kernelM_bind_ok hrun
  obtain ⟨_, hnonneg, hheader⟩ := check_ok hheader
  obtain ⟨hs₁, hheader⟩ := mapAndCopy_copied h₀ ht (headerCopy_fits _) hnonneg hheader
  have h₁ := VmSteps.inv hs₁ h₀
  obtain ⟨_, k₂, hget, hrun⟩ := kernelM_bind_ok hrun
  obtain ⟨hinput, rfl⟩ := Prod.mk.inj hget
  obtain rfl := Except.ok.inj hinput
  obtain ⟨_, k₂, hcopy, hrun⟩ := kernelM_bind_ok hrun
  obtain ⟨_, hnonneg, hcopy⟩ := check_ok hcopy
  obtain ⟨hs₂, hcopy⟩ := mapAndCopy_copied h₁ ht hfit.stdin hnonneg hcopy
  have h₂ := VmSteps.inv hs₂ h₁
  obtain ⟨_, k₃, hout, hrun⟩ := kernelM_bind_ok hrun
  obtain ⟨hs₃, hout⟩ := mapRange_copied h₂ ht hfit.stdoutAligned (by decide) hfit.stdout (checkOom_ok hout)
  have h₃ := VmSteps.inv hs₃ h₂
  obtain ⟨_, k₄, hst, hrun⟩ := kernelM_bind_ok hrun
  obtain ⟨hs₄, hst⟩ := mapRange_copied h₃ ht hfit.stackAligned (by decide : stackSize % 4096 = 0) hfit.stack
    (by rw [← hfit.stackEnd]; exact checkOom_ok hst)
  have h₄ := VmSteps.inv hs₄ h₃
  obtain ⟨_, k₅, hheap, hrun⟩ := kernelM_bind_ok hrun
  obtain ⟨hs₅, hheap⟩ := mapRange_copied h₄ ht (by decide) (by decide) (by decide) (checkOom_ok hheap)
  have h₅ := VmSteps.inv hs₅ h₄
  obtain ⟨_, k₆, hsetup, hrun⟩ := kernelM_bind_ok hrun
  obtain ⟨hu, rfl⟩ := Prod.mk.inj hrun
  obtain ⟨htop, _, _⟩ := args_eq hlen
  obtain ⟨_, hstdout, hstack⟩ := ranges_eq hlen
  unfold judgeTftpBuffSize at hlen
  have hva : argsVa input.length < 2 ^ 39 := by
    rw [htop, hstdout]
    omega
  have hin : Touches (stackLimit input.length) stackSize (argsVa input.length) := by
    rw [htop, hstack, hstdout]
    unfold Touches stackSize
    omega
  have hmapped : userPte k₅.mem t.root (argsVa input.length) ≠ none :=
    ((hheap.bound ht).mapped hva).mpr (Or.inr (((hst.bound ht).mapped hva).mpr (Or.inl hin)))
  change setupStack (some t.root) (argsVa input.length) (auxWords input.length)
    (stackWords (writeBytes buff 0 elf)) k₅ = _ at hsetup
  obtain ⟨hs₆, hset, hentries, hwords⟩ := setupStack_views h₅ ht (by simp [auxWords, stackWords])
    (fun hnone => hmapped (by rw [userPte, hnone]; rfl)) hsetup
  have hsteps := hs₀.trans (hs₁.trans (hs₂.trans (hs₃.trans (hs₄.trans (hs₅.trans hs₆)))))
  refine ⟨hsteps, ⟨?_, hset⟩, k₁, k₂, k₃, k₄, k₅, hheader, hcopy, hout, hst, hheap, hentries,
    fun x hx hout => ?_⟩
  · obtain rfl := Except.ok.inj hu
    rfl
  refine hwords x fun hpage => hout ?_
  rw [htop, hstdout] at hpage
  rw [hstack]
  unfold SamePage at hpage
  unfold Touches stackSize
  omega

/-! ## Regions -/

/-- What `do_judge` puts in user memory. -/
inductive Region where
  | segments
  | heap
  | stack
  | stdout
  | stdin
  | header
  deriving DecidableEq

/-- The page of `x` belongs to the region, for an image and a number of input bytes. -/
def Region.Has (image : Nat → Byte) (stdinLen : Nat) : Region → Nat → Prop
  | .segments, x => ∃ i, IsLoad image (elfHeader image).ePhnum i ∧
      Touches (elfPhdr image i).pVaddr (elfPhdr image i).pMemsz x
  | .heap, x => Touches heapVa heapSize x
  | .stack, x => Touches (stackLimit stdinLen) stackSize x
  | .stdout, x => Touches (stdoutVa stdinLen) stdoutLimit x
  | .stdin, x => Touches (stdinVa stdinLen) stdinLen x
  | .header, x => Touches elfHeaderVa pgSize x

/-- The flags `do_judge` maps pages with. -/
def UserFlags (image : Nat → Byte) (flags : BitVec 64) : Prop :=
  (∃ i, IsLoad image (elfHeader image).ePhnum i ∧ flags = segmentFlags (elfPhdr image i).pFlags) ∨
    flags = vmU ||| vmR ||| vmA ∨ flags = vmU ||| vmR ||| vmW

/-- Exactly the pages of `page` are mapped, each by a new entry with some of the flags. -/
structure UserMap (root : Nat) (m : Mem) (page : Nat → Prop) (flags : BitVec 64 → Prop) : Prop where
  mapped : ∀ x < 2 ^ 39, userPte m root x ≠ none ↔ page x
  entry : ∀ x < 2 ^ 39, ∀ e, userPte m root x = some e → ∃ a f, flags f ∧ e = makePte 0 a f

theorem UserMap.bound {root : Nat} {k k' : Kernel} {page page' : Nat → Prop}
    {flags : BitVec 64 → Prop} {f : BitVec 64} (h : UserMap root k.mem page flags)
    (hbound : Bound root page' f k k') (hf : flags f) :
    UserMap root k'.mem (fun x => page' x ∨ page x) flags := by
  constructor
  · intro x hx
    rw [hbound.mapped hx, h.mapped x hx]
  · intro x hx e he
    by_cases hnew : page' x
    · obtain ⟨a, ha⟩ := hbound.inside x hx hnew
      rw [he, Option.some.injEq] at ha
      cases hold : userPte k.mem root x with
      | none => exact ⟨a, f, hf, by rw [ha, hold, Option.getD_none]⟩
      | some e' =>
        rw [hold, Option.getD_some] at ha
        exact ha ▸ h.entry x hx e' hold
    · rw [hbound.outside x hx hnew] at he
      exact h.entry x hx e he

theorem UserMap.congr {root : Nat} {m m' : Mem} {page page' : Nat → Prop} {flags : BitVec 64 → Prop}
    (h : UserMap root m page flags) (hpte : ∀ x, userPte m' root x = userPte m root x)
    (hpage : ∀ x, page x ↔ page' x) : UserMap root m' page' flags := by
  constructor
  · intro x hx
    rw [hpte x, h.mapped x hx, hpage x]
  · intro x hx e he
    exact h.entry x hx e (hpte x ▸ he)

/-- A loaded image maps its segments. -/
theorem FlagsUpTo.userMap {root : Nat} {m : Mem} {image : Nat → Byte} (stdinLen : Nat)
    (h : FlagsUpTo image (elfHeader image).ePhnum root m) :
    UserMap root m (Region.segments.Has image stdinLen) (UserFlags image) := by
  constructor
  · intro x hx
    constructor
    · intro hmapped
      by_contra hnone
      exact hmapped (h.free x hx fun i hi hon => hnone ⟨i, hi, hon⟩)
    · rintro ⟨i, hi, hon⟩
      obtain ⟨j, hfirst⟩ := exists_firstOn hi hon
      obtain ⟨a, ha⟩ := h.bound x hx j hfirst
      rw [ha]
      exact Option.some_ne_none _
  · intro x hx e he
    by_cases hon : ∃ i, IsLoad image (elfHeader image).ePhnum i ∧
        Touches (elfPhdr image i).pVaddr (elfPhdr image i).pMemsz x
    · obtain ⟨i, hi, hon⟩ := hon
      obtain ⟨j, hfirst⟩ := exists_firstOn hi hon
      obtain ⟨a, ha⟩ := h.bound x hx j hfirst
      exact ⟨a, _, Or.inl ⟨j, hfirst.load, rfl⟩, Option.some.inj (he.symm.trans ha)⟩
    · rw [h.free x hx fun i hi hi' => hon ⟨i, hi, hi'⟩] at he
      cases he

theorem Copied.outside {ts : List Table} {t : Table} {va len : Nat} {flags : BitVec 64}
    {src : Nat → Option Byte} {k k' : Kernel} (h : Copied ts t.root va flags src len k k') (ht : t ∈ ts)
    {x : Nat} (hx : x < 2 ^ 39) (hpage : ¬ Touches va len x) :
    userView k'.mem t.root x = userView k.mem t.root x := by
  obtain ⟨pages, hcopy⟩ := h
  rw [hcopy t.root x ⟨t, ht, rfl⟩ hx, if_pos rfl, copiedAt, if_neg hpage]

section Built

variable {ts : List Table} {t : Table} {image : Nat → Byte} {elfLen : Nat} {input : List Byte}
  {k k₁ k₂ k₃ k₄ k₅ k' : Kernel}

theorem UserBuilt.userMap (h : UserBuilt ts t.root image elfLen input k k₁ k₂ k₃ k₄ k₅ k') (ht : t ∈ ts)
    (hpos : 0 < elfLen)
    (hload : UserMap t.root k.mem (Region.segments.Has image input.length) (UserFlags image)) :
    UserMap t.root k'.mem (fun x => ∃ r : Region, r.Has image input.length x) (UserFlags image) := by
  have hread : UserFlags image (vmU ||| vmR ||| vmA) := Or.inr (Or.inl rfl)
  have hwrite : UserFlags image (vmU ||| vmR ||| vmW) := Or.inr (Or.inr rfl)
  have hall := ((((hload.bound (h.header.bound ht) hread).bound (h.stdin.bound ht) hread).bound
    (h.stdout.bound ht) hwrite).bound (h.stack.bound ht) hwrite).bound (h.heap.bound ht) hwrite
  refine hall.congr h.entries fun x => ?_
  have hheader : Touches elfHeaderVa (if elfLen < pgSize then elfLen else pgSize) x ↔
      Touches elfHeaderVa pgSize x := by
    have hva : elfHeaderVa = 0x3FFFFFF000 := by decide
    rw [hva]
    unfold Touches
    simp only [pgSize]
    split_ifs <;> omega
  constructor
  · rintro (hx | hx | hx | hx | hx | hx)
    · exact ⟨.heap, hx⟩
    · exact ⟨.stack, hx⟩
    · exact ⟨.stdout, hx⟩
    · exact ⟨.stdin, hx⟩
    · exact ⟨.header, hheader.mp hx⟩
    · exact ⟨.segments, hx⟩
  · rintro ⟨r, hx⟩
    cases r with
    | segments => exact Or.inr (Or.inr (Or.inr (Or.inr (Or.inr hx))))
    | heap => exact Or.inl hx
    | stack => exact Or.inr (Or.inl hx)
    | stdout => exact Or.inr (Or.inr (Or.inl hx))
    | stdin => exact Or.inr (Or.inr (Or.inr (Or.inl hx)))
    | header => exact Or.inr (Or.inr (Or.inr (Or.inr (Or.inl (hheader.mpr hx)))))

/-- Outside the five ranges memory stays as it was loaded. -/
theorem UserBuilt.kept (h : UserBuilt ts t.root image elfLen input k k₁ k₂ k₃ k₄ k₅ k') (ht : t ∈ ts)
    {x : Nat} (hx : x < 2 ^ 39)
    (hfree : ∀ r : Region, r ≠ .segments → ¬ r.Has image input.length x) :
    userView k'.mem t.root x = userView k.mem t.root x := by
  have hheader : ¬ Touches elfHeaderVa (if elfLen < pgSize then elfLen else pgSize) x := by
    intro htouch
    apply hfree .header nofun
    have hva : elfHeaderVa = 0x3FFFFFF000 := by decide
    unfold Region.Has
    rw [hva] at htouch ⊢
    unfold Touches at *
    simp only [pgSize] at *
    split_ifs at htouch <;> omega
  rw [h.words x hx (hfree .stack nofun), h.heap.outside ht hx (hfree .heap nofun),
    h.stack.outside ht hx (hfree .stack nofun), h.stdout.outside ht hx (hfree .stdout nofun),
    h.stdin.outside ht hx (hfree .stdin nofun), h.header.outside ht hx hheader]

end Built

/-- What a run of `do_judge` that reaches user mode in `u` and `k` has built. -/
structure JobBuilt (mm : Mm) (mem : Mem) (bssEnd : Nat) (image : Nat → Byte) (elfLen stdinLen : Nat)
    (u : UserEntry) (k : Kernel) (root : Nat) : Prop where
  pt : u.pt = some root
  create : (createPt ⟨mm, mem, []⟩).1 = some root
  loaded : (loadElf (some root) image elfLen (createPt ⟨mm, mem, []⟩).2).ret = 0
  start : VmInv (createPt ⟨mm, mem, []⟩).2 bssEnd [⟨root, 0⟩]
  steps : VmSteps [⟨root, 0⟩] (createPt ⟨mm, mem, []⟩).2 k
  map : UserMap root k.mem (fun x => ∃ r : Region, r.Has image stdinLen x) (UserFlags image)
  kept : ∀ x < 2 ^ 39, (∀ r : Region, r ≠ .segments → ¬ r.Has image stdinLen x) →
    userView k.mem root x =
      userView (loadElf (some root) image elfLen (createPt ⟨mm, mem, []⟩).2).kernel.mem root x

theorem doJudge_parts {mm : Mm} {bssEnd : Nat} (hmm : mm.Reachable bssEnd) {mem : Mem}
    {req : JudgeReq} {elf input : List Byte} {zerosLast : BitVec 64} {buff : Nat → Byte}
    {u : UserEntry} {k : Kernel} (hlen : input.length ≤ judgeTftpBuffSize)
    (hrun : doJudge req (.file elf) (.file input) zerosLast buff ⟨mm, mem, []⟩ = (.ok u, k)) :
    ∃ root, JobBuilt mm mem bssEnd (writeBytes buff 0 elf) elf.length input.length u k root ∧
      UserStack root (writeBytes buff 0 elf) input.length u k.mem ∧
      FlagsUpTo (writeBytes buff 0 elf) (elfHeader (writeBytes buff 0 elf)).ePhnum root
        (loadElf (some root) (writeBytes buff 0 elf) elf.length (createPt ⟨mm, mem, []⟩).2).kernel.mem ∧
      ∃ k₁ k₂ k₃ k₄ k₅, UserBuilt [⟨root, 0⟩] root (writeBytes buff 0 elf) elf.length input
        (loadElf (some root) (writeBytes buff 0 elf) elf.length (createPt ⟨mm, mem, []⟩).2).kernel
        k₁ k₂ k₃ k₄ k₅ k := by
  have hsplit : doJudge req (.file elf) (.file input) zerosLast buff ⟨mm, mem, []⟩ =
      buildUser req elf (.file input) zerosLast buff (createPt ⟨mm, mem, []⟩).1
        (createPt ⟨mm, mem, []⟩).2 := by
    rw [doJudge, kernelM_bind]
    exact kernelM_bind _ _ _
  rw [hsplit] at hrun
  obtain ⟨hpt, hne⟩ := yields_buildUser _ _ _ _ _ _ _ u (congrArg Prod.fst hrun)
  rcases createPt_spec (VmInv.start hmm.inv mem) with hfull | ⟨root, k₀, hcreate, _, h₀, hempty⟩
  · exact absurd (congrArg Prod.fst hfull) hne
  · have hroot : (createPt ⟨mm, mem, []⟩).1 = some root := congrArg Prod.fst hcreate
    obtain rfl : (createPt ⟨mm, mem, []⟩).2 = k₀ := congrArg Prod.snd hcreate
    rw [hroot] at hrun hpt
    have ht : (⟨root, 0⟩ : Table) ∈ [(⟨root, 0⟩ : Table)] := List.mem_singleton.mpr rfl
    obtain ⟨hret, hsteps, hstack, k₁, k₂, k₃, k₄, k₅, hbuilt⟩ := buildUser_built h₀ ht hlen hrun
    have hheader := loadElf_header hret
    unfold elf64EhdrSize at hheader
    have hflags := loadElf_flagsUpTo h₀ ht hempty hret
    have hmap := hbuilt.userMap ht (by omega) (hflags.userMap input.length)
    exact ⟨root, ⟨hpt, hroot, hret, h₀, hsteps, hmap, fun x hx hfree => hbuilt.kept ht hx hfree⟩,
      hstack, hflags, k₁, k₂, k₃, k₄, k₅, hbuilt⟩

theorem doJudge_built {mm : Mm} {bssEnd : Nat} (hmm : mm.Reachable bssEnd) {mem : Mem}
    {req : JudgeReq} {elf input : List Byte} {zerosLast : BitVec 64} {buff : Nat → Byte}
    {u : UserEntry} {k : Kernel} (hlen : input.length ≤ judgeTftpBuffSize)
    (hrun : doJudge req (.file elf) (.file input) zerosLast buff ⟨mm, mem, []⟩ = (.ok u, k)) :
    ∃ root, JobBuilt mm mem bssEnd (writeBytes buff 0 elf) elf.length input.length u k root := by
  obtain ⟨root, hbuilt, _⟩ := doJudge_parts hmm hlen hrun
  exact ⟨root, hbuilt⟩

/-! ## Runs that succeed -/

theorem kernelM_bind_of_ok {α β : Type} {x : KernelM α} {f : α → KernelM β} {k k₁ : Kernel} {a : α}
    (h : x k = (.ok a, k₁)) : (x >>= f) k = f a k₁ := by
  rw [kernelM_bind, h]

theorem mapRange_free {k : Kernel} {bssEnd : Nat} {ts : List Table} {t : Table} (flags : BitVec 64)
    (h : VmInv k bssEnd ts) (ht : t ∈ ts) {lo size n : Nat} (hlo : lo % 4096 = 0)
    (hsize : size = n * 4096) (htop : lo + size ≤ 2 ^ 39) (hfree : 3 * n ≤ k.free) :
    ∃ k', checkOom (mapRange (some t.root) flags lo (wrap64 (lo + size))) k = (.ok (), k') ∧
      VmInv k' bssEnd ts ∧ k.free ≤ k'.free + 3 * n := by
  have hcount : pageCount lo (wrap64 (lo + size)) = n := by
    rw [wrap64_of_lt (by omega)]
    simp only [pageCount, pgSize]
    omega
  obtain ⟨k', hrun, hleft⟩ := mapPagesFrom_free flags h ht lo hfree
  obtain ⟨h', _⟩ := mapPagesFrom_spec h ht hlo (by omega) hrun
  refine ⟨k', ?_, h', hleft⟩
  simp only [checkOom, mapRange, hcount, hrun]

theorem mapAndCopy_check {k : Kernel} {bssEnd : Nat} {ts : List Table} {t : Table} (flags : BitVec 64)
    (src : Nat → Byte) (h : VmInv k bssEnd ts) (ht : t ∈ ts) {va len : Nat} (htop : va + len ≤ 2 ^ 39)
    (hfree : 3 * (len / 4096 + 2) ≤ k.free) :
    ∃ k', check (mapAndCopy (some t.root) va flags src len) k = (.ok (), k') ∧
      VmInv k' bssEnd ts ∧ k.free ≤ k'.free + 3 * (len / 4096 + 2) := by
  obtain ⟨k', hrun, hleft⟩ := mapAndCopy_free flags h ht src htop hfree
  obtain ⟨h', _⟩ := mapAndCopy_spec h ht htop hrun
  refine ⟨k', ?_, h', hleft⟩
  simp only [check, hrun]
  rfl

/-- With pages for the five ranges left after the image was loaded, `do_judge` reaches user mode. -/
theorem buildUser_free {k : Kernel} {bssEnd : Nat} {ts : List Table} {t : Table}
    {elf input : List Byte} {buff : Nat → Byte} (h : VmInv k bssEnd ts) (ht : t ∈ ts)
    (hlen : input.length ≤ judgeTftpBuffSize)
    (hret : (loadElf (some t.root) (writeBytes buff 0 elf) elf.length k).ret = 0)
    (hfree : 3 * (input.length / 4096) + 6207 ≤
      (loadElf (some t.root) (writeBytes buff 0 elf) elf.length k).kernel.free)
    (req : JudgeReq) (zerosLast : BitVec 64) :
    ∃ u k', buildUser req elf (.file input) zerosLast buff (some t.root) k = (.ok u, k') := by
  have hfit := rangesFit hlen
  obtain ⟨h₀, _⟩ := loadElf_mapsUser h ht (writeBytes buff 0 elf) elf.length
  have hload : loadImage (some t.root) (writeBytes buff 0 elf) elf.length k =
      (.ok ((loadElf (some t.root) (writeBytes buff 0 elf) elf.length k).entry.getD 0),
        (loadElf (some t.root) (writeBytes buff 0 elf) elf.length k).kernel) := by
    simp only [loadImage, hret, if_neg (by decide : ¬ (0 : Int) < 0)]
  generalize (loadElf (some t.root) (writeBytes buff 0 elf) elf.length k).kernel = k₀ at *
  have hchunk : (if elf.length < pgSize then elf.length else pgSize) / 4096 ≤ 1 := by
    simp only [pgSize]
    split_ifs <;> omega
  obtain ⟨k₁, hheader, h₁, hleft₁⟩ := mapAndCopy_check (vmU ||| vmR ||| vmA) (writeBytes buff 0 elf)
    h₀ ht (headerCopy_fits elf.length) (by omega)
  obtain ⟨k₂, hcopy, h₂, hleft₂⟩ := mapAndCopy_check (vmU ||| vmR ||| vmA)
    (writeBytes (writeBytes buff 0 elf) 0 input) h₁ ht hfit.stdin (by omega)
  obtain ⟨k₃, hout, h₃, hleft₃⟩ := mapRange_free (vmU ||| vmR ||| vmW) h₂ ht
    hfit.stdoutAligned (by decide : stdoutLimit = 16 * 4096) hfit.stdout (by omega)
  obtain ⟨k₄, hst, h₄, hleft₄⟩ := mapRange_free (vmU ||| vmR ||| vmW) h₃ ht
    hfit.stackAligned (by decide : stackSize = 1024 * 4096) hfit.stack (by omega)
  rw [← hfit.stackEnd] at hst
  obtain ⟨k₅, hheap, _, _⟩ := mapRange_free (vmU ||| vmR ||| vmW) h₄ ht
    (by decide : heapVa % 4096 = 0) (by decide : heapSize = 1024 * 4096) (by decide) (by omega)
  refine ⟨_, _, (kernelM_bind_of_ok hload).trans ((kernelM_bind_of_ok hheader).trans
    ((kernelM_bind_of_ok rfl).trans ((kernelM_bind_of_ok hcopy).trans ((kernelM_bind_of_ok hout).trans
    ((kernelM_bind_of_ok hst).trans ((kernelM_bind_of_ok hheap).trans
    ((kernelM_bind_of_ok (setupStack_eq _ _ _ _ _)).trans rfl)))))))⟩

theorem doJudge_create {mm : Mm} {mem : Mem} {root : Nat} {k : Kernel}
    (hcreate : createPt ⟨mm, mem, []⟩ = (some root, k)) (req : JudgeReq) (elf : List Byte)
    (stdin : Download) (zerosLast : BitVec 64) (buff : Nat → Byte) :
    doJudge req (.file elf) stdin zerosLast buff ⟨mm, mem, []⟩ =
      buildUser req elf stdin zerosLast buff (some root) k := by
  have hnew : newPt ⟨mm, mem, []⟩ = (.ok (some root), k) := by
    rw [newPt, hcreate]
  rw [doJudge, kernelM_bind_of_ok (show Download.get (.file elf) _ = (.ok elf, _) from rfl)]
  exact kernelM_bind_of_ok hnew

/-- The image loads on a new table, and leaves pages for the rest of a job without input. -/
def LoadsWithRoom (elf : List Byte) (k : Kernel) : Bool :=
  let r := createPt k
  let l := loadElf r.1 (writeBytes (fun _ => 0) 0 elf) elf.length r.2
  r.1.isSome && decide (l.ret = 0) && decide (6207 ≤ l.kernel.free)

/-- Such an image reaches user mode. -/
theorem LoadsWithRoom.reaches {elf : List Byte} {mm : Mm} {bssEnd : Nat}
    (h : LoadsWithRoom elf ⟨mm, fun _ => 0, []⟩ = true) (hmm : mm.Reachable bssEnd) :
    ∃ u k, doJudge ⟨1, 1000, 0⟩ (.file elf) (.file []) 0 (fun _ => 0) ⟨mm, fun _ => 0, []⟩ = (.ok u, k) := by
  rw [LoadsWithRoom, Bool.and_eq_true, Bool.and_eq_true, decide_eq_true_iff, decide_eq_true_iff] at h
  obtain ⟨⟨hsome, hret⟩, hfree⟩ := h
  rcases createPt_spec (VmInv.start hmm.inv fun _ => 0) with hfull | ⟨root, k, hcreate, _, hk, _⟩
  · rw [hfull] at hsome
    exact absurd hsome Bool.false_ne_true
  · rw [hcreate] at hret hfree
    obtain ⟨u, k', hrun⟩ := buildUser_free hk (List.mem_singleton.mpr rfl)
      (show ([] : List Byte).length ≤ judgeTftpBuffSize by decide) hret hfree ⟨1, 1000, 0⟩ 0
    exact ⟨u, k', (doJudge_create hcreate _ _ _ _ _).trans hrun⟩

/-- A boot with 32 MiB. -/
theorem boot_small : ∃ mm, bootMm 0x40800 0x40000 8192 ⟨0, ⟨0, 0, 0, fun _ => 0⟩, 0, ⟨0, 0, 0, fun _ => 0⟩⟩ = some mm ∧
    mm.Reachable 0x40800 ∧ mm.mmbm.size = 8256 := by
  have hlayout : BootLayout 0x40800 0x40000 8192 :=
    ⟨by decide, by decide, by decide, by decide, by decide⟩
  obtain ⟨mm, hboot, _, hinv⟩ := bootMm_inv hlayout ⟨0, ⟨0, 0, 0, fun _ => 0⟩, 0, ⟨0, 0, 0, fun _ => 0⟩⟩
  exact ⟨mm, hboot, ⟨_, _, _, mm, hlayout, hboot, [], _, rfl, rfl⟩, hinv.size_eq⟩

theorem boot_reaches (elf : List Byte)
    (h : (bootMm 0x40800 0x40000 8192 ⟨0, ⟨0, 0, 0, fun _ => 0⟩, 0, ⟨0, 0, 0, fun _ => 0⟩⟩).map
      (fun mm => LoadsWithRoom elf ⟨mm, fun _ => 0, []⟩) = some true) :
    ∃ mm, mm.Reachable 0x40800 ∧ mm.mmbm.size = 8256 ∧ ∃ u k,
      doJudge ⟨1, 1000, 0⟩ (.file elf) (.file []) 0 (fun _ => 0) ⟨mm, fun _ => 0, []⟩ = (.ok u, k) := by
  obtain ⟨mm, hboot, hmm, hsize⟩ := boot_small
  rw [hboot, Option.map_some, Option.some.injEq] at h
  exact ⟨mm, hmm, hsize, LoadsWithRoom.reaches h hmm⟩

end VijosOS
