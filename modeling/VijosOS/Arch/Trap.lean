import VijosOS.Library.Riscv
import VijosOS.Judge.FaultProgress

/-!
# Entry to and return from a trap

`trap.S` saves the registers of the interrupted program as a `trap_frame_t` at the top of the trap
stack, calls `trap_handler` on it and restores them. In user mode `mscratch` holds the top of the
trap stack, and 0 while a trap is handled.
-/

namespace VijosOS

open Library

/-! ## trap.S -/

inductive TrapLabel where
  | restoreKernelSp
  | saveContext
  | saveKernelSp
  | restoreContext
  deriving DecidableEq

namespace Reg

abbrev sp : Nat := 2
abbrev t0 : Nat := 5
abbrev t1 : Nat := 6
abbrev a0 : Nat := 10

end Reg

open Reg

-- `n*REGBYTES`
abbrev slotOff (n : Nat) : BitVec 64 := BitVec.ofNat 64 (8 * n)

-- A trap from the kernel finds 0 in `mscratch` and continues on the current stack.
def saveHead : List (Instr TrapLabel) :=
  [.csrrw sp .mscratch sp,
    .bnez sp .saveContext,
    .label .restoreKernelSp,
    .csrr sp .mscratch,
    .label .saveContext,
    .addi sp sp (-(37 * 8)),
    .sd 5 (slotOff 5) sp,
    .csrr t0 .cycle,
    .sd t0 (slotOff 36) sp]

-- x2 is sp, saved later
def savedRegs : List Nat :=
  [1, 3, 4, 6, 7, 8, 9, 10, 11, 12, 13, 14, 15, 16, 17, 18, 19, 20, 21, 22, 23, 24, 25, 26, 27, 28, 29, 30, 31]

def saveTail : List (Instr TrapLabel) :=
  [.csrrw t0 .mscratch 0,
    .sd t0 (slotOff 2) sp,
    .csrr t0 .mstatus,
    .sd t0 (slotOff 32) sp,
    .csrr t0 .mepc,
    .sd t0 (slotOff 33) sp,
    .csrr t0 .mtval,
    .sd t0 (slotOff 34) sp,
    .csrr t0 .mcause,
    .sd t0 (slotOff 35) sp]

def saveAll : List (Instr TrapLabel) :=
  saveHead ++ (savedRegs.map fun r => .sd r (slotOff r) sp) ++ saveTail

def restoreHead : List (Instr TrapLabel) :=
  [.ld t1 (slotOff 32) sp,
    .li t0 mstatusMPP,
    .and t0 t1 t0,
    .bnez t0 .restoreContext,
    .label .saveKernelSp,
    .addi t0 sp (37 * 8),
    .csrw .mscratch t0,
    .label .restoreContext,
    .csrw .mstatus t1,
    .ld t0 (slotOff 33) sp,
    .csrw .mepc t0]

-- x2 is sp, loaded last
def restoredRegs : List Nat :=
  [1, 3, 4, 5, 6, 7, 8, 9, 10, 11, 12, 13, 14, 15, 16, 17, 18, 19, 20, 21, 22, 23, 24, 25, 26, 27, 28, 29, 30, 31]

def restoreAll : List (Instr TrapLabel) :=
  restoreHead ++ (restoredRegs.map fun r => .ld r (slotOff r) sp) ++ [.ld sp (slotOff 2) sp]

/-! ## Saving and restoring -/

section SaveRestore

variable {h : Hart} {base : Nat}

theorem toNat_frame {top : BitVec 64} (htop : top.toNat = base + 8 * 37) :
    (top + -(37 * 8)).toNat = base := by
  have hneg : (-(37 * 8) : BitVec 64).toNat = 2 ^ 64 - 296 := by simp
  have hlt := top.isLt
  rw [BitVec.toNat_add, hneg]
  omega

/-- The frame lies below the top of the trap stack, with x5 and the cycle counter in it. -/
theorem saveHead_user (hscratch : (h.csr .mscratch).toNat = base + 8 * 37) :
    ∃ v : BitVec 64, v.toNat = base ∧ saveHead.foldl advance (none, h) = (none, {
      x := Function.update (Function.update h.x sp v) t0 (h.csr .cycle)
      csr := Function.update h.csr .mscratch (h.x sp)
      mem := store64 (store64 h.mem (base + 8 * 5) (h.x 5)) (base + 8 * 36) (h.csr .cycle) }) := by
  have hne : h.csr .mscratch ≠ 0 := by
    intro hzero
    rw [hzero] at hscratch
    exact absurd hscratch (by simp)
  have hlt := (h.csr .mscratch).isLt
  have hframe := toNat_frame hscratch
  have h5 := toNat_slot hframe (i := 5) (by omega)
  have h36 := toNat_slot hframe (i := 36) (by omega)
  refine ⟨h.csr .mscratch + -(37 * 8), hframe, ?_⟩
  simp only [saveHead, List.foldl_cons, List.foldl_nil, advance_none, advance_some, Instr.target, Instr.marks,
    Instr.run, Hart.get, Hart.set, Hart.setCsr, Function.update_self, Function.update_idem, reduceIte, hne,
    OfNat.ofNat_ne_zero, reduceCtorEq, decide_true, decide_false, Bool.false_eq_true, Function.update_of_ne,
    ne_eq, not_false_eq_true, sp, t0, Nat.reduceEqDiff, h5, h36]

/-- The old stack pointer goes from `mscratch` to its slot. -/
theorem saveTail_run (hsp : (h.x sp).toNat = base) (hfit : base + 8 * 37 < 2 ^ 64) :
    saveTail.foldl advance (none, h) = (none, {
      x := Function.update h.x t0 (h.csr .mcause)
      csr := Function.update h.csr .mscratch 0
      mem := store64 (store64 (store64 (store64 (store64 h.mem (base + 8 * 2) (h.csr .mscratch))
        (base + 8 * 32) (h.csr .mstatus)) (base + 8 * 33) (h.csr .mepc)) (base + 8 * 34) (h.csr .mtval))
        (base + 8 * 35) (h.csr .mcause) }) := by
  have h2 := toNat_slot hsp (i := 2) (by omega)
  have h32 := toNat_slot hsp (i := 32) (by omega)
  have h33 := toNat_slot hsp (i := 33) (by omega)
  have h34 := toNat_slot hsp (i := 34) (by omega)
  have h35 := toNat_slot hsp (i := 35) (by omega)
  simp only [saveTail, List.foldl_cons, List.foldl_nil, advance_none, Instr.target, Instr.run, Hart.get,
    Hart.set, Hart.setCsr, Function.update_self, Function.update_idem, reduceIte, OfNat.ofNat_ne_zero,
    reduceCtorEq, Function.update_of_ne, ne_eq, not_false_eq_true, sp, t0, Nat.reduceEqDiff,
    h2, h32, h33, h34, h35]

/-- The frame of a trap from user mode, at `base`. -/
structure Saved (h h' : Hart) (base : Nat) : Prop where
  sp : (h'.x sp).toNat = base
  csr : h'.csr = Function.update h.csr .mscratch 0
  regs : ∀ r, 0 < r → r < 32 → slotAt h'.mem base r = h.x r
  status : slotAt h'.mem base 32 = h.csr .mstatus
  epc : slotAt h'.mem base 33 = h.csr .mepc
  tval : slotAt h'.mem base 34 = h.csr .mtval
  cause : slotAt h'.mem base 35 = h.csr .mcause
  cycle : slotAt h'.mem base 36 = h.csr .cycle
  outside : ∀ x, ¬ (base ≤ x ∧ x < base + 8 * 37) → h'.mem x = h.mem x

theorem savedRegs_lt : ∀ r ∈ savedRegs, r < 32 := by decide

theorem mem_savedRegs : ∀ r < 32, 0 < r ∧ r ≠ sp ∧ r ≠ 5 → r ∈ savedRegs := by decide

theorem saveAll_user (hscratch : (h.csr .mscratch).toNat = base + 8 * 37) :
    Saved h (exec saveAll h) base := by
  have hfit : base + 8 * 37 < 2 ^ 64 := hscratch ▸ (h.csr .mscratch).isLt
  obtain ⟨v, hv, hhead⟩ := saveHead_user hscratch
  let h₁ : Hart := {
    x := Function.update (Function.update h.x sp v) t0 (h.csr .cycle)
    csr := Function.update h.csr .mscratch (h.x sp)
    mem := store64 (store64 h.mem (base + 8 * 5) (h.x 5)) (base + 8 * 36) (h.csr .cycle) }
  let h₂ : Hart := { h₁ with mem := storeSlots h₁.mem base h₁.get savedRegs }
  have hregs : (savedRegs.map fun r => (.sd r (slotOff r) sp : Instr TrapLabel)).foldl advance (none, h₁) =
      (none, h₂) := foldl_stores hv fun r hr => by
    have hlt := savedRegs_lt r hr
    omega
  have hrun : exec saveAll h = (saveTail.foldl advance (none, h₂)).2 := by
    rw [exec, saveAll, List.foldl_append, List.foldl_append, hhead, hregs]
  have hslots : ∀ i, slotAt h₂.mem base i = if i ∈ savedRegs then h₁.get i
      else Function.update (Function.update (slotAt h.mem base) 5 (h.x 5)) 36 (h.csr .cycle) i := by
    intro i
    rw [slotAt_storeSlots, slotAt_store, slotAt_store]
  have hmem : ∀ x, ¬ (base ≤ x ∧ x < base + 8 * 37) → h₂.mem x = h.mem x := by
    intro x hx
    have hregs_lt : ∀ r ∈ savedRegs, r < 37 := fun r hr => (savedRegs_lt r hr).trans (by decide)
    rw [show h₂.mem x = h₁.mem x from storeSlots_outside hregs_lt hx]
    show store64 (store64 h.mem (base + 8 * 5) _) (base + 8 * 36) _ x = _
    rw [store64_outside _ _ _ (by omega), store64_outside _ _ _ (by omega)]
  rw [hrun, saveTail_run (h := h₂) hv hfit]
  constructor
  case sp => exact hv
  case csr => exact Function.update_idem _ _ _
  case regs =>
    intro r hpos hr
    simp only [slotAt_store]
    rw [Function.update_of_ne (by omega), Function.update_of_ne (by omega), Function.update_of_ne (by omega),
      Function.update_of_ne (by omega)]
    by_cases hsp : r = sp
    · subst hsp
      exact Function.update_self _ _ _
    rw [Function.update_of_ne hsp, hslots]
    by_cases h5 : r = 5
    · subst h5
      rfl
    · rw [if_pos (mem_savedRegs r hr ⟨hpos, hsp, h5⟩), Hart.get, if_neg (by omega)]
      show Function.update (Function.update h.x sp v) t0 _ r = _
      rw [Function.update_of_ne h5, Function.update_of_ne hsp]
  case cycle =>
    simp only [slotAt_store]
    exact hslots 36
  case outside =>
    intro x hx
    dsimp only
    rw [store64_outside _ _ _ (by omega), store64_outside _ _ _ (by omega), store64_outside _ _ _ (by omega),
      store64_outside _ _ _ (by omega), store64_outside _ _ _ (by omega)]
    exact hmem x hx
  all_goals
    simp only [slotAt_store]
    rfl

/-- With user mode in the saved status, `mscratch` gets the top of the trap stack again. -/
theorem restoreHead_user (hsp : (h.x sp).toNat = base) (hfit : base + 8 * 37 < 2 ^ 64)
    (hmpp : slotAt h.mem base 32 &&& mstatusMPP = 0) :
    restoreHead.foldl advance (none, h) = (none, {
      x := Function.update (Function.update h.x t1 (slotAt h.mem base 32)) t0 (slotAt h.mem base 33)
      csr := Function.update (Function.update (Function.update h.csr .mscratch (h.x sp + 37 * 8)) .mstatus
        (slotAt h.mem base 32)) .mepc (slotAt h.mem base 33)
      mem := h.mem }) := by
  have h32 := toNat_slot hsp (i := 32) (by omega)
  have h33 := toNat_slot hsp (i := 33) (by omega)
  unfold slotAt at *
  simp only [restoreHead, List.foldl_cons, List.foldl_nil, advance_none, Instr.target, Instr.run, Hart.get,
    Hart.set, Hart.setCsr, Function.update_self, Function.update_idem, reduceIte, OfNat.ofNat_ne_zero,
    Function.update_of_ne, ne_eq, not_false_eq_true, sp, t0, t1, Nat.reduceEqDiff, hmpp, h32, h33]

/-- What a return to user mode restores from the frame at `base`. -/
structure Restored (h h' : Hart) (base : Nat) : Prop where
  regs : ∀ r, 0 < r → r < 32 → h'.x r = slotAt h.mem base r
  scratch : (h'.csr .mscratch).toNat = base + 8 * 37
  status : h'.csr .mstatus = slotAt h.mem base 32
  epc : h'.csr .mepc = slotAt h.mem base 33
  satp : h'.csr .satp = h.csr .satp
  mem : h'.mem = h.mem

theorem restoredRegs_lt : ∀ r ∈ restoredRegs, r < 32 := by decide

theorem mem_restoredRegs : ∀ r < 32, 0 < r ∧ r ≠ sp → r ∈ restoredRegs := by decide

theorem restoreAll_user (hsp : (h.x sp).toNat = base) (hfit : base + 8 * 37 < 2 ^ 64)
    (hmpp : slotAt h.mem base 32 &&& mstatusMPP = 0) : Restored h (exec restoreAll h) base := by
  let h₁ : Hart := {
    x := Function.update (Function.update h.x t1 (slotAt h.mem base 32)) t0 (slotAt h.mem base 33)
    csr := Function.update (Function.update (Function.update h.csr .mscratch (h.x sp + 37 * 8)) .mstatus
      (slotAt h.mem base 32)) .mepc (slotAt h.mem base 33)
    mem := h.mem }
  let h₂ : Hart := { h₁ with x := fun r => if r ∈ restoredRegs then slotAt h.mem base r else h₁.x r }
  have hregs : (restoredRegs.map fun r => (.ld r (slotOff r) sp : Instr TrapLabel)).foldl advance (none, h₁) =
      (none, h₂) := foldl_loads hsp (fun r hr => by
    have hlt := restoredRegs_lt r hr
    omega) (by decide) (by decide)
  have haddr : (h₂.get sp + slotOff 2).toNat = base + 8 * 2 := toNat_slot hsp (by omega)
  have hlast : [(.ld sp (slotOff 2) sp : Instr TrapLabel)].foldl advance (none, h₂) =
      (none, { h₂ with x := Function.update h₂.x sp (slotAt h.mem base sp) }) := by
    show (none, h₂.set sp (load64 h₂.mem (h₂.get sp + slotOff 2).toNat)) = _
    rw [haddr]
    rfl
  have hrun : exec restoreAll h = { h₂ with x := Function.update h₂.x sp (slotAt h.mem base sp) } := by
    rw [exec, restoreAll, List.foldl_append, List.foldl_append, restoreHead_user hsp hfit hmpp, hregs, hlast]
  rw [hrun]
  constructor
  case regs =>
    intro r hpos hr
    show Function.update h₂.x sp _ r = _
    by_cases hr2 : r = sp
    · rw [hr2, Function.update_self]
    · rw [Function.update_of_ne hr2]
      exact if_pos (mem_restoredRegs r hr ⟨hpos, hr2⟩)
  case scratch =>
    show (h.x sp + 37 * 8).toNat = base + 8 * 37
    have htop : (37 * 8 : BitVec 64).toNat = 8 * 37 := by decide
    rw [BitVec.toNat_add, htop, hsp]
    omega
  all_goals rfl

end SaveRestore

/-! ## The trap frame -/

/-- The words of a `trap_frame_t`. -/
def TrapFrame.word (tf : TrapFrame) : Nat → BitVec 64
  | 32 => tf.status
  | 33 => tf.epc
  | 34 => tf.tval
  | 35 => tf.cause
  | 36 => tf.cycle
  | r => tf.x r

def loadTrapFrame (m : Mem) (a : Nat) : TrapFrame where
  x := slotAt m a
  status := slotAt m a 32
  epc := slotAt m a 33
  tval := slotAt m a 34
  cause := slotAt m a 35
  cycle := slotAt m a 36

def storeTrapFrame (m : Mem) (a : Nat) (tf : TrapFrame) : Mem := storeSlots m a tf.word (List.range 37)

theorem TrapFrame.word_reg (tf : TrapFrame) {r : Nat} (hr : r < 32) : tf.word r = tf.x r := by
  unfold TrapFrame.word
  split <;> first | rfl | omega

theorem slotAt_storeTrapFrame (m : Mem) (a : Nat) (tf : TrapFrame) {i : Nat} (hi : i < 37) :
    slotAt (storeTrapFrame m a tf) a i = tf.word i := by
  rw [storeTrapFrame, slotAt_storeSlots, if_pos (List.mem_range.mpr hi)]

theorem storeTrapFrame_outside (m : Mem) {a : Nat} (tf : TrapFrame) {x : Nat}
    (hx : ¬ (a ≤ x ∧ x < a + 8 * 37)) : storeTrapFrame m a tf x = m x :=
  storeSlots_outside (fun _ hi => List.mem_range.mp hi) hx

/-! ## The counter instructions -/

/-- The instruction word of `csrrs rd, csr, rs1`. -/
def csrrs (rd : BitVec 5) (csr : BitVec 12) (rs1 : BitVec 5) : BitVec 32 :=
  csr ++ rs1 ++ 2#3 ++ rd ++ 0x73#7

def csrCycle : BitVec 12 := 0xc00
def csrTime : BitVec 12 := 0xc01

/-- The word is `csrrs rd, cycle, x0` or `csrrs rd, time, x0`. -/
def ReadsClock (inst : BitVec 32) (rd : BitVec 5) : Prop :=
  inst = csrrs rd csrCycle 0 ∨ inst = csrrs rd csrTime 0

instance (inst : BitVec 32) (rd : BitVec 5) : Decidable (ReadsClock inst rd) :=
  inferInstanceAs (Decidable (_ ∨ _))

theorem getLsbD_csrrs (rd : BitVec 5) (csr : BitVec 12) (rs1 : BitVec 5) (i : Nat) :
    (csrrs rd csr rs1).getLsbD i = if i < 7 then (0x73#7).getLsbD i else if i < 12 then rd.getLsbD (i - 7)
      else if i < 15 then (2#3).getLsbD (i - 12) else if i < 20 then rs1.getLsbD (i - 15)
      else csr.getLsbD (i - 20) := by
  unfold csrrs
  rw [BitVec.getLsbD_append, BitVec.getLsbD_append, BitVec.getLsbD_append, BitVec.getLsbD_append]
  grind

-- bit 20 tells the two counters apart; the bits 7 to 11 are the register
theorem csrrs_of_mask {inst : BitVec 32} (h : inst &&& 0xffeff07f = 0xc0002073) {csr : BitVec 12}
    (hcsr : csr = csrCycle ∧ inst.getLsbD 20 = false ∨ csr = csrTime ∧ inst.getLsbD 20 = true) :
    inst = csrrs ((inst >>> 7).setWidth 5) csr 0 := by
  apply BitVec.eq_of_getLsbD_eq
  intro i hi
  have hbit : (inst.getLsbD i && (0xffeff07f#32).getLsbD i) = (0xc0002073#32).getLsbD i := by
    rw [← BitVec.getLsbD_and]
    exact congrArg (fun w : BitVec 32 => w.getLsbD i) h
  have hmask : ∀ i < 32, ¬ (7 ≤ i ∧ i < 12) → i ≠ 20 → (0xffeff07f#32).getLsbD i = true ∧
      (csrrs 0 csrCycle 0).getLsbD i = (0xc0002073#32).getLsbD i ∧
      (csrrs 0 csrTime 0).getLsbD i = (0xc0002073#32).getLsbD i := by decide
  by_cases hrd : 7 ≤ i ∧ i < 12
  · have hsplit : 7 + (i - 7) = i := by omega
    have hlt : i - 7 < 5 := by omega
    rw [getLsbD_csrrs, if_neg (by omega), if_pos hrd.2, BitVec.getLsbD_setWidth, BitVec.getLsbD_ushiftRight]
    simp only [hsplit, hlt, decide_true, Bool.true_and]
  have hother : (csrrs ((inst >>> 7).setWidth 5) csr 0).getLsbD i = (csrrs 0 csr 0).getLsbD i := by
    rw [getLsbD_csrrs, getLsbD_csrrs]
    split_ifs <;> first | rfl | omega
  rw [hother]
  by_cases h20 : i = 20
  · subst h20
    obtain ⟨rfl, h20⟩ | ⟨rfl, h20⟩ := hcsr
    · exact h20
    · exact h20
  obtain ⟨hone, hcycle, htime⟩ := hmask i hi hrd h20
  rw [hone, Bool.and_true] at hbit
  obtain ⟨rfl, _⟩ | ⟨rfl, _⟩ := hcsr
  · rw [hbit, hcycle]
  · rw [hbit, htime]
theorem mask_of_csrrs (rd : BitVec 5) {csr : BitVec 12} (hcsr : csr = csrCycle ∨ csr = csrTime) :
    csrrs rd csr 0 &&& 0xffeff07f = 0xc0002073 ∧ (csrrs rd csr 0 >>> 7).setWidth 5 = rd := by
  revert rd
  obtain rfl | rfl := hcsr
  · decide
  · decide

/-- The handler's test reads the low word of `mtval`. -/
theorem clockTest_low (tval : BitVec 64) :
    tval &&& 0xffeff07f = 0xc0002073 ↔ tval.setWidth 32 &&& 0xffeff07f = 0xc0002073 := by
  have hmask : (0xffeff07f : BitVec 64) = (0xffeff07f : BitVec 32).setWidth 64 := by decide
  have hconst : (0xc0002073 : BitVec 64) = (0xc0002073 : BitVec 32).setWidth 64 := by decide
  have hwide : tval &&& 0xffeff07f = (tval.setWidth 32 &&& 0xffeff07f).setWidth 64 := by
    rw [hmask]
    apply BitVec.eq_of_getLsbD_eq
    intro i hi
    simp only [BitVec.getLsbD_and, BitVec.getLsbD_setWidth, hi, decide_true, Bool.true_and]
    by_cases hlow : i < 32
    · rw [decide_eq_true hlow, Bool.true_and]
    · rw [BitVec.getLsbD_of_ge (0xffeff07f : BitVec 32) i (Nat.le_of_not_lt hlow), Bool.and_false, Bool.and_false]
  rw [hwide, hconst]
  constructor
  · intro h
    have hback := congrArg (BitVec.setWidth 32) h
    rwa [BitVec.setWidth_setWidth_of_le _ (by decide), BitVec.setWidth_setWidth_of_le _ (by decide),
      BitVec.setWidth_eq, BitVec.setWidth_eq] at hback
  · intro h
    rw [h]

/-- The handler emulates exactly the reads of the two counters. -/
theorem readsClock_iff (tval : BitVec 64) :
    tval &&& 0xffeff07f = 0xc0002073 ↔ ∃ rd, ReadsClock (tval.setWidth 32) rd := by
  rw [clockTest_low]
  constructor
  · intro h
    refine ⟨(tval.setWidth 32 >>> 7).setWidth 5, ?_⟩
    cases hbit : (tval.setWidth 32).getLsbD 20 with
    | false => exact Or.inl (csrrs_of_mask h (Or.inl ⟨rfl, hbit⟩))
    | true => exact Or.inr (csrrs_of_mask h (Or.inr ⟨rfl, hbit⟩))
  · rintro ⟨rd, hinst | hinst⟩
    · rw [hinst]
      exact (mask_of_csrrs rd (Or.inl rfl)).1
    · rw [hinst]
      exact (mask_of_csrrs rd (Or.inr rfl)).1

/-- The register the handler takes from the word is that of the instruction. -/
theorem readsClock_rd {tval : BitVec 64} {rd : BitVec 5} (h : ReadsClock (tval.setWidth 32) rd) :
    ((tval >>> 7) &&& 31).toNat = rd.toNat := by
  have hrd : (tval.setWidth 32 >>> 7).setWidth 5 = rd := by
    obtain hinst | hinst := h
    · rw [hinst]
      exact (mask_of_csrrs rd (Or.inl rfl)).2
    · rw [hinst]
      exact (mask_of_csrrs rd (Or.inr rfl)).2
  have hmask : (31 : BitVec 64).toNat = 2 ^ 5 - 1 := by decide
  rw [← hrd, BitVec.toNat_and, hmask, Nat.and_two_pow_sub_one_eq_mod]
  simp only [BitVec.toNat_setWidth, BitVec.toNat_ushiftRight, Nat.shiftRight_eq_div_pow]
  omega

end VijosOS
