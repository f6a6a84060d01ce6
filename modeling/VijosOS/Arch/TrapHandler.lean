import VijosOS.Memory.Vm

/-!
# The trap handler

`trap_handler` of `trap_handler.c`. The calls that do not return, and the endless
loops after an unexpected trap, are constructors of the result.
-/

namespace VijosOS

open Library

/-- The registers `x[0..31]` and the saved CSRs of a `trap_frame_t`. -/
structure TrapFrame where
  x : Nat → BitVec 64
  status : BitVec 64
  epc : BitVec 64
  tval : BitVec 64
  cause : BitVec 64
  cycle : BitVec 64

structure UserTask where
  exitcode : Int
  error : Int
  epc : BitVec 64
  eval : BitVec 64

structure TrapState where
  kernel : Kernel
  userTask : UserTask
  userEndTime : BitVec 64

inductive TrapResult where
  | resume (tf : TrapFrame)
  | returnFromUser
  | kernelException
  | unhandledInterrupt

def causeIllinst : BitVec 64 := 2
def causeEcallU : BitVec 64 := 8
def causePfFetch : BitVec 64 := 12
def causePfLoad : BitVec 64 := 13
def causePfStore : BitVec 64 := 15
def causeInt : BitVec 64 := 0x8000000000000000
def irqMTimer : BitVec 64 := 7
def mstatusMPP : BitVec 64 := 0x1800

def satpModeSv39 : BitVec 64 := 0x8000000000000000

/-- The `satp` value `set_pt` writes. -/
def setPt (pt : Nat) : BitVec 64 := (BitVec.ofNat 64 pt >>> pgShift) ||| satpModeSv39

/-- The page table the trap handler reads from `satp`. -/
def satpRoot (satp : BitVec 64) : Nat := (satp <<< pgShift).toNat

/-- The mode bit leaves through the top of the shift. -/
theorem satpRoot_setPt {pt : Nat} (hpt : pt < 2 ^ 64) (haligned : pt % 4096 = 0) :
    satpRoot (setPt pt) = pt := by
  have hmode : satpModeSv39 <<< pgShift = 0 := by decide
  have hzero : ∀ v : BitVec 64, v ||| 0 = v := fun v => BitVec.or_zero
  rw [satpRoot, setPt, BitVec.shiftLeft_or_distrib, hmode, hzero]
  simp only [pgShift, BitVec.toNat_shiftLeft, BitVec.toNat_ushiftRight, BitVec.toNat_ofNat,
    Nat.shiftLeft_eq, Nat.shiftRight_eq_div_pow]
  omega

def faultAd (cause : BitVec 64) : BitVec 64 := if cause = causePfStore then pteA ||| pteD else pteA

def faultFlags (cause : BitVec 64) : BitVec 64 :=
  let flags := pteV ||| pteU
  let flags := if cause = causePfFetch then flags ||| pteX else flags
  let flags := if cause = causePfLoad then flags ||| pteR else flags
  if cause = causePfStore then flags ||| (pteR ||| pteW) else flags

theorem faultFlags_valid (cause : BitVec 64) : (faultFlags cause).getLsbD 0 = true := by
  unfold faultFlags
  split_ifs <;> decide

theorem faultAd_high (cause : BitVec 64) : faultAd cause >>> 8 = 0 := by
  unfold faultAd
  split_ifs <;> decide

-- The page-fault branch: `true` when the entry was updated and the program resumes.
def handlePageFault (satp cause : BitVec 64) (va : Nat) (k : Kernel) : Bool × Kernel :=
  match getPte (some (satpRoot satp)) va k with
  | (none, k) => (false, k)
  | (some pte, k) =>
    if load64 k.mem pte &&& faultFlags cause = faultFlags cause then
      (true, { k with mem := store64 k.mem pte (load64 k.mem pte ||| faultAd cause) })
    else (false, k)

def trapHandler (satp cycle : BitVec 64) (tf : TrapFrame) (s : TrapState) : TrapResult × TrapState :=
  if tf.cause = causePfFetch ∨ tf.cause = causePfLoad ∨ tf.cause = causePfStore then
    let r := handlePageFault satp tf.cause tf.tval.toNat s.kernel
    if r.1 then (.resume tf, { s with kernel := r.2 })
    else (.returnFromUser, {
      kernel := r.2
      userEndTime := tf.cycle
      userTask := { exitcode := -11, error := -ePAGEFAULT, epc := tf.epc, eval := tf.tval } })
  else if tf.cause = causeIllinst ∧ tf.tval &&& 0xffeff07f = 0xc0002073 then
    -- rdcycle and rdtime
    let reg := ((tf.tval >>> 7) &&& 31).toNat
    (.resume { tf with
      x := fun r => if r = reg then cycle else tf.x r
      epc := tf.epc + 4 }, s)
  else
    let s := { s with userEndTime := tf.cycle }
    if tf.cause &&& causeInt = 0 then
      if tf.status &&& mstatusMPP ≠ 0 then (.kernelException, s)
      else if tf.cause = causeEcallU then
        -- the user process exits with the low word of a0
        (.returnFromUser, { s with
          userTask := { s.userTask with exitcode := ((tf.x 10).setWidth 32).toInt, error := 0 } })
      else (.returnFromUser, { s with
        userTask := { exitcode := -1, error := -eUSER, epc := tf.epc, eval := tf.tval } })
    else if (tf.cause <<< 1) >>> 1 = irqMTimer then
      (.returnFromUser, { s with
        userTask := { s.userTask with exitcode := -1, error := -eTIMEOUT } })
    else (.unhandledInterrupt, s)

/-- The frame after `rdcycle` or `rdtime`: the register of the instruction has the counter. -/
def TrapFrame.clockRead (tf : TrapFrame) (cycle : BitVec 64) : TrapFrame :=
  { tf with
    x := fun r => if r = ((tf.tval >>> 7) &&& 31).toNat then cycle else tf.x r
    epc := tf.epc + 4 }

section Resume

variable {satp cycle : BitVec 64} {tf tf' : TrapFrame} {s s' : TrapState}

/-- The handler returns after a page fault that it resolved and after the read of a counter. -/
theorem trapHandler_resume (hrun : trapHandler satp cycle tf s = (.resume tf', s')) :
    (tf' = tf ∧ tf.cause ≠ causeIllinst ∧
      ∃ k, handlePageFault satp tf.cause tf.tval.toNat s.kernel = (true, k) ∧ s' = { s with kernel := k }) ∨
    (tf.cause = causeIllinst ∧ tf.tval &&& 0xffeff07f = 0xc0002073 ∧ tf' = tf.clockRead cycle ∧ s' = s) := by
  unfold trapHandler at hrun
  dsimp only at hrun
  split_ifs at hrun with hpf hok hclock
  · obtain ⟨hframe, hstate⟩ := Prod.mk.inj hrun
    refine Or.inl ⟨(TrapResult.resume.inj hframe).symm, ?_, _, Prod.ext hok rfl, hstate.symm⟩
    intro hill
    rw [hill] at hpf
    exact absurd hpf (by decide)
  · cases hrun
  · obtain ⟨hframe, hstate⟩ := Prod.mk.inj hrun
    exact Or.inr ⟨hclock.1, hclock.2, (TrapResult.resume.inj hframe).symm, hstate.symm⟩
  all_goals cases hrun

/-- When the handler ends the job only a page fault may have changed the kernel, and the exit code is
a 32-bit number. -/
theorem trapHandler_return (hrun : trapHandler satp cycle tf s = (.returnFromUser, s')) :
    (s'.kernel = s.kernel ∨ s'.kernel = (handlePageFault satp tf.cause tf.tval.toNat s.kernel).2) ∧
      -2 ^ 31 ≤ s'.userTask.exitcode ∧ s'.userTask.exitcode < 2 ^ 31 := by
  unfold trapHandler at hrun
  dsimp only at hrun
  split_ifs at hrun
  · cases hrun
  · obtain rfl := (Prod.mk.inj hrun).2
    exact ⟨.inr rfl, (by decide : (-2 ^ 31 : Int) ≤ -11 ∧ (-11 : Int) < 2 ^ 31)⟩
  · cases hrun
  · cases hrun
  · obtain rfl := (Prod.mk.inj hrun).2
    exact ⟨.inl rfl, BitVec.le_toInt _, BitVec.toInt_lt⟩
  · obtain rfl := (Prod.mk.inj hrun).2
    exact ⟨.inl rfl, (by decide : (-2 ^ 31 : Int) ≤ -1 ∧ (-1 : Int) < 2 ^ 31)⟩
  · obtain rfl := (Prod.mk.inj hrun).2
    exact ⟨.inl rfl, (by decide : (-2 ^ 31 : Int) ≤ -1 ∧ (-1 : Int) < 2 ^ 31)⟩
  · cases hrun

theorem trapHandler_clock (hcause : tf.cause = causeIllinst) (hinst : tf.tval &&& 0xffeff07f = 0xc0002073) :
    trapHandler satp cycle tf s = (.resume (tf.clockRead cycle), s) := by
  have hpf : ¬ (tf.cause = causePfFetch ∨ tf.cause = causePfLoad ∨ tf.cause = causePfStore) := by
    rw [hcause]
    decide
  rw [trapHandler, if_neg hpf, if_pos ⟨hcause, hinst⟩]
  rfl

/-- The exit of a program: the exit code is the low word of its register `a0`. -/
theorem trapHandler_exit (hcause : tf.cause = causeEcallU) (hstatus : tf.status &&& mstatusMPP = 0) :
    trapHandler satp cycle tf s = (.returnFromUser, { s with
      userEndTime := tf.cycle
      userTask := { s.userTask with exitcode := ((tf.x 10).setWidth 32).toInt, error := 0 } }) := by
  have hcycle : ¬ (causeEcallU = causeIllinst ∧ tf.tval &&& 0xffeff07f = 0xc0002073) :=
    fun h => absurd h.1 (by decide)
  unfold trapHandler
  dsimp only
  rw [hcause, if_neg (by decide), if_neg hcycle, if_pos (by decide), if_neg (not_not.mpr hstatus), if_pos rfl]

end Resume

end VijosOS
