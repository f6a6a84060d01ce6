import VijosOS.Arch.Trap

/-!
# Traps are transparent

A job runs in user mode until a trap; when `trap_handler` returns, the job continues with its
registers as they were, and `mscratch` is ready for the next trap.
-/

namespace VijosOS

open Library Reg

/-- The hart while a job runs, with the kernel's memory and globals. -/
structure UserMachine where
  x : Nat → BitVec 64
  csr : Csr → BitVec 64
  state : TrapState

def TrapState.withMem (s : TrapState) (mem : Mem) : TrapState :=
  { s with kernel := { s.kernel with mem := mem } }

namespace UserMachine

def mem (m : UserMachine) : Mem := m.state.kernel.mem

def hart (m : UserMachine) : Hart := ⟨m.x, m.csr, m.mem⟩

def exec (m : UserMachine) (is : List (Instr TrapLabel)) : UserMachine :=
  let h := Library.exec is m.hart
  ⟨h.x, h.csr, m.state.withMem h.mem⟩

end UserMachine

/-! ## A trap -/

/-- What a call of `trap_handler` leaves open: the counter it reads, the registers it returns
with apart from sp, and what it leaves on the stack below the frame. -/
structure HandlerCall where
  now : BitVec 64
  x : Nat → BitVec 64
  stack : Nat → Byte

def callTrapHandler (trapStack : Nat) (c : HandlerCall) (m : UserMachine) : Option UserMachine :=
  match trapHandler (m.csr .satp) c.now (loadTrapFrame m.mem (m.x a0).toNat) m.state with
  | (.resume tf, s) =>
    let mem := storeTrapFrame s.kernel.mem (m.x a0).toNat tf
    some {
      x := Function.update c.x sp (m.x sp)
      csr := m.csr
      state := s.withMem (copyTo mem trapStack ((m.x sp).toNat - trapStack) c.stack) }
  | _ => none

-- From `trap_entry` to the `mret`, which continues at `mepc`; `none` when the handler does not return.
def trapEntry (trapStack : Nat) (c : HandlerCall) (m : UserMachine) : Option UserMachine :=
  (callTrapHandler trapStack c ((m.exec saveAll).exec [.addi a0 sp 0])).map fun m => m.exec restoreAll

/-- The size of `trap_stack`. -/
def trapStackSize : Nat := 0x1000

/-- The table of the job is in place, and `mscratch` holds the top of the trap stack. -/
structure UserReady (bssEnd trapStack root : Nat) (m : UserMachine) : Prop where
  vm : VmInv m.state.kernel bssEnd [⟨root, 0⟩]
  satp : m.csr .satp = setPt root
  image : trapStack + trapStackSize ≤ bssEnd
  scratch : (m.csr .mscratch).toNat = trapStack + trapStackSize

/-- The illegal instruction is a read of a counter into register `rd`. -/
def ClockRead (m : UserMachine) (rd : BitVec 5) : Prop :=
  m.csr .mcause = causeIllinst ∧ ReadsClock ((m.csr .mtval).setWidth 32) rd

/-- From the trap that machine `m` entered to the `mret` of machine `m'`. -/
structure Transparent (trapStack : Nat) (c : HandlerCall) (m m' : UserMachine) : Prop where
  status : m'.csr .mstatus = m.csr .mstatus
  scratch : (m'.csr .mscratch).toNat = trapStack + trapStackSize
  frame : ((m.exec saveAll).x sp).toNat = trapStack + trapStackSize - 37 * 8
  resumed : (∀ rd, ¬ ClockRead m rd) → m'.csr .mepc = m.csr .mepc ∧ ∀ r, 0 < r → r < 32 → m'.x r = m.x r
  clock : ∀ rd, ClockRead m rd →
    m'.csr .mepc = m.csr .mepc + 4 ∧ ∀ r, 0 < r → r < 32 → m'.x r = if r = rd.toNat then c.now else m.x r

/-! ## The call of the handler -/

/-- What the handler makes of a frame when it returns. -/
def FrameAfter (now : BitVec 64) (tf tf' : TrapFrame) : Prop :=
  (tf.cause ≠ causeIllinst ∧ tf' = tf) ∨
    (tf.cause = causeIllinst ∧ tf.tval &&& 0xffeff07f = 0xc0002073 ∧ tf' = tf.clockRead now)

section Call

variable {bssEnd trapStack root base : Nat} {c : HandlerCall} {m m' : UserMachine}

theorem callTrapHandler_spec (hvm : VmInv m.state.kernel bssEnd [⟨root, 0⟩]) (hsatp : m.csr .satp = setPt root)
    (hsp : (m.x sp).toNat = base) (ha0 : (m.x a0).toNat = base) (himage : base + 8 * 37 ≤ bssEnd)
    (hrun : callTrapHandler trapStack c m = some m') :
    m'.x sp = m.x sp ∧ m'.csr = m.csr ∧ VmInv m'.state.kernel bssEnd [⟨root, 0⟩] ∧
      ∃ tf, FrameAfter c.now (loadTrapFrame m.mem base) tf ∧ ∀ i < 37, slotAt m'.mem base i = tf.word i := by
  have ht : (⟨root, 0⟩ : Table) ∈ [(⟨root, 0⟩ : Table)] := List.mem_singleton.mpr rfl
  unfold callTrapHandler at hrun
  rw [ha0, hsp] at hrun
  rcases hhandler : trapHandler (m.csr .satp) c.now (loadTrapFrame m.mem base) m.state with ⟨r, s⟩
  rw [hhandler] at hrun
  cases r with
  | resume tf =>
    obtain rfl := Option.some.inj hrun
    -- the handler itself writes only page tables
    have hsteps : VmSteps [⟨root, 0⟩] m.state.kernel s.kernel ∧ FrameAfter c.now (loadTrapFrame m.mem base) tf := by
      obtain ⟨rfl, hcause, k, hfault, rfl⟩ | ⟨hcause, hinst, rfl, rfl⟩ := trapHandler_resume hhandler
      · rw [hsatp] at hfault
        exact ⟨handlePageFault_steps hvm ht (hvm.satp ht) hfault, Or.inl ⟨hcause, rfl⟩⟩
      · exact ⟨.refl, Or.inr ⟨hcause, hinst, rfl⟩⟩
    refine ⟨?_, rfl, ?_, tf, hsteps.2, ?_⟩
    · exact Function.update_self sp (m.x sp) c.x
    · apply (VmSteps.inv hsteps.1 hvm).write_image
      intro x hx
      rw [copyTo_outside _ _ _ _ (by omega), storeTrapFrame_outside _ _ (by omega)]
    · intro i hi
      rw [← slotAt_storeTrapFrame s.kernel.mem base tf hi]
      exact slotAt_congr (fun x hlow _ => copyTo_outside _ _ _ _ (by omega)) hi
  | returnFromUser => cases hrun
  | kernelException => cases hrun
  | unhandledInterrupt => cases hrun

end Call

section Trap

variable {bssEnd trapStack root : Nat} {c : HandlerCall} {m m' : UserMachine}

theorem exec_mv (m : UserMachine) :
    m.exec [.addi a0 sp 0] = { m with x := Function.update m.x a0 (m.x sp) } := by
  have hzero : m.x sp + 0 = m.x sp := BitVec.add_zero _
  show (⟨Function.update m.x a0 (m.x sp + 0), m.csr, m.state⟩ : UserMachine) = _
  rw [hzero]

/-- The frame that `trap_handler` gets is that of the interrupted program. -/
structure FrameOf (m : UserMachine) (tf : TrapFrame) : Prop where
  regs : ∀ r, 0 < r → r < 32 → tf.x r = m.x r
  status : tf.status = m.csr .mstatus
  epc : tf.epc = m.csr .mepc
  tval : tf.tval = m.csr .mtval
  cause : tf.cause = m.csr .mcause

/-- Where a trap finds its frame, and what is in it. -/
theorem Saved.frame {base : Nat} {h' : Hart} (hsaved : Saved m.hart h' base) :
    FrameOf m (loadTrapFrame h'.mem base) :=
  ⟨hsaved.regs, hsaved.status, hsaved.epc, hsaved.tval, hsaved.cause⟩

theorem hart_x (m : UserMachine) : m.hart.x = m.x := rfl

theorem exec_hart (m : UserMachine) (is : List (Instr TrapLabel)) :
    (m.exec is).hart = Library.exec is m.hart := rfl

theorem exec_state (m : UserMachine) (is : List (Instr TrapLabel)) :
    (m.exec is).state = m.state.withMem (m.exec is).mem := rfl

theorem exec_saveAll {base : Nat} (hscratch : (m.csr .mscratch).toNat = base + 8 * 37) :
    Saved m.hart (m.exec saveAll).hart base := by
  rw [exec_hart]
  exact saveAll_user hscratch

theorem exec_restoreAll {base : Nat} (hsp : (m.x sp).toNat = base) (hfit : base + 8 * 37 < 2 ^ 64)
    (hmpp : slotAt m.mem base 32 &&& mstatusMPP = 0) : Restored m.hart (m.exec restoreAll).hart base := by
  rw [exec_hart]
  exact restoreAll_user hsp hfit hmpp

theorem trapEntry_spec (h : UserReady bssEnd trapStack root m) (hmpp : m.csr .mstatus &&& mstatusMPP = 0)
    (htrap : trapEntry trapStack c m = some m') :
    Transparent trapStack c m m' ∧ UserReady bssEnd trapStack root m' := by
  obtain ⟨base, hbase⟩ : ∃ base, trapStack + trapStackSize = base + 8 * 37 :=
    ⟨trapStack + trapStackSize - 8 * 37, by unfold trapStackSize; omega⟩
  have himage := h.image
  have hscratch := h.scratch
  rw [hbase] at himage hscratch
  have hfit : base + 8 * 37 < 2 ^ 64 := hscratch ▸ (m.csr .mscratch).isLt
  have hsaved := exec_saveAll hscratch
  have hstate := exec_state m saveAll
  obtain ⟨m₂, hcall, hrestore⟩ := Option.map_eq_some_iff.mp htrap
  rw [exec_mv] at hcall
  have hfound : ((m.exec saveAll).x sp).toNat = base := by
    rw [← hart_x]
    exact hsaved.sp
  generalize m.exec saveAll = m₁ at hsaved hstate hcall
  have hframe : FrameOf m (loadTrapFrame m₁.mem base) := hsaved.frame
  have hvm : VmInv m₁.state.kernel bssEnd [⟨root, 0⟩] := by
    rw [hstate]
    exact h.vm.write_image fun x hx => hsaved.outside x (by omega)
  have hsatp : m₁.csr .satp = setPt root := by
    rw [show m₁.csr = Function.update m.csr .mscratch 0 from hsaved.csr]
    exact h.satp
  have ha0 : (Function.update m₁.x a0 (m₁.x sp) a0).toNat = base := by
    rw [Function.update_self]
    exact hsaved.sp
  obtain ⟨hsp₂, hcsr₂, hvm₂, tf, hafter, hslots⟩ :=
    callTrapHandler_spec (m := { m₁ with x := Function.update m₁.x a0 (m₁.x sp) }) hvm hsatp hsaved.sp ha0
      himage hcall
  change FrameAfter c.now (loadTrapFrame m₁.mem base) tf at hafter
  generalize loadTrapFrame m₁.mem base = saved at hframe hafter
  have hstatus : tf.status = m.csr .mstatus := by
    obtain ⟨_, rfl⟩ | ⟨_, _, rfl⟩ := hafter
    · exact hframe.status
    · exact hframe.status
  have hslot : slotAt m₂.mem base 32 = m.csr .mstatus := (hslots 32 (by decide)).trans hstatus
  have hrestored : Restored m₂.hart m'.hart base := by
    rw [← hrestore]
    apply exec_restoreAll _ hfit (by rw [hslot, hmpp])
    rw [hsp₂]
    exact hsaved.sp
  have hregs : ∀ r, 0 < r → r < 32 → m'.x r = tf.x r := by
    intro r hpos hr
    rw [← tf.word_reg hr, ← hslots r (by omega)]
    exact hrestored.regs r hpos hr
  have hepc : m'.csr .mepc = tf.epc := hrestored.epc.trans (hslots 33 (by decide))
  have hscratch' : (m'.csr .mscratch).toNat = trapStack + trapStackSize := hrestored.scratch.trans hbase.symm
  refine ⟨⟨hrestored.status.trans hslot, hscratch', ?_, ?_, ?_⟩, ⟨?_, ?_, h.image, hscratch'⟩⟩
  · rw [hbase, Nat.add_sub_cancel, hfound]
  · intro hnone
    obtain ⟨_, rfl⟩ | ⟨hcause, hinst, _⟩ := hafter
    · exact ⟨hepc.trans hframe.epc, fun r hpos hr => (hregs r hpos hr).trans (hframe.regs r hpos hr)⟩
    · obtain ⟨rd, hrd⟩ := (readsClock_iff _).mp hinst
      exact absurd ⟨hframe.cause ▸ hcause, hframe.tval ▸ hrd⟩ (hnone rd)
  · rintro rd ⟨hill, hrd⟩
    obtain ⟨hcause, _⟩ | ⟨_, _, rfl⟩ := hafter
    · exact absurd (hframe.cause.trans hill) hcause
    · rw [← hframe.tval] at hrd
      refine ⟨hepc.trans (congrArg (· + 4) hframe.epc), fun r hpos hr => ?_⟩
      rw [hregs r hpos hr, ← hframe.regs r hpos hr, TrapFrame.clockRead, readsClock_rd hrd]
  · rw [← hrestore, exec_state]
    exact hvm₂.write_image fun x _ => congrFun (hrestore ▸ hrestored.mem) x
  · rw [show m'.csr .satp = m₂.csr .satp from hrestored.satp, hcsr₂]
    exact hsatp

/-- An illegal instruction returns exactly when it reads a counter. -/
theorem trapEntry_illinst {base : Nat} (hscratch : (m.csr .mscratch).toNat = base + 8 * 37)
    (hill : m.csr .mcause = causeIllinst) :
    (trapEntry trapStack c m).isSome = true ↔ ∃ rd, ClockRead m rd := by
  have hsaved := exec_saveAll hscratch
  rw [trapEntry, Option.isSome_map, exec_mv]
  generalize m.exec saveAll = m₁ at hsaved
  have hframe : FrameOf m (loadTrapFrame m₁.mem base) := hsaved.frame
  have ha0 : (Function.update m₁.x a0 (m₁.x sp) a0).toNat = base := by
    rw [Function.update_self]
    exact hsaved.sp
  have hcause := hframe.cause.trans hill
  unfold callTrapHandler
  dsimp only
  rw [ha0, show (⟨Function.update m₁.x a0 (m₁.x sp), m₁.csr, m₁.state⟩ : UserMachine).mem = m₁.mem from rfl]
  constructor
  · intro hsome
    rcases hhandler : trapHandler (m₁.csr .satp) c.now (loadTrapFrame m₁.mem base) m₁.state with ⟨r, s⟩
    rw [hhandler] at hsome
    cases r with
    | resume tf =>
      obtain ⟨_, hne, _⟩ | ⟨_, hinst, _⟩ := trapHandler_resume hhandler
      · exact absurd hcause hne
      · obtain ⟨rd, hrd⟩ := (readsClock_iff _).mp hinst
        exact ⟨rd, hill, hframe.tval ▸ hrd⟩
    | returnFromUser => cases hsome
    | kernelException => cases hsome
    | unhandledInterrupt => cases hsome
  · rintro ⟨rd, _, hrd⟩
    rw [← hframe.tval] at hrd
    rw [trapHandler_clock hcause ((readsClock_iff _).mpr ⟨rd, hrd⟩)]
    rfl

end Trap

/-! ## A running job -/

/-- What the hardware sets when a job traps from user mode. -/
structure UserTrap where
  status : BitVec 64
  epc : BitVec 64
  cause : BitVec 64
  tval : BitVec 64
  cycle : BitVec 64
  user : status &&& mstatusMPP = 0

def UserMachine.enter (m : UserMachine) (e : UserTrap) : UserMachine :=
  { m with
    csr := fun
      | .mstatus => e.status
      | .mepc => e.epc
      | .mcause => e.cause
      | .mtval => e.tval
      | .cycle => e.cycle
      | .mscratch => m.csr .mscratch
      | .satp => m.csr .satp }

/-- The job changes its registers, stores a byte in a mapped page, or traps. -/
inductive UserEvent where
  | compute (x : Nat → BitVec 64)
  | store (va : Nat) (b : Byte)
  | trap (e : UserTrap) (c : HandlerCall)

def userStep (trapStack root : Nat) (m : UserMachine) : UserEvent → Option UserMachine
  | .compute x => some { m with x := x }
  | .store va b => (jobStep root m.state.kernel (.store va b)).map fun k =>
      { m with state := { m.state with kernel := k } }
  | .trap e c => trapEntry trapStack c (m.enter e)

-- `MSTATUS_MPIE`
def mstatusMPIE : BitVec 64 := 0x80

/-- The machine `arch_call_user` starts a job on; `x` is what `riscv_enter_user` leaves. -/
def archCallUser (trapStack pt pc : Nat) (x : Nat → BitVec 64) (s : TrapState) : UserMachine where
  x := x
  csr
    | .satp => setPt pt
    | .mepc => BitVec.ofNat 64 pc
    | .mstatus => mstatusMPIE
    | .mscratch => BitVec.ofNat 64 (trapStack + trapStackSize)
    | _ => 0
  state := s

section Run

variable {bssEnd trapStack root : Nat} {m m' : UserMachine}

theorem UserReady.enter (h : UserReady bssEnd trapStack root m) (e : UserTrap) :
    UserReady bssEnd trapStack root (m.enter e) := ⟨h.vm, h.satp, h.image, h.scratch⟩

theorem userStep_ready (m : UserMachine) (l : UserEvent) (m' : UserMachine)
    (h : UserReady bssEnd trapStack root m) (hstep : userStep trapStack root m l = some m') :
    UserReady bssEnd trapStack root m' := by
  cases l with
  | compute x =>
    obtain rfl := Option.some.inj hstep
    exact ⟨h.vm, h.satp, h.image, h.scratch⟩
  | store va b =>
    obtain ⟨k, hk, rfl⟩ := Option.map_eq_some_iff.mp hstep
    exact ⟨(jobStep_steps h.vm hk).inv h.vm, h.satp, h.image, h.scratch⟩
  | trap e c => exact (trapEntry_spec (h.enter e) e.user hstep).2

/-- A job starts with the top of the trap stack in `mscratch`. -/
theorem archCallUser_ready {s : TrapState} (hvm : VmInv s.kernel bssEnd [⟨root, 0⟩])
    (himage : trapStack + trapStackSize ≤ bssEnd) (pc : Nat) (x : Nat → BitVec 64) :
    UserReady bssEnd trapStack root (archCallUser trapStack root pc x s) := by
  have hbss := hvm.kernel.image_lt
  have hwithin := hvm.kernel.mm.placed.within
  have hbound := hvm.kernel.mm.counted.bound
  refine ⟨hvm, rfl, himage, ?_⟩
  show (BitVec.ofNat 64 (trapStack + trapStackSize)).toNat = _
  rw [BitVec.toNat_ofNat]
  exact Nat.mod_eq_of_lt (by omega)

/-- `do_judge` calls `arch_call_user` with a table the trap handler may use. -/
theorem JobBuilt.ready {mm : Mm} {mem : Mem} {image : Nat → Byte} {elfLen stdinLen : Nat} {u : UserEntry}
    {s : TrapState} (h : JobBuilt mm mem bssEnd image elfLen stdinLen u s.kernel root)
    (himage : trapStack + trapStackSize ≤ bssEnd) :
    UserReady bssEnd trapStack root (archCallUser trapStack root u.pc u.x s) :=
  archCallUser_ready (VmSteps.inv h.steps h.start) himage u.pc u.x

theorem runUser_ready {events : List UserEvent} (h : UserReady bssEnd trapStack root m)
    (hrun : runSteps (userStep trapStack root) m events = some m') : UserReady bssEnd trapStack root m' :=
  runSteps_invariant userStep_ready h hrun

end Run

/-- After any run of a job, a trap whose handler returns is transparent and finds its frame at the
same place; an illegal instruction returns exactly when it reads a counter. -/
theorem traps_transparent {bssEnd trapStack root : Nat} {m m₁ : UserMachine} {events : List UserEvent}
    (h : UserReady bssEnd trapStack root m)
    (hrun : runSteps (userStep trapStack root) m events = some m₁) (e : UserTrap) (c : HandlerCall) :
    (e.cause = causeIllinst → ((userStep trapStack root m₁ (.trap e c)).isSome = true ↔
      ∃ rd, ClockRead (m₁.enter e) rd)) ∧
    ∀ m₂, userStep trapStack root m₁ (.trap e c) = some m₂ → Transparent trapStack c (m₁.enter e) m₂ := by
  have hready := (runUser_ready h hrun).enter e
  have hframe : ((m₁.enter e).csr .mscratch).toNat = trapStack + trapStackSize - 8 * 37 + 8 * 37 := by
    rw [hready.scratch, trapStackSize]
    omega
  constructor
  · intro hill
    exact trapEntry_illinst hframe hill
  · intro m₂ htrap
    exact (trapEntry_spec hready e.user htrap).1

/-- A `rdcycle sp`. -/
def clockTrap : UserTrap where
  status := mstatusMPIE
  epc := 0x10040
  cause := causeIllinst
  tval := 0xc0002173
  cycle := 0
  user := by decide

def clockCall : HandlerCall := ⟨7, fun _ => 0, fun _ => 0⟩

/-- The theorem at the first trap of a job with the small image, on a trap stack below 0x40800. -/
theorem traps_transparent_small : ∃ root m m₂, UserReady 0x40800 0x3f000 root m ∧
    userStep 0x3f000 root m (.trap clockTrap clockCall) = some m₂ ∧
    Transparent 0x3f000 clockCall (m.enter clockTrap) m₂ := by
  obtain ⟨mm, hmm, _, u, k, hrun⟩ := boot_reaches (bytesAt smallElf 0 120) (by decide +kernel)
  obtain ⟨root, hbuilt⟩ := doJudge_built hmm (show [].length ≤ judgeTftpBuffSize by decide) hrun
  let s : TrapState := ⟨k, ⟨0, 0, 0, 0⟩, 0⟩
  have hbuilt' : JobBuilt mm (fun _ => 0) 0x40800 _ _ _ u s.kernel root := hbuilt
  have hready : UserReady 0x40800 0x3f000 root _ := hbuilt'.ready (by decide)
  obtain ⟨hreturns, htransparent⟩ := traps_transparent hready (runSteps_nil _ _) clockTrap clockCall
  have hread : ReadsClock (clockTrap.tval.setWidth 32) 2 := by decide
  have hsome := (hreturns rfl).mpr ⟨2, rfl, hread⟩
  obtain ⟨m₂, htrap⟩ := Option.isSome_iff_exists.mp hsome
  exact ⟨root, _, m₂, hready, htrap, htransparent m₂ htrap⟩

end VijosOS
