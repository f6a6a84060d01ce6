import VijosOS.Judge.Elf

/-!
# Setting up a judge job

`do_judge` of `judge.c` up to `arch_call_user`, and the register state in which
`riscv_enter_user` leaves for user mode. The two downloads are inputs; the static
download buffer keeps what it held beyond the bytes of the last file.
-/

namespace VijosOS

open Library

def stackSize : Nat := 0x400000
def heapSize : Nat := 0x400000
def heapVa : Nat := 0x10000000
def stdoutLimit : Nat := 0x10000
def judgeTftpBuffSize : Nat := 0x400000

def atPhdr : Nat := 3
def atPhent : Nat := 4
def atPhnum : Nat := 5
def atPagesz : Nat := 6

structure JudgeReq where
  seq : Nat
  timeLimit : Nat
  memLimit : Nat

/-- What `tftp_get_file` returned: an error, or a file in the buffer. -/
inductive Download where
  | failed (ret : Int) (negative : ret < 0)
  | file (bytes : List Byte)

/-- Kernel code with early returns. -/
abbrev KernelM := ExceptT Int (StateM Kernel)

/-- The rest of the code runs on the state an operation left, unless it returned early. -/
theorem kernelM_bind {α β : Type} (x : KernelM α) (f : α → KernelM β) (k : Kernel) :
    (x >>= f) k = match (x k).1 with
      | .ok a => f a (x k).2
      | .error e => (.error e, (x k).2) := by
  rcases h : x k with ⟨r, k'⟩
  simp only [bind, ExceptT.bind, ExceptT.mk, StateT.bind, ExceptT.bindCont, h]
  cases r with
  | ok a => rfl
  | error e => rfl

/-- Every value the code can return has property `P`. -/
def Yields {α : Type} (P : α → Prop) (x : KernelM α) : Prop := ∀ k a, (x k).1 = .ok a → P a

theorem Yields.bind {α β : Type} {P : β → Prop} (Q : α → Prop) {x : KernelM α} {f : α → KernelM β}
    (hx : Yields Q x) (hf : ∀ a, Q a → Yields P (f a)) : Yields P (x >>= f) := by
  intro k b h
  rw [kernelM_bind] at h
  cases hret : (x k).1 with
  | ok a =>
    rw [hret] at h
    exact hf a (hx k a hret) _ b h
  | error e =>
    rw [hret] at h
    cases h

/-- Sequencing when the first value does not matter. -/
theorem Yields.after {α β : Type} {P : β → Prop} {x : KernelM α} {f : α → KernelM β}
    (hf : ∀ a, Yields P (f a)) : Yields P (x >>= f) :=
  Yields.bind (fun _ => True) (fun _ _ _ => trivial) fun a _ => hf a

theorem yields_pure {α : Type} {P : α → Prop} {a : α} (h : P a) : Yields P (pure a) := by
  intro k b hb
  obtain rfl := Except.ok.inj hb
  exact h

def Download.get (d : Download) : KernelM (List Byte) := fun k =>
  match d with
  | .failed ret _ => (.error ret, k)
  | .file bytes => (.ok bytes, k)

-- `if ((ret = op) < 0) return ret;`
def check (op : Kernel → Int × Kernel) : KernelM Unit := fun k =>
  match op k with
  | (ret, k) => if ret < 0 then (.error ret, k) else (.ok (), k)

-- `if (!op) return -EOOM;`
def checkOom (op : Kernel → Bool × Kernel) : KernelM Unit := fun k =>
  match op k with
  | (false, k) => (.error (-eOOM), k)
  | (true, k) => (.ok (), k)

def newPt : KernelM (Option Nat) := fun k =>
  match createPt k with
  | (pt, k) => (.ok pt, k)

/-- The call of `load_elf`, with `entry_va` as it is afterwards. -/
def loadImage (pt : Option Nat) (elf : Nat → Byte) (len : Nat) : KernelM Nat := fun k =>
  let r := loadElf pt elf len k
  if r.ret < 0 then (.error r.ret, r.kernel) else (.ok (r.entry.getD 0), r.kernel)

/-- A call of `map_page` whose result is used without a check. -/
def pageOf (pt : Option Nat) (va : Nat) (flags : BitVec 64) : KernelM Nat := fun k =>
  match mapPage pt va flags k with
  | (pg, k) => (.ok (pg.getD 0), k)

def store (a : Nat) (bytes : List Byte) : KernelM Unit := fun k =>
  (.ok (), { k with mem := writeBytes k.mem a bytes })

/-- An array of 64-bit words in memory order. -/
def wordBytes (ws : List Nat) : List Byte := ws.flatMap (leBytes 8)

theorem wordBytes_length (ws : List Nat) : (wordBytes ws).length = 8 * ws.length := by
  induction ws with
  | nil => rfl
  | cons w ws ih =>
    rw [wordBytes, List.flatMap_cons, List.length_append, leBytes_length, List.length_cons]
    rw [wordBytes] at ih
    omega

/-- The state in which the user program starts. -/
structure UserEntry where
  pt : Option Nat
  pc : Nat
  x : Nat → BitVec 64
  oneshot : Nat

/-- The registers at `mret`: `t2` still holds the last word of the `zeros` block. -/
def enterUser (sp : Nat) (zerosLast : BitVec 64) (r : Nat) : BitVec 64 :=
  if r = 2 then BitVec.ofNat 64 sp else if r = 7 then zerosLast else 0

def elfHeaderVa : Nat := userTop - pgSize

/-- The stack page: the `aux_t` of the program below 16 free bytes, and `stack_word` below that. -/
def setupStack (pt : Option Nat) (stackVa : Nat) (aux stackWord : List Nat) : KernelM Unit := do
  let page ← pageOf pt stackVa (vmU ||| vmR ||| vmW)
  let stack := page + pgSize - 0x10
  let stack := stack - 8 * aux.length
  store stack (wordBytes aux)
  let stack := stack - 8 * stackWord.length
  store stack (wordBytes stackWord)

/-- The part of `do_judge` after the page table was created. -/
def buildUser (req : JudgeReq) (elf : List Byte) (stdin : Download) (zerosLast : BitVec 64)
    (judgeTftpBuff : Nat → Byte) (pt : Option Nat) : KernelM UserEntry := do
  let buff := writeBytes judgeTftpBuff 0 elf
  let elfLen := elf.length
  let entryVa ← loadImage pt buff elfLen
  let elfVa := elfHeaderVa
  let copylen := if elfLen < pgSize then elfLen else pgSize
  check (mapAndCopy pt elfVa (vmU ||| vmR ||| vmA) buff copylen)
  let phdrVa := wrap64 ((parseElfPhdr buff).1 + elfVa)
  let phent := (parseElfPhdr buff).2.1
  let phnum := (parseElfPhdr buff).2.2
  let stdinBytes ← stdin.get
  let buff := writeBytes buff 0 stdinBytes
  let stdinLen := stdinBytes.length
  let stdinVa := sub64 elfVa (pgAlign stdinLen)
  check (mapAndCopy pt stdinVa (vmU ||| vmR ||| vmA) buff stdinLen)
  let stdoutLen := stdoutLimit
  let stdoutVa := sub64 stdinVa stdoutLen
  checkOom (mapRange pt (vmU ||| vmR ||| vmW) stdoutVa (wrap64 (stdoutVa + stdoutLen)))
  let stackVa := stdoutVa
  let stackLimit := sub64 stackVa stackSize
  checkOom (mapRange pt (vmU ||| vmR ||| vmW) stackLimit stackVa)
  checkOom (mapRange pt (vmU ||| vmR ||| vmW) heapVa (wrap64 (heapVa + heapSize)))
  let stackVa := sub64 stackVa 0x10
  let aux := [stdinVa, stdinLen, stdoutVa, stdoutLen, 0, heapVa, wrap64 (heapVa + heapSize)]
  let stackWord := [0, 0, 0, atPhdr, phdrVa, atPhent, phent, atPhnum, phnum, atPagesz, pgSize, 0, 0]
  setupStack pt stackVa aux stackWord
  let stackVa := sub64 (sub64 stackVa (8 * aux.length)) (8 * stackWord.length)
  return {
    pt := pt
    pc := entryVa
    x := enterUser stackVa zerosLast
    oneshot := wrap64 (req.timeLimit + req.timeLimit / 10 + 2000000) }

def doJudge (req : JudgeReq) (elf stdin : Download) (zerosLast : BitVec 64)
    (judgeTftpBuff : Nat → Byte) : KernelM UserEntry := do
  let elfBytes ← elf.get
  let pt ← newPt
  buildUser req elfBytes stdin zerosLast judgeTftpBuff pt

end VijosOS
