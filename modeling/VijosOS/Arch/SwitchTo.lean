import VijosOS.Arch.Trap
import VijosOS.Library.Coroutine
import VijosOS.Task.Resumption

/-!
# The registers of a context switch

`switch_to.S` saves the registers of a `regs_t` in the record of the current task and loads them
from the record of the next one. Over whole runs the tasks are coroutines: each one continues with
the registers it had when it was switched away from.
-/

namespace VijosOS

open Library

/-! ## switch_to.S -/

namespace Reg

abbrev ra : Nat := 1
abbrev tp : Nat := 4
abbrev a1 : Nat := 11

end Reg

-- The members of a `regs_t`: ra, sp, tp, s0 to s11.
def regsMembers : List Nat := [1, 2, 4, 8, 9, 18, 19, 20, 21, 22, 23, 24, 25, 26, 27]

/-- The register whose value is the member `i` of a `regs_t`. -/
def regsMember (i : Nat) : Nat := regsMembers.getD i 0

/-- `sizeof(regs_t)` in words. -/
abbrev regsWords : Nat := 15

def saveRegs : List (Instr Empty) :=
  (List.range regsWords).map fun i => .sd (regsMember i) (BitVec.ofNat 64 (8 * i)) Reg.a0

def loadRegs : List (Instr Empty) :=
  (List.range regsWords).map fun i => .ld (regsMember i) (BitVec.ofNat 64 (8 * i)) Reg.a1

-- `beqz a0, a0_null`, and `jr ra` continues where the loaded `ra` points.
def switchTo (h : Hart) : Hart := exec loadRegs (if h.get Reg.a0 = 0 then h else exec saveRegs h)

/-! ## The machine -/

abbrev Context : Type := Fin regsWords → BitVec 64

/-- The registers `switch_to` saves. -/
def liveContext (h : Hart) : Context := fun i => h.x (regsMember i)

def savedContext (m : Mem) (a : Nat) : Context := fun i => slotAt m a i

/-- The records of the tasks do not overlap, and none is at the null pointer. -/
structure RegsLayout {T : Type} (addr : T → Nat) : Prop where
  pos : ∀ t, addr t ≠ 0
  fits : ∀ t, addr t + 8 * regsWords ≤ 2 ^ 64
  apart : ∀ t u, t ≠ u → addr t + 8 * regsWords ≤ addr u ∨ addr u + 8 * regsWords ≤ addr t

structure SwitchMachine (T : Type) where
  hart : Hart
  lastTask : Option T

/-- Code of a task computes, or stores a byte outside the records; or it calls one of the functions
that use them. A call of C code sets `ra`. -/
inductive SwitchEvent {T : Type} (addr : T → Nat) where
  | code (x : Nat → BitVec 64)
  | store (p : Nat) (b : Byte) (outside : ∀ t, ¬ (addr t ≤ p ∧ p < addr t + 8 * regsWords))
  | createTask (task : T) (stack entry : BitVec 64)
  | switchTo (ra : BitVec 64) (curr : Option T) (next : T)
  | archCallUser (ra sp : BitVec 64) (curr : T)
  | archReturnFromUser (ra : BitVec 64) (last : T)

section Machine

variable {T : Type} [DecidableEq T]

def pointer (addr : T → Nat) : Option T → BitVec 64
  | some t => BitVec.ofNat 64 (addr t)
  | none => 0

/-- The registers at the first instruction of a called `switch_to`. -/
def argsHart (addr : T → Nat) (h : Hart) (ra : BitVec 64) (curr : Option T) (next : T) : Hart :=
  ((h.set Reg.ra ra).set Reg.a0 (pointer addr curr)).set Reg.a1 (pointer addr (some next))

def callSwitchTo (addr : T → Nat) (h : Hart) (ra : BitVec 64) (curr : Option T) (next : T) : Hart :=
  switchTo (argsHart addr h ra curr next)

-- `regs.sp`, `regs.ra` and `regs.tp` in the order of the source
def createRegs (m : Mem) (a : Nat) (stack entry tp : BitVec 64) : Mem :=
  store64 (store64 (store64 m (a + 8 * 1) stack) (a + 8 * 0) entry) (a + 8 * 2) tp

/-- `memset(&user_task.regs, 0, sizeof(user_task.regs))`, then `ra` and `sp`. -/
def userRegs (m : Mem) (a : Nat) (enterUser sp : BitVec 64) : Mem :=
  store64 (store64 (copyTo m a (8 * regsWords) fun _ => 0) (a + 8 * 0) enterUser) (a + 8 * 1) sp

namespace SwitchMachine

def step (addr : T → Nat) (user : T) (enterUser : BitVec 64) (m : SwitchMachine T) :
    SwitchEvent addr → Option (SwitchMachine T)
  | .code x => some { m with hart := { m.hart with x := x } }
  | .store p b _ => some { m with hart := { m.hart with mem := writeBytes m.hart.mem p [b] } }
  | .createTask task stack entry => some { m with
      hart := { m.hart with
        mem := createRegs m.hart.mem (addr task) stack entry (pointer addr (some task)) } }
  | .switchTo ra curr next => some { m with hart := callSwitchTo addr m.hart ra curr next }
  | .archCallUser ra sp curr =>
    if m.hart.get Reg.tp = pointer addr (some curr) then some {
      hart := callSwitchTo addr
        { m.hart with mem := userRegs m.hart.mem (addr user) enterUser sp } ra (some curr) user
      lastTask := some curr }
    else none
  | .archReturnFromUser ra last =>
    if m.lastTask = some last then some { m with hart := callSwitchTo addr m.hart ra none last } else none

end SwitchMachine

end Machine

/-! ## The code of switch_to -/

section Code

variable {T : Type} {addr : T → Nat} {h : Hart} {base : Nat}

theorem regsMember_ok : ∀ i ∈ List.range regsWords, regsMember i ≠ 0 ∧ regsMember i ≠ Reg.a0 ∧
    regsMember i ≠ Reg.a1 ∧ ∀ j ∈ List.range regsWords, regsMember i = regsMember j → i = j := by
  decide

theorem saveRegs_spec (ha : (h.get Reg.a0).toNat = base) (hfit : base + 8 * regsWords ≤ 2 ^ 64) :
    exec saveRegs h =
      { h with mem := storeSlots h.mem base (fun i => h.get (regsMember i)) (List.range regsWords) } := by
  have hslots : ∀ i ∈ List.range regsWords, base + 8 * i < 2 ^ 64 := by
    intro i hi
    have hlt := List.mem_range.mp hi
    omega
  exact congrArg Prod.snd (foldl_storeSlots (L := Empty) regsMember (List.range regsWords) ha hslots)

theorem loadRegs_spec (ha : (h.get Reg.a1).toNat = base) (hfit : base + 8 * regsWords ≤ 2 ^ 64) :
    liveContext (exec loadRegs h) = savedContext h.mem base ∧ (exec loadRegs h).mem = h.mem ∧
      (exec loadRegs h).csr = h.csr ∧ ∀ r ∉ regsMembers, (exec loadRegs h).x r = h.x r := by
  have hslots : ∀ i ∈ List.range regsWords, base + 8 * i < 2 ^ 64 := by
    intro i hi
    have hlt := List.mem_range.mp hi
    omega
  obtain ⟨x, hrun, hloaded, hkept⟩ := foldl_loadSlots (L := Empty) regsMember (List.range regsWords) ha hslots
    (fun i hi => (regsMember_ok i hi).1) (fun i hi => (regsMember_ok i hi).2.2.1)
    (fun i hi => (regsMember_ok i hi).2.2.2)
  have hexec : exec loadRegs h = { h with x := x } := congrArg Prod.snd hrun
  rw [hexec]
  refine ⟨funext fun i => hloaded i (List.mem_range.mpr i.isLt), rfl, rfl, fun r hr => hkept r ?_⟩
  intro i hi hsame
  have hlt : i < regsMembers.length := List.mem_range.mp hi
  refine hr ?_
  rw [← hsame, regsMember, List.getD_eq_getElem _ _ hlt]
  exact List.getElem_mem hlt

end Code

/-! ## The records -/

section Records

variable {T : Type} {addr : T → Nat}

theorem RegsLayout.outside (hlay : RegsLayout addr) {t u : T} (htu : t ≠ u) {p : Nat}
    (hp : addr t ≤ p ∧ p < addr t + 8 * regsWords) : ¬ (addr u ≤ p ∧ p < addr u + 8 * regsWords) := by
  have hapart := hlay.apart t u htu
  omega

/-- A memory that differs in the record of `u` only. -/
theorem savedContext_update [DecidableEq T] (hlay : RegsLayout addr) {m m' : Mem} {u : T} {c : Context}
    (hsaved : savedContext m' (addr u) = c)
    (hout : ∀ p, ¬ (addr u ≤ p ∧ p < addr u + 8 * regsWords) → m' p = m p) :
    (fun t => savedContext m' (addr t)) = Function.update (fun t => savedContext m (addr t)) u c := by
  funext t
  by_cases htu : t = u
  · subst htu
    rw [Function.update_self, hsaved]
  · rw [Function.update_of_ne htu]
    funext i
    refine slotAt_congr (n := regsWords) (fun p hlo hhi => hout p ?_) i.isLt
    exact hlay.outside htu ⟨hlo, hhi⟩

/-- The members `create_task` sets. -/
def createContext (c : Context) (stack entry tp : BitVec 64) : Context :=
  Function.update (Function.update (Function.update c 1 stack) 0 entry) 2 tp

def userContext (enterUser sp : BitVec 64) : Context :=
  Function.update (Function.update (fun _ => 0) 0 enterUser) 1 sp

end Records

/-! ## A call of switch_to -/

section Call

variable {T : Type} {addr : T → Nat}

/-- The tasks as coroutines: the registers of the hart, and the records. -/
def coroutines (addr : T → Nat) (h : Hart) : Coroutines T Context :=
  ⟨liveContext h, fun t => savedContext h.mem (addr t)⟩

theorem liveContext_args (h : Hart) (ra : BitVec 64) (curr : Option T) (next : T) :
    liveContext (argsHart addr h ra curr next) = Function.update (liveContext h) 0 ra := by
  have hmember : ∀ i : Fin regsWords, regsMember i ≠ Reg.a0 ∧ regsMember i ≠ Reg.a1 ∧
      (regsMember i = Reg.ra ↔ i = 0) := by
    decide
  funext i
  obtain ⟨ha0, ha1, hra⟩ := hmember i
  show Function.update (Function.update (Function.update h.x Reg.ra ra) Reg.a0 _) Reg.a1 _ (regsMember i) = _
  rw [Function.update_of_ne ha1, Function.update_of_ne ha0]
  by_cases hi : i = 0
  · subst hi
    rw [Function.update_self]
    exact Function.update_self _ _ _
  · rw [Function.update_of_ne hi, Function.update_of_ne fun hv => hi (hra.mp hv)]
    rfl

theorem pointer_toNat (hlay : RegsLayout addr) (t : T) : (pointer addr (some t)).toNat = addr t := by
  have hfit : addr t + 8 * 15 ≤ 2 ^ 64 := hlay.fits t
  rw [pointer, BitVec.toNat_ofNat, Nat.mod_eq_of_lt (by omega)]

theorem pointer_eq_zero (hlay : RegsLayout addr) (curr : Option T) : pointer addr curr = 0 ↔ curr = none := by
  cases curr with
  | none => exact ⟨fun _ => rfl, fun _ => rfl⟩
  | some t =>
    refine ⟨fun hzero => ?_, nofun⟩
    have haddr := pointer_toNat hlay t
    rw [hzero] at haddr
    exact absurd haddr.symm (hlay.pos t)

variable [DecidableEq T]

/-- The records after the save of the running context. -/
theorem save_records (hlay : RegsLayout addr) (h : Hart) (curr : Option T)
    (ha0 : h.get Reg.a0 = pointer addr curr) :
    ∃ m, (if h.get Reg.a0 = 0 then h else exec saveRegs h) = { h with mem := m } ∧
      (fun t => savedContext m (addr t)) = (coroutines addr h).save curr ∧
      ∀ p, (∀ t, curr = some t → ¬ (addr t ≤ p ∧ p < addr t + 8 * regsWords)) → m p = h.mem p := by
  cases curr with
  | none =>
    rw [if_pos (ha0.trans ((pointer_eq_zero hlay none).mpr rfl))]
    exact ⟨h.mem, rfl, rfl, fun _ _ => rfl⟩
  | some t =>
    have hne : h.get Reg.a0 ≠ 0 := by
      rw [ha0]
      exact fun hzero => Option.some_ne_none t ((pointer_eq_zero hlay _).mp hzero)
    rw [if_neg hne, saveRegs_spec (ha0 ▸ pointer_toNat hlay t) (hlay.fits t)]
    have hout : ∀ p, ¬ (addr t ≤ p ∧ p < addr t + 8 * regsWords) →
        storeSlots h.mem (addr t) (fun i => h.get (regsMember i)) (List.range regsWords) p = h.mem p :=
      fun p hp => storeSlots_outside (fun i hi => List.mem_range.mp hi) hp
    refine ⟨_, rfl, ?_, fun p hp => hout p (hp t rfl)⟩
    refine savedContext_update hlay ?_ hout
    funext i
    have hi : (i : Nat) ∈ List.range regsWords := List.mem_range.mpr i.isLt
    rw [savedContext, slotAt_storeSlots, if_pos hi, Hart.get, if_neg (regsMember_ok i hi).1]
    rfl

/-- A call of `switch_to` is a switch of the coroutines, and writes the record of the task it leaves. -/
theorem callSwitchTo_spec (hlay : RegsLayout addr) (h : Hart) (ra : BitVec 64) (curr : Option T) (next : T) :
    coroutines addr (callSwitchTo addr h ra curr next) =
        (((coroutines addr h).step (.run fun c => Function.update c 0 ra)).step (.switch curr next)) ∧
      ∀ p, (∀ t, curr = some t → ¬ (addr t ≤ p ∧ p < addr t + 8 * regsWords)) →
        (callSwitchTo addr h ra curr next).mem p = h.mem p := by
  have ha0 : (argsHart addr h ra curr next).get Reg.a0 = pointer addr curr := rfl
  have ha1 : (argsHart addr h ra curr next).get Reg.a1 = pointer addr (some next) := rfl
  obtain ⟨m, hsave, hrecords, hout⟩ := save_records hlay _ curr ha0
  have hnext : (Hart.get { argsHart addr h ra curr next with mem := m } Reg.a1).toNat = addr next := by
    show ((argsHart addr h ra curr next).get Reg.a1).toNat = addr next
    rw [ha1, pointer_toNat hlay next]
  obtain ⟨hlive, hmem, _, _⟩ := loadRegs_spec hnext (hlay.fits next)
  have hcode : callSwitchTo addr h ra curr next =
      exec loadRegs { argsHart addr h ra curr next with mem := m } := by
    rw [← hsave]
    rfl
  have hstart : coroutines addr (argsHart addr h ra curr next) =
      (coroutines addr h).step (.run fun c => Function.update c 0 ra) := by
    show Coroutines.mk _ _ = Coroutines.mk _ _
    rw [liveContext_args]
    rfl
  rw [hcode, ← hstart]
  refine ⟨?_, fun p hp => by rw [hmem]; exact hout p hp⟩
  show Coroutines.mk _ _ = Coroutines.mk _ _
  rw [hlive, hmem, ← hrecords]

end Call

/-! ## Runs -/

/-- What the function calls of an event do to the contexts. -/
def SwitchEvent.contexts {T : Type} {addr : T → Nat} (user : T) (enterUser : BitVec 64) :
    SwitchEvent addr → List (Coroutines.Event T Context)
  | .code x => [.run fun _ i => x (regsMember i)]
  | .store _ _ _ => []
  | .createTask task stack entry => [.prepare task fun c => createContext c stack entry (pointer addr (some task))]
  | .switchTo ra curr next => [.run fun c => Function.update c 0 ra, .switch curr next]
  | .archCallUser ra sp curr =>
    [.prepare user fun _ => userContext enterUser sp, .run fun c => Function.update c 0 ra,
      .switch (some curr) user]
  | .archReturnFromUser ra last => [.run fun c => Function.update c 0 ra, .switch none last]

section Run

variable {T : Type} [DecidableEq T] {addr : T → Nat} {user : T} {enterUser : BitVec 64}
  {m m₁ m₂ m₃ : SwitchMachine T} {e e' : SwitchEvent addr} {t : T}

end Run

/-- The registers of a context as the scheduler's model sees them: whose code and whose stack `ra`
and `sp` point into, and the record `tp` points at. -/
structure RegsOf (addr : Owner → Nat) (inCode inStack : Owner → BitVec 64 → Prop) (c : Context) (r : Regs) :
    Prop where
  ra : inCode r.ra (c 0)
  sp : inStack r.sp (c 1)
  tp : c 2 = pointer addr r.tp

def Machine.contexts (m : Machine) : Coroutines Owner Regs := ⟨m.cpu, m.regs⟩

theorem Machine.switchTo_contexts (m : Machine) (curr : Option Owner) (next : Owner) :
    (m.switchTo curr next).contexts = m.contexts.step (.switch curr next) := by
  cases curr with
  | none => rfl
  | some o => rfl

/-- The code of `switch_to` refines the switch of the scheduler's model. -/
theorem callSwitchTo_refines {addr : Owner → Nat} (hlay : RegsLayout addr)
    {inCode inStack : Owner → BitVec 64 → Prop} {h : Hart} {m : Machine}
    (hrel : (coroutines addr h).Related (RegsOf addr inCode inStack) m.contexts) {ra : BitVec 64}
    (hra : inCode m.cpu.ra ra) (curr : Option Owner) (next : Owner) :
    (coroutines addr (callSwitchTo addr h ra curr next)).Related (RegsOf addr inCode inStack)
      (m.switchTo curr next).contexts := by
  rw [(callSwitchTo_spec hlay h ra curr next).1, Machine.switchTo_contexts]
  have hreturn : RegsOf addr inCode inStack (Function.update (liveContext h) 0 ra) m.cpu :=
    ⟨(Function.update_self (0 : Fin regsWords) ra (liveContext h)).symm ▸ hra, hrel.1.sp, hrel.1.tp⟩
  exact Coroutines.Related.switch (s := Coroutines.step _ _) ⟨hreturn, hrel.2⟩ curr next

end VijosOS
