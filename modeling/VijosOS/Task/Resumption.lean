import VijosOS.Task.Log

/-!
# Context switches and resumption

The register contexts under the scheduler, user mode included: `switch_to` stores the
registers of one task and loads those of another, and `current` is whatever `tp` holds. A
record of the last suspension of each task says when the task may go on.
-/

namespace VijosOS

open Library

/-! ## Contexts -/

/-- Whose code `ra` points into, whose stack `sp` points into, whose record `tp` points at. -/
inductive Owner where
  | task (t : Nat)
  | user
  deriving DecidableEq

/-- The members of `regs_t` that tell tasks apart; a null pointer is `none`. -/
structure Regs where
  ra : Owner
  sp : Owner
  tp : Option Owner
  deriving DecidableEq

/-- What `create_task` writes. -/
def Regs.create (t : Nat) : Regs := ⟨.task t, .task t, some (.task t)⟩

/-- What `arch_call_user` writes. -/
def Regs.callUser : Regs := ⟨.user, .user, none⟩

/-- A suspension: the statement that suspended the task, the clock, and the number that
`recv_udp` gave its call. -/
structure Suspension where
  label : Sched.Label
  clock : Nat
  call : Nat

structure Machine where
  sched : Sched
  cpu : Regs
  regs : Owner → Regs
  lastTask : Option Owner
  suspended : Nat → Option Suspension

/-! ## Execution -/

/-- A call of `wait` names an event; every caller passes one of the `WAIT_` bits. -/
def Sched.Label.namesEvent : Sched.Label → Bool
  | .wait w => w != 0
  | _ => true

/-- `exit()`. -/
def Sched.Label.exit : Sched.Label := .wait waitExit

def Sched.Label.isTick : Sched.Label → Bool
  | .tick _ => true
  | _ => false

namespace Machine

/-- `dontCare` is what the registers of the idle task hold before its first switch. -/
def boot (numTask : Nat) (dontCare : Owner) : Machine where
  sched := Sched.boot numTask
  cpu := Regs.create Sched.idleTask
  regs := fun o =>
    match o with
    | .task t => if t = Sched.idleTask then { Regs.create t with ra := dontCare, sp := dontCare } else Regs.create t
    | .user => Regs.callUser
  lastTask := none
  suspended := fun _ => none

def current (m : Machine) : Option Owner := m.cpu.tp

/-- `switch_to`; a null `curr` is not stored to. -/
def switchTo (m : Machine) (curr : Option Owner) (next : Owner) : Machine :=
  let regs := match curr with
    | some o => Function.update m.regs o m.cpu
    | none => m.regs
  { m with regs := regs, cpu := regs next }

/-- A switch of the scheduler; a switch to idle suspends the task. -/
def schedSwitch (m : Machine) (s : Sched) (l : Sched.Label) (next : Nat) : Machine :=
  let suspended := if next = Sched.idleTask then
      Function.update m.suspended m.sched.current (some ⟨l, m.sched.cycle, m.sched.log.calls.length⟩)
    else m.suspended
  { m with sched := s, suspended := suspended }.switchTo m.current (.task next)

inductive Event where
  | kernel (l : Sched.Label)
  | callUser
  | returnFromUser

def kernelStep (m : Machine) (l : Sched.Label) : Option Machine :=
  (m.sched.step l).map fun s =>
    match m.sched.switches l with
    | some next => m.schedSwitch s l next
    | none => { m with sched := s }

def step (m : Machine) : Event → Option Machine
  | .kernel l => if l.namesEvent ∧ (m.cpu.ra ≠ .user ∨ l.isTick) then m.kernelStep l else none
  | .callUser =>
    if m.cpu.ra = .user ∨ m.cpu.ra = .task Sched.idleTask then none
    else some (switchTo
      { m with regs := Function.update m.regs .user Regs.callUser, lastTask := m.current }
      m.current .user)
  | .returnFromUser =>
    if m.cpu.ra = .user then m.lastTask.map fun o => m.switchTo none o
    else none

end Machine

/-! ## Suspensions -/

namespace Suspension

variable {x : Suspension} {s s' : Sched} {t : Nat}

/-- The timer that `sleep` has set, until `poll_timer` finds it expired. -/
def Sleeping (x : Suspension) (delta : BitVec 64) (s : Sched) (t : Nat) : Prop :=
  if (s.tasks t).timer.timeout then x.clock + delta.toNat ≤ s.cycle
  else (s.tasks t).timer.start = BitVec.ofNat 64 x.clock ∧ (s.tasks t).timer.delta = delta

/-- The wait record that `recv_udp` has filled in, until a delivery or its timeout clears it. -/
def Receiving (x : Suspension) (timeout : BitVec 64) (s : Sched) (t : Nat) : Prop :=
  if (s.tasks t).waitPacket.isWaiting then
    (s.tasks t).waitPacket.call = x.call ∧ (s.tasks t).waitPacket.start = BitVec.ofNat 64 x.clock ∧
      (s.tasks t).waitPacket.delta = timeout
  else (∃ i, (i, x.call) ∈ s.log.deliveries) ∨ x.clock + timeout.toNat ≤ s.cycle

/-- The task is where the suspension left it, and its record says why. -/
def Holds (x : Suspension) (s : Sched) (t : Nat) : Prop :=
  x.clock ≤ s.cycle ∧
    match x.label with
    | .wait w => (s.tasks t).point = .inWait w
    | .sleep delta => (s.tasks t).point = .inSleep delta ∧ x.Sleeping delta s t
    | .recvUdp _ _ timeout => (s.tasks t).point = .inRecv x.call ∧ x.Receiving timeout s t
    | _ => (s.tasks t).point.isWait = false

/-- What the step `l` must have found before it goes back to the suspended task. -/
def MayResume (x : Suspension) (s : Sched) (l : Sched.Label) : Prop :=
  match x.label with
  | .wait w => l = .poll true ∧ ∃ e, s.idle.event = some e ∧ w &&& e ≠ 0
  | .sleep delta => x.clock + delta.toNat ≤ s.cycle
  | .recvUdp _ _ timeout =>
    (∃ i, (i, x.call) ∈ s.log.deliveries) ∨ x.clock + timeout.toNat ≤ s.cycle
  | _ => True

/-- The test of `poll_timer` and `task_poll_udp`: wrap-around can only delay it. -/
theorem elapsed {clock cycle : Nat} {delta : BitVec 64} (hle : clock ≤ cycle)
    (h : delta ≤ BitVec.ofNat 64 cycle - BitVec.ofNat 64 clock) : clock + delta.toNat ≤ cycle := by
  have hsub : (BitVec.ofNat 64 cycle - BitVec.ofNat 64 clock).toNat = (cycle - clock) % 2 ^ 64 := by
    rw [BitVec.toNat_sub, BitVec.toNat_ofNat, BitVec.toNat_ofNat]
    omega
  have hdelta : delta.toNat ≤ (cycle - clock) % 2 ^ 64 := hsub ▸ BitVec.le_def.mp h
  have hmod : (cycle - clock) % 2 ^ 64 ≤ cycle - clock := Nat.mod_le _ _
  omega

theorem Sleeping.rest {delta : BitVec 64} (h : x.Sleeping delta s t) (hclock : x.clock ≤ s.cycle)
    (hrest : Sched.Rest s s' t) (hcycle : s.cycle ≤ s'.cycle) : x.Sleeping delta s' t := by
  have hkeep : (s'.tasks t).timer = (s.tasks t).timer → x.Sleeping delta s' t := by
    intro htimer
    unfold Sleeping at h ⊢
    rw [htimer]
    split_ifs at h ⊢
    · exact h.trans hcycle
    · exact h
  cases hrest with
  | same htask => exact hkeep (by rw [htask])
  | expired hdue htask =>
    unfold Sleeping at h ⊢
    rw [htask, if_pos rfl]
    split_ifs at h
    · exact h.trans hcycle
    · rw [h.1, h.2] at hdue
      exact (elapsed hclock hdue).trans hcycle
  | delivered i hwaiting hi htask => exact hkeep (by rw [htask])

theorem Receiving.rest {timeout : BitVec 64} (h : x.Receiving timeout s t) (hrest : Sched.Rest s s' t)
    (hcycle : s.cycle ≤ s'.cycle) (hlog : ∀ p ∈ s.log.deliveries, p ∈ s'.log.deliveries) :
    x.Receiving timeout s' t := by
  have hkeep : (s'.tasks t).waitPacket = (s.tasks t).waitPacket → x.Receiving timeout s' t := by
    intro hpacket
    unfold Receiving at h ⊢
    rw [hpacket]
    split_ifs at h ⊢
    · exact h
    · exact h.imp (fun ⟨i, hi⟩ => ⟨i, hlog _ hi⟩) fun h => h.trans hcycle
  cases hrest with
  | same htask => exact hkeep (by rw [htask])
  | expired hdue htask => exact hkeep (by rw [htask])
  | delivered i hwaiting hi htask =>
    unfold Receiving at h ⊢
    rw [if_pos hwaiting] at h
    rw [htask, if_neg Bool.false_ne_true]
    rw [h.1] at hi
    exact .inl ⟨i, hi⟩

/-- Steps of other tasks leave a suspension in force. -/
theorem Holds.rest (h : x.Holds s t) (hrest : Sched.Rest s s' t) (hcycle : s.cycle ≤ s'.cycle)
    (hlog : ∀ p ∈ s.log.deliveries, p ∈ s'.log.deliveries) : x.Holds s' t := by
  obtain ⟨hclock, hlabel⟩ := h
  refine ⟨hclock.trans hcycle, ?_⟩
  have hpoint := hrest.point
  split at hlabel
  · exact hpoint.trans hlabel
  · exact ⟨hpoint.trans hlabel.1, hlabel.2.rest hclock hrest hcycle⟩
  · exact ⟨hpoint.trans hlabel.1, hlabel.2.rest hrest hcycle hlog⟩
  · exact hpoint ▸ hlabel

theorem suspend_holds {l : Sched.Label} {next : Nat} (h : Sched.Effect s l s')
    (hne : s.current ≠ Sched.idleTask) (hswitch : s.switches l = some next) :
    Holds ⟨l, s.cycle, s.log.calls.length⟩ s' s.current := by
  cases h with
  | tick cycles => simp [Sched.switches] at hswitch
  | next _ _ hidle | handOff _ _ _ hidle | exhausted _ hidle | skipped _ hidle | looked _ hidle
  | passed _ _ hidle | selected _ _ hidle => exact absurd hidle hne
  | recvUdp filter len timeout _ =>
    have htask := Sched.recvUdp_tasks_self s filter len timeout
    refine ⟨Nat.le_refl _, ?_, ?_⟩
    · rw [htask]
    · unfold Receiving
      rw [htask, if_pos rfl]
      exact ⟨rfl, rfl, rfl⟩
  | delivered d t _ ht => simp [Sched.switches, hne, ht] at hswitch
  | undelivered d _ ht =>
    refine ⟨Nat.le_refl _, ?_⟩
    dsimp only
    rw [Sched.schedYield_tasks, if_pos rfl]
    rfl
  | wait w _ =>
    refine ⟨Nat.le_refl _, ?_⟩
    dsimp only
    rw [Sched.wait_tasks_self]
  | sleep delta _ =>
    have htask := Sched.sleep_tasks_self s delta
    refine ⟨Nat.le_refl _, ?_, ?_⟩
    · rw [htask]
    · unfold Sleeping
      rw [htask, setTimer, if_neg Bool.false_ne_true]
      exact ⟨rfl, rfl⟩
  | schedYield _ =>
    refine ⟨Nat.le_refl _, ?_⟩
    dsimp only
    rw [Sched.schedYield_tasks, if_pos rfl]
    rfl

theorem Holds.mayResume {l : Sched.Label} (h : x.Holds s t) (hh : Sched.HandOffInv s)
    (hl : Sched.LoopInv s) (hevent : ∀ w, (s.tasks t).point = .inWait w → w ≠ 0)
    (hidle : s.current = Sched.idleTask) (hswitch : s.switches l = some t) : x.MayResume s l := by
  obtain ⟨hclock, hlabel⟩ := h
  have hok := hh.tasks t
  unfold MayResume
  obtain ⟨hpoll, e, he, ht⟩ | ⟨-, i, hs, hpoll⟩ := Sched.switches_idle hidle hswitch
  · -- An event: only a task in `wait` is found.
    have hnone : ¬ ∀ w, (s.tasks t).point ≠ .inWait w := fun hp =>
      Sched.findTaskWaitingFor_some ht (hok.notInWait hp)
    split at hlabel
    · have hwait := Sched.findTaskWaitingFor_and ht
      rw [hok.inWait _ hlabel] at hwait
      exact ⟨hpoll, e, he, hwait⟩
    · refine absurd (fun w hw => ?_) hnone
      cases hlabel.1.symm.trans hw
    · refine absurd (fun w hw => ?_) hnone
      cases hlabel.1.symm.trans hw
    · trivial
  · -- The scan: `wait` is zero and both polls have succeeded.
    obtain ⟨-, -, -, hwait, htimeout⟩ := hl.pollUdp i t hs
    split at hlabel
    · exact absurd ((hok.inWait _ hlabel).symm.trans hwait) (hevent _ hlabel)
    · have hsleep := hlabel.2
      unfold Sleeping at hsleep
      rw [if_pos htimeout] at hsleep
      exact hsleep
    · have hrecv := hlabel.2
      unfold Receiving at hrecv
      obtain hcleared | hdue := (Sched.taskPollUdp_iff _ _).mp hpoll
      · rw [hcleared, if_neg Bool.false_ne_true] at hrecv
        exact hrecv
      · split_ifs at hrecv
        · rw [hrecv.2.1, hrecv.2.2] at hdue
          exact .inr (elapsed hclock hdue)
        · exact hrecv
    · trivial

end Suspension

/-! ## The invariant -/

namespace Machine

open Sched (idleTask)

variable {m m' : Machine}

structure Inv (m : Machine) : Prop where
  handOff : Sched.HandOffInv m.sched
  loop : Sched.LoopInv m.sched
  cpu : m.cpu = Regs.create m.sched.current ∨
    m.cpu = Regs.callUser ∧ m.sched.current ≠ idleTask ∧
      m.lastTask = some (.task m.sched.current) ∧
      m.regs (.task m.sched.current) = Regs.create m.sched.current
  regs : ∀ t, t ≠ m.sched.current → m.regs (.task t) = Regs.create t
  event : ∀ t w, (m.sched.tasks t).point = .inWait w → w ≠ 0
  idle : m.suspended idleTask = none
  suspended : ∀ t x, t ≠ m.sched.current → m.suspended t = some x → x.Holds m.sched t

theorem boot_inv (numTask : Nat) (dontCare : Owner) : Inv (boot numTask dontCare) := by
  refine ⟨Sched.boot_inv numTask, Sched.boot_loopInv numTask, .inl rfl, fun t ht => if_neg ht,
    fun t w hw => ?_, rfl, nofun⟩
  have hwait := ((Sched.boot_inv numTask).tasks t).inWait w hw
  by_cases ht : t = idleTask
  · simp [boot, Sched.boot, ht] at hw
  · simp [boot, Sched.boot, ht, createTask] at hw

/-- Where a step can leave a task inside `wait`. -/
theorem step_event {s s' : Sched} {l : Sched.Label} (heffect : Sched.Effect s l s')
    (hh' : Sched.HandOffInv s') (hl : l.namesEvent = true)
    (hevent : ∀ t w, (s.tasks t).point = .inWait w → w ≠ 0) (t : Nat) (w : BitVec 64)
    (hw : (s'.tasks t).point = .inWait w) : w ≠ 0 := by
  by_cases hto : t = s'.current
  · rw [hto, hh'.current] at hw
    cases hw
  · by_cases hfrom : t = s.current
    · by_cases hidle : t = idleTask
      · rw [hidle, hh'.idle] at hw
        cases hw
      · cases hnext : s.switches l with
        | none =>
          rw [heffect.current, hnext] at hto
          exact absurd hfrom hto
        | some next =>
          obtain ⟨-, hlabel⟩ := Suspension.suspend_holds heffect (hfrom ▸ hidle) hnext
          rw [← hfrom] at hlabel
          split at hlabel
          · next v hv =>
            cases hw.symm.trans hlabel
            have hwait : l = .wait w := hv
            rw [hwait] at hl
            exact bne_iff_ne.mp hl
          · cases hw.symm.trans hlabel.1
          · cases hw.symm.trans hlabel.1
          · rw [hw] at hlabel
            cases hlabel
    · rw [(heffect.rest hfrom hto).point] at hw
      exact hevent t w hw

theorem schedSwitch_regs (hcpu : m.cpu = Regs.create m.sched.current)
    (hregs : ∀ t, t ≠ m.sched.current → m.regs (.task t) = Regs.create t) (s : Sched) (l : Sched.Label)
    (next t : Nat) : (m.schedSwitch s l next).regs (.task t) = Regs.create t := by
  have hstore : (m.schedSwitch s l next).regs =
      Function.update m.regs (.task m.sched.current) (Regs.create m.sched.current) := by
    simp only [schedSwitch, switchTo, current, hcpu, Regs.create]
  rw [hstore]
  by_cases ht : t = m.sched.current
  · rw [ht, Function.update_self]
  · rw [Function.update_of_ne (fun h => ht (Owner.task.inj h)), hregs t ht]

theorem schedSwitch_inv (h : Inv m) {s : Sched} {l : Sched.Label} {next : Nat}
    (hcpu : m.cpu = Regs.create m.sched.current) (hl : l.namesEvent = true)
    (hstep : m.sched.step l = some s) (hnext : m.sched.switches l = some next) :
    Inv (m.schedSwitch s l next) := by
  have heffect := Sched.step_effect hstep
  have hh := Sched.step_inv h.handOff hstep
  have hcurrent : s.current = next := by
    rw [heffect.current, hnext]
    rfl
  have hregs := schedSwitch_regs hcpu h.regs s l next
  refine ⟨hh, Sched.step_loopInv h.handOff h.loop hstep, .inl ?_, fun t _ => hregs t,
    step_event heffect hh hl h.event, ?_, fun t x ht hx => ?_⟩
  · exact (hregs next).trans (congrArg Regs.create hcurrent.symm)
  · show (if next = idleTask then Function.update m.suspended m.sched.current _ else m.suspended) idleTask = none
    split_ifs with hidle
    · have hne : m.sched.current ≠ idleTask := fun hcur =>
        Sched.switches_ne_idle h.handOff h.loop hcur hnext hidle
      rw [Function.update_of_ne hne.symm, h.idle]
    · exact h.idle
  · have ht' : t ≠ s.current := ht
    change (if next = idleTask then Function.update m.suspended m.sched.current _ else m.suspended) t = some x at hx
    by_cases hfrom : t = m.sched.current
    · subst hfrom
      by_cases hcur : m.sched.current = idleTask
      · rw [if_neg (Sched.switches_ne_idle h.handOff h.loop hcur hnext), hcur, h.idle] at hx
        cases hx
      · rw [if_pos (Sched.switches_task hcur hnext), Function.update_self] at hx
        cases hx
        exact Suspension.suspend_holds heffect hcur hnext
    · have hold : m.suspended t = some x := by
        split_ifs at hx
        · rwa [Function.update_of_ne hfrom] at hx
        · exact hx
      exact (h.suspended t x hfrom hold).rest (heffect.rest hfrom ht') heffect.cycle_le
        fun _ hx' => (Sched.step_extends hstep).deliveries.subset hx'

/-- A step without a switch. -/
theorem stay_inv (h : Inv m) {s : Sched} {l : Sched.Label} (hl : l.namesEvent = true)
    (hstep : m.sched.step l = some s) (hnext : m.sched.switches l = none) :
    Inv { m with sched := s } := by
  have heffect := Sched.step_effect hstep
  have hh := Sched.step_inv h.handOff hstep
  have hcurrent : s.current = m.sched.current := by
    rw [heffect.current, hnext]
    rfl
  refine ⟨hh, Sched.step_loopInv h.handOff h.loop hstep, ?_, fun t ht => ?_,
    step_event heffect hh hl h.event, h.idle, fun t x ht hx => ?_⟩
  · dsimp only
    rw [hcurrent]
    exact h.cpu
  · exact h.regs t (hcurrent ▸ ht)
  · have ht' : t ≠ s.current := ht
    have hfrom : t ≠ m.sched.current := hcurrent ▸ ht'
    exact (h.suspended t x hfrom hx).rest (heffect.rest hfrom ht') heffect.cycle_le
      fun _ hx' => (Sched.step_extends hstep).deliveries.subset hx'

theorem kernelStep_inv (h : Inv m) {l : Sched.Label} (hl : l.namesEvent = true)
    (hmode : m.cpu.ra ≠ .user ∨ l.isTick = true) (hstep : m.kernelStep l = some m') : Inv m' := by
  obtain ⟨s, hs, hm⟩ := Option.map_eq_some_iff.mp hstep
  cases hnext : m.sched.switches l with
  | none =>
    rw [hnext] at hm
    subst hm
    exact stay_inv h hl hs hnext
  | some next =>
    rw [hnext] at hm
    subst hm
    obtain hcpu | ⟨hcpu, -⟩ := h.cpu
    · exact schedSwitch_inv h hcpu hl hs hnext
    · have htick := hmode.resolve_left fun hra => hra (by rw [hcpu]; rfl)
      cases l with
      | tick cycles => simp [Sched.switches] at hnext
      | poll | idle | recvUdp | dispatch | wait | sleep | schedYield => cases htick

theorem callUser_inv (h : Inv m) (hstep : m.step .callUser = some m') : Inv m' := by
  simp only [step] at hstep
  split_ifs at hstep with hmode
  cases hstep
  obtain hcpu | ⟨hcpu, -⟩ := h.cpu
  · have hne : m.sched.current ≠ idleTask := by
      intro hcur
      rw [hcpu, hcur] at hmode
      exact hmode (.inr rfl)
    have hcurrent : m.current = some (.task m.sched.current) := by
      rw [current, hcpu]
      rfl
    have hkernel : ∀ t, Owner.task t ≠ .user := fun _ => Owner.noConfusion
    have hregs : ∀ t, (Function.update (Function.update m.regs .user Regs.callUser)
        (.task m.sched.current) m.cpu) (.task t) = Regs.create t := by
      intro t
      by_cases ht : t = m.sched.current
      · rw [ht, Function.update_self, hcpu]
      · rw [Function.update_of_ne (fun h => ht (Owner.task.inj h)), Function.update_of_ne (hkernel t),
          h.regs t ht]
    have huser : (Function.update (Function.update m.regs .user Regs.callUser)
        (.task m.sched.current) m.cpu) .user = Regs.callUser := by
      rw [Function.update_of_ne (hkernel _).symm, Function.update_self]
    rw [hcurrent]
    exact ⟨h.handOff, h.loop, .inr ⟨huser, hne, rfl, hregs _⟩, fun t _ => hregs t, h.event, h.idle,
      h.suspended⟩
  · exact absurd (.inl (by rw [hcpu]; rfl)) hmode

theorem returnFromUser_inv (h : Inv m) (hstep : m.step .returnFromUser = some m') : Inv m' := by
  simp only [step] at hstep
  split_ifs at hstep with hmode
  obtain hcpu | ⟨-, -, hlast, hregs⟩ := h.cpu
  · rw [hcpu] at hmode
    cases hmode
  · rw [hlast] at hstep
    cases hstep
    exact ⟨h.handOff, h.loop, .inl hregs, h.regs, h.event, h.idle, h.suspended⟩

theorem step_inv {e : Event} (h : Inv m) (hstep : m.step e = some m') : Inv m' := by
  cases e with
  | kernel l =>
    simp only [step] at hstep
    split_ifs at hstep with hmode
    exact kernelStep_inv h hmode.1 hmode.2 hstep
  | callUser => exact callUser_inv h hstep
  | returnFromUser => exact returnFromUser_inv h hstep

theorem reachable_inv {numTask : Nat} {dontCare : Owner}
    (h : Reachable (· = boot numTask dontCare) step m) : Inv m :=
  h.invariant (P := Inv) (fun m₀ hm => by rw [hm]; exact boot_inv numTask dontCare) fun _ _ _ => step_inv

/-! ## Every run -/

structure ResumptionRules (m : Machine) : Prop where
  current : ∀ t, m.cpu.ra = .task t → m.cpu.sp = .task t ∧ m.current = some (.task t) ∧ m.sched.current = t
  counted : m.cpu.ra = .task idleTask →
    m.sched.numWaitingTask = Nat.count (fun t => (m.sched.tasks t).point.isWait = true) m.sched.numTask
  waits : m.cpu.ra = .task idleTask →
    ∀ t, (m.sched.tasks t).wait ≠ 0 ↔ ∃ w, (m.sched.tasks t).point = .inWait w
  resumed : ∀ e m' u t x, m.step e = some m' → m.cpu.ra = .task u → m'.cpu.ra = .task t → t ≠ u →
    t ≠ idleTask → m.suspended t = some x →
    u = idleTask ∧ ∃ l, e = .kernel l ∧ x.MayResume m.sched l ∧ x.label ≠ .exit

theorem Inv.kernel (h : Inv m) {t : Nat} (ht : m.cpu.ra = .task t) :
    m.cpu = Regs.create t ∧ m.sched.current = t := by
  obtain hcpu | ⟨hcpu, -⟩ := h.cpu
  · rw [hcpu] at ht
    obtain rfl := Owner.task.inj ht
    exact ⟨hcpu, rfl⟩
  · rw [hcpu] at ht
    cases ht

theorem Inv.switched (h : Inv m) {e : Event} {u t : Nat} (hstep : m.step e = some m')
    (hu : m.cpu.ra = .task u) (ht : m'.cpu.ra = .task t) (hne : t ≠ u) :
    ∃ l, e = .kernel l ∧ m.sched.switches l = some t := by
  obtain ⟨-, hcur⟩ := h.kernel hu
  obtain ⟨-, hcur'⟩ := (step_inv h hstep).kernel ht
  cases e with
  | kernel l =>
    simp only [step] at hstep
    split_ifs at hstep
    obtain ⟨s, hs, hm⟩ := Option.map_eq_some_iff.mp hstep
    have hcurrent := (Sched.step_effect hs).current
    cases hnext : m.sched.switches l with
    | none =>
      rw [hnext] at hm hcurrent
      subst hm
      exact absurd ((hcur'.symm.trans hcurrent).trans hcur) hne
    | some next =>
      rw [hnext] at hm hcurrent
      subst hm
      exact ⟨l, rfl, hnext.trans (congrArg some (hcurrent.symm.trans hcur'))⟩
  | callUser =>
    simp only [step] at hstep
    split_ifs at hstep
    cases hstep
    exact absurd (hcur'.symm.trans hcur) hne
  | returnFromUser =>
    simp only [step, hu] at hstep
    cases hstep

theorem Inv.resumptionRules (h : Inv m) : ResumptionRules m := by
  refine ⟨fun t ht => ?_, fun _ => h.loop.waiting, fun _ t => ?_, ?_⟩
  · obtain ⟨hcpu, hcur⟩ := h.kernel ht
    rw [current, hcpu]
    exact ⟨rfl, rfl, hcur⟩
  · have hok := h.handOff.tasks t
    constructor
    · intro hwait
      by_contra hnone
      exact hwait (hok.notInWait fun w hw => hnone ⟨w, hw⟩)
    · rintro ⟨w, hw⟩
      rw [hok.inWait w hw]
      exact h.event t w hw
  · intro e m' u t x hstep hu ht hne hidle hx
    obtain ⟨l, rfl, hswitch⟩ := h.switched hstep hu ht hne
    have hcur := (h.kernel hu).2
    have hu' : m.sched.current = idleTask := by
      by_contra hcur'
      exact hidle (Sched.switches_task hcur' hswitch)
    have hmay := (h.suspended t x (hcur ▸ hne) hx).mayResume h.handOff h.loop (h.event t) hu' hswitch
    refine ⟨hcur.symm.trans hu', l, rfl, hmay, fun hexit => ?_⟩
    rw [Suspension.MayResume, hexit] at hmay
    obtain ⟨-, ev, hev, hand⟩ := hmay
    exact hand (IdlePoint.event_ne_exit hev)

theorem reachable_resumptionRules {numTask : Nat} {dontCare : Owner}
    (h : Reachable (· = boot numTask dontCare) step m) : ResumptionRules m :=
  (reachable_inv h).resumptionRules

/-- Task 1 calls user mode and waits for a frame; the next poll that returns true is its. -/
def smallResume : List Event :=
  (Sched.smallPolls ++ List.replicate 3 Sched.Label.idle).map Event.kernel ++
    [.callUser, .kernel (.tick 5), .returnFromUser, .kernel (.wait waitEthRecv),
      .kernel (.poll false), .kernel (.poll false)]

theorem reachable_resumptionRules_small : ∃ m m' x, runSteps step (boot 2 .user) smallResume = some m ∧
    m.suspended 1 = some x ∧ x.clock = 5 ∧ m.step (.kernel (.poll true)) = some m' ∧
    m'.cpu.ra = .task 1 ∧ ResumptionRules m := by
  have hrun : (runSteps step (boot 2 .user) smallResume).bind (fun m =>
      (m.step (.kernel (.poll true))).map fun m' => ((m.suspended 1).map Suspension.clock, m'.cpu.ra)) =
      some (some 5, .task 1) := by
    decide +kernel
  obtain ⟨m, hm, hrest⟩ := Option.bind_eq_some_iff.mp hrun
  obtain ⟨m', hm', hpair⟩ := Option.map_eq_some_iff.mp hrest
  obtain ⟨hclock, hra⟩ := Prod.mk.inj hpair
  obtain ⟨x, hx, hx5⟩ := Option.map_eq_some_iff.mp hclock
  exact ⟨m, m', x, hm, hx, hx5, hm', hra, reachable_resumptionRules ⟨boot 2 .user, smallResume, rfl, hm⟩⟩

end Machine

end VijosOS
