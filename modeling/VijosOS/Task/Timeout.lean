import VijosOS.Task.Resumption

/-!
# What a zero result of `recv_udp` means

The callers of `recv_udp` take 0 for a timeout. It is one unless a datagram was delivered of
which nothing was copied: an empty one, or one for an empty buffer.
-/

namespace VijosOS

open Library

namespace Sched

variable {s s' : Sched}

/-! ## The delivery of a step -/

/-- The task that the step takes out of its wait with a datagram. -/
def delivers (s : Sched) (l : Label) : Option (Nat × UdpDispatch) :=
  if s.current = idleTask then
    (s.switches l).bind fun t =>
      match (s.tasks t).point with
      | .inDispatch i => s.log.datagrams[i]?.bind fun d => (s.taskFindUdp d).map fun u => (u, d)
      | _ => none
  else
    match l with
    | .dispatch d => (s.taskFindUdp d).map fun u => (u, d)
    | _ => none

/-- Calls are only added, and the lengths they have are kept. -/
structure SameLengths (l l' : UdpLog) : Prop where
  deliveries : l'.deliveries = l.deliveries
  outLen : ∀ (n : Nat) (c c' : RecvCall), l.calls[n]? = some c → l'.calls[n]? = some c' → c'.outLen = c.outLen

theorem SameLengths.refl (l : UdpLog) : SameLengths l l := by
  refine ⟨rfl, fun n c c' hc hc' => ?_⟩
  obtain rfl : c = c' := Option.some.inj (hc.symm.trans hc')
  rfl

theorem sameLengths_receive (l : UdpLog) (d : UdpDispatch) : SameLengths l (l.receive d) :=
  ⟨rfl, (SameLengths.refl l).outLen⟩

theorem sameLengths_call (l : UdpLog) (new : RecvCall) : SameLengths l (l.call new) := by
  refine ⟨rfl, fun n c c' hc hc' => ?_⟩
  obtain rfl : c = c' := Option.some.inj ((UdpLog.getElem?_call_of_some hc new).symm.trans hc')
  rfl

theorem sameLengths_ret (l : UdpLog) (m : Nat) : SameLengths l (l.ret m) := by
  refine ⟨rfl, fun n c c' hc hc' => ?_⟩
  by_cases hmn : m = n
  · subst hmn
    rw [UdpLog.getElem?_ret_self hc] at hc'
    obtain rfl := Option.some.inj hc'
    rfl
  · rw [UdpLog.getElem?_ret_of_ne hmn, hc] at hc'
    obtain rfl := Option.some.inj hc'
    rfl

/-- A step delivers one datagram, or leaves the lengths of all calls as they were. -/
inductive LogStep (s : Sched) (l : Label) (s' : Sched) : Prop
  | delivered (t i : Nat) (d : UdpDispatch) (hdelivers : s.delivers l = some (t, d))
      (hwaiting : (s.tasks t).waitPacket.isWaiting = true)
      (hcalls : s'.log.calls = s.log.calls.modify (s.tasks t).waitPacket.call
        fun c => c.deliver (s.tasks t).waitPacket.len d)
      (hdeliveries : s'.log.deliveries = s.log.deliveries ++ [(i, (s.tasks t).waitPacket.call)])
  | same (h : SameLengths s.log s'.log)

theorem takeOver_waitPacket (s : Sched) (t u : Nat) :
    ((s.takeOver t).tasks u).waitPacket = (s.tasks u).waitPacket := by
  rw [takeOver_tasks]
  split_ifs with hu
  · rw [hu]
  · rfl

theorem taskFindUdp_congr (hnum : s'.numTask = s.numTask)
    (h : ∀ t, (s'.tasks t).waitPacket = (s.tasks t).waitPacket) (d : UdpDispatch) :
    s'.taskFindUdp d = s.taskFindUdp d := by
  unfold taskFindUdp
  rw [hnum]
  simp only [h]

/-- A task goes on in its `task_dispatch_udp` and delivers, or no length changes. -/
theorem switchTo_log (s : Sched) (t : Nat) :
    (∃ i d u, (s.tasks t).point = .inDispatch i ∧ s.log.datagrams[i]? = some d ∧ s.taskFindUdp d = some u ∧
      (s.switchTo t).log = s.log.deliver (s.tasks u).waitPacket.call (s.tasks u).waitPacket.len i d) ∨
    SameLengths s.log (s.switchTo t).log := by
  rw [switchTo_eq]
  cases hpoint : (s.tasks t).point with
  | inDispatch i =>
    dsimp only
    cases hd : s.log.datagrams[i]? with
    | none => exact Or.inr (.refl _)
    | some d =>
      have hfind : (s.takeOver t).taskFindUdp d = s.taskFindUdp d :=
        taskFindUdp_congr (show (s.takeOver t).numTask = s.numTask from rfl) (takeOver_waitPacket s t) d
      dsimp only
      rw [hfind]
      cases hu : s.taskFindUdp d with
      | none => exact Or.inr (.refl _)
      | some u =>
        refine Or.inl ⟨i, d, u, rfl, hd, hu, ?_⟩
        show s.log.deliver ((s.takeOver t).tasks u).waitPacket.call ((s.takeOver t).tasks u).waitPacket.len i d = _
        rw [takeOver_waitPacket]
  | inRecv n => exact Or.inr (sameLengths_ret s.log n)
  | inWait | entry | running | yielded | inSleep => exact Or.inr (.refl _)

theorem delivers_of_switch {l : Label} {t u i : Nat} {d : UdpDispatch} (hidle : s.current = idleTask)
    (hswitch : s.switches l = some t) (hpoint : (s.tasks t).point = .inDispatch i)
    (hd : s.log.datagrams[i]? = some d) (hu : s.taskFindUdp d = some u) : s.delivers l = some (u, d) := by
  simp [delivers, hidle, hswitch, hpoint, hd, hu]

theorem Effect.logStep {l : Label} (h : Effect s l s') (hh : HandOffInv s) : LogStep s l s' := by
  cases h with
  | tick | next | exhausted | skipped | looked | passed | wait | sleep | schedYield => exact .same (.refl _)
  | recvUdp filter len timeout hne => exact .same (sameLengths_call _ _)
  | undelivered d hne ht => exact .same (sameLengths_receive _ d)
  | delivered d t hne ht =>
    have hdelivers : s.delivers (.dispatch d) = some (t, d) := by simp [delivers, hne, ht]
    exact .delivered t s.log.datagrams.length d hdelivers (taskFindUdp_some ht).1 rfl rfl
  | handOff e p t hidle he hp ht =>
    have hswitch : s.switches (.poll true) = some t := by simp [switches, hidle, he, ht]
    obtain ⟨i, d, u, hpoint, hd, hu, hlog⟩ | hsame := switchTo_log { s with idle := p } t
    · have hdelivers := delivers_of_switch hidle hswitch hpoint hd hu
      exact .delivered u i d hdelivers (taskFindUdp_some hu).1 (by rw [hlog]; rfl) (by rw [hlog]; rfl)
    · exact .same hsame
  | selected i t hidle hs hpoll =>
    have hswitch : s.switches .idle = some t := by simp [switches, hidle, hs, hpoll]
    have hpolled := modify_point { s with idle := .pollTtyRecv } t (f := fun k =>
      { k with waitPacket := (taskPollUdp s.rdcycle (s.tasks t).waitPacket).2 }) rfl
    obtain ⟨j, d, u, hpoint, hd, hu, hlog⟩ | hsame := switchTo_log (Sched.modify { s with idle := .pollTtyRecv } t
      fun k => { k with waitPacket := (taskPollUdp s.rdcycle (s.tasks t).waitPacket).2 }) t
    · -- a task in `task_dispatch_udp` is not waiting, and its poll changes nothing
      rw [hpolled] at hpoint
      have hclear : (s.tasks t).waitPacket.isWaiting = false := by
        apply (hh.tasks t).isWaiting_eq_false
        intro n hn
        cases hpoint.symm.trans hn
      have hkeep : (taskPollUdp s.rdcycle (s.tasks t).waitPacket).2 = (s.tasks t).waitPacket := by
        unfold taskPollUdp
        rw [hclear]
        rfl
      have hsame : (Sched.modify { s with idle := .pollTtyRecv } t fun k =>
          { k with waitPacket := (taskPollUdp s.rdcycle (s.tasks t).waitPacket).2 }) =
          { s with idle := .pollTtyRecv } := by
        unfold Sched.modify
        rw [hkeep]
        simp
      rw [hsame] at hu hlog
      have hdelivers := delivers_of_switch hidle hswitch hpoint hd hu
      exact .delivered u j d hdelivers (taskFindUdp_some hu).1 (by rw [hsame, hlog]; rfl) (by rw [hsame, hlog]; rfl)
    · exact .same hsame

/-- What is delivered leaves a byte in the buffer, or comes when the wait has timed out. -/
def CopiesBytes (s : Sched) (l : Label) : Prop :=
  ∀ p ∈ s.delivers l, copyLen (s.tasks p.1).waitPacket.len p.2.payload.length ≠ 0 ∨
    (s.tasks p.1).waitPacket.delta ≤ s.rdcycle - (s.tasks p.1).waitPacket.start

instance (s : Sched) (l : Label) : Decidable (s.CopiesBytes l) :=
  inferInstanceAs (Decidable (∀ p ∈ s.delivers l, _ ∨ _))

/-- When task `t` is out of the wait of call number `n`, the call has bytes or the wait timed out. -/
def Kept (s : Sched) (t n clock : Nat) (timeout : BitVec 64) : Prop :=
  (s.tasks t).waitPacket.isWaiting = false →
    (∀ c, s.log.calls[n]? = some c → c.outLen ≠ 0) ∨ clock + timeout.toNat ≤ s.cycle

/-- A call belongs to one task. -/
theorem HandOffInv.owner (h : HandOffInv s) {t u n : Nat} (ht : (s.tasks t).point = .inRecv n)
    (hu : (s.tasks u).point = .inRecv n) : t = u := by
  obtain ⟨c, hc, htask, _⟩ := (h.tasks t).inRecv n ht
  obtain ⟨c', hc', htask', _⟩ := (h.tasks u).inRecv n hu
  obtain rfl : c = c' := Option.some.inj (hc.symm.trans hc')
  exact htask.symm.trans htask'

theorem Effect.kept {l : Label} {t : Nat} {x : Suspension} {timeout : BitVec 64} (h : Effect s l s')
    (hh : HandOffInv s) (hcopies : s.CopiesBytes l) (hfrom : t ≠ s.current) (hto : t ≠ s'.current)
    (hpoint : (s.tasks t).point = .inRecv x.call) (hclock : x.clock ≤ s.cycle)
    (hreceiving : x.Receiving timeout s t) (hkept : s.Kept t x.call x.clock timeout) :
    s'.Kept t x.call x.clock timeout := by
  intro hclear
  obtain ⟨c, hc, _⟩ := (hh.tasks t).inRecv x.call hpoint
  cases hwaiting : (s.tasks t).waitPacket.isWaiting with
  | false =>
    obtain hlen | helapsed := hkept hwaiting
    · left
      intro c' hc'
      cases h.logStep hh with
      | delivered u i d _ hu hcalls _ =>
        have hne : (s.tasks u).waitPacket.call ≠ x.call := by
          intro hcall
          obtain ⟨hupoint, _⟩ := (hh.tasks u).waiting hu
          rw [hcall] at hupoint
          rw [hh.owner hpoint hupoint, hu] at hwaiting
          cases hwaiting
        rw [hcalls, List.getElem?_modify_ne _ _ hne] at hc'
        exact hlen c' hc'
      | same hsame =>
        rw [hsame.outLen x.call c c' hc hc']
        exact hlen c hc
    · exact Or.inr (helapsed.trans h.cycle_le)
  | true =>
    unfold Suspension.Receiving at hreceiving
    rw [if_pos hwaiting] at hreceiving
    obtain ⟨hcall, hstart, hdelta⟩ := hreceiving
    obtain ⟨_, hundelivered, _⟩ := (hh.tasks t).waiting hwaiting
    cases h.rest hfrom hto with
    | same htask | expired _ htask =>
      rw [htask, hwaiting] at hclear
      cases hclear
    | delivered i _ hi _ =>
      cases h.logStep hh with
      | same hsame =>
        rw [hsame.deliveries] at hi
        exact absurd (List.mem_map_of_mem hi) hundelivered
      | delivered u j d hdelivers hu hcalls hdeliveries =>
        rw [hdeliveries] at hi
        obtain hold | hnew := List.mem_append.mp hi
        · exact absurd (List.mem_map_of_mem hold) hundelivered
        have hsame : (s.tasks t).waitPacket.call = (s.tasks u).waitPacket.call :=
          (Prod.mk.inj (List.mem_singleton.mp hnew)).2
        obtain ⟨hupoint, _⟩ := (hh.tasks u).waiting hu
        rw [← hsame, hcall] at hupoint
        obtain rfl : t = u := hh.owner hpoint hupoint
        obtain hcopy | hdue := hcopies (t, d) hdelivers
        · left
          intro c' hc'
          rw [hcalls, hcall, List.getElem?_modify_eq, hc] at hc'
          obtain rfl := Option.some.inj hc'
          exact hcopy
        · rw [hstart, hdelta] at hdue
          exact Or.inr ((Suspension.elapsed hclock hdue).trans h.cycle_le)

/-! ## The return of a step -/

/-- Calls keep the results they have, and the others stay without. -/
def SameRets (l l' : UdpLog) : Prop :=
  ∀ (n : Nat) (c c' : RecvCall), l.calls[n]? = some c → l'.calls[n]? = some c' → c'.ret = c.ret

theorem SameRets.of_calls {l l' : UdpLog} (h : l'.calls = l.calls) : SameRets l l' := by
  intro n c c' hc hc'
  rw [h, hc] at hc'
  obtain rfl := Option.some.inj hc'
  rfl

theorem sameRets_call (l : UdpLog) (new : RecvCall) : SameRets l (l.call new) := by
  intro n c c' hc hc'
  rw [UdpLog.getElem?_call_of_some hc new] at hc'
  obtain rfl := Option.some.inj hc'
  rfl

theorem sameRets_deliver (l : UdpLog) (m len i : Nat) (d : UdpDispatch) : SameRets l (l.deliver m len i d) := by
  intro n c c' hc hc'
  by_cases hmn : m = n
  · subst hmn
    rw [UdpLog.getElem?_deliver_self hc] at hc'
    obtain rfl := Option.some.inj hc'
    rfl
  · rw [UdpLog.getElem?_deliver_of_ne hmn, hc] at hc'
    obtain rfl := Option.some.inj hc'
    rfl

theorem switchTo_ret (s : Sched) (t : Nat) :
    (∃ n, (s.tasks t).point = .inRecv n ∧ (s.switchTo t).log = s.log.ret n) ∨
      SameRets s.log (s.switchTo t).log := by
  obtain ⟨w, -, h⟩ | ⟨n, hpoint, h⟩ | ⟨i, d, u, -, -, h⟩ | ⟨-, h⟩ := switchTo_cases s t
  all_goals rw [h]
  · exact Or.inr (.of_calls rfl)
  · exact Or.inl ⟨n, hpoint, rfl⟩
  · exact Or.inr (sameRets_deliver _ _ _ _ _)
  · exact Or.inr (.of_calls rfl)

/-- Call number `n` returns `r` in the step from `s` to `s'`. -/
def Returns (s s' : Sched) (n : Nat) (c : RecvCall) (r : Nat) : Prop :=
  s.log.calls[n]? = some c ∧ c.ret = none ∧ ∃ c', s'.log.calls[n]? = some c' ∧ c'.ret = some r

theorem not_returns {n r : Nat} {c : RecvCall} (h : SameRets s.log s'.log) : ¬ s.Returns s' n c r := by
  rintro ⟨hc, hnone, c', hc', hsome⟩
  have hsame := h n c c' hc hc'
  rw [hnone, hsome] at hsame
  cases hsame

/-- A call returns when `idle_entry` selects its task, with the length in its variable. -/
theorem Effect.returned {l : Label} {n r : Nat} {c : RecvCall} (h : Effect s l s') (hh : HandOffInv s)
    (hret : s.Returns s' n c r) : (s.tasks c.task).point = .inRecv n ∧ c.outLen = r ∧
      ((s.tasks c.task).waitPacket.isWaiting = false ∨
        (s.tasks c.task).waitPacket.delta ≤ s.rdcycle - (s.tasks c.task).waitPacket.start) := by
  cases h with
  | tick | next | exhausted | skipped | looked | passed | wait | sleep | schedYield =>
    exact absurd hret (not_returns (.of_calls rfl))
  | recvUdp filter len timeout hne => exact absurd hret (not_returns (sameRets_call _ _))
  | undelivered d hne ht => exact absurd hret (not_returns (.of_calls rfl))
  | delivered d t hne ht => exact absurd hret (not_returns (sameRets_deliver (s.log.receive d) _ _ _ d))
  | handOff e p t hidle he hp ht =>
    obtain ⟨m, hpoint, _⟩ | hsame := switchTo_ret { s with idle := p } t
    · -- a task in `recv_udp` waits for no event
      have hwait : (s.tasks t).wait = 0 := by
        apply (hh.tasks t).notInWait
        intro w hw
        cases hw.symm.trans hpoint
      exact absurd hwait (findTaskWaitingFor_some ht)
    · exact absurd hret (not_returns hsame)
  | selected i t hidle hs hpoll =>
    have hpolled := modify_point { s with idle := .pollTtyRecv } t (f := fun k =>
      { k with waitPacket := (taskPollUdp s.rdcycle (s.tasks t).waitPacket).2 }) rfl
    obtain ⟨m, hpoint, hlog⟩ | hsame := switchTo_ret (Sched.modify { s with idle := .pollTtyRecv } t
      fun k => { k with waitPacket := (taskPollUdp s.rdcycle (s.tasks t).waitPacket).2 }) t
    · rw [hpolled] at hpoint
      obtain ⟨hc, hnone, c', hc', hsome⟩ := hret
      rw [hlog] at hc'
      change (s.log.ret m).calls[n]? = some c' at hc'
      by_cases hmn : m = n
      · subst hmn
        rw [UdpLog.getElem?_ret_self hc] at hc'
        obtain rfl := Option.some.inj hc'
        obtain ⟨c', hc', htask, _⟩ := (hh.tasks t).inRecv m hpoint
        obtain rfl : c = c' := Option.some.inj (hc.symm.trans hc')
        rw [htask]
        exact ⟨hpoint, Option.some.inj hsome, (taskPollUdp_iff _ _).mp hpoll⟩
      · rw [UdpLog.getElem?_ret_of_ne hmn] at hc'
        obtain rfl : c = c' := Option.some.inj (hc.symm.trans hc')
        rw [hnone] at hsome
        cases hsome
    · exact absurd hret (not_returns hsame)

/-- A task stops in `recv_udp` when it calls it. -/
theorem Effect.calls {l : Label} {n : Nat} (h : Effect s l s') (hne : s.current ≠ idleTask)
    (hto : s.current ≠ s'.current) (hpoint : (s'.tasks s.current).point = .inRecv n) :
    n = s.log.calls.length ∧ (s'.tasks s.current).waitPacket.isWaiting = true ∧
      ∃ filter len timeout, l = .recvUdp filter len timeout := by
  cases h with
  | tick => exact absurd rfl hto
  | next _ _ hidle | handOff _ _ _ hidle | exhausted _ hidle | skipped _ hidle | looked _ hidle
  | passed _ _ hidle | selected _ _ hidle => exact absurd hidle hne
  | recvUdp filter len timeout _ =>
    rw [recvUdp_tasks_self] at hpoint ⊢
    cases hpoint
    exact ⟨rfl, rfl, filter, len, timeout, rfl⟩
  | delivered d t _ ht => exact absurd rfl hto
  | undelivered d _ ht =>
    rw [schedYield_tasks, if_pos rfl] at hpoint
    cases hpoint
  | wait w _ =>
    rw [wait_tasks_self] at hpoint
    cases hpoint
  | sleep delta _ =>
    rw [sleep_tasks_self] at hpoint
    cases hpoint
  | schedYield _ =>
    rw [schedYield_tasks, if_pos rfl] at hpoint
    cases hpoint

end Sched

namespace Machine

open Sched (idleTask)

variable {m m' : Machine}

/-- The steps that deliver nothing, deliver a byte, or deliver too late. -/
def CopiesBytes (m : Machine) : Event → Prop
  | .kernel l => m.sched.CopiesBytes l
  | _ => True

instance : ∀ (m : Machine) (e : Event), Decidable (m.CopiesBytes e)
  | m, .kernel l => inferInstanceAs (Decidable (m.sched.CopiesBytes l))
  | _, .callUser => .isTrue trivial
  | _, .returnFromUser => .isTrue trivial

/-- The call that a task has made and not returned from, and the clock at that call. -/
def Called (m : Machine) (t n clock : Nat) (timeout : BitVec 64) : Prop :=
  ∃ filter len, m.suspended t = some ⟨.recvUdp filter len timeout, clock, n⟩

/-- A `recv_udp` that returns 0 in the step has waited at least its `timeout`. -/
def ZeroMeansTimeout (m m' : Machine) : Prop :=
  ∀ n c, m.sched.Returns m'.sched n c 0 →
    ∃ clock timeout, m.Called c.task n clock timeout ∧ clock + timeout.toNat ≤ m.sched.cycle

/-! ## The invariant -/

structure RecvInv (m : Machine) : Prop where
  inv : Inv m
  called : ∀ t n, (m.sched.tasks t).point = .inRecv n →
    ∃ clock timeout, m.Called t n clock timeout ∧ m.sched.Kept t n clock timeout

theorem boot_recvInv (numTask : Nat) (dontCare : Owner) : RecvInv (boot numTask dontCare) := by
  refine ⟨boot_inv numTask dontCare, fun t n hpoint => ?_⟩
  obtain ⟨c, hc, _⟩ := ((boot_inv numTask dontCare).handOff.tasks t).inRecv n hpoint
  cases hc

theorem RecvInv.receiving (h : RecvInv m) {t n clock : Nat} {timeout : BitVec 64} (ht : t ≠ m.sched.current)
    (hcalled : m.Called t n clock timeout) : clock ≤ m.sched.cycle ∧
      ∃ l, Suspension.Receiving ⟨l, clock, n⟩ timeout m.sched t := by
  obtain ⟨filter, len, hx⟩ := hcalled
  obtain ⟨hclock, _, hreceiving⟩ := h.inv.suspended t _ ht hx
  exact ⟨hclock, _, hreceiving⟩

theorem step_user {e : Event} (he : ∀ l, e ≠ .kernel l) (hstep : m.step e = some m') :
    m'.sched = m.sched ∧ m'.suspended = m.suspended := by
  cases e with
  | kernel l => exact absurd rfl (he l)
  | callUser =>
    simp only [step] at hstep
    split_ifs at hstep
    obtain rfl := Option.some.inj hstep
    unfold switchTo
    split <;> exact ⟨rfl, rfl⟩
  | returnFromUser =>
    simp only [step] at hstep
    split_ifs at hstep
    obtain ⟨o, _, rfl⟩ := Option.map_eq_some_iff.mp hstep
    exact ⟨rfl, rfl⟩

theorem schedSwitch_records (m : Machine) (s : Sched) (l : Sched.Label) (next : Nat) :
    (m.schedSwitch s l next).sched = s ∧ (m.schedSwitch s l next).suspended =
      if next = idleTask then
        Function.update m.suspended m.sched.current (some ⟨l, m.sched.cycle, m.sched.log.calls.length⟩)
      else m.suspended := by
  unfold schedSwitch switchTo
  dsimp only
  split <;> exact ⟨rfl, rfl⟩

/-- A step of the kernel records the task that it suspends, and no other. -/
theorem step_kernel {l : Sched.Label} (hstep : m.step (.kernel l) = some m') :
    Sched.Effect m.sched l m'.sched ∧
      (∀ t, t ≠ m.sched.current → m'.suspended t = m.suspended t) ∧
      (m.sched.current ≠ idleTask → m'.sched.current ≠ m.sched.current →
        m'.suspended m.sched.current = some ⟨l, m.sched.cycle, m.sched.log.calls.length⟩) := by
  simp only [step] at hstep
  split_ifs at hstep
  obtain ⟨s, hs, hm⟩ := Option.map_eq_some_iff.mp hstep
  have heffect := Sched.step_effect hs
  cases hnext : m.sched.switches l with
  | none =>
    rw [hnext] at hm
    subst hm
    refine ⟨heffect, fun _ _ => rfl, fun _ hmoved => ?_⟩
    rw [heffect.current, hnext] at hmoved
    exact absurd rfl hmoved
  | some next =>
    rw [hnext] at hm
    subst hm
    obtain ⟨hsched, hsuspended⟩ := schedSwitch_records m s l next
    dsimp only
    rw [hsched, hsuspended]
    refine ⟨heffect, fun t ht => ?_, fun hne _ => ?_⟩
    · split_ifs
      · exact Function.update_of_ne ht _ _
      · rfl
    · rw [if_pos (Sched.switches_task hne hnext), Function.update_self]

/-- A zero result after a timeout. -/
theorem RecvInv.zeroMeansTimeout (h : RecvInv m) {e : Event} (hstep : m.step e = some m') :
    ZeroMeansTimeout m m' := by
  intro n c hret
  cases e with
  | callUser | returnFromUser =>
    rw [(step_user (fun _ => Event.noConfusion) hstep).1] at hret
    exact absurd hret (Sched.not_returns (.of_calls rfl))
  | kernel l =>
    obtain ⟨hpoint, hzero, hpoll⟩ := (step_kernel hstep).1.returned h.inv.handOff hret
    obtain ⟨clock, timeout, hcalled, hkept⟩ := h.called c.task n hpoint
    have ht : c.task ≠ m.sched.current := by
      intro htask
      rw [htask, h.inv.handOff.current] at hpoint
      cases hpoint
    refine ⟨clock, timeout, hcalled, ?_⟩
    cases hwaiting : (m.sched.tasks c.task).waitPacket.isWaiting with
    | false =>
      obtain hlen | helapsed := hkept hwaiting
      · exact absurd hzero (hlen c hret.1)
      · exact helapsed
    | true =>
      have hdue := hpoll.resolve_left (by simp [hwaiting])
      obtain ⟨hclock, l', hreceiving⟩ := h.receiving ht hcalled
      unfold Suspension.Receiving at hreceiving
      rw [if_pos hwaiting] at hreceiving
      obtain ⟨_, hstart, hdelta⟩ := hreceiving
      rw [hstart, hdelta] at hdue
      exact Suspension.elapsed hclock hdue

theorem recvInv_step (h : RecvInv m) {e : Event} (hcopies : m.CopiesBytes e) (hstep : m.step e = some m') :
    RecvInv m' := by
  refine ⟨step_inv h.inv hstep, fun t n hpoint => ?_⟩
  cases e with
  | callUser | returnFromUser =>
    obtain ⟨hsched, hsuspended⟩ := step_user (fun _ => Event.noConfusion) hstep
    rw [hsched] at hpoint ⊢
    obtain ⟨clock, timeout, ⟨filter, len, hx⟩, hkept⟩ := h.called t n hpoint
    exact ⟨clock, timeout, ⟨filter, len, hsuspended ▸ hx⟩, hkept⟩
  | kernel l =>
    obtain ⟨heffect, hothers, hself⟩ := step_kernel hstep
    have hh' := (step_inv h.inv hstep).handOff
    have hto : t ≠ m'.sched.current := by
      rintro rfl
      cases hpoint.symm.trans hh'.current
    by_cases hfrom : t = m.sched.current
    · subst hfrom
      have hne : m.sched.current ≠ idleTask := by
        intro hidle
        rw [hidle, hh'.idle] at hpoint
        cases hpoint
      obtain ⟨rfl, hwaiting, filter, len, timeout, rfl⟩ := heffect.calls hne hto hpoint
      refine ⟨m.sched.cycle, timeout, ⟨filter, len, hself hne (Ne.symm hto)⟩, fun hclear => ?_⟩
      rw [hwaiting] at hclear
      cases hclear
    · have hold : (m.sched.tasks t).point = .inRecv n := (heffect.rest hfrom hto).point.symm.trans hpoint
      obtain ⟨clock, timeout, hcalled, hkept⟩ := h.called t n hold
      obtain ⟨hclock, l', hreceiving⟩ := h.receiving hfrom hcalled
      obtain ⟨filter, len, hx⟩ := hcalled
      refine ⟨clock, timeout, ⟨filter, len, (hothers t hfrom).trans hx⟩, ?_⟩
      exact heffect.kept (x := ⟨l', clock, n⟩) h.inv.handOff hcopies hfrom hto hold hclock hreceiving hkept

/-! ## Every run -/

/-- In every run whose deliveries copy at least a byte or come too late, a zero result of
`recv_udp` means that the timeout has passed. -/
theorem recvUdp_zero_timeout {numTask : Nat} {dontCare : Owner} {events : List Event} {e : Event}
    (hrun : runSteps step (boot numTask dontCare) events = some m)
    (hcopies : AllSteps step CopiesBytes (boot numTask dontCare) events) (hstep : m.step e = some m') :
    ZeroMeansTimeout m m' := by
  have hinv : RecvInv m := runSteps_invariant_of_allSteps (I := RecvInv)
    (fun _ _ _ h hp hs => recvInv_step h hp hs) (boot_recvInv numTask dontCare) hcopies hrun
  exact hinv.zeroMeansTimeout hstep

/-- Task 1 calls `recv_udp` with a timeout of 1000 cycles. -/
def smallReceive : List Sched.Label :=
  Sched.smallPolls ++ [.idle, .idle, .idle, .recvUdp ⟨6969, ipv6Unspecified, 0⟩ 516 1000]

/-- No datagram arrives for 1000 cycles. -/
def smallTimeout : List Sched.Label := smallReceive ++ [.tick 1000] ++ Sched.smallPolls ++ [.idle, .idle]

/-- The theorem at a timeout. -/
theorem recvUdp_zero_timeout_small : ∃ m m',
    runSteps step (boot 2 .user) (smallTimeout.map Event.kernel) = some m ∧ m.step (.kernel .idle) = some m' ∧
      m'.sched.log.calls.map RecvCall.ret = [some 0] ∧ ZeroMeansTimeout m m' := by
  have hrun : (runSteps step (boot 2 .user) (smallTimeout.map Event.kernel)).bind (fun m =>
      (m.step (.kernel .idle)).map fun m' => m'.sched.log.calls.map RecvCall.ret) = some [some 0] := by
    decide +kernel
  obtain ⟨m, hm, hrest⟩ := Option.bind_eq_some_iff.mp hrun
  obtain ⟨m', hm', hret⟩ := Option.map_eq_some_iff.mp hrest
  exact ⟨m, m', hm, hm', hret, recvUdp_zero_timeout hm (by decide +kernel) hm'⟩

/-- Task 2 dispatches an empty datagram, and task 1 is selected. -/
def smallEmpty : List Sched.Label :=
  smallReceive ++ Sched.smallPolls ++ [.idle, .idle, .dispatch ⟨6969, ipv4Compatible 0x3701a8c0, 4000, []⟩, .schedYield] ++
    Sched.smallPolls ++ [.idle, .idle]

/-- The clock at which the wait of a suspended call ends. -/
def due (x : Suspension) : Nat :=
  match x.label with
  | .recvUdp _ _ timeout => x.clock + timeout.toNat
  | _ => x.clock

/-- An empty datagram looks like a timeout. -/
theorem recvUdp_zero_not_always : ¬ ∀ (numTask : Nat) (dontCare : Owner) (events : List Event) (e : Event)
    (m m' : Machine), runSteps step (boot numTask dontCare) events = some m → m.step e = some m' →
      ZeroMeansTimeout m m' := by
  intro h
  have hrun : (runSteps step (boot 3 .user) (smallEmpty.map Event.kernel)).bind (fun m =>
      (m.step (.kernel .idle)).map fun m' => (m.sched.cycle, (m.suspended 1).map due,
        m.sched.log.calls.map fun c => (c.task, c.ret), m'.sched.log.calls.map RecvCall.ret)) =
      some (0, some 1000, [(1, none)], [some 0]) := by
    decide +kernel
  obtain ⟨m, hm, hrest⟩ := Option.bind_eq_some_iff.mp hrun
  obtain ⟨m', hm', htuple⟩ := Option.map_eq_some_iff.mp hrest
  simp only [Prod.mk.injEq] at htuple
  obtain ⟨hcycle, hdue, hcalls, hrets⟩ := htuple
  obtain ⟨c, hc, hcall⟩ := List.map_eq_singleton_iff.mp hcalls
  obtain ⟨c', hc', hret'⟩ := List.map_eq_singleton_iff.mp hrets
  obtain ⟨htask, hret⟩ := Prod.mk.inj hcall
  have hreturns : m.sched.Returns m'.sched 0 c 0 := ⟨by rw [hc]; rfl, hret, c', by rw [hc']; rfl, hret'⟩
  obtain ⟨clock, timeout, ⟨filter, len, hx⟩, hle⟩ := h 3 .user _ _ m m' hm hm' 0 c hreturns
  rw [htask] at hx
  rw [hx] at hdue
  have hlate : clock + timeout.toNat = 1000 := Option.some.inj hdue
  omega

end Machine

end VijosOS
