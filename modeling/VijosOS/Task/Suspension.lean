import VijosOS.Task.HandOff

/-!
# Suspended tasks

The steps of the scheduler one by one, and what they do to a task that runs neither before
nor after: its timer may expire and a datagram may be delivered to it, nothing else.
-/

namespace VijosOS

open Library

/-! ## Positions -/

def Point.isWait : Point → Bool
  | .inWait _ => true
  | _ => false

namespace IdlePoint

/-- The event whose poll comes next. -/
def event : IdlePoint → Option (BitVec 64)
  | .pollTtyRecv => some waitTtyRecv
  | .pollTtySend => some waitTtySend
  | .pollEthRecv => some waitEthRecv
  | .pollEthSend => some waitEthSend
  | _ => none

/-- How many tasks the scan under way has looked at. -/
def seen : IdlePoint → Nat
  | .scan i => i
  | .pollUdp i _ => i + 1
  | _ => 0

theorem event_ne_exit {p : IdlePoint} {e : BitVec 64} (h : p.event = some e) : waitExit &&& e = 0 := by
  cases p <;> cases h <;> decide

/-- The events are different bits. -/
theorem eq_of_event {p q : IdlePoint} {e w : BitVec 64} (hp : p.event = some e) (hq : q.event = some w)
    (h : w &&& e ≠ 0) : p = q := by
  cases p <;> cases hp <;> cases q <;> cases hq <;> first | rfl | exact absurd (by decide) h

theorem seen_of_event {p : IdlePoint} {e : BitVec 64} (h : p.event = some e) : p.seen = 0 := by
  cases p with
  | pollTtyRecv | pollTtySend | pollEthRecv | pollEthSend | check => rfl
  | scan | pollUdp => cases h

end IdlePoint

namespace Sched

variable {s s' : Sched}

/-! ## Resuming a task -/

/-- The code of `t` takes over, before its next statement. -/
def takeOver (s : Sched) (t : Nat) : Sched :=
  Sched.modify { s with current := t } t fun k => { k with point := .running }

theorem takeOver_tasks_of_ne (s : Sched) {t u : Nat} (h : u ≠ t) : (s.takeOver t).tasks u = s.tasks u :=
  modify_tasks_of_ne _ (fun k => { k with point := .running }) h

theorem switchTo_eq (s : Sched) (t : Nat) : s.switchTo t =
    match (s.tasks t).point with
    | .inWait w => Sched.modify { s.takeOver t with numWaitingTask := s.numWaitingTask - 1 } t
        fun k => { k with wait := k.wait &&& ~~~w }
    | .inRecv n => { s.takeOver t with log := s.log.ret n }
    | .inDispatch i =>
      match s.log.datagrams[i]? with
      | some d =>
        match (s.takeOver t).taskFindUdp d with
        | some u => (s.takeOver t).deliver u i d
        | none => s.takeOver t
      | none => s.takeOver t
    | _ => s.takeOver t := rfl

theorem switchTo_cases (s : Sched) (t : Nat) :
    (∃ w, (s.tasks t).point = .inWait w ∧ s.switchTo t =
      Sched.modify { s.takeOver t with numWaitingTask := s.numWaitingTask - 1 } t
        fun k => { k with wait := k.wait &&& ~~~w }) ∨
    (∃ n, (s.tasks t).point = .inRecv n ∧
      s.switchTo t = { s.takeOver t with log := s.log.ret n }) ∨
    (∃ i d u, (s.tasks t).point = .inDispatch i ∧ (s.takeOver t).taskFindUdp d = some u ∧
      s.switchTo t = (s.takeOver t).deliver u i d) ∨
    ((s.tasks t).point.isWait = false ∧ s.switchTo t = s.takeOver t) := by
  rw [switchTo_eq]
  cases hpoint : (s.tasks t).point with
  | inWait w => exact .inl ⟨w, rfl, rfl⟩
  | inRecv n => exact .inr (.inl ⟨n, rfl, rfl⟩)
  | inDispatch i =>
    dsimp only
    split
    · next d hd =>
      split
      · next u hu => exact .inr (.inr (.inl ⟨i, d, u, rfl, hu, rfl⟩))
      · exact .inr (.inr (.inr ⟨rfl, rfl⟩))
    · exact .inr (.inr (.inr ⟨rfl, rfl⟩))
  | entry | running | yielded | inSleep delta => exact .inr (.inr (.inr ⟨rfl, rfl⟩))

/-! ## The steps -/

def nextRr (s : Sched) : Nat := if s.rr + 1 = s.numTask then 0 else s.rr + 1

/-- The steps of the scheduler, with what each of them has tested. -/
inductive Effect (s : Sched) : Label → Sched → Prop
  | tick (cycles : Nat) : Effect s (.tick cycles) { s with cycle := s.cycle + cycles }
  | next (l : Label) (p : IdlePoint) (hidle : s.current = idleTask) (hs : s.idle.seen = 0)
      (hnone : ∀ e, l = .poll true → s.idle.event = some e → s.findTaskWaitingFor e = none)
      (hp : p.seen = 0) : Effect s l { s with idle := p }
  | handOff (e : BitVec 64) (p : IdlePoint) (t : Nat) (hidle : s.current = idleTask)
      (he : s.idle.event = some e) (hp : p.seen = 0) (ht : s.findTaskWaitingFor e = some t) :
      Effect s (.poll true) (Sched.switchTo { s with idle := p } t)
  | exhausted (i : Nat) (hidle : s.current = idleTask) (hs : s.idle = .scan i) (hi : s.numTask ≤ i) :
      Effect s .idle { s with idle := .pollTtyRecv }
  | skipped (i : Nat) (hidle : s.current = idleTask) (hs : s.idle = .scan i) (hi : i < s.numTask)
      (hskip : s.rr = idleTask ∨ (s.tasks s.rr).wait ≠ 0) :
      Effect s .idle { s with rr := s.nextRr, idle := .scan (i + 1) }
  | looked (i : Nat) (hidle : s.current = idleTask) (hs : s.idle = .scan i) (hi : i < s.numTask)
      (hne : s.rr ≠ idleTask) (hwait : (s.tasks s.rr).wait = 0) :
      Effect s .idle (Sched.modify
        { s with
          rr := s.nextRr
          idle := if (pollTimer s.rdcycle (s.tasks s.rr).timer).1 then .pollUdp i s.rr else .scan (i + 1) }
        s.rr fun k => { k with timer := (pollTimer s.rdcycle (s.tasks s.rr).timer).2 })
  | passed (i t : Nat) (hidle : s.current = idleTask) (hs : s.idle = .pollUdp i t)
      (hpoll : (taskPollUdp s.rdcycle (s.tasks t).waitPacket).1 = false) :
      Effect s .idle { s with idle := .scan (i + 1) }
  | selected (i t : Nat) (hidle : s.current = idleTask) (hs : s.idle = .pollUdp i t)
      (hpoll : (taskPollUdp s.rdcycle (s.tasks t).waitPacket).1 = true) :
      Effect s .idle (Sched.switchTo
        (Sched.modify { s with idle := .pollTtyRecv } t fun k =>
          { k with waitPacket := (taskPollUdp s.rdcycle (s.tasks t).waitPacket).2 }) t)
  | recvUdp (filter : UdpFilter) (len : Nat) (timeout : BitVec 64) (hne : s.current ≠ idleTask) :
      Effect s (.recvUdp filter len timeout) (s.recvUdp filter len timeout)
  | delivered (d : UdpDispatch) (t : Nat) (hne : s.current ≠ idleTask) (ht : s.taskFindUdp d = some t) :
      Effect s (.dispatch d)
        (Sched.deliver { s with log := s.log.receive d } t s.log.datagrams.length d)
  | undelivered (d : UdpDispatch) (hne : s.current ≠ idleTask) (ht : s.taskFindUdp d = none) :
      Effect s (.dispatch d)
        (Sched.schedYield { s with log := s.log.receive d } (.inDispatch s.log.datagrams.length))
  | wait (w : BitVec 64) (hne : s.current ≠ idleTask) : Effect s (.wait w) (s.wait w)
  | sleep (delta : BitVec 64) (hne : s.current ≠ idleTask) : Effect s (.sleep delta) (s.sleep delta)
  | schedYield (hne : s.current ≠ idleTask) : Effect s .schedYield (s.schedYield .yielded)

theorem pollStep_effect (hidle : s.current = idleTask) {e : BitVec 64} (he : s.idle.event = some e)
    {p : IdlePoint} (hp : p.seen = 0) (ready : Bool) :
    Effect s (.poll ready) (s.pollStep e p ready) := by
  have hs := IdlePoint.seen_of_event he
  unfold pollStep
  cases ready with
  | false => exact .next _ p hidle hs nofun hp
  | true =>
    dsimp only
    rw [if_pos rfl]
    split
    · next t ht => exact .handOff e p t hidle he hp ht
    · next ht =>
      refine .next _ p hidle hs (fun e' _ he' => ?_) hp
      cases he.symm.trans he'
      exact ht

theorem scanStep_effect (hidle : s.current = idleTask) {i : Nat} (hs : s.idle = .scan i) :
    Effect s .idle (s.scanStep i) := by
  unfold scanStep
  by_cases hi : i < s.numTask
  · rw [if_pos hi]
    dsimp only
    by_cases hlook : s.rr ≠ s.current ∧ (s.tasks s.rr).wait = 0
    · rw [if_pos hlook]
      have heffect := Effect.looked i hidle hs hi (hidle ▸ hlook.1) hlook.2
      change Effect s .idle (if (pollTimer s.rdcycle (s.tasks s.rr).timer).1 then _ else _)
      by_cases hpoll : (pollTimer s.rdcycle (s.tasks s.rr).timer).1 = true
      · rw [if_pos hpoll] at heffect ⊢
        exact heffect
      · rw [if_neg hpoll] at heffect ⊢
        exact heffect
    · rw [if_neg hlook]
      refine .skipped i hidle hs hi ?_
      rw [hidle] at hlook
      by_contra hskip
      exact hlook ⟨fun h => hskip (.inl h), by_contra fun h => hskip (.inr h)⟩
  · rw [if_neg hi]
    exact .exhausted i hidle hs (Nat.le_of_not_lt hi)

theorem pollTimer_cases (cycle : BitVec 64) (t : Timer) :
    pollTimer cycle t = (true, t) ∧ t.timeout = true ∨
      pollTimer cycle t = (true, { t with timeout := true }) ∧ t.delta ≤ cycle - t.start ∨
      pollTimer cycle t = (false, t) ∧ t.timeout = false := by
  unfold pollTimer
  split_ifs with hold hdue
  · exact .inl ⟨rfl, hold⟩
  · exact .inr (.inl ⟨rfl, hdue⟩)
  · exact .inr (.inr ⟨rfl, Bool.not_eq_true _ ▸ hold⟩)

theorem taskPollUdp_of_false (cycle : BitVec 64) (w : WaitPacket)
    (h : (taskPollUdp cycle w).1 = false) : (taskPollUdp cycle w).2 = w := by
  obtain ⟨htaken, -⟩ | htaken | htaken := taskPollUdp_cases cycle w
  all_goals rw [htaken] at h ⊢
  all_goals cases h

theorem pollTimer_iff (cycle : BitVec 64) (t : Timer) :
    (pollTimer cycle t).1 = true ↔ t.timeout = true ∨ t.delta ≤ cycle - t.start := by
  unfold pollTimer
  split_ifs with hold hdue
  · simp [hold]
  · simp [hdue]
  · simp [hold, hdue]

theorem taskPollUdp_iff (cycle : BitVec 64) (w : WaitPacket) :
    (taskPollUdp cycle w).1 = true ↔ w.isWaiting = false ∨ w.delta ≤ cycle - w.start := by
  unfold taskPollUdp
  split_ifs with hold hdue
  · exact iff_of_true rfl (.inl (by simpa using hold))
  · simp [hdue]
  · simpa [hdue] using hold

theorem pollUdpStep_effect (hidle : s.current = idleTask) {i t : Nat} (hs : s.idle = .pollUdp i t) :
    Effect s .idle (s.pollUdpStep i t) := by
  have hpassed := Effect.passed i t hidle hs
  have hselected := Effect.selected i t hidle hs
  have hsame := taskPollUdp_of_false s.rdcycle (s.tasks t).waitPacket
  have hupdate : Function.update s.tasks t (s.tasks t) = s.tasks := Function.update_eq_self t s.tasks
  unfold pollUdpStep
  revert hpassed hselected hsame
  generalize taskPollUdp s.rdcycle (s.tasks t).waitPacket = polled
  obtain ⟨ok, w⟩ := polled
  intro hpassed hselected hsame
  cases ok with
  | true => exact hselected rfl
  | false =>
    obtain rfl : w = (s.tasks t).waitPacket := hsame rfl
    dsimp only [Sched.modify]
    rw [hupdate]
    exact hpassed rfl

theorem taskStep_effect (hne : s.current ≠ idleTask) {l : Label} (hstep : s.taskStep l = some s') :
    Effect s l s' := by
  cases l with
  | tick | poll | idle => cases hstep
  | recvUdp filter len timeout =>
    cases hstep
    exact .recvUdp filter len timeout hne
  | dispatch d =>
    cases hstep
    unfold taskDispatchUdp
    dsimp only
    split
    · next t ht => exact .delivered d t hne ht
    · next ht => exact .undelivered d hne ht
  | wait w =>
    cases hstep
    exact .wait w hne
  | sleep delta =>
    cases hstep
    exact .sleep delta hne
  | schedYield =>
    cases hstep
    exact .schedYield hne

theorem idleStep_effect (hidle : s.current = idleTask) {l : Label} (hstep : s.idleStep l = some s') :
    Effect s l s' := by
  cases l with
  | poll ready =>
    cases hs : s.idle with
    | pollTtyRecv | pollTtySend | pollEthRecv | pollEthSend =>
      simp only [idleStep, hs] at hstep
      cases hstep
      exact pollStep_effect hidle (by rw [hs]; rfl) rfl ready
    | check | scan | pollUdp =>
      simp only [idleStep, hs] at hstep
      cases hstep
  | idle =>
    cases hs : s.idle with
    | check =>
      simp only [idleStep, hs] at hstep
      cases hstep
      refine .next .idle _ hidle (by rw [hs]; rfl) nofun ?_
      split_ifs <;> rfl
    | scan i =>
      simp only [idleStep, hs] at hstep
      cases hstep
      exact scanStep_effect hidle hs
    | pollUdp i t =>
      simp only [idleStep, hs] at hstep
      cases hstep
      exact pollUdpStep_effect hidle hs
    | pollTtyRecv | pollTtySend | pollEthRecv | pollEthSend =>
      simp only [idleStep, hs] at hstep
      cases hstep
  | tick | recvUdp | dispatch | wait | sleep | schedYield => cases hstep

theorem step_effect {l : Label} (hstep : s.step l = some s') : Effect s l s' := by
  unfold step at hstep
  split at hstep
  · next cycles =>
    cases hstep
    exact .tick cycles
  · split_ifs at hstep with hidle
    · exact idleStep_effect hidle hstep
    · exact taskStep_effect hidle hstep

/-! ## What an operation changes -/

theorem modify_tasks (s : Sched) (t : Nat) (f : Task → Task) (u : Nat) :
    (s.modify t f).tasks u = if u = t then f (s.tasks t) else s.tasks u := Function.update_apply ..

theorem modify_point (s : Sched) (t : Nat) {f : Task → Task}
    (h : (f (s.tasks t)).point = (s.tasks t).point) (u : Nat) :
    ((s.modify t f).tasks u).point = (s.tasks u).point := by
  rw [modify_tasks]
  split_ifs with hu
  · rw [hu, h]
  · rfl

theorem deliver_tasks (s : Sched) (t i : Nat) (d : UdpDispatch) (u : Nat) : (s.deliver t i d).tasks u =
    if u = t then { s.tasks t with waitPacket := { (s.tasks t).waitPacket with isWaiting := false } }
    else s.tasks u :=
  modify_tasks s t (fun k => { k with waitPacket := { k.waitPacket with isWaiting := false } }) u

theorem deliver_point (s : Sched) (t i : Nat) (d : UdpDispatch) (u : Nat) :
    ((s.deliver t i d).tasks u).point = (s.tasks u).point := by
  rw [deliver_tasks]
  split_ifs with hu
  · rw [hu]
  · rfl

theorem takeOver_tasks (s : Sched) (t u : Nat) : (s.takeOver t).tasks u =
    if u = t then { s.tasks t with point := .running } else s.tasks u :=
  modify_tasks { s with current := t } t (fun k => { k with point := .running }) u

theorem schedYield_tasks (s : Sched) (p : Point) (u : Nat) : (s.schedYield p).tasks u =
    if u = s.current then { s.tasks s.current with point := p } else s.tasks u :=
  modify_tasks s s.current (fun k => { k with point := p }) u

theorem recvUdp_tasks_self (s : Sched) (filter : UdpFilter) (len : Nat) (timeout : BitVec 64) :
    (s.recvUdp filter len timeout).tasks s.current =
      { s.tasks s.current with
        waitPacket := ⟨true, filter, s.log.calls.length, len, s.rdcycle, timeout⟩
        point := .inRecv s.log.calls.length } := by
  simp [recvUdp, schedYield, Sched.modify, rdcycle]

theorem wait_tasks_self (s : Sched) (w : BitVec 64) : (s.wait w).tasks s.current =
    { s.tasks s.current with wait := (s.tasks s.current).wait ||| w, point := .inWait w } := by
  simp [wait, schedYield, Sched.modify]

theorem sleep_tasks_self (s : Sched) (delta : BitVec 64) : (s.sleep delta).tasks s.current =
    { s.tasks s.current with timer := setTimer s.rdcycle delta, point := .inSleep delta } := by
  simp [sleep, schedYield, Sched.modify]

theorem recvUdp_tasks_of_ne (s : Sched) (filter : UdpFilter) (len : Nat) (timeout : BitVec 64) {u : Nat}
    (hu : u ≠ s.current) : (s.recvUdp filter len timeout).tasks u = s.tasks u := by
  simp [recvUdp, schedYield, Sched.modify, hu]

theorem wait_tasks_of_ne (s : Sched) (w : BitVec 64) {u : Nat} (hu : u ≠ s.current) :
    (s.wait w).tasks u = s.tasks u := by
  simp [wait, schedYield, Sched.modify, hu]

theorem sleep_tasks_of_ne (s : Sched) (delta : BitVec 64) {u : Nat} (hu : u ≠ s.current) :
    (s.sleep delta).tasks u = s.tasks u := by
  simp [sleep, schedYield, Sched.modify, hu]

/-- The fields that only `idle_entry` and the clock change. -/
structure SameLoop (s s' : Sched) : Prop where
  cycle : s'.cycle = s.cycle
  numTask : s'.numTask = s.numTask
  idle : s'.idle = s.idle
  rr : s'.rr = s.rr

theorem switchTo_loop (s : Sched) (t : Nat) : SameLoop s (s.switchTo t) := by
  obtain ⟨w, -, h⟩ | ⟨n, -, h⟩ | ⟨i, d, u, -, -, h⟩ | ⟨-, h⟩ := switchTo_cases s t
  all_goals rw [h]
  all_goals exact ⟨rfl, rfl, rfl, rfl⟩

theorem switchTo_current (s : Sched) (t : Nat) : (s.switchTo t).current = t := by
  obtain ⟨w, -, h⟩ | ⟨n, -, h⟩ | ⟨i, d, u, -, -, h⟩ | ⟨-, h⟩ := switchTo_cases s t
  all_goals rw [h]
  all_goals rfl

theorem switchTo_point (s : Sched) (t u : Nat) :
    ((s.switchTo t).tasks u).point = if u = t then .running else (s.tasks u).point := by
  have htake : ((s.takeOver t).tasks u).point = if u = t then .running else (s.tasks u).point := by
    rw [takeOver_tasks]
    split_ifs <;> rfl
  obtain ⟨w, -, h⟩ | ⟨n, -, h⟩ | ⟨i, d, v, -, -, h⟩ | ⟨-, h⟩ := switchTo_cases s t
  · rw [h, ← htake]
    exact modify_point _ t rfl u
  · rw [h]
    exact htake
  · rw [h, ← htake]
    exact deliver_point _ v i d u
  · rw [h]
    exact htake

theorem switchTo_numWaitingTask (s : Sched) (t : Nat) :
    (s.switchTo t).numWaitingTask = s.numWaitingTask - (s.tasks t).point.isWait.toNat := by
  obtain ⟨w, hp, h⟩ | ⟨n, hp, h⟩ | ⟨i, d, u, hp, -, h⟩ | ⟨hp, h⟩ := switchTo_cases s t
  all_goals rw [h, hp]
  all_goals rfl

/-! ## Tasks at rest -/

/-- What a step may do to a task that does not run. -/
inductive Rest (s s' : Sched) (t : Nat) : Prop
  | same (h : s'.tasks t = s.tasks t)
  | expired (hdue : (s.tasks t).timer.delta ≤ s.rdcycle - (s.tasks t).timer.start)
      (h : s'.tasks t = { s.tasks t with timer := { (s.tasks t).timer with timeout := true } })
  | delivered (i : Nat) (hwaiting : (s.tasks t).waitPacket.isWaiting = true)
      (hi : (i, (s.tasks t).waitPacket.call) ∈ s'.log.deliveries)
      (h : s'.tasks t =
        { s.tasks t with waitPacket := { (s.tasks t).waitPacket with isWaiting := false } })

theorem Rest.of_same {s₁ : Sched} {t : Nat} (h : Rest s₁ s' t) (htask : s₁.tasks t = s.tasks t)
    (hcycle : s₁.cycle = s.cycle) : Rest s s' t := by
  have hclock : s₁.rdcycle = s.rdcycle := congrArg (BitVec.ofNat 64) hcycle
  cases h with
  | same h => exact .same (h.trans htask)
  | expired hdue h =>
    rw [htask] at hdue h
    rw [hclock] at hdue
    exact .expired hdue h
  | delivered i hwaiting hi h =>
    rw [htask] at hwaiting hi h
    exact .delivered i hwaiting hi h

theorem Rest.point {t : Nat} (h : Rest s s' t) : (s'.tasks t).point = (s.tasks t).point := by
  cases h with
  | same h | expired _ h | delivered _ _ _ h => rw [h]

theorem deliver_rest {d : UdpDispatch} {t : Nat} (ht : s.taskFindUdp d = some t) (i u : Nat) :
    Rest s (s.deliver t i d) u := by
  have htask := deliver_tasks s t i d u
  by_cases hu : u = t
  · subst hu
    rw [if_pos rfl] at htask
    exact .delivered i (taskFindUdp_some ht).1 (List.mem_append_right _ (List.mem_singleton.mpr rfl)) htask
  · rw [if_neg hu] at htask
    exact .same htask

theorem switchTo_rest (s : Sched) {t u : Nat} (hu : u ≠ t) : Rest s (s.switchTo t) u := by
  have htake := takeOver_tasks_of_ne s hu
  obtain ⟨w, -, h⟩ | ⟨n, -, h⟩ | ⟨i, d, v, -, hv, h⟩ | ⟨-, h⟩ := switchTo_cases s t
  all_goals rw [h]
  · refine .same ?_
    rw [modify_tasks, if_neg hu]
    exact htake
  · exact .same htake
  · exact (deliver_rest hv i u).of_same htake rfl
  · exact .same htake

theorem Effect.rest {l : Label} (h : Effect s l s') {u : Nat} (hu : u ≠ s.current)
    (hu' : u ≠ s'.current) : Rest s s' u := by
  cases h with
  | tick | next | exhausted | skipped | passed => exact .same rfl
  | handOff e p t _ _ _ ht =>
    rw [switchTo_current] at hu'
    exact (switchTo_rest _ hu').of_same rfl rfl
  | looked i hidle hs hi hne hwait =>
    by_cases hrr : u = s.rr
    · subst hrr
      have htask := modify_tasks_self s s.rr fun k =>
        { k with timer := (pollTimer s.rdcycle (s.tasks s.rr).timer).2 }
      obtain ⟨hpoll, -⟩ | ⟨hpoll, hdue⟩ | ⟨hpoll, -⟩ := pollTimer_cases s.rdcycle (s.tasks s.rr).timer
      all_goals rw [hpoll] at htask ⊢
      · exact .same htask
      · exact .expired hdue htask
      · exact .same htask
    · exact .same (modify_tasks_of_ne _ _ hrr)
  | selected i t hidle hs hpoll =>
    rw [switchTo_current] at hu'
    exact (switchTo_rest _ hu').of_same (modify_tasks_of_ne _ _ hu') rfl
  | recvUdp filter len timeout hne => exact .same (recvUdp_tasks_of_ne s filter len timeout hu)
  | delivered d t hne ht => exact (deliver_rest (s := { s with log := s.log.receive d }) ht _ u).of_same rfl rfl
  | undelivered d hne ht => exact .same (schedYield_tasks_of_ne _ _ hu)
  | wait w hne => exact .same (wait_tasks_of_ne s w hu)
  | sleep delta hne => exact .same (sleep_tasks_of_ne s delta hu)
  | schedYield hne => exact .same (schedYield_tasks_of_ne s _ hu)

/-! ## The loop -/

def waitingTasks (s : Sched) : Nat := Nat.count (fun t => (s.tasks t).point.isWait = true) s.numTask

structure LoopInv (s : Sched) : Prop where
  current : s.current = idleTask ∨ s.current < s.numTask
  rr : s.numTask = 0 ∨ s.rr < s.numTask
  pollUdp : ∀ i t, s.idle = .pollUdp i t → s.current = idleTask ∧ t ≠ idleTask ∧ t < s.numTask ∧
    (s.tasks t).wait = 0 ∧ (s.tasks t).timer.timeout = true
  waiting : s.numWaitingTask = s.waitingTasks

theorem boot_loopInv (numTask : Nat) : LoopInv (boot numTask) := by
  have hpoint : ∀ t, ((boot numTask).tasks t).point.isWait = false := by
    intro t
    by_cases ht : t = idleTask <;> simp [boot, ht, createTask, Point.isWait]
  refine ⟨.inl rfl, ?_, nofun, ?_⟩
  · exact (Nat.eq_zero_or_pos numTask).imp_right id
  · refine (Nat.count_iff_forall_not.mpr fun t _ => ?_).symm
    simp [hpoint t]

/-- One task changes its point. -/
theorem waitingTasks_point (s s' : Sched) {t : Nat} {p : Point} (ht : t < s.numTask) (hn : s'.numTask = s.numTask)
    (hpoint : ∀ u, (s'.tasks u).point = if u = t then p else (s.tasks u).point) :
    s'.waitingTasks + (s.tasks t).point.isWait.toNat = s.waitingTasks + p.isWait.toNat := by
  have hself : (s'.tasks t).point = p := by rw [hpoint, if_pos rfl]
  have hother : ∀ u, u ≠ t → ((s'.tasks u).point.isWait = true ↔ (s.tasks u).point.isWait = true) := by
    intro u hu
    rw [hpoint, if_neg hu]
  unfold waitingTasks
  rw [hn]
  cases hold : (s.tasks t).point.isWait with
  | false =>
    cases hnew : p.isWait with
    | false =>
      congr 1
      refine count_congr fun u _ => ?_
      by_cases hu : u = t
      · rw [hu, hself, hold, hnew]
      · exact hother u hu
    | true => exact count_flip ht (by simp [hold]) (by simp [hself, hnew]) hother
  | true =>
    cases hnew : p.isWait with
    | false =>
      exact (count_flip ht (by simp [hself, hnew]) (by simp [hold]) fun u hu => (hother u hu).symm).symm
    | true =>
      congr 1
      refine count_congr fun u _ => ?_
      by_cases hu : u = t
      · rw [hu, hself, hold, hnew]
      · exact hother u hu

theorem waitingTasks_same (s s' : Sched) (hn : s'.numTask = s.numTask)
    (hpoint : ∀ u, (s'.tasks u).point = (s.tasks u).point) : s'.waitingTasks = s.waitingTasks := by
  unfold waitingTasks
  rw [hn]
  exact count_congr fun u _ => by rw [hpoint]

theorem LoopInv.waiting_of (h : LoopInv s) (hn : s'.numTask = s.numTask)
    (hwaiting : s'.numWaitingTask = s.numWaitingTask)
    (hpoint : ∀ u, (s'.tasks u).point = (s.tasks u).point) : s'.numWaitingTask = s'.waitingTasks := by
  rw [hwaiting, h.waiting, waitingTasks_same s s' hn hpoint]

theorem switchTo_loopInv (h : LoopInv s) {t : Nat} (ht : t < s.numTask) (hs : s.idle.seen = 0) :
    LoopInv (s.switchTo t) := by
  obtain ⟨hcycle, hnum, hidle, hrr⟩ := switchTo_loop s t
  refine ⟨.inr ?_, ?_, fun i u hu => ?_, ?_⟩
  · rw [switchTo_current, hnum]
    exact ht
  · rw [hnum, hrr]
    exact h.rr
  · rw [hidle] at hu
    rw [hu] at hs
    cases hs
  · have hcount := waitingTasks_point s (s.switchTo t) ht hnum (switchTo_point s t)
    have hwaiting := h.waiting
    rw [switchTo_numWaitingTask]
    rw [show Point.running.isWait.toNat = 0 from rfl] at hcount
    omega

/-- `current` stops at `p`; `s₁` is the state after its last statements. -/
theorem schedYield_loopInv (h : LoopInv s) (hne : s.current ≠ idleTask) {p : Point} {s₁ : Sched}
    (hrunning : (s.tasks s.current).point = .running) (hloop : SameLoop s s₁)
    (hcurrent : s₁.current = s.current) (hpoint : ∀ u, (s₁.tasks u).point = (s.tasks u).point)
    (hwaiting : s₁.numWaitingTask = s.numWaitingTask + p.isWait.toNat) :
    LoopInv (s₁.schedYield p) := by
  obtain ⟨hcycle, hnum, hidle, hrr⟩ := hloop
  refine ⟨.inl rfl, ?_, fun i u hu => ?_, ?_⟩
  · exact hnum ▸ hrr ▸ h.rr
  · exact absurd (h.pollUdp i u (hidle.symm.trans hu)).1 hne
  · have hstop : ∀ u, ((s₁.schedYield p).tasks u).point =
        if u = s.current then p else (s.tasks u).point := by
      intro u
      rw [schedYield_tasks, hcurrent, ← hpoint u]
      split_ifs <;> rfl
    have hcount := waitingTasks_point s (s₁.schedYield p) (h.current.resolve_left hne) hnum hstop
    rw [hrunning] at hcount
    have hold := h.waiting
    change s₁.numWaitingTask = _
    rw [show Point.running.isWait.toNat = 0 from rfl] at hcount
    omega

/-- Idle goes on at a point that is not in the middle of a poll. -/
theorem LoopInv.idleAt (h : LoopInv s) (hidle : s.current = idleTask) {p : IdlePoint}
    (hp : ∀ i t, p ≠ .pollUdp i t) {rr : Nat} (hrr : s.numTask = 0 ∨ rr < s.numTask) :
    LoopInv { s with rr := rr, idle := p } :=
  ⟨.inl hidle, hrr, fun i t hs => absurd hs (hp i t), h.waiting⟩

theorem nextRr_lt (hi : 0 < s.numTask) (hrr : s.rr < s.numTask) : s.nextRr < s.numTask := by
  unfold nextRr
  split_ifs <;> omega

theorem findTaskWaitingFor_and {w : BitVec 64} {t : Nat} (h : s.findTaskWaitingFor w = some t) :
    (s.tasks t).wait &&& w ≠ 0 := by
  have hfound := List.find?_some h
  exact bne_iff_ne.mp hfound

theorem findTaskWaitingFor_lt {w : BitVec 64} {t : Nat} (h : s.findTaskWaitingFor w = some t) :
    t < s.numTask := List.mem_range.mp (List.mem_of_find?_eq_some h)

theorem pollTimer_timeout {cycle : BitVec 64} {t : Timer} (h : (pollTimer cycle t).1 = true) :
    (pollTimer cycle t).2.timeout = true := by
  obtain ⟨hpoll, hold⟩ | ⟨hpoll, -⟩ | ⟨hpoll, -⟩ := pollTimer_cases cycle t
  · rw [hpoll]
    exact hold
  · rw [hpoll]
  · rw [hpoll] at h
    cases h

theorem looked_loopInv (hl : LoopInv s) {i : Nat} (hidle : s.current = idleTask) (hi : i < s.numTask)
    (hne : s.rr ≠ idleTask) (hwait : (s.tasks s.rr).wait = 0) :
    LoopInv (Sched.modify
      { s with
        rr := s.nextRr
        idle := if (pollTimer s.rdcycle (s.tasks s.rr).timer).1 then .pollUdp i s.rr else .scan (i + 1) }
      s.rr fun k => { k with timer := (pollTimer s.rdcycle (s.tasks s.rr).timer).2 }) := by
  have hrr : s.rr < s.numTask := hl.rr.resolve_left (by omega)
  have hself := modify_tasks_self s s.rr fun k =>
    { k with timer := (pollTimer s.rdcycle (s.tasks s.rr).timer).2 }
  refine ⟨.inl hidle, .inr (nextRr_lt (by omega) hrr), fun j t hs => ?_, ?_⟩
  · change (if (pollTimer s.rdcycle (s.tasks s.rr).timer).1 then IdlePoint.pollUdp i s.rr else .scan (i + 1)) =
      .pollUdp j t at hs
    split_ifs at hs with hpoll
    obtain ⟨-, rfl⟩ := IdlePoint.pollUdp.inj hs
    refine ⟨hidle, hne, hrr, ?_, ?_⟩
    · exact (congrArg Task.wait hself).trans hwait
    · exact (congrArg (fun k => k.timer.timeout) hself).trans (pollTimer_timeout hpoll)
  · exact hl.waiting_of rfl rfl fun u => modify_point _ s.rr rfl u

theorem Effect.loopInv {l : Label} (h : Effect s l s') (hh : HandOffInv s) (hl : LoopInv s) :
    LoopInv s' := by
  cases h with
  | tick cycles => exact ⟨hl.current, hl.rr, hl.pollUdp, hl.waiting⟩
  | next _ p hidle hs hnone hp => exact hl.idleAt hidle (fun i t h => by rw [h] at hp; cases hp) hl.rr
  | handOff e p t hidle he hp ht =>
    have hat : LoopInv { s with idle := p } :=
      hl.idleAt hidle (fun i t h => by rw [h] at hp; cases hp) hl.rr
    exact switchTo_loopInv hat (findTaskWaitingFor_lt ht) hp
  | exhausted i hidle hs hi => exact hl.idleAt (p := .pollTtyRecv) hidle nofun hl.rr
  | skipped i hidle hs hi hskip =>
    have hrr : s.rr < s.numTask := hl.rr.resolve_left (by omega)
    exact hl.idleAt (p := .scan (i + 1)) hidle nofun (.inr (nextRr_lt (by omega) hrr))
  | looked i hidle hs hi hne hwait => exact looked_loopInv hl hidle hi hne hwait
  | passed i t hidle hs hpoll => exact hl.idleAt (p := .scan (i + 1)) hidle nofun hl.rr
  | selected i t hidle hs hpoll =>
    have hpolled : LoopInv (Sched.modify { s with idle := .pollTtyRecv } t fun k =>
        { k with waitPacket := (taskPollUdp s.rdcycle (s.tasks t).waitPacket).2 }) := by
      exact ⟨.inl hidle, hl.rr, nofun, hl.waiting_of rfl rfl fun u => modify_point _ t rfl u⟩
    exact switchTo_loopInv hpolled (hl.pollUdp i t hs).2.2.1 rfl
  | recvUdp filter len timeout hne =>
    exact schedYield_loopInv hl hne hh.current ⟨rfl, rfl, rfl, rfl⟩ rfl (modify_point _ s.current rfl) rfl
  | delivered d t hne ht =>
    exact ⟨hl.current, hl.rr, fun i u hs => absurd (hl.pollUdp i u hs).1 hne,
      hl.waiting_of rfl rfl (deliver_point _ t _ d)⟩
  | undelivered d hne ht =>
    exact schedYield_loopInv hl hne hh.current ⟨rfl, rfl, rfl, rfl⟩ rfl (fun _ => rfl) rfl
  | wait w hne =>
    have hpoint := modify_point s s.current (f := fun t => { t with wait := t.wait ||| w }) rfl
    exact schedYield_loopInv hl hne hh.current ⟨rfl, rfl, rfl, rfl⟩ rfl hpoint rfl
  | sleep delta hne =>
    exact schedYield_loopInv hl hne hh.current ⟨rfl, rfl, rfl, rfl⟩ rfl (modify_point _ s.current rfl) rfl
  | schedYield hne =>
    exact schedYield_loopInv hl hne hh.current ⟨rfl, rfl, rfl, rfl⟩ rfl (fun _ => rfl) rfl

theorem step_loopInv {l : Label} (hh : HandOffInv s) (hl : LoopInv s) (h : s.step l = some s') :
    LoopInv s' := (step_effect h).loopInv hh hl

/-! ## Switches -/

/-- The second argument of the call of `switch_to` that the step makes. -/
def switches (s : Sched) (l : Label) : Option Nat :=
  if s.current = idleTask then
    match l with
    | .poll true => s.idle.event.bind s.findTaskWaitingFor
    | .idle =>
      match s.idle with
      | .pollUdp _ t => if (taskPollUdp s.rdcycle (s.tasks t).waitPacket).1 then some t else none
      | _ => none
    | _ => none
  else
    match l with
    | .dispatch d => if (s.taskFindUdp d).isSome then none else some idleTask
    | .recvUdp .. | .wait _ | .sleep _ | .schedYield => some idleTask
    | _ => none

theorem Effect.current {l : Label} (h : Effect s l s') : s'.current = (s.switches l).getD s.current := by
  cases h with
  | tick cycles => simp [switches]
  | next _ p hidle hs hnone hp =>
    have hswitch : s.switches l = none := by
      unfold switches
      rw [if_pos hidle]
      split
      · cases he : s.idle.event with
        | none => rfl
        | some e => exact hnone e rfl he
      · split
        · next hpoll =>
          rw [hpoll] at hs
          cases hs
        · rfl
      · rfl
    rw [hswitch]
    rfl
  | handOff e p t hidle he hp ht => simp [switches, hidle, he, ht, switchTo_current]
  | exhausted i hidle hs hi => simp [switches, hs]
  | skipped i hidle hs hi hskip => simp [switches, hs]
  | looked i hidle hs hi hne hwait =>
    have hcurrent : ∀ (s₁ : Sched) f, (s₁.modify s.rr f).current = s₁.current := fun _ _ => rfl
    simp [switches, hs, hcurrent]
  | passed i t hidle hs hpoll => simp [switches, hs, hpoll]
  | selected i t hidle hs hpoll => simp [switches, hidle, hs, hpoll, switchTo_current]
  | recvUdp filter len timeout hne => simp [switches, hne, Sched.recvUdp, Sched.schedYield]
  | delivered d t hne ht =>
    have hcurrent : (Sched.deliver { s with log := s.log.receive d } t s.log.datagrams.length d).current =
      s.current := rfl
    simp [switches, hne, ht, hcurrent]
  | undelivered d hne ht => simp [switches, hne, ht, Sched.schedYield]
  | wait w hne => simp [switches, hne, Sched.wait, Sched.schedYield]
  | sleep delta hne => simp [switches, hne, Sched.sleep, Sched.schedYield]
  | schedYield hne => simp [switches, hne, Sched.schedYield]

/-- Idle switches to a task for an event that it waits for, or at the end of its polls. -/
theorem switches_idle {l : Label} {t : Nat} (hidle : s.current = idleTask) (h : s.switches l = some t) :
    (l = .poll true ∧ ∃ e, s.idle.event = some e ∧ s.findTaskWaitingFor e = some t) ∨
      (l = .idle ∧ ∃ i, s.idle = .pollUdp i t ∧
        (taskPollUdp s.rdcycle (s.tasks t).waitPacket).1 = true) := by
  unfold switches at h
  rw [if_pos hidle] at h
  split at h
  · exact .inl ⟨rfl, Option.bind_eq_some_iff.mp h⟩
  · split at h
    · next i u hs =>
      split_ifs at h with hpoll
      cases h
      exact .inr ⟨rfl, i, hs, hpoll⟩
    · cases h
  · cases h

theorem switches_task {l : Label} {t : Nat} (hne : s.current ≠ idleTask) (h : s.switches l = some t) :
    t = idleTask := by
  unfold switches at h
  rw [if_neg hne] at h
  split at h
  · split_ifs at h
    exact (Option.some.inj h).symm
  all_goals first | exact (Option.some.inj h).symm | cases h

theorem switches_ne_idle {l : Label} {t : Nat} (hh : HandOffInv s) (hl : LoopInv s)
    (hidle : s.current = idleTask) (h : s.switches l = some t) : t ≠ idleTask := by
  obtain ⟨-, e, -, ht⟩ | ⟨-, i, hs, -⟩ := switches_idle hidle h
  · rintro rfl
    have hwait := hh.current_wait
    rw [hidle] at hwait
    exact findTaskWaitingFor_some ht hwait
  · exact (hl.pollUdp i t hs).2.1

theorem Effect.cycle_le {l : Label} (h : Effect s l s') : s.cycle ≤ s'.cycle := by
  cases h with
  | tick cycles => exact Nat.le_add_right _ _
  | handOff | selected =>
    refine Nat.le_of_eq (Eq.symm ?_)
    exact (switchTo_loop _ _).cycle
  | next | exhausted | skipped | looked | passed | recvUdp | delivered | undelivered | wait | sleep
  | schedYield => exact Nat.le_refl _

theorem Effect.numTask {l : Label} (h : Effect s l s') : s'.numTask = s.numTask := by
  cases h with
  | handOff | selected => exact (switchTo_loop _ _).numTask
  | tick | next | exhausted | skipped | looked | passed | recvUdp | delivered | undelivered | wait
  | sleep | schedYield => rfl

/-- A wait ends only at the poll of its event. -/
theorem Effect.waits {l : Label} (h : Effect s l s') (hh : HandOffInv s) (hl : LoopInv s) {t : Nat}
    {w : BitVec 64} (hw : w ≠ 0) (ht : (s.tasks t).point = .inWait w) :
    (s'.tasks t).point = .inWait w ∨
      l = .poll true ∧ s.current = idleTask ∧ ∃ e, s.idle.event = some e ∧ w &&& e ≠ 0 := by
  have hwait := (hh.tasks t).inWait w ht
  have hfrom : t ≠ s.current := by
    rintro rfl
    rw [hh.current] at ht
    cases ht
  by_cases hto : t = s'.current
  · have hcurrent := h.current
    cases hnext : s.switches l with
    | none =>
      rw [hnext] at hcurrent
      exact absurd (hto.trans hcurrent) hfrom
    | some next =>
      rw [hnext] at hcurrent
      obtain rfl : t = next := hto.trans hcurrent
      by_cases hidle : s.current = idleTask
      · obtain ⟨hpoll, e, he, hfind⟩ | ⟨-, i, hs, -⟩ := switches_idle hidle hnext
        · have hand := findTaskWaitingFor_and hfind
          rw [hwait] at hand
          exact .inr ⟨hpoll, hidle, e, he, hand⟩
        · exact absurd (hwait.symm.trans (hl.pollUdp i t hs).2.2.2.1) hw
      · rw [switches_task hidle hnext, hh.idle] at ht
        cases ht
  · exact .inl ((h.rest hfrom hto).point.trans ht)

/-- Only the running task enters a wait. -/
theorem Effect.entersWait {l : Label} (h : Effect s l s') (hh : HandOffInv s) (hh' : HandOffInv s') {t : Nat}
    {w : BitVec 64} (ht : (s'.tasks t).point = .inWait w) :
    (s.tasks t).point = .inWait w ∨ t = s.current ∧ l = .wait w := by
  by_cases hfrom : t = s.current
  · have hidle : s.current ≠ idleTask := by
      intro hcurrent
      rw [hfrom, hcurrent, hh'.idle] at ht
      cases ht
    have hrunning := hh.current
    rw [hfrom] at ht
    cases h with
    | tick => exact absurd (hrunning.symm.trans ht) (by simp)
    | next | handOff | exhausted | skipped | looked | passed | selected => exact absurd ‹_› hidle
    | recvUdp =>
      rw [recvUdp_tasks_self] at ht
      cases ht
    | delivered =>
      rw [deliver_point] at ht
      exact absurd (hrunning.symm.trans ht) (by simp)
    | undelivered =>
      rw [schedYield_tasks, if_pos rfl] at ht
      cases ht
    | wait v =>
      rw [wait_tasks_self] at ht
      obtain rfl := Point.inWait.inj ht
      exact .inr ⟨hfrom, rfl⟩
    | sleep =>
      rw [sleep_tasks_self] at ht
      cases ht
    | schedYield =>
      rw [schedYield_tasks, if_pos rfl] at ht
      cases ht
  · by_cases hto : t = s'.current
    · rw [hto, hh'.current] at ht
      cases ht
    · exact .inl ((h.rest hfrom hto).point.symm.trans ht)

theorem step_wait {w : BitVec 64} (h : s.step (.wait w) = some s') :
    (s'.tasks s.current).point = .inWait w := by
  unfold step at h
  dsimp only at h
  split_ifs at h
  · cases h
  · cases h
    rw [wait_tasks_self]

end Sched

end VijosOS
