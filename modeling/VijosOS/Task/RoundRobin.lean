import VijosOS.Task.Suspension

/-!
# The round-robin scan

A task that waits for nothing stays ready until a scan selects it, and `rr` reaches it
within one round: a scan moves `rr` closer to it by as many tasks as it looks at.
-/

namespace VijosOS

open Library

/-- The clocks that the task has read lie in the past. -/
structure Task.Past (cycle : Nat) (k : Task) : Prop where
  timer : k.timer.start.toNat ≤ cycle
  packet : k.waitPacket.start.toNat ≤ cycle

namespace Sched

variable {s s' : Sched} {T : Nat}

/-! ## Readiness -/

/-- The tests that `idle_entry` makes of a task, if it made them now. -/
structure Ready (s : Sched) (t : Nat) : Prop where
  suspended : s.current ≠ t
  wait : (s.tasks t).wait = 0
  timer : (pollTimer s.rdcycle (s.tasks t).timer).1 = true
  packet : (taskPollUdp s.rdcycle (s.tasks t).waitPacket).1 = true

/-- What has elapsed stays elapsed as long as the cycle counter does not wrap. -/
theorem elapsed_mono {start delta : BitVec 64} {cycle cycle' : Nat} (hstart : start.toNat ≤ cycle)
    (hle : cycle ≤ cycle') (hwrap : cycle' < 2 ^ 64) (h : delta ≤ BitVec.ofNat 64 cycle - start) :
    delta ≤ BitVec.ofNat 64 cycle' - start := by
  have hsub : ∀ c, start.toNat ≤ c → c < 2 ^ 64 → (BitVec.ofNat 64 c - start).toNat = c - start.toNat := by
    intro c hc hc'
    rw [BitVec.toNat_sub, BitVec.toNat_ofNat]
    omega
  rw [BitVec.le_def, hsub _ hstart (by omega)] at h
  rw [BitVec.le_def, hsub _ (by omega) hwrap]
  omega

theorem Ready.rest (h : Ready s T) (hcurrent : s'.current ≠ T) (hrest : Rest s s' T)
    (hpast : (s.tasks T).Past s.cycle) (hle : s.cycle ≤ s'.cycle) (hwrap : s'.cycle < 2 ^ 64) :
    Ready s' T := by
  have htimer := (pollTimer_iff _ _).mp h.timer
  have hpacket := (taskPollUdp_iff _ _).mp h.packet
  have htimer' : (s.tasks T).timer.timeout = true ∨
      (s.tasks T).timer.delta ≤ s'.rdcycle - (s.tasks T).timer.start :=
    htimer.imp_right (elapsed_mono hpast.timer hle hwrap)
  have hpacket' : (s.tasks T).waitPacket.isWaiting = false ∨
      (s.tasks T).waitPacket.delta ≤ s'.rdcycle - (s.tasks T).waitPacket.start :=
    hpacket.imp_right (elapsed_mono hpast.packet hle hwrap)
  cases hrest with
  | same htask =>
    refine ⟨hcurrent, ?_, (pollTimer_iff _ _).mpr ?_, (taskPollUdp_iff _ _).mpr ?_⟩
    · rw [htask, h.wait]
    · rw [htask]
      exact htimer'
    · rw [htask]
      exact hpacket'
  | expired hdue htask =>
    refine ⟨hcurrent, ?_, (pollTimer_iff _ _).mpr (.inl ?_), (taskPollUdp_iff _ _).mpr ?_⟩
    · rw [htask, h.wait]
    · rw [htask]
    · rw [htask]
      exact hpacket'
  | delivered i hwaiting hi htask =>
    refine ⟨hcurrent, ?_, (pollTimer_iff _ _).mpr ?_, (taskPollUdp_iff _ _).mpr (.inl ?_)⟩
    · rw [htask, h.wait]
    · rw [htask]
      exact htimer'
    · rw [htask]

/-! ## Scans -/

/-- What a scan that ends with this step has selected. -/
def scanResult (s : Sched) : Label → Option (Option Nat)
  | .idle =>
    match s.idle with
    | .scan i => if i < s.numTask then none else some none
    | .pollUdp _ t =>
      if (taskPollUdp s.rdcycle (s.tasks t).waitPacket).1 then some (some t) else none
    | _ => none
  | _ => none

/-- A step that keeps the results of the scans so far. -/
def scanLogStep (p : Sched × List (Option Nat)) (l : Label) : Option (Sched × List (Option Nat)) :=
  (p.1.step l).map fun s => (s, p.2 ++ (p.1.scanResult l).toList)

/-- A ready task runs only when a scan selects it. -/
theorem Ready.step {l : Label} (h : Ready s T) (hT : T ≠ idleTask) (hpast : (s.tasks T).Past s.cycle)
    (heffect : Effect s l s') (hwrap : s'.cycle < 2 ^ 64) (hresult : s.scanResult l ≠ some (some T)) :
    Ready s' T := by
  have hcurrent : s'.current ≠ T := by
    rw [heffect.current]
    cases hswitch : s.switches l with
    | none => exact h.suspended
    | some t =>
      rintro rfl
      by_cases hidle : s.current = idleTask
      · obtain ⟨-, e, -, ht⟩ | ⟨rfl, i, hs, hpoll⟩ := switches_idle hidle hswitch
        · exact findTaskWaitingFor_some ht h.wait
        · exact hresult (by simp only [scanResult, hs, hpoll, if_true, Option.getD_some])
      · exact hT (switches_task hidle hswitch)
  exact h.rest hcurrent (heffect.rest h.suspended.symm hcurrent.symm) hpast heffect.cycle_le hwrap

/-! ## Clocks -/

theorem modify_starts (s : Sched) (t : Nat) {f : Task → Task}
    (htimer : (f (s.tasks t)).timer.start = (s.tasks t).timer.start)
    (hpacket : (f (s.tasks t)).waitPacket.start = (s.tasks t).waitPacket.start) (u : Nat) :
    ((s.modify t f).tasks u).timer.start = (s.tasks u).timer.start ∧
      ((s.modify t f).tasks u).waitPacket.start = (s.tasks u).waitPacket.start := by
  rw [modify_tasks]
  split_ifs with hu
  · subst hu
    exact ⟨htimer, hpacket⟩
  · exact ⟨rfl, rfl⟩

theorem switchTo_starts (s : Sched) (t u : Nat) :
    ((s.switchTo t).tasks u).timer.start = (s.tasks u).timer.start ∧
      ((s.switchTo t).tasks u).waitPacket.start = (s.tasks u).waitPacket.start := by
  have htake : ((s.takeOver t).tasks u).timer.start = (s.tasks u).timer.start ∧
      ((s.takeOver t).tasks u).waitPacket.start = (s.tasks u).waitPacket.start :=
    modify_starts { s with current := t } t rfl rfl u
  obtain ⟨w, -, h⟩ | ⟨n, -, h⟩ | ⟨i, d, v, -, -, h⟩ | ⟨-, h⟩ := switchTo_cases s t
  all_goals rw [h]
  · have hmodify := modify_starts { s.takeOver t with numWaitingTask := s.numWaitingTask - 1 } t
      (f := fun k => { k with wait := k.wait &&& ~~~w }) rfl rfl u
    exact ⟨hmodify.1.trans htake.1, hmodify.2.trans htake.2⟩
  · exact htake
  · have hmodify := modify_starts (s.takeOver t) v
      (f := fun k => { k with waitPacket := { k.waitPacket with isWaiting := false } }) rfl rfl u
    exact ⟨hmodify.1.trans htake.1, hmodify.2.trans htake.2⟩
  · exact htake

theorem rdcycle_le (s : Sched) : s.rdcycle.toNat ≤ s.cycle := by
  rw [rdcycle, BitVec.toNat_ofNat]
  exact Nat.mod_le _ _

theorem taskPollUdp_start (cycle : BitVec 64) (w : WaitPacket) : (taskPollUdp cycle w).2.start = w.start := by
  obtain ⟨h, -⟩ | h | h := taskPollUdp_cases cycle w
  all_goals rw [h]

theorem pollTimer_start (cycle : BitVec 64) (t : Timer) : (pollTimer cycle t).2.start = t.start := by
  obtain ⟨h, -⟩ | ⟨h, -⟩ | ⟨h, -⟩ := pollTimer_cases cycle t
  all_goals rw [h]

/-- A step sets a start time to the clock or not at all. -/
theorem Effect.starts {l : Label} (h : Effect s l s') (u : Nat) :
    ((s'.tasks u).timer.start = (s.tasks u).timer.start ∨ (s'.tasks u).timer.start = s.rdcycle) ∧
      ((s'.tasks u).waitPacket.start = (s.tasks u).waitPacket.start ∨
        (s'.tasks u).waitPacket.start = s.rdcycle) := by
  cases h with
  | tick | next | exhausted | skipped | passed => exact ⟨.inl rfl, .inl rfl⟩
  | handOff e p t =>
    have hstarts := switchTo_starts { s with idle := p } t u
    exact ⟨.inl hstarts.1, .inl hstarts.2⟩
  | looked i =>
    have hstarts := modify_starts s s.rr
      (f := fun k => { k with timer := (pollTimer s.rdcycle (s.tasks s.rr).timer).2 })
      (pollTimer_start _ _) rfl u
    exact ⟨.inl hstarts.1, .inl hstarts.2⟩
  | selected i t =>
    have hstarts := modify_starts s t
      (f := fun k => { k with waitPacket := (taskPollUdp s.rdcycle (s.tasks t).waitPacket).2 })
      rfl (taskPollUdp_start _ _) u
    have hswitch := switchTo_starts (Sched.modify { s with idle := .pollTtyRecv } t fun k =>
      { k with waitPacket := (taskPollUdp s.rdcycle (s.tasks t).waitPacket).2 }) t u
    exact ⟨.inl (hswitch.1.trans hstarts.1), .inl (hswitch.2.trans hstarts.2)⟩
  | recvUdp filter len timeout hne =>
    by_cases hu : u = s.current
    · rw [hu, recvUdp_tasks_self]
      exact ⟨.inl rfl, .inr rfl⟩
    · rw [recvUdp_tasks_of_ne s filter len timeout hu]
      exact ⟨.inl rfl, .inl rfl⟩
  | delivered d t =>
    have hstarts := modify_starts s t
      (f := fun k => { k with waitPacket := { k.waitPacket with isWaiting := false } }) rfl rfl u
    exact ⟨.inl hstarts.1, .inl hstarts.2⟩
  | undelivered d =>
    have hstarts := modify_starts s s.current
      (f := fun k => { k with point := .inDispatch s.log.datagrams.length }) rfl rfl u
    exact ⟨.inl hstarts.1, .inl hstarts.2⟩
  | wait w hne =>
    by_cases hu : u = s.current
    · rw [hu, wait_tasks_self]
      exact ⟨.inl rfl, .inl rfl⟩
    · rw [wait_tasks_of_ne s w hu]
      exact ⟨.inl rfl, .inl rfl⟩
  | sleep delta hne =>
    by_cases hu : u = s.current
    · rw [hu, sleep_tasks_self]
      exact ⟨.inr rfl, .inl rfl⟩
    · rw [sleep_tasks_of_ne s delta hu]
      exact ⟨.inl rfl, .inl rfl⟩
  | schedYield =>
    have hstarts := modify_starts s s.current (f := fun k => { k with point := .yielded }) rfl rfl u
    exact ⟨.inl hstarts.1, .inl hstarts.2⟩

theorem Effect.past {l : Label} (h : Effect s l s') (hpast : ∀ t, (s.tasks t).Past s.cycle) (t : Nat) :
    (s'.tasks t).Past s'.cycle := by
  have hclock := (rdcycle_le s).trans h.cycle_le
  obtain ⟨htimer, hpacket⟩ := h.starts t
  refine ⟨?_, ?_⟩
  · obtain hsame | hset := htimer
    · rw [hsame]
      exact (hpast t).timer.trans h.cycle_le
    · rw [hset]
      exact hclock
  · obtain hsame | hset := hpacket
    · rw [hsame]
      exact (hpast t).packet.trans h.cycle_le
    · rw [hset]
      exact hclock

theorem boot_past (numTask t : Nat) : ((boot numTask).tasks t).Past (boot numTask).cycle := by
  by_cases ht : t = idleTask
  all_goals exact ⟨by simp [boot, ht, createTask], by simp [boot, ht, createTask]⟩

/-! ## Distance -/

/-- How many tasks `rr` passes before it reaches `T`. -/
def distance (s : Sched) (T : Nat) : Nat := if s.rr ≤ T then T - s.rr else T + s.numTask - s.rr

/-- What the scan under way has looked at, and what is left before `T`. -/
def aheadOf (s : Sched) (T : Nat) : Nat :=
  match s.idle with
  | .pollUdp i t => if t = T then i else i + 1 + s.distance T
  | p => p.seen + s.distance T

theorem distance_lt (hT : T < s.numTask) (hrr : s.rr < s.numTask) : s.distance T < s.numTask := by
  unfold distance
  split_ifs <;> omega

theorem distance_next (hT : T < s.numTask) (hrr : s.rr < s.numTask) (hne : s.rr ≠ T) (s' : Sched)
    (hn : s'.numTask = s.numTask) (hnext : s'.rr = s.nextRr) : s'.distance T + 1 = s.distance T := by
  unfold distance
  rw [hn, hnext, nextRr]
  split_ifs <;> omega

theorem aheadOf_eq (s : Sched) (T : Nat) (h : ∀ i, s.idle ≠ .pollUdp i T) :
    s.aheadOf T = s.idle.seen + s.distance T := by
  unfold aheadOf
  split
  · next i t hs =>
    rw [hs] at h ⊢
    rw [if_neg fun ht => h i (by rw [ht])]
    rfl
  · rfl

theorem aheadOf_congr (h : SameLoop s s') (T : Nat) : s'.aheadOf T = s.aheadOf T := by
  unfold aheadOf distance
  rw [h.idle, h.rr, h.numTask]

theorem aheadOf_of_seen (h : s.idle.seen = 0) (T : Nat) : s.aheadOf T = s.distance T := by
  rw [aheadOf_eq, h, Nat.zero_add]
  intro i hs
  rw [hs] at h
  cases h

theorem distance_congr (hn : s'.numTask = s.numTask) (hrr : s'.rr = s.rr) : s'.distance T = s.distance T := by
  rw [distance, distance, hn, hrr]

theorem Ready.rr_ne {k : Nat} (hwait : (s.tasks k).wait ≠ 0) (h : Ready s T) : k ≠ T := by
  rintro rfl
  exact hwait h.wait

theorem aheadOf_scan {i : Nat} (h : s.idle = .scan i) (T : Nat) : s.aheadOf T = i + s.distance T := by
  rw [aheadOf_eq, h]
  · rfl
  · rw [h]
    nofun

theorem aheadOf_pollUdp {i t : Nat} (h : s.idle = .pollUdp i t) (T : Nat) :
    s.aheadOf T = if t = T then i else i + 1 + s.distance T := by
  rw [aheadOf, h]

/-- The scan has looked at the task at `rr`; if that is `T`, it goes on to the wait record. -/
theorem aheadOf_looked {i : Nat} (hready : Ready s T) (hn : T < s.numTask) (hrr : s.rr < s.numTask)
    (s' : Sched) (hnum : s'.numTask = s.numTask) (hnext : s'.rr = s.nextRr)
    (hidle : s'.idle =
      if (pollTimer s.rdcycle (s.tasks s.rr).timer).1 then .pollUdp i s.rr else .scan (i + 1)) :
    s'.aheadOf T ≤ i + s.distance T := by
  by_cases hself : s.rr = T
  · rw [hself, if_pos hready.timer] at hidle
    rw [aheadOf_pollUdp hidle, if_pos rfl]
    omega
  · have hdist := distance_next hn hrr hself s' hnum hnext
    split_ifs at hidle
    · rw [aheadOf_pollUdp hidle, if_neg hself]
      omega
    · rw [aheadOf_scan hidle]
      omega

/-- A scan that looks at another task uses up one of the tasks before `T`. -/
theorem Effect.ahead {l : Label} (h : Effect s l s') (hready : Ready s T) (hT : T ≠ idleTask)
    (hl : LoopInv s) (hn : T < s.numTask) (hresult : s.scanResult l ≠ some (some T))
    (hfew : s.aheadOf T < s.numTask) :
    (s.scanResult l).toList.length + s'.aheadOf T ≤ s.aheadOf T := by
  have hrr : s.rr < s.numTask := hl.rr.resolve_left (by omega)
  have hquiet : s.scanResult l = none → s'.aheadOf T ≤ s.aheadOf T →
      (s.scanResult l).toList.length + s'.aheadOf T ≤ s.aheadOf T := by
    intro hnone hle
    rw [hnone]
    simpa using hle
  cases h with
  | tick cycles => exact hquiet rfl (aheadOf_congr ⟨rfl, rfl, rfl, rfl⟩ T).le
  | next _ p hidle hs hnone hp =>
    refine hquiet ?_ ?_
    · unfold scanResult
      split
      · split
        · next i hscan =>
          rw [hscan] at hs
          obtain rfl : i = 0 := hs
          exact if_pos (Nat.zero_lt_of_lt hn)
        · next hpoll =>
          rw [hpoll] at hs
          cases hs
        · rfl
      · rfl
    · rw [aheadOf_of_seen hs, aheadOf_of_seen hp]
      exact (distance_congr rfl rfl).le
  | handOff e p t hidle he hp ht =>
    have hs : s.idle.seen = 0 := IdlePoint.seen_of_event he
    refine hquiet rfl ?_
    rw [aheadOf_congr (switchTo_loop _ t), aheadOf_of_seen hp, aheadOf_of_seen hs]
    exact (distance_congr rfl rfl).le
  | exhausted i hidle hs hi =>
    rw [aheadOf_scan hs] at hfew
    omega
  | skipped i hidle hs hi hskip =>
    have hne : s.rr ≠ T := by
      obtain hrr | hwait := hskip
      · exact hrr ▸ hT.symm
      · exact hready.rr_ne hwait
    have hdist := distance_next hn hrr hne { s with rr := s.nextRr, idle := .scan (i + 1) } rfl rfl
    refine hquiet (by simp [scanResult, hs, hi]) ?_
    rw [aheadOf_scan rfl, aheadOf_scan hs]
    omega
  | looked i hidle hs hi hne hwait =>
    refine hquiet (by simp [scanResult, hs, hi]) ?_
    rw [aheadOf_scan hs]
    exact aheadOf_looked hready hn hrr _ rfl rfl rfl
  | passed i t hidle hs hpoll =>
    have hne : t ≠ T := by
      rintro rfl
      rw [hready.packet] at hpoll
      cases hpoll
    refine hquiet (by simp [scanResult, hs, hpoll]) ?_
    rw [aheadOf_scan rfl, aheadOf_pollUdp hs, if_neg hne]
    exact Nat.add_le_add_left (distance_congr rfl rfl).le _
  | selected i t hidle hs hpoll =>
    have hselect : s.scanResult .idle = some (some t) := by simp [scanResult, hs, hpoll]
    have hne : t ≠ T := by
      rintro rfl
      exact hresult hselect
    rw [hselect, aheadOf_pollUdp hs, if_neg hne, aheadOf_congr (switchTo_loop _ t), aheadOf_of_seen rfl]
    have hdist : Sched.distance (Sched.modify { s with idle := .pollTtyRecv } t fun k =>
        { k with waitPacket := (taskPollUdp s.rdcycle (s.tasks t).waitPacket).2 }) T = s.distance T :=
      distance_congr rfl rfl
    rw [hdist]
    simp only [Option.toList_some, List.length_singleton]
    omega
  | recvUdp filter len timeout hne => exact hquiet rfl (aheadOf_congr ⟨rfl, rfl, rfl, rfl⟩ T).le
  | delivered d t hne ht => exact hquiet rfl (aheadOf_congr ⟨rfl, rfl, rfl, rfl⟩ T).le
  | undelivered d hne ht => exact hquiet rfl (aheadOf_congr ⟨rfl, rfl, rfl, rfl⟩ T).le
  | wait w hne => exact hquiet rfl (aheadOf_congr ⟨rfl, rfl, rfl, rfl⟩ T).le
  | sleep delta hne => exact hquiet rfl (aheadOf_congr ⟨rfl, rfl, rfl, rfl⟩ T).le
  | schedYield hne => exact hquiet rfl (aheadOf_congr ⟨rfl, rfl, rfl, rfl⟩ T).le

/-! ## Every run -/

/-- Holds along the scans from a state in which `T` is ready; `fresh` if no scan was under way. -/
structure RoundInv (fresh : Prop) (numTask T : Nat) (p : Sched × List (Option Nat)) : Prop where
  handOff : HandOffInv p.1
  loop : LoopInv p.1
  past : ∀ t, (p.1.tasks t).Past p.1.cycle
  num : p.1.numTask = numTask
  ready : p.1.cycle < 2 ^ 64 → some T ∉ p.2 → Ready p.1 T
  ahead : fresh → p.1.cycle < 2 ^ 64 → some T ∉ p.2 → p.2.length + p.1.aheadOf T < numTask
  before : fresh → p.1.cycle < 2 ^ 64 → ∀ pre, pre <+: p.2 → some T ∉ pre → pre.length < numTask

theorem roundInv_step {fresh : Prop} {numTask : Nat} {p p' : Sched × List (Option Nat)} {l : Label}
    (hT : T ≠ idleTask) (hn : T < numTask) (h : RoundInv fresh numTask T p)
    (hstep : scanLogStep p l = some p') : RoundInv fresh numTask T p' := by
  obtain ⟨s, picks⟩ := p
  obtain ⟨s', hs, hp⟩ := Option.map_eq_some_iff.mp hstep
  subst hp
  have heffect : Effect s l s' := step_effect hs
  have hnum : s'.numTask = numTask := heffect.numTask.trans h.num
  have hwrap : s'.cycle < 2 ^ 64 → s.cycle < 2 ^ 64 := fun hlt => heffect.cycle_le.trans_lt hlt
  have hready : s'.cycle < 2 ^ 64 → some T ∉ picks ++ (s.scanResult l).toList → Ready s' T := by
    intro hlt hnot
    rw [List.mem_append, not_or] at hnot
    refine (h.ready (hwrap hlt) hnot.1).step hT (h.past T) heffect hlt fun hresult => ?_
    rw [hresult] at hnot
    exact hnot.2 (List.mem_singleton.mpr rfl)
  have hahead : fresh → s'.cycle < 2 ^ 64 → some T ∉ picks ++ (s.scanResult l).toList →
      (picks ++ (s.scanResult l).toList).length + s'.aheadOf T < numTask := by
    intro hfresh hlt hnot
    rw [List.mem_append, not_or] at hnot
    have hfew : picks.length + s.aheadOf T < numTask := h.ahead hfresh (hwrap hlt) hnot.1
    have hresult : s.scanResult l ≠ some (some T) := by
      intro hresult
      rw [hresult] at hnot
      exact hnot.2 (List.mem_singleton.mpr rfl)
    have hless := heffect.ahead (h.ready (hwrap hlt) hnot.1) hT h.loop (h.num ▸ hn) hresult (by
      rw [h.num]
      exact lt_of_le_of_lt (Nat.le_add_left _ _) hfew)
    rw [List.length_append]
    omega
  refine ⟨step_inv h.handOff hs, step_loopInv h.handOff h.loop hs, heffect.past h.past, hnum, hready, hahead,
    fun hfresh hlt pre hpre hnot => ?_⟩
  have hfew : pre = picks ++ (s.scanResult l).toList → pre.length < numTask := by
    rintro rfl
    exact lt_of_le_of_lt (Nat.le_add_right _ _) (hahead hfresh hlt hnot)
  have hold : pre <+: picks → pre.length < numTask := fun hpre =>
    h.before hfresh (hwrap hlt) pre hpre hnot
  cases hresult : s.scanResult l with
  | none =>
    rw [hresult, Option.toList_none, List.append_nil] at hpre
    exact hold hpre
  | some t =>
    rw [hresult] at hpre hfew
    exact (List.prefix_concat_iff.mp hpre).elim hfew hold

/-- A run from a state in which `T` is ready. -/
theorem roundInv_run {numTask : Nat} {ls : List Label} {picks : List (Option Nat)}
    (hs : Reachable (· = boot numTask) step s) (hT : T ≠ idleTask) (hn : T < numTask) (hready : Ready s T)
    (hrun : runSteps scanLogStep (s, []) ls = some (s', picks)) :
    RoundInv (s.idle.seen = 0) numTask T (s', picks) := by
  have hinv : HandOffInv s ∧ LoopInv s ∧ (∀ t, (s.tasks t).Past s.cycle) ∧ s.numTask = numTask := by
    refine hs.invariant (P := fun s => HandOffInv s ∧ LoopInv s ∧ (∀ t, (s.tasks t).Past s.cycle) ∧
      s.numTask = numTask) ?_ ?_
    · rintro _ rfl
      exact ⟨boot_inv numTask, boot_loopInv numTask, boot_past numTask, rfl⟩
    · rintro s l t ⟨hh, hl, hpast, hnum⟩ hstep
      have heffect := step_effect hstep
      exact ⟨step_inv hh hstep, step_loopInv hh hl hstep, heffect.past hpast, heffect.numTask.trans hnum⟩
  obtain ⟨hh, hl, hpast, hnum⟩ := hinv
  refine runSteps_invariant (P := RoundInv (s.idle.seen = 0) numTask T)
    (fun _ _ _ h hstep => roundInv_step hT hn h hstep) ?_ hrun
  refine ⟨hh, hl, hpast, hnum, fun _ _ => hready, fun hfresh _ _ => ?_, fun _ _ pre hpre _ => ?_⟩
  · have hdist := distance_lt (hnum ▸ hn) (hl.rr.resolve_left (by omega))
    rw [aheadOf_of_seen hfresh]
    simpa [hnum] using hdist
  · rw [List.prefix_nil.mp hpre]
    exact Nat.zero_lt_of_lt hn

theorem ready_bounded_bypass {numTask : Nat} {ls : List Label} {picks : List (Option Nat)}
    (hs : Reachable (· = boot numTask) step s) (hT : T ≠ idleTask) (hn : T < numTask) (hready : Ready s T)
    (hrun : runSteps scanLogStep (s, []) ls = some (s', picks)) (hwrap : s'.cycle < 2 ^ 64) :
    (some T ∉ picks → Ready s' T) ∧
      (s.idle.seen = 0 → numTask ≤ picks.length → some T ∈ picks.take numTask) ∧
      (s.idle.seen = 0 → ∀ U, U ≠ T → (picks.takeWhile (· ≠ some T)).count (some U) ≤ numTask - 1) := by
  have h := roundInv_run hs hT hn hready hrun
  refine ⟨h.ready hwrap, fun hfresh hlen => ?_, fun hfresh U _ => ?_⟩
  · by_contra hnot
    have hfew := h.before hfresh hwrap _ (List.take_prefix numTask picks) hnot
    rw [List.length_take] at hfew
    omega
  · have hnot : some T ∉ picks.takeWhile (· ≠ some T) := by
      intro hmem
      have hne := List.all_eq_true.mp List.all_takeWhile _ hmem
      simp at hne
    have hfew : (picks.takeWhile (· ≠ some T)).length < numTask :=
      h.before hfresh hwrap _ (List.takeWhile_prefix _) hnot
    have hcount : (picks.takeWhile (· ≠ some T)).count (some U) ≤ (picks.takeWhile (· ≠ some T)).length :=
      List.count_le_length
    exact hcount.trans (Nat.le_sub_one_of_lt hfew)

/-- Two tasks are created besides idle, and one scan each runs them. -/
def smallRound : List Label := .tick 7 :: smallPolls ++ List.replicate 3 .idle ++ [.schedYield] ++
  smallPolls ++ List.replicate 2 .idle

theorem ready_bounded_bypass_small : ∃ s', runSteps scanLogStep (boot 3, []) smallRound =
      some (s', [some 1, some 2]) ∧ s'.current = 2 ∧
    ([some 1, some 2].takeWhile (· ≠ some 2)).count (some 1) ≤ 3 - 1 := by
  have hrun : (runSteps scanLogStep (boot 3, []) smallRound).map
      (fun p => (p.1.cycle, p.1.current, p.2)) = some (7, 2, [some 1, some 2]) := by
    decide +kernel
  obtain ⟨⟨s', picks⟩, hs', hp⟩ := Option.map_eq_some_iff.mp hrun
  simp only [Prod.mk.injEq] at hp
  obtain ⟨hcycle, hcurrent, rfl⟩ := hp
  have hready : Ready (boot 3) 2 := ⟨by decide, by decide, by decide, by decide⟩
  have hbypass := ready_bounded_bypass (.start rfl) (by decide) (by decide) hready hs' (by omega)
  exact ⟨s', hs', hcurrent, hbypass.2.2 rfl 1 (by decide)⟩

end Sched

end VijosOS
