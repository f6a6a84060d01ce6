import VijosOS.Task.Idle

/-!
# UDP hand-off between tasks

A wait record with `is_waiting` set belongs to a task suspended in its own `recv_udp` call,
so a delivery writes into a live call. Deliveries pair datagrams with calls one to one, and
what a call returns is what its one datagram left in its variables.
-/

namespace VijosOS

open Library

/-! ## The invariant -/

/-- The variables of a call hold what the datagram left there. -/
structure RecvCall.Holds (c : RecvCall) (d : UdpDispatch) : Prop where
  matched : taskMatchUdp c.filter d = true
  outLen : c.outLen = copyLen c.len d.payload.length
  bytes : bytesAt c.buff 0 c.outLen = d.payload.take c.outLen
  saddr : c.saddr = d.saddr
  sport : c.sport = d.sport

namespace UdpLog

def Undelivered (l : UdpLog) (n : Nat) : Prop := n ∉ l.deliveries.map Prod.snd

def Pending (l : UdpLog) (i : Nat) : Prop :=
  i < l.datagrams.length ∧ i ∉ l.deliveries.map Prod.fst

structure Ok (l : UdpLog) : Prop where
  delivered : ∀ i n, (i, n) ∈ l.deliveries →
    ∃ d c, l.datagrams[i]? = some d ∧ l.calls[n]? = some c ∧ c.Holds d
  undelivered : ∀ (n : Nat) (c : RecvCall), l.calls[n]? = some c → l.Undelivered n → c.outLen = 0
  returned : ∀ (n : Nat) (c : RecvCall) (r : Nat), l.calls[n]? = some c → c.ret = some r → r = c.outLen
  datagramOnce : (l.deliveries.map Prod.fst).Nodup
  callOnce : (l.deliveries.map Prod.snd).Nodup

end UdpLog

/-- What holds of task `t`, given the log. -/
structure Task.Ok (l : UdpLog) (t : Nat) (k : Task) : Prop where
  waiting : k.waitPacket.isWaiting = true → k.point = .inRecv k.waitPacket.call ∧
    l.Undelivered k.waitPacket.call ∧
    ∃ c, l.calls[k.waitPacket.call]? = some c ∧ c.filter = k.waitPacket.filter ∧
      c.len = k.waitPacket.len
  inRecv : ∀ n, k.point = .inRecv n → ∃ c, l.calls[n]? = some c ∧ c.task = t ∧ c.ret = none
  inWait : ∀ w, k.point = .inWait w → k.wait = w
  notInWait : (∀ w, k.point ≠ .inWait w) → k.wait = 0
  inDispatch : ∀ i, k.point = .inDispatch i → l.Pending i

namespace Sched

structure HandOffInv (s : Sched) : Prop where
  idle : (s.tasks idleTask).point = .running
  current : (s.tasks s.current).point = .running
  tasks : ∀ t, (s.tasks t).Ok s.log t
  dispatchOnce : ∀ t u i, (s.tasks t).point = .inDispatch i → (s.tasks u).point = .inDispatch i → t = u
  log : s.log.Ok

theorem boot_inv (numTask : Nat) : HandOffInv (boot numTask) := by
  have hrunning : Task.Ok ⟨[], [], []⟩ idleTask { createTask with point := .running } :=
    ⟨nofun, nofun, nofun, fun _ => rfl, nofun⟩
  have hcreated : ∀ t, Task.Ok ⟨[], [], []⟩ t createTask :=
    fun _ => ⟨nofun, nofun, nofun, fun _ => rfl, nofun⟩
  have htask : ∀ t, ((boot numTask).tasks t).Ok ⟨[], [], []⟩ t := by
    intro t
    by_cases ht : t = idleTask
    · subst ht
      exact hrunning
    · rw [show (boot numTask).tasks t = createTask from if_neg ht]
      exact hcreated t
  have hpoint : ∀ t i, ((boot numTask).tasks t).point ≠ .inDispatch i := by
    intro t i hi
    exact absurd ((htask t).inDispatch i hi).1 (Nat.not_lt_zero _)
  exact ⟨rfl, rfl, htask, fun t _ i ht => absurd ht (hpoint t i), ⟨nofun, nofun, nofun, .nil, .nil⟩⟩

/-! ## One task changes -/

/-- The tasks other than `t` are as before, and still in order. -/
structure OnlyTask (s s' : Sched) (t : Nat) : Prop where
  same : ∀ u, u ≠ t → s'.tasks u = s.tasks u
  ok : ∀ u, u ≠ t → (s.tasks u).Ok s'.log u

theorem HandOffInv.of_task {s s' : Sched} (h : HandOffInv s) {t : Nat} (honly : OnlyTask s s' t)
    (hidle : (s'.tasks idleTask).point = .running) (hcurrent : (s'.tasks s'.current).point = .running)
    (hself : (s'.tasks t).Ok s'.log t)
    (hdispatch : ∀ i, (s'.tasks t).point = .inDispatch i →
      (s.tasks t).point = .inDispatch i ∨ ∀ u, u ≠ t → (s.tasks u).point ≠ .inDispatch i)
    (hlog : s'.log.Ok) : HandOffInv s' := by
  have htasks : ∀ u, (s'.tasks u).Ok s'.log u := by
    intro u
    by_cases hu : u = t
    · rw [hu]
      exact hself
    · rw [honly.same u hu]
      exact honly.ok u hu
  have honce : ∀ u i, u ≠ t → (s'.tasks t).point = .inDispatch i → (s'.tasks u).point ≠ .inDispatch i := by
    intro u i hu hi hui
    rw [honly.same u hu] at hui
    obtain hold | hnone := hdispatch i hi
    · exact hu (h.dispatchOnce u t i hui hold)
    · exact hnone u hu hui
  refine ⟨hidle, hcurrent, htasks, fun u v i hui hvi => ?_, hlog⟩
  by_cases hu : u = t
  · by_cases hv : v = t
    · rw [hu, hv]
    · rw [hu] at hui
      exact absurd hvi (honce v i hv hui)
  · by_cases hv : v = t
    · rw [hv] at hvi
      exact absurd hui (honce u i hu hvi)
    · rw [honly.same u hu] at hui
      rw [honly.same v hv] at hvi
      exact h.dispatchOnce u v i hui hvi

end Sched

/-! ## The log -/

theorem copyLen_eq_min (len payloadLen : Nat) : copyLen len payloadLen = min payloadLen len := by
  unfold copyLen
  split_ifs <;> omega

theorem RecvCall.deliver_holds (c : RecvCall) {d : UdpDispatch} (h : taskMatchUdp c.filter d = true) :
    (c.deliver c.len d).Holds d := by
  have hlen : (d.payload.take (copyLen c.len d.payload.length)).length =
      copyLen c.len d.payload.length := by
    rw [List.length_take, copyLen_eq_min]
    omega
  have hbytes := bytesAt_writeBytes c.buff 0 (d.payload.take (copyLen c.len d.payload.length))
  rw [hlen] at hbytes
  exact ⟨h, rfl, hbytes, rfl, rfl⟩

namespace UdpLog

variable {l : UdpLog}

theorem getElem?_call {n : Nat} {c new : RecvCall} (h : (l.call new).calls[n]? = some c) :
    l.calls[n]? = some c ∨ n = l.calls.length ∧ c = new := by
  by_cases hn : n < l.calls.length
  · rw [UdpLog.call, List.getElem?_append_left hn] at h
    exact .inl h
  · rw [UdpLog.call, List.getElem?_append_right (Nat.le_of_not_lt hn)] at h
    obtain ⟨hzero, hc⟩ := List.getElem?_eq_some_iff.mp h
    rw [List.length_singleton] at hzero
    rw [List.getElem_singleton] at hc
    exact .inr ⟨by omega, hc.symm⟩

theorem getElem?_call_of_some {n : Nat} {c : RecvCall} (h : l.calls[n]? = some c) (new : RecvCall) :
    (l.call new).calls[n]? = some c := by
  rw [UdpLog.call, List.getElem?_append_left (List.getElem?_eq_some_iff.mp h).1, h]

theorem getElem?_receive_of_some {i : Nat} {d : UdpDispatch} (h : l.datagrams[i]? = some d)
    (new : UdpDispatch) : (l.receive new).datagrams[i]? = some d := by
  rw [receive, List.getElem?_append_left (List.getElem?_eq_some_iff.mp h).1, h]

theorem getElem?_deliver_self {n : Nat} {c : RecvCall} (h : l.calls[n]? = some c) (len i : Nat)
    (d : UdpDispatch) : (l.deliver n len i d).calls[n]? = some (c.deliver len d) := by
  rw [deliver, List.getElem?_modify_eq, h]
  rfl

theorem getElem?_deliver_of_ne {n m : Nat} (h : n ≠ m) (len i : Nat) (d : UdpDispatch) :
    (l.deliver n len i d).calls[m]? = l.calls[m]? := List.getElem?_modify_ne _ _ h

theorem getElem?_ret_self {n : Nat} {c : RecvCall} (h : l.calls[n]? = some c) :
    (l.ret n).calls[n]? = some { c with ret := some c.outLen } := by
  rw [ret, List.getElem?_modify_eq, h]
  rfl

theorem getElem?_ret_of_ne {n m : Nat} (h : n ≠ m) : (l.ret n).calls[m]? = l.calls[m]? :=
  List.getElem?_modify_ne _ _ h

theorem mem_deliver_snd {n len i m : Nat} {d : UdpDispatch} :
    m ∈ (l.deliver n len i d).deliveries.map Prod.snd ↔ m ∈ l.deliveries.map Prod.snd ∨ m = n := by
  simp [deliver]

theorem mem_deliver_fst {n len i j : Nat} {d : UdpDispatch} :
    j ∈ (l.deliver n len i d).deliveries.map Prod.fst ↔ j ∈ l.deliveries.map Prod.fst ∨ j = i := by
  simp [deliver]

theorem Ok.lt_of_delivered (h : l.Ok) {n : Nat} (hn : ¬ l.Undelivered n) : n < l.calls.length := by
  obtain ⟨⟨i, m⟩, hmem, rfl⟩ := List.mem_map.mp (not_not.mp hn)
  obtain ⟨_, _, _, hcall, _⟩ := h.delivered i m hmem
  exact (List.getElem?_eq_some_iff.mp hcall).1

theorem Ok.undelivered_new (h : l.Ok) : l.Undelivered l.calls.length := by
  by_contra hn
  exact absurd (h.lt_of_delivered hn) (Nat.lt_irrefl _)

theorem Ok.pending_new (h : l.Ok) (d : UdpDispatch) : (l.receive d).Pending l.datagrams.length := by
  refine ⟨by simp [receive], fun hmem => ?_⟩
  obtain ⟨⟨i, n⟩, hdel, hi⟩ := List.mem_map.mp hmem
  obtain ⟨_, _, hd, _⟩ := h.delivered i n hdel
  have hlt := (List.getElem?_eq_some_iff.mp hd).1
  simp only at hi
  omega

theorem Ok.call (h : l.Ok) {new : RecvCall} (hlen : new.outLen = 0) (hret : new.ret = none) :
    (l.call new).Ok := by
  refine ⟨fun i n hmem => ?_, fun n c hc hn => ?_, fun n c r hc hr => ?_, h.datagramOnce, h.callOnce⟩
  · obtain ⟨d, c, hd, hc, hholds⟩ := h.delivered i n hmem
    exact ⟨d, c, hd, getElem?_call_of_some hc new, hholds⟩
  · obtain hold | ⟨-, rfl⟩ := getElem?_call hc
    · exact h.undelivered n c hold hn
    · exact hlen
  · obtain hold | ⟨-, rfl⟩ := getElem?_call hc
    · exact h.returned n c r hold hr
    · rw [hret] at hr
      cases hr

theorem Ok.receive (h : l.Ok) (d : UdpDispatch) : (l.receive d).Ok := by
  refine ⟨fun i n hmem => ?_, h.undelivered, h.returned, h.datagramOnce, h.callOnce⟩
  obtain ⟨d', c, hd, hc, hholds⟩ := h.delivered i n hmem
  exact ⟨d', c, getElem?_receive_of_some hd d, hc, hholds⟩

theorem Ok.deliver (h : l.Ok) {n i : Nat} {d : UdpDispatch} {c : RecvCall}
    (hcall : l.calls[n]? = some c) (hret : c.ret = none) (hn : l.Undelivered n)
    (hdatagram : l.datagrams[i]? = some d) (hi : i ∉ l.deliveries.map Prod.fst)
    (hmatch : taskMatchUdp c.filter d = true) : (l.deliver n c.len i d).Ok := by
  constructor
  · intro j m hmem
    obtain hold | hnew := List.mem_append.mp hmem
    · obtain ⟨d', c', hd', hc', hholds⟩ := h.delivered j m hold
      have hne : n ≠ m := by
        rintro rfl
        exact hn (List.mem_map_of_mem hold)
      exact ⟨d', c', hd', by rw [getElem?_deliver_of_ne hne, hc'], hholds⟩
    · cases List.mem_singleton.mp hnew
      exact ⟨d, _, hdatagram, getElem?_deliver_self hcall _ _ _, c.deliver_holds hmatch⟩
  · intro m c' hc' hm
    have hne : n ≠ m := by
      rintro rfl
      exact hm (mem_deliver_snd.mpr (.inr rfl))
    rw [getElem?_deliver_of_ne hne] at hc'
    exact h.undelivered m c' hc' fun hdel => hm (mem_deliver_snd.mpr (.inl hdel))
  · intro m c' r hc' hr
    by_cases hne : n = m
    · subst hne
      rw [getElem?_deliver_self hcall] at hc'
      cases hc'
      rw [RecvCall.deliver, hret] at hr
      cases hr
    · rw [getElem?_deliver_of_ne hne] at hc'
      exact h.returned m c' r hc' hr
  · rw [UdpLog.deliver, List.map_append]
    exact List.nodup_append.mpr ⟨h.datagramOnce, by simp, by
      rintro a ha b hb rfl
      cases List.mem_singleton.mp hb
      exact hi ha⟩
  · rw [UdpLog.deliver, List.map_append]
    exact List.nodup_append.mpr ⟨h.callOnce, by simp, by
      rintro a ha b hb rfl
      cases List.mem_singleton.mp hb
      exact hn ha⟩

theorem Ok.ret (h : l.Ok) {n : Nat} {c : RecvCall} (hcall : l.calls[n]? = some c) : (l.ret n).Ok := by
  refine ⟨fun i m hmem => ?_, fun m c' hc' hm => ?_, fun m c' r hc' hr => ?_, h.datagramOnce, h.callOnce⟩
  all_goals by_cases hne : n = m
  · subst hne
    obtain ⟨d, c', hd, hc', hholds⟩ := h.delivered i n hmem
    exact ⟨d, _, hd, getElem?_ret_self hc',
      ⟨hholds.matched, hholds.outLen, hholds.bytes, hholds.saddr, hholds.sport⟩⟩
  · obtain ⟨d, c', hd, hc', hholds⟩ := h.delivered i m hmem
    exact ⟨d, c', hd, by rw [getElem?_ret_of_ne hne, hc'], hholds⟩
  · subst hne
    rw [getElem?_ret_self hcall] at hc'
    cases hc'
    exact h.undelivered n c hcall hm
  · rw [getElem?_ret_of_ne hne] at hc'
    exact h.undelivered m c' hc' hm
  · subst hne
    rw [getElem?_ret_self hcall] at hc'
    cases hc'
    cases hr
    rfl
  · rw [getElem?_ret_of_ne hne] at hc'
    exact h.returned m c' r hc' hr

end UdpLog

/-! ## The other tasks -/

namespace Task.Ok

variable {l : UdpLog} {t u : Nat} {k : Task}

theorem call (h : k.Ok l t) (new : RecvCall) : k.Ok (l.call new) t := by
  refine ⟨fun hw => ?_, fun n hn => ?_, h.inWait, h.notInWait, h.inDispatch⟩
  · obtain ⟨hpoint, hdel, c, hc, hrest⟩ := h.waiting hw
    exact ⟨hpoint, hdel, c, UdpLog.getElem?_call_of_some hc new, hrest⟩
  · obtain ⟨c, hc, hrest⟩ := h.inRecv n hn
    exact ⟨c, UdpLog.getElem?_call_of_some hc new, hrest⟩

theorem receive (h : k.Ok l t) (d : UdpDispatch) : k.Ok (l.receive d) t := by
  refine ⟨h.waiting, h.inRecv, h.inWait, h.notInWait, fun i hi => ?_⟩
  obtain ⟨hlt, hdel⟩ := h.inDispatch i hi
  exact ⟨by simp only [UdpLog.receive, List.length_append]; omega, hdel⟩

/-- A delivery to the call of another task. -/
theorem deliver (h : k.Ok l t) {n len i : Nat} {d : UdpDispatch} {c : RecvCall}
    (hcall : l.calls[n]? = some c) (htask : c.task ≠ t) (hi : k.point ≠ .inDispatch i) :
    k.Ok (l.deliver n len i d) t := by
  have hother : ∀ m, k.point = .inRecv m → n ≠ m := by
    rintro m hm rfl
    obtain ⟨c', hc', ht, -⟩ := h.inRecv n hm
    cases hcall.symm.trans hc'
    exact htask ht
  refine ⟨fun hw => ?_, fun m hm => ?_, h.inWait, h.notInWait, fun j hj => ?_⟩
  · obtain ⟨hpoint, hdel, c', hc', hrest⟩ := h.waiting hw
    have hne := hother _ hpoint
    refine ⟨hpoint, fun hmem => ?_, c', by rw [UdpLog.getElem?_deliver_of_ne hne, hc'], hrest⟩
    obtain hold | hnew := UdpLog.mem_deliver_snd.mp hmem
    · exact hdel hold
    · exact hne hnew.symm
  · obtain ⟨c', hc', hrest⟩ := h.inRecv m hm
    exact ⟨c', by rw [UdpLog.getElem?_deliver_of_ne (hother m hm), hc'], hrest⟩
  · obtain ⟨hlt, hdel⟩ := h.inDispatch j hj
    refine ⟨hlt, fun hmem => ?_⟩
    obtain hold | rfl := UdpLog.mem_deliver_fst.mp hmem
    · exact hdel hold
    · exact hi hj

/-- The return of a call of another task. -/
theorem ret (h : k.Ok l t) {n : Nat} {c : RecvCall} (hcall : l.calls[n]? = some c) (htask : c.task ≠ t) :
    k.Ok (l.ret n) t := by
  have hother : ∀ m, k.point = .inRecv m → n ≠ m := by
    rintro m hm rfl
    obtain ⟨c', hc', ht, -⟩ := h.inRecv n hm
    cases hcall.symm.trans hc'
    exact htask ht
  refine ⟨fun hw => ?_, fun m hm => ?_, h.inWait, h.notInWait, h.inDispatch⟩
  · obtain ⟨hpoint, hdel, c', hc', hrest⟩ := h.waiting hw
    exact ⟨hpoint, hdel, c', by rw [UdpLog.getElem?_ret_of_ne (hother _ hpoint), hc'], hrest⟩
  · obtain ⟨c', hc', hrest⟩ := h.inRecv m hm
    exact ⟨c', by rw [UdpLog.getElem?_ret_of_ne (hother m hm), hc'], hrest⟩

/-- A task that is neither in `wait` nor in `recv_udp`. -/
theorem notWaiting (hwaiting : k.waitPacket.isWaiting = false) (hwait : k.wait = 0)
    (hinRecv : ∀ n, k.point ≠ .inRecv n) (hinWait : ∀ w, k.point ≠ .inWait w)
    (hdispatch : ∀ i, k.point = .inDispatch i → l.Pending i) : k.Ok l t := by
  refine ⟨fun hw => ?_, fun n hn => absurd hn (hinRecv n), fun w hw => absurd hw (hinWait w),
    fun _ => hwait, hdispatch⟩
  rw [hwaiting] at hw
  cases hw

theorem isWaiting_eq_false (h : k.Ok l t) (hpoint : ∀ n, k.point ≠ .inRecv n) :
    k.waitPacket.isWaiting = false := by
  by_contra hw
  exact hpoint _ (h.waiting (Bool.not_eq_false _ ▸ hw)).1

end Task.Ok

namespace Sched

variable {s : Sched}

/-! ## Steps -/

/-- `current` stops at `p`; `s₁` is the state after its last statements. -/
theorem HandOffInv.schedYield {s₁ : Sched} (h : HandOffInv s) (hne : s.current ≠ idleTask)
    (honly : OnlyTask s s₁ s.current) (hcurrent : s₁.current = s.current) {p : Point}
    (hself : Task.Ok s₁.log s.current { s₁.tasks s.current with point := p })
    (hdispatch : ∀ i, p = .inDispatch i → ∀ u, (s.tasks u).point ≠ .inDispatch i)
    (hlog : s₁.log.Ok) : HandOffInv (s₁.schedYield p) := by
  have htask : (s₁.schedYield p).tasks s.current = { s₁.tasks s.current with point := p } := by
    rw [← hcurrent]
    exact schedYield_tasks_current s₁ p
  have hother : ∀ u, u ≠ s.current → (s₁.schedYield p).tasks u = s.tasks u := by
    intro u hu
    rw [← honly.same u hu]
    exact schedYield_tasks_of_ne s₁ p (hcurrent ▸ hu)
  have hidle : ((s₁.schedYield p).tasks idleTask).point = .running := by
    rw [hother _ hne.symm, h.idle]
  refine h.of_task ⟨hother, honly.ok⟩ hidle hidle ?_ ?_ hlog
  · rw [htask]
    exact hself
  · intro i hi
    rw [htask] at hi
    exact .inr fun u _ => hdispatch i hi u

theorem HandOffInv.current_wait (h : HandOffInv s) : (s.tasks s.current).wait = 0 := by
  apply (h.tasks s.current).notInWait
  intro w hw
  rw [h.current] at hw
  cases hw

theorem HandOffInv.current_isWaiting (h : HandOffInv s) :
    (s.tasks s.current).waitPacket.isWaiting = false := by
  apply (h.tasks s.current).isWaiting_eq_false
  intro n hn
  rw [h.current] at hn
  cases hn

theorem recvUdp_inv (h : HandOffInv s) (hne : s.current ≠ idleTask) (filter : UdpFilter) (len : Nat)
    (timeout : BitVec 64) : HandOffInv (s.recvUdp filter len timeout) := by
  have hwait := h.current_wait
  have hnew : ∀ c : RecvCall, (s.log.call c).calls[s.log.calls.length]? = some c :=
    fun _ => List.getElem?_concat_length
  unfold recvUdp
  extract_lets n s₁ s₂
  have hself : s₂.tasks s.current =
      { s.tasks s.current with waitPacket := ⟨true, filter, n, len, s₁.rdcycle, timeout⟩ } :=
    modify_tasks_self s₁ s.current fun t =>
      { t with waitPacket := ⟨true, filter, n, len, s₁.rdcycle, timeout⟩ }
  have honly : OnlyTask s s₂ s.current :=
    ⟨fun u hu => modify_tasks_of_ne s₁ (fun t =>
      { t with waitPacket := ⟨true, filter, n, len, s₁.rdcycle, timeout⟩ }) hu, fun u _ => (h.tasks u).call _⟩
  refine h.schedYield hne honly rfl ?_ nofun (h.log.call rfl rfl)
  rw [hself]
  refine ⟨fun _ => ⟨rfl, h.log.undelivered_new, _, hnew _, rfl, rfl⟩, fun m hm => ?_, nofun,
    fun _ => hwait, nofun⟩
  cases hm
  exact ⟨_, hnew _, rfl, rfl⟩

theorem wait_inv (h : HandOffInv s) (hne : s.current ≠ idleTask) (w : BitVec 64) :
    HandOffInv (s.wait w) := by
  have hwait := h.current_wait
  have hwaiting := h.current_isWaiting
  unfold Sched.wait
  extract_lets s₁ s₂
  have hself : s₂.tasks s.current = { s.tasks s.current with wait := w } := by
    have hor : (s.tasks s.current).wait ||| w = w := by
      rw [hwait]
      exact BitVec.zero_or
    have hmodify := modify_tasks_self s s.current fun t => { t with wait := t.wait ||| w }
    rw [hor] at hmodify
    exact hmodify
  have honly : OnlyTask s s₂ s.current :=
    ⟨fun u hu => modify_tasks_of_ne s (fun t => { t with wait := t.wait ||| w }) hu, fun u _ => h.tasks u⟩
  refine h.schedYield hne honly rfl ?_ nofun h.log
  rw [hself]
  refine ⟨fun hw => ?_, nofun, fun v hv => ?_, fun hv => absurd rfl (hv w), nofun⟩
  · rw [hwaiting] at hw
    cases hw
  · cases hv
    rfl

theorem sleep_inv (h : HandOffInv s) (hne : s.current ≠ idleTask) (delta : BitVec 64) :
    HandOffInv (s.sleep delta) := by
  unfold Sched.sleep
  extract_lets s₁
  have hself : s₁.tasks s.current = { s.tasks s.current with timer := setTimer s.rdcycle delta } :=
    modify_tasks_self s s.current fun t => { t with timer := setTimer s.rdcycle delta }
  have honly : OnlyTask s s₁ s.current :=
    ⟨fun u hu => modify_tasks_of_ne s (fun t => { t with timer := setTimer s.rdcycle delta }) hu,
      fun u _ => h.tasks u⟩
  refine h.schedYield hne honly rfl ?_ nofun h.log
  rw [hself]
  exact .notWaiting h.current_isWaiting h.current_wait nofun nofun nofun

theorem yielded_inv (h : HandOffInv s) (hne : s.current ≠ idleTask) :
    HandOffInv (s.schedYield .yielded) :=
  h.schedYield hne ⟨fun _ _ => rfl, fun u _ => h.tasks u⟩ rfl
    (.notWaiting h.current_isWaiting h.current_wait nofun nofun nofun) nofun h.log

theorem findTaskWaitingFor_some {w : BitVec 64} {t : Nat} (h : s.findTaskWaitingFor w = some t) :
    (s.tasks t).wait ≠ 0 := by
  unfold findTaskWaitingFor at h
  have hwait := List.find?_some h
  intro hzero
  simp [hzero] at hwait

theorem taskFindUdp_some {d : UdpDispatch} {t : Nat} (h : s.taskFindUdp d = some t) :
    (s.tasks t).waitPacket.isWaiting = true ∧ taskMatchUdp (s.tasks t).waitPacket.filter d = true := by
  unfold taskFindUdp at h
  have hfound := List.find?_some h
  exact Bool.and_eq_true_iff.mp hfound

theorem deliver_inv (h : HandOffInv s) {t i : Nat} {d : UdpDispatch} (ht : s.taskFindUdp d = some t)
    (hdatagram : s.log.datagrams[i]? = some d) (hi : i ∉ s.log.deliveries.map Prod.fst)
    (hdispatch : ∀ u, (s.tasks u).point ≠ .inDispatch i) : HandOffInv (s.deliver t i d) := by
  obtain ⟨hwaiting, hmatch⟩ := taskFindUdp_some ht
  have hok := h.tasks t
  obtain ⟨hpoint, hundelivered, c, hcall, hfilter, hlen⟩ := hok.waiting hwaiting
  obtain ⟨c', hcall', htask, hret⟩ := hok.inRecv _ hpoint
  obtain rfl : c = c' := Option.some.inj (hcall.symm.trans hcall')
  have hself : (s.deliver t i d).tasks t =
      { s.tasks t with waitPacket := { (s.tasks t).waitPacket with isWaiting := false } } :=
    modify_tasks_self s t fun k => { k with waitPacket := { k.waitPacket with isWaiting := false } }
  have hother : ∀ u, u ≠ t → (s.deliver t i d).tasks u = s.tasks u := fun u hu =>
    modify_tasks_of_ne s (fun k => { k with waitPacket := { k.waitPacket with isWaiting := false } }) hu
  have hpoints : ∀ u, ((s.deliver t i d).tasks u).point = (s.tasks u).point := by
    intro u
    by_cases hu : u = t
    · rw [hu, hself]
    · rw [hother u hu]
  refine h.of_task ⟨hother, fun u hu => ?_⟩ ((hpoints _).trans h.idle) ((hpoints _).trans h.current) ?_
    (fun j hj => .inl ((hpoints t).symm.trans hj)) ?_
  · exact (h.tasks u).deliver hcall (fun hne => hu (hne.symm.trans htask)) (hdispatch u)
  · rw [hself]
    refine ⟨nofun, fun n hn => ?_, hok.inWait, hok.notInWait, fun j hj => absurd (hpoint.symm.trans hj) nofun⟩
    cases hpoint.symm.trans hn
    exact ⟨_, UdpLog.getElem?_deliver_self hcall _ _ _, htask, hret⟩
  · rw [← hfilter] at hmatch
    have hlog := h.log.deliver hcall hret hundelivered hdatagram hi hmatch
    rw [hlen] at hlog
    exact hlog

theorem taskDispatchUdp_inv (h : HandOffInv s) (hne : s.current ≠ idleTask) (d : UdpDispatch) :
    HandOffInv (s.taskDispatchUdp d) := by
  have hpending := h.log.pending_new d
  have hfresh : ∀ u, (s.tasks u).point ≠ .inDispatch s.log.datagrams.length := fun u hu =>
    absurd ((h.tasks u).inDispatch _ hu).1 (Nat.lt_irrefl _)
  unfold taskDispatchUdp
  extract_lets i s₁
  have h₁ : HandOffInv s₁ :=
    ⟨h.idle, h.current, fun t => (h.tasks t).receive d, h.dispatchOnce, h.log.receive d⟩
  split
  · next t ht =>
    exact deliver_inv h₁ ht List.getElem?_concat_length hpending.2 hfresh
  · refine h₁.schedYield hne ⟨fun _ _ => rfl, fun u _ => h₁.tasks u⟩ rfl ?_ ?_ h₁.log
    · refine .notWaiting h₁.current_isWaiting h₁.current_wait nofun nofun fun j hj => ?_
      cases hj
      exact hpending
    · intro j hj u
      cases hj
      exact hfresh u

/-- `t` goes on running, and the other tasks are in order. -/
theorem HandOffInv.run (h : HandOffInv s) {s' : Sched} {t : Nat}
    (ht : (s.tasks t).waitPacket.isWaiting = false) (honly : OnlyTask s s' t)
    (hcurrent : s'.current = t)
    (hself : s'.tasks t = { s.tasks t with point := .running, wait := 0 }) (hlog : s'.log.Ok) :
    HandOffInv s' := by
  have hrunning : (s'.tasks t).point = .running := by rw [hself]
  refine h.of_task honly ?_ (by rw [hcurrent, hrunning]) ?_ ?_ hlog
  · by_cases hidle : idleTask = t
    · rw [hidle, hrunning]
    · rw [honly.same _ hidle, h.idle]
  · rw [hself]
    exact .notWaiting ht rfl nofun nofun nofun
  · intro i hi
    rw [hrunning] at hi
    cases hi

/-- Switching to a task that is not waiting for a datagram. -/
theorem switchTo_inv (h : HandOffInv s) {t : Nat} (ht : (s.tasks t).waitPacket.isWaiting = false) :
    HandOffInv (s.switchTo t) := by
  have hok := h.tasks t
  unfold switchTo resume
  extract_lets p s₁
  have hself : s₁.tasks t = { s.tasks t with point := .running } :=
    modify_tasks_self _ t fun k => { k with point := .running }
  have hother : ∀ u, u ≠ t → s₁.tasks u = s.tasks u := fun u hu =>
    modify_tasks_of_ne _ (fun k => { k with point := .running }) hu
  have hunwaited : (∀ w, p ≠ .inWait w) → s₁.tasks t = { s.tasks t with point := .running, wait := 0 } := by
    intro hp
    have hzero := hok.notInWait hp
    rw [hself, ← hzero]
  have hplain : (∀ w, p ≠ .inWait w) → HandOffInv s₁ := fun hp =>
    h.run ht ⟨hother, fun u _ => h.tasks u⟩ rfl (hunwaited hp) h.log
  have hpoint : (s.tasks t).point = p := rfl
  clear_value p
  cases p with
  | inWait w =>
    have hwait : (s.tasks t).wait &&& ~~~w = 0 := by
      rw [hok.inWait w hpoint]
      simp
    refine h.run ht ⟨fun u hu => ?_, fun u _ => h.tasks u⟩ rfl ?_ h.log
    · exact (modify_tasks_of_ne _ (fun k => { k with wait := k.wait &&& ~~~w }) hu).trans (hother u hu)
    · refine (modify_tasks_self _ t fun k => { k with wait := k.wait &&& ~~~w }).trans ?_
      show ({ s₁.tasks t with wait := (s₁.tasks t).wait &&& ~~~w } : Task) = _
      rw [hself, hwait]
  | inRecv n =>
    obtain ⟨c, hcall, htask, -⟩ := hok.inRecv n hpoint
    refine h.run ht ⟨hother, fun u hu => ?_⟩ rfl (hunwaited nofun) (h.log.ret hcall)
    exact (h.tasks u).ret hcall fun hne => hu (hne.symm.trans htask)
  | inDispatch i =>
    have h₁ := hplain nofun
    have hpending := hok.inDispatch i hpoint
    have hfresh : ∀ v, (s₁.tasks v).point ≠ .inDispatch i := by
      intro v hv
      by_cases hvt : v = t
      · rw [hvt, hself] at hv
        cases hv
      · rw [hother v hvt] at hv
        exact hvt (h.dispatchOnce v t i hv hpoint)
    dsimp only
    split
    · next d hd =>
      split
      · next u hu => exact deliver_inv h₁ hu hd hpending.2 hfresh
      · exact h₁
    · exact h₁
  | entry => exact hplain nofun
  | running => exact hplain nofun
  | yielded => exact hplain nofun
  | inSleep delta => exact hplain nofun

theorem HandOffInv.idleAt (h : HandOffInv s) (p : IdlePoint) : HandOffInv { s with idle := p } :=
  ⟨h.idle, h.current, h.tasks, h.dispatchOnce, h.log⟩

theorem pollStep_inv (h : HandOffInv s) (w : BitVec 64) (next : IdlePoint) (ready : Bool) :
    HandOffInv (s.pollStep w next ready) := by
  unfold pollStep
  dsimp only
  split_ifs
  · split
    · next t ht =>
      have hwait := findTaskWaitingFor_some ht
      apply switchTo_inv (h.idleAt next)
      apply (h.tasks t).isWaiting_eq_false
      intro n hn
      apply hwait
      apply (h.tasks t).notInWait
      rw [hn]
      nofun
    · exact h.idleAt next
  · exact h.idleAt next

/-- The timer and the wait record of one task are rewritten; the record at most cleared. -/
theorem HandOffInv.poll (h : HandOffInv s) (t : Nat) {f : Task → Task}
    (hpoint : (f (s.tasks t)).point = (s.tasks t).point) (hwait : (f (s.tasks t)).wait = (s.tasks t).wait)
    (hpacket : (f (s.tasks t)).waitPacket = (s.tasks t).waitPacket ∨
      (f (s.tasks t)).waitPacket.isWaiting = false) : HandOffInv (s.modify t f) := by
  have hok := h.tasks t
  have hother : ∀ u, u ≠ t → (s.modify t f).tasks u = s.tasks u := fun u hu => modify_tasks_of_ne s f hu
  have hpoints : ∀ u, ((s.modify t f).tasks u).point = (s.tasks u).point := by
    intro u
    by_cases hu : u = t
    · rw [hu, modify_tasks_self, hpoint]
    · rw [hother u hu]
  refine h.of_task ⟨hother, fun u _ => h.tasks u⟩ ((hpoints _).trans h.idle)
    ((hpoints _).trans h.current) ?_ (fun i hi => .inl ((hpoints t).symm.trans hi)) h.log
  rw [modify_tasks_self]
  constructor
  · obtain hsame | hcleared := hpacket
    · rw [hsame, hpoint]
      exact hok.waiting
    · rw [hcleared]
      nofun
  · rw [hpoint]
    exact hok.inRecv
  · rw [hpoint, hwait]
    exact hok.inWait
  · rw [hpoint, hwait]
    exact hok.notInWait
  · rw [hpoint]
    exact hok.inDispatch

theorem scanStep_inv (h : HandOffInv s) (i : Nat) : HandOffInv (s.scanStep i) := by
  have hskip : ∀ rr, HandOffInv { s with rr := rr, idle := .scan (i + 1) } :=
    fun _ => ⟨h.idle, h.current, h.tasks, h.dispatchOnce, h.log⟩
  have htimer : ∀ rr timer, HandOffInv (Sched.modify { s with rr := rr, idle := .scan (i + 1) } s.rr
      fun k => { k with timer := timer }) :=
    fun rr _ => (hskip rr).poll s.rr rfl rfl (.inl rfl)
  have hexpired : ∀ rr timer, HandOffInv { Sched.modify { s with rr := rr, idle := .scan (i + 1) } s.rr
      (fun k => { k with timer := timer }) with idle := .pollUdp i s.rr } :=
    fun rr timer => (htimer rr timer).idleAt _
  unfold scanStep
  split_ifs
  · dsimp only
    split_ifs
    all_goals first | exact hexpired _ _ | exact htimer _ _ | exact hskip _
  · exact h.idleAt _

theorem taskPollUdp_cases (cycle : BitVec 64) (w : WaitPacket) :
    taskPollUdp cycle w = (true, w) ∧ w.isWaiting = false ∨
      taskPollUdp cycle w = (true, { w with isWaiting := false }) ∨ taskPollUdp cycle w = (false, w) := by
  unfold taskPollUdp
  split_ifs with hwaiting
  · exact .inl ⟨rfl, by simpa using hwaiting⟩
  · exact .inr (.inl rfl)
  · exact .inr (.inr rfl)

theorem pollUdpStep_inv (h : HandOffInv s) (i t : Nat) : HandOffInv (s.pollUdpStep i t) := by
  have hswitch : ∀ w : WaitPacket, w = (s.tasks t).waitPacket ∨ w.isWaiting = false →
      w.isWaiting = false →
      HandOffInv (Sched.switchTo { s.modify t fun k => { k with waitPacket := w } with
        idle := .pollTtyRecv } t) := by
    intro w hw hclear
    have h₁ := (h.poll t (f := fun k => { k with waitPacket := w }) rfl rfl hw).idleAt .pollTtyRecv
    refine switchTo_inv h₁ ?_
    have hself := modify_tasks_self s t fun k => { k with waitPacket := w }
    exact (congrArg (fun k => k.waitPacket.isWaiting) hself).trans hclear
  unfold pollUdpStep
  obtain ⟨hpoll, hclear⟩ | hpoll | hpoll := taskPollUdp_cases s.rdcycle (s.tasks t).waitPacket
  · rw [hpoll]
    exact hswitch _ (.inl rfl) hclear
  · rw [hpoll]
    exact hswitch _ (.inr rfl) rfl
  · rw [hpoll]
    exact (h.poll t (f := fun k => { k with waitPacket := (s.tasks t).waitPacket }) rfl rfl
      (.inl rfl)).idleAt _

theorem idleStep_inv {s' : Sched} (h : HandOffInv s) {l : Label} (hstep : s.idleStep l = some s') :
    HandOffInv s' := by
  unfold idleStep at hstep
  split at hstep
  · split at hstep
    all_goals cases hstep
    all_goals exact pollStep_inv h _ _ _
  · split at hstep
    · cases hstep
      exact h.idleAt _
    · cases hstep
      exact scanStep_inv h _
    · cases hstep
      exact pollUdpStep_inv h _ _
    · cases hstep
  · cases hstep

theorem taskStep_inv {s' : Sched} (h : HandOffInv s) (hne : s.current ≠ idleTask) {l : Label}
    (hstep : s.taskStep l = some s') : HandOffInv s' := by
  cases l with
  | tick | poll | idle => cases hstep
  | recvUdp filter len timeout =>
    cases hstep
    exact recvUdp_inv h hne filter len timeout
  | dispatch d =>
    cases hstep
    exact taskDispatchUdp_inv h hne d
  | wait w =>
    cases hstep
    exact wait_inv h hne w
  | sleep delta =>
    cases hstep
    exact sleep_inv h hne delta
  | schedYield =>
    cases hstep
    exact yielded_inv h hne

theorem step_inv {s' : Sched} {l : Label} (h : HandOffInv s) (hstep : s.step l = some s') :
    HandOffInv s' := by
  unfold step at hstep
  split at hstep
  · cases hstep
    exact ⟨h.idle, h.current, h.tasks, h.dispatchOnce, h.log⟩
  · split_ifs at hstep with hidle
    · exact idleStep_inv h hstep
    · exact taskStep_inv h hidle hstep

/-! ## Every run -/

structure HandOff (s : Sched) : Prop where
  ownCall : ∀ t, (s.tasks t).waitPacket.isWaiting = true →
    (s.tasks t).point = .inRecv (s.tasks t).waitPacket.call ∧
      ∃ c, s.log.calls[(s.tasks t).waitPacket.call]? = some c ∧ c.task = t ∧ c.ret = none
  datagramOnce : (s.log.deliveries.map Prod.fst).Nodup
  callOnce : (s.log.deliveries.map Prod.snd).Nodup
  received : ∀ (n : Nat) (c : RecvCall) (r : Nat), s.log.calls[n]? = some c → c.ret = some r → 0 < r →
    ∃ i d, (i, n) ∈ s.log.deliveries ∧ s.log.datagrams[i]? = some d ∧
      taskMatchUdp c.filter d = true ∧ r = min d.payload.length c.len ∧
      bytesAt c.buff 0 r = d.payload.take r ∧ c.saddr = d.saddr ∧ c.sport = d.sport

theorem HandOffInv.handOff (h : HandOffInv s) : HandOff s := by
  refine ⟨fun t ht => ?_, h.log.datagramOnce, h.log.callOnce, fun n c r hc hr hpos => ?_⟩
  · obtain ⟨hpoint, -⟩ := (h.tasks t).waiting ht
    exact ⟨hpoint, (h.tasks t).inRecv _ hpoint⟩
  · obtain rfl : r = c.outLen := h.log.returned n c r hc hr
    have hdelivered : ¬ s.log.Undelivered n := by
      intro hn
      rw [h.log.undelivered n c hc hn] at hpos
      exact absurd hpos (Nat.lt_irrefl 0)
    obtain ⟨⟨i, m⟩, hmem, hm⟩ := List.mem_map.mp (not_not.mp hdelivered)
    obtain rfl : m = n := hm
    obtain ⟨d, c', hd, hc', hholds⟩ := h.log.delivered i m hmem
    obtain rfl : c = c' := Option.some.inj (hc.symm.trans hc')
    exact ⟨i, d, hmem, hd, hholds.matched, by rw [hholds.outLen, copyLen_eq_min], hholds.bytes,
      hholds.saddr, hholds.sport⟩

theorem reachable_handOff {numTask : Nat} (h : Reachable (· = boot numTask) step s) : HandOff s := by
  have hinv : HandOffInv s := h.invariant (P := HandOffInv)
    (fun s₀ hs => by rw [hs]; exact boot_inv numTask) fun _ _ _ => step_inv
  exact hinv.handOff

/-- Idle passes its four polls and enters the scan. -/
def smallPolls : List Label := [.poll false, .poll false, .poll false, .poll false, .idle]

/-- Task 1 dispatches before task 2 receives, and delivers after its yield. -/
def smallHandOff : List Label :=
  smallPolls ++ [.idle, .idle, .idle, .dispatch ⟨6969, ipv4Compatible 0x3701a8c0, 4000, [1, 2, 3]⟩] ++
  smallPolls ++ [.idle, .idle, .recvUdp ⟨6969, ipv4Compatible 0x3701a8c0, 0⟩ 2 1000] ++
  smallPolls ++ [.idle, .idle, .idle, .schedYield] ++ smallPolls ++ [.idle, .idle]

theorem reachable_handOff_small : ∃ s, runSteps step (boot 3) smallHandOff = some s ∧
    s.log.deliveries = [(0, 0)] ∧ s.log.calls.map RecvCall.ret = [some 2] ∧ HandOff s := by
  have hrun : (runSteps step (boot 3) smallHandOff).map
      (fun s => (s.log.deliveries, s.log.calls.map RecvCall.ret)) = some ([(0, 0)], [some 2]) := by
    decide +kernel
  obtain ⟨s, hs, hlog⟩ := Option.map_eq_some_iff.mp hrun
  obtain ⟨hdeliveries, hret⟩ := Prod.mk.inj hlog
  exact ⟨s, hs, hdeliveries, hret, reachable_handOff ⟨boot 3, smallHandOff, rfl, hs⟩⟩

end Sched

end VijosOS
