import VijosOS.Judge.Daemon
import VijosOS.Task.Resumption

/-!
# Requests of every size

`judge_entry` tests the length that `recv_udp` returns, and `task_dispatch_udp` clips the payload to
the buffer before it reports that length: a payload longer than a request looks like a request.
-/

namespace VijosOS

open Library

/-- The test of `judge_entry` as it is meant: a payload of the size of a request is acknowledged and
starts a job with its bytes; after any other the daemon waits and sends nothing. -/
structure JudgeDaemon.Handles (d : JudgeDaemon) (p : UdpDispatch) (r : JudgeDaemon × List SentUdp) :
    Prop where
  started : (r.1.sender = some (p.saddr, p.sport) ∧ r.2 = [d.respond p.saddr p.sport
      ⟨BitVec.ofNat 64 (loadJudgeReq r.1.req).seq, judgeRespAck, 0, 0, 0, 0⟩]) ↔ p.payload.length = judgeReqSize
  req : p.payload.length = judgeReqSize → bytesAt r.1.req 0 judgeReqSize = p.payload
  ignored : p.payload.length ≠ judgeReqSize → r.1.sender = none ∧ r.2 = []

namespace JudgeDaemon

theorem handles_request_iff {d : JudgeDaemon} {c : RecvCall} {p : UdpDispatch} (hwaiting : d.sender = none)
    (hlen : c.len = judgeReqSize) (hholds : c.Holds p) :
    d.Handles p (d.request c.outLen c.buff c.saddr c.sport) ↔ p.payload.length ≤ judgeReqSize := by
  have hout : c.outLen = min p.payload.length judgeReqSize := by
    rw [hholds.outLen, copyLen_eq_min, hlen]
  rw [hholds.saddr, hholds.sport]
  rcases Nat.lt_trichotomy p.payload.length judgeReqSize with hshort | hfull | hlong
  · have hne : p.payload.length ≠ judgeReqSize := Nat.ne_of_lt hshort
    have hret : c.outLen ≠ judgeReqSize := by omega
    rw [request_of_ne hret]
    refine iff_of_true ⟨?_, fun h => absurd h hne, fun _ => ⟨hwaiting, rfl⟩⟩ (Nat.le_of_lt hshort)
    exact iff_of_false (fun h => List.cons_ne_nil _ _ h.2.symm) hne
  · have hret : c.outLen = judgeReqSize := by omega
    rw [request_of_eq hret]
    refine iff_of_true ⟨iff_of_true ⟨rfl, rfl⟩ hfull, fun _ => ?_, fun h => absurd hfull h⟩ (Nat.le_of_eq hfull)
    have hbytes := hholds.bytes
    rw [hret] at hbytes
    exact hbytes.trans (List.take_of_length_le (Nat.le_of_eq hfull))
  · have hret : c.outLen = judgeReqSize := by omega
    rw [request_of_eq hret]
    refine iff_of_false (fun h => ?_) (Nat.not_le.mpr hlong)
    cases (h.ignored (Nat.ne_of_gt hlong)).1

end JudgeDaemon

/-! ## Every run -/

/-- The filter of the `recv_udp` call of `judge_entry`. -/
def judgeFilter : UdpFilter := ⟨judgeServerPort, ipv6Unspecified, 0⟩

/-- Whatever the tasks do: the daemon does the right thing with a payload that was delivered to its call
exactly when the payload is not longer than a request. -/
theorem judgeEntry_handles_iff {numTask : Nat} {dontCare : Owner} {events : List Machine.Event} {m : Machine}
    (hrun : runSteps Machine.step (Machine.boot numTask dontCare) events = some m) {n i ret : Nat}
    {c : RecvCall} {p : UdpDispatch} (hcall : m.sched.log.calls[n]? = some c) (hfilter : c.filter = judgeFilter)
    (hlen : c.len = judgeReqSize) (hret : c.ret = some ret) (hdelivered : (i, n) ∈ m.sched.log.deliveries)
    (hp : m.sched.log.datagrams[i]? = some p) {d : JudgeDaemon} (hwaiting : d.sender = none) :
    p.dport = judgeServerPort ∧
      (d.Handles p (d.request ret c.buff c.saddr c.sport) ↔ p.payload.length ≤ judgeReqSize) := by
  have hinv : Machine.Inv m := Machine.reachable_inv ⟨_, events, rfl, hrun⟩
  have hlog := hinv.handOff.log
  obtain ⟨p', c', hp', hc', hholds⟩ := hlog.delivered i n hdelivered
  obtain rfl : p = p' := Option.some.inj (hp.symm.trans hp')
  obtain rfl : c = c' := Option.some.inj (hcall.symm.trans hc')
  obtain rfl : ret = c.outLen := hlog.returned n c ret hcall hret
  refine ⟨?_, JudgeDaemon.handles_request_iff hwaiting hlen hholds⟩
  have hmatch := (taskMatchUdp_iff.mp hholds.matched).1
  rw [hfilter] at hmatch
  exact (hmatch.resolve_left (by decide)).symm

/-- Task 1 is in the call of `judge_entry` when task 2 dispatches a payload, and returns from it. -/
def smallRequest (payload : List Byte) : List Sched.Label :=
  Sched.smallPolls ++ [.idle, .idle, .idle, .recvUdp judgeFilter judgeReqSize 10000000] ++
  Sched.smallPolls ++ [.idle, .idle, .dispatch ⟨judgeServerPort, ipv4Compatible 0x3701a8c0, 4000, payload⟩,
    .schedYield] ++ Sched.smallPolls ++ [.idle, .idle, .idle]

/-- Where a run with one call and one delivery ends. -/
structure Machine.Delivered (m : Machine) (p : UdpDispatch) (c : RecvCall) (ret : Nat) : Prop where
  call : m.sched.log.calls[0]? = some c
  filter : c.filter = judgeFilter
  len : c.len = judgeReqSize
  ret : c.ret = some ret
  delivered : (0, 0) ∈ m.sched.log.deliveries
  datagram : m.sched.log.datagrams[0]? = some p

theorem smallRequest_delivered (payload : List Byte) (ret : Nat)
    (hcalls : (runSteps Machine.step (Machine.boot 3 .user) ((smallRequest payload).map .kernel)).map (fun m =>
      m.sched.log.calls.map fun c => (c.filter, c.len, c.ret)) = some [(judgeFilter, judgeReqSize, some ret)])
    (hlog : (runSteps Machine.step (Machine.boot 3 .user) ((smallRequest payload).map .kernel)).map (fun m =>
      (m.sched.log.deliveries, m.sched.log.datagrams.map UdpDispatch.payload)) = some ([(0, 0)], [payload])) :
    ∃ m p c, runSteps Machine.step (Machine.boot 3 .user) ((smallRequest payload).map .kernel) = some m ∧
      p.payload = payload ∧ m.Delivered p c ret := by
  obtain ⟨m, hm, hcalls⟩ := Option.map_eq_some_iff.mp hcalls
  rw [hm] at hlog
  obtain ⟨hdeliveries, hdatagrams⟩ := Prod.mk.inj (Option.some.inj hlog)
  obtain ⟨c, hc, hcall⟩ := List.map_eq_singleton_iff.mp hcalls
  obtain ⟨p, hp, hpayload⟩ := List.map_eq_singleton_iff.mp hdatagrams
  simp only [Prod.mk.injEq] at hcall
  refine ⟨m, p, c, hm, hpayload, ?_, hcall.1, hcall.2.1, hcall.2.2, ?_, ?_⟩
  · rw [hc]
    rfl
  · rw [hdeliveries]
    exact List.mem_singleton.mpr rfl
  · rw [hp]
    rfl

def smallDaemon : JudgeDaemon := ⟨ipv4Compatible 0x0201a8c0, fun _ => 0, none⟩

/-- A request of exactly 24 bytes. -/
theorem judgeEntry_handles_small : ∃ m p c, p.payload = List.replicate 24 7 ∧
    runSteps Machine.step (Machine.boot 3 .user) ((smallRequest (List.replicate 24 7)).map .kernel) = some m ∧
    m.Delivered p c 24 ∧ smallDaemon.Handles p (smallDaemon.request 24 c.buff c.saddr c.sport) := by
  obtain ⟨m, p, c, hrun, hpayload, h⟩ := smallRequest_delivered (List.replicate 24 7) 24
    (by decide +kernel) (by decide +kernel)
  have hiff := (judgeEntry_handles_iff hrun h.call h.filter h.len h.ret h.delivered h.datagram
    (rfl : smallDaemon.sender = none)).2
  refine ⟨m, p, c, hpayload, hrun, h, hiff.mpr ?_⟩
  rw [hpayload]
  decide

/-- A payload of 25 bytes starts a job. -/
theorem judgeEntry_not_always :
    ¬ ∀ (numTask : Nat) (dontCare : Owner) (events : List Machine.Event) (m : Machine) (n i ret : Nat)
      (c : RecvCall) (p : UdpDispatch) (d : JudgeDaemon),
      runSteps Machine.step (Machine.boot numTask dontCare) events = some m →
      m.sched.log.calls[n]? = some c → c.filter = judgeFilter → c.len = judgeReqSize → c.ret = some ret →
      (i, n) ∈ m.sched.log.deliveries → m.sched.log.datagrams[i]? = some p → d.sender = none →
      d.Handles p (d.request ret c.buff c.saddr c.sport) := by
  intro hall
  obtain ⟨m, p, c, hrun, hpayload, h⟩ := smallRequest_delivered (List.replicate 25 7) 24
    (by decide +kernel) (by decide +kernel)
  have hhandles := hall 3 .user _ m 0 0 24 c p smallDaemon hrun h.call h.filter h.len h.ret h.delivered
    h.datagram rfl
  have hlong : p.payload.length ≠ judgeReqSize := by
    rw [hpayload]
    decide
  rw [JudgeDaemon.request_of_eq (rfl : 24 = judgeReqSize)] at hhandles
  cases (hhandles.ignored hlong).1

end VijosOS
