import Mathlib.Data.List.Basic
import Mathlib.Logic.Function.Basic
import VijosOS.Net.Frame

/-!
# Tasks

Timers, wait records and the task table of `task.c`. The pointers of a wait record are the
`recv_udp` call that owns the variables; calls, datagrams and deliveries are numbered in
the order in which they happen.
-/

namespace VijosOS

open Library

/-! ## Timers -/

structure Timer where
  start : BitVec 64
  delta : BitVec 64
  timeout : Bool

def setTimer (cycle delta : BitVec 64) : Timer := ⟨cycle, delta, false⟩

def pollTimer (cycle : BitVec 64) (t : Timer) : Bool × Timer :=
  if t.timeout then (true, t)
  else if t.delta ≤ cycle - t.start then (true, { t with timeout := true })
  else (false, t)

/-! ## Waiting for a datagram -/

structure UdpFilter where
  dport : Nat
  expectedSaddr : Ipv6Addr
  expectedSport : Nat
  deriving DecidableEq

def taskMatchUdp (f : UdpFilter) (d : UdpDispatch) : Bool :=
  (f.dport == 0 || f.dport == d.dport) &&
    (f.expectedSaddr == ipv6Unspecified || f.expectedSaddr == d.saddr) &&
    (f.expectedSport == 0 || f.expectedSport == d.sport)

theorem taskMatchUdp_iff {f : UdpFilter} {d : UdpDispatch} : taskMatchUdp f d = true ↔
    (f.dport = 0 ∨ f.dport = d.dport) ∧
      (f.expectedSaddr = ipv6Unspecified ∨ f.expectedSaddr = d.saddr) ∧
      (f.expectedSport = 0 ∨ f.expectedSport = d.sport) := by
  simp [taskMatchUdp, and_assoc]

structure WaitPacket where
  isWaiting : Bool
  filter : UdpFilter
  call : Nat
  len : Nat
  start : BitVec 64
  delta : BitVec 64

def taskPollUdp (cycle : BitVec 64) (w : WaitPacket) : Bool × WaitPacket :=
  if !w.isWaiting then (true, w)
  else if w.delta ≤ cycle - w.start then (true, { w with isWaiting := false })
  else (false, w)

/-- A call of `recv_udp`: its arguments, the variables it lends, and what it returned. -/
structure RecvCall where
  task : Nat
  filter : UdpFilter
  len : Nat
  saddr : Ipv6Addr
  sport : Nat
  buff : Mem
  outLen : Nat
  ret : Option Nat

def copyLen (len payloadLen : Nat) : Nat := if payloadLen < len then payloadLen else len

/-- The stores of `task_dispatch_udp` through the pointers of the wait record. -/
def RecvCall.deliver (c : RecvCall) (len : Nat) (d : UdpDispatch) : RecvCall :=
  let n := copyLen len d.payload.length
  { c with
    saddr := d.saddr
    sport := d.sport
    buff := writeBytes c.buff 0 (d.payload.take n)
    outLen := n }

/-! ## The task table -/

/-- Where the code of a task stands. -/
inductive Point where
  | entry
  | running
  | yielded
  | inWait (w : BitVec 64)
  | inSleep (delta : BitVec 64)
  | inRecv (call : Nat)
  | inDispatch (datagram : Nat)
  deriving DecidableEq

structure Task where
  wait : BitVec 64
  timer : Timer
  waitPacket : WaitPacket
  point : Point

def createTask : Task where
  wait := 0
  timer := ⟨0, 0, true⟩
  waitPacket := ⟨false, ⟨0, ipv6Unspecified, 0⟩, 0, 0, 0, 0⟩
  point := .entry

def waitTtyRecv : BitVec 64 := 1 <<< 0
def waitTtySend : BitVec 64 := 1 <<< 1
def waitEthRecv : BitVec 64 := 1 <<< 2
def waitEthSend : BitVec 64 := 1 <<< 3
def waitExit : BitVec 64 := 1 <<< 63

/-- Where `idle_entry` stands; `scan` counts the tasks looked at, `pollUdp` has one at hand. -/
inductive IdlePoint where
  | pollTtyRecv
  | pollTtySend
  | pollEthRecv
  | pollEthSend
  | check
  | scan (i : Nat)
  | pollUdp (i t : Nat)
  deriving DecidableEq

/-- The `recv_udp` calls, the datagrams given to `task_dispatch_udp`, and which datagram was
delivered to which call. -/
structure UdpLog where
  calls : List RecvCall
  datagrams : List UdpDispatch
  deliveries : List (Nat × Nat)

structure Sched where
  cycle : Nat
  numTask : Nat
  numWaitingTask : Nat
  tasks : Nat → Task
  current : Nat
  idle : IdlePoint
  rr : Nat
  log : UdpLog

namespace UdpLog

def call (l : UdpLog) (c : RecvCall) : UdpLog := { l with calls := l.calls ++ [c] }

def receive (l : UdpLog) (d : UdpDispatch) : UdpLog := { l with datagrams := l.datagrams ++ [d] }

/-- Datagram number `i` is stored through the pointers of call number `n`. -/
def deliver (l : UdpLog) (n len i : Nat) (d : UdpDispatch) : UdpLog :=
  { l with
    calls := l.calls.modify n fun c => c.deliver len d
    deliveries := l.deliveries ++ [(i, n)] }

def ret (l : UdpLog) (n : Nat) : UdpLog :=
  { l with calls := l.calls.modify n fun c => { c with ret := some c.outLen } }

end UdpLog

namespace Sched

def idleTask : Nat := 0

def rdcycle (s : Sched) : BitVec 64 := BitVec.ofNat 64 s.cycle

def modify (s : Sched) (t : Nat) (f : Task → Task) : Sched :=
  { s with tasks := Function.update s.tasks t (f (s.tasks t)) }

@[simp] theorem modify_tasks_self (s : Sched) (t : Nat) (f : Task → Task) :
    (s.modify t f).tasks t = f (s.tasks t) := Function.update_self _ _ _

theorem modify_tasks_of_ne (s : Sched) {t u : Nat} (f : Task → Task) (h : u ≠ t) :
    (s.modify t f).tasks u = s.tasks u := Function.update_of_ne h _ _

def findTaskWaitingFor (s : Sched) (w : BitVec 64) : Option Nat :=
  (List.range s.numTask).find? fun t => (s.tasks t).wait &&& w != 0

def taskFindUdp (s : Sched) (d : UdpDispatch) : Option Nat :=
  (List.range s.numTask).find? fun t =>
    (s.tasks t).waitPacket.isWaiting && taskMatchUdp (s.tasks t).waitPacket.filter d

/-- `switch_to(current, idle_task)` with the code of `current` at `p`. -/
def schedYield (s : Sched) (p : Point) : Sched :=
  { s.modify s.current fun t => { t with point := p } with current := idleTask }

theorem schedYield_tasks_current (s : Sched) (p : Point) :
    (s.schedYield p).tasks s.current = { s.tasks s.current with point := p } :=
  modify_tasks_self s s.current fun t => { t with point := p }

theorem schedYield_tasks_of_ne (s : Sched) (p : Point) {u : Nat} (h : u ≠ s.current) :
    (s.schedYield p).tasks u = s.tasks u := modify_tasks_of_ne s (fun t => { t with point := p }) h

def wait (s : Sched) (w : BitVec 64) : Sched :=
  let s := s.modify s.current fun t => { t with wait := t.wait ||| w }
  let s := { s with numWaitingTask := s.numWaitingTask + 1 }
  s.schedYield (.inWait w)

def sleep (s : Sched) (delta : BitVec 64) : Sched :=
  let s := s.modify s.current fun t => { t with timer := setTimer s.rdcycle delta }
  s.schedYield (.inSleep delta)

def recvUdp (s : Sched) (filter : UdpFilter) (len : Nat) (timeout : BitVec 64) : Sched :=
  let n := s.log.calls.length
  let s := { s with log := s.log.call ⟨s.current, filter, len, ipv6Unspecified, 0, fun _ => 0, 0, none⟩ }
  let s := s.modify s.current fun t =>
    { t with waitPacket := ⟨true, filter, n, len, s.rdcycle, timeout⟩ }
  s.schedYield (.inRecv n)

/-- Deliver datagram number `i` to the task `t` found by `task_find_udp`. -/
def deliver (s : Sched) (t i : Nat) (d : UdpDispatch) : Sched :=
  let w := (s.tasks t).waitPacket
  let s := s.modify t fun k => { k with waitPacket := { k.waitPacket with isWaiting := false } }
  { s with log := s.log.deliver w.call w.len i d }

/-- `task_dispatch_udp` up to its end or its yield. -/
def taskDispatchUdp (s : Sched) (d : UdpDispatch) : Sched :=
  let i := s.log.datagrams.length
  let s := { s with log := s.log.receive d }
  match s.taskFindUdp d with
  | some t => s.deliver t i d
  | none => s.schedYield (.inDispatch i)

/-- What the code of `current` does between its resumption and its next statement. -/
def resume (s : Sched) : Sched :=
  let p := (s.tasks s.current).point
  let s := s.modify s.current fun t => { t with point := .running }
  match p with
  | .inWait w =>
    let s := { s with numWaitingTask := s.numWaitingTask - 1 }
    s.modify s.current fun t => { t with wait := t.wait &&& ~~~w }
  | .inRecv n => { s with log := s.log.ret n }
  | .inDispatch i =>
    match s.log.datagrams[i]? with
    | some d =>
      match s.taskFindUdp d with
      | some t => s.deliver t i d
      | none => s
    | none => s
  | _ => s

def switchTo (s : Sched) (next : Nat) : Sched := resume { s with current := next }

end Sched

end VijosOS
