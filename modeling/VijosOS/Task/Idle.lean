import VijosOS.Library.Transition
import VijosOS.Task.Task

/-!
# Runs of the scheduler

`idle_entry` step by step, and the steps of the other tasks: kernel code that runs until it
yields, receives, waits, sleeps or dispatches a datagram. The clock and the outcome of each
device poll are labels.
-/

namespace VijosOS

open Library

namespace Sched

def boot (numTask : Nat) : Sched where
  cycle := 0
  numTask := numTask
  numWaitingTask := 0
  tasks := fun t => if t = idleTask then { createTask with point := .running } else createTask
  current := idleTask
  idle := .pollTtyRecv
  rr := 0
  log := ⟨[], [], []⟩

inductive Label where
  | tick (cycles : Nat)
  | poll (ready : Bool)
  | idle
  | recvUdp (filter : UdpFilter) (len : Nat) (timeout : BitVec 64)
  | dispatch (d : UdpDispatch)
  | wait (w : BitVec 64)
  | sleep (delta : BitVec 64)
  | schedYield

/-- `if (poll()) switch_to_task_waiting_for(w)`, with idle going on at `next`. -/
def pollStep (s : Sched) (w : BitVec 64) (next : IdlePoint) (ready : Bool) : Sched :=
  let s := { s with idle := next }
  if ready then
    match s.findTaskWaitingFor w with
    | some t => s.switchTo t
    | none => s
  else s

/-- The part of the loop body of `idle_entry` up to `poll_timer`. -/
def scanStep (s : Sched) (i : Nat) : Sched :=
  if i < s.numTask then
    let t := s.rr
    let rr := s.rr + 1
    let s := { s with rr := if rr = s.numTask then 0 else rr, idle := .scan (i + 1) }
    if t ≠ s.current ∧ (s.tasks t).wait = (0 : BitVec 64) then
      let (ok, timer) := pollTimer s.rdcycle (s.tasks t).timer
      let s := s.modify t fun k => { k with timer := timer }
      if ok then { s with idle := .pollUdp i t } else s
    else s
  else { s with idle := .pollTtyRecv }

/-- The rest of the loop body, for the task whose timer has expired. -/
def pollUdpStep (s : Sched) (i t : Nat) : Sched :=
  let (ok, w) := taskPollUdp s.rdcycle (s.tasks t).waitPacket
  let s := s.modify t fun k => { k with waitPacket := w }
  if ok then { s with idle := .pollTtyRecv }.switchTo t
  else { s with idle := .scan (i + 1) }

def idleStep (s : Sched) : Label → Option Sched
  | .poll ready =>
    match s.idle with
    | .pollTtyRecv => some (s.pollStep waitTtyRecv .pollTtySend ready)
    | .pollTtySend => some (s.pollStep waitTtySend .pollEthRecv ready)
    | .pollEthRecv => some (s.pollStep waitEthRecv .pollEthSend ready)
    | .pollEthSend => some (s.pollStep waitEthSend .check ready)
    | _ => none
  | .idle =>
    match s.idle with
    | .check =>
      some { s with idle := if s.numWaitingTask < s.numTask then .scan 0 else .pollTtyRecv }
    | .scan i => some (s.scanStep i)
    | .pollUdp i t => some (s.pollUdpStep i t)
    | _ => none
  | _ => none

def taskStep (s : Sched) : Label → Option Sched
  | .recvUdp filter len timeout => some (s.recvUdp filter len timeout)
  | .dispatch d => some (s.taskDispatchUdp d)
  | .wait w => some (s.wait w)
  | .sleep delta => some (s.sleep delta)
  | .schedYield => some (s.schedYield .yielded)
  | _ => none

def step (s : Sched) : Label → Option Sched
  | .tick cycles => some { s with cycle := s.cycle + cycles }
  | l => if s.current = idleTask then s.idleStep l else s.taskStep l

end Sched

end VijosOS
