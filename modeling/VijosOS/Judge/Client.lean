import VijosOS.Judge.Daemon

/-!
# The judge client

`do_judge` of `client.py` from one use of the socket to the next. A socket that is asked for
fewer bytes than the datagram has returns its first bytes.
-/

namespace VijosOS

open Library

def retryLimit : Nat := 3

/-- The arguments of `do_judge`, with the files as their bytes and the time limit in cycles. -/
structure JudgeCall where
  elf : List Byte
  stdin : List Byte
  timeLimitCycles : Nat
  memLimit : Nat

/-- What `do_judge` returns; the time is in cycles, before the division by `CLOCK_FREQ`. -/
structure Verdict where
  exitcode : Int
  timeUsage : Nat
  memUsage : Nat
  stdout : List Byte
  deriving DecidableEq

inductive JudgePoint where
  | copyElf
  | copyStdin
  | attempt
  | waitAck
  | waitResp
  | readStdout (resp : JudgeResp)
  | returned (verdict : Option Verdict)

/-- The locals `i` and `seq` of `do_judge`, and the address of its socket. -/
structure JudgeClient where
  addr : Ipv6Addr
  port : Nat
  i : Nat
  seq : BitVec 64
  point : JudgePoint

/-- `struct.pack('<QQQ', seq, time_limit_cycles, mem_limit)`. -/
def packReq (call : JudgeCall) (seq : BitVec 64) : List Byte :=
  wordBytes [seq.toNat, call.timeLimitCycles, call.memLimit]

/-- `struct.unpack('<QQqqQQ', resp)`; the signed fields are read as such where they are used. -/
def unpackResp (p : List Byte) : JudgeResp where
  seq := messageWord p 0
  flags := messageWord p 1
  error := messageWord p 2
  exitcode := messageWord p 3
  timeUsage := messageWord p 4
  memUsage := messageWord p 5

/-- The tests of the first loop, on what `recv_packet(sock, 16)` returned. -/
def isAck (seq : BitVec 64) (ack : List Byte) : Bool :=
  ack.length == 16 && messageWord ack 0 == seq && messageWord ack 1 &&& judgeRespAck != 0

/-- The tests of the second loop, on what `recv_packet(sock, 48)` returned. -/
def isResult (seq : BitVec 64) (resp : List Byte) : Bool :=
  resp.length == 48 && (unpackResp resp).seq == seq && (unpackResp resp).flags &&& judgeRespAck != 0 &&
    (unpackResp resp).flags &&& judgeRespResult != 0

namespace JudgeClient

/-- One more attempt, or the result `None`. -/
def retry (c : JudgeClient) : JudgeClient :=
  { c with i := c.i + 1, point := if c.i + 1 < retryLimit then .attempt else .returned none }

/-- The request of an attempt; `struct.pack` raises an exception when a number has no 64 bits. -/
def send (c : JudgeClient) (call : JudgeCall) (seq : BitVec 64) : Option (JudgeClient × UdpDispatch) :=
  match c.point with
  | .attempt =>
    if call.timeLimitCycles < 2 ^ 64 ∧ call.memLimit < 2 ^ 64 then
      some ({ c with seq := seq, point := .waitAck }, ⟨judgeServerPort, c.addr, c.port, packReq call seq⟩)
    else none
  | _ => none

/-- A datagram at the socket. -/
def recv (c : JudgeClient) (payload : List Byte) : JudgeClient :=
  match c.point with
  | .waitAck => if isAck c.seq (payload.take 16) then { c with point := .waitResp } else c
  | .waitResp =>
    if isResult c.seq (payload.take 48) then { c with point := .readStdout (unpackResp (payload.take 48)) }
    else c
  | _ => c

def timeout (c : JudgeClient) : Option JudgeClient :=
  match c.point with
  | .waitAck | .waitResp => some c.retry
  | _ => none

/-- The last statements: the file is read and the result returned. The error is not looked at. -/
def readStdout (c : JudgeClient) (stdout : List Byte) : Option JudgeClient :=
  match c.point with
  | .readStdout resp => some { c with
      point := .returned (some
        ⟨resp.exitcode.toInt, resp.timeUsage.toNat, resp.memUsage.toNat, stdout⟩) }
  | _ => none

/-! ## What a step does -/

section Cases

variable {c c' : JudgeClient}

theorem send_cases {call : JudgeCall} {seq : BitVec 64} {d : UdpDispatch}
    (h : c.send call seq = some (c', d)) :
    c.point = .attempt ∧ c' = { c with seq := seq, point := .waitAck } ∧
      d = ⟨judgeServerPort, c.addr, c.port, packReq call seq⟩ := by
  unfold send at h
  split at h
  · next hpoint =>
    split_ifs at h
    obtain ⟨rfl, rfl⟩ := Prod.mk.inj (Option.some.inj h)
    exact ⟨hpoint, rfl, rfl⟩
  · cases h

theorem recv_cases (c : JudgeClient) (p : List Byte) :
    c.recv p = c ∨ (c.point = .waitAck ∧ c.recv p = { c with point := .waitResp }) ∨
      (c.point = .waitResp ∧ isResult c.seq (p.take 48) = true ∧
        c.recv p = { c with point := .readStdout (unpackResp (p.take 48)) }) := by
  unfold recv
  split
  · next hpoint =>
    split_ifs
    · exact .inr (.inl ⟨hpoint, rfl⟩)
    · exact .inl rfl
  · next hpoint =>
    split_ifs with hresult
    · exact .inr (.inr ⟨hpoint, hresult, rfl⟩)
    · exact .inl rfl
  · exact .inl rfl

theorem timeout_cases (h : c.timeout = some c') : (c.point = .waitAck ∨ c.point = .waitResp) ∧ c' = c.retry := by
  unfold timeout at h
  split at h
  · next hpoint => exact ⟨.inl hpoint, (Option.some.inj h).symm⟩
  · next hpoint => exact ⟨.inr hpoint, (Option.some.inj h).symm⟩
  · cases h

theorem readStdout_cases {stdout : List Byte} (h : c.readStdout stdout = some c') :
    ∃ resp, c.point = .readStdout resp ∧ c' = { c with
      point := .returned (some ⟨resp.exitcode.toInt, resp.timeUsage.toNat, resp.memUsage.toNat, stdout⟩) } := by
  unfold readStdout at h
  split at h
  · next resp hpoint => exact ⟨resp, hpoint, (Option.some.inj h).symm⟩
  · cases h

end Cases

end JudgeClient

/-! ## Messages of the daemon -/

theorem JudgeResp.bytes_length (r : JudgeResp) : r.bytes.length = 48 := by
  rw [JudgeResp.bytes, wordBytes_length]
  rfl

theorem messageWord_bytes (r : JudgeResp) (i : Nat) : messageWord r.bytes i =
    [r.seq, r.flags, r.error, r.exitcode, r.timeUsage, r.memUsage].getD i 0 :=
  messageWord_wordBytes [r.seq, r.flags, r.error, r.exitcode, r.timeUsage, r.memUsage] i

/-- The client reads the fields that the daemon wrote. -/
theorem unpackResp_bytes (r : JudgeResp) : unpackResp r.bytes = r := by
  rw [unpackResp]
  simp only [messageWord_bytes]
  rfl

theorem isResult_bytes (seq : BitVec 64) (r : JudgeResp) : isResult seq (r.bytes.take 48) = true ↔
    r.seq = seq ∧ r.flags &&& judgeRespAck ≠ 0 ∧ r.flags &&& judgeRespResult ≠ 0 := by
  rw [List.take_of_length_le (Nat.le_of_eq r.bytes_length), isResult, unpackResp_bytes, r.bytes_length]
  simp [and_assoc]

/-- An acknowledgement is not taken for a result. -/
theorem isResult_ack (seq : BitVec 64) {r : JudgeResp} (hflags : r.flags = judgeRespAck) :
    isResult seq (r.bytes.take 48) = false := by
  rw [Bool.eq_false_iff, ne_eq, isResult_bytes, hflags]
  rintro ⟨_, _, hresult⟩
  exact hresult (by decide)

end VijosOS
