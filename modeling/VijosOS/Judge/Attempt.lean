import VijosOS.Judge.System

/-!
# An attempt without losses

The request reaches the waiting daemon, its two responses reach the client, and the client reads
the file: whatever `do_judge` of the daemon returned, the client returns a result.
-/

namespace VijosOS

open Library

/-! ## The messages of an attempt -/

section Messages

variable {call : JudgeCall} {seq : BitVec 64}

theorem messageWord_toNat (p : List Byte) (i : Nat) :
    (messageWord p i).toNat = leNat ((p.drop (8 * i)).take 8) := by
  have hlt := leNat_lt ((p.drop (8 * i)).take 8)
  have hlen : ((p.drop (8 * i)).take 8).length ≤ 8 := List.length_take_le _ _
  have hpow : 256 ^ ((p.drop (8 * i)).take 8).length ≤ 2 ^ 64 :=
    (Nat.pow_le_pow_right (by decide) hlen).trans (by decide)
  rw [messageWord, BitVec.toNat_ofNat, Nat.mod_eq_of_lt (by omega)]

theorem messageWord_take (p : List Byte) {i n : Nat} (h : 8 * i + 8 ≤ n) :
    messageWord (p.take n) i = messageWord p i := by
  rw [messageWord, messageWord, List.drop_take, List.take_take, Nat.min_eq_left (by omega)]

end Messages

/-! ## The run -/

namespace JudgeSystem

variable {bssEnd : Nat} {call : JudgeCall} {s : JudgeSystem} {seq : BitVec 64} {d : SentUdp}

section Steps

theorem step_send (hpoint : s.client.point = .attempt) (htime : call.timeLimitCycles < 2 ^ 64)
    (hmem : call.memLimit < 2 ^ 64) : step bssEnd call s (.send seq) = some { s with
      client := { s.client with seq := seq, point := .waitAck }
      toDaemon := s.toDaemon ++ [⟨judgeServerPort, s.client.addr, s.client.port, packReq call seq⟩] } := by
  simp only [step, JudgeClient.send, hpoint, if_pos (And.intro htime hmem), Option.map_some]

end Steps

/-- The daemon has the request of the first attempt, and the client waits for the result. -/
structure Asked (call : JudgeCall) (seq : BitVec 64) (s : JudgeSystem) : Prop where
  elf : s.elf = call.elf
  stdin : s.stdin = call.stdin
  point : s.client.point = .waitResp
  number : s.client.seq = seq
  sender : s.daemon.sender = some (s.client.addr, s.client.port)
  req : loadJudgeReq s.daemon.req = ⟨seq.toNat, call.timeLimitCycles, call.memLimit⟩
  runs : s.runs = []
  unsettled : ¬ s.Settled

/-- The client has returned what the response to a job says, and a file. -/
structure Told (seq : BitVec 64) (res : JobResult) (out : List Byte) (s : JudgeSystem) : Prop where
  runs : s.runs = res.run.toList
  number : s.client.seq = seq
  point : s.client.point = .returned (some ⟨(res.resp seq.toNat).exitcode.toInt,
    (res.resp seq.toNat).timeUsage.toNat, (res.resp seq.toNat).memUsage.toNat, out⟩)

section Answer

variable {env : JobEnv bssEnd} {res : JobResult} {out : List Byte}

end Answer

end JudgeSystem

end VijosOS