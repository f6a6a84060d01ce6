import VijosOS.Judge.Client

/-!
# The daemon and the client

The daemon, the client and the directory of the TFTP server that they share, over a network that
may lose, duplicate, delay and reorder datagrams: one that was sent may arrive at any later time,
any number of times or never. The file `stdout` also changes when a datagram of some upload
reaches the server, at any time.
-/

namespace VijosOS

open Library

/-- The two parties, the directory of the server, every datagram sent, and the runs in user mode. -/
structure JudgeSystem where
  client : JudgeClient
  daemon : JudgeDaemon
  elf : List Byte
  stdin : List Byte
  stdout : Option (List Byte)
  toDaemon : List UdpDispatch
  toClient : List SentUdp
  runs : List UserRun

inductive JudgeLabel (bssEnd : Nat) where
  | copyElf
  | copyStdin
  | send (seq : BitVec 64)
  | clientRecv (d : SentUdp)
  | clientTimeout
  | readStdout
  | daemonRecv (d : UdpDispatch)
  | doJudge (env : JobEnv bssEnd)
  | serverWrites (bytes : Option (List Byte))

namespace JudgeSystem

variable {bssEnd : Nat} {call : JudgeCall}

def step (bssEnd : Nat) (call : JudgeCall) (s : JudgeSystem) : JudgeLabel bssEnd → Option JudgeSystem
  | .copyElf =>
    match s.client.point with
    | .copyElf => some { s with elf := call.elf, client := { s.client with point := .copyStdin } }
    | _ => none
  | .copyStdin =>
    match s.client.point with
    | .copyStdin => some { s with stdin := call.stdin, client := { s.client with point := .attempt } }
    | _ => none
  | .send seq => (s.client.send call seq).map fun (c, d) =>
      { s with client := c, toDaemon := s.toDaemon ++ [d] }
  | .clientRecv d => if d ∈ s.toClient then some { s with client := s.client.recv d.payload } else none
  | .clientTimeout => s.client.timeout.map fun c => { s with client := c }
  | .readStdout => s.stdout.bind fun stdout =>
      (s.client.readStdout stdout).map fun c => { s with client := c }
  | .daemonRecv d =>
    if d ∈ s.toDaemon ∧ s.daemon.sender = none then
      some { s with
        daemon := (s.daemon.recv d).1
        toClient := s.toClient ++ (s.daemon.recv d).2 }
    else none
  | .doJudge env =>
    if s.daemon.sender = none then none
    else (judgeJob s.elf s.stdin env (loadJudgeReq s.daemon.req)).map fun r =>
      { s with
        daemon := (s.daemon.finish r).1
        toClient := s.toClient ++ (s.daemon.finish r).2
        stdout := (r.run.bind UserRun.stored).or s.stdout
        runs := s.runs ++ r.run.toList }
  | .serverWrites bytes => some { s with stdout := bytes }

/-- The client has been called and the daemon waits; nothing was sent. -/
structure Start (s : JudgeSystem) : Prop where
  point : s.client.point = .copyElf
  attempt : s.client.i = 0
  waiting : s.daemon.sender = none
  toDaemon : s.toDaemon = []
  toClient : s.toClient = []
  runs : s.runs = []

/-! ## Conditions on a run -/

/-- A result for the sequence number was sent. -/
def Answered (s : JudgeSystem) (seq : BitVec 64) : Prop :=
  ∃ d ∈ s.toClient, isResult seq (d.payload.take 48) = true

/-- The client has its result, or it was sent. -/
def Settled (s : JudgeSystem) : Prop :=
  match s.client.point with
  | .waitAck | .waitResp => s.Answered s.client.seq
  | .readStdout _ => True
  | _ => False

/-- The client waits for a result under the sequence number. -/
def Awaits (s : JudgeSystem) (seq : Nat) : Prop :=
  match s.client.point with
  | .waitAck | .waitResp => s.client.seq = BitVec.ofNat 64 seq
  | _ => False

/-- The client numbers each attempt anew, and a job for the number it waits for takes none of its error
branches and gets no datagram of an earlier transfer; from the time a result is there until the client
has read the file, no job ends and no datagram makes the server write the file again. -/
def Undisturbed (s : JudgeSystem) : JudgeLabel bssEnd → Prop
  | .send seq => ¬ s.Answered seq
  | .doJudge env => ¬ s.Settled ∧ (s.Awaits (loadJudgeReq s.daemon.req).seq →
      env.NoLate ∧ env.NoErrors s.elf s.stdin (loadJudgeReq s.daemon.req))
  | .serverWrites _ => ¬ s.Settled
  | _ => True

end JudgeSystem

end VijosOS
