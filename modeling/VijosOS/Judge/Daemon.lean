import VijosOS.Judge.Upload
import VijosOS.Memory.Accounting
import VijosOS.Tftp.Transfer

/-!
# The judge daemon

The messages of `judge.h` in memory order, a whole call of `do_judge` with its transfers and
its run in user mode, and `judge_entry` between its calls of `recv_udp` and `do_judge`.
-/

namespace VijosOS

open Library

def judgeServerPort : Nat := 1234
def judgeRespAck : BitVec 64 := 1
def judgeRespResult : BitVec 64 := 2

/-- `sizeof(judge_req_t)`. -/
def judgeReqSize : Nat := 24

structure JudgeResp where
  seq : BitVec 64
  flags : BitVec 64
  error : BitVec 64
  exitcode : BitVec 64
  timeUsage : BitVec 64
  memUsage : BitVec 64

/-! ## Messages -/

def JudgeResp.bytes (r : JudgeResp) : List Byte :=
  wordBytes [r.seq.toNat, r.flags.toNat, r.error.toNat, r.exitcode.toNat, r.timeUsage.toNat, r.memUsage.toNat]

/-- Word `i` of a message. -/
def messageWord (p : List Byte) (i : Nat) : BitVec 64 := BitVec.ofNat 64 (leNat ((p.drop (8 * i)).take 8))

theorem messageWord_wordBytes (ws : List (BitVec 64)) (i : Nat) :
    messageWord (wordBytes (ws.map BitVec.toNat)) i = ws.getD i 0 := by
  induction ws generalizing i with
  | nil => simp [messageWord, wordBytes, leNat]
  | cons w ws ih =>
    have hcons : wordBytes ((w :: ws).map BitVec.toNat) =
        leBytes 8 w.toNat ++ wordBytes (ws.map BitVec.toNat) := rfl
    rw [hcons]
    cases i with
    | zero =>
      have hlt : w.toNat < 256 ^ 8 := w.isLt
      rw [messageWord, Nat.mul_zero, List.drop_zero, List.take_left' (leBytes_length 8 _), leNat_leBytes,
        Nat.mod_eq_of_lt hlt, BitVec.ofNat_toNat, BitVec.setWidth_eq]
      rfl
    | succ i =>
      have hskip : (leBytes 8 w.toNat ++ wordBytes (ws.map BitVec.toNat)).drop (8 * (i + 1)) =
          (wordBytes (ws.map BitVec.toNat)).drop (8 * i) := by
        rw [show 8 * (i + 1) = 8 + 8 * i by omega, ← List.drop_drop, List.drop_left' (leBytes_length 8 _)]
      rw [messageWord, hskip]
      exact ih i

/-- What `do_judge` and its callers read in a request. -/
def loadJudgeReq (m : Mem) : JudgeReq := ⟨getLe m 0 8, getLe m 8 8, getLe m 16 8⟩

/-! ## A job -/

/-- A run in user mode: the job it was started for, the kernel at its start, and the state of the
trap handler at its end, with what the server has stored of its output when all of it was sent. -/
structure UserRun where
  req : JudgeReq
  elf : List Byte
  stdin : List Byte
  entry : UserEntry
  start : Kernel
  userStartTime : BitVec 64
  exit : TrapState
  stored : Option (List Byte)

namespace UserRun

def exitcode (r : UserRun) : Int := r.exit.userTask.exitcode

def timeUsage (r : UserRun) : BitVec 64 := r.exit.userEndTime - r.userStartTime

/-- The pages of the job in KiB. -/
def memUsage (r : UserRun) : BitVec 64 :=
  BitVec.ofNat 64 (countPt r.exit.kernel.mem (r.entry.pt.getD 0) (vmU ||| vmA)) <<< pgShift >>> 10

def aux (r : UserRun) : Nat := auxPtr r.entry.pt r.stdin.length r.start

def ctx (r : UserRun) : Ctx × Kernel := uploadCtx r.entry.pt r.aux (stdoutVa r.stdin.length) r.exit.kernel

/-- The output of the program: what it left in its buffer, up to `aux->stdout_len`. -/
def output (r : UserRun) : List (Option Byte) :=
  userBytes r.exit.kernel.mem (r.entry.pt.getD 0) (stdoutVa r.stdin.length) (stdoutLen r.aux r.exit.kernel)

end UserRun

/-- What a call of `do_judge` finds besides the files: the allocator as its calls have left it, the
memory, the transfers, and what the program does until the trap that ends it. -/
structure JobEnv (bssEnd : Nat) where
  mm : Mm
  reachable : mm.Reachable bssEnd
  mem : Mem
  judgeTftpBuff : Nat → Byte
  zerosLast : BitVec 64
  getElf : Transfer GetEvent
  getStdin : Transfer GetEvent
  userStartTime : BitVec 64
  userTask : UserTask
  userEndTime : BitVec 64
  events : List JobEvent
  cycle : BitVec 64
  tf : TrapFrame
  putStdout : Transfer PutEvent

structure JobResult where
  ret : Int
  run : Option UserRun

def elfName : List Byte := [0x65, 0x6c, 0x66]
def stdinName : List Byte := [0x73, 0x74, 0x64, 0x69, 0x6e]
def stdoutName : List Byte := [0x73, 0x74, 0x64, 0x6f, 0x75, 0x74]

def Download.bytes : Download → List Byte
  | .failed _ _ => []
  | .file bytes => bytes

section Job

variable {bssEnd : Nat}

/-- From `arch_call_user` to the return of `arch_return_from_user`; `none` while the program runs. -/
def callUser (env : JobEnv bssEnd) (u : UserEntry) (k : Kernel) : Option TrapState :=
  (runSteps (jobStep (u.pt.getD 0)) k env.events).bind fun k =>
    match trapHandler (setPt (u.pt.getD 0)) env.cycle env.tf ⟨k, env.userTask, env.userEndTime⟩ with
    | (.returnFromUser, s) => some s
    | _ => none

/-- The part of `do_judge` after the program returned. -/
def finishJudge (env : JobEnv bssEnd) (run : UserRun) : Option JobResult :=
  (env.putStdout.putFile stdoutName fun n => .ok (blockRead run.ctx n)).map fun (ret, stored) =>
    if ret < 0 then ⟨ret, some run⟩ else ⟨0, some { run with stored := some stored }⟩

/-- `do_judge` with a server that holds the two files. -/
def judgeJob (elfFile stdinFile : List Byte) (env : JobEnv bssEnd) (req : JudgeReq) : Option JobResult :=
  (env.getElf.getFile elfName elfFile).bind fun elf =>
    (env.getStdin.getFile stdinName stdinFile).bind fun stdin =>
      match doJudge req elf stdin env.zerosLast env.judgeTftpBuff ⟨env.mm, env.mem, []⟩ with
      | (.error ret, _) => some ⟨ret, none⟩
      | (.ok u, k) => (callUser env u k).bind fun exit =>
          finishJudge env ⟨req, elf.bytes, stdin.bytes, u, k, env.userStartTime, exit, none⟩

end Job

/-- The response after `do_judge`; its fields were zeroed before. -/
def JobResult.resp (r : JobResult) (seq : Nat) : JudgeResp where
  seq := BitVec.ofNat 64 seq
  flags := judgeRespAck ||| judgeRespResult
  error := BitVec.ofInt 64 r.ret
  exitcode := r.run.elim 0 fun u => BitVec.ofInt 64 u.exitcode
  timeUsage := r.run.elim 0 UserRun.timeUsage
  memUsage := r.run.elim 0 UserRun.memUsage

/-! ## The daemon -/

/-- A datagram on the network, with the address that it was sent to. -/
structure SentUdp extends UdpDispatch where
  daddr : Ipv6Addr
  deriving DecidableEq

/-- `judge_entry`: its request, and the sender of the request while a job is running. -/
structure JudgeDaemon where
  ip : Ipv6Addr
  req : Mem
  sender : Option (Ipv6Addr × Nat)

namespace JudgeDaemon

/-- `send_udp` of a response. -/
def respond (d : JudgeDaemon) (saddr : Ipv6Addr) (sport : Nat) (r : JudgeResp) : SentUdp :=
  ⟨⟨sport, d.ip, judgeServerPort, r.bytes⟩, saddr⟩

/-- From the return of `recv_udp`, with what it left in the variables, to its next call or to the
call of `do_judge`. -/
def request (d : JudgeDaemon) (ret : Nat) (req : Mem) (saddr : Ipv6Addr) (sport : Nat) :
    JudgeDaemon × List SentUdp :=
  let d := { d with req := req }
  if ret = 0 then (d, [])
  else if ret ≠ judgeReqSize then (d, [])
  else
    let resp : JudgeResp := ⟨BitVec.ofNat 64 (loadJudgeReq d.req).seq, judgeRespAck, 0, 0, 0, 0⟩
    ({ d with sender := some (saddr, sport) }, [d.respond saddr sport resp])

section Request

variable {d : JudgeDaemon} {ret : Nat} {req : Mem} {saddr : Ipv6Addr} {sport : Nat}

theorem request_of_eq (h : ret = judgeReqSize) : d.request ret req saddr sport =
    ({ d with req := req, sender := some (saddr, sport) },
      [d.respond saddr sport ⟨BitVec.ofNat 64 (loadJudgeReq req).seq, judgeRespAck, 0, 0, 0, 0⟩]) := by
  have hne : ret ≠ 0 := by
    rw [h]
    decide
  unfold request
  rw [if_neg hne, if_neg (not_not.mpr h)]
  rfl

theorem request_of_ne (h : ret ≠ judgeReqSize) :
    d.request ret req saddr sport = ({ d with req := req }, []) := by
  unfold request
  dsimp only
  rw [if_pos h, ite_self]

end Request

/-- A datagram for `recv_udp`. -/
def recv (d : JudgeDaemon) (p : UdpDispatch) : JudgeDaemon × List SentUdp :=
  let (ret, req) := recvInto d.req judgeReqSize (some p)
  d.request ret req p.saddr p.sport

/-- From the return of `do_judge` to the next call of `recv_udp`. -/
def finish (d : JudgeDaemon) (r : JobResult) : JudgeDaemon × List SentUdp :=
  ({ d with sender := none },
    d.sender.toList.map fun s => d.respond s.1 s.2 (r.resp (loadJudgeReq d.req).seq))

end JudgeDaemon

/-! ## The errors of a job -/

/-- Every error the code can return is negative. -/
def ErrorsNegative {α : Type} (x : KernelM α) : Prop := ∀ k e, (x k).1 = .error e → e < 0

/-- The code does not return early. -/
def Succeeds {α : Type} (x : KernelM α) (k : Kernel) : Prop := ∃ a, (x k).1 = .ok a

section Errors

variable {α β : Type}

namespace ErrorsNegative

theorem bind {x : KernelM α} {f : α → KernelM β} (hx : ErrorsNegative x) (hf : ∀ a, ErrorsNegative (f a)) :
    ErrorsNegative (x >>= f) := by
  intro k e h
  rw [kernelM_bind] at h
  cases hret : (x k).1 with
  | ok a =>
    rw [hret] at h
    exact hf a _ e h
  | error e' =>
    rw [hret] at h
    obtain rfl := Except.error.inj h
    exact hx k e' hret

theorem of_ok {x : KernelM α} (h : ∀ k, Succeeds x k) : ErrorsNegative x := by
  intro k e he
  obtain ⟨a, ha⟩ := h k
  rw [ha] at he
  cases he

theorem check (op : Kernel → Int × Kernel) : ErrorsNegative (check op) := by
  intro k e he
  unfold VijosOS.check at he
  rcases op k with ⟨ret, k'⟩
  dsimp only at he
  split_ifs at he with hneg
  obtain rfl := Except.error.inj he
  exact hneg

theorem checkOom (op : Kernel → Bool × Kernel) : ErrorsNegative (checkOom op) := by
  intro k e he
  rcases hop : op k with ⟨ok, k'⟩
  simp only [VijosOS.checkOom, hop] at he
  cases ok with
  | false =>
    obtain rfl := Except.error.inj he
    decide
  | true => cases he

theorem loadImage (pt : Option Nat) (elf : Nat → Byte) (len : Nat) : ErrorsNegative (loadImage pt elf len) := by
  intro k e he
  unfold VijosOS.loadImage at he
  dsimp only at he
  split_ifs at he with hneg
  obtain rfl := Except.error.inj he
  exact hneg

theorem get (d : Download) : ErrorsNegative d.get := by
  intro k e he
  cases d with
  | failed ret hneg =>
    obtain rfl := Except.error.inj he
    exact hneg
  | file bytes => cases he

end ErrorsNegative

theorem setupStack_succeeds (pt : Option Nat) (va : Nat) (aux stackWord : List Nat) (k : Kernel) :
    Succeeds (setupStack pt va aux stackWord) k := ⟨(), rfl⟩

theorem doJudge_errorsNegative (req : JudgeReq) (elf stdin : Download) (zerosLast : BitVec 64)
    (buff : Nat → Byte) : ErrorsNegative (doJudge req elf stdin zerosLast buff) := by
  unfold doJudge
  refine (ErrorsNegative.get elf).bind fun bytes => ?_
  refine (ErrorsNegative.of_ok fun k => ⟨_, rfl⟩).bind fun pt => ?_
  unfold buildUser
  refine (ErrorsNegative.loadImage _ _ _).bind fun entry => ?_
  refine (ErrorsNegative.check _).bind fun _ => ?_
  refine (ErrorsNegative.get stdin).bind fun input => ?_
  refine (ErrorsNegative.check _).bind fun _ => ?_
  refine (ErrorsNegative.checkOom _).bind fun _ => ?_
  refine (ErrorsNegative.checkOom _).bind fun _ => ?_
  refine (ErrorsNegative.checkOom _).bind fun _ => ?_
  refine (ErrorsNegative.of_ok (setupStack_succeeds _ _ _ _)).bind fun _ => ?_
  exact ErrorsNegative.of_ok fun k => ⟨_, rfl⟩

/-! ### Where a job does not fail -/

variable {k : Kernel} {f : α → KernelM β}

/-- Code that does not return early, with its value. -/
theorem succeeds_bind_of_ok {x : KernelM α} {a : α} (h : (x k).1 = .ok a) :
    Succeeds (x >>= f) k ↔ Succeeds (f a) (x k).2 := by
  unfold Succeeds
  rw [kernelM_bind, h]

theorem not_succeeds_bind {x : KernelM α} {e : Int} (h : (x k).1 = .error e) : ¬ Succeeds (x >>= f) k := by
  rintro ⟨b, hb⟩
  rw [kernelM_bind, h] at hb
  cases hb

theorem succeeds_check {op : Kernel → Int × Kernel} {f : Unit → KernelM β} :
    Succeeds (check op >>= f) k ↔ 0 ≤ (op k).1 ∧ Succeeds (f ()) (op k).2 := by
  by_cases hneg : (op k).1 < 0
  · have herror : check op k = (.error (op k).1, (op k).2) := if_pos hneg
    exact iff_of_false (not_succeeds_bind (congrArg Prod.fst herror)) fun h => Int.not_le.mpr hneg h.1
  · have hok : check op k = (.ok (), (op k).2) := if_neg hneg
    rw [succeeds_bind_of_ok (congrArg Prod.fst hok), hok]
    exact (and_iff_right (Int.not_lt.mp hneg)).symm

theorem succeeds_checkOom {op : Kernel → Bool × Kernel} {f : Unit → KernelM β} :
    Succeeds (checkOom op >>= f) k ↔ (op k).1 = true ∧ Succeeds (f ()) (op k).2 := by
  rcases hop : op k with ⟨ok, k'⟩
  cases ok with
  | false =>
    have herror : checkOom op k = (.error (-eOOM), k') := by rw [checkOom, hop]
    exact iff_of_false (not_succeeds_bind (congrArg Prod.fst herror)) fun h => Bool.false_ne_true h.1
  | true =>
    have hok : checkOom op k = (.ok (), k') := by rw [checkOom, hop]
    rw [succeeds_bind_of_ok (congrArg Prod.fst hok), hok]
    exact (and_iff_right rfl).symm

theorem succeeds_loadImage {pt : Option Nat} {elf : Nat → Byte} {len : Nat} {f : Nat → KernelM β} :
    Succeeds (loadImage pt elf len >>= f) k ↔ 0 ≤ (loadElf pt elf len k).ret ∧
      Succeeds (f ((loadElf pt elf len k).entry.getD 0)) (loadElf pt elf len k).kernel := by
  by_cases hneg : (loadElf pt elf len k).ret < 0
  · have herror : loadImage pt elf len k = (.error (loadElf pt elf len k).ret, (loadElf pt elf len k).kernel) :=
      if_pos hneg
    exact iff_of_false (not_succeeds_bind (congrArg Prod.fst herror)) fun h => Int.not_le.mpr hneg h.1
  · have hok : loadImage pt elf len k =
        (.ok ((loadElf pt elf len k).entry.getD 0), (loadElf pt elf len k).kernel) := if_neg hneg
    rw [succeeds_bind_of_ok (congrArg Prod.fst hok), hok]
    exact (and_iff_right (Int.not_lt.mp hneg)).symm

/-- `do_judge` takes none of its error branches after the downloads: `load_elf` accepts the image, and
there is memory for the header, the input, the output, the stack and the heap. -/
def SetsUp (elf stdin : List Byte) (judgeTftpBuff : Nat → Byte) (k : Kernel) : Prop :=
  let rw := vmU ||| vmR ||| vmW
  let image := writeBytes judgeTftpBuff 0 elf
  let pt := (createPt k).1
  let loaded := loadElf pt image elf.length (createPt k).2
  let header := mapAndCopy pt elfHeaderVa (vmU ||| vmR ||| vmA) image
    (if elf.length < pgSize then elf.length else pgSize) loaded.kernel
  let input := mapAndCopy pt (sub64 elfHeaderVa (pgAlign stdin.length)) (vmU ||| vmR ||| vmA)
    (writeBytes image 0 stdin) stdin.length header.2
  let outVa := sub64 (sub64 elfHeaderVa (pgAlign stdin.length)) stdoutLimit
  let output := mapRange pt rw outVa (wrap64 (outVa + stdoutLimit)) input.2
  let stack := mapRange pt rw (sub64 outVa stackSize) outVa output.2
  let heap := mapRange pt rw heapVa (wrap64 (heapVa + heapSize)) stack.2
  0 ≤ loaded.ret ∧ 0 ≤ header.1 ∧ 0 ≤ input.1 ∧ output.1 = true ∧ stack.1 = true ∧ heap.1 = true

theorem doJudge_succeeds_iff (req : JudgeReq) (elf stdin : List Byte) (zerosLast : BitVec 64)
    (buff : Nat → Byte) (k : Kernel) :
    Succeeds (doJudge req (.file elf) (.file stdin) zerosLast buff) k ↔ SetsUp elf stdin buff k := by
  have helf : (Download.get (.file elf) k).1 = .ok elf := rfl
  have hpt : (newPt k).1 = .ok (createPt k).1 := rfl
  have hstdin : ∀ k, (Download.get (.file stdin) k).1 = .ok stdin := fun _ => rfl
  have hstack : ∀ pt va aux words k, (setupStack pt va aux words k).1 = .ok () := fun _ _ _ _ _ => rfl
  have hlast : ∀ (u : UserEntry) k, Succeeds (pure u) k := fun u _ => ⟨u, rfl⟩
  have hsteps : Succeeds (doJudge req (.file elf) (.file stdin) zerosLast buff) k ↔
      Succeeds (buildUser req elf (.file stdin) zerosLast buff (createPt k).1) (createPt k).2 := by
    unfold doJudge
    exact (succeeds_bind_of_ok helf).trans (succeeds_bind_of_ok hpt)
  rw [hsteps, buildUser, succeeds_loadImage, succeeds_check, succeeds_bind_of_ok (hstdin _), succeeds_check,
    succeeds_checkOom, succeeds_checkOom, succeeds_checkOom, succeeds_bind_of_ok (hstack _ _ _ _ _)]
  simp only [hlast, and_true]
  rfl

/-- `do_judge` enters user mode only with both files. -/
theorem doJudge_files {req : JudgeReq} {elf stdin : Download} {zerosLast : BitVec 64} {buff : Nat → Byte}
    {k k' : Kernel} {u : UserEntry} (hrun : doJudge req elf stdin zerosLast buff k = (.ok u, k')) :
    elf = .file elf.bytes ∧ stdin = .file stdin.bytes := by
  obtain ⟨input, k₁, hget, hrest⟩ := kernelM_bind_ok hrun
  cases elf with
  | failed ret hneg => cases hget
  | file bytes =>
    refine ⟨rfl, ?_⟩
    obtain ⟨pt, k₂, _, hbuild⟩ := kernelM_bind_ok hrest
    obtain ⟨entry, k₃, _, hbuild⟩ := kernelM_bind_ok hbuild
    obtain ⟨_, k₄, _, hbuild⟩ := kernelM_bind_ok hbuild
    obtain ⟨bytes', k₅, hget', _⟩ := kernelM_bind_ok hbuild
    cases stdin with
    | failed ret hneg => cases hget'
    | file bytes => rfl

end Errors

/-! ## The result of a job -/

/-- `do_judge` entered user mode with the two files, and the trap handler ended the run. -/
def UserRun.Entered (bssEnd : Nat) (r : UserRun) : Prop :=
  ∃ env : JobEnv bssEnd, doJudge r.req (.file r.elf) (.file r.stdin) env.zerosLast env.judgeTftpBuff
      ⟨env.mm, env.mem, []⟩ = (.ok r.entry, r.start) ∧
    callUser env r.entry r.start = some r.exit

section Result

variable {bssEnd root : Nat} {env : JobEnv bssEnd}

/-- The run ends with a trap after which the handler does not go back to the program. -/
theorem callUser_return {u : UserEntry} {k : Kernel} {s : TrapState} (hcall : callUser env u k = some s) :
    ∃ k₁, runSteps (jobStep (u.pt.getD 0)) k env.events = some k₁ ∧
      trapHandler (setPt (u.pt.getD 0)) env.cycle env.tf ⟨k₁, env.userTask, env.userEndTime⟩ =
        (.returnFromUser, s) := by
  obtain ⟨k₁, hevents, htrap⟩ := Option.bind_eq_some_iff.mp hcall
  refine ⟨k₁, hevents, ?_⟩
  rcases hhandler : trapHandler (setPt (u.pt.getD 0)) env.cycle env.tf ⟨k₁, env.userTask, env.userEndTime⟩ with
    ⟨r, s₁⟩
  rw [hhandler] at htrap
  cases r with
  | returnFromUser =>
    obtain rfl := Option.some.inj htrap
    rfl
  | resume tf => cases htrap
  | kernelException => cases htrap
  | unhandledInterrupt => cases htrap

theorem callUser_steps {u : UserEntry} {k : Kernel} {s : TrapState} (hvm : VmInv k bssEnd [⟨root, 0⟩])
    (hpt : u.pt = some root) (hcall : callUser env u k = some s) : VmSteps [⟨root, 0⟩] k s.kernel := by
  have ht : (⟨root, 0⟩ : Table) ∈ [(⟨root, 0⟩ : Table)] := List.mem_singleton.mpr rfl
  obtain ⟨k₁, hevents, htrap⟩ := callUser_return hcall
  rw [hpt, Option.getD_some] at hevents htrap
  have hsteps := runJob_steps hvm hevents
  have hvm₁ := VmSteps.inv hsteps hvm
  obtain ⟨hsame | hfault, _⟩ := trapHandler_return htrap
  · rw [hsame]
    exact hsteps
  · rw [hfault]
    exact hsteps.trans (handlePageFault_steps hvm₁ ht (hvm₁.satp ht) rfl)

theorem callUser_exitcode {u : UserEntry} {k : Kernel} {s : TrapState} (hcall : callUser env u k = some s) :
    (BitVec.ofInt 64 s.userTask.exitcode).toInt = s.userTask.exitcode := by
  obtain ⟨k₁, _, htrap⟩ := callUser_return hcall
  obtain ⟨_, hlow, hhigh⟩ := trapHandler_return htrap
  exact BitVec.toInt_ofInt_eq_self (by decide) (by omega) (by omega)

/-- The upload reads the output of the program. -/
theorem UserRun.Entered.upload {r : UserRun} (h : r.Entered bssEnd) (hlen : r.stdin.length ≤ judgeTftpBuffSize) :
    UploadOk (r.entry.pt.getD 0) r.stdin.length (stdoutLen r.aux r.exit.kernel) r.exit.kernel r.ctx := by
  obtain ⟨env, hjudge, hcall⟩ := h
  obtain ⟨root, pg, hpt, hvm, hout, hptr, _⟩ := doJudge_output env.reachable hlen hjudge
  have hroot : Roots [⟨root, 0⟩] root := ⟨_, List.mem_singleton.mpr rfl, rfl⟩
  have hsteps := callUser_steps hvm hpt hcall
  rw [UserRun.ctx, UserRun.aux, hptr, hpt]
  exact (hout.steps hvm hroot hsteps).upload (VmSteps.inv hsteps hvm) hlen rfl

/-- A file that the server has stored whole is the output of the run. -/
def UserRun.StoredOutput (r : UserRun) : Prop := ∀ bytes, r.stored = some bytes → bytes.map some = r.output

/-- What a run says about the job it is for. -/
structure UserRun.For (bssEnd : Nat) (elf stdin : List Byte) (req : JudgeReq) (r : UserRun) : Prop where
  entered : r.Entered bssEnd
  req : r.req = req
  elf : r.elf = elf
  stdin : r.stdin = stdin
  output : r.StoredOutput

/-- The run of a job before its upload. -/
def JobEnv.userRun (env : JobEnv bssEnd) (req : JudgeReq) (elf stdin : List Byte) (u : UserEntry) (k : Kernel)
    (exit : TrapState) : UserRun := ⟨req, elf, stdin, u, k, env.userStartTime, exit, none⟩

/-- The upload of what a run has printed. -/
def JobEnv.upload (env : JobEnv bssEnd) (r : UserRun) : Option (Int × List Byte) :=
  env.putStdout.putFile stdoutName fun n => .ok (blockRead r.ctx n)

/-- No datagram of an earlier transfer reaches one of the job. -/
structure JobEnv.NoLate (env : JobEnv bssEnd) : Prop where
  getElf : env.getElf.NoLate
  getStdin : env.getStdin.NoLate
  putStdout : env.putStdout.NoLate

/-- `do_judge` takes none of its error branches: the downloads end with a file, nothing fails before user
mode, and the upload ends without an error. -/
def JobEnv.NoErrors (env : JobEnv bssEnd) (elfFile stdinFile : List Byte) (req : JudgeReq) : Prop :=
  ∃ elf stdin, env.getElf.getFile elfName elfFile = some (.file elf) ∧
    env.getStdin.getFile stdinName stdinFile = some (.file stdin) ∧
    SetsUp elf stdin env.judgeTftpBuff ⟨env.mm, env.mem, []⟩ ∧
    ∀ u k exit ret stored, doJudge req (.file elf) (.file stdin) env.zerosLast env.judgeTftpBuff
        ⟨env.mm, env.mem, []⟩ = (.ok u, k) → callUser env u k = some exit →
      env.upload (env.userRun req elf stdin u k exit) = some (ret, stored) → 0 ≤ ret

section Cases

variable {elfFile stdinFile : List Byte} {req : JudgeReq} {res : JobResult}

/-- A job ends before user mode, or after the upload. -/
theorem judgeJob_cases (hjob : judgeJob elfFile stdinFile env req = some res) :
    (∃ elf stdin ret k, env.getElf.getFile elfName elfFile = some elf ∧
      env.getStdin.getFile stdinName stdinFile = some stdin ∧
      doJudge req elf stdin env.zerosLast env.judgeTftpBuff ⟨env.mm, env.mem, []⟩ = (.error ret, k) ∧
      res = ⟨ret, none⟩) ∨
    ∃ elf stdin u k exit ret stored, env.getElf.getFile elfName elfFile = some (.file elf) ∧
      env.getStdin.getFile stdinName stdinFile = some (.file stdin) ∧
      doJudge req (.file elf) (.file stdin) env.zerosLast env.judgeTftpBuff ⟨env.mm, env.mem, []⟩ = (.ok u, k) ∧
      callUser env u k = some exit ∧ env.upload (env.userRun req elf stdin u k exit) = some (ret, stored) ∧
      (ret < 0 ∧ res = ⟨ret, some (env.userRun req elf stdin u k exit)⟩ ∨
        0 ≤ ret ∧ res = ⟨0, some { env.userRun req elf stdin u k exit with stored := some stored }⟩) := by
  obtain ⟨elf, hgetElf, hjob⟩ := Option.bind_eq_some_iff.mp hjob
  obtain ⟨stdin, hgetStdin, hjob⟩ := Option.bind_eq_some_iff.mp hjob
  rcases hjudge : doJudge req elf stdin env.zerosLast env.judgeTftpBuff ⟨env.mm, env.mem, []⟩ with ⟨x, k⟩
  rw [hjudge] at hjob
  cases x with
  | error ret =>
    obtain rfl := Option.some.inj hjob
    exact .inl ⟨elf, stdin, ret, k, hgetElf, hgetStdin, hjudge, rfl⟩
  | ok u =>
    obtain ⟨helf, hstdin⟩ := doJudge_files hjudge
    obtain ⟨exit, hcall, hfinish⟩ := Option.bind_eq_some_iff.mp hjob
    obtain ⟨⟨ret, stored⟩, hput, hres⟩ := Option.map_eq_some_iff.mp hfinish
    rw [helf] at hgetElf hjudge
    rw [hstdin] at hgetStdin hjudge
    refine .inr ⟨elf.bytes, stdin.bytes, u, k, exit, ret, stored, hgetElf, hgetStdin, hjudge, hcall, hput, ?_⟩
    dsimp only at hres
    split_ifs at hres with hneg
    · exact .inl ⟨hneg, hres.symm⟩
    · exact .inr ⟨Int.not_lt.mp hneg, hres.symm⟩

/-- A job returns 0 when it takes none of the error branches, and only then. -/
theorem judgeJob_ret_iff (hjob : judgeJob elfFile stdinFile env req = some res) :
    res.ret = 0 ↔ env.NoErrors elfFile stdinFile req := by
  obtain ⟨elf, stdin, ret, k, helf, hstdin, hjudge, rfl⟩ |
    ⟨elf, stdin, u, k, exit, ret, stored, helf, hstdin, hjudge, hcall, hput, hres⟩ := judgeJob_cases hjob
  · have hneg := doJudge_errorsNegative req elf stdin env.zerosLast env.judgeTftpBuff _ ret
      (congrArg Prod.fst hjudge)
    refine iff_of_false (Int.ne_of_lt hneg) ?_
    rintro ⟨elf', stdin', helf', hstdin', hsets, -⟩
    obtain rfl := Option.some.inj (helf.symm.trans helf')
    obtain rfl := Option.some.inj (hstdin.symm.trans hstdin')
    obtain ⟨u, hu⟩ := (doJudge_succeeds_iff req elf' stdin' env.zerosLast env.judgeTftpBuff _).mpr hsets
    rw [hjudge] at hu
    cases hu
  · obtain ⟨hneg, rfl⟩ | ⟨hnonneg, rfl⟩ := hres
    · refine iff_of_false (Int.ne_of_lt hneg) ?_
      rintro ⟨elf', stdin', helf', hstdin', -, hupload⟩
      obtain rfl := Download.file.inj (Option.some.inj (helf.symm.trans helf'))
      obtain rfl := Download.file.inj (Option.some.inj (hstdin.symm.trans hstdin'))
      exact absurd (hupload u k exit ret stored hjudge hcall hput) (Int.not_le.mpr hneg)
    · refine iff_of_true rfl ⟨elf, stdin, helf, hstdin, ?_, ?_⟩
      · exact (doJudge_succeeds_iff req elf stdin env.zerosLast env.judgeTftpBuff _).mp
          ⟨u, congrArg Prod.fst hjudge⟩
      · intro u' k' exit' ret' stored' hjudge' hcall' hput'
        obtain ⟨hu, rfl⟩ := Prod.mk.inj (hjudge.symm.trans hjudge')
        obtain rfl := Except.ok.inj hu
        obtain rfl := Option.some.inj (hcall.symm.trans hcall')
        obtain ⟨rfl, -⟩ := Prod.mk.inj (Option.some.inj (hput.symm.trans hput'))
        exact hnonneg

theorem judgeJob_stored (hjob : judgeJob elfFile stdinFile env req = some res) (hret : res.ret = 0) :
    ∃ r stored, res.run = some r ∧ r.stored = some stored := by
  obtain ⟨elf, stdin, ret, k, -, -, hjudge, rfl⟩ | ⟨elf, stdin, u, k, exit, ret, stored, -, -, -, -, -, hres⟩ :=
    judgeJob_cases hjob
  · have hneg := doJudge_errorsNegative req elf stdin env.zerosLast env.judgeTftpBuff _ ret
      (congrArg Prod.fst hjudge)
    exact absurd hret (Int.ne_of_lt hneg)
  · obtain ⟨hneg, rfl⟩ | ⟨-, rfl⟩ := hres
    · exact absurd hret (Int.ne_of_lt hneg)
    · exact ⟨_, stored, rfl, rfl⟩

/-- A file that the upload leaves is what the program has printed. -/
theorem UserRun.Entered.uploaded {r : UserRun} {stored : List Byte} (h : r.Entered bssEnd)
    (hlen : r.stdin.length ≤ judgeTftpBuffSize) (hlate : env.putStdout.NoLate)
    (hput : env.upload r = some (0, stored)) : stored.map some = r.output := by
  have hup := h.upload hlen
  have hfew : stdoutLen r.aux r.exit.kernel ≤ stdoutLimit := Nat.min_le_right _ _
  have hlast := hup.last
  have hreturns : ReadBlock.Returns (fun n => .ok (blockRead r.ctx n)) (blockRead r.ctx)
      (stdoutLen r.aux r.exit.kernel / 512) := by
    unfold stdoutLimit at hfew
    exact ⟨fun _ _ => rfl, hup.full, by omega, by omega⟩
  rw [Transfer.putFile_stored hreturns hlate hput]
  exact hup.bytes

/-- The run of a job without late datagrams has the files of the server, and its output is stored. -/
theorem judgeJob_run (helf : elfFile.length ≤ judgeTftpBuffSize) (hstdin : stdinFile.length ≤ judgeTftpBuffSize)
    (hlate : env.NoLate) (hjob : judgeJob elfFile stdinFile env req = some res) :
    ∀ r ∈ res.run, r.For bssEnd elfFile stdinFile req := by
  unfold judgeTftpBuffSize at helf
  have hfits : stdinFile.length ≤ 512 * 65534 := by
    unfold judgeTftpBuffSize at hstdin
    omega
  obtain ⟨elf, stdin, ret, k, -, -, -, rfl⟩ |
    ⟨elf, stdin, u, k, exit, ret, stored, hgetElf, hgetStdin, hjudge, hcall, hput, hres⟩ := judgeJob_cases hjob
  · nofun
  obtain rfl := Transfer.getFile_file (by omega) hlate.getElf hgetElf
  obtain rfl := Transfer.getFile_file hfits hlate.getStdin hgetStdin
  have hentered : (env.userRun req elf stdin u k exit).Entered bssEnd := ⟨env, hjudge, hcall⟩
  intro r hr
  obtain ⟨-, rfl⟩ | ⟨hnonneg, rfl⟩ := hres
  · obtain rfl := Option.some.inj hr
    exact ⟨hentered, rfl, rfl, rfl, nofun⟩
  · obtain rfl := Option.some.inj hr
    obtain ⟨_, hle⟩ := Transfer.putFile_retCode (fun n => ⟨_, rfl⟩) hput
    obtain rfl : ret = 0 := Int.le_antisymm hle hnonneg
    refine ⟨hentered, rfl, rfl, rfl, fun bytes hbytes => ?_⟩
    obtain rfl := Option.some.inj hbytes
    exact hentered.uploaded hstdin hlate.putStdout hput

end Cases

theorem judgeJob_of_ok {elfFile stdinFile elf stdin : List Byte} {req : JudgeReq} {u : UserEntry} {k : Kernel}
    {exit : TrapState} (helf : env.getElf.getFile elfName elfFile = some (.file elf))
    (hstdin : env.getStdin.getFile stdinName stdinFile = some (.file stdin))
    (hjudge : doJudge req (.file elf) (.file stdin) env.zerosLast env.judgeTftpBuff ⟨env.mm, env.mem, []⟩ =
      (.ok u, k)) (hcall : callUser env u k = some exit) :
    judgeJob elfFile stdinFile env req =
      finishJudge env ⟨req, elf, stdin, u, k, env.userStartTime, exit, none⟩ := by
  rw [judgeJob, helf, hstdin, Option.bind_some, Option.bind_some, hjudge]
  dsimp only
  rw [hcall]
  rfl

theorem judgeJob_of_error {elfFile stdinFile : List Byte} {req : JudgeReq} {elf stdin : Download} {ret : Int}
    (helf : env.getElf.getFile elfName elfFile = some elf)
    (hstdin : env.getStdin.getFile stdinName stdinFile = some stdin)
    (hjudge : (doJudge req elf stdin env.zerosLast env.judgeTftpBuff ⟨env.mm, env.mem, []⟩).1 = .error ret) :
    judgeJob elfFile stdinFile env req = some ⟨ret, none⟩ := by
  rw [judgeJob, helf, hstdin, Option.bind_some, Option.bind_some]
  rcases hrun : doJudge req elf stdin env.zerosLast env.judgeTftpBuff ⟨env.mm, env.mem, []⟩ with ⟨x, k⟩
  rw [hrun] at hjudge
  obtain rfl : x = .error ret := hjudge
  rfl

end Result

end VijosOS
