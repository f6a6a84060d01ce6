import VijosOS.Judge.Attempt

/-!
# Verdicts

A result of the client that is not `None` belongs to a run of the daemon, unless the job it is about
fails or is reached by a datagram of an earlier transfer, or the file is written again before it is read.
-/

namespace VijosOS

open Library

/-- The result of the client is that of a run in user mode: for the submitted files and the accepted
number, with the file that was uploaded after it. -/
structure UserRun.Reported (bssEnd : Nat) (call : JudgeCall) (seq : BitVec 64) (r : UserRun) (v : Verdict) :
    Prop where
  entered : r.Entered bssEnd
  elf : r.elf = call.elf
  stdin : r.stdin = call.stdin
  seq : r.req.seq = seq.toNat
  exitcode : v.exitcode = r.exitcode
  timeUsage : v.timeUsage = r.timeUsage.toNat
  memUsage : v.memUsage = r.memUsage.toNat
  stored : r.stored = some v.stdout
  output : v.stdout.map some = r.output

/-! ## Messages of the daemon -/

namespace JudgeDaemon

theorem recv_isResult {d : JudgeDaemon} {p : UdpDispatch} {m : SentUdp} (hm : m ∈ (d.recv p).2) (seq : BitVec 64) :
    isResult seq (m.payload.take 48) = false := by
  unfold recv at hm
  rcases recvInto d.req judgeReqSize (some p) with ⟨ret, req⟩
  unfold request at hm
  dsimp only at hm
  split_ifs at hm
  · cases hm
  · cases hm
  · obtain rfl := List.mem_singleton.mp hm
    exact isResult_ack seq rfl

theorem finish_resp {d : JudgeDaemon} {r : JobResult} {m : SentUdp} (hm : m ∈ (d.finish r).2) :
    m.payload.take 48 = (r.resp (loadJudgeReq d.req).seq).bytes := by
  obtain ⟨s, _, rfl⟩ := List.mem_map.mp hm
  exact List.take_of_length_le (Nat.le_of_eq (JudgeResp.bytes_length _))

end JudgeDaemon

/-- The response is that to a job that ended without an error. -/
def UserRun.Answers (r : UserRun) (resp : JudgeResp) : Prop := resp = JobResult.resp ⟨0, some r⟩ r.req.seq

namespace JudgeSystem

/-! ## The invariant -/

/-- Nothing has been sent. -/
structure Quiet (s : JudgeSystem) : Prop where
  waiting : s.daemon.sender = none
  toDaemon : s.toDaemon = []
  toClient : s.toClient = []

/-- The submitted files are in the directory. -/
structure Files (call : JudgeCall) (s : JudgeSystem) : Prop where
  elf : s.elf = call.elf
  stdin : s.stdin = call.stdin

/-- The response is that of a run for the submitted files whose output is in the file. -/
structure Current (bssEnd : Nat) (call : JudgeCall) (s : JudgeSystem) (resp : JudgeResp) (r : UserRun) : Prop where
  mem : r ∈ s.runs
  answers : r.Answers resp
  stored : r.stored = s.stdout
  job : r.For bssEnd call.elf call.stdin r.req
  seq : r.req.seq < 2 ^ 64

/-- A result for the attempt is current. -/
def ResultOk (bssEnd : Nat) (call : JudgeCall) (s : JudgeSystem) : Prop :=
  ∀ d ∈ s.toClient, isResult s.client.seq (d.payload.take 48) = true →
    ∃ r, s.Current bssEnd call (unpackResp (d.payload.take 48)) r

def Inv (bssEnd : Nat) (call : JudgeCall) (s : JudgeSystem) : Prop :=
  match s.client.point with
  | .copyElf => s.Quiet
  | .copyStdin => s.Quiet ∧ s.elf = call.elf
  | .attempt => s.Files call
  | .waitAck | .waitResp => s.Files call ∧ s.ResultOk bssEnd call
  | .readStdout resp => s.Files call ∧ resp.seq = s.client.seq ∧ ∃ r, s.Current bssEnd call resp r
  | .returned verdict => s.Files call ∧
      ∀ v, verdict = some v → ∃ r ∈ s.runs, r.Reported bssEnd call s.client.seq v

section Steps

variable {bssEnd : Nat} {call : JudgeCall} {s s' : JudgeSystem}

theorem Start.inv (h : s.Start) : s.Inv bssEnd call := by
  rw [Inv, h.point]
  exact ⟨h.waiting, h.toDaemon, h.toClient⟩

/-- An attempt for which no result was sent. -/
theorem ResultOk.of_unanswered (h : ¬ s.Answered s.client.seq) : s.ResultOk bssEnd call :=
  fun d hd hresult => absurd ⟨d, hd, hresult⟩ h

theorem copyElf_inv (h : s.Inv bssEnd call) (hstep : step bssEnd call s .copyElf = some s') :
    s'.Inv bssEnd call := by
  unfold Inv at h
  simp only [step] at hstep
  split at hstep
  · next hcopy =>
    obtain rfl := Option.some.inj hstep
    rw [hcopy] at h
    exact ⟨⟨h.waiting, h.toDaemon, h.toClient⟩, rfl⟩
  · cases hstep

theorem copyStdin_inv (h : s.Inv bssEnd call) (hstep : step bssEnd call s .copyStdin = some s') :
    s'.Inv bssEnd call := by
  unfold Inv at h
  simp only [step] at hstep
  split at hstep
  · next hcopy =>
    obtain rfl := Option.some.inj hstep
    rw [hcopy] at h
    exact ⟨h.2, rfl⟩
  · cases hstep

theorem send_inv (h : s.Inv bssEnd call) {seq : BitVec 64} (hnew : ¬ s.Answered seq)
    (hstep : step bssEnd call s (.send seq) = some s') : s'.Inv bssEnd call := by
  obtain ⟨⟨c, d⟩, hsend, rfl⟩ := Option.map_eq_some_iff.mp hstep
  obtain ⟨hattempt, rfl, _⟩ := JudgeClient.send_cases hsend
  rw [Inv, hattempt] at h
  exact ⟨⟨h.elf, h.stdin⟩, ResultOk.of_unanswered hnew⟩

theorem clientRecv_inv (h : s.Inv bssEnd call) {d : SentUdp}
    (hstep : step bssEnd call s (.clientRecv d) = some s') : s'.Inv bssEnd call := by
  simp only [step] at hstep
  split_ifs at hstep with hd
  obtain rfl := Option.some.inj hstep
  rcases s.client.recv_cases d.payload with hsame | ⟨hwait, hrecv⟩ | ⟨hwait, hresult, hrecv⟩
  · rw [hsame]
    exact h
  · rw [Inv, hwait] at h
    obtain ⟨hfiles, hres⟩ := h
    rw [hrecv]
    refine ⟨⟨hfiles.elf, hfiles.stdin⟩, fun m hm hresult => ?_⟩
    obtain ⟨r, hr⟩ := hres m hm hresult
    exact ⟨r, hr.mem, hr.answers, hr.stored, hr.job, hr.seq⟩
  · rw [Inv, hwait] at h
    obtain ⟨hfiles, hres⟩ := h
    have hseq : (unpackResp (d.payload.take 48)).seq = s.client.seq := by
      unfold isResult at hresult
      simp only [Bool.and_eq_true, beq_iff_eq] at hresult
      exact hresult.1.1.2
    obtain ⟨r, hr⟩ := hres d hd hresult
    rw [hrecv]
    exact ⟨⟨hfiles.elf, hfiles.stdin⟩, hseq, r, hr.mem, hr.answers, hr.stored, hr.job, hr.seq⟩

theorem Inv.files (h : s.Inv bssEnd call) (hquiet : ¬ s.Quiet) : s.Files call := by
  unfold Inv at h
  split at h
  · exact absurd h hquiet
  · exact absurd h.1 hquiet
  · exact h
  · exact h.1
  · exact h.1
  · exact h.1
  · exact h.1

theorem clientTimeout_inv (h : s.Inv bssEnd call)
    (hstep : step bssEnd call s .clientTimeout = some s') : s'.Inv bssEnd call := by
  obtain ⟨c, htimeout, rfl⟩ := Option.map_eq_some_iff.mp hstep
  obtain ⟨hwait, rfl⟩ := JudgeClient.timeout_cases htimeout
  have hfiles : s.Files call := by
    unfold Inv at h
    rcases hwait with hwait | hwait
    · rw [hwait] at h
      exact h.1
    · rw [hwait] at h
      exact h.1
  unfold Inv JudgeClient.retry
  dsimp only
  split_ifs
  · exact ⟨hfiles.elf, hfiles.stdin⟩
  · exact ⟨⟨hfiles.elf, hfiles.stdin⟩, nofun⟩

theorem readStdout_inv (h : s.Inv bssEnd call)
    (hstep : step bssEnd call s .readStdout = some s') : s'.Inv bssEnd call := by
  obtain ⟨stdout, hstdout, hstep⟩ := Option.bind_eq_some_iff.mp hstep
  obtain ⟨c, hread, rfl⟩ := Option.map_eq_some_iff.mp hstep
  obtain ⟨resp, hresp, rfl⟩ := JudgeClient.readStdout_cases hread
  rw [Inv, hresp] at h
  obtain ⟨hfiles, hseq, r, hr⟩ := h
  refine ⟨⟨hfiles.elf, hfiles.stdin⟩, fun v hv => ⟨r, hr.mem, ?_⟩⟩
  obtain rfl := Option.some.inj hv
  rw [hr.answers] at hseq ⊢
  have hstored : r.stored = some stdout := hr.stored.trans hstdout
  obtain ⟨env, _, hcall⟩ := hr.job.entered
  refine ⟨hr.job.entered, hr.job.elf, hr.job.stdin, ?_, ?_, rfl, rfl, hstored, hr.job.output stdout hstored⟩
  · rw [← hseq]
    exact (Nat.mod_eq_of_lt hr.seq).symm
  · exact callUser_exitcode hcall

theorem not_answered (hsettled : ¬ s.Settled) (hwait : s.client.point = .waitAck ∨ s.client.point = .waitResp) :
    ¬ s.Answered s.client.seq := by
  unfold Settled at hsettled
  rcases hwait with hwait | hwait
  · rw [hwait] at hsettled
    exact hsettled
  · rw [hwait] at hsettled
    exact hsettled

/-- What the daemon and the server do leaves the client alone. -/
theorem Inv.keep (h : s.Inv bssEnd call) (hclient : s'.client = s.client) (helf : s'.elf = s.elf)
    (hstdin : s'.stdin = s.stdin) (hruns : ∀ r ∈ s.runs, r ∈ s'.runs) (hquiet : s.Quiet → s'.Quiet)
    (hres : s.client.point = .waitAck ∨ s.client.point = .waitResp → s.ResultOk bssEnd call →
      s'.ResultOk bssEnd call)
    (hread : ∀ resp, s.client.point = .readStdout resp → s'.stdout = s.stdout) : s'.Inv bssEnd call := by
  have hfiles : s.Files call → s'.Files call := fun hf => ⟨helf.trans hf.elf, hstdin.trans hf.stdin⟩
  unfold Inv at h ⊢
  rw [hclient]
  cases hp : s.client.point with
  | copyElf =>
    rw [hp] at h
    exact hquiet h
  | copyStdin =>
    rw [hp] at h
    exact ⟨hquiet h.1, helf.trans h.2⟩
  | attempt =>
    rw [hp] at h
    exact hfiles h
  | waitAck =>
    rw [hp] at h
    exact ⟨hfiles h.1, hres (.inl hp) h.2⟩
  | waitResp =>
    rw [hp] at h
    exact ⟨hfiles h.1, hres (.inr hp) h.2⟩
  | readStdout resp =>
    rw [hp] at h
    obtain ⟨hf, hseq, r, hr⟩ := h
    exact ⟨hfiles hf, hseq, r, hruns r hr.mem, hr.answers, hr.stored.trans (hread resp hp).symm, hr.job, hr.seq⟩
  | returned verdict =>
    rw [hp] at h
    refine ⟨hfiles h.1, fun v hv => ?_⟩
    obtain ⟨r, hr, hreported⟩ := h.2 v hv
    exact ⟨r, hruns r hr, hreported⟩

theorem daemonRecv_inv (h : s.Inv bssEnd call) {d : UdpDispatch}
    (hstep : step bssEnd call s (.daemonRecv d) = some s') : s'.Inv bssEnd call := by
  simp only [step] at hstep
  split_ifs at hstep with hd
  obtain rfl := Option.some.inj hstep
  refine h.keep rfl rfl rfl (fun r hr => hr) ?_ ?_ fun _ _ => rfl
  · intro hquiet
    rw [hquiet.toDaemon] at hd
    exact absurd hd.1 List.not_mem_nil
  · -- the daemon only acknowledges
    intro _ hres m hm hresult
    rcases List.mem_append.mp hm with hm | hm
    · obtain ⟨r, hr⟩ := hres m hm hresult
      exact ⟨r, hr.mem, hr.answers, hr.stored, hr.job, hr.seq⟩
    · rw [JudgeDaemon.recv_isResult hm] at hresult
      cases hresult

theorem not_settled_read (hsettled : ¬ s.Settled) (resp : JudgeResp) : s.client.point ≠ .readStdout resp := by
  intro hread
  rw [Settled, hread] at hsettled
  exact hsettled trivial

theorem serverWrites_inv (h : s.Inv bssEnd call) {bytes : Option (List Byte)} (hok : ¬ s.Settled)
    (hstep : step bssEnd call s (.serverWrites bytes) = some s') : s'.Inv bssEnd call := by
  obtain rfl := Option.some.inj hstep
  refine h.keep rfl rfl rfl (fun r hr => hr) ?_ ?_ ?_
  · exact fun hquiet => ⟨hquiet.waiting, hquiet.toDaemon, hquiet.toClient⟩
  · exact fun hwait _ => ResultOk.of_unanswered (not_answered hok hwait)
  · exact fun resp hread => absurd hread (not_settled_read hok resp)

/-- A job whose result the client would take is for the number it waits for. -/
theorem awaits_of_finish {res : JobResult} {m : SentUdp}
    (hwait : s.client.point = .waitAck ∨ s.client.point = .waitResp) (hm : m ∈ (s.daemon.finish res).2)
    (hresult : isResult s.client.seq (m.payload.take 48) = true) : s.Awaits (loadJudgeReq s.daemon.req).seq := by
  obtain ⟨sender, -, rfl⟩ := List.mem_map.mp hm
  have hseq : s.client.seq = BitVec.ofNat 64 (loadJudgeReq s.daemon.req).seq :=
    ((isResult_bytes _ _).mp hresult).1.symm
  unfold Awaits
  obtain hwait | hwait := hwait
  · rw [hwait]
    exact hseq
  · rw [hwait]
    exact hseq

theorem doJudge_inv (helf : call.elf.length ≤ judgeTftpBuffSize) (hstdin : call.stdin.length ≤ judgeTftpBuffSize)
    (h : s.Inv bssEnd call) {env : JobEnv bssEnd} (hok : s.Undisturbed (.doJudge env))
    (hstep : step bssEnd call s (.doJudge env) = some s') : s'.Inv bssEnd call := by
  obtain ⟨hsettled, hgood⟩ := hok
  simp only [step] at hstep
  split_ifs at hstep with hidle
  obtain ⟨res, hjob, rfl⟩ := Option.map_eq_some_iff.mp hstep
  have hquiet : ¬ s.Quiet := fun hq => hidle hq.waiting
  have hfiles := h.files hquiet
  refine h.keep rfl rfl rfl ?_ ?_ ?_ ?_
  · exact fun r hr => List.mem_append.mpr (.inl hr)
  · exact fun hq => absurd hq hquiet
  · intro hwait _ m hm hresult
    have hnone := not_answered hsettled hwait
    rcases List.mem_append.mp hm with hm | hm
    · exact absurd ⟨m, hm, hresult⟩ hnone
    · obtain ⟨hlate, herrors⟩ := hgood (awaits_of_finish hwait hm hresult)
      have hret := (judgeJob_ret_iff hjob).mpr herrors
      obtain ⟨r, stored, hr, hstored⟩ := judgeJob_stored hjob hret
      rw [hfiles.elf, hfiles.stdin] at hjob
      have hfor := judgeJob_run helf hstdin hlate hjob r hr
      refine ⟨r, List.mem_append.mpr (.inr (Option.mem_toList.mpr hr)), ?_, ?_, hfor.req ▸ hfor, ?_⟩
      · rw [JudgeDaemon.finish_resp hm, unpackResp_bytes, UserRun.Answers, hfor.req, ← hret, ← hr]
      · show r.stored = (res.run.bind UserRun.stored).or s.stdout
        rw [hr, Option.bind_some, hstored]
        rfl
      · rw [hfor.req]
        exact getLe_lt s.daemon.req 0 8
  · exact fun resp hread => absurd hread (not_settled_read hsettled resp)

theorem step_inv (helf : call.elf.length ≤ judgeTftpBuffSize) (hstdin : call.stdin.length ≤ judgeTftpBuffSize)
    (s : JudgeSystem) (l : JudgeLabel bssEnd) (s' : JudgeSystem) (h : s.Inv bssEnd call) (hok : s.Undisturbed l)
    (hstep : step bssEnd call s l = some s') : s'.Inv bssEnd call := by
  cases l with
  | copyElf => exact copyElf_inv h hstep
  | copyStdin => exact copyStdin_inv h hstep
  | send seq => exact send_inv h hok hstep
  | clientRecv d => exact clientRecv_inv h hstep
  | clientTimeout => exact clientTimeout_inv h hstep
  | readStdout => exact readStdout_inv h hstep
  | daemonRecv d => exact daemonRecv_inv h hstep
  | doJudge env => exact doJudge_inv helf hstdin h hok hstep
  | serverWrites bytes => exact serverWrites_inv h hok hstep

end Steps

/-! ## Every run -/

deriving instance DecidableEq for Download

/-- A file of less than a block is requested, sent and received once. -/
def smallGet (filename file : List Byte) : Transfer GetEvent :=
  let clientIp := ipv4Compatible 0x0201a8c0
  let start := tftpGetFile clientIp GetSystem.smallPort filename (fun _ => 0) (fun _ => 0) fun _ => 0
  let request : UdpDispatch := (start.2.head?).getD ⟨0, ipv6Unspecified, 0, []⟩
  ⟨clientIp, GetSystem.smallPort, fun _ => 0, fun _ => 0, fun _ => 0,
    [.openSession request 4000, .sendData 4000, .deliver (dataDatagram file GetSystem.smallPort 4000 1)].map .own⟩

/-- An empty file is announced, sent and acknowledged once. -/
def smallPut : Transfer PutEvent :=
  let clientIp := ipv4Compatible 0x0201a8c0
  let start := tftpPutFile clientIp GetSystem.smallPort stdoutName (fun _ => 0) (fun _ => 0) fun _ => 0
  let request : UdpDispatch := (start.2.head?).getD ⟨0, ipv6Unspecified, 0, []⟩
  let ack (k : Nat) : UdpDispatch := ⟨GetSystem.smallPort, tftpServerIp, 4000, tftpPacket tftpOpAck k []⟩
  let data : UdpDispatch := ⟨4000, clientIp, GetSystem.smallPort, tftpPacket tftpOpData 1 []⟩
  ⟨clientIp, GetSystem.smallPort, fun _ => 0, fun _ => 0, fun _ => 0,
    [.openSession request 4000, .sendAck 4000 0, .deliver (ack 0), .recvData data, .sendAck 4000 1,
      .deliver (ack 1)].map .own⟩

/-- The program exits at once with code 3, after 250 cycles. -/
def smallEnv {mm : Mm} (hmm : mm.Reachable 0x40800) (elf : List Byte) : JobEnv 0x40800 where
  mm := mm
  reachable := hmm
  mem := fun _ => 0
  judgeTftpBuff := fun _ => 0
  zerosLast := 0
  getElf := smallGet elfName elf
  getStdin := smallGet stdinName []
  userStartTime := 100
  userTask := ⟨0, 0, 0, 0⟩
  userEndTime := 0
  events := []
  cycle := 0
  tf := ⟨fun r => if r = 10 then 3 else 0, 0, 0, 0, causeEcallU, 350⟩
  putStdout := smallPut

def smallImage : List Byte := bytesAt smallElf 0 120

theorem smallEnv_callUser {mm : Mm} (hmm : mm.Reachable 0x40800) (elf : List Byte) (u : UserEntry) (k : Kernel) :
    callUser (smallEnv hmm elf) u k = some ⟨k, ⟨3, 0, 0, 0⟩, 350⟩ := by
  have hexit : ∀ satp, trapHandler satp 0 (smallEnv hmm elf).tf ⟨k, ⟨0, 0, 0, 0⟩, 0⟩ =
      (.returnFromUser, ⟨k, ⟨3, 0, 0, 0⟩, 350⟩) :=
    fun _ => trapHandler_exit rfl (by decide : (0 : BitVec 64) &&& mstatusMPP = 0)
  unfold callUser
  simp only [smallEnv, runSteps, Option.bind_some] at hexit ⊢
  rw [hexit]

/-- The program of the small image runs and leaves no output. -/
theorem smallJob {mm : Mm} (hmm : mm.Reachable 0x40800) {u : UserEntry} {k : Kernel}
    (hrun : doJudge ⟨1, 1000, 0⟩ (.file smallImage) (.file []) 0 (fun _ => 0) ⟨mm, fun _ => 0, []⟩ = (.ok u, k)) :
    ∃ r : UserRun, judgeJob smallImage [] (smallEnv hmm smallImage) ⟨1, 1000, 0⟩ = some ⟨0, some r⟩ ∧
      r.exitcode = 3 ∧ r.timeUsage = 250 ∧ r.stored = some [] := by
  obtain ⟨_, _, _, _, _, _, haux⟩ := doJudge_output hmm (by decide : [].length ≤ judgeTftpBuffSize) hrun
  have helf : (smallGet elfName smallImage).getFile elfName smallImage = some (.file smallImage) := by
    decide +kernel
  have hstdin : (smallGet stdinName []).getFile stdinName [] = some (.file []) := by
    decide +kernel
  have hput : smallPut.putFile stdoutName (fun _ => .ok []) = some (0, []) := by
    decide +kernel
  have hjob : judgeJob smallImage [] (smallEnv hmm smallImage) ⟨1, 1000, 0⟩ =
      finishJudge (smallEnv hmm smallImage) ⟨⟨1, 1000, 0⟩, smallImage, [], u, k, 100, ⟨k, ⟨3, 0, 0, 0⟩, 350⟩, none⟩ :=
    judgeJob_of_ok helf hstdin hrun (smallEnv_callUser hmm smallImage u k)
  generalize hr : (⟨⟨1, 1000, 0⟩, smallImage, [], u, k, 100, ⟨k, ⟨3, 0, 0, 0⟩, 350⟩, none⟩ : UserRun) = r at hjob
  have hctx : r.ctx.1.len = 0 := by
    have hnone := load64_auxStdoutLen haux
    have hle : (load64 k.mem (auxStdoutLen (auxPtr u.pt 0 k))).toNat ≤ stdoutLimit := by
      rw [show load64 k.mem (auxStdoutLen (auxPtr u.pt 0 k)) = 0 from hnone]
      decide
    have hsame : r.ctx = uploadCtx u.pt (auxPtr u.pt 0 k) (stdoutVa 0) k := by
      rw [← hr]
      rfl
    rw [hsame, uploadCtx_of_le hle]
    exact congrArg BitVec.toNat hnone
  have hread : (fun n => Except.ok (blockRead r.ctx n) : ReadBlock) = fun _ => .ok [] := by
    funext n
    rw [blockRead_empty hctx]
  refine ⟨{ r with stored := some [] }, ?_, ?_, ?_, rfl⟩
  · rw [hjob, finishJudge, hread, show (smallEnv hmm smallImage).putStdout = smallPut from rfl, hput]
    rfl
  · rw [← hr]
    rfl
  · rw [← hr]
    exact (by decide : (350 - 100 : BitVec 64) = 250)

/-- A file without room for a header ends the job before user mode. -/
theorem doJudge_short {elf : List Byte} (hshort : elf.length < elf64EhdrSize) (req : JudgeReq) (stdin : Download)
    (zerosLast : BitVec 64) (buff : Nat → Byte) (k : Kernel) :
    (doJudge req (.file elf) stdin zerosLast buff k).1 = .error (-eOOB) := by
  have hload : ∀ pt k, loadImage pt (writeBytes buff 0 elf) elf.length k = (.error (-eOOB), k) := by
    intro pt k
    have hret : loadElf pt (writeBytes buff 0 elf) elf.length k = ⟨-eOOB, none, k⟩ := if_pos hshort
    rw [loadImage, hret]
    rfl
  rw [doJudge, kernelM_bind_of_ok (show Download.get (.file elf) k = (.ok elf, k) from rfl),
    kernelM_bind_of_ok (show newPt k = (.ok (createPt k).1, (createPt k).2) from rfl), buildUser]
  rw [kernelM_bind, hload]

end JudgeSystem

end VijosOS
