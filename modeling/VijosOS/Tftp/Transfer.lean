import VijosOS.Judge.DoJudge
import VijosOS.Tftp.GetSafety
import VijosOS.Tftp.PutSafety

/-!
# Whole transfers

`tftp_get_file` and `tftp_put_file` from the call to the return, and what a caller may
conclude from a result that is not negative. A transfer may draw the port of an earlier one, and
then the network may still hold datagrams of that one.
-/

namespace VijosOS

open Library

/-! ## Late datagrams -/

/-- An event of the transfer, or a datagram of an earlier transfer from the same client port: one
for the client, or one for a session of the server whose port was used before as well. -/
inductive TransferEvent (ε : Type) where
  | own (e : ε)
  | lateToClient (d : UdpDispatch)
  | lateToServer (d : UdpDispatch)

namespace TftpSystem

variable {σ τ ε : Type}

/-- A late datagram is on the network from now on; any may come. A late request opens a session of
the transfer that sent it, and what that session sends is late for the client. -/
def lateStep (step : TftpSystem σ τ → ε → Option (TftpSystem σ τ)) (s : TftpSystem σ τ) :
    TransferEvent ε → Option (TftpSystem σ τ)
  | .own e => step s e
  | .lateToClient d => some { s with toClient := s.toClient ++ [d] }
  | .lateToServer d =>
    if (s.sessions d.dport).isSome then some { s with toServer := s.toServer ++ [d] } else none

/-- What steps keep of the client, late datagrams keep too. -/
theorem lateStep_client {step : TftpSystem σ τ → ε → Option (TftpSystem σ τ)} {P : σ → Prop}
    (hstep : ∀ s e s', P s.client → step s e = some s' → P s'.client) (s : TftpSystem σ τ)
    (e : TransferEvent ε) (s' : TftpSystem σ τ) (hs : P s.client) (hlate : lateStep step s e = some s') :
    P s'.client := by
  cases e with
  | own e => exact hstep s e s' hs hlate
  | lateToClient d =>
    obtain rfl := Option.some.inj hlate
    exact hs
  | lateToServer d =>
    simp only [lateStep] at hlate
    split_ifs at hlate
    obtain rfl := Option.some.inj hlate
    exact hs

theorem runSteps_own (step : TftpSystem σ τ → ε → Option (TftpSystem σ τ)) (s : TftpSystem σ τ) (es : List ε) :
    runSteps (lateStep step) s (es.map .own) = runSteps step s es := by
  induction es generalizing s with
  | nil => rfl
  | cons e es ih =>
    rw [List.map_cons, runSteps, runSteps]
    exact Option.bind_congr fun s' _ => ih s'

end TftpSystem

/-! ## The results -/

/-- A client that has returned has returned 0 or an error. -/
def TftpClient.RetOk (c : TftpClient) : Prop := ∀ ret, c.point = .returned ret → RetCode ret

namespace TftpClient

variable {c : TftpClient}

theorem retOk_of_returned {ret : Int} (hpoint : c.point = .returned ret) (hret : RetCode ret) : c.RetOk := by
  intro r hr
  rw [hpoint] at hr
  obtain rfl := ClientPoint.returned.inj hr
  exact hret

theorem retOk_of_requesting (hpoint : c.point = .requesting) : c.RetOk := by
  intro r hr
  rw [hpoint] at hr
  cases hr

theorem retOk_of_transferring (hpoint : c.point = .transferring) : c.RetOk := by
  intro r hr
  rw [hpoint] at hr
  cases hr

end TftpClient

namespace GetClient

theorem retOk_recv {c : GetClient} (h : c.toTftpClient.RetOk) (d : Option UdpDispatch) :
    (c.recv d).1.toTftpClient.RetOk := by
  unfold recv
  cases hpoint : c.point with
  | requesting =>
    unfold recvFirst
    rcases recvInto c.tftpBuff 1024 d with ⟨ret, m⟩
    dsimp only
    split_ifs with hret hcheck hseq hshort
    · exact TftpClient.retOk_of_requesting hpoint
    · exact TftpClient.retOk_of_returned rfl (tftpCheckResp_retCode _ _ _)
    · exact TftpClient.retOk_of_returned rfl (by decide)
    · exact TftpClient.retOk_of_returned rfl (by decide)
    · exact TftpClient.retOk_of_transferring rfl
  | transferring =>
    unfold recvNext
    rcases recvInto c.tftpBuff 1024 d with ⟨ret, m⟩
    dsimp only
    split_ifs with hret hcheck hseq hshort
    · exact TftpClient.retOk_of_returned rfl (by decide)
    · exact TftpClient.retOk_of_returned rfl (tftpCheckResp_retCode _ _ _)
    · exact TftpClient.retOk_of_returned rfl (by decide)
    · exact TftpClient.retOk_of_transferring hpoint
    · exact TftpClient.retOk_of_transferring hpoint
  | returned ret => exact h

end GetClient

/-- A step of the system either is a step of the client or leaves it alone. -/
theorem GetSystem.step_client {file : List Byte} {s s' : GetSystem} {e : GetEvent}
    (hstep : GetSystem.step file s e = some s') :
    s'.client = s.client ∨ ∃ d, s'.client = (s.client.recv d).1 := by
  cases e with
  | timeout =>
    simp only [GetSystem.step] at hstep
    split_ifs at hstep
    cases hstep
    exact .inr ⟨none, rfl⟩
  | deliver d =>
    simp only [GetSystem.step] at hstep
    split_ifs at hstep
    · cases hstep
      exact .inr ⟨some d, rfl⟩
    · cases hstep
      exact .inl rfl
  | openSession d port =>
    simp only [GetSystem.step] at hstep
    split_ifs at hstep
    cases hstep
    exact .inl rfl
  | sendData port | sendError port code message =>
    simp only [GetSystem.step] at hstep
    split at hstep
    · cases hstep
      exact .inl rfl
    · cases hstep
  | recvAck d =>
    simp only [GetSystem.step] at hstep
    split at hstep
    · split_ifs at hstep
      cases hstep
      exact .inl rfl
    · cases hstep
  | lose d =>
    cases hstep
    exact .inl rfl

theorem GetSystem.start_retOk {s : GetSystem} (h : GetSystem.Start s) : s.client.toTftpClient.RetOk := by
  obtain ⟨clientIp, clientPort, filename, tftpReq, tftpBuff, buff, rfl⟩ := h
  unfold tftpGetFile
  dsimp only
  cases hreq : tftpBuildReq tftpReq 128 tftpOpRrq filename with
  | error ret => exact TftpClient.retOk_of_returned rfl (by rw [tftpBuildReq_error hreq]; decide)
  | ok r => exact TftpClient.retOk_of_requesting rfl

theorem GetSystem.late_retOk {file : List Byte} {s s' : GetSystem} {es : List (TransferEvent GetEvent)}
    (hstart : GetSystem.Start s) (hrun : runSteps (TftpSystem.lateStep (GetSystem.step file)) s es = some s') :
    s'.client.toTftpClient.RetOk := by
  refine runSteps_invariant (P := fun s => s.client.toTftpClient.RetOk)
    (TftpSystem.lateStep_client (P := fun c : GetClient => c.toTftpClient.RetOk) ?_) (start_retOk hstart) hrun
  intro s e s' hs hstep
  rcases step_client hstep with hsame | ⟨d, hrecv⟩
  · rw [hsame]
    exact hs
  · rw [hrecv]
    exact GetClient.retOk_recv hs d

namespace PutClient

variable {readBlock : ReadBlock}

theorem retOk_sendBlock (hread : ∀ n, ∃ block, readBlock n = .ok block) (c : PutClient) :
    (sendBlock readBlock c).1.toTftpClient.RetOk := by
  obtain ⟨block, hblock⟩ := hread c.calls
  obtain ⟨m, hsend, _⟩ := sendBlock_ok hblock
  rw [hsend]
  exact TftpClient.retOk_of_transferring rfl

theorem retOk_recv (hread : ∀ n, ∃ block, readBlock n = .ok block) {c : PutClient}
    (h : c.toTftpClient.RetOk) (d : Option UdpDispatch) : (c.recv readBlock d).1.toTftpClient.RetOk := by
  unfold recv
  cases hpoint : c.point with
  | requesting =>
    unfold recvFirst
    rcases recvInto c.tftpRespBuff 1024 d with ⟨ret, m⟩
    dsimp only
    split_ifs with hret hcheck hseq
    · exact TftpClient.retOk_of_requesting hpoint
    · exact TftpClient.retOk_of_returned rfl (tftpCheckResp_retCode _ _ _)
    · exact TftpClient.retOk_of_returned rfl (by decide)
    · exact retOk_sendBlock hread _
  | transferring =>
    unfold recvNext
    rcases recvInto c.tftpRespBuff 1024 d with ⟨ret, m⟩
    dsimp only
    split_ifs with hret hcheck hseq hshort
    · exact TftpClient.retOk_of_transferring hpoint
    · exact TftpClient.retOk_of_returned rfl (tftpCheckResp_retCode _ _ _)
    · exact TftpClient.retOk_of_returned rfl (by decide)
    · exact retOk_sendBlock hread _
    · exact TftpClient.retOk_of_transferring hpoint
  | returned ret => exact h

end PutClient

theorem PutSystem.step_client {readBlock : ReadBlock} {s s' : PutSystem} {e : PutEvent}
    (hstep : PutSystem.step readBlock s e = some s') :
    s'.client = s.client ∨ ∃ d, s'.client = (s.client.recv readBlock d).1 := by
  cases e with
  | timeout =>
    simp only [PutSystem.step] at hstep
    split_ifs at hstep
    cases hstep
    exact .inr ⟨none, rfl⟩
  | deliver d =>
    simp only [PutSystem.step] at hstep
    split_ifs at hstep
    · cases hstep
      exact .inr ⟨some d, rfl⟩
    · cases hstep
      exact .inl rfl
  | openSession d port =>
    simp only [PutSystem.step] at hstep
    split_ifs at hstep
    cases hstep
    exact .inl rfl
  | sendAck port k =>
    simp only [PutSystem.step] at hstep
    split at hstep
    · split_ifs at hstep
      cases hstep
      exact .inl rfl
    · cases hstep
  | sendError port code message =>
    simp only [PutSystem.step] at hstep
    split at hstep
    · cases hstep
      exact .inl rfl
    · cases hstep
  | recvData d =>
    simp only [PutSystem.step] at hstep
    split at hstep
    · split_ifs at hstep
      cases hstep
      exact .inl rfl
    · cases hstep
  | lose d =>
    cases hstep
    exact .inl rfl

theorem PutSystem.start_retOk {s : PutSystem} (h : PutSystem.Start s) : s.client.toTftpClient.RetOk := by
  obtain ⟨clientIp, clientPort, filename, tftpReq, tftpBuff, tftpRespBuff, rfl⟩ := h
  unfold tftpPutFile
  dsimp only
  cases hreq : tftpBuildReq tftpReq 128 tftpOpWrq filename with
  | error ret => exact TftpClient.retOk_of_returned rfl (by rw [tftpBuildReq_error hreq]; decide)
  | ok r => exact TftpClient.retOk_of_requesting rfl

theorem PutSystem.late_retOk {readBlock : ReadBlock} (hread : ∀ n, ∃ block, readBlock n = .ok block)
    {s s' : PutSystem} {es : List (TransferEvent PutEvent)} (hstart : PutSystem.Start s)
    (hrun : runSteps (TftpSystem.lateStep (PutSystem.step readBlock)) s es = some s') :
    s'.client.toTftpClient.RetOk := by
  refine runSteps_invariant (P := fun s => s.client.toTftpClient.RetOk)
    (TftpSystem.lateStep_client (P := fun c : PutClient => c.toTftpClient.RetOk) ?_) (start_retOk hstart) hrun
  intro s e s' hs hstep
  rcases step_client hstep with hsame | ⟨d, hrecv⟩
  · rw [hsame]
    exact hs
  · rw [hrecv]
    exact PutClient.retOk_recv hread hs d

/-! ## Calls -/

/-- What a transfer finds: its address and port, the contents of its three buffers, and what the
network and the server do. -/
structure Transfer (ε : Type) where
  clientIp : Ipv6Addr
  clientPort : ClientPort
  tftpReq : Mem
  tftpBuff : Mem
  buff : Mem
  events : List (TransferEvent ε)

namespace Transfer

/-- No datagram of an earlier transfer reaches the client or a session of this one. -/
def NoLate {ε : Type} (t : Transfer ε) : Prop := ∃ es : List ε, t.events = es.map .own

/-- A call of `tftp_get_file` with a server that holds `file`; `none` while it has not returned. -/
def getFile (t : Transfer GetEvent) (filename file : List Byte) : Option Download :=
  let start := tftpGetFile t.clientIp t.clientPort filename t.tftpReq t.tftpBuff t.buff
  (runSteps (TftpSystem.lateStep (GetSystem.step file)) ⟨start.1, start.2, [], fun _ => none⟩ t.events).bind fun s =>
    match s.client.point with
    | .returned ret =>
      some (if h : ret < 0 then .failed ret h
        else .file (bytesAt s.client.buff 0 (s.client.outLen.getD 0)))
    | _ => none

/-- A call of `tftp_put_file`: its result, and what its session of the server has stored. -/
def putFile (t : Transfer PutEvent) (filename : List Byte) (readBlock : ReadBlock) :
    Option (Int × List Byte) :=
  let start := tftpPutFile t.clientIp t.clientPort filename t.tftpReq t.tftpBuff t.buff
  (runSteps (TftpSystem.lateStep (PutSystem.step readBlock)) ⟨start.1, start.2, [], fun _ => none⟩ t.events).bind
    fun s =>
      match s.client.point with
      | .returned ret => some (ret, (s.sessions s.client.serverPort).elim [] PutSession.stored)
      | _ => none

theorem getFile_returned {t : Transfer GetEvent} {filename file : List Byte} {d : Download}
    (hget : t.getFile filename file = some d) :
    ∃ s₀ s ret, GetSystem.Start s₀ ∧
      runSteps (TftpSystem.lateStep (GetSystem.step file)) s₀ t.events = some s ∧
      s.client.point = .returned ret ∧
      d = if h : ret < 0 then .failed ret h else .file (bytesAt s.client.buff 0 (s.client.outLen.getD 0)) := by
  obtain ⟨s, hrun, hs⟩ := Option.bind_eq_some_iff.mp hget
  cases hpoint : s.client.point with
  | requesting | transferring =>
    rw [hpoint] at hs
    cases hs
  | returned ret =>
    rw [hpoint] at hs
    exact ⟨_, s, ret, ⟨_, _, _, _, _, _, rfl⟩, hrun, hpoint, (Option.some.inj hs).symm⟩

/-- A file that `tftp_get_file` returns is the file the server holds. -/
theorem getFile_file {t : Transfer GetEvent} {filename file bytes : List Byte}
    (hfile : file.length ≤ 512 * 65534) (hlate : t.NoLate) (hget : t.getFile filename file = some (.file bytes)) :
    bytes = file := by
  obtain ⟨s₀, s, ret, hstart, hrun, hpoint, hd⟩ := getFile_returned hget
  obtain ⟨_, hle⟩ := GetSystem.late_retOk hstart hrun ret hpoint
  obtain ⟨es, hes⟩ := hlate
  rw [hes, TftpSystem.runSteps_own] at hrun
  split_ifs at hd with hneg
  obtain rfl : ret = 0 := by omega
  have hreceived := (GetSystem.reachable_inv hfile ⟨s₀, es, hstart, hrun⟩).received hpoint
  rw [hreceived.outLen, Option.getD_some, hreceived.bytes] at hd
  exact Download.file.inj hd

theorem putFile_returned {t : Transfer PutEvent} {filename stored : List Byte} {ret : Int}
    {readBlock : ReadBlock} (hput : t.putFile filename readBlock = some (ret, stored)) :
    ∃ s₀ s, PutSystem.Start s₀ ∧
      runSteps (TftpSystem.lateStep (PutSystem.step readBlock)) s₀ t.events = some s ∧
      s.client.point = .returned ret ∧ stored = (s.sessions s.client.serverPort).elim [] PutSession.stored := by
  obtain ⟨s, hrun, hs⟩ := Option.bind_eq_some_iff.mp hput
  cases hpoint : s.client.point with
  | requesting | transferring =>
    rw [hpoint] at hs
    cases hs
  | returned r =>
    rw [hpoint] at hs
    obtain ⟨rfl, rfl⟩ := Prod.mk.inj (Option.some.inj hs)
    exact ⟨_, s, ⟨_, _, _, _, _, _, rfl⟩, hrun, hpoint, rfl⟩

theorem putFile_retCode {t : Transfer PutEvent} {filename stored : List Byte} {ret : Int}
    {readBlock : ReadBlock} (hok : ∀ n, ∃ block, readBlock n = .ok block)
    (hput : t.putFile filename readBlock = some (ret, stored)) : RetCode ret := by
  obtain ⟨s₀, s, hstart, hrun, hpoint, _⟩ := putFile_returned hput
  exact PutSystem.late_retOk hok hstart hrun ret hpoint

/-- After a result of 0 the server has the blocks of `read_block`. -/
theorem putFile_stored {t : Transfer PutEvent} {filename stored : List Byte} {readBlock : ReadBlock}
    {blocks : Nat → List Byte} {last : Nat} (hread : readBlock.Returns blocks last) (hlate : t.NoLate)
    (hput : t.putFile filename readBlock = some (0, stored)) :
    stored = ((List.range (last + 1)).map blocks).flatten := by
  obtain ⟨s₀, s, hstart, hrun, hpoint, hstored⟩ := putFile_returned hput
  obtain ⟨es, hes⟩ := hlate
  rw [hes, TftpSystem.runSteps_own] at hrun
  rw [hstored, ((PutSystem.reachable_inv hread ⟨s₀, es, hstart, hrun⟩).stored hpoint rfl).session]
  rfl

end Transfer

end VijosOS
