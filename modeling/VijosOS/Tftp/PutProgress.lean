import VijosOS.Library.Leads
import VijosOS.Tftp.PutSafety

/-!
# An upload can always be finished

The network may have lost everything. A timeout of the client sends its request or the block of its
window again, and a session acknowledges again what it has stored. So from every reachable state at
most four steps bring the next acknowledgement.
-/

namespace VijosOS

open Library

namespace PutClient

variable {readBlock : ReadBlock} {c : PutClient} {d : UdpDispatch}

/-- The client waits for the acknowledgement of block `w`. -/
structure Sending (c : PutClient) (w : Nat) : Prop where
  point : c.point = .transferring
  window : c.window = w

theorem sendBlock_sending (readBlock : ReadBlock) {c : PutClient} {block : List Byte} (hread : readBlock c.calls = .ok block) :
    (sendBlock readBlock c).1.Sending c.window := by
  obtain ⟨m, hsend, -⟩ := sendBlock_ok hread
  rw [hsend]
  exact ⟨rfl, rfl⟩

theorem recv_first {block : List Byte} (hpoint : c.point = .requesting) (hread : readBlock c.calls = .ok block)
    (hd : d.payload = tftpPacket tftpOpAck 0 []) : (c.recv readBlock (some d)).1.Sending 1 := by
  obtain ⟨m, hrecv⟩ := recvFirst_ack readBlock c hd
  have hstep : c.recv readBlock (some d) = recvFirst readBlock c (some d) := by
    unfold recv
    rw [hpoint]
  rw [hstep, hrecv]
  exact sendBlock_sending readBlock
    (c := { c with tftpRespBuff := m, serverPort := d.sport, totalLen := 0, window := 1 }) hread

/-- The acknowledgement of the last block. -/
theorem recv_last {block : List Byte} (hpoint : c.point = .transferring) (hwindow : c.window < 65536)
    (hholds : c.Holds block) (hd : d.payload = tftpPacket tftpOpAck c.window [])
    (hshort : block.length < tftpChunkSize) :
    (c.recv readBlock (some d)).1.point = .returned 0 := by
  obtain ⟨m, hrecv⟩ := recvNext_ack readBlock hwindow hwindow hd hholds
  have hstep : c.recv readBlock (some d) = recvNext readBlock c (some d) := by
    unfold recv
    rw [hpoint]
  rw [hstep, hrecv, if_pos rfl, if_pos hshort]

theorem recv_next {block next : List Byte} {w : Nat} (hpoint : c.point = .transferring) (hw : c.window = w)
    (hlt : w + 1 < 65536) (hholds : c.Holds block) (hread : readBlock c.calls = .ok next)
    (hd : d.payload = tftpPacket tftpOpAck w []) (hfull : ¬ block.length < tftpChunkSize) :
    (c.recv readBlock (some d)).1.Sending (w + 1) := by
  obtain ⟨m, hrecv⟩ := recvNext_ack readBlock (by omega) (by omega) hd hholds
  have hstep : c.recv readBlock (some d) = recvNext readBlock c (some d) := by
    unfold recv
    rw [hpoint]
  have hwrap : wrap16 (c.window + 1) = w + 1 := by
    rw [hw]
    exact wrap16_of_lt hlt
  have hsending := sendBlock_sending readBlock
    (c := { c with tftpRespBuff := m, totalLen := c.totalLen + block.length, window := wrap16 (c.window + 1) }) hread
  rw [hstep, hrecv, if_pos hw.symm, if_neg hfull]
  exact ⟨hsending.point, hsending.window.trans hwrap⟩

end PutClient

namespace PutSystem

/-! ## What a step brings -/

/-- The acknowledgements that the client does not have, that of the request included. -/
def missing (last : Nat) (s : PutSystem) : Nat :=
  match s.client.point with
  | .requesting => last + 2
  | .transferring => last + 2 - s.client.window
  | .returned _ => 0

/-- An upload that is going on, or has succeeded. -/
structure Ongoing (blocks : Nat → List Byte) (last : Nat) (s : PutSystem) : Prop where
  inv : Inv blocks last s
  ret : ∀ r, s.client.point = .returned r → r = 0

/-- At most `n` steps bring the next acknowledgement. -/
def Gains (readBlock : ReadBlock) (blocks : Nat → List Byte) (last n : Nat) (s : PutSystem) : Prop :=
  Leads (step readBlock) n s fun t => Ongoing blocks last t ∧ missing last t < missing last s

def ackDatagram (clientPort : ClientPort) (port w : Nat) : UdpDispatch :=
  ⟨clientPort, tftpServerIp, port, tftpPacket tftpOpAck w []⟩

/-- The session at `port` can acknowledge block `w`, for which the client waits. -/
structure Offers (blocks : Nat → List Byte) (s : PutSystem) (port w : Nat) : Prop where
  session : s.sessions port = some (sessionAfter blocks w)
  client : s.client.point = .requesting ∧ w = 0 ∨
    s.client.point = .transferring ∧ s.client.serverPort = port ∧ s.client.window = w

section Progress

variable {readBlock : ReadBlock} {blocks : Nat → List Byte} {last : Nat} {s s' : PutSystem} {port w : Nat}

/-- A step before, which brings no acknowledgement. -/
theorem Gains.after {e : PutEvent} {n : Nat} (hstep : step readBlock s e = some s')
    (hsame : missing last s' = missing last s) (h : Gains readBlock blocks last n s') :
    Gains readBlock blocks last (n + 1) s := by
  unfold Gains at h
  rw [hsame] at h
  exact Leads.cons hstep h

theorem Offers.takes (h : Offers blocks s port w) : s.client.Takes (ackDatagram s.client.clientPort port w) := by
  obtain ⟨hpoint, -⟩ | ⟨hpoint, hport, -⟩ := h.client
  · refine ⟨⟨s.client.clientPort, tftpServerIp, 0⟩, ?_, taskMatchUdp_iff.mpr ⟨.inr rfl, .inr rfl, .inl rfl⟩⟩
    rw [TftpClient.filter, hpoint]
    rfl
  · refine ⟨⟨s.client.clientPort, tftpServerIp, s.client.serverPort⟩, ?_,
      taskMatchUdp_iff.mpr ⟨.inr rfl, .inr rfl, .inr hport⟩⟩
    rw [TftpClient.filter, hpoint]
    rfl

/-- After a block that is not the last one the client sends the next one. -/
theorem Offers.recv_more (hread : readBlock.Returns blocks last) (h : Inv blocks last s)
    (ho : Offers blocks s port w) (hw : w ≤ last) :
    (s.client.recv readBlock (some (ackDatagram s.client.clientPort port w))).1.Sending (w + 1) := by
  have hfew := hread.few
  obtain ⟨hpoint, rfl⟩ | ⟨hpoint, rfl, hwindow⟩ := ho.client
  · have hfirst : readBlock s.client.calls = .ok (blocks 0) := by
      rw [(h.requesting hpoint).calls, hread.read 0 hw]
    exact PutClient.recv_first hpoint hfirst rfl
  · have ht := h.transferring hpoint
    have hone := ht.window.1
    have hblock : readBlock s.client.calls = .ok (blocks w) := by
      rw [ht.calls, hwindow, hread.read w hw]
    have hfull : ¬ (blocks (s.client.window - 1)).length < tftpChunkSize := by
      rw [hread.full _ (by omega)]
      exact Nat.lt_irrefl 512
    exact PutClient.recv_next hpoint hwindow (by omega) ht.holds hblock rfl hfull

/-- The client takes the acknowledgement, and has one less to get. -/
theorem Offers.recv (hread : readBlock.Returns blocks last) (h : Inv blocks last s) (ho : Offers blocks s port w) :
    let s' := s.recv readBlock (some (ackDatagram s.client.clientPort port w))
    (∀ r, s'.client.point = .returned r → r = 0) ∧ missing last s' < missing last s := by
  intro s'
  have hfew := hread.few
  have hmissing : missing last s = last + 2 - w := by
    unfold missing
    obtain ⟨hpoint, rfl⟩ | ⟨hpoint, -, hwindow⟩ := ho.client
    · rw [hpoint]
      rfl
    · rw [hpoint]
      dsimp only
      rw [hwindow]
  rw [hmissing]
  by_cases hw : w ≤ last
  · have hsending := ho.recv_more hread h hw
    have hpoint : s'.client.point = .transferring := hsending.point
    have hwindow : s'.client.window = w + 1 := hsending.window
    unfold missing
    rw [hpoint, hwindow]
    refine ⟨nofun, ?_⟩
    show last + 2 - (w + 1) < last + 2 - w
    omega
  · -- the last block is stored
    obtain ⟨hpoint, rfl⟩ | ⟨hpoint, -, hwindow⟩ := ho.client
    · exact absurd (Nat.zero_le last) hw
    · have ht := h.transferring hpoint
      have hbound := ht.window
      have hlast : w = last + 1 := by omega
      have hshort : (blocks (s.client.window - 1)).length < tftpChunkSize := by
        rw [hwindow, hlast]
        exact hread.short
      have hreturned : s'.client.point = .returned 0 :=
        PutClient.recv_last hpoint (by omega) ht.holds (by rw [hwindow]; rfl) hshort
      unfold missing
      rw [hreturned]
      refine ⟨fun r hr => (ClientPoint.returned.inj hr).symm, ?_⟩
      show 0 < last + 2 - w
      omega

/-- The acknowledgement is sent and delivered. -/
theorem Offers.gains (hread : readBlock.Returns blocks last) (h : Inv blocks last s)
    (ho : Offers blocks s port w) : Gains readBlock blocks last 2 s := by
  let d := ackDatagram s.client.clientPort port w
  let s₁ : PutSystem := s.reply s.client.clientPort port (tftpPacket tftpOpAck w [])
  have hsend : step readBlock s (.sendAck port w) = some s₁ := by
    simp only [step, ho.session]
    exact if_pos (Nat.le_refl w)
  have hd : d ∈ s₁.toClient := List.mem_append_right _ (List.mem_singleton.mpr rfl)
  have hdeliver : step readBlock s₁ (.deliver d) = some (s₁.recv readBlock (some d)) := by
    simp only [step]
    rw [if_pos (.inl hd), if_pos (show s₁.client.Takes d from ho.takes)]
  have hinv₁ := step_inv hread h hsend
  have ho₁ : Offers blocks s₁ port w := ⟨ho.session, ho.client⟩
  obtain ⟨hret, hlower⟩ := Offers.recv hread hinv₁ ho₁
  exact .cons hsend (.cons hdeliver (.here ⟨⟨step_inv hread hinv₁ hdeliver, hret⟩, hlower⟩))

/-- A client that has lost its request sends it again, and a session is opened for it. -/
theorem Inv.gains_requesting (hread : readBlock.Returns blocks last) (h : Inv blocks last s)
    (hpoint : s.client.point = .requesting) : Gains readBlock blocks last 4 s := by
  have hreq := h.requesting hpoint
  by_cases hopen : ∃ p t, s.sessions p = some t
  · obtain ⟨p, t, ht⟩ := hopen
    have hfresh : s.sessions p = some (sessionAfter blocks 0) := by
      rw [ht, hreq.empty p t ht, sessionAfter_zero]
    exact (Offers.gains hread h ⟨hfresh, .inl ⟨hpoint, rfl⟩⟩).mono (by decide)
  · have hnone : s.sessions 1 = none := by
      cases hs : s.sessions 1 with
      | none => rfl
      | some t => exact absurd ⟨1, t, hs⟩ hopen
    let s₁ : PutSystem := { s with toServer := s.toServer ++ [s.client.request] }
    have htimeout : step readBlock s .timeout = some s₁ := by
      have hrecv : s.client.recv readBlock none = (s.client, [s.client.request]) := by
        unfold PutClient.recv
        rw [hpoint]
        exact PutClient.recvFirst_none _ _
      simp only [step, TftpClient.filter, hpoint, Option.isSome_some, if_true, recv, hrecv]
      rfl
    have hopcode : payloadOpcode s.client.request.payload = tftpOpWrq :=
      (payloadOpcode_bytesAt _ hreq.request.1).trans hreq.request.2
    have hstep : step readBlock s₁ (.openSession s.client.request 1) = some (s₁.setSession 1 ⟨0, [], false⟩) := by
      have hin : s.client.request ∈ s₁.toServer := List.mem_append_right _ (List.mem_singleton.mpr rfl)
      simp only [step]
      exact if_pos ⟨hin, rfl, hopcode, Nat.one_ne_zero, Option.isNone_iff_eq_none.mpr hnone⟩
    have hoffers : Offers blocks (s₁.setSession 1 ⟨0, [], false⟩) 1 0 := by
      refine ⟨?_, .inl ⟨hpoint, rfl⟩⟩
      rw [sessionAfter_zero]
      exact s₁.setSession_self 1 _
    have hinv := step_inv hread (step_inv hread h htimeout) hstep
    exact Gains.after htimeout rfl (Gains.after hstep rfl (hoffers.gains hread hinv))

/-- A client that has lost its block sends it again, and the session stores it. -/
theorem Inv.gains_transferring (hread : readBlock.Returns blocks last) (h : Inv blocks last s)
    (hpoint : s.client.point = .transferring) : Gains readBlock blocks last 4 s := by
  have hfew := hread.few
  have ht := h.transferring hpoint
  have hwindow := ht.window
  obtain ⟨n, hn, hbound, hwait⟩ := ht.bound
  by_cases hstored : n = s.client.window
  · exact (Offers.gains hread h ⟨hn, .inr ⟨hpoint, rfl, hstored.symm⟩⟩).mono (by decide)
  · have hnext : s.client.window = n + 1 := by omega
    have hblock : s.client.data.payload = tftpPacket tftpOpData (n + 1) (blocks n) := by
      rw [ht.holds.data, hnext, Nat.add_sub_cancel]
      rfl
    have hincomplete : (sessionAfter blocks n).complete = false := by
      refine decide_eq_false fun hlast => ?_
      obtain ⟨hne, hshort⟩ := hlast
      rw [hread.full (n - 1) (by omega)] at hshort
      exact Nat.lt_irrefl 512 hshort
    let s₁ : PutSystem := { s with toServer := s.toServer ++ [s.client.data] }
    have htimeout : step readBlock s .timeout = some s₁ := by
      have hrecv : s.client.recv readBlock none = (s.client, [s.client.data]) := by
        unfold PutClient.recv
        rw [hpoint]
        exact PutClient.recvNext_none _ _
      simp only [step, TftpClient.filter, hpoint, Option.isSome_some, if_true, recv, hrecv]
      rfl
    have hstep : step readBlock s₁ (.recvData s.client.data) =
        some (s₁.setSession s.client.serverPort ((sessionAfter blocks n).store (blocks n))) := by
      have hin : s.client.data ∈ s₁.toServer := List.mem_append_right _ (List.mem_singleton.mpr rfl)
      have hport : s.client.data.dport = s.client.serverPort := rfl
      have hopcode : payloadOpcode s.client.data.payload = tftpOpData := by
        rw [hblock]
        exact payloadOpcode_tftpPacket (by decide) _ _
      have hseq : payloadSeq s.client.data.payload = n + 1 := by
        rw [hblock]
        exact payloadSeq_tftpPacket _ (by omega) _
      have hdrop : s.client.data.payload.drop 4 = blocks n := by
        rw [hblock]
        rfl
      simp only [step, hport, show s₁.sessions s.client.serverPort = some (sessionAfter blocks n) from hn, hdrop]
      refine if_pos ⟨hin, hopcode, ?_, hincomplete⟩
      rw [hseq]
      exact (Nat.mod_eq_of_lt (by omega)).symm
    have hoffers : Offers blocks (s₁.setSession s.client.serverPort ((sessionAfter blocks n).store (blocks n)))
        s.client.serverPort (n + 1) := by
      refine ⟨?_, .inr ⟨hpoint, rfl, hnext⟩⟩
      rw [sessionAfter_store]
      exact s₁.setSession_self _ _
    have hinv := step_inv hread (step_inv hread h htimeout) hstep
    exact Gains.after htimeout rfl (Gains.after hstep rfl (hoffers.gains hread hinv))

theorem Ongoing.gains (hread : readBlock.Returns blocks last) (h : Ongoing blocks last s)
    (hmissing : 0 < missing last s) : Gains readBlock blocks last 4 s := by
  cases hpoint : s.client.point with
  | requesting => exact h.inv.gains_requesting hread hpoint
  | transferring => exact h.inv.gains_transferring hread hpoint
  | returned r =>
    unfold missing at hmissing
    rw [hpoint] at hmissing
    exact absurd hmissing (Nat.lt_irrefl 0)

theorem missing_le (last : Nat) (s : PutSystem) : missing last s ≤ last + 2 := by
  unfold missing
  split
  · exact Nat.le_refl _
  · exact Nat.sub_le _ _
  · exact Nat.zero_le _

/-- Nothing is missing only after the client has returned. -/
theorem Ongoing.done (h : Ongoing blocks last s) (hmissing : missing last s = 0) :
    s.client.point = .returned 0 := by
  unfold missing at hmissing
  cases hpoint : s.client.point with
  | requesting =>
    rw [hpoint] at hmissing
    cases hmissing
  | transferring =>
    have hwindow := (h.inv.transferring hpoint).window
    rw [hpoint] at hmissing
    dsimp only at hmissing
    omega
  | returned r => rw [h.ret r hpoint]

end Progress

/-! ## Every run -/

end PutSystem

end VijosOS
