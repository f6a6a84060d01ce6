import VijosOS.Library.Leads
import VijosOS.Tftp.GetSafety

/-!
# A download can always be finished

The network may have lost everything. While the client asks for the file, a timeout sends its request
again; while it transfers, a block that the session sends again is acknowledged again. So from every
reachable state at most five steps bring the next block.
-/

namespace VijosOS

open Library

namespace GetClient

variable {file : List Byte} {c : GetClient} {d : UdpDispatch}

/-- Where the client stands after the block of its window. -/
structure Advanced (c' : GetClient) (block : List Byte) (w : Nat) : Prop where
  short : block.length < 512 → c'.point = .returned 0
  full : ¬ block.length < 512 → c'.point = .transferring ∧ c'.window = w + 1

theorem recv_first (hpoint : c.point = .requesting) {port : Nat} (hd : d = dataDatagram file c.clientPort port 1) :
    Advanced (c.recv (some d)).1 (fileBlock file 1) 1 := by
  have hpayload : d.payload = tftpPacket tftpOpData 1 (fileBlock file 1) := by rw [hd]; rfl
  have hlen := fileBlock_length_le file 1
  obtain ⟨m, -, hrecv⟩ := recvFirst_data (c := c) hpayload (by omega)
  have hstep : c.recv (some d) = c.recvFirst (some d) := by
    unfold recv
    rw [hpoint]
  rw [hstep, hrecv]
  by_cases hshort : (fileBlock file 1).length < tftpChunkSize
  · rw [if_pos hshort]
    exact ⟨fun _ => rfl, fun h => absurd hshort h⟩
  · rw [if_neg hshort]
    exact ⟨fun h => absurd h hshort, fun _ => ⟨rfl, rfl⟩⟩

theorem recv_next (hpoint : c.point = .transferring) {w : Nat} (hw : c.window = w) (hlt : w < 65536)
    (hmore : ¬ (fileBlock file w).length < 512 → w + 1 < 65536)
    (hd : d = dataDatagram file c.clientPort c.serverPort w) :
    Advanced (c.recv (some d)).1 (fileBlock file w) w := by
  have hpayload : d.payload = tftpPacket tftpOpData w (fileBlock file w) := by rw [hd]; rfl
  have hlen := fileBlock_length_le file w
  obtain ⟨m, -, hrecv⟩ := recvNext_data (c := c) hlt hpayload (by omega)
  have hstep : c.recv (some d) = c.recvNext (some d) := by
    unfold recv
    rw [hpoint]
  rw [hstep, hrecv, if_pos hw.symm]
  dsimp only
  by_cases hshort : (fileBlock file w).length < tftpChunkSize
  · rw [if_pos hshort]
    exact ⟨fun _ => rfl, fun h => absurd hshort h⟩
  · have hwrap : wrap16 (c.window + 1) = w + 1 := by
      rw [hw]
      exact wrap16_of_lt (hmore hshort)
    rw [if_neg hshort]
    exact ⟨fun h => absurd h hshort, fun _ => ⟨hpoint, hwrap⟩⟩

/-- A block other than that of the window is acknowledged and does not move the client. -/
theorem recv_other (hpoint : c.point = .transferring) {j : Nat} (hj : j ≠ c.window) (hlt : j < 65536)
    (hd : d = dataDatagram file c.clientPort c.serverPort j) :
    (c.recv (some d)).1.point = .transferring ∧ (c.recv (some d)).1.window = c.window ∧
      (c.recv (some d)).1.serverPort = c.serverPort ∧
      (c.recv (some d)).2 = [c.send c.serverPort (tftpPacket tftpOpAck j [])] := by
  have hpayload : d.payload = tftpPacket tftpOpData j (fileBlock file j) := by rw [hd]; rfl
  have hlen := fileBlock_length_le file j
  obtain ⟨m, -, hrecv⟩ := recvNext_data (c := c) hlt hpayload (by omega)
  have hstep : c.recv (some d) = c.recvNext (some d) := by
    unfold recv
    rw [hpoint]
  rw [hstep, hrecv, if_neg hj]
  exact ⟨hpoint, rfl, rfl, rfl⟩

end GetClient

namespace GetSystem

/-! ## What a step brings -/

/-- The blocks that the client does not have. -/
def missing (file : List Byte) (s : GetSystem) : Nat :=
  match s.client.point with
  | .requesting => file.length / 512 + 1
  | .transferring => file.length / 512 + 2 - s.client.window
  | .returned _ => 0

/-- A download that is going on, or has succeeded. -/
structure Ongoing (file : List Byte) (s : GetSystem) : Prop where
  inv : Inv file s
  ret : ∀ r, s.client.point = .returned r → r = 0

/-- At most `n` steps bring the next block. -/
def Gains (file : List Byte) (n : Nat) (s : GetSystem) : Prop :=
  Leads (step file) n s fun t => Ongoing file t ∧ missing file t < missing file s

/-- The session at `port` sends block `w`, for which the client waits. -/
structure Offers (s : GetSystem) (port w : Nat) : Prop where
  session : s.sessions port = some w
  client : s.client.point = .requesting ∧ w = 1 ∨
    s.client.point = .transferring ∧ s.client.serverPort = port ∧ s.client.window = w

section Progress

variable {file : List Byte} {s s' : GetSystem} {port w : Nat}

/-- A step before, which brings no block. -/
theorem Gains.after {e : GetEvent} {n : Nat} (hstep : step file s e = some s')
    (hsame : missing file s' = missing file s) (h : Gains file n s') : Gains file (n + 1) s := by
  unfold Gains at h
  rw [hsame] at h
  exact Leads.cons hstep h

theorem takes_requesting (hpoint : s.client.point = .requesting) (file : List Byte) (port w : Nat) :
    s.client.Takes (dataDatagram file s.client.clientPort port w) := by
  refine ⟨⟨s.client.clientPort, tftpServerIp, 0⟩, ?_, taskMatchUdp_iff.mpr ⟨.inr rfl, .inr rfl, .inl rfl⟩⟩
  rw [TftpClient.filter, hpoint]
  rfl

theorem takes_transferring (hpoint : s.client.point = .transferring) (file : List Byte) (w : Nat) :
    s.client.Takes (dataDatagram file s.client.clientPort s.client.serverPort w) := by
  refine ⟨⟨s.client.clientPort, tftpServerIp, s.client.serverPort⟩, ?_,
    taskMatchUdp_iff.mpr ⟨.inr rfl, .inr rfl, .inr rfl⟩⟩
  rw [TftpClient.filter, hpoint]
  rfl

theorem Offers.takes (h : Offers s port w) : s.client.Takes (dataDatagram file s.client.clientPort port w) := by
  obtain ⟨hpoint, -⟩ | ⟨hpoint, rfl, -⟩ := h.client
  · exact takes_requesting hpoint file port w
  · exact takes_transferring hpoint file w

/-- The session at `port` sends its block, and the client takes it. -/
theorem send_deliver (hsession : s.sessions port = some w)
    (htakes : s.client.Takes (dataDatagram file s.client.clientPort port w)) :
    ∃ t, runSteps (step file) s [.sendData port, .deliver (dataDatagram file s.client.clientPort port w)] = some t ∧
      t.client = (s.client.recv (some (dataDatagram file s.client.clientPort port w))).1 ∧
      t.toServer = s.toServer ++ (s.client.recv (some (dataDatagram file s.client.clientPort port w))).2 ∧
      t.sessions = s.sessions := by
  let d := dataDatagram file s.client.clientPort port w
  let s₁ : GetSystem := s.reply s.client.clientPort port (tftpPacket tftpOpData w (fileBlock file w))
  have hsend : step file s (.sendData port) = some s₁ := by
    simp only [step, hsession]
    rfl
  have hd : d ∈ s₁.toClient := List.mem_append_right _ (List.mem_singleton.mpr rfl)
  have hdeliver : step file s₁ (.deliver d) = some (s₁.recv (some d)) := by
    simp only [step]
    rw [if_pos (.inl hd), if_pos (show s₁.client.Takes d from htakes)]
  refine ⟨s₁.recv (some d), ?_, rfl, rfl, rfl⟩
  simp only [runSteps, hsend, Option.bind_some]
  exact congrArg (Option.bind · some) hdeliver

theorem runSteps_inv (hfile : file.length ≤ 512 * 65534) (h : Inv file s) {es : List GetEvent}
    (hrun : runSteps (step file) s es = some s') : Inv file s' :=
  runSteps_invariant (fun _ _ _ => step_inv hfile) h hrun

/-- The block of the window is sent and delivered. -/
theorem Offers.gains (hfile : file.length ≤ 512 * 65534) (h : Inv file s) (ho : Offers s port w) :
    Gains file 2 s := by
  obtain ⟨-, hone, hwithin⟩ := h.session _ _ ho.session
  have hend := fileBlock_length hwithin
  obtain ⟨t, hrun, hclient, -, -⟩ := @send_deliver file _ _ _ ho.session ho.takes
  have hmissing : missing file s = file.length / 512 + 2 - w := by
    unfold missing
    obtain ⟨hpoint, rfl⟩ | ⟨hpoint, -, hwindow⟩ := ho.client
    · rw [hpoint]
      rfl
    · rw [hpoint]
      dsimp only
      rw [hwindow]
  have hadv : GetClient.Advanced t.client (fileBlock file w) w := by
    rw [hclient]
    obtain ⟨hpoint, rfl⟩ | ⟨hpoint, rfl, hwindow⟩ := ho.client
    · exact GetClient.recv_first hpoint rfl
    · exact GetClient.recv_next hpoint hwindow (by omega) (by omega) rfl
  refine ⟨[_, _], t, Nat.le_refl 2, hrun, ⟨runSteps_inv hfile h hrun, ?_⟩, ?_⟩
  · intro r hr
    by_cases hshort : (fileBlock file w).length < 512
    · rw [hadv.short hshort] at hr
      exact (ClientPoint.returned.inj hr).symm
    · rw [(hadv.full hshort).1] at hr
      cases hr
  · rw [hmissing]
    unfold missing
    by_cases hshort : (fileBlock file w).length < 512
    · rw [hadv.short hshort]
      show 0 < file.length / 512 + 2 - w
      omega
    · obtain ⟨hpoint, hwindow⟩ := hadv.full hshort
      rw [hpoint, hwindow]
      show file.length / 512 + 2 - (w + 1) < file.length / 512 + 2 - w
      omega

/-- A client that has lost its request sends it again, and a session is opened for it. -/
theorem Inv.gains_requesting (hfile : file.length ≤ 512 * 65534) (h : Inv file s)
    (hpoint : s.client.point = .requesting) : Gains file 4 s := by
  have hreq := h.requesting hpoint
  by_cases hopen : ∃ p k, s.sessions p = some k
  · obtain ⟨p, k, hk⟩ := hopen
    obtain rfl := hreq.first p k hk
    exact (Offers.gains hfile h ⟨hk, .inl ⟨hpoint, rfl⟩⟩).mono (by decide)
  · have hnone : s.sessions 1 = none := by
      cases hs : s.sessions 1 with
      | none => rfl
      | some k => exact absurd ⟨1, k, hs⟩ hopen
    let s₁ : GetSystem := { s with toServer := s.toServer ++ [s.client.request] }
    have htimeout : step file s .timeout = some s₁ := by
      have hrecv : s.client.recv none = (s.client, [s.client.request]) := by
        unfold GetClient.recv
        rw [hpoint]
        exact GetClient.recvFirst_none _
      simp only [step, TftpClient.filter, hpoint, Option.isSome_some, if_true, recv, hrecv]
      rfl
    have hopcode : payloadOpcode s.client.request.payload = tftpOpRrq :=
      (payloadOpcode_bytesAt _ hreq.request.1).trans hreq.request.2
    have hstep : step file s₁ (.openSession s.client.request 1) = some (s₁.setSession 1 1) := by
      have hin : s.client.request ∈ s₁.toServer := List.mem_append_right _ (List.mem_singleton.mpr rfl)
      simp only [step]
      exact if_pos ⟨hin, rfl, hopcode, Nat.one_ne_zero, hnone⟩
    have hinv := step_inv hfile (step_inv hfile h htimeout) hstep
    have hoffers : Offers (s₁.setSession 1 1) 1 1 := ⟨s₁.setSession_self 1 1, .inl ⟨hpoint, rfl⟩⟩
    exact Gains.after htimeout rfl (Gains.after hstep rfl (Offers.gains hfile hinv hoffers))

/-- A session that has lost an acknowledgement sends its block again, and the client acknowledges it again. -/
theorem Inv.gains_transferring (hfile : file.length ≤ 512 * 65534) (h : Inv file s)
    (hpoint : s.client.point = .transferring) : Gains file 5 s := by
  have ht := h.transferring hpoint
  have hwithin := ht.copied.within
  obtain ⟨k, hk, hle, hnext⟩ := ht.bound
  by_cases hwindow : k = s.client.window
  · exact (Offers.gains hfile h ⟨hk, .inr ⟨hpoint, rfl, hwindow.symm⟩⟩).mono (by decide)
  · have hlast : s.client.window = k + 1 := by omega
    obtain ⟨t, hrun, hclient, hsent, hsessions⟩ := @send_deliver file _ _ _ hk (takes_transferring hpoint file k)
    obtain ⟨hsame, hsameWindow, hsamePort, hack⟩ :=
      @GetClient.recv_other file _ _ hpoint _ hwindow (by omega) rfl
    rw [← hclient] at hsame hsameWindow hsamePort
    have hinv := runSteps_inv hfile h hrun
    let a := s.client.send s.client.serverPort (tftpPacket tftpOpAck k [])
    have ha : a ∈ t.toServer := by
      rw [hsent, hack]
      exact List.mem_append_right _ (List.mem_singleton.mpr rfl)
    have hseq : payloadSeq a.payload = k := payloadSeq_tftpPacket _ (by omega) _
    have hstep : step file t (.recvAck a) = some (t.setSession s.client.serverPort (k + 1)) := by
      have hport : a.dport = s.client.serverPort := rfl
      simp only [step, hport, hsessions, hk]
      refine if_pos ⟨ha, payloadOpcode_tftpPacket (by decide) _ _, ?_, ?_⟩
      · rw [hseq]
        omega
      · unfold tftpChunkSize
        omega
    have hoffers : Offers (t.setSession s.client.serverPort (k + 1)) s.client.serverPort (k + 1) :=
      ⟨t.setSession_self _ _, .inr ⟨hsame, hsamePort, hsameWindow.trans hlast⟩⟩
    have hmissing : missing file t = missing file s := by
      unfold missing
      rw [hsame, hpoint]
      dsimp only
      rw [hsameWindow]
    have hrest := Gains.after hstep rfl (Offers.gains hfile (step_inv hfile hinv hstep) hoffers)
    unfold Gains at hrest ⊢
    rw [hmissing] at hrest
    exact Leads.trans (m := 2) ⟨[_, _], t, Nat.le_refl 2, hrun, rfl⟩ fun u hu => hu ▸ hrest

theorem Ongoing.gains (hfile : file.length ≤ 512 * 65534) (h : Ongoing file s) (hmissing : 0 < missing file s) :
    Gains file 5 s := by
  cases hpoint : s.client.point with
  | requesting => exact (h.inv.gains_requesting hfile hpoint).mono (by decide)
  | transferring => exact h.inv.gains_transferring hfile hpoint
  | returned r =>
    unfold missing at hmissing
    rw [hpoint] at hmissing
    exact absurd hmissing (Nat.lt_irrefl 0)

theorem Ongoing.missing_le (h : Ongoing file s) : missing file s ≤ file.length / 512 + 1 := by
  unfold missing
  cases hpoint : s.client.point with
  | requesting => exact Nat.le_refl _
  | transferring =>
    have hwindow := (h.inv.transferring hpoint).window
    dsimp only
    omega
  | returned r => exact Nat.zero_le _

/-- Nothing is missing only after the client has returned. -/
theorem Ongoing.done (h : Ongoing file s) (hmissing : missing file s = 0) : s.client.point = .returned 0 := by
  unfold missing at hmissing
  cases hpoint : s.client.point with
  | requesting =>
    rw [hpoint] at hmissing
    cases hmissing
  | transferring =>
    have hwithin := (h.inv.transferring hpoint).copied.within
    rw [hpoint] at hmissing
    dsimp only at hmissing
    omega
  | returned r => rw [h.ret r hpoint]

end Progress

/-! ## Every run -/

/-- Whatever has been lost, repeated or delayed, a client that still waits can get the rest of the
file: a run of at most five steps a block, in which it returns the file. -/
theorem reachable_completes {file : List Byte} (hfile : file.length ≤ 512 * 65534) {s : GetSystem}
    (h : Reachable Start (step file) s) (hwaits : ∀ r, s.client.point ≠ .returned r) :
    Leads (step file) (5 * (file.length / 512 + 1)) s fun t =>
      t.client.point = .returned 0 ∧ t.client.Received file := by
  have hongoing : Ongoing file s := ⟨reachable_inv hfile h, fun r hr => absurd hr (hwaits r)⟩
  have hleads := Leads.of_measure (fun _ => Ongoing.gains hfile) hongoing
  refine Leads.mono (Nat.mul_le_mul_left 5 hongoing.missing_le) (m := 5 * missing file s + 0) ?_
  refine hleads.trans fun t ⟨ht, hmissing⟩ => .here ⟨ht.done hmissing, ?_⟩
  exact ht.inv.received (ht.done hmissing)

/-- Block 1 has come, and its acknowledgement is lost. -/
theorem reachable_completes_small : ∃ s,
    runSteps (step smallFile) smallStart (smallRun.take 6 ++ [.lose smallAck]) = some s ∧
      smallAck ∉ s.toServer ∧
      Leads (step smallFile) 10 s fun t => t.client.point = .returned 0 ∧ t.client.Received smallFile := by
  have hrun : (runSteps (step smallFile) smallStart (smallRun.take 6 ++ [.lose smallAck])).map (fun s =>
      (s.client.point, decide (smallAck ∉ s.toServer))) = some (.transferring, true) := by
    decide +kernel
  obtain ⟨s, hs, hstate⟩ := Option.map_eq_some_iff.mp hrun
  obtain ⟨hpoint, hlost⟩ := Prod.mk.inj hstate
  have hreach : Reachable Start (step smallFile) s := ⟨smallStart, _, ⟨_, _, _, _, _, _, rfl⟩, hs⟩
  have hlen : smallFile.length = 513 := by
    rw [smallFile, List.length_append, List.length_replicate, List.length_singleton]
  have hcompletes := reachable_completes (by rw [hlen]; decide) hreach fun r hr => by
    rw [hpoint] at hr
    cases hr
  rw [hlen] at hcompletes
  exact ⟨s, hs, of_decide_eq_true hlost, hcompletes⟩

end GetSystem

end VijosOS
