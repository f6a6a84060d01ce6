import VijosOS.Tftp.Put

/-!
# An uploaded file is what `read_block` returned

The data packets in flight go to the session the client is bound to and carry the blocks up
to the client's window. The session stores them in order, so an acknowledgement of the
window means that it has stored every block read so far.
-/

namespace VijosOS

open Library

/-! ## Blocks and sessions -/

/-- `read_block` returns full blocks and then, as block `last`, one shorter than 512 bytes. -/
structure ReadBlock.Returns (readBlock : ReadBlock) (blocks : Nat → List Byte) (last : Nat) : Prop where
  read : ∀ k ≤ last, readBlock k = .ok (blocks k)
  full : ∀ k < last, (blocks k).length = 512
  short : (blocks last).length < 512
  few : last + 1 < 65536

/-- A session that has stored the first `n` blocks. -/
def sessionAfter (blocks : Nat → List Byte) (n : Nat) : PutSession :=
  ⟨n, ((List.range n).map blocks).flatten, n ≠ 0 ∧ (blocks (n - 1)).length < 512⟩

theorem sessionAfter_zero (blocks : Nat → List Byte) : sessionAfter blocks 0 = ⟨0, [], false⟩ := by
  simp [sessionAfter]

theorem sessionAfter_store (blocks : Nat → List Byte) (n : Nat) :
    (sessionAfter blocks n).store (blocks n) = sessionAfter blocks (n + 1) := by
  have hstored : ((List.range n).map blocks).flatten ++ blocks n =
      ((List.range (n + 1)).map blocks).flatten := by
    simp [List.range_succ]
  have hcomplete : decide ((blocks n).length < tftpChunkSize) =
      decide (n + 1 ≠ 0 ∧ (blocks (n + 1 - 1)).length < 512) :=
    decide_eq_decide.mpr (by simp [tftpChunkSize])
  rw [PutSession.store, sessionAfter, sessionAfter]
  simp only [hstored, hcomplete]

theorem ReadBlock.Returns.complete {readBlock : ReadBlock} {blocks : Nat → List Byte} {last : Nat}
    (h : readBlock.Returns blocks last) : (sessionAfter blocks (last + 1)).complete = true := by
  simpa [sessionAfter] using h.short

/-! ## What the client does with a packet -/

namespace PutClient

variable {readBlock : ReadBlock} {c : PutClient} {d : UdpDispatch}

theorem recvFirst_none (readBlock : ReadBlock) (c : PutClient) :
    recvFirst readBlock c none = (c, [c.request]) := rfl

theorem recvNext_none (readBlock : ReadBlock) (c : PutClient) :
    recvNext readBlock c none = (c, [c.data]) := rfl

/-- The packet in `tftp_buff` is the block of the window. -/
structure Holds (c : PutClient) (block : List Byte) : Prop where
  size : c.blockSize = block.length
  packet : bytesAt c.tftpBuff 0 (4 + block.length) = tftpPacket tftpOpData c.window block
  seq : getLe c.tftpBuff 2 2 = htons c.window

theorem Holds.data {block : List Byte} (h : c.Holds block) :
    c.data = c.send c.serverPort (tftpPacket tftpOpData c.window block) := by
  rw [PutClient.data, h.size, h.packet]

/-- A block is read once and its packet sent. -/
theorem sendBlock_ok {block : List Byte} (hread : readBlock c.calls = .ok block) :
    ∃ m, sendBlock readBlock c =
        ({ c with tftpBuff := m, calls := c.calls + 1, blockSize := block.length, point := .transferring },
          [c.send c.serverPort (tftpPacket tftpOpData c.window block)]) ∧
      Holds { c with tftpBuff := m, calls := c.calls + 1, blockSize := block.length, point := .transferring }
        block := by
  obtain ⟨m, hm⟩ : ∃ m, m = writeBytes (putLe (putLe c.tftpBuff 0 2 tftpOpData) 2 2 (htons c.window)) 4 block :=
    ⟨_, rfl⟩
  have hlt : htons c.window < 256 ^ 2 := ntohs_lt c.window
  have hopcode : bytesAt m 0 2 = leBytes 2 tftpOpData := by
    rw [hm, bytesAt_writeBytes_disjoint _ _ _ _ _ (by omega), putLe,
      bytesAt_writeBytes_disjoint _ _ _ _ _ (by omega), bytesAt_putLe]
  have hseq : bytesAt m 2 2 = leBytes 2 (htons c.window) := by
    rw [hm, bytesAt_writeBytes_disjoint _ _ _ _ _ (by omega), bytesAt_putLe]
  have hblock : bytesAt m 4 block.length = block := by
    rw [hm, bytesAt_writeBytes]
  have hpacket : bytesAt m 0 (4 + block.length) = tftpPacket tftpOpData c.window block := by
    rw [Nat.add_assoc 2 2 block.length, bytesAt_add m 0 2, bytesAt_add m (0 + 2) 2, hopcode, hseq, hblock]
    rfl
  have hfield : getLe m 2 2 = htons c.window := by
    rw [getLe, hseq, leNat_leBytes, Nat.mod_eq_of_lt hlt]
  refine ⟨m, ?_, rfl, hpacket, hfield⟩
  unfold sendBlock
  simp only [hread, ← hm]
  rw [PutClient.data]
  simp only [hpacket]
  rfl

/-- The first acknowledgement binds the client to its session. -/
theorem recvFirst_ack (readBlock : ReadBlock) (c : PutClient) (hd : d.payload = tftpPacket tftpOpAck 0 []) :
    ∃ m, recvFirst readBlock c (some d) = sendBlock readBlock
      { c with tftpRespBuff := m, serverPort := d.sport, totalLen := 0, window := 1 } := by
  obtain ⟨hfour, hopcode, hseq⟩ := recvInto_header (m := c.tftpRespBuff) hd (by decide)
  generalize hr : recvInto c.tftpRespBuff 1024 (some d) = r at hfour hopcode hseq
  obtain ⟨n, m⟩ := r
  dsimp only at hfour hopcode hseq
  have hcheck : ¬ tftpCheckResp m n tftpOpAck < 0 := by
    rw [tftpCheckResp_of_header hfour hopcode (by decide)]
    decide
  have hfirst : ¬ getLe m 2 2 ≠ htons 0 := not_not_intro hseq
  have hzero : ¬ n = 0 := by omega
  refine ⟨m, ?_⟩
  unfold recvFirst
  rw [hr]
  dsimp only
  rw [if_neg hzero, if_neg hcheck, if_neg hfirst]
  rfl

/-- Only the acknowledgement of the window moves the client on. -/
theorem recvNext_ack (readBlock : ReadBlock) {k : Nat} {block : List Byte} (hk : k < 65536) (hwindow : c.window < 65536)
    (hd : d.payload = tftpPacket tftpOpAck k []) (hholds : c.Holds block) :
    ∃ m, recvNext readBlock c (some d) =
      if k = c.window then
        if block.length < tftpChunkSize then
          ({ c with tftpRespBuff := m, totalLen := c.totalLen + block.length, point := .returned 0 }, [])
        else sendBlock readBlock { c with
          tftpRespBuff := m
          totalLen := c.totalLen + block.length
          window := wrap16 (c.window + 1) }
      else ({ c with tftpRespBuff := m }, []) := by
  obtain ⟨hfour, hopcode, hseq⟩ := recvInto_header (m := c.tftpRespBuff) hd (by decide)
  generalize hr : recvInto c.tftpRespBuff 1024 (some d) = r at hfour hopcode hseq
  obtain ⟨n, m⟩ := r
  dsimp only at hfour hopcode hseq
  have hcheck : ¬ tftpCheckResp m n tftpOpAck < 0 := by
    rw [tftpCheckResp_of_header hfour hopcode (by decide)]
    decide
  have hnumber : getLe m 2 2 = getLe c.tftpBuff 2 2 ↔ k = c.window := by
    rw [hseq, hholds.seq]
    refine ⟨fun h => ?_, fun h => by rw [h]⟩
    rw [← ntohs_htons hk, ← ntohs_htons hwindow, h]
  have hzero : ¬ n = 0 := by omega
  refine ⟨m, ?_⟩
  unfold recvNext
  rw [hr]
  dsimp only
  rw [if_neg hzero, if_neg hcheck, hholds.size]
  by_cases h : k = c.window
  · rw [if_pos (hnumber.mpr h), if_pos h]
  · rw [if_neg (mt hnumber.mp h), if_neg h]

theorem recv_error (readBlock : ReadBlock) {code : Nat} {message : List Byte} (hpoint : ∀ r, c.point ≠ .returned r)
    (hd : d.payload = tftpPacket tftpOpError code message) :
    (recv readBlock c (some d)).1.point = .returned (-eBADPKT) := by
  obtain ⟨hlen, hopcode, -⟩ := recvInto_header (m := c.tftpRespBuff) hd (by decide)
  have hret : ¬ (recvInto c.tftpRespBuff 1024 (some d)).1 = 0 := by omega
  have hcheck := tftpCheckResp_error (n := (recvInto c.tftpRespBuff 1024 (some d)).1) tftpOpAck hopcode
  unfold recv
  split
  · unfold recvFirst
    simp only [if_neg hret, hcheck]
    rfl
  · unfold recvNext
    simp only [if_neg hret, hcheck]
    rfl
  · next r hr => exact absurd hr (hpoint r)

end PutClient

/-! ## The invariant -/

namespace PutSystem

/-- No block has been read, and no session has one. -/
structure Requesting (s : PutSystem) : Prop where
  request : 2 ≤ s.client.reqSize ∧ getLe s.client.tftpReq 0 2 = tftpOpWrq
  requests : ∀ d ∈ s.toServer, payloadOpcode d.payload = tftpOpWrq
  empty : ∀ p t, s.sessions p = some t → t = ⟨0, [], false⟩
  calls : s.client.calls = 0

/-- The client has sent block `window` and waits for its acknowledgement. -/
structure Transferring (blocks : Nat → List Byte) (last : Nat) (s : PutSystem) : Prop where
  window : 1 ≤ s.client.window ∧ s.client.window ≤ last + 1
  calls : s.client.calls = s.client.window
  holds : s.client.Holds (blocks (s.client.window - 1))
  bound : ∃ n, s.sessions s.client.serverPort = some (sessionAfter blocks n) ∧ n ≤ s.client.window ∧
    s.client.window ≤ n + 1
  datas : ∀ d ∈ s.toServer, payloadOpcode d.payload = tftpOpData → d.dport = s.client.serverPort ∧
    ∃ j, 1 ≤ j ∧ j ≤ s.client.window ∧ d.payload = tftpPacket tftpOpData j (blocks (j - 1))

/-- The session the client is bound to has stored every block, each read once. -/
structure Stored (blocks : Nat → List Byte) (last : Nat) (s : PutSystem) : Prop where
  session : s.sessions s.client.serverPort = some (sessionAfter blocks (last + 1))
  calls : s.client.calls = last + 1

def ClientOk (blocks : Nat → List Byte) (last : Nat) (s : PutSystem) : Prop :=
  match s.client.point with
  | .requesting => Requesting s
  | .transferring => Transferring blocks last s
  | .returned ret => ret = 0 → Stored blocks last s

structure Inv (blocks : Nat → List Byte) (last : Nat) (s : PutSystem) : Prop where
  port : ∀ p t, s.sessions p = some t → p ≠ 0
  sent : ∀ d ∈ s.toClient,
    (∃ t k, s.sessions d.sport = some t ∧ k ≤ t.received ∧ d.payload = tftpPacket tftpOpAck k []) ∨
    ∃ code message, d.payload = tftpPacket tftpOpError code message
  client : ClientOk blocks last s

section Steps

variable {readBlock : ReadBlock} {blocks : Nat → List Byte} {last : Nat} {s : PutSystem}

theorem ClientOk.of_requesting (hpoint : s.client.point = .requesting) (h : Requesting s) :
    ClientOk blocks last s := by
  unfold ClientOk
  rwa [hpoint]

theorem ClientOk.of_transferring (hpoint : s.client.point = .transferring)
    (h : Transferring blocks last s) : ClientOk blocks last s := by
  unfold ClientOk
  rwa [hpoint]

theorem ClientOk.of_returned {ret : Int} (hpoint : s.client.point = .returned ret)
    (h : ret = 0 → Stored blocks last s) : ClientOk blocks last s := by
  unfold ClientOk
  rwa [hpoint]

theorem Inv.requesting (h : Inv blocks last s) (hpoint : s.client.point = .requesting) :
    Requesting s := by
  have hclient := h.client
  unfold ClientOk at hclient
  rwa [hpoint] at hclient

theorem Inv.transferring (h : Inv blocks last s) (hpoint : s.client.point = .transferring) :
    Transferring blocks last s := by
  have hclient := h.client
  unfold ClientOk at hclient
  rwa [hpoint] at hclient

theorem Inv.stored (h : Inv blocks last s) {ret : Int} (hpoint : s.client.point = .returned ret)
    (hret : ret = 0) : Stored blocks last s := by
  have hclient := h.client
  unfold ClientOk at hclient
  rw [hpoint] at hclient
  exact hclient hret

theorem start_inv (h : Start s) : Inv blocks last s := by
  obtain ⟨clientIp, clientPort, filename, tftpReq, tftpBuff, tftpRespBuff, rfl⟩ := h
  refine ⟨nofun, nofun, ?_⟩
  unfold tftpPutFile
  cases hreq : tftpBuildReq tftpReq 128 tftpOpWrq filename with
  | error ret =>
    rw [tftpBuildReq_error hreq]
    exact .of_returned rfl fun hret => absurd hret (by decide)
  | ok r =>
    obtain ⟨n, m⟩ := r
    obtain ⟨hn, hopcode⟩ := tftpBuildReq_ok (by decide) hreq
    refine .of_requesting rfl ⟨⟨hn, hopcode⟩, fun d hd => ?_, nofun, rfl⟩
    cases List.mem_singleton.mp hd
    exact (payloadOpcode_bytesAt m hn).trans hopcode

/-- The client reads block `w` and sends it to the session it is bound to. -/
theorem sendBlock_ok (hread : readBlock.Returns blocks last) {c : PutClient} {w n : Nat}
    (hwindow : c.window = w + 1) (hw : w ≤ last) (hcalls : c.calls = w)
    (hbound : s.sessions c.serverPort = some (sessionAfter blocks n)) (hn : n ≤ w) (hw' : w ≤ n)
    (hdatas : ∀ d ∈ s.toServer, payloadOpcode d.payload = tftpOpData → d.dport = c.serverPort ∧
      ∃ j, 1 ≤ j ∧ j ≤ w ∧ d.payload = tftpPacket tftpOpData j (blocks (j - 1))) :
    ClientOk blocks last { s with
      client := (c.sendBlock readBlock).1
      toServer := s.toServer ++ (c.sendBlock readBlock).2 } := by
  have hblock : readBlock c.calls = .ok (blocks w) := by rw [hcalls, hread.read w hw]
  obtain ⟨m, hsend, hholds⟩ := PutClient.sendBlock_ok hblock
  rw [hsend]
  refine .of_transferring rfl ⟨?_, ?_, ?_, ⟨n, hbound, ?_, ?_⟩, fun d hd hopcode => ?_⟩
  · show 1 ≤ c.window ∧ c.window ≤ last + 1
    omega
  · show c.calls + 1 = c.window
    omega
  · show PutClient.Holds _ (blocks (c.window - 1))
    have hindex : c.window - 1 = w := by omega
    rw [hindex]
    exact hholds
  · show n ≤ c.window
    omega
  · show c.window ≤ n + 1
    omega
  · show d.dport = c.serverPort ∧ ∃ j, 1 ≤ j ∧ j ≤ c.window ∧ _
    obtain hold | hnew := List.mem_append.mp hd
    · obtain ⟨hport, j, hone, hj, hpayload⟩ := hdatas d hold hopcode
      exact ⟨hport, j, hone, by omega, hpayload⟩
    · cases List.mem_singleton.mp hnew
      have hindex : c.window - 1 = w := by omega
      refine ⟨rfl, c.window, by omega, Nat.le_refl _, ?_⟩
      rw [hindex]
      rfl

theorem timeout_inv (h : Inv blocks last s) : Inv blocks last (s.recv readBlock none) := by
  refine ⟨h.port, h.sent, ?_⟩
  cases hpoint : s.client.point with
  | requesting =>
    have hreq := h.requesting hpoint
    have hrecv : s.client.recv readBlock none = (s.client, [s.client.request]) := by
      unfold PutClient.recv
      rw [hpoint]
      exact PutClient.recvFirst_none _ _
    unfold PutSystem.recv
    rw [hrecv]
    refine .of_requesting hpoint ⟨hreq.request, fun d hd => ?_, hreq.empty, hreq.calls⟩
    obtain hold | hnew := List.mem_append.mp hd
    · exact hreq.requests d hold
    · cases List.mem_singleton.mp hnew
      exact (payloadOpcode_bytesAt _ hreq.request.1).trans hreq.request.2
  | transferring =>
    have ht := h.transferring hpoint
    have hrecv : s.client.recv readBlock none = (s.client, [s.client.data]) := by
      unfold PutClient.recv
      rw [hpoint]
      exact PutClient.recvNext_none _ _
    unfold PutSystem.recv
    rw [hrecv]
    refine .of_transferring hpoint ⟨ht.window, ht.calls, ht.holds, ht.bound, fun d hd hopcode => ?_⟩
    obtain hold | hnew := List.mem_append.mp hd
    · exact ht.datas d hold hopcode
    · cases List.mem_singleton.mp hnew
      rw [ht.holds.data]
      exact ⟨rfl, s.client.window, ht.window.1, Nat.le_refl _, rfl⟩
  | returned ret =>
    have hrecv : s.client.recv readBlock none = (s.client, []) := by
      unfold PutClient.recv
      rw [hpoint]
    unfold PutSystem.recv
    rw [hrecv]
    exact .of_returned hpoint fun hret => ⟨(h.stored hpoint hret).session, (h.stored hpoint hret).calls⟩

/-- The acknowledgement of the request arrives. -/
theorem deliver_first_inv (hread : readBlock.Returns blocks last) (h : Inv blocks last s)
    (hpoint : s.client.point = .requesting) {d : UdpDispatch} {t : PutSession}
    (hd : d.payload = tftpPacket tftpOpAck 0 []) (hsession : s.sessions d.sport = some t) :
    ClientOk blocks last (s.recv readBlock (some d)) := by
  have hreq := h.requesting hpoint
  obtain ⟨m, hrecv⟩ := PutClient.recvFirst_ack readBlock s.client hd
  have hstep : s.client.recv readBlock (some d) = s.client.recvFirst readBlock (some d) := by
    unfold PutClient.recv
    rw [hpoint]
  have hbound : s.sessions d.sport = some (sessionAfter blocks 0) := by
    rw [hsession, sessionAfter_zero, hreq.empty _ _ hsession]
  unfold PutSystem.recv
  rw [hstep, hrecv]
  refine sendBlock_ok hread rfl (Nat.zero_le last) hreq.calls hbound (Nat.le_refl 0) (Nat.le_refl 0)
    (fun d' hd' hopcode => ?_)
  rw [hreq.requests d' hd'] at hopcode
  exact absurd hopcode (by decide)

/-- An acknowledgement from the session the client is bound to arrives. -/
theorem deliver_next_inv (hread : readBlock.Returns blocks last) (h : Inv blocks last s)
    (hpoint : s.client.point = .transferring) {d : UdpDispatch} {k n : Nat}
    (hd : d.payload = tftpPacket tftpOpAck k [])
    (hsession : s.sessions s.client.serverPort = some (sessionAfter blocks n)) (hk : k ≤ n)
    (hn : n ≤ s.client.window) (hnext : s.client.window ≤ n + 1) : ClientOk blocks last (s.recv readBlock (some d)) := by
  have ht := h.transferring hpoint
  have hwindow := ht.window
  have hfew := hread.few
  obtain ⟨m, hrecv⟩ := PutClient.recvNext_ack readBlock (by omega) (by omega) hd ht.holds
  have hstep : s.client.recv readBlock (some d) = s.client.recvNext readBlock (some d) := by
    unfold PutClient.recv
    rw [hpoint]
  unfold PutSystem.recv
  rw [hstep, hrecv]
  split_ifs with hnumber hshort
  · -- A short block is the last one, and its session has acknowledged it.
    have hlast : s.client.window = last + 1 := by
      by_contra hne
      have hfull := hread.full (s.client.window - 1) (by omega)
      rw [hfull] at hshort
      exact absurd hshort (by decide)
    have hstored : n = last + 1 := by omega
    refine .of_returned rfl fun _ => ⟨?_, ht.calls.trans hlast⟩
    rw [← hstored]
    exact hsession
  · have hmore : s.client.window ≤ last := by
      by_contra hne
      have hindex : s.client.window - 1 = last := by omega
      rw [hindex] at hshort
      exact hshort hread.short
    have hwrap : wrap16 (s.client.window + 1) = s.client.window + 1 := wrap16_of_lt (by omega)
    rw [hwrap]
    exact sendBlock_ok hread rfl hmore ht.calls hsession hn (by omega) ht.datas
  · dsimp only
    rw [List.append_nil]
    exact .of_transferring hpoint ⟨ht.window, ht.calls, ⟨ht.holds.size, ht.holds.packet, ht.holds.seq⟩,
      ⟨n, hsession, hn, hnext⟩, ht.datas⟩

theorem deliver_inv (hread : readBlock.Returns blocks last) (h : Inv blocks last s) {d : UdpDispatch}
    (hd : d ∈ s.toClient) (htakes : s.client.Takes d) : Inv blocks last (s.recv readBlock (some d)) := by
  refine ⟨h.port, h.sent, ?_⟩
  obtain ⟨-, -, hsport⟩ := htakes.port
  obtain ⟨t, k, hsession, hk, hpayload⟩ | ⟨code, message, hpayload⟩ := h.sent d hd
  · cases hp : s.client.point with
    | requesting =>
      have hempty := (h.requesting hp).empty _ _ hsession
      obtain rfl : k = 0 := by
        rw [hempty] at hk
        exact Nat.le_zero.mp hk
      exact deliver_first_inv hread h hp hpayload hsession
    | transferring =>
      obtain ⟨n, hn, hle, hnext⟩ := (h.transferring hp).bound
      rw [hsport hp (h.port _ _ hn)] at hsession
      cases hsession.symm.trans hn
      exact deliver_next_inv hread h hp hpayload hn hk hle hnext
    | returned r => exact absurd hp (htakes.not_returned r)
  · have hreturned := PutClient.recv_error readBlock htakes.not_returned hpayload
    exact .of_returned hreturned fun hret => absurd hret (by decide)

/-- A session is opened or stores a block; `hclient` is all that concerns the client. -/
theorem setSession_inv (h : Inv blocks last s) {port : Nat} {t : PutSession} (hne : port ≠ 0)
    (hold : ∀ t', s.sessions port = some t' → t'.received ≤ t.received)
    (hclient : ClientOk blocks last (s.setSession port t)) : Inv blocks last (s.setSession port t) := by
  refine ⟨fun p t' ht' => ?_, fun d hd => ?_, hclient⟩
  · by_cases hp : p = port
    · exact hp ▸ hne
    · rw [TftpSystem.setSession_of_ne _ _ hp] at ht'
      exact h.port p t' ht'
  · obtain ⟨t', k, ht', hk, hpayload⟩ | herror := h.sent d hd
    · refine .inl ?_
      by_cases hp : d.sport = port
      · refine ⟨t, k, ?_, hk.trans (hold t' (hp ▸ ht')), hpayload⟩
        rw [hp, TftpSystem.setSession_self]
      · refine ⟨t', k, ?_, hk, hpayload⟩
        rw [TftpSystem.setSession_of_ne _ _ hp, ht']
    · exact .inr herror

theorem openSession_inv (h : Inv blocks last s) {port : Nat} (hne : port ≠ 0)
    (hnew : s.sessions port = none) : Inv blocks last (s.setSession port ⟨0, [], false⟩) := by
  refine setSession_inv h hne (fun t' ht' => ?_) ?_
  · rw [hnew] at ht'
    cases ht'
  have hother : ∀ {t}, s.sessions s.client.serverPort = some t →
      (s.setSession port ⟨0, [], false⟩).sessions s.client.serverPort = some t := by
    intro t ht
    refine (s.setSession_of_ne _ ?_).trans ht
    rintro hport
    rw [hport, hnew] at ht
    cases ht
  cases hp : s.client.point with
  | requesting =>
    have hreq := h.requesting hp
    refine .of_requesting hp ⟨hreq.request, hreq.requests, fun p t ht => ?_, hreq.calls⟩
    by_cases hport : p = port
    · rw [hport, TftpSystem.setSession_self] at ht
      exact (Option.some.inj ht).symm
    · rw [TftpSystem.setSession_of_ne _ _ hport] at ht
      exact hreq.empty p t ht
  | transferring =>
    have ht := h.transferring hp
    obtain ⟨n, hn, hle⟩ := ht.bound
    exact .of_transferring hp ⟨ht.window, ht.calls, ht.holds, ⟨n, hother hn, hle⟩, ht.datas⟩
  | returned ret =>
    exact .of_returned hp fun hret =>
      ⟨hother (h.stored hp hret).session, (h.stored hp hret).calls⟩

/-- The block a session waits for comes from a client bound to it. -/
theorem recvData_inv (hread : readBlock.Returns blocks last) (h : Inv blocks last s) {d : UdpDispatch}
    {t : PutSession} (hsession : s.sessions d.dport = some t) (hd : d ∈ s.toServer)
    (hopcode : payloadOpcode d.payload = tftpOpData)
    (hseq : payloadSeq d.payload = (t.received + 1) % 65536) (hmore : t.complete = false) :
    Inv blocks last (s.setSession d.dport (t.store (d.payload.drop 4))) := by
  refine setSession_inv h (h.port _ _ hsession) (fun t' ht' => ?_) ?_
  · cases hsession.symm.trans ht'
    exact Nat.le_succ _
  cases hp : s.client.point with
  | requesting =>
    have hwrq := (h.requesting hp).requests d hd
    rw [hopcode] at hwrq
    exact absurd hwrq (by decide)
  | transferring =>
    have ht := h.transferring hp
    have hwindow := ht.window
    have hfew := hread.few
    obtain ⟨hport, j, hone, hj, hpayload⟩ := ht.datas d hd hopcode
    obtain ⟨n, hn, hle, hwait⟩ := ht.bound
    rw [hport] at hsession ⊢
    cases hsession.symm.trans hn
    have hnumber : j = (n + 1) % 65536 := by
      have hjseq := payloadSeq_tftpPacket tftpOpData (show j < 65536 by omega) (blocks (j - 1))
      rw [← hpayload, hseq] at hjseq
      exact hjseq.symm
    have hnext : j = n + 1 := by omega
    have hbound : n + 1 ≤ s.client.window := hnext ▸ hj
    have hblock : d.payload.drop 4 = blocks n := by
      rw [hpayload, hnext, Nat.add_sub_cancel]
      rfl
    rw [hblock, sessionAfter_store]
    refine .of_transferring hp ⟨ht.window, ht.calls, ht.holds, ⟨n + 1, ?_, hbound, hwait.trans (Nat.le_succ _)⟩, ht.datas⟩
    exact s.setSession_self _ _
  | returned ret =>
    refine .of_returned hp fun hret => ?_
    have hstored := h.stored hp hret
    refine ⟨(s.setSession_of_ne _ ?_).trans hstored.session, hstored.calls⟩
    -- The session the client was bound to is complete.
    intro hport
    replace hport : s.client.serverPort = d.dport := hport
    rw [← hport, hstored.session] at hsession
    cases hsession
    rw [hread.complete] at hmore
    cases hmore

/-- A session sends a packet: an acknowledgement of what it has received, or an error. -/
theorem reply_inv (h : Inv blocks last s) {port : Nat} {payload : List Byte}
    (hpayload : (∃ t k, s.sessions port = some t ∧ k ≤ t.received ∧ payload = tftpPacket tftpOpAck k []) ∨
      ∃ code message, payload = tftpPacket tftpOpError code message) :
    Inv blocks last (s.reply s.client.clientPort port payload) := by
  refine ⟨h.port, fun d hd => ?_, ?_⟩
  · obtain hold | hnew := List.mem_append.mp hd
    · exact h.sent d hold
    · cases List.mem_singleton.mp hnew
      exact hpayload
  · cases hp : s.client.point with
    | requesting =>
      have hreq := h.requesting hp
      exact .of_requesting hp ⟨hreq.request, hreq.requests, hreq.empty, hreq.calls⟩
    | transferring =>
      have ht := h.transferring hp
      exact .of_transferring hp ⟨ht.window, ht.calls, ht.holds, ht.bound, ht.datas⟩
    | returned ret =>
      exact .of_returned hp fun hret => ⟨(h.stored hp hret).session, (h.stored hp hret).calls⟩

theorem lose_inv (h : Inv blocks last s) (d : UdpDispatch) : Inv blocks last (s.lose d) := by
  refine ⟨h.port, fun d' hd' => h.sent d' (List.mem_of_mem_erase hd'), ?_⟩
  cases hp : s.client.point with
  | requesting =>
    have hreq := h.requesting hp
    exact .of_requesting hp
      ⟨hreq.request, fun d' hd' => hreq.requests d' (List.mem_of_mem_erase hd'), hreq.empty, hreq.calls⟩
  | transferring =>
    have ht := h.transferring hp
    exact .of_transferring hp
      ⟨ht.window, ht.calls, ht.holds, ht.bound, fun d' hd' => ht.datas d' (List.mem_of_mem_erase hd')⟩
  | returned ret =>
    exact .of_returned hp fun hret => ⟨(h.stored hp hret).session, (h.stored hp hret).calls⟩

theorem step_inv (hread : readBlock.Returns blocks last) {s' : PutSystem} {e : PutEvent}
    (h : Inv blocks last s) (hstep : step readBlock s e = some s') : Inv blocks last s' := by
  cases e with
  | timeout =>
    simp only [step] at hstep
    split_ifs at hstep
    cases hstep
    exact timeout_inv h
  | deliver d =>
    simp only [step] at hstep
    split_ifs at hstep with hd htakes
    · cases hstep
      have hforeign : ¬ s.client.Foreign d := fun hf => hf ⟨htakes.port.1, htakes.port.2.1⟩
      exact deliver_inv hread h (hd.resolve_right hforeign) htakes
    · cases hstep
      exact h
  | openSession d port =>
    simp only [step] at hstep
    split_ifs at hstep with hopen
    cases hstep
    exact openSession_inv h hopen.2.2.2.1 (Option.isNone_iff_eq_none.mp hopen.2.2.2.2)
  | recvData d =>
    simp only [step] at hstep
    split at hstep
    · next t ht =>
      split_ifs at hstep with hdata
      cases hstep
      exact recvData_inv hread h ht hdata.1 hdata.2.1 hdata.2.2.1 hdata.2.2.2
    · cases hstep
  | sendAck port k =>
    simp only [step] at hstep
    split at hstep
    · next t ht =>
      split_ifs at hstep with hk
      cases hstep
      exact reply_inv h (.inl ⟨t, k, ht, hk, rfl⟩)
    · cases hstep
  | sendError port code message =>
    simp only [step] at hstep
    split at hstep
    · cases hstep
      exact reply_inv h (.inr ⟨code, message, rfl⟩)
    · cases hstep
  | lose d =>
    cases hstep
    exact lose_inv h d

end Steps

/-! ## Every run -/

theorem reachable_inv {readBlock : ReadBlock} {blocks : Nat → List Byte} {last : Nat}
    (hread : readBlock.Returns blocks last) {s : PutSystem} (h : Reachable Start (step readBlock) s) :
    Inv blocks last s :=
  h.invariant (fun _ => start_inv) fun _ _ _ => step_inv hread

/-- The session the client is bound to has stored what `read_block` returned, each block once. -/
theorem reachable_stored {readBlock : ReadBlock} {blocks : Nat → List Byte} {last : Nat}
    (hread : readBlock.Returns blocks last) {s : PutSystem} (h : Reachable Start (step readBlock) s)
    (hret : s.client.point = .returned 0) :
    s.client.calls = last + 1 ∧ ∃ t, s.sessions s.client.serverPort = some t ∧
      t.stored = ((List.range (last + 1)).map blocks).flatten ∧ t.received = last + 1 ∧
      t.complete = true := by
  have hstored := (reachable_inv hread h).stored hret rfl
  exact ⟨hstored.calls, _, hstored.session, rfl, rfl, hread.complete⟩

def smallPort : ClientPort := ⟨50000, by decide⟩

def smallStart : PutSystem :=
  let start := tftpPutFile (ipv4Compatible 0x0201a8c0) smallPort [0x6f, 0x75, 0x74] (fun _ => 0)
    (fun _ => 0) fun _ => 0
  ⟨start.1, start.2, [], fun _ => none⟩

/-- A full block and a last block of one byte. -/
def smallBlocks (k : Nat) : List Byte := if k = 0 then List.replicate 512 7 else [1]

def smallReadBlock : ReadBlock := fun k => .ok (smallBlocks k)

def smallData (k : Nat) : UdpDispatch :=
  ⟨4000, ipv4Compatible 0x0201a8c0, 50000, tftpPacket tftpOpData k (smallBlocks (k - 1))⟩

/-- Block 1 is sent twice, its acknowledgement arrives twice, and a repeated request opens a
second session. -/
def smallRun : List PutEvent :=
  let request : UdpDispatch := (smallStart.toServer.head?).getD ⟨0, ipv6Unspecified, 0, []⟩
  let ack (k : Nat) : UdpDispatch := ⟨50000, tftpServerIp, 4000, tftpPacket tftpOpAck k []⟩
  [.timeout, .openSession request 4000, .openSession request 4001, .sendAck 4001 0, .sendAck 4000 0,
    .deliver (ack 0), .timeout, .recvData (smallData 1), .sendAck 4000 1, .deliver (ack 1), .deliver (ack 1),
    .recvData (smallData 2), .sendAck 4000 2, .deliver (ack 2)]

theorem smallReadBlock_returns : smallReadBlock.Returns smallBlocks 1 := by
  refine ⟨fun _ _ => rfl, fun k hk => ?_, by decide, by decide⟩
  obtain rfl : k = 0 := by omega
  exact List.length_replicate

theorem reachable_stored_small : ∃ s, runSteps (step smallReadBlock) smallStart smallRun = some s ∧
    s.client.calls = 2 ∧ ∃ t, s.sessions s.client.serverPort = some t ∧
      t.stored = ((List.range 2).map smallBlocks).flatten ∧ t.received = 2 ∧ t.complete = true := by
  have hrun : (runSteps (step smallReadBlock) smallStart smallRun).map (fun s => s.client.point) =
      some (.returned 0) := by
    decide +kernel
  obtain ⟨s, hs, hret⟩ := Option.map_eq_some_iff.mp hrun
  have hreach : Reachable Start (step smallReadBlock) s :=
    ⟨smallStart, smallRun, ⟨_, _, _, _, _, _, rfl⟩, hs⟩
  exact ⟨s, hs, reachable_stored smallReadBlock_returns hreach hret⟩

end PutSystem

end VijosOS
