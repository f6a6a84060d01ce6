import VijosOS.Tftp.Get

/-!
# A downloaded file is the server's file

No session is ahead of its first block before the client is bound to one, and the session
the client is bound to is never ahead of the client's window. So the block in the window
comes next in the file, and the blocks copied are blocks 1, 2, ... of one session.
-/

namespace VijosOS

open Library

/-! ## Blocks of a file -/

theorem fileBlock_length_le (file : List Byte) (k : Nat) : (fileBlock file k).length ≤ 512 :=
  List.length_take_le _ _

theorem fileBlock_length {file : List Byte} {k : Nat} (h : 512 * (k - 1) ≤ file.length) :
    512 * (k - 1) + (fileBlock file k).length = min (512 * (k - 1) + 512) file.length := by
  rw [fileBlock, List.length_take, List.length_drop]
  unfold tftpChunkSize
  omega

theorem take_fileBlock (file : List Byte) (k : Nat) :
    file.take (512 * (k - 1)) ++ fileBlock file k =
      file.take (512 * (k - 1) + (fileBlock file k).length) := by
  rw [List.take_add]
  congr 1
  unfold fileBlock tftpChunkSize
  rw [List.length_take, List.take_eq_take_min]

/-- The datagram with block `k`, from the session at `port`. -/
def dataDatagram (file : List Byte) (clientPort : ClientPort) (port k : Nat) : UdpDispatch :=
  ⟨clientPort, tftpServerIp, port, tftpPacket tftpOpData k (fileBlock file k)⟩

/-! ## The client -/

/-- The blocks before `w` are copied, all from the session at `port`. -/
structure GetClient.Prefix (file : List Byte) (c : GetClient) (port w : Nat) : Prop where
  offset : c.offset = 512 * (w - 1)
  total : c.totalLen = 512 * (w - 1)
  within : 512 * (w - 1) ≤ file.length
  bytes : bytesAt c.buff 0 c.offset = file.take c.offset
  accepted : c.accepted = (List.range (w - 1)).map fun i => dataDatagram file c.clientPort port (i + 1)

/-- The whole file is copied, from the session the client is bound to. -/
structure GetClient.Received (file : List Byte) (c : GetClient) : Prop where
  outLen : c.outLen = some file.length
  bytes : bytesAt c.buff 0 file.length = file
  accepted : c.accepted = (List.range (file.length / 512 + 1)).map fun i =>
    dataDatagram file c.clientPort c.serverPort (i + 1)

namespace GetClient.Prefix

variable {file : List Byte} {c : GetClient} {port w : Nat}

theorem copyBlock_bytes (h : c.Prefix file port w)
    (hdata : bytesAt c.tftpBuff 4 (fileBlock file w).length = fileBlock file w) (d : Option UdpDispatch) :
    let c' := c.copyBlock (fileBlock file w).length d
    bytesAt c'.buff 0 c'.offset = file.take c'.offset := by
  show bytesAt (writeBytes c.buff c.offset (bytesAt c.tftpBuff 4 (fileBlock file w).length)) 0
    (c.offset + (fileBlock file w).length) = file.take (c.offset + (fileBlock file w).length)
  have hbefore : bytesAt (writeBytes c.buff c.offset (fileBlock file w)) 0 c.offset =
      bytesAt c.buff 0 c.offset := bytesAt_writeBytes_disjoint _ _ _ _ _ (by omega)
  have hblock := bytesAt_writeBytes c.buff c.offset (fileBlock file w)
  rw [hdata, bytesAt_add, hbefore, Nat.zero_add, hblock, h.bytes, h.offset, take_fileBlock]

theorem copyBlock_accepted (h : c.Prefix file port w) (hw : 1 ≤ w) :
    c.accepted ++ [dataDatagram file c.clientPort port w] =
      (List.range w).map fun i => dataDatagram file c.clientPort port (i + 1) := by
  obtain ⟨k, rfl⟩ : ∃ k, w = k + 1 := ⟨w - 1, by omega⟩
  rw [h.accepted, Nat.add_sub_cancel, List.range_succ, List.map_append]
  rfl

theorem copyBlock_full (h : c.Prefix file port w) (hw : 1 ≤ w)
    (hdata : bytesAt c.tftpBuff 4 (fileBlock file w).length = fileBlock file w)
    (hfull : ¬ (fileBlock file w).length < 512) :
    (c.copyBlock (fileBlock file w).length (some (dataDatagram file c.clientPort port w))).Prefix
      file port (w + 1) := by
  have hlen : (fileBlock file w).length = 512 := by
    have := fileBlock_length_le file w
    omega
  have hend := fileBlock_length h.within
  have hoffset : 512 * (w - 1) + 512 = 512 * (w + 1 - 1) := by omega
  refine ⟨?_, ?_, by omega, h.copyBlock_bytes hdata _, h.copyBlock_accepted hw⟩
  · rw [← hoffset, ← h.offset]
    exact congrArg (c.offset + ·) hlen
  · rw [← hoffset, ← h.total]
    exact congrArg (c.totalLen + ·) hlen

theorem copyBlock_short (h : c.Prefix file port w) (hw : 1 ≤ w) (hport : c.serverPort = port)
    (hdata : bytesAt c.tftpBuff 4 (fileBlock file w).length = fileBlock file w)
    (hshort : (fileBlock file w).length < 512) :
    (c.copyBlock (fileBlock file w).length
      (some (dataDatagram file c.clientPort port w))).finish.Received file := by
  have hend := fileBlock_length h.within
  have hwithin := h.within
  have hlen : 512 * (w - 1) + (fileBlock file w).length = file.length := by omega
  have hcount : file.length / 512 + 1 = w := by omega
  refine ⟨?_, ?_, ?_⟩
  · rw [← hlen, ← h.total]
    rfl
  · have hbytes := h.copyBlock_bytes hdata none
    have hoffset : c.offset + (fileBlock file w).length = file.length := by rw [h.offset, hlen]
    simp only [GetClient.copyBlock, hoffset, List.take_length] at hbytes
    exact hbytes
  · rw [hcount]
    subst hport
    exact h.copyBlock_accepted hw

end GetClient.Prefix

/-! ## What the client does with a packet -/

namespace GetClient

variable {c : GetClient} {d : UdpDispatch}

theorem recvFirst_none (c : GetClient) : c.recvFirst none = (c, [c.request]) := rfl

theorem recvNext_none (c : GetClient) :
    c.recvNext none = ({ c with point := .returned (-eBADPKT) }, []) := rfl

/-- An error packet ends the transfer with an error. -/
theorem recv_error {code : Nat} {message : List Byte} (hpoint : ∀ r, c.point ≠ .returned r)
    (hd : d.payload = tftpPacket tftpOpError code message) :
    (c.recv (some d)).1.point = .returned (-eBADPKT) := by
  obtain ⟨hlen, hopcode, -⟩ := recvInto_header (m := c.tftpBuff) hd (by decide)
  have hret : ¬ (recvInto c.tftpBuff 1024 (some d)).1 = 0 := by omega
  have hcheck := tftpCheckResp_error (n := (recvInto c.tftpBuff 1024 (some d)).1) tftpOpData hopcode
  unfold recv
  split
  · unfold recvFirst
    simp only [if_neg hret, hcheck]
    rfl
  · unfold recvNext
    simp only [if_neg hret, hcheck]
    rfl
  · next r hr => exact absurd hr (hpoint r)

/-- The first block is copied and acknowledged, and binds the client to its session. -/
theorem recvFirst_data {data : List Byte} (hd : d.payload = tftpPacket tftpOpData 1 data)
    (hlen : data.length ≤ 1020) :
    ∃ m, bytesAt m 4 data.length = data ∧
      c.recvFirst (some d) =
        (let c₂ := copyBlock { c with tftpBuff := m, serverPort := d.sport, totalLen := 0, offset := 0 }
          data.length (some d)
        if data.length < tftpChunkSize then c₂.finish
        else { c₂ with window := 2, point := .transferring }, [c.send d.sport (tftpPacket tftpOpAck 1 [])]) := by
  obtain ⟨hfour, hopcode, hseq⟩ := recvInto_header (m := c.tftpBuff) hd (by decide)
  obtain ⟨hret, hbytes⟩ := recvInto_data (m := c.tftpBuff) hd hlen
  generalize hr : recvInto c.tftpBuff 1024 (some d) = r at hfour hopcode hseq hret hbytes
  obtain ⟨n, m⟩ := r
  dsimp only at hfour hopcode hseq hret hbytes
  subst hret
  have hcheck : ¬ tftpCheckResp m (4 + data.length) tftpOpData < 0 := by
    rw [tftpCheckResp_of_header hfour hopcode (by decide)]
    decide
  have hfirst : ¬ getLe m 2 2 ≠ htons 1 := not_not_intro hseq
  have hzero : ¬ 4 + data.length = 0 := by omega
  refine ⟨putLe m 0 2 tftpOpAck, ?_, ?_⟩
  · exact (bytesAt_writeBytes_disjoint _ _ _ _ _ (by simp)).trans hbytes
  · unfold recvFirst
    rw [hr]
    dsimp only
    rw [if_neg hzero, if_neg hcheck, if_neg hfirst, bytesAt_setOpcode hseq, Nat.add_sub_cancel_left]
    split_ifs <;> rfl

/-- The block of the window is copied; every block is acknowledged. -/
theorem recvNext_data {k : Nat} {data : List Byte} (hk : k < 65536)
    (hd : d.payload = tftpPacket tftpOpData k data) (hlen : data.length ≤ 1020) :
    ∃ m, bytesAt m 4 data.length = data ∧
      c.recvNext (some d) =
        (if k = c.window then
          let c₂ := copyBlock { c with tftpBuff := m } data.length (some d)
          if data.length < tftpChunkSize then c₂.finish
          else { c₂ with window := wrap16 (c.window + 1) }
        else { c with tftpBuff := m }, [c.send c.serverPort (tftpPacket tftpOpAck k [])]) := by
  obtain ⟨hfour, hopcode, hseq⟩ := recvInto_header (m := c.tftpBuff) hd (by decide)
  obtain ⟨hret, hbytes⟩ := recvInto_data (m := c.tftpBuff) hd hlen
  generalize hr : recvInto c.tftpBuff 1024 (some d) = r at hfour hopcode hseq hret hbytes
  obtain ⟨n, m⟩ := r
  dsimp only at hfour hopcode hseq hret hbytes
  subst hret
  have hcheck : ¬ tftpCheckResp m (4 + data.length) tftpOpData < 0 := by
    rw [tftpCheckResp_of_header hfour hopcode (by decide)]
    decide
  have hzero : ¬ 4 + data.length = 0 := by omega
  have hnumber : ntohs (getLe (putLe m 0 2 tftpOpAck) 2 2) = k := by
    rw [getLe_putLe_disjoint _ _ _ _ _ _ (by omega), hseq, ntohs_htons hk]
  refine ⟨putLe m 0 2 tftpOpAck, ?_, ?_⟩
  · exact (bytesAt_writeBytes_disjoint _ _ _ _ _ (by simp)).trans hbytes
  · unfold recvNext
    rw [hr]
    dsimp only
    rw [if_neg hzero, if_neg hcheck, bytesAt_setOpcode hseq, Nat.add_sub_cancel_left, hnumber]
    split_ifs <;> rfl

end GetClient

/-! ## The invariant -/

namespace GetSystem

/-- No session has been acknowledged. -/
structure Requesting (file : List Byte) (s : GetSystem) : Prop where
  request : 2 ≤ s.client.reqSize ∧ getLe s.client.tftpReq 0 2 = tftpOpRrq
  requests : ∀ d ∈ s.toServer, payloadOpcode d.payload = tftpOpRrq
  first : ∀ p k, s.sessions p = some k → k = 1
  accepted : s.client.accepted = []

/-- The client waits for block `window` of the session it is bound to. -/
structure Transferring (file : List Byte) (s : GetSystem) : Prop where
  window : 2 ≤ s.client.window
  copied : s.client.Prefix file s.client.serverPort s.client.window
  bound : ∃ k, s.sessions s.client.serverPort = some k ∧ k ≤ s.client.window ∧ s.client.window ≤ k + 1
  acks : ∀ d ∈ s.toServer, payloadOpcode d.payload = tftpOpAck →
    d.dport = s.client.serverPort ∧ payloadSeq d.payload < s.client.window

def ClientOk (file : List Byte) (s : GetSystem) : Prop :=
  match s.client.point with
  | .requesting => Requesting file s
  | .transferring => Transferring file s
  | .returned ret => ret = 0 → s.client.Received file

structure Inv (file : List Byte) (s : GetSystem) : Prop where
  session : ∀ p k, s.sessions p = some k → p ≠ 0 ∧ 1 ≤ k ∧ 512 * (k - 1) ≤ file.length
  sent : ∀ d ∈ s.toClient,
    (∃ k j, s.sessions d.sport = some k ∧ 1 ≤ j ∧ j ≤ k ∧
      d.payload = tftpPacket tftpOpData j (fileBlock file j)) ∨
    ∃ code message, d.payload = tftpPacket tftpOpError code message
  client : ClientOk file s

theorem Inv.requesting {file : List Byte} {s : GetSystem} (h : Inv file s)
    (hpoint : s.client.point = .requesting) : Requesting file s := by
  have hclient := h.client
  unfold ClientOk at hclient
  rwa [hpoint] at hclient

theorem Inv.transferring {file : List Byte} {s : GetSystem} (h : Inv file s)
    (hpoint : s.client.point = .transferring) : Transferring file s := by
  have hclient := h.client
  unfold ClientOk at hclient
  rwa [hpoint] at hclient

theorem ClientOk.of_requesting {file : List Byte} {s : GetSystem} (hpoint : s.client.point = .requesting)
    (h : Requesting file s) : ClientOk file s := by
  unfold ClientOk
  rwa [hpoint]

theorem ClientOk.of_transferring {file : List Byte} {s : GetSystem}
    (hpoint : s.client.point = .transferring) (h : Transferring file s) : ClientOk file s := by
  unfold ClientOk
  rwa [hpoint]

theorem ClientOk.of_returned {file : List Byte} {s : GetSystem} {ret : Int}
    (hpoint : s.client.point = .returned ret) (hret : ret ≠ 0) : ClientOk file s := by
  unfold ClientOk
  rw [hpoint]
  exact fun h => absurd h hret

section Steps

variable {file : List Byte} {s : GetSystem}

theorem start_inv (h : Start s) : Inv file s := by
  obtain ⟨clientIp, clientPort, filename, tftpReq, tftpBuff, buff, rfl⟩ := h
  refine ⟨nofun, nofun, ?_⟩
  unfold tftpGetFile
  cases hreq : tftpBuildReq tftpReq 128 tftpOpRrq filename with
  | error ret =>
    rw [tftpBuildReq_error hreq]
    exact ClientOk.of_returned rfl (by decide)
  | ok r =>
    obtain ⟨n, m⟩ := r
    obtain ⟨hn, hopcode⟩ := tftpBuildReq_ok (by decide) hreq
    refine .of_requesting rfl ⟨⟨hn, hopcode⟩, fun d hd => ?_, nofun, rfl⟩
    cases List.mem_singleton.mp hd
    exact (payloadOpcode_bytesAt m hn).trans hopcode

theorem timeout_inv (h : Inv file s) : Inv file (s.recv none) := by
  refine ⟨h.session, h.sent, ?_⟩
  cases hpoint : s.client.point with
  | requesting =>
    have hreq := h.requesting hpoint
    have hrecv : s.client.recv none = (s.client, [s.client.request]) := by
      unfold GetClient.recv
      rw [hpoint]
      exact GetClient.recvFirst_none _
    unfold GetSystem.recv
    rw [hrecv]
    refine .of_requesting hpoint ⟨hreq.request, fun d hd => ?_, hreq.first, hreq.accepted⟩
    obtain hold | hnew := List.mem_append.mp hd
    · exact hreq.requests d hold
    · cases List.mem_singleton.mp hnew
      exact (payloadOpcode_bytesAt _ hreq.request.1).trans hreq.request.2
  | transferring =>
    have hrecv : s.client.recv none = ({ s.client with point := .returned (-eBADPKT) }, []) := by
      unfold GetClient.recv
      rw [hpoint]
      exact GetClient.recvNext_none _
    have hne : -eBADPKT ≠ 0 := by decide
    refine ClientOk.of_returned ?_ hne
    unfold GetSystem.recv
    rw [hrecv]
  | returned ret =>
    have hrecv : s.client.recv none = (s.client, []) := by
      unfold GetClient.recv
      rw [hpoint]
    have hclient := h.client
    unfold ClientOk at hclient
    unfold GetSystem.recv ClientOk
    rw [hrecv]
    dsimp only
    rw [hpoint] at hclient ⊢
    exact hclient

/-- The first block arrives. -/
theorem deliver_first_inv (h : Inv file s) (hpoint : s.client.point = .requesting) {d : UdpDispatch}
    (hd : d = dataDatagram file s.client.clientPort d.sport 1) (hsession : s.sessions d.sport = some 1) :
    ClientOk file (s.recv (some d)) := by
  have hreq := h.requesting hpoint
  have hpayload : d.payload = tftpPacket tftpOpData 1 (fileBlock file 1) := by rw [hd]; rfl
  have hlen := fileBlock_length_le file 1
  obtain ⟨m, hbytes, hrecv⟩ := GetClient.recvFirst_data (c := s.client) hpayload (by omega)
  have hpre : GetClient.Prefix file
      { s.client with tftpBuff := m, serverPort := d.sport, totalLen := 0, offset := 0 } d.sport 1 :=
    ⟨rfl, rfl, Nat.zero_le _, rfl, hreq.accepted⟩
  have hstep : s.client.recv (some d) = s.client.recvFirst (some d) := by
    unfold GetClient.recv
    rw [hpoint]
  unfold GetSystem.recv
  rw [hstep, hrecv]
  dsimp only
  split_ifs with hshort
  · have hreceived := hpre.copyBlock_short (Nat.le_refl 1) rfl hbytes hshort
    rw [← hd] at hreceived
    exact fun _ => hreceived
  · have hfull := hpre.copyBlock_full (Nat.le_refl 1) hbytes hshort
    rw [← hd] at hfull
    refine .of_transferring rfl ⟨Nat.le_refl 2,
      ⟨hfull.offset, hfull.total, hfull.within, hfull.bytes, hfull.accepted⟩, ⟨1, hsession, Nat.le_succ 1, Nat.le_refl 2⟩,
      fun d' hd' hopcode => ?_⟩
    obtain hold | hnew := List.mem_append.mp hd'
    · rw [hreq.requests d' hold] at hopcode
      exact absurd hopcode (by decide)
    · cases List.mem_singleton.mp hnew
      refine ⟨rfl, ?_⟩
      have hseq : payloadSeq (tftpPacket tftpOpAck 1 []) = 1 := payloadSeq_tftpPacket _ (by decide) _
      exact hseq.trans_lt (Nat.lt_succ_self 1)

/-- A block of the session the client is bound to arrives. -/
theorem deliver_next_inv (hfile : file.length ≤ 512 * 65534) (h : Inv file s)
    (hpoint : s.client.point = .transferring) {d : UdpDispatch} {j k : Nat} (hone : 1 ≤ j)
    (hj : j ≤ k) (hk : s.sessions s.client.serverPort = some k)
    (hd : d = dataDatagram file s.client.clientPort s.client.serverPort j) :
    ClientOk file (s.recv (some d)) := by
  have ht := h.transferring hpoint
  have hwithin := ht.copied.within
  have hwindow := ht.window
  obtain ⟨k', hk', hle, hnext⟩ := ht.bound
  obtain rfl : k = k' := Option.some.inj (hk.symm.trans hk')
  have hpayload : d.payload = tftpPacket tftpOpData j (fileBlock file j) := by rw [hd]; rfl
  have hlen := fileBlock_length_le file j
  obtain ⟨m, hbytes, hrecv⟩ := GetClient.recvNext_data (c := s.client) (by omega) hpayload (by omega)
  have hpre : GetClient.Prefix file { s.client with tftpBuff := m } s.client.serverPort
      s.client.window :=
    ⟨ht.copied.offset, ht.copied.total, ht.copied.within, ht.copied.bytes, ht.copied.accepted⟩
  have hacks : ∀ w, s.client.window ≤ w → j < w →
      ∀ d' ∈ s.toServer ++ [s.client.send s.client.serverPort (tftpPacket tftpOpAck j [])],
      payloadOpcode d'.payload = tftpOpAck → d'.dport = s.client.serverPort ∧ payloadSeq d'.payload < w := by
    intro w hle hlt d' hd' hopcode
    obtain hold | hnew := List.mem_append.mp hd'
    · obtain ⟨hdport, hseq⟩ := ht.acks d' hold hopcode
      exact ⟨hdport, hseq.trans_le hle⟩
    · cases List.mem_singleton.mp hnew
      have hseq : payloadSeq (tftpPacket tftpOpAck j []) = j := payloadSeq_tftpPacket _ (by omega) _
      exact ⟨rfl, hseq.trans_lt hlt⟩
  have hstep : s.client.recv (some d) = s.client.recvNext (some d) := by
    unfold GetClient.recv
    rw [hpoint]
  unfold GetSystem.recv
  rw [hstep, hrecv]
  dsimp only
  split_ifs with hnumber hshort
  · subst hnumber
    have hreceived := hpre.copyBlock_short hone rfl hbytes hshort
    rw [← hd] at hreceived
    exact fun _ => hreceived
  · subst hnumber
    have hfull := hpre.copyBlock_full hone hbytes hshort
    rw [← hd] at hfull
    have hlast := hfull.within
    have hwrap : wrap16 (s.client.window + 1) = s.client.window + 1 := wrap16_of_lt (by omega)
    rw [hwrap]
    exact .of_transferring hpoint ⟨hwindow.trans (Nat.le_succ _),
      ⟨hfull.offset, hfull.total, hfull.within, hfull.bytes, hfull.accepted⟩,
      ⟨k, hk, hle.trans (Nat.le_succ _), Nat.succ_le_succ hj⟩, hacks _ (Nat.le_succ _) (Nat.lt_succ_self _)⟩
  · have hlt : j < s.client.window := by omega
    exact .of_transferring hpoint ⟨hwindow, hpre, ht.bound, hacks _ (Nat.le_refl _) hlt⟩

theorem deliver_inv (hfile : file.length ≤ 512 * 65534) (h : Inv file s) {d : UdpDispatch}
    (hd : d ∈ s.toClient) (htakes : s.client.Takes d) : Inv file (s.recv (some d)) := by
  refine ⟨h.session, h.sent, ?_⟩
  obtain ⟨hsaddr, hdport, hsport⟩ := htakes.port
  obtain ⟨k, j, hsession, hone, hle, hpayload⟩ | ⟨code, message, hpayload⟩ := h.sent d hd
  · have heq : d = dataDatagram file s.client.clientPort d.sport j := by
      obtain ⟨dport, saddr, sport, payload⟩ := d
      simp only at hsaddr hdport hpayload
      rw [hsaddr, hdport, hpayload]
      rfl
    cases hp : s.client.point with
    | requesting =>
      have hk : k = 1 := (h.requesting hp).first _ _ hsession
      obtain rfl : j = 1 := by omega
      exact deliver_first_inv h hp heq (hk ▸ hsession)
    | transferring =>
      have ht := h.transferring hp
      obtain ⟨k', hk', -, -⟩ := ht.bound
      have hport : d.sport = s.client.serverPort := hsport hp (h.session _ _ hk').1
      rw [hport] at heq hsession
      cases hsession.symm.trans hk'
      exact deliver_next_inv hfile h hp hone hle hk' heq
    | returned r => exact absurd hp (htakes.not_returned r)
  · have hreturned := GetClient.recv_error htakes.not_returned hpayload
    exact .of_returned hreturned (by decide)

/-- A session is opened or moves on to its next block; `hclient` is all that concerns the client. -/
theorem setSession_inv (h : Inv file s) {port k : Nat} (hne : port ≠ 0) (hone : 1 ≤ k)
    (hwithin : 512 * (k - 1) ≤ file.length) (hold : ∀ k', s.sessions port = some k' → k' ≤ k)
    (hclient : ClientOk file (s.setSession port k)) : Inv file (s.setSession port k) := by
  refine ⟨fun p k' hk' => ?_, fun d hd => ?_, hclient⟩
  · by_cases hp : p = port
    · subst hp
      rw [TftpSystem.setSession_self] at hk'
      cases hk'
      exact ⟨hne, hone, hwithin⟩
    · rw [TftpSystem.setSession_of_ne _ _ hp] at hk'
      exact h.session p k' hk'
  · obtain ⟨k', j, hk', hj, hle, hpayload⟩ | herror := h.sent d hd
    · refine .inl ?_
      by_cases hp : d.sport = port
      · refine ⟨k, j, ?_, hj, hle.trans (hold k' (hp ▸ hk')), hpayload⟩
        rw [hp, TftpSystem.setSession_self]
      · refine ⟨k', j, ?_, hj, hle, hpayload⟩
        rw [TftpSystem.setSession_of_ne _ _ hp, hk']
    · exact .inr herror

theorem openSession_inv (h : Inv file s) {port : Nat} (hne : port ≠ 0) (hnew : s.sessions port = none) :
    Inv file (s.setSession port 1) := by
  refine setSession_inv h hne (Nat.le_refl 1) (Nat.zero_le _) (fun k' hk' => ?_) ?_
  · rw [hnew] at hk'
    cases hk'
  cases hp : s.client.point with
  | requesting =>
    have hreq := h.requesting hp
    refine .of_requesting hp ⟨hreq.request, hreq.requests, fun p k hk => ?_, hreq.accepted⟩
    by_cases hport : p = port
    · rw [hport, TftpSystem.setSession_self] at hk
      cases hk
      rfl
    · rw [TftpSystem.setSession_of_ne _ _ hport] at hk
      exact hreq.first p k hk
  | transferring =>
    have ht := h.transferring hp
    obtain ⟨k, hk, hle⟩ := ht.bound
    have hother : s.client.serverPort ≠ port := by
      rintro rfl
      rw [hnew] at hk
      cases hk
    have hbound := (s.setSession_of_ne 1 hother).trans hk
    exact .of_transferring hp ⟨ht.window, ht.copied, ⟨k, hbound, hle⟩, ht.acks⟩
  | returned ret =>
    have hclient := h.client
    unfold ClientOk at hclient
    unfold ClientOk TftpSystem.setSession
    dsimp only
    rw [hp] at hclient ⊢
    exact hclient

/-- A session that gets the acknowledgement it waits for is the one the client is bound to. -/
theorem recvAck_inv (hfile : file.length ≤ 512 * 65534) (h : Inv file s) {d : UdpDispatch} {k : Nat}
    (hsession : s.sessions d.dport = some k) (hd : d ∈ s.toServer)
    (hopcode : payloadOpcode d.payload = tftpOpAck) (hseq : payloadSeq d.payload = k % 65536)
    (hmore : 512 * k ≤ file.length) : Inv file (s.setSession d.dport (k + 1)) := by
  obtain ⟨hport, -, -⟩ := h.session _ _ hsession
  refine setSession_inv h hport (Nat.le_add_left 1 k) hmore (fun k' hk' => ?_) ?_
  · cases hsession.symm.trans hk'
    exact Nat.le_succ k
  cases hp : s.client.point with
  | requesting =>
    have hrrq := (h.requesting hp).requests d hd
    rw [hopcode] at hrrq
    exact absurd hrrq (by decide)
  | transferring =>
    have ht := h.transferring hp
    have hcopied := ht.copied.within
    obtain ⟨hbound, hlt⟩ := ht.acks d hd hopcode
    obtain ⟨k', hk', hle, hnext⟩ := ht.bound
    rw [hbound] at hsession
    cases hsession.symm.trans hk'
    have hmore : k + 1 ≤ s.client.window := by omega
    refine .of_transferring hp ⟨ht.window, ht.copied, ⟨k + 1, ?_, hmore, hnext.trans (Nat.le_succ _)⟩, ht.acks⟩
    rw [hbound]
    exact s.setSession_self _ _
  | returned ret =>
    have hclient := h.client
    unfold ClientOk at hclient
    unfold ClientOk TftpSystem.setSession
    dsimp only
    rw [hp] at hclient ⊢
    exact hclient

/-- A session sends a packet: its current block or an error. -/
theorem reply_inv (h : Inv file s) {port : Nat} {payload : List Byte}
    (hpayload : (∃ k, s.sessions port = some k ∧ payload = tftpPacket tftpOpData k (fileBlock file k)) ∨
      ∃ code message, payload = tftpPacket tftpOpError code message) :
    Inv file (s.reply s.client.clientPort port payload) := by
  refine ⟨h.session, fun d hd => ?_, ?_⟩
  · obtain hold | hnew := List.mem_append.mp hd
    · exact h.sent d hold
    · cases List.mem_singleton.mp hnew
      obtain ⟨k, hk, hdata⟩ | herror := hpayload
      · exact .inl ⟨k, k, hk, (h.session port k hk).2.1, Nat.le_refl k, hdata⟩
      · exact .inr herror
  · have hclient := h.client
    cases hp : s.client.point with
    | requesting =>
      have hreq := h.requesting hp
      exact .of_requesting hp ⟨hreq.request, hreq.requests, hreq.first, hreq.accepted⟩
    | transferring =>
      have ht := h.transferring hp
      exact .of_transferring hp ⟨ht.window, ht.copied, ht.bound, ht.acks⟩
    | returned ret =>
      unfold ClientOk at hclient
      unfold ClientOk TftpSystem.reply
      dsimp only
      rw [hp] at hclient ⊢
      exact hclient

theorem lose_inv (h : Inv file s) (d : UdpDispatch) : Inv file (s.lose d) := by
  refine ⟨h.session, fun d' hd' => h.sent d' (List.mem_of_mem_erase hd'), ?_⟩
  have hclient := h.client
  cases hp : s.client.point with
  | requesting =>
    have hreq := h.requesting hp
    exact .of_requesting hp
      ⟨hreq.request, fun d' hd' => hreq.requests d' (List.mem_of_mem_erase hd'), hreq.first, hreq.accepted⟩
  | transferring =>
    have ht := h.transferring hp
    exact .of_transferring hp
      ⟨ht.window, ht.copied, ht.bound, fun d' hd' => ht.acks d' (List.mem_of_mem_erase hd')⟩
  | returned ret =>
    unfold ClientOk at hclient
    unfold ClientOk TftpSystem.lose
    dsimp only
    rw [hp] at hclient ⊢
    exact hclient

theorem step_inv (hfile : file.length ≤ 512 * 65534) {s' : GetSystem} {e : GetEvent} (h : Inv file s)
    (hstep : step file s e = some s') : Inv file s' := by
  cases e with
  | timeout =>
    simp only [step] at hstep
    split_ifs at hstep
    cases hstep
    exact timeout_inv h
  | deliver d =>
    simp only [step] at hstep
    split_ifs at hstep with hd htakes
    · cases hstep
      have hforeign : ¬ s.client.Foreign d := fun hf => hf ⟨htakes.port.1, htakes.port.2.1⟩
      exact deliver_inv hfile h (hd.resolve_right hforeign) htakes
    · cases hstep
      exact h
  | openSession d port =>
    simp only [step] at hstep
    split_ifs at hstep with hopen
    cases hstep
    exact openSession_inv h hopen.2.2.2.1 hopen.2.2.2.2
  | sendData port =>
    simp only [step] at hstep
    split at hstep
    · next k hk =>
      cases hstep
      exact reply_inv h (.inl ⟨k, hk, rfl⟩)
    · cases hstep
  | sendError port code message =>
    simp only [step] at hstep
    split at hstep
    · cases hstep
      exact reply_inv h (.inr ⟨code, message, rfl⟩)
    · cases hstep
  | recvAck d =>
    simp only [step] at hstep
    split at hstep
    · next k hk =>
      split_ifs at hstep with hack
      cases hstep
      exact recvAck_inv hfile h hk hack.1 hack.2.1 hack.2.2.1 hack.2.2.2
    · cases hstep
  | lose d =>
    cases hstep
    exact lose_inv h d

end Steps

/-! ## Every run -/

theorem reachable_inv {file : List Byte} (hfile : file.length ≤ 512 * 65534) {s : GetSystem}
    (h : Reachable Start (step file) s) : Inv file s :=
  h.invariant (fun _ => start_inv) fun _ _ _ => step_inv hfile

theorem Inv.received {file : List Byte} {s : GetSystem} (h : Inv file s)
    (hret : s.client.point = .returned 0) : s.client.Received file := by
  have hclient := h.client
  unfold ClientOk at hclient
  rw [hret] at hclient
  exact hclient rfl

theorem reachable_received {file : List Byte} (hfile : file.length ≤ 512 * 65534) {s : GetSystem}
    (h : Reachable Start (step file) s) (hret : s.client.point = .returned 0) :
    s.client.Received file :=
  (reachable_inv hfile h).received hret

def smallPort : ClientPort := ⟨40000, by decide⟩

def smallStart : GetSystem :=
  let start := tftpGetFile (ipv4Compatible 0x0201a8c0) smallPort [0x65, 0x6c, 0x66] (fun _ => 0)
    (fun _ => 0) fun _ => 0
  ⟨start.1, start.2, [], fun _ => none⟩

/-- A full block and a last block of one byte. -/
def smallFile : List Byte := List.replicate 512 7 ++ [1]

def smallAck : UdpDispatch := ⟨4000, ipv4Compatible 0x0201a8c0, 40000, tftpPacket tftpOpAck 1 []⟩

/-- Block 1 is delivered twice, and a second session is opened by a repeated request. -/
def smallRun : List GetEvent :=
  let request : UdpDispatch := (smallStart.toServer.head?).getD ⟨0, ipv6Unspecified, 0, []⟩
  let block := dataDatagram smallFile smallPort 4000
  [.timeout, .openSession request 4000, .openSession request 4001, .sendData 4001, .sendData 4000,
    .deliver (block 1), .deliver (block 1), .recvAck smallAck, .sendData 4000, .deliver (block 2)]

theorem reachable_received_small : ∃ s, runSteps (step smallFile) smallStart smallRun = some s ∧
    s.client.Received smallFile := by
  have hrun : (runSteps (step smallFile) smallStart smallRun).map (fun s => s.client.point) =
      some (.returned 0) := by
    decide +kernel
  obtain ⟨s, hs, hret⟩ := Option.map_eq_some_iff.mp hrun
  have hreach : Reachable Start (step smallFile) s :=
    ⟨smallStart, smallRun, ⟨_, _, _, _, _, _, rfl⟩, hs⟩
  have hlen : smallFile.length = 513 := by
    rw [smallFile, List.length_append, List.length_replicate, List.length_singleton]
  exact ⟨s, hs, reachable_received (by rw [hlen]; decide) hreach hret⟩

end GetSystem

end VijosOS
