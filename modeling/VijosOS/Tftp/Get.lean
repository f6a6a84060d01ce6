import VijosOS.Tftp.Client

/-!
# Getting a file

`tftp_get_file` from one `recv_udp` call to the next, and a lock-step server that holds a
file and opens a session at a port of its own for each read request it receives.
-/

namespace VijosOS

open Library

/-! ## The client -/

/-- The locals of `tftp_get_file` and its buffer; `accepted` are the datagrams copied there. -/
structure GetClient extends TftpClient where
  buff : Mem
  offset : Nat
  outLen : Option Nat
  accepted : List UdpDispatch

namespace GetClient

def fail (c : GetClient) (ret : Int) : GetClient × List UdpDispatch :=
  ({ c with point := .returned ret }, [])

/-- Copy the block in `tftp_buff` behind the blocks before it. -/
def copyBlock (c : GetClient) (dataLen : Nat) (d : Option UdpDispatch) : GetClient :=
  { c with
    buff := writeBytes c.buff c.offset (bytesAt c.tftpBuff 4 dataLen)
    offset := c.offset + dataLen
    totalLen := c.totalLen + dataLen
    accepted := c.accepted ++ d.toList }

def finish (c : GetClient) : GetClient :=
  { c with outLen := some c.totalLen, point := .returned 0 }

/-- From the return of the first `recv_udp` to the next call. -/
def recvFirst (c : GetClient) (d : Option UdpDispatch) : GetClient × List UdpDispatch :=
  let (ret, m) := recvInto c.tftpBuff 1024 d
  let c := { c with tftpBuff := m, serverPort := d.elim c.serverPort UdpDispatch.sport }
  if ret = 0 then (c, [c.request])
  else
    let r := tftpCheckResp c.tftpBuff ret tftpOpData
    if r < 0 then c.fail r
    else if getLe c.tftpBuff 2 2 ≠ htons 1 then c.fail (-eBADPKT)
    else
      let c := { c with tftpBuff := putLe c.tftpBuff 0 2 tftpOpAck }
      let ack := c.send c.serverPort (bytesAt c.tftpBuff 0 4)
      let dataLen := ret - 4
      let c := { c with totalLen := 0, offset := 0 }
      let c := c.copyBlock dataLen d
      if dataLen < tftpChunkSize then (c.finish, [ack])
      else ({ c with window := 2, point := .transferring }, [ack])

/-- From the return of the second `recv_udp` to the next call. -/
def recvNext (c : GetClient) (d : Option UdpDispatch) : GetClient × List UdpDispatch :=
  let (ret, m) := recvInto c.tftpBuff 1024 d
  let c := { c with tftpBuff := m }
  if ret = 0 then c.fail (-eBADPKT)
  else
    let r := tftpCheckResp c.tftpBuff ret tftpOpData
    if r < 0 then c.fail r
    else
      let c := { c with tftpBuff := putLe c.tftpBuff 0 2 tftpOpAck }
      let ack := c.send c.serverPort (bytesAt c.tftpBuff 0 4)
      if ntohs (getLe c.tftpBuff 2 2) = c.window then
        let dataLen := ret - 4
        let c := c.copyBlock dataLen d
        if dataLen < tftpChunkSize then (c.finish, [ack])
        else ({ c with window := wrap16 (c.window + 1) }, [ack])
      else (c, [ack])

def recv (c : GetClient) (d : Option UdpDispatch) : GetClient × List UdpDispatch :=
  match c.point with
  | .requesting => c.recvFirst d
  | .transferring => c.recvNext d
  | .returned _ => (c, [])

end GetClient

/-- `tftp_get_file` up to its first `recv_udp`, over any contents of the buffers. -/
def tftpGetFile (clientIp : Ipv6Addr) (clientPort : ClientPort) (filename : List Byte)
    (tftpReq tftpBuff buff : Mem) : GetClient × List UdpDispatch :=
  let c : GetClient := ⟨⟨clientIp, clientPort, 0, tftpReq, tftpBuff, 0, 0, 0, .requesting⟩, buff, 0, none, []⟩
  match tftpBuildReq tftpReq 128 tftpOpRrq filename with
  | .error ret => c.fail ret
  | .ok (reqSize, m) =>
    let c := { c with reqSize := reqSize, tftpReq := m }
    (c, [c.request])

/-! ## The server -/

/-- Block `k` of the file, counting from 1. -/
def fileBlock (file : List Byte) (k : Nat) : List Byte :=
  (file.drop (tftpChunkSize * (k - 1))).take tftpChunkSize

/-- A client and the sessions of the server: the number of the block each one sends. -/
abbrev GetSystem := TftpSystem GetClient Nat

inductive GetEvent where
  | timeout
  | deliver (d : UdpDispatch)
  | openSession (d : UdpDispatch) (port : Nat)
  | sendData (port : Nat)
  | sendError (port code : Nat) (message : List Byte)
  | recvAck (d : UdpDispatch)
  | lose (d : UdpDispatch)

namespace GetSystem

def recv (s : GetSystem) (d : Option UdpDispatch) : GetSystem :=
  { s with client := (s.client.recv d).1, toServer := s.toServer ++ (s.client.recv d).2 }

/-- One step of the client, the network or a session of a server that holds `file`. -/
def step (file : List Byte) (s : GetSystem) : GetEvent → Option GetSystem
  | .timeout => if s.client.filter.isSome then some (s.recv none) else none
  | .deliver d =>
    if d ∈ s.toClient ∨ s.client.Foreign d then
      if s.client.Takes d then some (s.recv (some d)) else some s
    else none
  | .openSession d port =>
    if d ∈ s.toServer ∧ d.dport = tftpServerPort ∧ payloadOpcode d.payload = tftpOpRrq ∧
        port ≠ 0 ∧ s.sessions port = none then some (s.setSession port 1)
    else none
  | .sendData port =>
    match s.sessions port with
    | some k => some (s.reply s.client.clientPort port (tftpPacket tftpOpData k (fileBlock file k)))
    | none => none
  | .sendError port code message =>
    match s.sessions port with
    | some _ => some (s.reply s.client.clientPort port (tftpPacket tftpOpError code message))
    | none => none
  | .recvAck d =>
    match s.sessions d.dport with
    | some k =>
      -- A full block is followed by another one; the block after it may be empty.
      if d ∈ s.toServer ∧ payloadOpcode d.payload = tftpOpAck ∧ payloadSeq d.payload = k % 65536 ∧
          tftpChunkSize * k ≤ file.length then some (s.setSession d.dport (k + 1))
      else none
    | none => none
  | .lose d => some (s.lose d)

/-- `tftp_get_file` has just been called; no session is open. -/
def Start (s : GetSystem) : Prop :=
  ∃ clientIp clientPort filename tftpReq tftpBuff buff,
    s = ⟨(tftpGetFile clientIp clientPort filename tftpReq tftpBuff buff).1,
      (tftpGetFile clientIp clientPort filename tftpReq tftpBuff buff).2, [], fun _ => none⟩

end GetSystem

end VijosOS
