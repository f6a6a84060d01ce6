import VijosOS.Tftp.Client

/-!
# Putting a file

`tftp_put_file` from one `recv_udp` call to the next, and a lock-step server that opens a
session at a port of its own for each write request it receives and stores its blocks.
-/

namespace VijosOS

open Library

/-! ## The client -/

/-- The result of each call of `read_block`: a block, or a negative error. -/
abbrev ReadBlock := Nat → Except Int (List Byte)

/-- The locals of `tftp_put_file` and the buffer of its responses; `calls` counts `read_block`. -/
structure PutClient extends TftpClient where
  tftpRespBuff : Mem
  blockSize : Nat
  calls : Nat

namespace PutClient

def fail (c : PutClient) (ret : Int) : PutClient × List UdpDispatch :=
  ({ c with point := .returned ret }, [])

def data (c : PutClient) : UdpDispatch := c.send c.serverPort (bytesAt c.tftpBuff 0 (4 + c.blockSize))

/-- The top of the loop: read the block of the window and send it. -/
def sendBlock (readBlock : ReadBlock) (c : PutClient) : PutClient × List UdpDispatch :=
  let c := { c with tftpBuff := putLe c.tftpBuff 0 2 tftpOpData }
  let c := { c with tftpBuff := putLe c.tftpBuff 2 2 (htons c.window) }
  let r := readBlock c.calls
  let c := { c with calls := c.calls + 1 }
  match r with
  | .error ret => c.fail ret
  | .ok block =>
    let c := { c with
      tftpBuff := writeBytes c.tftpBuff 4 block
      blockSize := block.length
      point := .transferring }
    (c, [c.data])

/-- From the return of the first `recv_udp` to the next call. -/
def recvFirst (readBlock : ReadBlock) (c : PutClient) (d : Option UdpDispatch) :
    PutClient × List UdpDispatch :=
  let (ret, m) := recvInto c.tftpRespBuff 1024 d
  let c := { c with tftpRespBuff := m, serverPort := d.elim c.serverPort UdpDispatch.sport }
  if ret = 0 then (c, [c.request])
  else
    let r := tftpCheckResp c.tftpRespBuff ret tftpOpAck
    if r < 0 then c.fail r
    else if getLe c.tftpRespBuff 2 2 ≠ htons 0 then c.fail (-eBADPKT)
    else sendBlock readBlock { c with totalLen := 0, window := 1 }

/-- From the return of the second `recv_udp` to the next call. -/
def recvNext (readBlock : ReadBlock) (c : PutClient) (d : Option UdpDispatch) :
    PutClient × List UdpDispatch :=
  let (ret, m) := recvInto c.tftpRespBuff 1024 d
  let c := { c with tftpRespBuff := m }
  if ret = 0 then (c, [c.data])
  else
    let r := tftpCheckResp c.tftpRespBuff ret tftpOpAck
    if r < 0 then c.fail r
    else if getLe c.tftpRespBuff 2 2 = getLe c.tftpBuff 2 2 then
      let c := { c with totalLen := c.totalLen + c.blockSize }
      if c.blockSize < tftpChunkSize then ({ c with point := .returned 0 }, [])
      else sendBlock readBlock { c with window := wrap16 (c.window + 1) }
    else (c, [])

def recv (readBlock : ReadBlock) (c : PutClient) (d : Option UdpDispatch) :
    PutClient × List UdpDispatch :=
  match c.point with
  | .requesting => recvFirst readBlock c d
  | .transferring => recvNext readBlock c d
  | .returned _ => (c, [])

end PutClient

/-- `tftp_put_file` up to its first `recv_udp`, over any contents of the buffers. -/
def tftpPutFile (clientIp : Ipv6Addr) (clientPort : ClientPort) (filename : List Byte)
    (tftpReq tftpBuff tftpRespBuff : Mem) : PutClient × List UdpDispatch :=
  let c : PutClient := ⟨⟨clientIp, clientPort, 0, tftpReq, tftpBuff, 0, 0, 0, .requesting⟩, tftpRespBuff, 0, 0⟩
  match tftpBuildReq tftpReq 128 tftpOpWrq filename with
  | .error ret => c.fail ret
  | .ok (reqSize, m) =>
    let c := { c with reqSize := reqSize, tftpReq := m }
    (c, [c.request])

/-! ## The server -/

/-- What a session has stored; a block shorter than 512 bytes completes the file. -/
structure PutSession where
  received : Nat
  stored : List Byte
  complete : Bool

def PutSession.store (t : PutSession) (block : List Byte) : PutSession :=
  ⟨t.received + 1, t.stored ++ block, block.length < tftpChunkSize⟩

abbrev PutSystem := TftpSystem PutClient PutSession

inductive PutEvent where
  | timeout
  | deliver (d : UdpDispatch)
  | openSession (d : UdpDispatch) (port : Nat)
  | recvData (d : UdpDispatch)
  | sendAck (port k : Nat)
  | sendError (port code : Nat) (message : List Byte)
  | lose (d : UdpDispatch)

namespace PutSystem

def recv (readBlock : ReadBlock) (s : PutSystem) (d : Option UdpDispatch) : PutSystem :=
  { s with
    client := (s.client.recv readBlock d).1
    toServer := s.toServer ++ (s.client.recv readBlock d).2 }

/-- One step of the client, the network or a session of the server. -/
def step (readBlock : ReadBlock) (s : PutSystem) : PutEvent → Option PutSystem
  | .timeout => if s.client.filter.isSome then some (s.recv readBlock none) else none
  | .deliver d =>
    if d ∈ s.toClient ∨ s.client.Foreign d then
      if s.client.Takes d then some (s.recv readBlock (some d)) else some s
    else none
  | .openSession d port =>
    if d ∈ s.toServer ∧ d.dport = tftpServerPort ∧ payloadOpcode d.payload = tftpOpWrq ∧
        port ≠ 0 ∧ (s.sessions port).isNone then some (s.setSession port ⟨0, [], false⟩)
    else none
  | .recvData d =>
    match s.sessions d.dport with
    | some t =>
      if d ∈ s.toServer ∧ payloadOpcode d.payload = tftpOpData ∧
          payloadSeq d.payload = (t.received + 1) % 65536 ∧ t.complete = false then
        some (s.setSession d.dport (t.store (d.payload.drop 4)))
      else none
    | none => none
  | .sendAck port k =>
    -- Block 0 acknowledges the request, and a block received again is acknowledged again.
    match s.sessions port with
    | some t =>
      if k ≤ t.received then some (s.reply s.client.clientPort port (tftpPacket tftpOpAck k [])) else none
    | none => none
  | .sendError port code message =>
    match s.sessions port with
    | some _ => some (s.reply s.client.clientPort port (tftpPacket tftpOpError code message))
    | none => none
  | .lose d => some (s.lose d)

/-- `tftp_put_file` has just been called; no session is open. -/
def Start (s : PutSystem) : Prop :=
  ∃ clientIp clientPort filename tftpReq tftpBuff tftpRespBuff,
    s = ⟨(tftpPutFile clientIp clientPort filename tftpReq tftpBuff tftpRespBuff).1,
      (tftpPutFile clientIp clientPort filename tftpReq tftpBuff tftpRespBuff).2, [], fun _ => none⟩

end PutSystem

end VijosOS
