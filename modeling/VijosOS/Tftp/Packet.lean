import VijosOS.Task.Task

/-!
# TFTP packets

The packets of `tftp.h`, the request builder and the response check of `tftp.c`, and what
`recv_udp` leaves in the client's static buffers.
-/

namespace VijosOS

open Library

def tftpServerPort : Nat := 6969
def tftpOpRrq : Nat := 0x0100
def tftpOpWrq : Nat := 0x0200
def tftpOpData : Nat := 0x0300
def tftpOpAck : Nat := 0x0400
def tftpOpError : Nat := 0x0500
def tftpChunkSize : Nat := 512

/-- `TFTP_MODE` with its terminator. -/
def tftpMode : List Byte := [0x6f, 0x63, 0x74, 0x65, 0x74, 0]

/-- `server_ip`, as `init_ip` sets it. -/
def tftpServerIp : Ipv6Addr := ipv4Compatible 0x3701a8c0

/-- What the loop of `get_port` ends with. -/
abbrev ClientPort := { port : Nat // 1024 ≤ port ∧ port < 65536 }

def tftpBuildReq (m : Mem) (size opcode : Nat) (filename : List Byte) : Except Int (Nat × Mem) :=
  let filenameSize := filename.length + 1
  if size < 2 + filenameSize + 6 then .error (-eOOB)
  else
    let m := putLe m 0 2 opcode
    let m := writeBytes m 2 (filename ++ [0])
    let m := writeBytes m (2 + filenameSize) tftpMode
    .ok (2 + filenameSize + 6, m)

theorem tftpBuildReq_error {m : Mem} {size opcode : Nat} {filename : List Byte} {ret : Int}
    (h : tftpBuildReq m size opcode filename = .error ret) : ret = -eOOB := by
  unfold tftpBuildReq at h
  dsimp only at h
  split_ifs at h
  cases h
  rfl

/-- A request that fits carries its opcode. -/
theorem tftpBuildReq_ok {m m' : Mem} {size opcode n : Nat} {filename : List Byte} (hopcode : opcode < 65536)
    (h : tftpBuildReq m size opcode filename = .ok (n, m')) : 2 ≤ n ∧ getLe m' 0 2 = opcode := by
  unfold tftpBuildReq at h
  dsimp only at h
  split_ifs at h
  cases h
  refine ⟨by omega, ?_⟩
  rw [getLe_writeBytes_disjoint _ _ _ _ _ (by omega), getLe_writeBytes_disjoint _ _ _ _ _ (by omega),
    getLe_putLe]
  exact Nat.mod_eq_of_lt hopcode

def tftpCheckResp (m : Mem) (size expectedOpcode : Nat) : Int :=
  if size < 4 then -eBADPKT
  else if getLe m 0 2 = tftpOpError then -eBADPKT
  else if getLe m 0 2 ≠ expectedOpcode then -eBADPKT
  else 0

theorem tftpCheckResp_of_header {m : Mem} {n opcode : Nat} (hn : 4 ≤ n) (hopcode : getLe m 0 2 = opcode)
    (herror : opcode ≠ tftpOpError) : tftpCheckResp m n opcode = 0 := by
  unfold tftpCheckResp
  rw [if_neg (by omega), if_neg (by rwa [hopcode]), if_neg (by rw [hopcode]; simp)]

theorem tftpCheckResp_error {m : Mem} {n : Nat} (expected : Nat) (hopcode : getLe m 0 2 = tftpOpError) :
    tftpCheckResp m n expected = -eBADPKT := by
  unfold tftpCheckResp
  split_ifs <;> rfl

theorem tftpCheckResp_retCode (m : Mem) (n expected : Nat) : RetCode (tftpCheckResp m n expected) := by
  unfold tftpCheckResp
  split_ifs <;> decide

/-- The result of `recv_udp` with a buffer of `len` bytes: nothing on a timeout. -/
def recvInto (m : Mem) (len : Nat) : Option UdpDispatch → Nat × Mem
  | none => (0, m)
  | some d =>
    let n := copyLen len d.payload.length
    (n, writeBytes m 0 (d.payload.take n))

/-! ## On the wire -/

def tftpPacket (opcode seq : Nat) (data : List Byte) : List Byte :=
  leBytes 2 opcode ++ (leBytes 2 (htons seq) ++ data)

def payloadOpcode (p : List Byte) : Nat := leNat (p.take 2)

def payloadSeq (p : List Byte) : Nat := ntohs (leNat ((p.drop 2).take 2))

theorem payloadOpcode_bytesAt (m : Mem) {n : Nat} (hn : 2 ≤ n) : payloadOpcode (bytesAt m 0 n) = getLe m 0 2 := by
  rw [payloadOpcode, bytesAt_take m 0 hn, getLe]

@[simp] theorem tftpPacket_length (opcode seq : Nat) (data : List Byte) :
    (tftpPacket opcode seq data).length = 4 + data.length := by
  simp only [tftpPacket, List.length_append, leBytes_length]
  omega

theorem payloadOpcode_tftpPacket {opcode : Nat} (h : opcode < 65536) (seq : Nat) (data : List Byte) :
    payloadOpcode (tftpPacket opcode seq data) = opcode := by
  have htake : (tftpPacket opcode seq data).take 2 = leBytes 2 opcode :=
    List.take_left' (leBytes_length 2 opcode)
  rw [payloadOpcode, htake, leNat_leBytes]
  exact Nat.mod_eq_of_lt h

theorem payloadSeq_tftpPacket (opcode : Nat) {seq : Nat} (h : seq < 65536) (data : List Byte) :
    payloadSeq (tftpPacket opcode seq data) = seq := by
  have hdrop : (tftpPacket opcode seq data).drop 2 = leBytes 2 (htons seq) ++ data :=
    List.drop_left' (leBytes_length 2 opcode)
  have hlt : htons seq < 256 ^ 2 := ntohs_lt seq
  rw [payloadSeq, hdrop, List.take_left' (leBytes_length 2 _), leNat_leBytes, Nat.mod_eq_of_lt hlt,
    ntohs_htons h]

/-! ## In the receive buffer -/

section Received

variable {m : Mem} {d : UdpDispatch} {opcode seq : Nat} {data : List Byte}

/-- What `recv_udp` returns for a packet, and the header it leaves in the buffer. -/
theorem recvInto_header (hd : d.payload = tftpPacket opcode seq data) (hopcode : opcode < 65536) :
    4 ≤ (recvInto m 1024 (some d)).1 ∧ getLe (recvInto m 1024 (some d)).2 0 2 = opcode ∧
      getLe (recvInto m 1024 (some d)).2 2 2 = htons seq := by
  have hlen : d.payload.length = 4 + data.length := by rw [hd, tftpPacket_length]
  have hn : 4 ≤ copyLen 1024 d.payload.length ∧ copyLen 1024 d.payload.length ≤ d.payload.length := by
    unfold copyLen
    split_ifs <;> omega
  have hhead : ∀ a, a + 2 ≤ 4 → getLe (recvInto m 1024 (some d)).2 a 2 =
      leNat ((d.payload.drop a).take 2) := by
    intro a ha
    have hbytes := bytesAt_writeBytes_inside m 0 (a := a) (n := 2)
      (d.payload.take (copyLen 1024 d.payload.length)) (by rw [List.length_take]; omega)
    rw [Nat.zero_add] at hbytes
    show leNat (bytesAt (writeBytes m 0 _) a 2) = _
    rw [hbytes, List.drop_take, List.take_take, Nat.min_eq_left (by omega)]
  refine ⟨hn.1, ?_, ?_⟩
  · rw [hhead 0 (by omega), List.drop_zero, hd]
    exact payloadOpcode_tftpPacket hopcode seq data
  · have hlt : htons seq < 256 ^ 2 := ntohs_lt seq
    have hdrop : (tftpPacket opcode seq data).drop 2 = leBytes 2 (htons seq) ++ data :=
      List.drop_left' (leBytes_length 2 opcode)
    rw [hhead 2 (by omega), hd, hdrop, List.take_left' (leBytes_length 2 _), leNat_leBytes,
      Nat.mod_eq_of_lt hlt]

theorem recvInto_data (hd : d.payload = tftpPacket opcode seq data) (hlen : data.length ≤ 1020) :
    (recvInto m 1024 (some d)).1 = 4 + data.length ∧
      bytesAt (recvInto m 1024 (some d)).2 4 data.length = data := by
  have hpayload : d.payload.length = 4 + data.length := by rw [hd, tftpPacket_length]
  have hn : copyLen 1024 d.payload.length = d.payload.length := by
    unfold copyLen
    split_ifs <;> omega
  refine ⟨hn.trans hpayload, ?_⟩
  have hbytes := bytesAt_writeBytes_inside m 0 (a := 4) (n := data.length) d.payload (by omega)
  have hdrop : (tftpPacket opcode seq data).drop 4 = data := by
    rw [tftpPacket, ← List.append_assoc]
    exact List.drop_left' (by simp)
  rw [Nat.zero_add, hd, hdrop, List.take_length] at hbytes
  show bytesAt (writeBytes m 0 (d.payload.take (copyLen 1024 d.payload.length))) 4 data.length = data
  rw [hn, List.take_length, hd]
  exact hbytes

/-- The packet in a buffer after its opcode is rewritten, with the header only. -/
theorem bytesAt_setOpcode (hseq : getLe m 2 2 = htons seq) (opcode : Nat) :
    bytesAt (putLe m 0 2 opcode) 0 4 = tftpPacket opcode seq [] := by
  have hsplit := bytesAt_add (putLe m 0 2 opcode) 0 2 2
  have hkept : bytesAt (putLe m 0 2 opcode) (0 + 2) 2 = bytesAt m 2 2 :=
    bytesAt_writeBytes_disjoint _ _ _ _ _ (by simp)
  rw [hsplit, bytesAt_putLe, hkept, bytesAt_eq_leBytes m 2 2, hseq, tftpPacket, List.append_nil]

end Received

end VijosOS
