import VijosOS.Net.SendUdp
import VijosOS.Task.Task

/-!
# The DHCP client

The packets of `dhcp.c`: what the client sends and what it accepts. Offsets are those of
`dhcp_packet_t`, whose options start at 240.
-/

namespace VijosOS

open Library

def dhcpServerPort : Port := 67
def dhcpClientPort : Port := 68
def dhcpOpRequest : Nat := 1
def dhcpOpReply : Nat := 2
def dhcpHtype : Nat := 1
def dhcpHlen : Nat := 6
def dhcpMagicCookie : Nat := 0x63538263
def dhcpOptionMessageType : Nat := 0x35
def dhcpOptionReqAddr : Nat := 0x32
def dhcpOptionEnd : Nat := 0xff
def dhcpMessageTypeDiscover : Nat := 0x01
def dhcpMessageTypeOffer : Nat := 0x02
def dhcpMessageTypeRequest : Nat := 0x03
def dhcpMessageTypeAck : Nat := 0x05

def clockFreq : Nat := 125000000

def dhcpCheck (m : Mem) (len : Nat) (xid : BitVec 32) : Int :=
  if len < 240 + 4 then -eOOB
  else if ¬ (getLe m 0 1 = dhcpOpReply ∧ getLe m 1 1 = dhcpHtype ∧ getLe m 2 1 = dhcpHlen ∧
      getLe m 4 4 = xid.toNat ∧ getLe m 236 4 = dhcpMagicCookie ∧
      getLe m 240 1 = dhcpOptionMessageType ∧ getLe m 241 1 = 1) then -eBADPKT
  else 0

def dhcpMessageType (m : Mem) : Nat := getLe m 242 1

def dhcpYiaddr (m : Mem) : Ipv4Addr := loadIpv4 m 16

/-- `dhcp_req` up to the end of the given options. -/
def dhcpReq (mac : Mac) (xid : BitVec 32) (options : List Byte) : List Byte :=
  leBytes 1 dhcpOpRequest ++ leBytes 1 dhcpHtype ++ leBytes 1 dhcpHlen ++ leBytes 1 0 ++
    leBytes 4 xid.toNat ++ leBytes 2 0 ++ leBytes 2 0 ++ List.replicate 16 0 ++ leBytes 6 mac.toNat ++
    List.replicate 202 0 ++ leBytes 4 dhcpMagicCookie ++ options

def dhcpDiscover (mac : Mac) (xid : BitVec 32) : List Byte :=
  dhcpReq mac xid (leBytes 1 dhcpOptionMessageType ++ leBytes 1 1 ++ leBytes 1 dhcpMessageTypeDiscover ++
    leBytes 1 dhcpOptionEnd)

def dhcpRequest (mac : Mac) (xid : BitVec 32) (ip : Ipv4Addr) : List Byte :=
  dhcpReq mac xid (leBytes 1 dhcpOptionMessageType ++ leBytes 1 1 ++ leBytes 1 dhcpMessageTypeRequest ++
    leBytes 1 dhcpOptionReqAddr ++ leBytes 1 4 ++ leBytes 4 ip.toNat ++ leBytes 1 dhcpOptionEnd)

/-- The filter of the first receive loop. -/
def offerFilter : UdpFilter := ⟨dhcpClientPort.toNat, ipv6Unspecified, dhcpServerPort.toNat⟩

/-- The filter of the second one, for the server that has made the offer. -/
def ackFilter (server : Ipv4Addr) : UdpFilter :=
  ⟨dhcpClientPort.toNat, ipv4Compatible server, dhcpServerPort.toNat⟩

/-- The test of both loops on a packet of `len` bytes. -/
def dhcpAccepts (m : Mem) (len : Nat) (xid : BitVec 32) (type : Nat) : Bool :=
  len ≠ 0 && dhcpCheck m len xid == 0 && dhcpMessageType m == type

theorem dhcpAccepts_len {m : Mem} {len : Nat} {xid : BitVec 32} {type : Nat}
    (h : dhcpAccepts m len xid type = true) : 244 ≤ len := by
  simp only [dhcpAccepts, dhcpCheck, Bool.and_eq_true, beq_iff_eq] at h
  by_contra hlt
  rw [if_pos (by omega)] at h
  exact absurd h.1.2 (by decide)

/-- The test looks at the first 244 bytes only. -/
theorem dhcpAccepts_mono {m m' : Mem} {len len' : Nat} {xid : BitVec 32} {type : Nat} (hm : AgreeUpTo 244 m m')
    (hlen : len ≤ len') (h : dhcpAccepts m len xid type = true) : dhcpAccepts m' len' xid type = true := by
  have h244 := dhcpAccepts_len h
  have hcheck : dhcpCheck m' len' xid = dhcpCheck m len xid := by
    unfold dhcpCheck
    rw [if_neg (show ¬ len' < 240 + 4 by omega), if_neg (show ¬ len < 240 + 4 by omega),
      hm.getLe (a := 0) (by omega), hm.getLe (a := 1) (by omega), hm.getLe (a := 2) (by omega),
      hm.getLe (a := 4) (by omega), hm.getLe (a := 236) (by omega), hm.getLe (a := 240) (by omega),
      hm.getLe (a := 241) (by omega)]
  have htype : dhcpMessageType m' = dhcpMessageType m := (hm.getLe (by omega)).symm
  simp only [dhcpAccepts, hcheck, htype, Bool.and_eq_true] at h ⊢
  exact ⟨⟨decide_eq_true (by omega), h.1.2⟩, h.2⟩

/-- Where `dhcp_entry` stands: before a `send_udp`, after it, or in a `recv_udp`. -/
inductive DhcpPoint where
  | entry
  | discover
  | discovered
  | offer (call : Nat)
  | request
  | requested
  | ack (call : Nat)
  | done
  deriving DecidableEq

/-- The variables of `dhcp_entry`, with the calls that returned what it accepted. -/
structure Dhcp where
  point : DhcpPoint
  xid : BitVec 32
  serverAddr : Ipv4Addr
  ip : Ipv4Addr
  offered : Option Nat
  acked : Option Nat

def Dhcp.init : Dhcp := ⟨.entry, 0, 0, 0, none, none⟩

end VijosOS
