import VijosOS.Net.Addr
import VijosOS.Net.Checksum
import VijosOS.Utils

/-!
# Frames

The network state of `ip.c`, the frame builders, and the handlers of received frames.
A frame is its `meta.len` with the bytes of the buffer from `dst_mac` on, stale ones
included. What a handler does outside the buffer is returned: frames transmitted and
calls of `task_dispatch_udp`, in order.
-/

namespace VijosOS

open Library

structure IfInfo where
  mac : Mac
  ipv4 : Ipv4Addr
  ipv6 : Ipv6Addr
  ipv6Multicast : Fin 4 → Ipv6Addr

-- The access times of the two MAC entries are written and never read; they are left out.
structure NetState where
  ifinfo : IfInfo
  ipReady : Bool
  serverIp : Ipv6Addr
  serverMac : Mac
  dhcpServerIp : Ipv6Addr
  dhcpServerMac : Mac

structure Frame where
  len : Nat
  bytes : Mem

/-- The arguments of a call of `task_dispatch_udp`. -/
structure UdpDispatch where
  dport : Nat
  saddr : Ipv6Addr
  sport : Nat
  payload : List Byte
  deriving DecidableEq

structure FrameResult where
  ret : Int
  net : NetState
  sent : List (List Byte)
  dispatched : List UdpDispatch

/-- Return without doing anything. -/
def FrameResult.drop (net : NetState) (ret : Int) : FrameResult := ⟨ret, net, [], []⟩

/-- `eth_begin_send_frame`, then the wait for the device. -/
def FrameResult.send (net : NetState) (fr : Frame) : FrameResult :=
  ⟨0, net, [bytesAt fr.bytes 0 fr.len], []⟩

def ethTypeIpv4 : Nat := 0x0008
def ethTypeIpv6 : Nat := 0xdd86
def ethTypeArp : Nat := 0x0608
def arpOpRequest : Nat := 0x0100
def arpOpReply : Nat := 0x0200
def arpHtypeEthernet : Nat := 0x0100
def arpPtypeIpv4 : Nat := 0x0008
def ipv4NextHeaderIcmp : Nat := 1
def ipv6NextHeaderIcmp : Nat := 58
def ipNextHeaderUdp : Nat := 17
def defaultHopLimit : Nat := 255
def ndpHopLimit : Nat := 255
def mldHopLimit : Nat := 1
def ipv6Version : Nat := 0x60
def icmpv4TypeEchoRequest : Nat := 8
def icmpv4TypeEchoReply : Nat := 0
def icmpv6TypeEchoRequest : Nat := 0x80
def icmpv6TypeEchoReply : Nat := 0x81
def icmpv6TypeNs : Nat := 0x87
def icmpv6TypeNa : Nat := 0x88
def icmpv6TypeCodeNs : Nat := 0x0087
def icmpv6TypeCodeNa : Nat := 0x0088
def icmpv6TypeCodeMldReport : Nat := 0x0083
def icmpv6FlagsR : Nat := 0x80
def icmpv6FlagsS : Nat := 0x40
def icmpv6FlagsO : Nat := 0x20
def icmpv6OptionTypeSource : Nat := 1
def icmpv6OptionTypeTarget : Nat := 2

/-! ## Routes and MAC addresses -/

def initIp : NetState where
  ifinfo := ⟨0x315f32445754, ipv4Unspecified, ipv6Unspecified, fun _ => ipv6Unspecified⟩
  ipReady := false
  serverIp := ipv4Compatible 0x3701a8c0
  serverMac := macBroadcast
  dhcpServerIp := ipv6Unspecified
  dhcpServerMac := macBroadcast

def ipQueryMac (net : NetState) (addr : Ipv6Addr) : Except Int Mac :=
  if addr = net.serverIp then
    if net.serverMac = macBroadcast then .error (-eNOFOUND) else .ok net.serverMac
  else if addr = net.dhcpServerIp then
    if net.dhcpServerMac = macBroadcast then .error (-eNOFOUND) else .ok net.dhcpServerMac
  else if addr = ipv4Compatible ipv4Broadcast then .ok macBroadcast
  else .error (-eNOFOUND)

def ipUpdateMac (net : NetState) (addr : Ipv6Addr) (mac : Mac) : NetState :=
  let net := if addr = net.serverIp then { net with serverMac := mac } else net
  if addr = net.dhcpServerIp then { net with dhcpServerMac := mac } else net

/-! ## Checksums with a pseudo-header -/

/-- The checksum of the payload of the IPv6 header at `a`. -/
def ipv6L4Checksum (m : Mem) (a : Nat) : Nat :=
  let checksum := wrap32 (ipChecksumPartial m (a + 8) 16)
  let checksum := wrap32 (checksum + ipChecksumPartial m (a + 24) 16)
  let checksum := wrap32 (checksum + getLe m (a + 4) 2)
  let checksum := wrap32 (checksum + (getLe m (a + 6) 1 <<< 8))
  let checksum := wrap32 (checksum + ipChecksumPartial m (a + 40) (ntohs (getLe m (a + 4) 2)))
  ipChecksumFinal checksum

/-- The checksum of `payloadLen` bytes after the IPv4 header at `a`. -/
def ipv4L4Checksum (m : Mem) (a payloadLen : Nat) : Nat :=
  let checksum := wrap32 (ipChecksumPartial m (a + 12) 4)
  let checksum := wrap32 (checksum + ipChecksumPartial m (a + 16) 4)
  let checksum := wrap32 (checksum + htons payloadLen)
  let checksum := wrap32 (checksum + (getLe m (a + 9) 1 <<< 8))
  let checksum := wrap32 (checksum + ipChecksumPartial m (a + 20) payloadLen)
  ipChecksumFinal checksum

/-! ## Builders

Offsets count from the first byte of the Ethernet header: 14 is the payload, 34 and 54
what follows the IPv4 and the IPv6 header, 62 what follows the ICMPv6 header. -/

def storeEthHeader (m : Mem) (dst src : Mac) (ethertype : Nat) : Mem :=
  let m := storeMac m 0 dst
  let m := storeMac m 6 src
  putLe m 12 2 ethertype

def arpMakeRequest (net : NetState) (fr : Frame) (buflen : Nat) (ip : Ipv4Addr) (knownMac : Mac) :
    Except Int Frame :=
  if buflen < 16 + 28 then .error (-eOOB)
  else
    let m := storeEthHeader fr.bytes knownMac net.ifinfo.mac ethTypeArp
    let m := putLe m 14 2 arpHtypeEthernet
    let m := putLe m 16 2 arpPtypeIpv4
    let m := putLe m 18 1 6
    let m := putLe m 19 1 4
    let m := putLe m 20 2 arpOpRequest
    let m := storeMac m 22 net.ifinfo.mac
    let m := storeIpv4 m 28 net.ifinfo.ipv4
    let m := storeMac m 32 knownMac
    let m := storeIpv4 m 38 ip
    .ok ⟨14 + 28, m⟩

def ipMakeMldReport (net : NetState) (fr : Frame) (buflen : Nat) (maddr : Ipv6Addr) :
    Except Int Frame :=
  if buflen < 16 + 40 + 8 + 16 then .error (-eOOB)
  else
    let m := storeEthHeader fr.bytes (ipv6MulticastMac maddr) net.ifinfo.mac ethTypeIpv6
    let m := putLe m 14 4 ipv6Version
    let m := putLe m 18 2 (htons (8 + 16))
    let m := putLe m 20 1 ipv6NextHeaderIcmp
    let m := putLe m 21 1 mldHopLimit
    let m := storeIpv6 m 22 (ipv6FromMac net.ifinfo.mac)
    let m := storeIpv6 m 38 maddr
    let m := putLe m 54 2 icmpv6TypeCodeMldReport
    let m := putLe m 56 2 0
    let m := putLe m 58 2 0
    let m := putLe m 60 2 0
    let m := storeIpv6 m 62 maddr
    let m := putLe m 56 2 (ipv6L4Checksum m 14)
    .ok ⟨14 + 40 + 8 + 16, m⟩

def ipMakeNdp (net : NetState) (fr : Frame) (buflen : Nat) (addr : Ipv6Addr) (mac : Mac)
    (adv unicast : Bool) (flags : Nat) : Except Int Frame :=
  if buflen < 16 + 40 + 8 + 16 + 8 then .error (-eOOB)
  else
    let dstIp := if unicast then addr else if !adv then ipv6SolicitedNode addr else ipv6AllNodes
    let dstMac := if unicast then mac else ipv6MulticastMac dstIp
    let m := storeEthHeader fr.bytes dstMac net.ifinfo.mac ethTypeIpv6
    let m := putLe m 14 4 ipv6Version
    let m := putLe m 18 2 (htons (8 + 16 + 8))
    let m := putLe m 20 1 ipv6NextHeaderIcmp
    let m := putLe m 21 1 ndpHopLimit
    let m := storeIpv6 m 22 net.ifinfo.ipv6
    let m := storeIpv6 m 38 dstIp
    let m := putLe m 54 2 (if !adv then icmpv6TypeCodeNs else icmpv6TypeCodeNa)
    let m := putLe m 56 2 0
    let m := putLe m 58 4 (if adv then icmpv6FlagsR ||| flags else 0)
    let m := storeIpv6 m 62 (if !adv then addr else net.ifinfo.ipv6)
    let m := putLe m 78 1 (if !adv then icmpv6OptionTypeSource else icmpv6OptionTypeTarget)
    let m := putLe m 79 1 1
    let m := storeMac m 80 net.ifinfo.mac
    let m := putLe m 56 2 (ipv6L4Checksum m 14)
    .ok ⟨14 + 40 + 8 + 16 + 8, m⟩

/-! ## Handlers -/

def handleArp (net : NetState) (fr : Frame) : FrameResult :=
  let m := fr.bytes
  if fr.len < 14 + 28 then .drop net (-eOOB)
  else if ¬ (getLe m 14 2 = arpHtypeEthernet ∧ getLe m 16 2 = arpPtypeIpv4 ∧ getLe m 18 1 = 6 ∧
      getLe m 19 1 = 4) then .drop net (-eBADPKT)
  else
    let op := getLe m 20 2
    if op ≠ arpOpRequest ∧ op ≠ arpOpReply then .drop net (-eBADPKT)
    else
      let srcMac := loadMac m 22
      let srcIp := loadIpv4 m 28
      let isToMe := loadIpv4 m 38 = net.ifinfo.ipv4
      let net := if srcIp ≠ ipv4Unspecified then ipUpdateMac net (ipv4Compatible srcIp) srcMac else net
      if op = arpOpRequest ∧ isToMe then
        let m := storeEthHeader m srcMac net.ifinfo.mac ethTypeArp
        let m := putLe m 20 2 arpOpReply
        let m := storeMac m 22 net.ifinfo.mac
        let m := storeIpv4 m 28 net.ifinfo.ipv4
        let m := storeMac m 32 srcMac
        let m := storeIpv4 m 38 srcIp
        .send net ⟨14 + 28, m⟩
      else .drop net 0

def doIcmpv4Echo (net : NetState) (fr : Frame) : FrameResult :=
  let m := fr.bytes
  if getLe m 35 1 ≠ 0 then .drop net (-eBADPKT)
  else
    let len := wrap16 (14 + ntohs (getLe m 16 2))
    let m := writeBytes m 0 (bytesAt m 6 6)
    let m := storeMac m 6 net.ifinfo.mac
    let m := putLe m 22 1 defaultHopLimit
    let oldDst := loadIpv4 m 30
    let m := storeIpv4 m 30 (loadIpv4 m 26)
    let m := storeIpv4 m 26 (if ipv4IsMulticast oldDst then net.ifinfo.ipv4 else oldDst)
    let m := putLe m 24 2 0
    let m := putLe m 24 2 (ipChecksum m 14 20)
    let m := putLe m 34 1 icmpv4TypeEchoReply
    let checksum := 0xffff - getLe m 36 2
    let checksum := wrap32 (checksum + ((0xffff - icmpv4TypeEchoRequest) + icmpv4TypeEchoReply))
    let m := putLe m 36 2 (ipChecksumFinal checksum)
    .send net ⟨len, m⟩

def handleIcmpv4 (net : NetState) (fr : Frame) : FrameResult :=
  let m := fr.bytes
  if fr.len < 14 + 20 + 8 then .drop net (-eOOB)
  else if ipChecksum m 34 (sub64 (ntohs (getLe m 16 2)) 20) ≠ 0 then .drop net (-eBADPKT)
  else if getLe m 34 1 = icmpv4TypeEchoRequest then doIcmpv4Echo net fr
  else .drop net (-eNOIMPL)

/-- `handle_udp` of the header at `udp` with `len` bytes. -/
def handleUdp (net : NetState) (m : Mem) (saddr : Ipv6Addr) (udp len : Nat) : FrameResult :=
  if len < 8 then .drop net (-eOOB)
  else
    let payloadLen := ntohs (getLe m (udp + 4) 2)
    if len < payloadLen then .drop net (-eOOB)
    else if payloadLen < 8 then .drop net (-eBADPKT)
    else ⟨0, net, [], [⟨ntohs (getLe m (udp + 2) 2), saddr, ntohs (getLe m udp 2),
      bytesAt m (udp + 8) (payloadLen - 8)⟩]⟩

def ipv4IsToMe (net : NetState) (dst : Ipv4Addr) : Bool :=
  dst == net.ifinfo.ipv4 || net.ifinfo.ipv4 == ipv4Unspecified

def handleIpv4 (net : NetState) (fr : Frame) : FrameResult :=
  let m := fr.bytes
  if fr.len < 14 + 20 then .drop net (-eOOB)
  else if getLe m 14 1 >>> 4 ≠ 4 then .drop net (-eBADPKT)
  else if getLe m 14 1 &&& 0xf ≠ 5 then .drop net (-eNOIMPL)
  else if ipChecksum m 14 20 ≠ 0 then .drop net (-eBADPKT)
  else
    let totalLen := ntohs (getLe m 16 2)
    if fr.len < 14 + totalLen then .drop net (-eOOB)
    else if totalLen < 20 then .drop net (-eBADPKT)
    else
      let fr := { fr with len := wrap16 (14 + totalLen) }
      if !ipv4IsToMe net (loadIpv4 m 30) then .drop net 0
      else
        let nextHeader := getLe m 23 1
        if !net.ipReady ∧ nextHeader ≠ ipNextHeaderUdp then .drop net 0
        else if nextHeader = ipv4NextHeaderIcmp then handleIcmpv4 net fr
        else if nextHeader = ipNextHeaderUdp then
          let payloadLen := totalLen - 20
          if payloadLen < 8 then .drop net (-eOOB)
          else if getLe m 40 2 ≠ 0 ∧ ipv4L4Checksum m 14 payloadLen ≠ 0 then .drop net (-eBADPKT)
          else handleUdp net m (ipv4Compatible (loadIpv4 m 26)) 34 (fr.len - (14 + 20))
        else .drop net (-eNOIMPL)

def ipv6IsToMe (net : NetState) (dst : Ipv6Addr) : Bool :=
  dst == net.ifinfo.ipv6 || decide (∃ i, dst = net.ifinfo.ipv6Multicast i)

/-- The MAC address in the option of the neighbour-discovery message, if it has one. -/
def ndpOptionMac (fr : Frame) (adv : Bool) : Option Mac :=
  let m := fr.bytes
  if fr.len ≥ 14 + 40 + 8 + 16 + 8 ∧ getLe m 79 1 = 1 ∧
      getLe m 78 1 = (if !adv then icmpv6OptionTypeSource else icmpv6OptionTypeTarget)
  then some (loadMac m 80) else none

def handleNdp (net : NetState) (fr : Frame) : FrameResult :=
  let m := fr.bytes
  if fr.len < 14 + 40 + 8 + 16 then .drop net (-eOOB)
  else if getLe m 21 1 ≠ ndpHopLimit then .drop net (-eBADPKT)
  else if getLe m 55 1 ≠ 0 then .drop net (-eBADPKT)
  else
    let adv := getLe m 54 1 = icmpv6TypeNa
    let option := ndpOptionMac fr adv
    let srcMac := loadMac m 6
    let srcIp := loadIpv6 m 22
    let targetAddr := loadIpv6 m 62
    if ¬ adv then
      let isToMe := targetAddr = net.ifinfo.ipv6
      let net :=
        match option with
        | some optionMac => if srcIp ≠ ipv6Unspecified then ipUpdateMac net srcIp optionMac else net
        | none => net
      if isToMe then
        let reply :=
          if srcIp ≠ ipv6Unspecified then
            ipMakeNdp net fr 4096 srcIp srcMac true true (icmpv6FlagsS ||| icmpv6FlagsO)
          else ipMakeNdp net fr 4096 ipv6Unspecified (-1) true false icmpv6FlagsO
        match reply with
        | .ok fr => .send net fr
        | .error _ => .drop net 0
      else .drop net 0
    else
      match option with
      | some optionMac =>
        if getLe m 58 4 &&& (icmpv6FlagsS ||| icmpv6FlagsO) ≠ 0 then
          .drop (ipUpdateMac net targetAddr optionMac) 0
        else .drop net 0
      | none => .drop net 0

def doIcmpv6Echo (net : NetState) (fr : Frame) : FrameResult :=
  let m := fr.bytes
  if getLe m 55 1 ≠ 0 then .drop net (-eBADPKT)
  else
    let len := wrap16 (14 + 40 + ntohs (getLe m 18 2))
    let m := writeBytes m 0 (bytesAt m 6 6)
    let m := storeMac m 6 net.ifinfo.mac
    let m := putLe m 21 1 defaultHopLimit
    let m := putLe m 54 1 icmpv6TypeEchoReply
    let checksum := 0xffff - getLe m 56 2
    let oldDst := loadIpv6 m 38
    let m := storeIpv6 m 38 (loadIpv6 m 22)
    let m := storeIpv6 m 22 (if ipv6IsMulticast oldDst then net.ifinfo.ipv6 else oldDst)
    let checksum :=
      if ipv6IsMulticast oldDst then
        let old := writeBytes (fun _ => 0) 0 (ipv6Bytes oldDst)
        wrap32 (wrap32 (checksum + ipChecksumNegPartial old 0 16) + ipChecksumPartial m 22 16)
      else checksum
    let checksum := wrap32 (checksum + ((0xffff - icmpv6TypeEchoRequest) + icmpv6TypeEchoReply))
    let m := putLe m 56 2 (ipChecksumFinal checksum)
    .send net ⟨len, m⟩

def handleIcmpv6 (net : NetState) (fr : Frame) : FrameResult :=
  let m := fr.bytes
  if fr.len < 14 + 40 + 8 then .drop net (-eOOB)
  else if ipv6L4Checksum m 14 ≠ 0 then .drop net (-eBADPKT)
  else
    let type := getLe m 54 1
    if type = icmpv6TypeNs ∨ type = icmpv6TypeNa then handleNdp net fr
    else if type = icmpv6TypeEchoRequest then doIcmpv6Echo net fr
    else .drop net (-eNOIMPL)

def handleIpv6 (net : NetState) (fr : Frame) : FrameResult :=
  let m := fr.bytes
  if fr.len < 14 + 40 then .drop net (-eOOB)
  else if getLe m 14 1 >>> 4 ≠ 6 then .drop net (-eBADPKT)
  else
    let payloadLen := ntohs (getLe m 18 2)
    if fr.len < 14 + 40 + payloadLen then .drop net (-eOOB)
    else
      let fr := { fr with len := wrap16 (14 + 40 + payloadLen) }
      if !ipv6IsToMe net (loadIpv6 m 38) then .drop net 0
      else
        let nextHeader := getLe m 20 1
        if nextHeader = ipv6NextHeaderIcmp then handleIcmpv6 net fr
        else if nextHeader = ipNextHeaderUdp then
          if ipv6L4Checksum m 14 ≠ 0 then .drop net (-eBADPKT)
          else handleUdp net m (loadIpv6 m 22) 54 (fr.len - (14 + 40))
        else .drop net (-eNOIMPL)

def handleFrame (net : NetState) (fr : Frame) : FrameResult :=
  let m := fr.bytes
  let isToMe := getLe m 0 1 &&& 1 ≠ 0 ∨ bytesAt m 0 6 = leBytes 6 net.ifinfo.mac.toNat
  if ¬ isToMe then .drop net 0
  else
    let ethertype := getLe m 12 2
    if ethertype = ethTypeArp then handleArp net fr
    else if ethertype = ethTypeIpv4 then handleIpv4 net fr
    else if ethertype = ethTypeIpv6 then handleIpv6 net fr
    else .drop net (-eNOIMPL)

/-! ## Frames sent -/

/-- A handler that sends has passed the test that would have made it drop the frame. -/
theorem sent_of_ite {net : NetState} {ret : Int} {c : Prop} [Decidable c] {r : FrameResult} {b : List Byte}
    (h : (if c then .drop net ret else r).sent = [b]) : ¬ c ∧ r.sent = [b] := by
  by_cases hc : c
  · rw [if_pos hc] at h
    exact absurd h (List.cons_ne_nil _ _).symm
  · rw [if_neg hc] at h
    exact ⟨hc, h⟩

theorem handleUdp_sent (net : NetState) (m : Mem) (saddr : Ipv6Addr) (udp len : Nat) :
    (handleUdp net m saddr udp len).sent = [] := by
  unfold handleUdp
  dsimp only
  split_ifs
  all_goals rfl

end VijosOS
