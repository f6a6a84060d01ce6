import VijosOS.Net.Frame

/-!
# Sending UDP datagrams

`send_udp` builds a frame in the static `udp_buff` and hands it to `ip_send`, which
replaces it by a question for the MAC address when that is unknown.
-/

namespace VijosOS

open Library

abbrev Port := BitVec 16

def ipSendWithMac (net : NetState) (fr : Frame) (mac : Mac) : FrameResult :=
  let m := storeMac fr.bytes 6 net.ifinfo.mac
  let m := storeMac m 0 mac
  .send net ⟨fr.len, m⟩

def ipSend (net : NetState) (fr : Frame) (nexthop : Ipv6Addr) : FrameResult :=
  match ipQueryMac net nexthop with
  | .ok mac => ipSendWithMac net fr mac
  | .error _ =>
    let request :=
      if isIpv4 nexthop then arpMakeRequest net fr 4096 (extractIpv4 nexthop) (-1)
      else ipMakeNdp net fr 4096 nexthop (-1) false false 0
    match request with
    | .ok fr => .send net fr
    | .error ret => .drop net ret

/-- The frame `send_udp` builds over the old contents of `udp_buff`. -/
def udpFrame (net : NetState) (buff : Mem) (sport : Port) (daddr : Ipv6Addr) (dport : Port)
    (payload : List Byte) : Frame :=
  let len := payload.length
  let m := putLe buff 12 2 ethTypeIpv4
  let m := putLe m 14 1 0x45
  let m := putLe m 15 1 0
  let m := putLe m 16 2 (htons (20 + 8 + len))
  let m := putLe m 18 2 0
  let m := putLe m 20 2 0
  let m := putLe m 22 1 defaultHopLimit
  let m := putLe m 23 1 ipNextHeaderUdp
  let m := storeIpv4 m 26 net.ifinfo.ipv4
  let m := storeIpv4 m 30 (extractIpv4 daddr)
  let m := putLe m 24 2 0
  let m := putLe m 24 2 (ipChecksum m 14 20)
  let m := putLe m 34 2 (htons sport.toNat)
  let m := putLe m 36 2 (htons dport.toNat)
  let m := putLe m 38 2 (htons (8 + len))
  let m := writeBytes m 42 payload
  let m := putLe m 40 2 0
  let m := putLe m 40 2 (ipv4L4Checksum m 14 (8 + len))
  ⟨14 + 20 + 8 + len, m⟩

-- `len` is the size of an object in memory, so the sum in the test does not wrap.
def sendUdp (net : NetState) (buff : Mem) (sport : Port) (daddr : Ipv6Addr) (dport : Port)
    (payload : List Byte) : FrameResult :=
  if 4096 < 16 + 20 + 8 + payload.length then .drop net (-eOOB)
  else ipSend net (udpFrame net buff sport daddr dport payload) daddr

end VijosOS
