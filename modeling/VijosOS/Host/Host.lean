import VijosOS.Dhcp.Client
import VijosOS.Driver.AxiEthernet
import VijosOS.Task.Idle

/-!
# The host

The four tasks of the kernel with the network state, the two frame buffers and the driver:
idle, the IP task, the DHCP client and the judge. Each step is the code of the current task
up to a call of the scheduler or of `recv_udp`, or an event of the device.
-/

namespace VijosOS

open Library

/-- Where `iptask_entry` stands: at the top of its loop, or with a receive under way. -/
inductive IpPoint where
  | top
  | recv
  deriving DecidableEq

/-- What the judge does once it has started; its requests decide. -/
inductive JudgeOp where
  | schedYield
  | sendUdp (sport : Port) (daddr : Ipv6Addr) (dport : Port) (payload : List Byte)
  | recvUdp (filter : UdpFilter) (len : Nat) (timeout : BitVec 64)

/-- `handed` lists the frames given to `eth_begin_send_frame`, `transmitted` what the device
has sent, both in order. -/
structure Host where
  sched : Sched
  net : NetState
  nic : AxiEthernet
  dmaBuff : Mem
  udpBuff : Mem
  ip : IpPoint
  dhcp : Dhcp
  judging : Bool
  handed : List (List Byte)
  transmitted : List (List Byte)

namespace Host

def iptaskTask : Nat := 1
def dhcpTask : Nat := 2
def judgeTask : Nat := 3

/-- The room for a frame after `meta.len`. -/
def frameCap : Nat := 4096 - 2

def boot : Host where
  sched := Sched.boot 4
  net := initIp
  nic := .init
  dmaBuff := fun _ => 0
  udpBuff := fun _ => 0
  ip := .top
  dhcp := .init
  judging := false
  handed := []
  transmitted := []

def buffer (y : Host) : Buffer → Mem
  | .dmaBuff => y.dmaBuff
  | .udpBuff => y.udpBuff

def store (y : Host) (b : Buffer) (frame : List Byte) : Host :=
  match b with
  | .dmaBuff => { y with dmaBuff := writeBytes y.dmaBuff 0 frame }
  | .udpBuff => { y with udpBuff := writeBytes y.udpBuff 0 frame }

/-- A call into the scheduler. -/
def call (y : Host) (l : Sched.Label) : Option Host :=
  (y.sched.step l).map fun s => { y with sched := s }

/-- `eth_begin_send_frame` of the frame built in `b`. Only its bytes are stored: what building it
has left beyond its end is never sent. -/
def beginSendFrame (y : Host) (b : Buffer) (frame : List Byte) : Host :=
  { y.store b frame with
    nic := y.nic.beginDmaSend b frame.length
    handed := y.handed ++ [frame] }

def transmit (y : Host) (b : Buffer) (frame : List Byte) : Option Host :=
  (y.beginSendFrame b frame).call (.wait waitEthSend)

/-! ## Tasks -/

/-- `idle_entry`; the device answers the polls of the network. -/
def idleStep (y : Host) (tty : Bool) : Option Host :=
  match y.sched.idle with
  | .pollTtyRecv | .pollTtySend => y.call (.poll tty)
  | .pollEthRecv => y.call (.poll y.nic.pollRecv)
  | .pollEthSend => y.call (.poll y.nic.pollSend)
  | _ => y.call .idle

/-- What `handle_frame` makes of the frame received. -/
def handled (y : Host) : FrameResult := handleFrame y.net ⟨y.nic.lastRecvLen, y.dmaBuff⟩

def ipStep (y : Host) : Option Host :=
  match y.ip with
  | .top => call { y with nic := y.nic.beginDmaRecv frameCap, ip := .recv } (.wait waitEthRecv)
  | .recv =>
    let r := y.handled
    let y := { y with net := r.net, ip := .top }
    match r.sent, r.dispatched with
    | b :: _, _ => y.transmit .dmaBuff b
    | [], d :: _ => y.call (.dispatch d)
    | [], [] => some y

def sendUdp (y : Host) (sport : Port) (daddr : Ipv6Addr) (dport : Port) (payload : List Byte) :
    Option Host :=
  match (VijosOS.sendUdp y.net y.udpBuff sport daddr dport payload).sent with
  | b :: _ => y.transmit .udpBuff b
  | [] => some y

def dhcpAt (y : Host) (p : DhcpPoint) : Host := { y with dhcp := { y.dhcp with point := p } }

def dhcpStep (y : Host) : Option Host :=
  match y.dhcp.point with
  | .entry =>
    if y.net.ipReady ∧ y.net.ifinfo.ipv4 ≠ ipv4Unspecified then (y.dhcpAt .done).call (.wait waitExit)
    else some { y with dhcp := { y.dhcp with
      point := .discover
      xid := (y.sched.rdcycle ^^^ 0xaa55ccdd).setWidth 32 } }
  | .discover => (y.dhcpAt .discovered).sendUdp dhcpClientPort (ipv4Compatible ipv4Broadcast) dhcpServerPort
      (dhcpDiscover y.net.ifinfo.mac y.dhcp.xid)
  | .discovered => (y.dhcpAt (.offer y.sched.log.calls.length)).call
      (.recvUdp offerFilter 1024 (BitVec.ofNat 64 (3 * clockFreq)))
  | .offer n =>
    match y.sched.log.calls[n]? with
    | some c =>
      if dhcpAccepts c.buff c.outLen y.dhcp.xid dhcpMessageTypeOffer then
        let server := extractIpv4 c.saddr
        let ip := dhcpYiaddr c.buff
        some { y with
          net := { y.net with
            ifinfo := { y.net.ifinfo with ipv4 := ip }
            dhcpServerIp := ipv4Compatible server
            dhcpServerMac := macBroadcast }
          dhcp := { y.dhcp with point := .request, serverAddr := server, ip := ip, offered := some n } }
      else some (y.dhcpAt .discover)
    | none => none
  | .request => (y.dhcpAt .requested).sendUdp dhcpClientPort (ipv4Compatible y.dhcp.serverAddr) dhcpServerPort
      (dhcpRequest y.net.ifinfo.mac y.dhcp.xid y.dhcp.ip)
  | .requested => (y.dhcpAt (.ack y.sched.log.calls.length)).call
      (.recvUdp (ackFilter y.dhcp.serverAddr) 1024 (BitVec.ofNat 64 (clockFreq / 4)))
  | .ack n =>
    match y.sched.log.calls[n]? with
    | some c =>
      if dhcpAccepts c.buff c.outLen y.dhcp.xid dhcpMessageTypeAck then
        call { y with
          net := { y.net with
            ifinfo := { y.net.ifinfo with ipv4 := dhcpYiaddr c.buff }
            ipReady := true }
          dhcp := { y.dhcp with point := .done, ip := dhcpYiaddr c.buff, acked := some n } }
          (.wait waitExit)
      else some (y.dhcpAt .request)
    | none => none
  | .done => none

def judgeStep (y : Host) (op : JudgeOp) : Option Host :=
  if y.judging then
    match op with
    | .schedYield => y.call .schedYield
    | .sendUdp sport daddr dport payload => y.sendUdp sport daddr dport payload
    | .recvUdp filter len timeout => y.call (.recvUdp filter len timeout)
  else if y.net.ipReady ∧ y.net.ifinfo.ipv4 ≠ ipv4Unspecified then some { y with judging := true }
  else y.call .schedYield

/-! ## Runs -/

inductive Label where
  | tick (cycles : Nat)
  | idle (tty : Bool)
  | ip
  | dhcp
  | judge (op : JudgeOp)
  | sent
  | received (frame : List Byte)

def step (y : Host) : Label → Option Host
  | .tick cycles => y.call (.tick cycles)
  | .idle tty => if y.sched.current = Sched.idleTask then y.idleStep tty else none
  | .ip => if y.sched.current = iptaskTask then y.ipStep else none
  | .dhcp => if y.sched.current = dhcpTask then y.dhcpStep else none
  | .judge op => if y.sched.current = judgeTask then y.judgeStep op else none
  | .sent =>
    y.nic.tx.map fun (b, len) =>
      { y with nic := y.nic.sent, transmitted := y.transmitted ++ [bytesAt (y.buffer b) 0 len] }
  | .received frame =>
    y.nic.rx.bind fun cap =>
      if frame.length ≤ cap then
        some { y with nic := y.nic.received frame.length, dmaBuff := writeBytes y.dmaBuff 0 frame }
      else none

end Host

end VijosOS
