import VijosOS.Library.Transition
import VijosOS.Tftp.Packet

/-!
# The TFTP client and its network

What `tftp_get_file` and `tftp_put_file` share, and the network between a client and the
sessions of a server. A datagram once sent may be delivered at any later time, any number of
times, until the network loses it; nothing else reaches the client's port from the server's address.
-/

namespace VijosOS

open Library

inductive ClientPoint where
  | requesting
  | transferring
  | returned (ret : Int)
  deriving DecidableEq

structure TftpClient where
  clientIp : Ipv6Addr
  clientPort : ClientPort
  reqSize : Nat
  tftpReq : Mem
  tftpBuff : Mem
  serverPort : Nat
  window : Nat
  totalLen : Nat
  point : ClientPoint

namespace TftpClient

def send (c : TftpClient) (dport : Nat) (payload : List Byte) : UdpDispatch :=
  ⟨dport, c.clientIp, c.clientPort, payload⟩

def request (c : TftpClient) : UdpDispatch := c.send tftpServerPort (bytesAt c.tftpReq 0 c.reqSize)

/-- The filter of the `recv_udp` call the client is in. -/
def filter (c : TftpClient) : Option UdpFilter :=
  match c.point with
  | .requesting => some ⟨c.clientPort, tftpServerIp, 0⟩
  | .transferring => some ⟨c.clientPort, tftpServerIp, c.serverPort⟩
  | .returned _ => none

/-- The client is in a `recv_udp` call that takes the datagram. -/
def Takes (c : TftpClient) (d : UdpDispatch) : Prop := ∃ f ∈ c.filter, taskMatchUdp f d = true

instance (c : TftpClient) (d : UdpDispatch) : Decidable (c.Takes d) :=
  inferInstanceAs (Decidable (∃ f ∈ c.filter, _))

/-- A datagram that the server's address did not send to the client's port. -/
def Foreign (c : TftpClient) (d : UdpDispatch) : Prop :=
  ¬ (d.saddr = tftpServerIp ∧ d.dport = c.clientPort)

instance (c : TftpClient) (d : UdpDispatch) : Decidable (c.Foreign d) :=
  inferInstanceAs (Decidable (¬ _))

end TftpClient

/-- A client, the datagrams sent and not lost, and the state of each session by its port. -/
structure TftpSystem (σ τ : Type) where
  client : σ
  toServer : List UdpDispatch
  toClient : List UdpDispatch
  sessions : Nat → Option τ

namespace TftpSystem

variable {σ τ : Type}

def setSession (s : TftpSystem σ τ) (port : Nat) (t : τ) : TftpSystem σ τ :=
  { s with sessions := Function.update s.sessions port (some t) }

@[simp] theorem setSession_self (s : TftpSystem σ τ) (port : Nat) (t : τ) :
    (s.setSession port t).sessions port = some t := Function.update_self _ _ _

theorem setSession_of_ne (s : TftpSystem σ τ) {port p : Nat} (t : τ) (h : p ≠ port) :
    (s.setSession port t).sessions p = s.sessions p := Function.update_of_ne h _ _

/-- The network loses a datagram. -/
def lose (s : TftpSystem σ τ) (d : UdpDispatch) : TftpSystem σ τ :=
  { s with toServer := s.toServer.erase d, toClient := s.toClient.erase d }

/-- The session at `port` sends a packet to the client. -/
def reply (s : TftpSystem σ τ) (clientPort : ClientPort) (port : Nat) (payload : List Byte) :
    TftpSystem σ τ :=
  { s with toClient := s.toClient ++ [⟨clientPort, tftpServerIp, port, payload⟩] }

end TftpSystem

/-! ## What a client takes -/

theorem TftpClient.Takes.not_returned {c : TftpClient} {d : UdpDispatch} (h : c.Takes d) (ret : Int) :
    c.point ≠ .returned ret := by
  intro hpoint
  obtain ⟨f, hf, -⟩ := h
  unfold TftpClient.filter at hf
  rw [hpoint] at hf
  cases hf

theorem TftpClient.Takes.port {c : TftpClient} {d : UdpDispatch} (h : c.Takes d) :
    d.saddr = tftpServerIp ∧ d.dport = c.clientPort ∧
      (c.point = .transferring → c.serverPort ≠ 0 → d.sport = c.serverPort) := by
  obtain ⟨f, hf, hmatch⟩ := h
  obtain ⟨hdport, hsaddr, hsport⟩ := taskMatchUdp_iff.mp hmatch
  have hport : (c.clientPort : Nat) ≠ 0 := by
    have := c.clientPort.2.1
    omega
  have hip : tftpServerIp ≠ ipv6Unspecified := by decide
  unfold TftpClient.filter at hf
  split at hf
  all_goals cases hf
  all_goals refine ⟨(hsaddr.resolve_left hip).symm, (hdport.resolve_left hport).symm, ?_⟩
  · next hpoint =>
    intro h
    rw [hpoint] at h
    cases h
  · intro _ hne
    exact (hsport.resolve_left hne).symm

end VijosOS
