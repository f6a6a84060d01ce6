import Mathlib.Data.Nat.Bitwise

/-!
# The Ethernet driver

`axiethernet.c` with one receive and one transmit descriptor, and the device behind them:
a direction is idle when no descriptor of it is under way.
-/

namespace VijosOS

/-- The static buffers whose frames are handed to the driver. -/
inductive Buffer where
  | dmaBuff
  | udpBuff
  deriving DecidableEq

def dmaDescLengthMask : Nat := 2 ^ 26 - 1

structure AxiEthernet where
  sendNotBegin : Bool
  tx : Option (Buffer × Nat)
  rx : Option Nat
  rxStatus : Nat

namespace AxiEthernet

def init : AxiEthernet := ⟨true, none, none, 0⟩

def beginDmaRecv (e : AxiEthernet) (len : Nat) : AxiEthernet :=
  { e with rx := some (len &&& dmaDescLengthMask), rxStatus := 0 }

def beginDmaSend (e : AxiEthernet) (data : Buffer) (len : Nat) : AxiEthernet :=
  { e with sendNotBegin := false, tx := some (data, len &&& dmaDescLengthMask) }

def pollRecv (e : AxiEthernet) : Bool := e.rx.isNone

def pollSend (e : AxiEthernet) : Bool := e.sendNotBegin || e.tx.isNone

def lastRecvLen (e : AxiEthernet) : Nat := (e.rxStatus &&& dmaDescLengthMask) % 2 ^ 16

/-- The device has transmitted the frame. -/
def sent (e : AxiEthernet) : AxiEthernet := { e with tx := none }

/-- The device has stored a frame of `len` bytes. -/
def received (e : AxiEthernet) (len : Nat) : AxiEthernet := { e with rx := none, rxStatus := len }

theorem and_lengthMask {len : Nat} (h : len < 2 ^ 26) : len &&& dmaDescLengthMask = len := by
  rw [dmaDescLengthMask, Nat.and_two_pow_sub_one_eq_mod, Nat.mod_eq_of_lt h]

end AxiEthernet

end VijosOS
