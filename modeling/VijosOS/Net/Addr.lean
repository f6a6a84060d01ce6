import VijosOS.Library.ByteMemory

/-!
# Addresses

The IPv4 and IPv6 addresses of `ip.h` as the little-endian words of their unions.
-/

namespace VijosOS

open Library

abbrev Ipv4Addr := BitVec 32

/-- The two 64-bit words of an `ipv6_addr_t`. -/
structure Ipv6Addr where
  lo : BitVec 64
  hi : BitVec 64
  deriving DecidableEq

/-- A 48-bit MAC address in the low bytes of a 64-bit word. -/
abbrev Mac := BitVec 64

def macBroadcast : Mac := 0xffffffffffff

def ipv4Unspecified : Ipv4Addr := 0
def ipv4Broadcast : Ipv4Addr := 0xffffffff
def ipv6Unspecified : Ipv6Addr := ⟨0, 0⟩
def ipv6AllNodes : Ipv6Addr := ⟨0x02ff, 1 <<< 56⟩

def isIpv4 (a : Ipv6Addr) : Bool := a.lo == 0 && a.hi &&& 0xffffffff == 0

def ipv6MulticastMac (a : Ipv6Addr) : Mac := ((a.hi >>> 16) &&& 0xffffffff0000) ||| 0x3333

def ipv6FromMac (mac : Mac) : Ipv6Addr :=
  ⟨0x80fe, ((mac &&& 0xffffff) ||| ((mac <<< 16) &&& 0xffffff0000000000)) ^^^ 0x000000feff000002⟩

def ipv6SolicitedNode (a : Ipv6Addr) : Ipv6Addr :=
  ⟨0x02ff, (a.hi &&& 0xffffff0000000000) ||| 0xff01000000⟩

def ipv4Compatible (a : Ipv4Addr) : Ipv6Addr := ⟨0, a.setWidth 64 <<< 32⟩

def extractIpv4 (a : Ipv6Addr) : Ipv4Addr := (a.hi >>> 32).setWidth 32

def ipv4IsMulticast (a : Ipv4Addr) : Bool := (a &&& 0xff) >>> 4 == 0xe

def ipv6IsMulticast (a : Ipv6Addr) : Bool := a.lo &&& 0xff == 0xff

theorem extractIpv4_ipv4Compatible (a : Ipv4Addr) : extractIpv4 (ipv4Compatible a) = a := by
  apply BitVec.eq_of_toNat_eq
  have ha := a.isLt
  simp only [extractIpv4, ipv4Compatible, BitVec.toNat_setWidth, BitVec.toNat_ushiftRight,
    BitVec.toNat_shiftLeft, Nat.shiftLeft_eq, Nat.shiftRight_eq_div_pow]
  omega

theorem ipv4Compatible_extractIpv4 {a : Ipv6Addr} (h : isIpv4 a = true) :
    ipv4Compatible (extractIpv4 a) = a := by
  obtain ⟨lo, hi⟩ := a
  simp only [isIpv4, Bool.and_eq_true, beq_iff_eq] at h
  obtain ⟨rfl, hlow⟩ := h
  have hmod : hi.toNat % 2 ^ 32 = 0 := by
    rw [← Nat.and_two_pow_sub_one_eq_mod]
    exact congrArg BitVec.toNat hlow
  have hlt := hi.isLt
  refine congrArg (Ipv6Addr.mk 0) (BitVec.eq_of_toNat_eq ?_)
  simp only [extractIpv4, BitVec.toNat_setWidth, BitVec.toNat_ushiftRight, BitVec.toNat_shiftLeft,
    Nat.shiftLeft_eq, Nat.shiftRight_eq_div_pow]
  omega

/-! ## Addresses in a frame -/

def loadIpv4 (m : Mem) (a : Nat) : Ipv4Addr := BitVec.ofNat 32 (getLe m a 4)

def storeIpv4 (m : Mem) (a : Nat) (ip : Ipv4Addr) : Mem := putLe m a 4 ip.toNat

def loadIpv6 (m : Mem) (a : Nat) : Ipv6Addr :=
  ⟨BitVec.ofNat 64 (getLe m a 8), BitVec.ofNat 64 (getLe m (a + 8) 8)⟩

def ipv6Bytes (ip : Ipv6Addr) : List Byte := leBytes 8 ip.lo.toNat ++ leBytes 8 ip.hi.toNat

def storeIpv6 (m : Mem) (a : Nat) (ip : Ipv6Addr) : Mem := writeBytes m a (ipv6Bytes ip)

def loadMac (m : Mem) (a : Nat) : Mac := BitVec.ofNat 64 (getLe m a 6)

def storeMac (m : Mem) (a : Nat) (mac : Mac) : Mem := putLe m a 6 mac.toNat

@[simp] theorem ipv6Bytes_length (ip : Ipv6Addr) : (ipv6Bytes ip).length = 16 := by
  simp [ipv6Bytes]

theorem ipv6Bytes_loadIpv6 (m : Mem) (a : Nat) : ipv6Bytes (loadIpv6 m a) = bytesAt m a 16 := by
  have hword : ∀ b, leBytes 8 (BitVec.ofNat 64 (getLe m b 8)).toNat = bytesAt m b 8 := by
    intro b
    have hlt : getLe m b 8 < 2 ^ 64 := getLe_lt m b 8
    rw [BitVec.toNat_ofNat, Nat.mod_eq_of_lt hlt, bytesAt_eq_leBytes]
  rw [ipv6Bytes, loadIpv6, hword, hword, ← bytesAt_add]

theorem loadIpv6_move {m m' : Mem} {a b : Nat} (h : ∀ i < 16, m (a + i) = m' (b + i)) :
    loadIpv6 m a = loadIpv6 m' b := by
  have hlo : getLe m a 8 = getLe m' b 8 := getLe_move fun i hi => h i (by omega)
  have hhi : getLe m (a + 8) 8 = getLe m' (b + 8) 8 := by
    apply getLe_move
    intro i hi
    rw [Nat.add_assoc, Nat.add_assoc]
    exact h _ (by omega)
  rw [loadIpv6, loadIpv6, hlo, hhi]

/-- Storing a loaded address copies its sixteen bytes. -/
theorem storeIpv6_loadIpv6 (m m' : Mem) (a b : Nat) {i : Nat} (hi : i < 16) :
    storeIpv6 m a (loadIpv6 m' b) (a + i) = m' (b + i) := by
  rw [storeIpv6, writeBytes_add _ _ _ (by simpa using hi), ipv6Bytes_loadIpv6, bytesAt_getD _ _ _ _ hi]

theorem storeIpv6_outside (m : Mem) (a : Nat) (ip : Ipv6Addr) {x : Nat} (h : ¬ (a ≤ x ∧ x < a + 16)) :
    storeIpv6 m a ip x = m x := writeBytes_outside _ _ _ (by simpa using h)

end VijosOS
