import VijosOS.Judge.Permissions
import VijosOS.Memory.TableFormat

/-!
# Sv39 translation

What the hardware checks on a user-mode access: the address is canonical, a walk of at most
three levels ends in a leaf without reserved encodings, and the leaf grants the access with A,
and D for a store, set. The A, D and U bits of a pointer are not examined.
-/

namespace VijosOS

open Library

inductive Access where
  | fetch
  | load
  | store

/-- The trap cause of a page fault. -/
def Access.cause : Access → BitVec 64
  | .fetch => causePfFetch
  | .load => causePfLoad
  | .store => causePfStore

/-- The permission an access needs. -/
def Access.permission : Access → BitVec 64
  | .fetch => pteX
  | .load => pteR
  | .store => pteW

/-- Bits 63 to 39 equal bit 38. -/
def Canonical (va : BitVec 64) : Prop := (va.setWidth 39).signExtend 64 = va

instance (va : BitVec 64) : Decidable (Canonical va) := inferInstanceAs (Decidable (_ = _))

def sv39Vpn (va : BitVec 64) (i : Nat) : Nat := va.toNat / 2 ^ (12 + 9 * i) % 512

def sv39Ppn (pte : BitVec 64) : Nat := (pte >>> 10).toNat % 2 ^ 44

/-- The page table a `satp` value names. -/
def sv39Root (satp : BitVec 64) : Nat := satp.toNat % 2 ^ 44 * 4096

/-- Write without read, or a bit above the page number. -/
def ReservedEntry (pte : BitVec 64) : Prop := pte &&& pteR = 0 ∧ pte &&& pteW ≠ 0 ∨ pte >>> 54 ≠ 0

instance (pte : BitVec 64) : Decidable (ReservedEntry pte) := inferInstanceAs (Decidable (_ ∨ _))

/-- The leaf entry a walk reaches from the table at `a` with `n` levels left. -/
def sv39Leaf (m : Mem) (va : BitVec 64) : Nat → Nat → Option (BitVec 64)
  | 0, _ => none
  | i + 1, a =>
    let pte := load64 m (a + 8 * sv39Vpn va i)
    if ¬ pteValid pte ∨ ReservedEntry pte then none
    else if pte &&& pteR = 0 ∧ pte &&& pteX = 0 then sv39Leaf m va i (sv39Ppn pte * 4096)
    -- a misaligned superpage
    else if sv39Ppn pte % 2 ^ (9 * i) ≠ 0 then none
    else some pte

structure LeafPermits (pte : BitVec 64) (acc : Access) : Prop where
  user : pte &&& pteU ≠ 0
  permission : pte &&& acc.permission ≠ 0
  accessed : pte &&& pteA ≠ 0
  dirty : acc = .store → pte &&& pteD ≠ 0

/-- The access does not fault. -/
def Sv39Permits (m : Mem) (satp va : BitVec 64) (acc : Access) : Prop :=
  Canonical va ∧ ∃ pte, sv39Leaf m va 3 (sv39Root satp) = some pte ∧ LeafPermits pte acc

/-! ## The walk on the kernel's tables -/

theorem sv39Vpn_eq (va : BitVec 64) (i : Nat) : sv39Vpn va i = ptIdx i va.toNat :=
  (ptIdx_eq i va.toNat).symm

/-- Without high bits the hardware and `PTE_PPN` name the same page. -/
theorem sv39Ppn_eq {pte : BitVec 64} (hhigh : pte >>> 54 = 0) : sv39Ppn pte * 4096 = ptePpn pte := by
  have hlt : pte.toNat / 2 ^ 54 = 0 := by
    have h := congrArg BitVec.toNat hhigh
    rwa [BitVec.toNat_ushiftRight, Nat.shiftRight_eq_div_pow] at h
  unfold sv39Ppn ptePpn
  simp only [pgShift, ptePpnShift, BitVec.toNat_ushiftRight, BitVec.toNat_shiftLeft,
    Nat.shiftLeft_eq, Nat.shiftRight_eq_div_pow]
  omega

theorem sv39Root_setPt {root : Nat} (hroot : root < 2 ^ 56) (haligned : root % 4096 = 0) :
    sv39Root (setPt root) = root := by
  have hppn : (BitVec.ofNat 64 root >>> pgShift).toNat = root / 4096 := by
    simp only [pgShift, BitVec.toNat_ushiftRight, BitVec.toNat_ofNat, Nat.shiftRight_eq_div_pow]
    omega
  have hmode : satpModeSv39.toNat = 2 ^ 63 := by decide
  have hor : (root / 4096 ||| 2 ^ 63) % 2 ^ 44 = root / 4096 := by
    rw [Nat.or_mod_two_pow, Nat.mod_eq_of_lt (by omega)]
    exact Nat.or_zero _
  rw [sv39Root, setPt, BitVec.toNat_or, hppn, hmode, hor]
  omega

section Walk

variable {k : Kernel} {ts : List Table} {t : Table}

/-- One level of the walk above the leaves follows the tree of tables. -/
theorem sv39Leaf_table (hf : TableFormat k.mem ts) (ht : t ∈ ts) {p : List Nat} {n i : Nat}
    (hdepth : p.length < 2) (hn : follow (tableSucc k.mem) t.root p = some n) (va : BitVec 64) :
    sv39Leaf k.mem va (i + 1) n = (tableSucc k.mem n (ptIdx i va.toNat)).bind (sv39Leaf k.mem va i) := by
  rw [sv39Leaf, sv39Vpn_eq]
  by_cases hvalid : pteValid (load64 k.mem (n + 8 * ptIdx i va.toNat))
  · obtain ⟨hrwx, hhigh⟩ := hf.pointer _ p n _ ⟨t, ht, rfl⟩ hdepth hn (ptIdx_lt i _) hvalid
    have hbit : ∀ bit : BitVec 64, (pteR ||| pteW ||| pteX) &&& bit = bit →
        load64 k.mem (n + 8 * ptIdx i va.toNat) &&& bit = 0 := by
      intro bit hin
      rw [← hin, ← BitVec.and_assoc, hrwx]
      exact BitVec.zero_and
    have hreserved : ¬ (¬ pteValid (load64 k.mem (n + 8 * ptIdx i va.toNat)) ∨
        ReservedEntry (load64 k.mem (n + 8 * ptIdx i va.toNat))) := by
      rintro (hinvalid | ⟨_, hw⟩ | hh)
      · exact hinvalid hvalid
      · exact hw (hbit pteW (by decide))
      · exact hh hhigh
    rw [if_neg hreserved, if_pos ⟨hbit pteR (by decide), hbit pteX (by decide)⟩,
      tableSucc_of_valid (ptIdx_lt i _) hvalid, Option.bind_some, sv39Ppn_eq hhigh]
  · rw [if_pos (Or.inl hvalid), tableSucc_of_invalid hvalid, Option.bind_none]

/-- The hardware reaches the entry the kernel calls the leaf of the address, unless its
encoding is reserved or that of a pointer. -/
theorem sv39Leaf_eq_some (hf : TableFormat k.mem ts) (ht : t ∈ ts) {va e : BitVec 64} :
    sv39Leaf k.mem va 3 t.root = some e ↔ userPte k.mem t.root va.toNat = some e ∧
      ¬ ReservedEntry e ∧ ¬ (e &&& pteR = 0 ∧ e &&& pteX = 0) := by
  rw [sv39Leaf_table hf ht (p := []) (by simp) rfl, userPte_eq_some, Option.bind_eq_some_iff]
  have hlast : ∀ n, sv39Leaf k.mem va 1 n = some e ↔ load64 k.mem (n + 8 * ptIdx 0 va.toNat) = e ∧
      pteValid e ∧ ¬ ReservedEntry e ∧ ¬ (e &&& pteR = 0 ∧ e &&& pteX = 0) := by
    intro n
    rw [sv39Leaf, sv39Vpn_eq]
    generalize load64 k.mem (n + 8 * ptIdx 0 va.toNat) = pte
    have hone : sv39Ppn pte % 2 ^ (9 * 0) = 0 := Nat.mod_one _
    constructor
    · intro h
      by_cases hbad : ¬ pteValid pte ∨ ReservedEntry pte
      · rw [if_pos hbad] at h
        cases h
      rw [if_neg hbad] at h
      by_cases hpointer : pte &&& pteR = 0 ∧ pte &&& pteX = 0
      · rw [if_pos hpointer] at h
        cases h
      rw [if_neg hpointer, if_neg (not_not_intro hone)] at h
      obtain rfl := Option.some.inj h
      rw [not_or, not_not] at hbad
      exact ⟨rfl, hbad.1, hbad.2, hpointer⟩
    · rintro ⟨rfl, hvalid, hreserved, hpointer⟩
      rw [if_neg (not_or.mpr ⟨not_not_intro hvalid, hreserved⟩), if_neg hpointer,
        if_neg (not_not_intro hone)]
  constructor
  · rintro ⟨c, hc, hwalk⟩
    have hpath : follow (tableSucc k.mem) t.root [ptIdx 2 va.toNat] = some c :=
      (follow_snoc_eq_some (p := [])).mpr ⟨t.root, rfl, hc⟩
    rw [sv39Leaf_table hf ht (by simp) hpath, Option.bind_eq_some_iff] at hwalk
    obtain ⟨n, hn, hleaf⟩ := hwalk
    obtain ⟨hload, hvalid, hrest⟩ := (hlast n).mp hleaf
    have hpath' : follow (tableSucc k.mem) t.root ([ptIdx 2 va.toNat] ++ [ptIdx 1 va.toNat]) = some n :=
      follow_snoc_eq_some.mpr ⟨c, hpath, hn⟩
    exact ⟨⟨n, hpath', hload, hvalid⟩, hrest⟩
  · rintro ⟨⟨n, hn, hload, hvalid⟩, hrest⟩
    obtain ⟨c, hpath, hn⟩ := (follow_snoc_eq_some (p := [ptIdx 2 va.toNat])).mp hn
    obtain ⟨_, hroot, hc⟩ := (follow_snoc_eq_some (p := [])).mp hpath
    obtain rfl := Option.some.inj hroot
    refine ⟨c, hc, ?_⟩
    rw [sv39Leaf_table hf ht (by simp) hpath, Option.bind_eq_some_iff]
    exact ⟨n, hn, (hlast n).mpr ⟨hload, hvalid, hrest⟩⟩

end Walk

end VijosOS
