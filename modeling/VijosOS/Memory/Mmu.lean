import VijosOS.Memory.Allocator

/-!
# Sv39 page-table entries

The entry layout and the index macros of `mmu.h`, with the flags of `vm.h`.
-/

namespace VijosOS

open Library

def kernelBase : Nat := 0
def userTop : Nat := 0x4000000000
def userBottom : Nat := 0x0000001000

def vmR : BitVec 64 := 0x1
def vmW : BitVec 64 := 0x2
def vmX : BitVec 64 := 0x4
def vmU : BitVec 64 := 0x8
def vmA : BitVec 64 := 0x10
def vmD : BitVec 64 := 0x20

def pteV : BitVec 64 := 0x001
def pteR : BitVec 64 := 0x002
def pteW : BitVec 64 := 0x004
def pteX : BitVec 64 := 0x008
def pteU : BitVec 64 := 0x010
def pteA : BitVec 64 := 0x040
def pteD : BitVec 64 := 0x080

def ptePpnShift : Nat := 10
def pgLevelShift : Nat := 9

def pteValid (x : BitVec 64) : Prop := x &&& pteV ≠ 0

instance (x : BitVec 64) : Decidable (pteValid x) := inferInstanceAs (Decidable (_ ≠ _))

/-- The physical address an entry points to. -/
def ptePpn (x : BitVec 64) : Nat := ((x >>> ptePpnShift) <<< pgShift).toNat

def ptIdx (l x : Nat) : Nat := (x >>> (pgShift + pgLevelShift * l)) &&& 0x1ff

def pteFlags (flags : BitVec 64) : BitVec 64 :=
  let pte := 0
  let pte := if flags &&& vmR ≠ 0 then pte ||| pteR else pte
  let pte := if flags &&& vmW ≠ 0 then pte ||| pteW else pte
  let pte := if flags &&& vmX ≠ 0 then pte ||| pteX else pte
  let pte := if flags &&& vmA ≠ 0 then pte ||| pteA else pte
  let pte := if flags &&& vmD ≠ 0 then pte ||| pteD else pte
  if flags &&& vmU ≠ 0 then pte ||| pteU else pte

def makePte (level ppn : Nat) (flags : BitVec 64) : BitVec 64 :=
  let pte := (BitVec.ofNat 64 ppn >>> pgShift) <<< ptePpnShift
  let pte :=
    if level = 0 then
      let pte := if flags &&& vmR ≠ 0 then pte ||| pteR else pte
      let pte := if flags &&& vmW ≠ 0 then pte ||| pteW else pte
      let pte := if flags &&& vmX ≠ 0 then pte ||| pteX else pte
      let pte := if flags &&& vmA ≠ 0 then pte ||| pteA else pte
      if flags &&& vmD ≠ 0 then pte ||| pteD else pte
    else
      let pte := pte ||| pteA
      pte ||| pteD
  let pte := if flags &&& vmU ≠ 0 then pte ||| pteU else pte
  pte ||| pteV

/-! ## Indices -/

theorem ptIdx_eq (l x : Nat) : ptIdx l x = x / 2 ^ (12 + 9 * l) % 512 := by
  rw [ptIdx, Nat.shiftRight_eq_div_pow]
  exact Nat.and_two_pow_sub_one_eq_mod _ 9

theorem ptIdx_lt (l x : Nat) : ptIdx l x < 512 := by
  rw [ptIdx_eq]
  exact Nat.mod_lt _ (by decide)

/-- The three indices name the virtual page modulo 2^39. -/
theorem ptIdx_page (x y : Nat) :
    (ptIdx 2 x = ptIdx 2 y ∧ ptIdx 1 x = ptIdx 1 y ∧ ptIdx 0 x = ptIdx 0 y) ↔
      x / 4096 % 2 ^ 27 = y / 4096 % 2 ^ 27 := by
  simp only [ptIdx_eq]
  omega

/-! ## Entries -/

/-- The flag bits of a new entry: a leaf takes the requested ones, a table A and D. -/
def newFlags (level : Nat) (flags : BitVec 64) : BitVec 64 :=
  (if level = 0 then pteFlags flags
   else if flags &&& vmU ≠ 0 then pteA ||| pteD ||| pteU else pteA ||| pteD) ||| pteV

theorem makePte_eq (level ppn : Nat) (flags : BitVec 64) :
    makePte level ppn flags =
      (BitVec.ofNat 64 ppn >>> pgShift) <<< ptePpnShift ||| newFlags level flags := by
  unfold makePte newFlags pteFlags
  split_ifs <;> simp [BitVec.or_assoc]

theorem newFlags_high (level : Nat) (flags : BitVec 64) : newFlags level flags >>> 8 = 0 := by
  unfold newFlags pteFlags
  split_ifs <;> decide

theorem pteValid_iff (x : BitVec 64) : pteValid x ↔ x.getLsbD 0 = true := by
  have h := (and_one_shiftLeft_eq_zero x (k := 0) (by decide)).not
  rw [Bool.not_eq_false] at h
  exact h

theorem pteValid_or (x y : BitVec 64) : pteValid (x ||| y) ↔ pteValid x ∨ pteValid y := by
  simp only [pteValid_iff, BitVec.getLsbD_or, Bool.or_eq_true]

theorem not_pteValid_zero : ¬ pteValid 0 := by decide

theorem newFlags_valid (level : Nat) (flags : BitVec 64) : pteValid (newFlags level flags) :=
  (pteValid_or _ _).mpr (Or.inr (by decide))

theorem makePte_valid (level ppn : Nat) (flags : BitVec 64) : pteValid (makePte level ppn flags) := by
  rw [makePte_eq, pteValid_or]
  exact Or.inr (newFlags_valid level flags)

/-- Flag bits do not reach the page number. -/
theorem ptePpn_or (x y : BitVec 64) (hy : y >>> 8 = 0) : ptePpn (x ||| y) = ptePpn x := by
  have hz : y >>> 10 = 0 := by
    have h : y >>> 10 = (y >>> 8) >>> 2 := (BitVec.shiftRight_add y 8 2)
    rw [h, hy]
    decide
  have hshift : (x ||| y) >>> 10 = x >>> 10 := by
    rw [BitVec.ushiftRight_or_distrib, hz]
    simp
  simp only [ptePpn, ptePpnShift, hshift]

/-- A page-aligned 64-bit address survives the trip through an entry. -/
theorem ptePpn_makePte (level : Nat) {pa : Nat} (flags : BitVec 64) (hpa : pa < 2 ^ 64)
    (haligned : pa % 4096 = 0) : ptePpn (makePte level pa flags) = pa := by
  rw [makePte_eq, ptePpn_or _ _ (newFlags_high level flags)]
  simp only [ptePpn, ptePpnShift, pgShift, BitVec.toNat_shiftLeft, BitVec.toNat_ushiftRight,
    BitVec.toNat_ofNat, Nat.shiftLeft_eq, Nat.shiftRight_eq_div_pow]
  omega

/-- The page number leaves the flag bits alone. -/
theorem makePte_and (level ppn : Nat) (flags : BitVec 64) {bit : BitVec 64} (hbit : bit >>> 10 = 0) :
    makePte level ppn flags &&& bit = newFlags level flags &&& bit := by
  have hhigh : (BitVec.ofNat 64 ppn >>> pgShift) <<< ptePpnShift &&& bit = 0 := by
    apply BitVec.eq_of_getLsbD_eq
    intro i hi
    rw [BitVec.getLsbD_and, BitVec.getLsbD_shiftLeft]
    by_cases hlow : i < ptePpnShift
    · simp [hlow]
    · have hzero : bit.getLsbD i = false := by
        have hshift := congrArg (fun y : BitVec 64 => y.getLsbD (i - 10)) hbit
        have hsplit : 10 + (i - 10) = i := by
          unfold ptePpnShift at hlow
          omega
        simpa [hsplit] using hshift
      simp [hzero]
  rw [makePte_eq, BitVec.and_or_distrib_right, hhigh]
  exact BitVec.zero_or

end VijosOS
