import VijosOS.Library.ByteMemory
import Mathlib.Logic.Function.Basic

/-!
# Straight-line RISC-V assembly

Instructions on the registers, the CSRs and memory. Branches go forward: a taken branch skips the
instructions up to its label.
-/

namespace VijosOS.Library

inductive Csr where
  | mstatus
  | mscratch
  | mepc
  | mcause
  | mtval
  | satp
  | cycle
  deriving DecidableEq

structure Hart where
  x : Nat → BitVec 64
  csr : Csr → BitVec 64
  mem : Mem

/-- Register 0 reads as 0 and ignores writes. -/
def Hart.get (h : Hart) (r : Nat) : BitVec 64 := if r = 0 then 0 else h.x r

def Hart.set (h : Hart) (r : Nat) (v : BitVec 64) : Hart :=
  if r = 0 then h else { h with x := Function.update h.x r v }

def Hart.setCsr (h : Hart) (c : Csr) (v : BitVec 64) : Hart :=
  { h with csr := Function.update h.csr c v }

/-- The instructions, with labels from `L`. -/
inductive Instr (L : Type) where
  | label (l : L)
  | bnez (rs : Nat) (l : L)
  | addi (rd rs : Nat) (imm : BitVec 64)
  | and (rd rs rs' : Nat)
  | li (rd : Nat) (imm : BitVec 64)
  | ld (rd : Nat) (off : BitVec 64) (base : Nat)
  | sd (rs : Nat) (off : BitVec 64) (base : Nat)
  | csrr (rd : Nat) (c : Csr)
  | csrw (c : Csr) (rs : Nat)
  | csrrw (rd : Nat) (c : Csr) (rs : Nat)

section Exec

variable {L : Type}

def Instr.run : Instr L → Hart → Hart
  | .label _, h => h
  | .bnez _ _, h => h
  | .addi rd rs imm, h => h.set rd (h.get rs + imm)
  | .and rd rs rs', h => h.set rd (h.get rs &&& h.get rs')
  | .li rd imm, h => h.set rd imm
  | .ld rd off base, h => h.set rd (load64 h.mem (h.get base + off).toNat)
  | .sd rs off base, h => { h with mem := store64 h.mem (h.get base + off).toNat (h.get rs) }
  | .csrr rd c, h => h.set rd (h.csr c)
  | .csrw c rs, h => h.setCsr c (h.get rs)
  | .csrrw rd c rs, h => (h.setCsr c (h.get rs)).set rd (h.csr c)

/-- The label a taken branch goes to. -/
def Instr.target : Instr L → Hart → Option L
  | .bnez rs l, h => if h.get rs = 0 then none else some l
  | _, _ => none

def Instr.marks [DecidableEq L] : Instr L → L → Bool
  | .label l, t => l = t
  | _, _ => false

/-- One line of the program, with the label a taken branch is looking for. -/
def advance [DecidableEq L] : Option L × Hart → Instr L → Option L × Hart
  | (some t, h), i => (if i.marks t then none else some t, h)
  | (none, h), i => (i.target h, i.run h)

def exec [DecidableEq L] (is : List (Instr L)) (h : Hart) : Hart := (is.foldl advance (none, h)).2

theorem advance_none [DecidableEq L] (h : Hart) (i : Instr L) :
    advance (none, h) i = (i.target h, i.run h) := rfl

theorem advance_some [DecidableEq L] (t : L) (h : Hart) (i : Instr L) :
    advance (some t, h) i = (if i.marks t then none else some t, h) := rfl

end Exec

/-! ## Slots -/

/-- The word of index `i` from `base`. -/
def slotAt (m : Mem) (base i : Nat) : BitVec 64 := load64 m (base + 8 * i)

theorem slotAt_store (m : Mem) (base i : Nat) (v : BitVec 64) :
    slotAt (store64 m (base + 8 * i) v) base = Function.update (slotAt m base) i v := by
  funext j
  by_cases hji : j = i
  · subst hji
    simp [slotAt]
  · rw [Function.update_of_ne hji]
    exact load64_store64_disjoint _ _ _ _ (by omega)

theorem slotAt_congr {m m' : Mem} {base n i : Nat} (h : ∀ x, base ≤ x → x < base + 8 * n → m' x = m x)
    (hi : i < n) : slotAt m' base i = slotAt m base i :=
  load64_congr fun j hj => h _ (by omega) (by omega)

/-- Store the word `w i` in the slot of each index `i` of a list. -/
def storeSlots (m : Mem) (base : Nat) (w : Nat → BitVec 64) : List Nat → Mem
  | [] => m
  | i :: is => storeSlots (store64 m (base + 8 * i) (w i)) base w is

theorem slotAt_storeSlots (m : Mem) (base : Nat) (w : Nat → BitVec 64) (is : List Nat) (j : Nat) :
    slotAt (storeSlots m base w is) base j = if j ∈ is then w j else slotAt m base j := by
  induction is generalizing m with
  | nil => simp [storeSlots]
  | cons i is ih =>
    rw [storeSlots, ih, slotAt_store]
    by_cases hj : j ∈ is
    · simp [hj]
    · by_cases hji : j = i
      · simp [hji]
      · simp [hj, hji]

theorem storeSlots_outside {m : Mem} {base n : Nat} {w : Nat → BitVec 64} {is : List Nat}
    (his : ∀ i ∈ is, i < n) {x : Nat} (hx : ¬ (base ≤ x ∧ x < base + 8 * n)) :
    storeSlots m base w is x = m x := by
  induction is generalizing m with
  | nil => rfl
  | cons i is ih =>
    have hi := his i List.mem_cons_self
    rw [storeSlots, ih fun j hj => his j (List.mem_cons_of_mem _ hj)]
    exact store64_outside _ _ _ (by omega)

/-! ## Runs of loads and stores -/

section Runs

variable {L : Type} [DecidableEq L] {h : Hart} {sp base : Nat}

theorem toNat_slot {b : BitVec 64} (hb : b.toNat = base) {i : Nat} (hfit : base + 8 * i < 2 ^ 64) :
    (b + BitVec.ofNat 64 (8 * i)).toNat = base + 8 * i := by
  rw [BitVec.toNat_add, BitVec.toNat_ofNat, hb]
  omega

/-- The stores of a list of registers, each in the slot of its number. -/
theorem foldl_stores {rs : List Nat} (hsp : (h.get sp).toNat = base)
    (hfit : ∀ r ∈ rs, base + 8 * r < 2 ^ 64) :
    (rs.map fun r => (.sd r (BitVec.ofNat 64 (8 * r)) sp : Instr L)).foldl advance (none, h) =
      (none, { h with mem := storeSlots h.mem base h.get rs }) := by
  induction rs generalizing h with
  | nil => rfl
  | cons r rs ih =>
    have haddr := toNat_slot hsp (hfit r List.mem_cons_self)
    have hrest := ih (h := { h with mem := store64 h.mem (base + 8 * r) (h.get r) }) hsp
      fun r' hr' => hfit r' (List.mem_cons_of_mem _ hr')
    rw [List.map_cons, List.foldl_cons]
    show List.foldl advance (none, { h with mem := store64 h.mem _ (h.get r) }) _ = _
    rw [haddr, hrest]
    rfl

/-- The loads of a list of registers other than the base register. -/
theorem foldl_loads {rs : List Nat} (hsp : (h.get sp).toNat = base)
    (hfit : ∀ r ∈ rs, base + 8 * r < 2 ^ 64) (hzero : 0 ∉ rs) (hbase : sp ∉ rs) :
    (rs.map fun r => (.ld r (BitVec.ofNat 64 (8 * r)) sp : Instr L)).foldl advance (none, h) =
      (none, { h with x := fun r => if r ∈ rs then slotAt h.mem base r else h.x r }) := by
  induction rs generalizing h with
  | nil => simp
  | cons r rs ih =>
    rw [List.mem_cons, not_or] at hzero hbase
    obtain ⟨hr0, hzero'⟩ := hzero
    obtain ⟨hrsp, hbase'⟩ := hbase
    have haddr := toNat_slot hsp (hfit r List.mem_cons_self)
    let h₁ : Hart := { h with x := Function.update h.x r (slotAt h.mem base r) }
    have hget : h₁.get sp = h.get sp := by
      show (if sp = 0 then 0 else Function.update h.x r _ sp) = _
      rw [Function.update_of_ne hrsp]
      rfl
    have hrest := ih (h := h₁) (by rw [hget, hsp])
      (fun r' hr' => hfit r' (List.mem_cons_of_mem _ hr')) hzero' hbase'
    have hfirst : advance (none, h) (.ld r (BitVec.ofNat 64 (8 * r)) sp : Instr L) = (none, h₁) := by
      show (none, h.set r (load64 h.mem _)) = _
      rw [haddr, Hart.set, if_neg (Ne.symm hr0)]
      rfl
    rw [List.map_cons, List.foldl_cons, hfirst, hrest]
    simp only [Prod.mk.injEq, Hart.mk.injEq, true_and]
    refine ⟨?_, rfl, rfl⟩
    funext r'
    by_cases hmem : r' ∈ rs
    · simp [hmem, h₁]
    · by_cases hr : r' = r
      · simp [hr, h₁]
      · simp [hmem, hr, h₁]

/-- The stores of the registers `reg i`, each in the slot `i`. -/
theorem foldl_storeSlots (reg : Nat → Nat) (is : List Nat) (hsp : (h.get sp).toNat = base)
    (hfit : ∀ i ∈ is, base + 8 * i < 2 ^ 64) :
    (is.map fun i => (.sd (reg i) (BitVec.ofNat 64 (8 * i)) sp : Instr L)).foldl advance (none, h) =
      (none, { h with mem := storeSlots h.mem base (fun i => h.get (reg i)) is }) := by
  induction is generalizing h with
  | nil => rfl
  | cons i is ih =>
    have haddr := toNat_slot hsp (hfit i List.mem_cons_self)
    let h₁ : Hart := { h with mem := store64 h.mem (base + 8 * i) (h.get (reg i)) }
    have hrest : _ = _ := ih (h := h₁) hsp fun j hj => hfit j (List.mem_cons_of_mem _ hj)
    have hfirst : advance (none, h) (.sd (reg i) (BitVec.ofNat 64 (8 * i)) sp : Instr L) = (none, h₁) := by
      show (none, { h with mem := store64 h.mem _ (h.get (reg i)) }) = _
      rw [haddr]
    rw [List.map_cons, List.foldl_cons, hfirst, hrest]
    rfl

/-- The loads of the registers `reg i` from the slots `i` put each word in its register. -/
theorem foldl_loadSlots (reg : Nat → Nat) (is : List Nat) (hsp : (h.get sp).toNat = base)
    (hfit : ∀ i ∈ is, base + 8 * i < 2 ^ 64) (hzero : ∀ i ∈ is, reg i ≠ 0) (hbase : ∀ i ∈ is, reg i ≠ sp)
    (hdistinct : ∀ i ∈ is, ∀ j ∈ is, reg i = reg j → i = j) :
    ∃ x : Nat → BitVec 64,
      (is.map fun i => (.ld (reg i) (BitVec.ofNat 64 (8 * i)) sp : Instr L)).foldl advance (none, h) =
        (none, { h with x := x }) ∧
      (∀ i ∈ is, x (reg i) = slotAt h.mem base i) ∧ ∀ r, (∀ i ∈ is, reg i ≠ r) → x r = h.x r := by
  induction is generalizing h with
  | nil => exact ⟨h.x, rfl, fun _ hi => absurd hi List.not_mem_nil, fun _ _ => rfl⟩
  | cons i is ih =>
    have haddr := toNat_slot hsp (hfit i List.mem_cons_self)
    have hne := hbase i List.mem_cons_self
    let h₁ : Hart := { h with x := Function.update h.x (reg i) (slotAt h.mem base i) }
    have hget : h₁.get sp = h.get sp := by
      show (if sp = 0 then 0 else Function.update h.x (reg i) _ sp) = _
      rw [Function.update_of_ne (Ne.symm hne)]
      rfl
    have hfirst : advance (none, h) (.ld (reg i) (BitVec.ofNat 64 (8 * i)) sp : Instr L) = (none, h₁) := by
      show (none, h.set (reg i) (load64 h.mem _)) = _
      rw [haddr, Hart.set, if_neg (hzero i List.mem_cons_self)]
      rfl
    obtain ⟨x, hrest, hloaded, hkept⟩ := ih (h := h₁) (by rw [hget, hsp])
      (fun j hj => hfit j (List.mem_cons_of_mem _ hj)) (fun j hj => hzero j (List.mem_cons_of_mem _ hj))
      (fun j hj => hbase j (List.mem_cons_of_mem _ hj))
      (fun j hj k hk => hdistinct j (List.mem_cons_of_mem _ hj) k (List.mem_cons_of_mem _ hk))
    refine ⟨x, by rw [List.map_cons, List.foldl_cons, hfirst, hrest], ?_, ?_⟩
    · intro j hj
      by_cases hmem : j ∈ is
      · exact hloaded j hmem
      · obtain rfl : j = i := (List.mem_cons.mp hj).resolve_right hmem
        have hlast : ∀ k ∈ is, reg k ≠ reg j := by
          intro k hk hsame
          exact hmem (hdistinct k (List.mem_cons_of_mem _ hk) j List.mem_cons_self hsame ▸ hk)
        rw [hkept _ hlast]
        exact Function.update_self _ _ _
    · intro r hr
      rw [hkept r fun j hj => hr j (List.mem_cons_of_mem _ hj)]
      exact Function.update_of_ne (Ne.symm (hr i List.mem_cons_self)) _ _

end Runs

end VijosOS.Library
