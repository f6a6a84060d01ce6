import VijosOS.Library.ByteMemory
import VijosOS.Library.PathTree
import VijosOS.Memory.AllocatorRuns
import VijosOS.Memory.Mmu

/-!
# Page tables

`vm.c` over physical memory. `KERNEL_BASE` is 0, so physical and kernel virtual
addresses coincide and a pointer is its address; a null pointer is `none`.
-/

namespace VijosOS

open Library

/-- The allocator and physical memory. `handed` is history: the pages
`get_free_page` has returned, oldest first. -/
structure Kernel where
  mm : Mm
  mem : Mem
  handed : List Nat

def Kernel.getFreePage (k : Kernel) : Nat × Kernel :=
  let got := VijosOS.getFreePage k.mm
  (got.1, { k with mm := got.2, handed := if got.1 = 0 then k.handed else k.handed ++ [got.1] })

def zeroPage (m : Mem) (pg : Nat) : Mem := copyTo m pg pgSize fun _ => 0

theorem zeroPage_add (m : Mem) (pg : Nat) {o : Nat} (ho : o < 4096) : zeroPage m pg (pg + o) = 0 :=
  copyTo_add _ _ _ _ ho

theorem zeroPage_outside (m : Mem) (pg : Nat) {x : Nat} (hx : ¬ (pg ≤ x ∧ x < pg + 4096)) :
    zeroPage m pg x = m x := copyTo_outside _ _ _ _ hx

-- `kernel_pt` is never assigned.
def kernelPt : Option Nat := none

def createPt (k : Kernel) : Option Nat × Kernel :=
  let got := k.getFreePage
  let pg := got.1
  let k := got.2
  if pg = 0 then (none, k)
  else
    match kernelPt with
    | some pt => (some pg, { k with mem := copyTo k.mem pg pgSize fun i => k.mem (pt + i) })
    | none => (some pg, { k with mem := zeroPage k.mem pg })

def pteAt (k : Kernel) (pt idx : Nat) : BitVec 64 := load64 k.mem (pt + 8 * idx)

def getPtLevel (level pt idx : Nat) (k : Kernel) : Option Nat × Kernel :=
  if ¬ pteValid (pteAt k pt idx) then
    let got := k.getFreePage
    let newPt := got.1
    let k := got.2
    if newPt = 0 then (none, k)
    else (some newPt, { k with
      mem := store64 (zeroPage k.mem newPt) (pt + 8 * idx) (makePte level newPt 0) })
  else (some (ptePpn (pteAt k pt idx)), k)

/-- The address of the leaf entry of `va`, with the tables above it created. -/
def getPte (pt : Option Nat) (va : Nat) (k : Kernel) : Option Nat × Kernel :=
  match pt with
  | none => (none, k)
  | some pt =>
    match getPtLevel 2 pt (ptIdx 2 va) k with
    | (none, k) => (none, k)
    | (some pt, k) =>
      match getPtLevel 1 pt (ptIdx 1 va) k with
      | (none, k) => (none, k)
      | (some pt, k) => (some (pt + 8 * ptIdx 0 va), k)

def mapPage (pt : Option Nat) (va : Nat) (flags : BitVec 64) (k : Kernel) : Option Nat × Kernel :=
  match getPte pt va k with
  | (none, k) => (none, k)
  | (some pte, k) =>
    if ¬ pteValid (load64 k.mem pte) then
      let got := k.getFreePage
      let newPage := got.1
      let k := got.2
      if newPage = 0 then (none, k)
      else (some newPage, { k with
        mem := store64 (zeroPage k.mem newPage) pte (makePte 0 newPage flags) })
    else (some (ptePpn (load64 k.mem pte)), k)

/-- One page of a copy: map it, then `memcpy` `n` bytes to offset `off`. -/
def mapAndWrite (pt : Option Nat) (va : Nat) (flags : BitVec 64) (off : Nat) (src : Nat → Byte)
    (n : Nat) (k : Kernel) : Bool × Kernel :=
  match mapPage pt va flags k with
  | (none, k) => (false, k)
  | (some pg, k) => (true, { k with mem := copyTo k.mem (pg + off) n src })

/-- The iterations of `for (va = lo; va < hi; va += PGSIZE)`. -/
def pageCount (lo hi : Nat) : Nat := (hi - lo + (pgSize - 1)) / pgSize

/-- The length of the unaligned head of a copy. -/
def headChunk (va len : Nat) : Nat :=
  if va ≠ pgAlignFloor va then
    let chunk := pgSize - (va - pgAlignFloor va)
    if len < chunk then len else chunk
  else 0

-- Phase 1 of `map_and_copy`.
def copyHead (pt : Option Nat) (va : Nat) (flags : BitVec 64) (src : Nat → Byte) (len : Nat)
    (k : Kernel) : Bool × Kernel :=
  if va ≠ pgAlignFloor va then
    mapAndWrite pt (pgAlignFloor va) flags (va - pgAlignFloor va) src (headChunk va len) k
  else (true, k)

-- Phase 2: `n` whole pages from `va`.
def copyPagesFrom (pt : Option Nat) (flags : BitVec 64) :
    Nat → Nat → (Nat → Byte) → Kernel → Bool × Kernel
  | _, 0, _, k => (true, k)
  | va, n + 1, src, k =>
    match mapAndWrite pt va flags 0 src pgSize k with
    | (false, k) => (false, k)
    | (true, k) => copyPagesFrom pt flags (va + pgSize) n (fun i => src (pgSize + i)) k

-- Phase 3.
def copyTail (pt : Option Nat) (va : Nat) (flags : BitVec 64) (src : Nat → Byte) (len : Nat)
    (k : Kernel) : Bool × Kernel :=
  if len > 0 then mapAndWrite pt va flags 0 src len k else (true, k)

def mapAndCopy (pt : Option Nat) (va : Nat) (flags : BitVec 64) (src : Nat → Byte) (len : Nat)
    (k : Kernel) : Int × Kernel :=
  if len = 0 then (0, k)
  else
    match copyHead pt va flags src len k with
    | (false, k) => (-eOOM, k)
    | (true, k) =>
      let u8 := headChunk va len
      let midBegin := pgAlign va
      let midEnd := pgAlignFloor (wrap64 (va + len))
      let n := pageCount midBegin midEnd
      match copyPagesFrom pt flags midBegin n (fun i => src (u8 + i)) k with
      | (false, k) => (-eOOM, k)
      | (true, k) =>
        let u8 := u8 + n * pgSize
        match copyTail pt midEnd flags (fun i => src (u8 + i)) (len - u8) k with
        | (false, k) => (-eOOM, k)
        | (true, k) => (0, k)

def mapPagesFrom (pt : Option Nat) (flags : BitVec 64) : Nat → Nat → Kernel → Bool × Kernel
  | _, 0, k => (true, k)
  | va, n + 1, k =>
    match mapPage pt va flags k with
    | (none, k) => (false, k)
    | (some _, k) => mapPagesFrom pt flags (va + pgSize) n k

/-- The loops of the callers that map every page of `[lo, hi)` or give up. -/
def mapRange (pt : Option Nat) (flags : BitVec 64) (lo hi : Nat) (k : Kernel) : Bool × Kernel :=
  mapPagesFrom pt flags lo (pageCount lo hi) k

/-! ## The tree of tables -/

/-- The page an entry of the table at `n` leads to. -/
def tableSucc (m : Mem) (n i : Nat) : Option Nat :=
  if i < 512 ∧ pteValid (load64 m (n + 8 * i)) then some (ptePpn (load64 m (n + 8 * i))) else none

theorem tableSucc_of_valid {m : Mem} {n i : Nat} (hi : i < 512)
    (h : pteValid (load64 m (n + 8 * i))) :
    tableSucc m n i = some (ptePpn (load64 m (n + 8 * i))) := if_pos ⟨hi, h⟩

theorem tableSucc_of_invalid {m : Mem} {n i : Nat} (h : ¬ pteValid (load64 m (n + 8 * i))) :
    tableSucc m n i = none := if_neg fun hv => h hv.2

/-- A table's children depend on its own page only. -/
theorem tableSucc_congr {m m' : Mem} {n : Nat} (h : ∀ o < 4096, m' (n + o) = m (n + o)) :
    tableSucc m' n = tableSucc m n := by
  funext i
  unfold tableSucc
  by_cases hi : i < 512
  · have hload : load64 m' (n + 8 * i) = load64 m (n + 8 * i) := by
      apply load64_congr
      intro j hj
      rw [Nat.add_assoc]
      exact h _ (by omega)
    rw [hload]
  · rw [if_neg (fun hv => hi hv.1), if_neg (fun hv => hi hv.1)]

theorem tableSucc_zero {m : Mem} {n : Nat} (h : ∀ o < 4096, m (n + o) = 0) (i : Nat) :
    tableSucc m n i = none := by
  by_cases hi : i < 512
  · apply tableSucc_of_invalid
    rw [load64_zero (fun j hj => by rw [Nat.add_assoc]; exact h _ (by omega))]
    exact not_pteValid_zero
  · exact if_neg fun hv => hi hv.1

theorem tableSucc_store_ne {m : Mem} {n i j : Nat} (v : BitVec 64) (hij : j ≠ i) :
    tableSucc (store64 m (n + 8 * i) v) n j = tableSucc m n j := by
  unfold tableSucc
  rw [load64_store64_disjoint _ _ _ _ (by omega)]

theorem tableSucc_store_self {m : Mem} {n i : Nat} {v : BitVec 64} (hi : i < 512)
    (hv : pteValid v) : tableSucc (store64 m (n + 8 * i) v) n i = some (ptePpn v) := by
  have h := tableSucc_of_valid (m := store64 m (n + 8 * i) v) hi (by rw [load64_store64]; exact hv)
  rwa [load64_store64] at h

end VijosOS
