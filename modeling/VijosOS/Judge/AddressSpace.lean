import Mathlib.Data.Set.Basic
import VijosOS.Judge.UserMap

/-!
# Regions of the user address space

`load_elf` admits a segment anywhere below `USER_TOP`, where `do_judge` places its own regions
at fixed distances from the top and at `HEAP_VA`, and `map_page` reuses a page that is mapped.
The regions are disjoint exactly when every segment avoids the heap and stays below the stack.
-/

namespace VijosOS

open Library

/-- The virtual pages of a region. -/
def Region.pages (image : Nat → Byte) (stdinLen : Nat) (r : Region) : Set Nat :=
  {p | r.Has image stdinLen (p * 4096)}

/-- No two regions have a page in common. -/
def RegionsDisjoint (image : Nat → Byte) (stdinLen : Nat) : Prop :=
  ∀ r s : Region, r ≠ s → ∀ p ∈ r.pages image stdinLen, p ∉ s.pages image stdinLen

/-- Every segment that occupies memory lies below the stack and on one side of the heap. -/
def LoadsClear (image : Nat → Byte) (stdinLen : Nat) : Prop :=
  ∀ i, IsLoad image (elfHeader image).ePhnum i → (elfPhdr image i).pMemsz ≠ 0 →
    (elfPhdr image i).pVaddr + (elfPhdr image i).pMemsz ≤ stackLimit stdinLen ∧
      ((elfPhdr image i).pVaddr + (elfPhdr image i).pMemsz ≤ heapVa ∨
        heapVa + heapSize ≤ (elfPhdr image i).pVaddr)

theorem Region.has_page {image : Nat → Byte} {stdinLen x : Nat} (r : Region) :
    r.Has image stdinLen x ↔ x / 4096 ∈ r.pages image stdinLen := by
  have hpage : ∀ va len, Touches va len x ↔ Touches va len (x / 4096 * 4096) := by
    intro va len
    unfold Touches
    omega
  cases r with
  | segments =>
    simp only [Region.pages, Region.Has, Set.mem_ofPred_eq]
    constructor
    · rintro ⟨i, hi, hx⟩
      exact ⟨i, hi, (hpage _ _).mp hx⟩
    · rintro ⟨i, hi, hx⟩
      exact ⟨i, hi, (hpage _ _).mpr hx⟩
  | heap => exact hpage _ _
  | stack => exact hpage _ _
  | stdout => exact hpage _ _
  | stdin => exact hpage _ _
  | header => exact hpage _ _

/-! ## When the regions are disjoint -/

section Layout

variable {image : Nat → Byte} {stdinLen : Nat}

/-- The region an address belongs to when the segments are clear of the others. -/
def regionAt (stdinLen x : Nat) : Region :=
  if heapVa ≤ x ∧ x < heapVa + heapSize then .heap
  else if x < stackLimit stdinLen then .segments
  else if x < stdoutVa stdinLen then .stack
  else if x < stdinVa stdinLen then .stdout
  else if x < elfHeaderVa then .stdin
  else .header

theorem LoadsClear.regionAt_eq (hlen : stdinLen ≤ judgeTftpBuffSize) (h : LoadsClear image stdinLen)
    {r : Region} {x : Nat} (hx : x % 4096 = 0) (hp : r.Has image stdinLen x) : regionAt stdinLen x = r := by
  obtain ⟨hstdin, hstdout, hstack⟩ := ranges_eq hlen
  have hheader : elfHeaderVa = 0x3FFFFFF000 := by decide
  unfold judgeTftpBuffSize at hlen
  unfold regionAt heapVa heapSize
  rw [hstack, hstdout, hstdin, hheader]
  cases r with
  | segments =>
    obtain ⟨i, hi, hpos, hlow, hhigh⟩ := hp
    obtain ⟨hbelow, hheap⟩ := h i hi (by omega)
    rw [hstack] at hbelow
    unfold heapVa heapSize at hheap
    rw [if_neg (by omega), if_pos (by omega)]
  | heap =>
    obtain ⟨_, hlow, hhigh⟩ := hp
    unfold heapVa at hlow
    unfold heapVa heapSize at hhigh
    rw [if_pos (by omega)]
  | stack =>
    obtain ⟨_, hlow, hhigh⟩ := hp
    rw [hstack] at hlow hhigh
    unfold stackSize at hhigh
    rw [if_neg (by omega), if_neg (by omega), if_pos (by omega)]
  | stdout =>
    obtain ⟨_, hlow, hhigh⟩ := hp
    rw [hstdout] at hlow hhigh
    unfold stdoutLimit at hhigh
    rw [if_neg (by omega), if_neg (by omega), if_neg (by omega), if_pos (by omega)]
  | stdin =>
    obtain ⟨_, hlow, hhigh⟩ := hp
    rw [hstdin] at hlow hhigh
    rw [if_neg (by omega), if_neg (by omega), if_neg (by omega), if_neg (by omega), if_pos (by omega)]
  | header =>
    obtain ⟨_, hlow, hhigh⟩ := hp
    rw [hheader] at hlow hhigh
    simp only [pgSize] at hhigh
    rw [if_neg (by omega), if_neg (by omega), if_neg (by omega), if_neg (by omega), if_neg (by omega)]

/-- An address of a segment that lies in no other region. -/
theorem not_has_of_disjoint
    (h : RegionsDisjoint image stdinLen) {i x : Nat} (hi : IsLoad image (elfHeader image).ePhnum i)
    (hx : InSegment image i x) {r : Region} (hr : r ≠ .segments) : ¬ r.Has image stdinLen x := by
  intro hin
  have hseg : Region.segments.Has image stdinLen x := ⟨i, hi, hx.touches⟩
  exact h r .segments hr _ ((Region.has_page r).mp hin) ((Region.has_page _).mp hseg)

theorem regions_disjoint_iff (hlen : stdinLen ≤ judgeTftpBuffSize)
    (hok : ∀ i, IsLoad image (elfHeader image).ePhnum i → SegmentOk (elfPhdr image i)) :
    RegionsDisjoint image stdinLen ↔ LoadsClear image stdinLen := by
  constructor
  · intro h i hi hpos
    obtain ⟨hstdin, hstdout, hstack⟩ := ranges_eq hlen
    have hheader : elfHeaderVa = 0x3FFFFFF000 := by decide
    unfold judgeTftpBuffSize at hlen
    have hhigh := (hok i hi).high
    unfold userTop at hhigh
    constructor
    · -- the last byte of the segment is in one of the regions at the top
      by_contra hover
      have hin : InSegment image i ((elfPhdr image i).pVaddr + (elfPhdr image i).pMemsz - 1) := by
        unfold InSegment
        omega
      have hfree := fun r hr => not_has_of_disjoint (r := r) h hi hin hr
      generalize hy : (elfPhdr image i).pVaddr + (elfPhdr image i).pMemsz - 1 = y at hin hfree
      rw [hstack] at hover
      have h₁ := hfree .stack (by decide)
      have h₂ := hfree .stdout (by decide)
      have h₃ := hfree .stdin (by decide)
      have h₄ := hfree .header (by decide)
      simp only [Region.Has, hstack, hstdout, hstdin, hheader] at h₁ h₂ h₃ h₄
      unfold Touches stackSize at h₁
      unfold Touches stdoutLimit at h₂
      unfold Touches at h₃ h₄
      simp only [pgSize] at h₄
      omega
    · by_contra hover
      have hin : InSegment image i (max (elfPhdr image i).pVaddr heapVa) := by
        unfold InSegment
        omega
      apply not_has_of_disjoint (r := .heap) h hi hin (by decide)
      unfold Region.Has Touches
      unfold heapVa heapSize at *
      omega
  · intro h r s hne p hr hs
    have haligned : p * 4096 % 4096 = 0 := Nat.mul_mod_left _ _
    exact hne ((h.regionAt_eq hlen haligned hr).symm.trans (h.regionAt_eq hlen haligned hs))

end Layout

/-! ## The layout of a started program -/

/-- The regions are disjoint sets of pages, and the segments are as `load_elf` left them. -/
structure LayoutOk (image : Nat → Byte) (stdinLen root : Nat) (loaded k : Kernel) : Prop where
  disjoint : RegionsDisjoint image stdinLen
  kept : ∀ i x, IsLoad image (elfHeader image).ePhnum i → InSegment image i x →
    userView k.mem root x = userView loaded.mem root x

/-- The pages `do_judge` maps are those of its regions, and the regions are disjoint, with the
loaded segments intact, exactly when every segment is clear of the heap and below the stack. -/
theorem doJudge_layout_iff {mm : Mm} {bssEnd : Nat} (hmm : mm.Reachable bssEnd) {mem : Mem}
    {req : JudgeReq} {elf input : List Byte} {zerosLast : BitVec 64} {buff : Nat → Byte}
    {u : UserEntry} {k : Kernel} (hlen : input.length ≤ judgeTftpBuffSize)
    (hrun : doJudge req (.file elf) (.file input) zerosLast buff ⟨mm, mem, []⟩ = (.ok u, k)) :
    ∃ root, u.pt = some root ∧
      (∀ x < 2 ^ 39, userView k.mem root x ≠ none ↔
        ∃ r : Region, x / 4096 ∈ r.pages (writeBytes buff 0 elf) input.length) ∧
      (LayoutOk (writeBytes buff 0 elf) input.length root (loadElf (some root) (writeBytes buff 0 elf)
          elf.length (createPt ⟨mm, mem, []⟩).2).kernel k ↔
        LoadsClear (writeBytes buff 0 elf) input.length) := by
  obtain ⟨root, hbuilt⟩ := doJudge_built hmm hlen hrun
  have hok := fun i hi => loadSegments_checked (loadElf_loaded hbuilt.loaded) i (Nat.zero_le i)
    (by rw [Nat.zero_add]; exact hi)
  refine ⟨root, hbuilt.pt, ?_, ?_⟩
  · intro x hx
    have hpte : userView k.mem root x ≠ none ↔ userPte k.mem root x ≠ none := by
      rw [userPte, Ne, Ne, Option.map_eq_none_iff]
    rw [hpte, hbuilt.map.mapped x hx]
    exact exists_congr fun r => r.has_page
  · rw [← regions_disjoint_iff hlen hok]
    refine ⟨fun h => h.disjoint, fun h => ⟨h, fun i x hi hx => ?_⟩⟩
    exact hbuilt.kept x (hx.lt (hok i hi)) fun r hr => not_has_of_disjoint h hi hx hr

/-- The theorem at the small image and an empty input. -/
theorem doJudge_layout_iff_small : ∃ mm u k root,
    doJudge ⟨1, 1000, 0⟩ (.file (bytesAt smallElf 0 120)) (.file []) 0 (fun _ => 0)
      ⟨mm, fun _ => 0, []⟩ = (.ok u, k) ∧ u.pt = some root ∧
    (LayoutOk (writeBytes (fun _ => 0) 0 (bytesAt smallElf 0 120)) 0 root
        (loadElf (some root) (writeBytes (fun _ => 0) 0 (bytesAt smallElf 0 120)) 120
          (createPt ⟨mm, fun _ => 0, []⟩).2).kernel k ↔
      LoadsClear (writeBytes (fun _ => 0) 0 (bytesAt smallElf 0 120)) 0) := by
  obtain ⟨mm, hmm, _, u, k, hrun⟩ := boot_reaches (bytesAt smallElf 0 120) (by decide +kernel)
  obtain ⟨root, hpt, _, hlayout⟩ := doJudge_layout_iff hmm (show [].length ≤ judgeTftpBuffSize by decide) hrun
  rw [bytesAt_length] at hlayout
  exact ⟨mm, u, k, root, hrun, hpt, hlayout⟩

/-- An image with a segment at `HEAP_VA`. -/
def heapElf : Nat → Byte
  | 0 => 0x7f | 1 => 0x45 | 2 => 0x4c | 3 => 0x46
  | 16 => 2 | 32 => 64 | 54 => 56 | 56 => 1
  | 64 => 1 | 68 => 6 | 83 => 0x10 | 96 => 4 | 104 => 8
  | _ => 0

/-- A segment at `HEAP_VA` shares its page with the heap. -/
theorem doJudge_layout_not_always :
    ¬ ∀ (mm : Mm) (bssEnd : Nat), mm.Reachable bssEnd → ∀ (mem : Mem) (req : JudgeReq)
      (elf input : List Byte) (zerosLast : BitVec 64) (buff : Nat → Byte) (u : UserEntry) (k : Kernel),
      input.length ≤ judgeTftpBuffSize →
      doJudge req (.file elf) (.file input) zerosLast buff ⟨mm, mem, []⟩ = (.ok u, k) →
      RegionsDisjoint (writeBytes buff 0 elf) input.length := by
  intro h
  obtain ⟨mm, hmm, _, u, k, hrun⟩ := boot_reaches (bytesAt heapElf 0 120) (by decide +kernel)
  have hdisj := h mm _ hmm _ _ _ [] _ _ u k (by decide) hrun
  have hload : IsLoad (writeBytes (fun _ => 0) 0 (bytesAt heapElf 0 120))
      (elfHeader (writeBytes (fun _ => 0) 0 (bytesAt heapElf 0 120))).ePhnum 0 :=
    ⟨by decide +kernel, by decide +kernel⟩
  have hvaddr : (elfPhdr (writeBytes (fun _ => 0) 0 (bytesAt heapElf 0 120)) 0).pVaddr = heapVa := by
    decide +kernel
  have hmemsz : (elfPhdr (writeBytes (fun _ => 0) 0 (bytesAt heapElf 0 120)) 0).pMemsz = 8 := by
    decide +kernel
  have hin : InSegment (writeBytes (fun _ => 0) 0 (bytesAt heapElf 0 120)) 0 heapVa := by
    rw [InSegment, hvaddr, hmemsz]
    decide
  exact not_has_of_disjoint (r := .heap) hdisj hload hin (by decide)
    (by decide : Touches heapVa heapSize heapVa)

end VijosOS
