import VijosOS.Memory.VmCopy

/-!
# Enough free pages

Mapping one page takes at most three free pages, two tables and the page itself. An
operation that finds that many for every page it maps does not fail.
-/

namespace VijosOS

open Library

/-- The pages left to hand out. -/
def Kernel.free (k : Kernel) : Nat := k.mm.mmbm.size - k.mm.mmbm.used

section Free

variable {k k' : Kernel} {bssEnd : Nat} {ts : List Table} {t : Table} (flags : BitVec 64)

theorem Kernel.getFreePage_free (h : k.Inv bssEnd) (hfree : 0 < k.free) :
    ∃ a, k.Fresh a ∧ k.getFreePage = (a, k.hand a) ∧ k.free = (k.hand a).free + 1 := by
  rcases Kernel.getFreePage_cases h with hfull | ⟨a, ha, hget⟩
  · -- a clear bit contradicts a full bitmap
    exfalso
    have hzero : (VijosOS.getFreePage k.mm).1 = 0 := congrArg Prod.fst hfull
    have hall := (getFreePage_eq_zero h.mm).mp hzero
    have hused := h.mm.counted.used_eq
    rw [(countBits_eq_iff _ _).mpr hall] at hused
    unfold Kernel.free at hfree
    omega
  · refine ⟨a, ha, hget, ?_⟩
    show k.mm.mmbm.size - k.mm.mmbm.used = k.mm.mmbm.size - (k.mm.mmbm.used + 1) + 1
    unfold Kernel.free at hfree
    omega

theorem getPtLevel_free (h : VmInv k bssEnd ts) (hfree : 0 < k.free) (level pt idx : Nat) :
    ∃ c k', getPtLevel level pt idx k = (some c, k') ∧ k.free ≤ k'.free + 1 := by
  unfold getPtLevel
  by_cases hvalid : pteValid (pteAt k pt idx)
  · rw [if_neg (not_not_intro hvalid)]
    exact ⟨_, _, rfl, Nat.le_succ _⟩
  · obtain ⟨a, ha, hget, hleft⟩ := Kernel.getFreePage_free h.kernel hfree
    simp only [if_pos hvalid, hget, if_neg (ha.ne_zero h.kernel)]
    exact ⟨a, _, rfl, Nat.le_of_eq hleft⟩

theorem getPte_free (h : VmInv k bssEnd ts) (ht : t ∈ ts) (hfree : 2 ≤ k.free) (va : Nat) :
    ∃ e k', getPte (some t.root) va k = (some e, k') ∧ k.free ≤ k'.free + 2 := by
  obtain ⟨c, k₂, htwo, hleft₂⟩ := getPtLevel_free h (by omega) 2 t.root (ptIdx 2 va)
  have top : Slot k ts t [] t.root (ptIdx 2 va) := ⟨ht, by simp, rfl, ptIdx_lt 2 va⟩
  obtain ⟨h₂, _, _⟩ := getPtLevel_spec h top (by simp) htwo
  obtain ⟨n, k₁, hone, hleft₁⟩ := getPtLevel_free h₂ (by omega) 1 c (ptIdx 1 va)
  simp only [getPte, htwo, hone]
  exact ⟨_, k₁, rfl, by omega⟩

theorem mapPage_free (h : VmInv k bssEnd ts) (ht : t ∈ ts) (hfree : 3 ≤ k.free) (va : Nat) :
    ∃ a k', mapPage (some t.root) va flags k = (some a, k') ∧ k.free ≤ k'.free + 3 := by
  obtain ⟨e, k₁, hwalk, hleft₁⟩ := getPte_free h ht (by omega) va
  obtain ⟨h₁, _, _⟩ := getPte_spec h ht hwalk
  simp only [mapPage, hwalk]
  by_cases hvalid : pteValid (load64 k₁.mem e)
  · rw [if_neg (not_not_intro hvalid)]
    exact ⟨_, k₁, rfl, by omega⟩
  · obtain ⟨a, ha, hget, hleft⟩ := Kernel.getFreePage_free h₁.kernel (by omega)
    simp only [if_pos hvalid, hget, if_neg (ha.ne_zero h₁.kernel)]
    refine ⟨a, _, rfl, ?_⟩
    show k.free ≤ (k₁.hand a).free + 3
    omega

theorem mapAndWrite_free (h : VmInv k bssEnd ts) (ht : t ∈ ts) (hfree : 3 ≤ k.free) (va off : Nat)
    (src : Nat → Byte) (n : Nat) : ∃ k', mapAndWrite (some t.root) va flags off src n k = (true, k') ∧
      k.free ≤ k'.free + 3 := by
  obtain ⟨a, k', hmap, hleft⟩ := mapPage_free flags h ht hfree va
  simp only [mapAndWrite, hmap]
  exact ⟨_, rfl, hleft⟩

theorem mapPagesFrom_free (h : VmInv k bssEnd ts) (ht : t ∈ ts) (va : Nat) {n : Nat}
    (hfree : 3 * n ≤ k.free) :
    ∃ k', mapPagesFrom (some t.root) flags va n k = (true, k') ∧ k.free ≤ k'.free + 3 * n := by
  induction n generalizing k va with
  | zero => exact ⟨k, rfl, Nat.le_refl _⟩
  | succ n ih =>
    obtain ⟨a, k₁, hmap, hleft⟩ := mapPage_free flags h ht (by omega) va
    obtain ⟨h₁, _, _⟩ := mapPage_spec h ht hmap
    obtain ⟨k', hrest, hleft'⟩ := ih h₁ (va + pgSize) (by omega)
    simp only [mapPagesFrom, hmap, hrest]
    exact ⟨k', rfl, by omega⟩

theorem copyPagesFrom_free (h : VmInv k bssEnd ts) (ht : t ∈ ts) (va : Nat) {n : Nat}
    (src : Nat → Byte) (hfree : 3 * n ≤ k.free) : ∃ k', copyPagesFrom (some t.root) flags va n src k = (true, k') ∧
      k.free ≤ k'.free + 3 * n := by
  induction n generalizing k va src with
  | zero => exact ⟨k, rfl, Nat.le_refl _⟩
  | succ n ih =>
    obtain ⟨k₁, hpage, hleft⟩ := mapAndWrite_free flags h ht (by omega) va 0 src pgSize
    obtain ⟨h₁, _, _⟩ := mapAndWrite_spec h ht (by decide) hpage
    obtain ⟨k', hrest, hleft'⟩ := ih h₁ (va + pgSize) (fun i => src (pgSize + i)) (by omega)
    simp only [copyPagesFrom, hpage, hrest]
    exact ⟨k', rfl, by omega⟩

/-- A copy maps one page more than it fills, and one for an unaligned start. -/
theorem mapAndCopy_free (h : VmInv k bssEnd ts) (ht : t ∈ ts) {va len : Nat} (src : Nat → Byte)
    (htop : va + len ≤ 2 ^ 39) (hfree : 3 * (len / 4096 + 2) ≤ k.free) :
    ∃ k', mapAndCopy (some t.root) va flags src len k = (0, k') ∧
      k.free ≤ k'.free + 3 * (len / 4096 + 2) := by
  by_cases hlen : len = 0
  · rw [mapAndCopy, if_pos hlen]
    exact ⟨k, rfl, Nat.le_add_right _ _⟩
  obtain ⟨hbegin, hend, hcount, hreach⟩ := copy_middle htop
  rw [hbegin, hend] at hcount
  rw [mapAndCopy, if_neg hlen]
  simp only [hbegin, hend, hcount]
  generalize hn : (va + len) / 4096 - (va + 4095) / 4096 = n
  have hhead : ∃ k₁, copyHead (some t.root) va flags src len k = (true, k₁) ∧ VmInv k₁ bssEnd ts ∧
      k.free ≤ k₁.free + 3 := by
    unfold copyHead
    by_cases hva : va ≠ pgAlignFloor va
    · rw [if_pos hva]
      obtain ⟨k₁, hpage, hleft⟩ := mapAndWrite_free flags h ht (by omega) (pgAlignFloor va)
        (va - pgAlignFloor va) src (headChunk va len)
      obtain ⟨h₁, _, _⟩ := mapAndWrite_spec h ht (headChunk_fits len (by omega)) hpage
      exact ⟨k₁, hpage, h₁, hleft⟩
    · rw [if_neg hva]
      exact ⟨k, rfl, h, Nat.le_add_right _ _⟩
  obtain ⟨k₁, hhead, h₁, hleft₁⟩ := hhead
  obtain ⟨k₂, hmid, hleft₂⟩ := copyPagesFrom_free flags h₁ ht ((va + 4095) / 4096 * 4096)
    (n := n) (fun i => src (headChunk va len + i)) (by omega)
  obtain ⟨h₂, _, _⟩ := copyPagesFrom_spec h₁ ht (by omega) (by omega) hmid
  have htail : ∃ k₃, copyTail (some t.root) ((va + len) / 4096 * 4096) flags
      (fun i => src (headChunk va len + n * pgSize + i)) (len - (headChunk va len + n * pgSize)) k₂ =
        (true, k₃) ∧ k₂.free ≤ k₃.free + 3 := by
    unfold copyTail
    by_cases hrest : len - (headChunk va len + n * pgSize) > 0
    · rw [if_pos hrest]
      exact mapAndWrite_free flags h₂ ht (by omega) _ _ _ _
    · rw [if_neg hrest]
      exact ⟨k₂, rfl, Nat.le_add_right _ _⟩
  obtain ⟨k₃, htail, hleft₃⟩ := htail
  simp only [hhead, hmid, htail]
  exact ⟨k₃, rfl, by omega⟩

end Free

end VijosOS
