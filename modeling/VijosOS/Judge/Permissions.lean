import VijosOS.Judge.ElfLoading

/-!
# Segment permissions

`map_page` takes the requested flags only for a page it maps anew, so a page that several
segments share keeps those of the first one in the header table.
-/

namespace VijosOS

open Library

/-! ## Flags of an entry -/

/-- A leaf entry is valid, user-accessible, and grants what `p_flags` asks for. -/
structure Grants (e : BitVec 64) (pFlags : Nat) : Prop where
  valid : pteValid e
  user : e &&& pteU ≠ 0
  read : pFlags &&& pfR ≠ 0 → e &&& pteR ≠ 0
  write : pFlags &&& pfW ≠ 0 → e &&& pteW ≠ 0
  exec : pFlags &&& pfX ≠ 0 → e &&& pteX ≠ 0

/-- `p_flags` has no permission that `pFlags'` lacks. -/
structure FlagsLe (pFlags pFlags' : Nat) : Prop where
  read : pFlags &&& pfR ≠ 0 → pFlags' &&& pfR ≠ 0
  write : pFlags &&& pfW ≠ 0 → pFlags' &&& pfW ≠ 0
  exec : pFlags &&& pfX ≠ 0 → pFlags' &&& pfX ≠ 0

/-- The entry flags of a segment with the given permissions. -/
def permissionFlags (r w x : Bool) : BitVec 64 :=
  let flags := vmU ||| vmA
  let flags := if r then flags ||| vmR else flags
  let flags := if w then flags ||| (vmW ||| vmD) else flags
  newFlags 0 (if x then flags ||| vmX else flags)

theorem newFlags_segmentFlags (pFlags : Nat) : newFlags 0 (segmentFlags pFlags) =
    permissionFlags (decide (pFlags &&& pfR ≠ 0)) (decide (pFlags &&& pfW ≠ 0))
      (decide (pFlags &&& pfX ≠ 0)) := by
  unfold segmentFlags permissionFlags
  simp only [decide_eq_true_eq]

theorem permissionFlags_and : ∀ r w x : Bool,
    permissionFlags r w x &&& pteU ≠ 0 ∧ (permissionFlags r w x &&& pteR ≠ 0 ↔ r = true) ∧
      (permissionFlags r w x &&& pteW ≠ 0 ↔ w = true) ∧
      (permissionFlags r w x &&& pteX ≠ 0 ↔ x = true) := by
  decide

/-- A flag bit of an entry mapped for a segment is one of the segment's permissions. -/
theorem makePte_segmentFlags (a pFlags : Nat) {bit : BitVec 64} (hlow : bit >>> 10 = 0) :
    makePte 0 a (segmentFlags pFlags) &&& bit =
      permissionFlags (decide (pFlags &&& pfR ≠ 0)) (decide (pFlags &&& pfW ≠ 0))
        (decide (pFlags &&& pfX ≠ 0)) &&& bit := by
  rw [makePte_and _ _ _ hlow, newFlags_segmentFlags]

/-- A page mapped for a segment grants exactly what the segment's header asks for. -/
theorem grants_makePte (a pFlags pFlags' : Nat) :
    Grants (makePte 0 a (segmentFlags pFlags')) pFlags ↔ FlagsLe pFlags pFlags' := by
  obtain ⟨huser, hread, hwrite, hexec⟩ := permissionFlags_and (decide (pFlags' &&& pfR ≠ 0))
    (decide (pFlags' &&& pfW ≠ 0)) (decide (pFlags' &&& pfX ≠ 0))
  rw [decide_eq_true_iff] at hread hwrite hexec
  constructor
  · intro h
    refine ⟨fun hr => hread.mp ?_, fun hw => hwrite.mp ?_, fun hx => hexec.mp ?_⟩
    · rw [← makePte_segmentFlags a _ (by decide)]
      exact h.read hr
    · rw [← makePte_segmentFlags a _ (by decide)]
      exact h.write hw
    · rw [← makePte_segmentFlags a _ (by decide)]
      exact h.exec hx
  · intro h
    refine ⟨makePte_valid _ _ _, ?_, fun hr => ?_, fun hw => ?_, fun hx => ?_⟩
    · rw [makePte_segmentFlags a _ (by decide)]
      exact huser
    · rw [makePte_segmentFlags a _ (by decide)]
      exact hread.mpr (h.read hr)
    · rw [makePte_segmentFlags a _ (by decide)]
      exact hwrite.mpr (h.write hw)
    · rw [makePte_segmentFlags a _ (by decide)]
      exact hexec.mpr (h.exec hx)

/-! ## Binding pages -/

/-- The pages of `page` are bound, with `flags` where they were not bound before. -/
structure Bound (root : Nat) (page : Nat → Prop) (flags : BitVec 64) (k k' : Kernel) : Prop where
  inside : ∀ x < 2 ^ 39, page x → ∃ a,
    userPte k'.mem root x = some ((userPte k.mem root x).getD (makePte 0 a flags))
  outside : ∀ x < 2 ^ 39, ¬ page x → userPte k'.mem root x = userPte k.mem root x

section Bound

variable {k k' k'' : Kernel} {bssEnd : Nat} {ts : List Table} {t : Table} {flags : BitVec 64}

theorem Copied.bound {va len : Nat} {src : Nat → Option Byte}
    (h : Copied ts t.root va flags src len k k') (ht : t ∈ ts) :
    Bound t.root (Touches va len) flags k k' := by
  obtain ⟨pages, hcopy⟩ := h
  constructor
  · intro x hx hpage
    refine ⟨pages (x / 4096), ?_⟩
    rw [userPte, hcopy t.root x ⟨t, ht, rfl⟩ hx, if_pos rfl, copiedAt, if_pos hpage, userPte]
    cases userView k.mem t.root x <;> rfl
  · intro x hx hpage
    rw [userPte, hcopy t.root x ⟨t, ht, rfl⟩ hx, if_pos rfl, copiedAt, if_neg hpage, userPte]

theorem Bound.trans {root : Nat} {page page' page'' : Nat → Prop} (h : Bound root page flags k k')
    (h' : Bound root page' flags k' k'') (hpage : ∀ x, page'' x ↔ page x ∨ page' x) :
    Bound root page'' flags k k'' := by
  constructor
  · intro x hx hin
    by_cases hnew : page' x
    · obtain ⟨b, hb⟩ := h'.inside x hx hnew
      by_cases hold : page x
      · obtain ⟨a, ha⟩ := h.inside x hx hold
        rw [ha, Option.getD_some] at hb
        exact ⟨a, hb⟩
      · rw [h.outside x hx hold] at hb
        exact ⟨b, hb⟩
    · obtain ⟨a, ha⟩ := h.inside x hx (((hpage x).mp hin).resolve_right hnew)
      exact ⟨a, (h'.outside x hx hnew).trans ha⟩
  · intro x hx hout
    rw [h'.outside x hx fun hnew => hout ((hpage x).mpr (Or.inr hnew)),
      h.outside x hx fun hold => hout ((hpage x).mpr (Or.inl hold))]

theorem loadSegment_bound (h : VmInv k bssEnd ts) (ht : t ∈ ts) {elf : Nat → Byte} {len i : Nat}
    (hload : (elfPhdr elf i).pType = ptLoad)
    (hrun : loadSegment (some t.root) elf len (elfPhdr elf i) k = (0, k')) :
    Bound t.root (Touches (elfPhdr elf i).pVaddr (elfPhdr elf i).pMemsz)
      (segmentFlags (elfPhdr elf i).pFlags) k k' := by
  obtain ⟨hok, hrun⟩ := loadSegment_checked hload hrun
  obtain ⟨_, k₁, n, lo, m, hcopy, hdone⟩ := mapSegment_spec h ht hok hrun
  refine (hcopy.file.bound ht).trans (hcopy.bss.bound ht) fun x => ?_
  exact ⟨(hdone rfl).pages x, hcopy.inside x⟩

end Bound

/-! ## The first segment of a page -/

/-- Segment `j` is the first in the header table on the page of `x`. -/
structure FirstOn (elf : Nat → Byte) (n x j : Nat) : Prop where
  load : IsLoad elf n j
  on : Touches (elfPhdr elf j).pVaddr (elfPhdr elf j).pMemsz x
  first : ∀ i < j, IsLoad elf n i → ¬ Touches (elfPhdr elf i).pVaddr (elfPhdr elf i).pMemsz x

theorem FirstOn.unique {elf : Nat → Byte} {n x i j : Nat} (h : FirstOn elf n x i) (h' : FirstOn elf n x j) :
    i = j := by
  rcases Nat.lt_trichotomy i j with hlt | heq | hlt
  · exact absurd h.on (h'.first i hlt h.load)
  · exact heq
  · exact absurd h'.on (h.first j hlt h'.load)

/-- After `n` headers every bound page has the flags of its first segment. -/
structure FlagsUpTo (elf : Nat → Byte) (n root : Nat) (m : Mem) : Prop where
  bound : ∀ x < 2 ^ 39, ∀ j, FirstOn elf n x j →
    ∃ a, userPte m root x = some (makePte 0 a (segmentFlags (elfPhdr elf j).pFlags))
  free : ∀ x < 2 ^ 39, (∀ i, IsLoad elf n i →
    ¬ Touches (elfPhdr elf i).pVaddr (elfPhdr elf i).pMemsz x) → userPte m root x = none

theorem exists_firstOn {elf : Nat → Byte} {n x i : Nat} (hi : IsLoad elf n i)
    (hon : Touches (elfPhdr elf i).pVaddr (elfPhdr elf i).pMemsz x) : ∃ j, FirstOn elf n x j := by
  induction i using Nat.strongRecOn with
  | ind i ih =>
    by_cases hearlier : ∃ j < i, IsLoad elf n j ∧ Touches (elfPhdr elf j).pVaddr (elfPhdr elf j).pMemsz x
    · obtain ⟨j, hlt, hj, hjon⟩ := hearlier
      exact ih j hlt hj hjon
    · exact ⟨i, hi, hon, fun j hlt hj hjon => hearlier ⟨j, hlt, hj, hjon⟩⟩

theorem FlagsUpTo.next {elf : Nat → Byte} {n root : Nat} {k k' : Kernel}
    (h : FlagsUpTo elf n root k.mem) (hload : (elfPhdr elf n).pType = ptLoad)
    (hbound : Bound root (Touches (elfPhdr elf n).pVaddr (elfPhdr elf n).pMemsz)
      (segmentFlags (elfPhdr elf n).pFlags) k k') : FlagsUpTo elf (n + 1) root k'.mem := by
  constructor
  · intro x hx j hj
    have hfree : ∀ i, IsLoad elf n i → i < j →
        ¬ Touches (elfPhdr elf i).pVaddr (elfPhdr elf i).pMemsz x :=
      fun i hi hlt => hj.first i hlt (hi.mono (Nat.le_succ n))
    rcases hj.load.succ with hold | rfl
    · -- an earlier segment was there first
      obtain ⟨a, ha⟩ := h.bound x hx j ⟨hold, hj.on, fun i hlt hi => hfree i hi hlt⟩
      refine ⟨a, ?_⟩
      by_cases hon : Touches (elfPhdr elf n).pVaddr (elfPhdr elf n).pMemsz x
      · obtain ⟨b, hb⟩ := hbound.inside x hx hon
        rw [hb, ha, Option.getD_some]
      · rw [hbound.outside x hx hon, ha]
    · obtain ⟨a, ha⟩ := hbound.inside x hx hj.on
      refine ⟨a, ?_⟩
      rw [ha, h.free x hx fun i hi => hfree i hi hi.1, Option.getD_none]
  · intro x hx hnone
    rw [hbound.outside x hx (hnone n ⟨Nat.lt_succ_self n, hload⟩)]
    exact h.free x hx fun i hi => hnone i (hi.mono (Nat.le_succ n))

theorem FlagsUpTo.skip {elf : Nat → Byte} {n root : Nat} {m : Mem} (h : FlagsUpTo elf n root m)
    (hload : (elfPhdr elf n).pType ≠ ptLoad) : FlagsUpTo elf (n + 1) root m := by
  constructor
  · intro x hx j hj
    rcases hj.load.succ with hold | rfl
    · exact h.bound x hx j ⟨hold, hj.on, fun i hlt hi => hj.first i hlt (hi.mono (Nat.le_succ n))⟩
    · exact absurd hj.load.2 hload
  · intro x hx hnone
    exact h.free x hx fun i hi => hnone i (hi.mono (Nat.le_succ n))

theorem loadSegments_flags {bssEnd : Nat} {ts : List Table} {t : Table} (ht : t ∈ ts)
    {elf : Nat → Byte} {len i n : Nat} {k k' : Kernel} (h : VmInv k bssEnd ts)
    (hinv : FlagsUpTo elf i t.root k.mem)
    (hrun : loadSegments (some t.root) elf len i n k = (0, k')) :
    FlagsUpTo elf (i + n) t.root k'.mem := by
  induction n generalizing i k with
  | zero =>
    obtain rfl := (Prod.mk.inj hrun).2
    exact hinv
  | succ n ih =>
    rcases hseg : loadSegment (some t.root) elf len (elfPhdr elf i) k with ⟨ret, k₁⟩
    simp only [loadSegments, hseg] at hrun
    by_cases hret : ret = 0
    · subst hret
      rw [if_neg (by decide)] at hrun
      have hnext : i + (n + 1) = i + 1 + n := by omega
      rw [hnext]
      by_cases hload : (elfPhdr elf i).pType = ptLoad
      · obtain ⟨h₁, _, _⟩ := loadSegment_spec h ht hload hseg
        exact ih h₁ (hinv.next hload (loadSegment_bound h ht hload hseg)) hrun
      · rw [loadSegment, if_pos hload] at hseg
        obtain rfl := (Prod.mk.inj hseg).2
        exact ih h (hinv.skip hload) hrun
    · rw [if_pos hret] at hrun
      exact absurd (Prod.mk.inj hrun).1 hret

/-- On an empty table every page of a loaded image has the flags of its first segment. -/
theorem loadElf_flagsUpTo {k : Kernel} {bssEnd : Nat} {ts : List Table} {t : Table} {elf : Nat → Byte}
    {len : Nat} (h : VmInv k bssEnd ts) (ht : t ∈ ts) (hempty : ∀ x, userView k.mem t.root x = none)
    (hret : (loadElf (some t.root) elf len k).ret = 0) :
    FlagsUpTo elf (elfHeader elf).ePhnum t.root (loadElf (some t.root) elf len k).kernel.mem := by
  have hnothing : FlagsUpTo elf 0 t.root k.mem := by
    refine ⟨fun x _ j hj => absurd hj.load.1 (Nat.not_lt_zero j), fun x _ _ => ?_⟩
    rw [userPte, hempty x]
    rfl
  have hflags := loadSegments_flags ht h hnothing (loadElf_loaded hret)
  rw [Nat.zero_add] at hflags
  exact hflags

/-! ## The whole image -/

/-- The leaf entry for a virtual address in the table `create_pt` returned, which may be null. -/
def tablePte (pt : Option Nat) (m : Mem) (x : Nat) : Option (BitVec 64) :=
  pt.bind fun root => userPte m root x

theorem Touches.lt {elf : Nat → Byte} {i x : Nat}
    (h : Touches (elfPhdr elf i).pVaddr (elfPhdr elf i).pMemsz x) (hok : SegmentOk (elfPhdr elf i)) :
    x < 2 ^ 39 := by
  have hhigh := hok.high
  unfold Touches at h
  unfold userTop at hhigh
  omega

/-- Every page of a loaded image has the flags of its first segment. -/
theorem loadElf_flags {mm : Mm} {bssEnd : Nat} (hmm : mm.Reachable bssEnd) (mem : Mem)
    (elf : Nat → Byte) (len : Nat) {pt : Option Nat} {k : Kernel}
    (hcreate : createPt ⟨mm, mem, []⟩ = (pt, k)) (hret : (loadElf pt elf len k).ret = 0) {x j : Nat}
    (hfirst : FirstOn elf (elfHeader elf).ePhnum x j) :
    ∃ a, tablePte pt (loadElf pt elf len k).kernel.mem x =
      some (makePte 0 a (segmentFlags (elfPhdr elf j).pFlags)) := by
  have hrun := loadElf_loaded hret
  have hload : IsLoad elf (0 + (elfHeader elf).ePhnum) j := by
    rw [Nat.zero_add]
    exact hfirst.load
  rcases createPt_spec (VmInv.start hmm.inv mem) with hfull | ⟨a, k₁, hcreated, _, h₁, hempty⟩
  · -- no page for the root, so no segment has memory
    obtain ⟨rfl, rfl⟩ := Prod.mk.inj (hfull.symm.trans hcreate)
    obtain ⟨_, hmem⟩ := loadSegments_null hrun j (Nat.zero_le j) hload
    have hpos := hfirst.on.1
    omega
  · obtain ⟨rfl, rfl⟩ := Prod.mk.inj (hcreated.symm.trans hcreate)
    have ht : (⟨a, 0⟩ : Table) ∈ [(⟨a, 0⟩ : Table)] := List.mem_singleton.mpr rfl
    have hok := loadSegments_checked hrun j (Nat.zero_le j) hload
    exact (loadElf_flagsUpTo h₁ ht hempty hret).bound x (hfirst.on.lt hok) j hfirst

/-- Two segments on one page: a read-only one, then a writable one. -/
def sharedPageElf : Nat → Byte
  | 0 => 0x7f | 1 => 0x45 | 2 => 0x4c | 3 => 0x46
  | 16 => 2 | 32 => 64 | 54 => 56 | 56 => 2
  | 64 => 1 | 68 => 4 | 82 => 1 | 96 => 4 | 104 => 4
  | 120 => 1 | 124 => 6 | 136 => 8 | 138 => 1 | 152 => 4 | 160 => 4
  | _ => 0

theorem sharedPageElf_loads : ∃ mm bssEnd, mm.Reachable bssEnd ∧
    (loadElf (createPt ⟨mm, fun _ => 0, []⟩).1 sharedPageElf 176
      (createPt ⟨mm, fun _ => 0, []⟩).2).ret = 0 := by
  let mm₀ : Mm := ⟨0, ⟨0, 0, 0, fun _ => 0⟩, 0, ⟨0, 0, 0, fun _ => 0⟩⟩
  obtain ⟨mm, hboot, _, _⟩ := bootMm_inv smallLayout mm₀
  have hret : (bootMm 0x40800 0x40000 64 mm₀).map (fun mm =>
      (loadElf (createPt ⟨mm, fun _ => 0, []⟩).1 sharedPageElf 176
        (createPt ⟨mm, fun _ => 0, []⟩).2).ret) = some 0 := by
    decide +kernel
  rw [hboot, Option.map_some, Option.some.injEq] at hret
  exact ⟨mm, 0x40800, ⟨_, _, mm₀, mm, smallLayout, hboot, [], _, rfl, rfl⟩, hret⟩

theorem sharedPageElf_second : IsLoad sharedPageElf (elfHeader sharedPageElf).ePhnum 1 ∧
    (elfPhdr sharedPageElf 1).pFlags = 6 ∧ InSegment sharedPageElf 1 0x10008 := by
  have hphnum : (elfHeader sharedPageElf).ePhnum = 2 := by decide +kernel
  have hvaddr : (elfPhdr sharedPageElf 1).pVaddr = 0x10008 := by decide +kernel
  have hmemsz : (elfPhdr sharedPageElf 1).pMemsz = 4 := by decide +kernel
  refine ⟨⟨by rw [hphnum]; decide, by decide +kernel⟩, by decide +kernel, ?_⟩
  rw [InSegment, hvaddr, hmemsz]
  decide

theorem sharedPageElf_first : FirstOn sharedPageElf (elfHeader sharedPageElf).ePhnum 0x10008 0 := by
  have hphnum : (elfHeader sharedPageElf).ePhnum = 2 := by decide +kernel
  have hvaddr : (elfPhdr sharedPageElf 0).pVaddr = 0x10000 := by decide +kernel
  have hmemsz : (elfPhdr sharedPageElf 0).pMemsz = 4 := by decide +kernel
  refine ⟨⟨by rw [hphnum]; decide, by decide +kernel⟩, ?_, fun i hi => absurd hi (Nat.not_lt_zero i)⟩
  rw [hvaddr, hmemsz]
  decide

/-- The writable segment on the shared page is not writable. -/
theorem loadElf_permissions_not_always :
    ¬ ∀ (mm : Mm) (bssEnd : Nat), mm.Reachable bssEnd → ∀ (mem : Mem) (elf : Nat → Byte) (len : Nat)
      (pt : Option Nat) (k : Kernel), createPt ⟨mm, mem, []⟩ = (pt, k) → (loadElf pt elf len k).ret = 0 →
      ∀ i x, IsLoad elf (elfHeader elf).ePhnum i → (elfPhdr elf i).pFlags &&& pfR ≠ 0 →
        InSegment elf i x → ∃ e, tablePte pt (loadElf pt elf len k).kernel.mem x = some e ∧
          Grants e (elfPhdr elf i).pFlags := by
  intro h
  obtain ⟨mm, bssEnd, hmm, hret⟩ := sharedPageElf_loads
  obtain ⟨hload, hflags, hin⟩ := sharedPageElf_second
  have hfirst : (elfPhdr sharedPageElf 0).pFlags = 4 := by decide +kernel
  obtain ⟨a, ha⟩ := loadElf_flags hmm (fun _ => 0) sharedPageElf 176 rfl hret sharedPageElf_first
  obtain ⟨e, he, hgrants⟩ := h mm bssEnd hmm (fun _ => 0) sharedPageElf 176 _ _ rfl hret 1 0x10008
    hload (by rw [hflags]; decide) hin
  obtain rfl := Option.some.inj (ha.symm.trans he)
  have hle := (grants_makePte a _ _).mp hgrants
  rw [hflags, hfirst] at hle
  exact absurd (hle.write (by decide)) (by decide)

/-- Segments have the permissions they ask for exactly when on every page of a readable one
the first segment has them all. -/
theorem loadElf_permissions_iff {mm : Mm} {bssEnd : Nat} (hmm : mm.Reachable bssEnd) (mem : Mem)
    (elf : Nat → Byte) (len : Nat) {pt : Option Nat} {k : Kernel}
    (hcreate : createPt ⟨mm, mem, []⟩ = (pt, k)) (hret : (loadElf pt elf len k).ret = 0) :
    (∀ i x, IsLoad elf (elfHeader elf).ePhnum i → (elfPhdr elf i).pFlags &&& pfR ≠ 0 →
      InSegment elf i x → ∃ e, tablePte pt (loadElf pt elf len k).kernel.mem x = some e ∧
        Grants e (elfPhdr elf i).pFlags) ↔
    ∀ i x j, IsLoad elf (elfHeader elf).ePhnum i → (elfPhdr elf i).pFlags &&& pfR ≠ 0 →
      InSegment elf i x → FirstOn elf (elfHeader elf).ePhnum x j →
        FlagsLe (elfPhdr elf i).pFlags (elfPhdr elf j).pFlags := by
  constructor
  · intro h i x j hi hread hx hfirst
    obtain ⟨a, ha⟩ := loadElf_flags hmm mem elf len hcreate hret hfirst
    obtain ⟨e, he, hgrants⟩ := h i x hi hread hx
    obtain rfl := Option.some.inj (ha.symm.trans he)
    exact (grants_makePte a _ _).mp hgrants
  · intro h i x hi hread hx
    obtain ⟨j, hfirst⟩ := exists_firstOn hi hx.touches
    obtain ⟨a, ha⟩ := loadElf_flags hmm mem elf len hcreate hret hfirst
    exact ⟨_, ha, (grants_makePte a _ _).mpr (h i x j hi hread hx hfirst)⟩

theorem loadElf_permissions_iff_shared : ∃ pt m,
    (∀ i x, IsLoad sharedPageElf (elfHeader sharedPageElf).ePhnum i →
      (elfPhdr sharedPageElf i).pFlags &&& pfR ≠ 0 → InSegment sharedPageElf i x →
        ∃ e, tablePte pt m x = some e ∧ Grants e (elfPhdr sharedPageElf i).pFlags) ↔
    ∀ i x j, IsLoad sharedPageElf (elfHeader sharedPageElf).ePhnum i →
      (elfPhdr sharedPageElf i).pFlags &&& pfR ≠ 0 → InSegment sharedPageElf i x →
        FirstOn sharedPageElf (elfHeader sharedPageElf).ePhnum x j →
          FlagsLe (elfPhdr sharedPageElf i).pFlags (elfPhdr sharedPageElf j).pFlags := by
  obtain ⟨mm, bssEnd, hmm, hret⟩ := sharedPageElf_loads
  exact ⟨_, _, loadElf_permissions_iff hmm (fun _ => 0) sharedPageElf 176 rfl hret⟩

end VijosOS
