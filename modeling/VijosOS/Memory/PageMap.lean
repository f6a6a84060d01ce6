import Mathlib.Logic.Function.Basic
import VijosOS.Memory.Isolation
import VijosOS.Memory.TableFormat

/-!
# Page tables as finite maps

A page table is a map from the virtual pages of the 39-bit space to a physical page, the
flags of its entry and its bytes. `map_page` inserts one zero page or leaves the map alone;
`map_and_copy` overwrites one range of bytes and binds the pages it lacks.
-/

namespace VijosOS

open Library

/-- What a virtual page is bound to. -/
structure Binding where
  page : Nat
  flags : BitVec 64
  bytes : Fin 4096 → Byte

/-- The bits of an entry below its page number. -/
def pteFlagMask : BitVec 64 := 0x3ff

def bindingOf (m : Mem) (e : BitVec 64) : Binding where
  page := ptePpn e
  flags := e &&& pteFlagMask
  bytes := fun o => m (ptePpn e + o)

/-- The map a table represents, by virtual page number. -/
def pageMap (m : Mem) (root vp : Nat) : Option Binding :=
  if vp < 2 ^ 27 then (userPte m root (vp * 4096)).map (bindingOf m) else none

theorem userView_page {m : Mem} {root vp : Nat} {o : Nat} (ho : o < 4096) :
    userView m root (vp * 4096 + o) =
      (userPte m root (vp * 4096)).map fun e => (e, m (ptePpn e + o)) := by
  obtain ⟨h2, h1, h0⟩ := (ptIdx_page (vp * 4096 + o) (vp * 4096)).mpr (by omega)
  have hmod : (vp * 4096 + o) % 4096 = o := by omega
  unfold userPte userView
  rw [h2, h1, h0, hmod]
  cases follow (tableSucc m) root [ptIdx 2 (vp * 4096), ptIdx 1 (vp * 4096)] with
  | none => rfl
  | some n =>
    simp only [Option.bind_some]
    split
    · rfl
    · rfl

/-- A map only shows what the views of its addresses show. -/
theorem pageMap_congr {m m' : Mem} {r vp : Nat}
    (h : ∀ x, x / 4096 = vp → userView m' r x = userView m r x) :
    pageMap m' r vp = pageMap m r vp := by
  have hview : ∀ o < 4096, userView m' r (vp * 4096 + o) = userView m r (vp * 4096 + o) :=
    fun o ho => h _ (by omega)
  have hpte : userPte m' r (vp * 4096) = userPte m r (vp * 4096) :=
    congrArg (Option.map Prod.fst) (h (vp * 4096) (by omega))
  unfold pageMap
  rw [hpte]
  split_ifs
  · cases he : userPte m r (vp * 4096) with
    | none => rfl
    | some e =>
      have hbytes : ∀ o < 4096, m' (ptePpn e + o) = m (ptePpn e + o) := by
        intro o ho
        have heq := hview o ho
        rw [userView_page ho, userView_page ho, hpte, he] at heq
        exact (Prod.mk.inj (Option.some.inj heq)).2
      simp only [Option.map_some, bindingOf]
      congr 2
      funext o
      exact hbytes o o.isLt
  · rfl

theorem pageMap_eq_none {m : Mem} {r x : Nat} (hx : x < 2 ^ 39) :
    pageMap m r (x / 4096) = none ↔ userView m r x = none := by
  have hsplit : x = x / 4096 * 4096 + x % 4096 := by omega
  rw [pageMap, if_pos (show x / 4096 < 2 ^ 27 by omega), Option.map_eq_none_iff]
  conv_rhs => rw [hsplit, userView_page (Nat.mod_lt _ (by decide)), Option.map_eq_none_iff]

/-- A table is a page reached, so a bound page is the end of its path. -/
theorem pageMap_follow {m : Mem} {r x : Nat} {b : Binding} (hx : x < 2 ^ 39)
    (hb : pageMap m r (x / 4096) = some b) :
    follow (tableSucc m) r [ptIdx 2 x, ptIdx 1 x, ptIdx 0 x] = some b.page := by
  obtain ⟨h2, h1, h0⟩ := (ptIdx_page x (x / 4096 * 4096)).mpr (by omega)
  rw [pageMap, if_pos (show x / 4096 < 2 ^ 27 by omega), Option.map_eq_some_iff] at hb
  obtain ⟨e, he, rfl⟩ := hb
  obtain ⟨n, hn, rfl, hvalid⟩ := userPte_eq_some.mp he
  rw [h2, h1, h0]
  exact follow_of_leaf hn hvalid

/-- A page all of whose addresses show one entry and a zero byte. -/
theorem pageMap_zero {m : Mem} {r vp : Nat} {e : BitVec 64} (hvp : vp < 2 ^ 27)
    (h : ∀ x, x / 4096 = vp → userView m r x = some (e, 0)) :
    pageMap m r vp = some ⟨ptePpn e, e &&& pteFlagMask, fun _ => 0⟩ := by
  have hpte : userPte m r (vp * 4096) = some e :=
    congrArg (Option.map Prod.fst) (h (vp * 4096) (by omega))
  rw [pageMap, if_pos hvp, hpte, Option.map_some, bindingOf]
  congr 2
  funext o
  have hbyte := h (vp * 4096 + o) (by omega)
  rw [userView_page o.isLt, hpte] at hbyte
  exact (Prod.mk.inj (Option.some.inj hbyte)).2

/-! ## Mapping a page -/

/-- The entry of a new page holds the requested flags and the valid bit. -/
theorem makePte_flags (a : Nat) (flags : BitVec 64) :
    makePte 0 a flags &&& pteFlagMask = pteFlags flags ||| pteV := by
  rw [makePte_and 0 a flags (by decide), newFlags, if_pos rfl]
  unfold pteFlags
  split_ifs <;> decide

/-- A call of `map_page` against the maps before and after. -/
structure MapsPage (ts : List Table) (root vp : Nat) (flags : BitVec 64) (k k' : Kernel)
    (pg : Option Nat) : Prop where
  bound : ∀ b, pageMap k.mem root vp = some b → pg = some b.page ∧ k' = k
  added : ∀ a, pageMap k.mem root vp = none → pg = some a →
    a % 4096 = 0 ∧ a ∉ k.handed ∧ ¬ Reached (tableSucc k.mem) (Roots ts) 3 a ∧
      pageMap k'.mem root = Function.update (pageMap k.mem root) vp
        (some ⟨a, pteFlags flags ||| pteV, fun _ => 0⟩)
  null : pg = none → pageMap k'.mem root = pageMap k.mem root
  frame : ∀ r p, Roots ts r → ¬ (r = root ∧ p = vp) → pageMap k'.mem r p = pageMap k.mem r p

section MapPage

variable {k k' : Kernel} {bssEnd : Nat} {ts : List Table} {t : Table} {va : Nat} {flags : BitVec 64}

/-- The history of the allocator only grows. -/
theorem VmStep.handed (hstep : VmStep ts k k') : k.handed <+: k'.handed := by
  cases hstep with
  | table _ _ _ _ _ => exact List.prefix_append _ _
  | page _ _ _ _ => exact List.prefix_append _ _
  | write _ _ _ _ => exact List.prefix_rfl
  | flags _ _ _ _ => exact List.prefix_rfl

theorem VmSteps.handed (hsteps : VmSteps ts k k') : k.handed <+: k'.handed := by
  induction hsteps with
  | refl => exact List.prefix_rfl
  | tail _ hstep ih => exact ih.trans hstep.handed

/-- The page bound to an unmapped address was never handed out before. -/
theorem mapPage_fresh (h : VmInv k bssEnd ts) (ht : t ∈ ts) {a : Nat}
    (hnone : userView k.mem t.root va = none)
    (hrun : mapPage (some t.root) va flags k = (some a, k')) : a % 4096 = 0 ∧ a ∉ k.handed := by
  rcases hwalk : getPte (some t.root) va k with ⟨pte, k₁⟩
  obtain ⟨h₁, hview, hslot⟩ := getPte_spec h ht hwalk
  have hpre := VmSteps.handed (getPte_steps h ht hwalk)
  cases pte with
  | none => simp [mapPage, hwalk] at hrun
  | some e =>
    obtain ⟨n, s, rfl⟩ := hslot e rfl
    have hinvalid : ¬ pteValid (load64 k₁.mem (n + 8 * ptIdx 0 va)) := by
      intro hvalid
      have hsome := userView_eq_some.mpr ⟨n, s.node, rfl, hvalid, rfl⟩
      rw [hview _ _ ⟨t, ht, rfl⟩, hnone] at hsome
      cases hsome
    simp only [mapPage, hwalk, if_pos hinvalid] at hrun
    rcases Kernel.getFreePage_cases h₁.kernel with hfull | ⟨b, hb, hget⟩
    · simp [hfull] at hrun
    · simp only [hget, if_neg (hb.ne_zero h₁.kernel), Prod.mk.injEq, Option.some.injEq] at hrun
      obtain ⟨rfl, _⟩ := hrun
      exact ⟨hb.aligned, fun hmem => hb.not_handed h₁.kernel (hpre.subset hmem)⟩

theorem mapPage_mapsPage (h : VmInv k bssEnd ts) (ht : t ∈ ts) (hva : va < 2 ^ 39) {pg : Option Nat}
    (hrun : mapPage (some t.root) va flags k = (pg, k')) :
    MapsPage ts t.root (va / 4096) flags k k' pg := by
  obtain ⟨_, hnull, hsome⟩ := mapPage_spec h ht hrun
  have hroot : Roots ts t.root := ⟨t, ht, rfl⟩
  have hframe : ∀ r p, Roots ts r → ¬ (r = t.root ∧ p = va / 4096) →
      pageMap k'.mem r p = pageMap k.mem r p := by
    intro r p hr hne
    by_cases hp : p < 2 ^ 27
    · apply pageMap_congr
      intro x hx
      have hother : ¬ (r = t.root ∧ SamePage x va) := by
        rintro ⟨rfl, hpage⟩
        unfold SamePage at hpage
        exact hne ⟨rfl, by omega⟩
      cases pg with
      | none => exact hnull rfl r x hr
      | some a =>
        obtain ⟨_, hview⟩ := hsome a rfl
        rw [hview r x hr, mappedView, if_neg hother]
    · rw [pageMap, pageMap, if_neg hp, if_neg hp]
  refine ⟨?_, ?_, ?_, hframe⟩
  · intro b hb
    have hmapped : userView k.mem t.root va ≠ none := by
      intro hnone
      rw [(pageMap_eq_none hva).mpr hnone] at hb
      cases hb
    obtain ⟨a, hsame, ha⟩ := mapPage_mapped flags hmapped
    rw [hsame, Prod.mk.injEq] at hrun
    obtain ⟨rfl, rfl⟩ := hrun
    rw [pageMap_follow hva hb, Option.some.injEq] at ha
    exact ⟨congrArg some ha.symm, rfl⟩
  · rintro a hnone rfl
    have hunmapped := (pageMap_eq_none hva).mp hnone
    obtain ⟨haligned, hfresh⟩ := mapPage_fresh h ht hunmapped hrun
    refine ⟨haligned, hfresh, ?_, ?_⟩
    · rintro ⟨r, p, hr, hp, hra⟩
      exact hfresh (h.handed hr hp hra)
    · obtain ⟨hleaf, hview⟩ := hsome a rfl
      funext p
      by_cases hp : p = va / 4096
      · subst hp
        have hzero : ∀ x, x / 4096 = va / 4096 →
            userView k'.mem t.root x = some (makePte 0 a flags, 0) := by
          intro x hx
          have hpage : SamePage x va := by
            unfold SamePage
            omega
          have hold : userView k.mem t.root x = none := by
            rw [← pageMap_eq_none (by omega), hx, hnone]
          rw [hview _ x hroot, mappedView, if_pos ⟨rfl, hpage⟩, hold, Option.getD_none]
        have hppn : ptePpn (makePte 0 a flags) = a := by
          have hbound := pageMap_follow hva (pageMap_zero (by omega) hzero)
          rw [hleaf] at hbound
          exact (Option.some.inj hbound).symm
        rw [Function.update_self, pageMap_zero (by omega) hzero, hppn, makePte_flags]
      · rw [Function.update_of_ne hp]
        exact hframe _ _ hroot fun hh => hp hh.2
  · rintro rfl
    funext p
    exact pageMap_congr fun x _ => hnull rfl _ x hroot

end MapPage

/-- A reachable page table is a finite map and `map_page` inserts into it. -/
theorem vmRuns_mapPage {bssEnd start n : Nat} (h : BootLayout bssEnd start n) (mm₀ : Mm) (mem : Mem)
    (task : UserTask) (endTime : BitVec 64) :
    ∃ mm, bootMm bssEnd start n mm₀ = some mm ∧ ∀ ops s,
      runSteps VmRun.step (bootedRun mm mem task endTime) ops = some s →
        ∀ t ∈ s.tables, ∀ va < 2 ^ 39, ∀ flags,
          MapsPage s.tables t.root (va / 4096) flags s.state.kernel
            (mapPage (some t.root) va flags s.state.kernel).2
            (mapPage (some t.root) va flags s.state.kernel).1 := by
  obtain ⟨mm, hboot, _, hinit⟩ := bootMm_inv h mm₀
  refine ⟨mm, hboot, ?_⟩
  intro ops s hrun t ht va hva flags
  have hinv := runSteps_invariant (P := fun s => VmInv s.state.kernel bssEnd s.tables)
    VmRun.step_inv (VmInv.start hinit.mm mem) hrun
  exact mapPage_mapsPage hinv ht hva rfl

/-- The theorem at a second page of a table. -/
theorem vmRuns_mapPage_small :
    ∃ mm s, bootMm 0x40800 0x40000 64 smallMm = some mm ∧
      runSteps VmRun.step (bootedRun mm (fun _ => 0) ⟨0, 0, 0, 0⟩ 0)
        [.createPt, .mapPage (some 0x41000) 0x10000 vmU] = some s ∧
      MapsPage s.tables 0x41000 0x11 vmR s.state.kernel
        (mapPage (some 0x41000) 0x11000 vmR s.state.kernel).2
        (mapPage (some 0x41000) 0x11000 vmR s.state.kernel).1 := by
  obtain ⟨mm, hboot, hall⟩ := vmRuns_mapPage smallLayout smallMm (fun _ => 0) ⟨0, 0, 0, 0⟩ 0
  obtain ⟨s, hs, t, ht, hroot⟩ := smallRun hboot
  have hpage := hall _ s hs t ht 0x11000 (by decide) vmR
  rw [hroot] at hpage
  exact ⟨mm, s, hboot, hs, hpage⟩

/-! ## Copying a range -/

/-- A call of `map_and_copy` against user memory before and after. -/
structure CopiesRange (ts : List Table) (root va len : Nat) (src : Nat → Byte) (k k' : Kernel)
    (ret : Int) : Prop where
  result : ret = 0 ∨ ret = -eOOM
  copied : ret = 0 → ∀ i < len, userByte k'.mem root (va + i) = some (src i)
  frame : ∀ r x, Roots ts r → x < 2 ^ 39 → ¬ (r = root ∧ va ≤ x ∧ x < va + len) →
    userView k.mem r x ≠ none → userView k'.mem r x = userView k.mem r x
  newPages : ret = 0 → ∀ r x, Roots ts r → x < 2 ^ 39 → userView k.mem r x = none →
    (userView k'.mem r x ≠ none ↔ r = root ∧ ∃ y, y / 4096 = x / 4096 ∧ va ≤ y ∧ y < va + len)
  newZero : ret = 0 → ∀ x < 2 ^ 39, userView k.mem root x = none → userView k'.mem root x ≠ none →
    ¬ (va ≤ x ∧ x < va + len) → userByte k'.mem root x = some 0

/-- A page meets a range when it holds an address of the range. -/
theorem touches_iff (va len x : Nat) :
    Touches va len x ↔ ∃ y, y / 4096 = x / 4096 ∧ va ≤ y ∧ y < va + len := by
  constructor
  · rintro ⟨hpos, hfirst, hlast⟩
    refine ⟨max va (x / 4096 * 4096), ?_, ?_, ?_⟩ <;> omega
  · rintro ⟨y, hpage, hlow, hhigh⟩
    unfold Touches
    omega

section Copy

variable {k k' : Kernel} {bssEnd : Nat} {ts : List Table} {t : Table} {va len : Nat} {flags : BitVec 64}

theorem mapAndCopy_copiesRange (h : VmInv k bssEnd ts) (ht : t ∈ ts) (htop : va + len ≤ 2 ^ 39)
    {src : Nat → Byte} {ret : Int}
    (hrun : mapAndCopy (some t.root) va flags src len k = (ret, k')) :
    CopiesRange ts t.root va len src k k' ret := by
  obtain ⟨_, n, hn, ⟨pages, hcopy⟩, hret⟩ := mapAndCopy_spec h ht htop hrun
  have hroot : Roots ts t.root := ⟨t, ht, rfl⟩
  have hall : ret = 0 → n = len := by
    intro hzero
    rcases hret with ⟨_, hlen⟩ | hoom
    · exact hlen
    · rw [hzero] at hoom
      exact absurd hoom (by decide)
  refine ⟨?_, ?_, ?_, ?_, ?_⟩
  · rcases hret with ⟨hzero, _⟩ | hoom
    · exact Or.inl hzero
    · exact Or.inr hoom
  · intro hzero i hi
    obtain rfl := hall hzero
    have htouch : Touches va n (va + i) := (touches_iff _ _ _).mpr ⟨va + i, rfl, by omega, by omega⟩
    have hin : va ≤ va + i ∧ va + i < va + n := by omega
    rw [userByte, hcopy _ _ hroot (by omega), if_pos rfl, copiedAt, if_pos htouch]
    simp only [if_pos hin, Nat.add_sub_cancel_left, Option.map_some, Option.getD_some]
  · intro r x hr hx hout hmapped
    rw [hcopy r x hr hx]
    by_cases hrt : r = t.root
    · have hin : ¬ (va ≤ x ∧ x < va + n) := fun hh => hout ⟨hrt, by omega⟩
      obtain ⟨v, hv⟩ := Option.ne_none_iff_exists'.mp hmapped
      rw [if_pos hrt, copiedAt, hv]
      simp only [if_neg hin, Option.getD_some, ite_self]
    · rw [if_neg hrt]
  · intro hzero r x hr hx hnone
    obtain rfl := hall hzero
    rw [hcopy r x hr hx, hnone, ← touches_iff]
    by_cases hrt : r = t.root
    · rw [if_pos hrt, copiedAt]
      by_cases htouch : Touches va n x
      · simp [htouch, hrt]
      · simp [htouch]
    · simp [hrt]
  · intro hzero x hx hnone hnew hout
    obtain rfl := hall hzero
    rw [hcopy _ x hroot hx, if_pos rfl, copiedAt, hnone] at hnew
    have htouch : Touches va n x := by
      by_contra hno
      exact hnew (if_neg hno)
    rw [userByte, hcopy _ x hroot hx, if_pos rfl, copiedAt, if_pos htouch, hnone]
    simp only [if_neg hout, Option.getD_none, Option.map_some]

end Copy

/-- In every reachable state, `map_and_copy` writes exactly the range. -/
theorem vmRuns_mapAndCopy {bssEnd start n : Nat} (h : BootLayout bssEnd start n) (mm₀ : Mm) (mem : Mem)
    (task : UserTask) (endTime : BitVec 64) :
    ∃ mm, bootMm bssEnd start n mm₀ = some mm ∧ ∀ ops s,
      runSteps VmRun.step (bootedRun mm mem task endTime) ops = some s →
        ∀ t ∈ s.tables, ∀ va len, userBottom ≤ va → va + len ≤ userTop → ∀ flags src,
          CopiesRange s.tables t.root va len src s.state.kernel
            (mapAndCopy (some t.root) va flags src len s.state.kernel).2
            (mapAndCopy (some t.root) va flags src len s.state.kernel).1 := by
  obtain ⟨mm, hboot, _, hinit⟩ := bootMm_inv h mm₀
  refine ⟨mm, hboot, ?_⟩
  intro ops s hrun t ht va len _ htop flags src
  have hinv := runSteps_invariant (P := fun s => VmInv s.state.kernel bssEnd s.tables)
    VmRun.step_inv (VmInv.start hinit.mm mem) hrun
  exact mapAndCopy_copiesRange hinv ht (Nat.le_trans htop (by decide)) rfl

/-- The theorem at a range across a page boundary. -/
theorem vmRuns_mapAndCopy_small :
    ∃ mm s, bootMm 0x40800 0x40000 64 smallMm = some mm ∧
      runSteps VmRun.step (bootedRun mm (fun _ => 0) ⟨0, 0, 0, 0⟩ 0)
        [.createPt, .mapPage (some 0x41000) 0x10000 vmU] = some s ∧
      CopiesRange s.tables 0x41000 0x10ffe 4 (fun i => BitVec.ofNat 8 i) s.state.kernel
        (mapAndCopy (some 0x41000) 0x10ffe vmR (fun i => BitVec.ofNat 8 i) 4 s.state.kernel).2
        (mapAndCopy (some 0x41000) 0x10ffe vmR (fun i => BitVec.ofNat 8 i) 4 s.state.kernel).1 := by
  obtain ⟨mm, hboot, hall⟩ := vmRuns_mapAndCopy smallLayout smallMm (fun _ => 0) ⟨0, 0, 0, 0⟩ 0
  obtain ⟨s, hs, t, ht, hroot⟩ := smallRun hboot
  have hcopy := hall _ s hs t ht 0x10ffe 4 (by decide) (by decide) vmR (fun i => BitVec.ofNat 8 i)
  rw [hroot] at hcopy
  exact ⟨mm, s, hboot, hs, hcopy⟩

end VijosOS
