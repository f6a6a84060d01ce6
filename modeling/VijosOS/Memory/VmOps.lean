import VijosOS.Arch.TrapHandler
import VijosOS.Memory.VmView

/-!
# Specifications of the page-table functions

What each function of `vm.c`, and the page-fault branch of the trap handler, does
to the views of every created table. A failed allocation between two levels leaves
tables behind but shows nothing.
-/

namespace VijosOS

open Library

/-- Every created table maps what it mapped before. -/
def SameViews (ts : List Table) (k k' : Kernel) : Prop :=
  ∀ r x, Roots ts r → userView k'.mem r x = userView k.mem r x

theorem SameViews.refl (ts : List Table) (k : Kernel) : SameViews ts k k := fun _ _ _ => rfl

theorem SameViews.trans {ts : List Table} {k k' k'' : Kernel} (h : SameViews ts k k')
    (h' : SameViews ts k' k'') : SameViews ts k k'' :=
  fun r x hr => (h' r x hr).trans (h r x hr)

section Ops

variable {k k' : Kernel} {bssEnd : Nat} {ts : List Table} {t : Table}

theorem Kernel.Fresh.ptePpn_makePte {a : Nat} (ha : k.Fresh a) (h : k.Inv bssEnd) (level : Nat)
    (flags : BitVec 64) : ptePpn (makePte level a flags) = a := by
  have hbound := h.mm.counted.bound
  have hbelow := ha.below
  exact VijosOS.ptePpn_makePte level flags (by omega) ha.aligned

/-! ## Walking down -/

theorem getPtLevel_spec (h : VmInv k bssEnd ts) {p : List Nat} {n i : Nat} (s : Slot k ts t p n i)
    (hdepth : p.length < 2) {level : Nat} {pt : Option Nat}
    (hrun : getPtLevel level n i k = (pt, k')) :
    VmInv k' bssEnd ts ∧ SameViews ts k k' ∧
      ∀ c, pt = some c → follow (tableSucc k'.mem) t.root (p ++ [i]) = some c := by
  by_cases hvalid : pteValid (pteAt k n i)
  · rw [getPtLevel, if_neg (not_not_intro hvalid)] at hrun
    obtain ⟨rfl, rfl⟩ := Prod.mk.inj hrun
    refine ⟨h, SameViews.refl ts k, ?_⟩
    intro c hc
    obtain rfl := Option.some.inj hc
    rw [follow_snoc_eq_some]
    exact ⟨n, s.node, tableSucc_of_valid s.index hvalid⟩
  · rw [getPtLevel, if_pos hvalid] at hrun
    rcases Kernel.getFreePage_cases h.kernel with hfull | ⟨a, ha, hget⟩
    · simp only [hfull, if_true, Prod.mk.injEq] at hrun
      obtain ⟨rfl, rfl⟩ := hrun
      exact ⟨h, SameViews.refl ts k, nofun⟩
    · simp only [hget, if_neg (ha.ne_zero h.kernel), Prod.mk.injEq] at hrun
      obtain ⟨rfl, hk'⟩ := hrun
      replace hk' : k.link a (n + 8 * i) (makePte level a 0) = k' := hk'
      subst hk'
      have hpte := makePte_valid level a 0
      have hppn := ha.ptePpn_makePte h.kernel level 0
      refine ⟨h.link s ha hvalid hpte hppn, ?_, ?_⟩
      · intro r x hr
        exact link_table_view h s ha hvalid hpte hppn hdepth hr x
      · intro c hc
        obtain rfl := Option.some.inj hc
        have hlength : (p ++ [i]).length ≤ 3 := by
          rw [List.length_append, List.length_singleton]
          omega
        rw [h.follow_link s ha hvalid hpte hppn s.root hlength]
        exact Or.inr ⟨rfl, rfl, rfl⟩

/-- The walk leaves every view alone and, on success, ends at the entry of `va`. -/
theorem getPte_spec (h : VmInv k bssEnd ts) (ht : t ∈ ts) {va : Nat} {pte : Option Nat}
    (hrun : getPte (some t.root) va k = (pte, k')) :
    VmInv k' bssEnd ts ∧ SameViews ts k k' ∧ ∀ e, pte = some e →
      ∃ n, Slot k' ts t [ptIdx 2 va, ptIdx 1 va] n (ptIdx 0 va) ∧ e = n + 8 * ptIdx 0 va := by
  have top : Slot k ts t [] t.root (ptIdx 2 va) := ⟨ht, by simp, rfl, ptIdx_lt 2 va⟩
  rcases htwo : getPtLevel 2 t.root (ptIdx 2 va) k with ⟨pt₂, k₂⟩
  obtain ⟨h₂, hview₂, hnode₂⟩ := getPtLevel_spec h top (by simp) htwo
  cases pt₂ with
  | none =>
    simp only [getPte, htwo, Prod.mk.injEq] at hrun
    obtain ⟨rfl, rfl⟩ := hrun
    exact ⟨h₂, hview₂, nofun⟩
  | some c =>
    have middle : Slot k₂ ts t [ptIdx 2 va] c (ptIdx 1 va) :=
      ⟨ht, by simp, hnode₂ c rfl, ptIdx_lt 1 va⟩
    rcases hone : getPtLevel 1 c (ptIdx 1 va) k₂ with ⟨pt₁, k₁⟩
    obtain ⟨h₁, hview₁, hnode₁⟩ := getPtLevel_spec h₂ middle (by simp) hone
    cases pt₁ with
    | none =>
      simp only [getPte, htwo, hone, Prod.mk.injEq] at hrun
      obtain ⟨rfl, rfl⟩ := hrun
      exact ⟨h₁, hview₂.trans hview₁, nofun⟩
    | some n =>
      simp only [getPte, htwo, hone, Prod.mk.injEq] at hrun
      obtain ⟨rfl, rfl⟩ := hrun
      refine ⟨h₁, hview₂.trans hview₁, ?_⟩
      intro e he
      obtain rfl := Option.some.inj he
      exact ⟨n, ⟨ht, by simp, hnode₁ n rfl, ptIdx_lt 0 va⟩, rfl⟩

/-- The walk to a mapped page changes nothing. -/
theorem getPte_mapped {root va n : Nat} (hn : follow (tableSucc k.mem) root [ptIdx 2 va, ptIdx 1 va] = some n) :
    getPte (some root) va k = (some (n + 8 * ptIdx 0 va), k) := by
  have hlevel : ∀ {level c b i : Nat}, tableSucc k.mem c i = some b →
      getPtLevel level c i k = (some b, k) := by
    intro level c b i hb
    have hvalid : pteValid (load64 k.mem (c + 8 * i)) := by
      by_contra hinvalid
      rw [tableSucc_of_invalid hinvalid] at hb
      cases hb
    have hi : i < 512 := by
      by_contra hge
      rw [tableSucc, if_neg fun h => hge h.1] at hb
      cases hb
    rw [tableSucc_of_valid hi hvalid] at hb
    unfold getPtLevel pteAt
    rw [if_neg (not_not_intro hvalid)]
    exact Prod.ext hb rfl
  obtain ⟨c, hc, hn⟩ := (follow_snoc_eq_some (p := [ptIdx 2 va])).mp hn
  obtain ⟨_, hroot, hc⟩ := (follow_snoc_eq_some (p := [])).mp hc
  obtain rfl := Option.some.inj hroot
  simp only [getPte, hlevel hc, hlevel hn]

/-! ## Mapping a page -/

/-- A page that is mapped stays as it is, whatever the flags. -/
theorem mapPage_mapped {root va : Nat} (flags : BitVec 64) (hview : userView k.mem root va ≠ none) :
    ∃ a, mapPage (some root) va flags k = (some a, k) ∧
      follow (tableSucc k.mem) root [ptIdx 2 va, ptIdx 1 va, ptIdx 0 va] = some a := by
  obtain ⟨⟨e, b⟩, hsome⟩ := Option.ne_none_iff_exists'.mp hview
  obtain ⟨n, hn, rfl, hvalid, _⟩ := userView_eq_some.mp hsome
  refine ⟨_, ?_, follow_of_leaf hn hvalid⟩
  simp only [mapPage, getPte_mapped hn, if_neg (not_not_intro hvalid)]

/-- What `map_page` shows: the page of `va` is bound, to its old binding if it had one. -/
def mappedView (root va : Nat) (pte : BitVec 64) (k : Kernel) (r x : Nat) :
    Option (BitVec 64 × Byte) :=
  if r = root ∧ SamePage x va then some ((userView k.mem r x).getD (pte, 0))
  else userView k.mem r x

theorem mapPage_spec (h : VmInv k bssEnd ts) (ht : t ∈ ts) {va : Nat} {flags : BitVec 64}
    {pg : Option Nat} (hrun : mapPage (some t.root) va flags k = (pg, k')) :
    VmInv k' bssEnd ts ∧ (pg = none → SameViews ts k k') ∧ ∀ a, pg = some a →
      follow (tableSucc k'.mem) t.root [ptIdx 2 va, ptIdx 1 va, ptIdx 0 va] = some a ∧
      ∀ r x, Roots ts r → userView k'.mem r x = mappedView t.root va (makePte 0 a flags) k r x := by
  rcases hwalk : getPte (some t.root) va k with ⟨pte, k₁⟩
  obtain ⟨h₁, hview, hslot⟩ := getPte_spec h ht hwalk
  cases pte with
  | none =>
    simp only [mapPage, hwalk, Prod.mk.injEq] at hrun
    obtain ⟨rfl, rfl⟩ := hrun
    exact ⟨h₁, fun _ => hview, nofun⟩
  | some e =>
    obtain ⟨n, s, rfl⟩ := hslot e rfl
    simp only [mapPage, hwalk] at hrun
    by_cases hvalid : pteValid (load64 k₁.mem (n + 8 * ptIdx 0 va))
    · rw [if_neg (not_not_intro hvalid), Prod.mk.injEq] at hrun
      obtain ⟨rfl, rfl⟩ := hrun
      refine ⟨h₁, nofun, ?_⟩
      intro a ha
      obtain rfl := Option.some.inj ha
      refine ⟨follow_of_leaf s.node hvalid, ?_⟩
      intro r x hr
      rw [mappedView, ← hview r x hr]
      split_ifs with hx
      · -- the page of `va` was mapped already
        obtain ⟨rfl, hpage⟩ := hx
        obtain ⟨h2, h1, h0⟩ := (ptIdx_page x va).mpr hpage
        have hsome : (userView k₁.mem t.root x).isSome := by
          unfold userView
          rw [h2, h1, h0, s.node, Option.bind_some, if_pos hvalid]
          rfl
        obtain ⟨v, hv⟩ := Option.isSome_iff_exists.mp hsome
        rw [hv, Option.getD_some]
      · rfl
    · rw [if_pos hvalid] at hrun
      rcases Kernel.getFreePage_cases h₁.kernel with hfull | ⟨a, ha, hget⟩
      · simp only [hfull, if_true, Prod.mk.injEq] at hrun
        obtain ⟨rfl, rfl⟩ := hrun
        exact ⟨h₁, fun _ => hview, nofun⟩
      · simp only [hget, if_neg (ha.ne_zero h₁.kernel), Prod.mk.injEq] at hrun
        obtain ⟨rfl, hk'⟩ := hrun
        replace hk' : k₁.link a (n + 8 * ptIdx 0 va) (makePte 0 a flags) = k' := hk'
        subst hk'
        have hpte := makePte_valid 0 a flags
        have hppn := ha.ptePpn_makePte h₁.kernel 0 flags
        refine ⟨h₁.link s ha hvalid hpte hppn, nofun, ?_⟩
        intro b hb
        obtain rfl := Option.some.inj hb
        constructor
        · have hlink := h₁.follow_link s ha hvalid hpte hppn s.root
            (q := [ptIdx 2 va, ptIdx 1 va, ptIdx 0 va]) (by simp) a
          exact hlink.mpr (Or.inr ⟨rfl, rfl, rfl⟩)
        · intro r x hr
          rw [link_leaf_view h₁ s ha hvalid hpte hppn hr x, mappedView, ← hview r x hr]
          split_ifs with hx
          · -- the page of `va` was not mapped
            obtain ⟨rfl, hpage⟩ := hx
            obtain ⟨h2, h1, h0⟩ := (ptIdx_page x va).mpr hpage
            have hnone : userView k₁.mem t.root x = none := by
              unfold userView
              rw [h2, h1, h0, s.node, Option.bind_some, if_neg hvalid]
            rw [hnone, Option.getD_none]
          · rfl

/-- What one page of a copy shows: the page of `va` is bound, and its bytes from `off` replaced. -/
def writtenView (root va : Nat) (pte : BitVec 64) (off : Nat) (src : Nat → Byte) (n : Nat)
    (k : Kernel) (r x : Nat) : Option (BitVec 64 × Byte) :=
  if r = root ∧ SamePage x va then
    some (overwritten off src n x ((userView k.mem r x).getD (pte, 0)))
  else userView k.mem r x

theorem mapAndWrite_spec (h : VmInv k bssEnd ts) (ht : t ∈ ts) {va : Nat} {flags : BitVec 64}
    {off n : Nat} {src : Nat → Byte} {ok : Bool} (hn : off + n ≤ 4096)
    (hrun : mapAndWrite (some t.root) va flags off src n k = (ok, k')) :
    VmInv k' bssEnd ts ∧ (ok = false → SameViews ts k k') ∧ (ok = true → ∃ a, ∀ r x, Roots ts r →
      userView k'.mem r x = writtenView t.root va (makePte 0 a flags) off src n k r x) := by
  rcases hmap : mapPage (some t.root) va flags k with ⟨pg, k₁⟩
  obtain ⟨h₁, hfail, hdone⟩ := mapPage_spec h ht hmap
  cases pg with
  | none =>
    simp only [mapAndWrite, hmap, Prod.mk.injEq] at hrun
    obtain ⟨rfl, rfl⟩ := hrun
    exact ⟨h₁, fun _ => hfail rfl, nofun⟩
  | some a =>
    simp only [mapAndWrite, hmap, Prod.mk.injEq] at hrun
    obtain ⟨rfl, rfl⟩ := hrun
    obtain ⟨hleaf, hview⟩ := hdone a rfl
    have hroot : Roots ts t.root := ⟨t, ht, rfl⟩
    have haligned := h₁.kernel.aligned a (h₁.handed hroot (by simp) hleaf)
    have hout : ∀ y, y / 4096 ≠ a / 4096 → copyTo k₁.mem (a + off) n src y = k₁.mem y :=
      fun y hy => copyTo_outside _ _ _ _ (by omega)
    refine ⟨h₁.same_tables _ (h₁.leaf_tables hroot rfl hleaf hout), nofun, ?_⟩
    intro _
    refine ⟨a, fun r x hr => ?_⟩
    show userView (copyTo k₁.mem (a + off) n src) r x = _
    rw [write_leaf_view h₁ ht src hleaf hn hr x, hview r x hr, mappedView, writtenView]
    split_ifs
    · rfl
    · rfl

/-! ## The page-fault handler -/

/-- The hardware register names the table it was set to. -/
theorem VmInv.satp (h : VmInv k bssEnd ts) (ht : t ∈ ts) :
    satpRoot (setPt t.root) = t.root := by
  have hhanded := h.handed (p := []) ⟨t, ht, rfl⟩ (by simp) rfl
  have hbelow := h.kernel.below t.root hhanded
  have hbound := h.kernel.mm.counted.bound
  exact satpRoot_setPt (by omega) (h.kernel.aligned t.root hhanded)

/-! ## Creating a table -/

theorem createPt_cases (h : k.Inv bssEnd) :
    createPt k = (none, k) ∨ ∃ a, k.Fresh a ∧
      createPt k = (some a, { k.hand a with mem := zeroPage k.mem a }) := by
  rcases Kernel.getFreePage_cases h with hfull | ⟨a, ha, hget⟩
  · refine Or.inl ?_
    simp only [createPt, hfull, if_true]
  · refine Or.inr ⟨a, ha, ?_⟩
    simp only [createPt, hget, if_neg (ha.ne_zero h), kernelPt]
    rfl

theorem createPt_spec (h : VmInv k bssEnd ts) :
    createPt k = (none, k) ∨ ∃ a k', createPt k = (some a, k') ∧ k.Fresh a ∧
      VmInv k' bssEnd (⟨a, k.handed.length⟩ :: ts) ∧
      (∀ x, userView k'.mem a x = none) := by
  rcases createPt_cases h.kernel with hfull | ⟨a, ha, hrun⟩
  · exact Or.inl hfull
  · let k' : Kernel := { k.hand a with mem := zeroPage k.mem a }
    have hzero : ∀ o < 4096, k'.mem (a + o) = 0 := fun o ho => zeroPage_add _ _ ho
    have haligned := ha.aligned
    have hkeep : ∀ r p n, Roots ts r → p.length < 3 → follow (tableSucc k.mem) r p = some n →
        tableSucc k'.mem n = tableSucc k.mem n := by
      intro r p n hr hp hn
      have hmem := h.handed hr (Nat.le_of_lt hp) hn
      have hnaligned := h.kernel.aligned n hmem
      have hna : n ≠ a := by
        rintro rfl
        exact ha.not_handed h.kernel hmem
      apply tableSucc_congr
      intro o ho
      exact zeroPage_outside _ _ (by omega)
    have hold : NoAlias (tableSucc k'.mem) (Roots ts) 3 := h.noAlias.agree hkeep
    have hfresh : ¬ Reached (tableSucc k'.mem) (Roots ts) 3 a := by
      rintro ⟨r, p, hr, hp, hra⟩
      rw [follow_of_agree hr hp hkeep] at hra
      exact h.not_reached ha ⟨r, p, hr, hp, hra⟩
    have hroots : ∀ r, Roots (⟨a, k.handed.length⟩ :: ts) r ↔ r = a ∨ Roots ts r := by
      intro r
      simp [Roots, eq_comm]
    refine Or.inr ⟨a, k', hrun, ha, ⟨(h.kernel.hand ha).withMem _, ?_, ?_, ?_⟩, ?_⟩
    · intro r s p q b hr hs
      exact hold.add_root hfresh (tableSucc_zero hzero) r s p q b ((hroots r).mp hr)
        ((hroots s).mp hs)
    · intro t' ht'
      have hlen : k'.handed.length = k.handed.length + 1 := by simp [k', Kernel.hand]
      rw [hlen]
      rcases List.mem_cons.mp ht' with rfl | hmem
      · exact Nat.le_succ _
      · exact Nat.le_succ_of_le (h.birth t' hmem)
    · intro t' ht' p b hp hb
      have hhanded : k'.handed = k.handed ++ [a] := rfl
      rcases List.mem_cons.mp ht' with rfl | hmem
      · obtain ⟨_, rfl⟩ := (follow_childless (tableSucc_zero hzero)).mp hb
        rw [hhanded, List.drop_left]
        exact List.mem_singleton.mpr rfl
      · rw [hhanded, List.drop_append_of_le_length (h.birth t' hmem)]
        rw [follow_of_agree (h := hkeep) ⟨t', hmem, rfl⟩ hp] at hb
        exact List.mem_append_left _ (h.owned t' hmem p b hp hb)
    · intro x
      have hnone : follow (tableSucc k'.mem) a [ptIdx 2 x, ptIdx 1 x] = none := by
        rw [follow, tableSucc_zero hzero]
        rfl
      rw [userView, hnone]
      rfl

end Ops

end VijosOS
