import Mathlib.Logic.Relation
import VijosOS.Memory.VmCopy

/-!
# The entries of a page table

Every operation on page tables is a sequence of four steps: linking a table, linking a page,
writing inside a page, setting flag bits of a leaf entry. Between them the tables keep the form
the hardware reads: pointers above the last level, and no entry with reserved high bits.
-/

namespace VijosOS

open Library

/-- One step of the page-table code. -/
inductive VmStep (ts : List Table) : Kernel → Kernel → Prop where
  | table {k : Kernel} {t : Table} {p : List Nat} {n i a level : Nat} (slot : Slot k ts t p n i)
      (depth : p.length < 2) (fresh : k.Fresh a) (invalid : ¬ pteValid (load64 k.mem (n + 8 * i)))
      (inner : level ≠ 0) : VmStep ts k (k.link a (n + 8 * i) (makePte level a 0))
  | page {k : Kernel} {t : Table} {p : List Nat} {n i a : Nat} {flags : BitVec 64}
      (slot : Slot k ts t p n i) (depth : p.length = 2) (fresh : k.Fresh a)
      (invalid : ¬ pteValid (load64 k.mem (n + 8 * i))) :
      VmStep ts k (k.link a (n + 8 * i) (makePte 0 a flags))
  | write {k : Kernel} {r pg : Nat} {q : List Nat} {m : Mem} (root : Roots ts r)
      (depth : q.length = 3) (leaf : follow (tableSucc k.mem) r q = some pg)
      (outside : ∀ x, x / 4096 ≠ pg / 4096 → m x = k.mem x) : VmStep ts k { k with mem := m }
  | flags {k : Kernel} {t : Table} {p : List Nat} {n i : Nat} {ad : BitVec 64}
      (slot : Slot k ts t p n i) (depth : p.length = 2)
      (valid : pteValid (load64 k.mem (n + 8 * i))) (low : ad >>> 8 = 0) :
      VmStep ts k { k with mem := store64 k.mem (n + 8 * i) (load64 k.mem (n + 8 * i) ||| ad) }

abbrev VmSteps (ts : List Table) : Kernel → Kernel → Prop := Relation.ReflTransGen (VmStep ts)

/-- A step that adds a table. -/
inductive TableStep (ts : List Table) : Kernel → Kernel → Prop where
  | table {k : Kernel} {t : Table} {p : List Nat} {n i a level : Nat} (slot : Slot k ts t p n i)
      (depth : p.length < 2) (fresh : k.Fresh a) (invalid : ¬ pteValid (load64 k.mem (n + 8 * i)))
      (inner : level ≠ 0) : TableStep ts k (k.link a (n + 8 * i) (makePte level a 0))

abbrev TableSteps (ts : List Table) : Kernel → Kernel → Prop := Relation.ReflTransGen (TableStep ts)

section Steps

variable {k k' : Kernel} {bssEnd : Nat} {ts : List Table} {t : Table} {flags : BitVec 64}

theorem VmStep.inv (hstep : VmStep ts k k') (h : VmInv k bssEnd ts) : VmInv k' bssEnd ts := by
  cases hstep with
  | table slot depth fresh invalid inner =>
    exact h.link slot fresh invalid (makePte_valid _ _ _) (fresh.ptePpn_makePte h.kernel _ _)
  | page slot depth fresh invalid =>
    exact h.link slot fresh invalid (makePte_valid _ _ _) (fresh.ptePpn_makePte h.kernel _ _)
  | write root depth leaf outside => exact h.same_tables _ (h.leaf_tables root depth leaf outside)
  | flags slot depth valid low => exact h.same_tables _ (h.or_tables slot valid low)

theorem VmSteps.inv (hsteps : VmSteps ts k k') (h : VmInv k bssEnd ts) : VmInv k' bssEnd ts := by
  induction hsteps with
  | refl => exact h
  | tail _ hstep ih => exact hstep.inv ih

/-! ## The kernel image -/

/-- Every page that was handed out lies above the kernel image. -/
theorem Kernel.Inv.image_lt (h : k.Inv bssEnd) : bssEnd < availableStart k.mm := by
  have himage := h.mm.placed.image
  have hbitmap := h.mm.placed.bitmap
  have hsnapshot := h.mm.placed.snapshot
  have hbytes := bitmapBytes_eq k.mm.mmbm h.mm.counted.block h.mm.counted.bound
  unfold mmbmSize at hbitmap hsnapshot
  omega

/-- The page-table code leaves the kernel image alone. -/
theorem VmStep.image (hstep : VmStep ts k k') (h : VmInv k bssEnd ts) {x : Nat} (hx : x < bssEnd) :
    k'.mem x = k.mem x := by
  have himage := h.kernel.image_lt
  have hlink : ∀ {t : Table} {p : List Nat} {n i a : Nat} {pte : BitVec 64}, Slot k ts t p n i → k.Fresh a →
      (k.link a (n + 8 * i) pte).mem x = k.mem x := by
    intro t p n i a pte slot fresh
    have hnode := h.kernel.above n (h.handed slot.root (Nat.le_of_lt slot.depth) slot.node)
    have habove := fresh.above
    have haligned := fresh.aligned
    exact link_mem_old fresh (by omega) (by omega)
  cases hstep with
  | table slot depth fresh invalid inner => exact hlink slot fresh
  | page slot depth fresh invalid => exact hlink slot fresh
  | write root depth leaf outside =>
    have hhanded := h.handed root (Nat.le_of_eq depth) leaf
    have habove := h.kernel.above _ hhanded
    have haligned := h.kernel.aligned _ hhanded
    exact outside x (by omega)
  | flags slot depth valid low =>
    have hnode := h.kernel.above _ (h.handed slot.root (Nat.le_of_lt slot.depth) slot.node)
    exact store64_outside _ _ _ (by omega)

theorem VmSteps.image (hsteps : VmSteps ts k k') (h : VmInv k bssEnd ts) {x : Nat} (hx : x < bssEnd) :
    k'.mem x = k.mem x := by
  induction hsteps with
  | refl => rfl
  | tail hsteps hstep ih => rw [hstep.image (VmSteps.inv hsteps h) hx, ih]

/-- Writes in the kernel image leave the tables alone. -/
theorem VmInv.write_image (h : VmInv k bssEnd ts) {m : Mem} (hm : ∀ x, bssEnd ≤ x → m x = k.mem x) :
    VmInv { k with mem := m } bssEnd ts := by
  have himage := h.kernel.image_lt
  refine h.same_tables m fun r p n hr hp hn => tableSucc_congr fun o _ => hm _ ?_
  have habove := h.kernel.above n (h.handed hr (Nat.le_of_lt hp) hn)
  omega

/-! ## Reached pages -/

/-- A page that a table reaches stays where it is. -/
theorem VmStep.follow (hstep : VmStep ts k k') (h : VmInv k bssEnd ts) {r a : Nat} {q : List Nat}
    (hr : Roots ts r) (hq : q.length ≤ 3) (ha : follow (tableSucc k.mem) r q = some a) :
    follow (tableSucc k'.mem) r q = some a := by
  cases hstep with
  | table slot depth fresh invalid inner =>
    exact (h.follow_link slot fresh invalid (makePte_valid _ _ _)
      (fresh.ptePpn_makePte h.kernel _ _) hr hq a).mpr (Or.inl ha)
  | page slot depth fresh invalid =>
    exact (h.follow_link slot fresh invalid (makePte_valid _ _ _)
      (fresh.ptePpn_makePte h.kernel _ _) hr hq a).mpr (Or.inl ha)
  | write root depth leaf outside =>
    rw [follow_of_agree (d := 3) hr hq (h.leaf_tables root depth leaf outside)]
    exact ha
  | flags slot depth valid low =>
    rw [follow_of_agree (d := 3) hr hq (h.or_tables slot valid low)]
    exact ha

theorem VmSteps.follow (hsteps : VmSteps ts k k') (h : VmInv k bssEnd ts) {r a : Nat} {q : List Nat}
    (hr : Roots ts r) (hq : q.length ≤ 3) (ha : follow (tableSucc k.mem) r q = some a) :
    follow (tableSucc k'.mem) r q = some a := by
  induction hsteps with
  | refl => exact ha
  | tail hsteps hstep ih => exact hstep.follow (VmSteps.inv hsteps h) hr hq ih

/-! ## The operations -/

theorem TableStep.vm (hstep : TableStep ts k k') : VmStep ts k k' := by
  cases hstep with
  | table slot depth fresh invalid inner => exact .table slot depth fresh invalid inner

theorem TableSteps.vm (hsteps : TableSteps ts k k') : VmSteps ts k k' :=
  Relation.ReflTransGen.mono (fun _ _ => TableStep.vm) _ _ hsteps

theorem getPtLevel_tables (h : VmInv k bssEnd ts) {p : List Nat} {n i : Nat} (s : Slot k ts t p n i)
    (hdepth : p.length < 2) {level : Nat} (hlevel : level ≠ 0) {pt : Option Nat}
    (hrun : getPtLevel level n i k = (pt, k')) : TableSteps ts k k' := by
  by_cases hvalid : pteValid (pteAt k n i)
  · rw [getPtLevel, if_neg (not_not_intro hvalid)] at hrun
    obtain rfl := (Prod.mk.inj hrun).2
    exact .refl
  · rw [getPtLevel, if_pos hvalid] at hrun
    rcases Kernel.getFreePage_cases h.kernel with hfull | ⟨a, ha, hget⟩
    · simp only [hfull, if_true, Prod.mk.injEq] at hrun
      obtain rfl := hrun.2
      exact .refl
    · simp only [hget, if_neg (ha.ne_zero h.kernel), Prod.mk.injEq] at hrun
      obtain rfl := hrun.2
      exact .single (.table s hdepth ha hvalid hlevel)

/-- A walk only adds the tables that are missing. -/
theorem getPte_tables (h : VmInv k bssEnd ts) (ht : t ∈ ts) {va : Nat} {pte : Option Nat}
    (hrun : getPte (some t.root) va k = (pte, k')) : TableSteps ts k k' := by
  have top : Slot k ts t [] t.root (ptIdx 2 va) := ⟨ht, by simp, rfl, ptIdx_lt 2 va⟩
  rcases htwo : getPtLevel 2 t.root (ptIdx 2 va) k with ⟨pt₂, k₂⟩
  obtain ⟨h₂, _, hnode₂⟩ := getPtLevel_spec h top (by simp) htwo
  have hsteps₂ := getPtLevel_tables h top (by simp) (by decide) htwo
  cases pt₂ with
  | none =>
    simp only [getPte, htwo, Prod.mk.injEq] at hrun
    obtain rfl := hrun.2
    exact hsteps₂
  | some c =>
    have middle : Slot k₂ ts t [ptIdx 2 va] c (ptIdx 1 va) :=
      ⟨ht, by simp, hnode₂ c rfl, ptIdx_lt 1 va⟩
    rcases hone : getPtLevel 1 c (ptIdx 1 va) k₂ with ⟨pt₁, k₁⟩
    have hsteps₁ := getPtLevel_tables h₂ middle (by simp) (by decide) hone
    cases pt₁ with
    | none =>
      simp only [getPte, htwo, hone, Prod.mk.injEq] at hrun
      obtain rfl := hrun.2
      exact hsteps₂.trans hsteps₁
    | some n =>
      simp only [getPte, htwo, hone, Prod.mk.injEq] at hrun
      obtain rfl := hrun.2
      exact hsteps₂.trans hsteps₁

theorem getPte_steps (h : VmInv k bssEnd ts) (ht : t ∈ ts) {va : Nat} {pte : Option Nat}
    (hrun : getPte (some t.root) va k = (pte, k')) : VmSteps ts k k' := (getPte_tables h ht hrun).vm

theorem mapPage_steps (h : VmInv k bssEnd ts) (ht : t ∈ ts) {va : Nat} {pg : Option Nat}
    (hrun : mapPage (some t.root) va flags k = (pg, k')) : VmSteps ts k k' := by
  rcases hwalk : getPte (some t.root) va k with ⟨pte, k₁⟩
  obtain ⟨h₁, _, hslot⟩ := getPte_spec h ht hwalk
  have hsteps := getPte_steps h ht hwalk
  cases pte with
  | none =>
    simp only [mapPage, hwalk, Prod.mk.injEq] at hrun
    obtain rfl := hrun.2
    exact hsteps
  | some e =>
    obtain ⟨n, s, rfl⟩ := hslot e rfl
    simp only [mapPage, hwalk] at hrun
    by_cases hvalid : pteValid (load64 k₁.mem (n + 8 * ptIdx 0 va))
    · rw [if_neg (not_not_intro hvalid), Prod.mk.injEq] at hrun
      obtain rfl := hrun.2
      exact hsteps
    · rw [if_pos hvalid] at hrun
      rcases Kernel.getFreePage_cases h₁.kernel with hfull | ⟨a, ha, hget⟩
      · simp only [hfull, if_true, Prod.mk.injEq] at hrun
        obtain rfl := hrun.2
        exact hsteps
      · simp only [hget, if_neg (ha.ne_zero h₁.kernel), Prod.mk.injEq] at hrun
        obtain rfl := hrun.2
        exact hsteps.tail (.page s (by simp) ha hvalid)

theorem mapAndWrite_steps (h : VmInv k bssEnd ts) (ht : t ∈ ts) {va off n : Nat} {src : Nat → Byte}
    {ok : Bool} (hn : off + n ≤ 4096) (hrun : mapAndWrite (some t.root) va flags off src n k = (ok, k')) :
    VmSteps ts k k' := by
  rcases hmap : mapPage (some t.root) va flags k with ⟨pg, k₁⟩
  obtain ⟨h₁, _, hdone⟩ := mapPage_spec h ht hmap
  have hsteps := mapPage_steps h ht hmap
  cases pg with
  | none =>
    simp only [mapAndWrite, hmap, Prod.mk.injEq] at hrun
    obtain rfl := hrun.2
    exact hsteps
  | some a =>
    simp only [mapAndWrite, hmap, Prod.mk.injEq] at hrun
    obtain rfl := hrun.2
    obtain ⟨hleaf, _⟩ := hdone a rfl
    have hroot : Roots ts t.root := ⟨t, ht, rfl⟩
    have haligned := h₁.kernel.aligned a (h₁.handed hroot (by simp) hleaf)
    exact hsteps.tail (.write hroot rfl hleaf fun x hx => copyTo_outside _ _ _ _ (by omega))

theorem copyPagesFrom_steps (h : VmInv k bssEnd ts) (ht : t ∈ ts) {va n : Nat} {src : Nat → Byte}
    {ok : Bool} (hrun : copyPagesFrom (some t.root) flags va n src k = (ok, k')) : VmSteps ts k k' := by
  induction n generalizing k va src with
  | zero =>
    obtain rfl := (Prod.mk.inj hrun).2
    exact .refl
  | succ n ih =>
    rcases hpage : mapAndWrite (some t.root) va flags 0 src pgSize k with ⟨ok₁, k₁⟩
    have hsteps := mapAndWrite_steps h ht (by decide) hpage
    cases ok₁ with
    | false =>
      simp only [copyPagesFrom, hpage, Prod.mk.injEq] at hrun
      obtain rfl := hrun.2
      exact hsteps
    | true =>
      simp only [copyPagesFrom, hpage] at hrun
      exact hsteps.trans (ih (hsteps.inv h) hrun)

theorem mapPagesFrom_steps (h : VmInv k bssEnd ts) (ht : t ∈ ts) {va n : Nat} {ok : Bool}
    (hrun : mapPagesFrom (some t.root) flags va n k = (ok, k')) : VmSteps ts k k' := by
  induction n generalizing k va with
  | zero =>
    obtain rfl := (Prod.mk.inj hrun).2
    exact .refl
  | succ n ih =>
    rcases hpage : mapPage (some t.root) va flags k with ⟨pg, k₁⟩
    have hsteps := mapPage_steps h ht hpage
    cases pg with
    | none =>
      simp only [mapPagesFrom, hpage, Prod.mk.injEq] at hrun
      obtain rfl := hrun.2
      exact hsteps
    | some a =>
      simp only [mapPagesFrom, hpage] at hrun
      exact hsteps.trans (ih (hsteps.inv h) hrun)

theorem mapAndCopy_steps (h : VmInv k bssEnd ts) (ht : t ∈ ts) {va len : Nat} {src : Nat → Byte}
    {ret : Int} (htop : va + len ≤ 2 ^ 39)
    (hrun : mapAndCopy (some t.root) va flags src len k = (ret, k')) : VmSteps ts k k' := by
  by_cases hlen : len = 0
  · rw [mapAndCopy, if_pos hlen] at hrun
    obtain rfl := (Prod.mk.inj hrun).2
    exact .refl
  obtain ⟨hbegin, hend, hcount, hreach⟩ := copy_middle htop
  rw [hbegin, hend] at hcount
  rw [mapAndCopy, if_neg hlen] at hrun
  simp only [hbegin, hend, hcount] at hrun
  generalize hn : (va + len) / 4096 - (va + 4095) / 4096 = n at hrun
  rcases hhead : copyHead (some t.root) va flags src len k with ⟨ok₁, k₁⟩
  have hsteps₁ : VmSteps ts k k₁ := by
    unfold copyHead at hhead
    by_cases hva : va ≠ pgAlignFloor va
    · rw [if_pos hva] at hhead
      exact mapAndWrite_steps h ht (headChunk_fits len (by omega)) hhead
    · rw [if_neg hva] at hhead
      obtain rfl := (Prod.mk.inj hhead).2
      exact .refl
  rw [hhead] at hrun
  cases ok₁ with
  | false =>
    obtain rfl := (Prod.mk.inj hrun).2
    exact hsteps₁
  | true =>
    rcases hmid : copyPagesFrom (some t.root) flags ((va + 4095) / 4096 * 4096) n
      (fun i => src (headChunk va len + i)) k₁ with ⟨ok₂, k₂⟩
    have hsteps₂ := hsteps₁.trans (copyPagesFrom_steps (hsteps₁.inv h) ht hmid)
    simp only [hmid] at hrun
    cases ok₂ with
    | false =>
      obtain rfl := (Prod.mk.inj hrun).2
      exact hsteps₂
    | true =>
      rcases htail : copyTail (some t.root) ((va + len) / 4096 * 4096) flags
        (fun i => src (headChunk va len + n * pgSize + i)) (len - (headChunk va len + n * pgSize)) k₂
        with ⟨ok₃, k₃⟩
      have hsteps₃ : VmSteps ts k₂ k₃ := by
        unfold copyTail at htail
        by_cases hrest : len - (headChunk va len + n * pgSize) > 0
        · rw [if_pos hrest] at htail
          refine mapAndWrite_steps (VmSteps.inv hsteps₂ h) ht ?_ htail
          simp only [pgSize] at hrest ⊢
          omega
        · rw [if_neg hrest] at htail
          obtain rfl := (Prod.mk.inj htail).2
          exact .refl
      simp only [htail] at hrun
      cases ok₃ with
      | false =>
        obtain rfl := (Prod.mk.inj hrun).2
        exact hsteps₂.trans hsteps₃
      | true =>
        obtain rfl := (Prod.mk.inj hrun).2
        exact hsteps₂.trans hsteps₃

theorem handlePageFault_steps (h : VmInv k bssEnd ts) (ht : t ∈ ts) {satp cause : BitVec 64} {va : Nat}
    {ok : Bool} (hsatp : satpRoot satp = t.root) (hrun : handlePageFault satp cause va k = (ok, k')) :
    VmSteps ts k k' := by
  rcases hwalk : getPte (some t.root) va k with ⟨pte, k₁⟩
  obtain ⟨_, _, hslot⟩ := getPte_spec h ht hwalk
  have hsteps := getPte_steps h ht hwalk
  cases pte with
  | none =>
    simp only [handlePageFault, hsatp, hwalk, Prod.mk.injEq] at hrun
    obtain rfl := hrun.2
    exact hsteps
  | some a =>
    obtain ⟨n, s, rfl⟩ := hslot a rfl
    simp only [handlePageFault, hsatp, hwalk] at hrun
    by_cases hflags : load64 k₁.mem (n + 8 * ptIdx 0 va) &&& faultFlags cause = faultFlags cause
    · rw [if_pos hflags] at hrun
      obtain rfl := (Prod.mk.inj hrun).2
      have hvalid : pteValid (load64 k₁.mem (n + 8 * ptIdx 0 va)) := by
        rw [pteValid_iff]
        have hbit := faultFlags_valid cause
        rw [← hflags, BitVec.getLsbD_and, Bool.and_eq_true] at hbit
        exact hbit.1
      exact hsteps.tail (.flags s rfl hvalid (faultAd_high cause))
    · rw [if_neg hflags] at hrun
      obtain rfl := (Prod.mk.inj hrun).2
      exact hsteps

end Steps

/-! ## The form of the entries -/

/-- A valid entry above the last level is a pointer. -/
def PointerEntry (e : BitVec 64) : Prop := e &&& (pteR ||| pteW ||| pteX) = 0 ∧ e >>> 54 = 0

/-- What the hardware finds in the tables: pointers, then leaves, without reserved high bits. -/
structure TableFormat (m : Mem) (ts : List Table) : Prop where
  pointer : ∀ r p n i, Roots ts r → p.length < 2 → follow (tableSucc m) r p = some n → i < 512 →
    pteValid (load64 m (n + 8 * i)) → PointerEntry (load64 m (n + 8 * i))
  leaf : ∀ r p n i, Roots ts r → p.length = 2 → follow (tableSucc m) r p = some n → i < 512 →
    load64 m (n + 8 * i) >>> 54 = 0

/-- The page number of a physical address below 2^56 leaves the high bits clear. -/
theorem makePte_high (level : Nat) {a : Nat} (flags : BitVec 64) (ha : a < 2 ^ 56) :
    makePte level a flags >>> 54 = 0 := by
  have hnew : newFlags level flags >>> 54 = 0 := by
    have hsplit : newFlags level flags >>> 54 = (newFlags level flags >>> 8) >>> 46 :=
      BitVec.shiftRight_add _ 8 46
    rw [hsplit, newFlags_high]
    decide
  have hppn : ((BitVec.ofNat 64 a >>> pgShift) <<< ptePpnShift) >>> 54 = 0 := by
    apply BitVec.eq_of_toNat_eq
    simp only [pgShift, ptePpnShift, BitVec.toNat_ushiftRight, BitVec.toNat_shiftLeft,
      BitVec.toNat_ofNat, Nat.shiftLeft_eq, Nat.shiftRight_eq_div_pow]
    show _ = 0
    omega
  rw [makePte_eq, BitVec.ushiftRight_or_distrib, hppn, hnew]
  decide

theorem makePte_pointer {level a : Nat} (hlevel : level ≠ 0) (ha : a < 2 ^ 56) :
    PointerEntry (makePte level a 0) := by
  refine ⟨?_, makePte_high level 0 ha⟩
  rw [makePte_and _ _ _ (by decide), newFlags, if_neg hlevel]
  decide

section Format

variable {k k' : Kernel} {bssEnd : Nat} {ts : List Table} {t : Table} {p : List Nat} {n i a : Nat}
  {pte : BitVec 64}

/-- The entries after a link: the new one, those of an empty new table, and the old ones. -/
theorem link_entry_cases (h : VmInv k bssEnd ts) (s : Slot k ts t p n i) (ha : k.Fresh a)
    (hinvalid : ¬ pteValid (load64 k.mem (n + 8 * i))) (hpte : pteValid pte) (hppn : ptePpn pte = a)
    {r c j : Nat} {q : List Nat} (hr : Roots ts r) (hq : q.length < 3)
    (hc : follow (tableSucc (k.link a (n + 8 * i) pte).mem) r q = some c) (hj : j < 512) :
    q = p ∧ load64 (k.link a (n + 8 * i) pte).mem (c + 8 * j) = pte ∨
      load64 (k.link a (n + 8 * i) pte).mem (c + 8 * j) = 0 ∨
      follow (tableSucc k.mem) r q = some c ∧
        load64 (k.link a (n + 8 * i) pte).mem (c + 8 * j) = load64 k.mem (c + 8 * j) := by
  rcases (h.follow_link s ha hinvalid hpte hppn hr (Nat.le_of_lt hq) c).mp hc with hold | ⟨_, _, rfl⟩
  · by_cases hentry : c = n ∧ j = i
    · obtain ⟨rfl, rfl⟩ := hentry
      obtain ⟨_, rfl⟩ := h.noAlias _ _ _ _ _ hr s.root (Nat.le_of_lt hq) (Nat.le_of_lt s.depth) hold s.node
      exact Or.inl ⟨rfl, load64_store64 _ _ _⟩
    · exact Or.inr (Or.inr ⟨hold, link_entry h s ha hr hq hold hj hentry⟩)
  · refine Or.inr (Or.inl (load64_zero fun o ho => ?_))
    rw [Nat.add_assoc]
    exact link_mem_new h s ha (by omega)

/-- Every entry of every table satisfies `Q` at its depth. -/
def Entries (Q : Nat → BitVec 64 → Prop) (m : Mem) (ts : List Table) : Prop :=
  ∀ r p n i, Roots ts r → p.length < 3 → follow (tableSucc m) r p = some n → i < 512 →
    Q p.length (load64 m (n + 8 * i))

variable {Q : Nat → BitVec 64 → Prop}

theorem Entries.link (h : VmInv k bssEnd ts) (hf : Entries Q k.mem ts) (s : Slot k ts t p n i)
    (ha : k.Fresh a) (hinvalid : ¬ pteValid (load64 k.mem (n + 8 * i))) (hpte : pteValid pte)
    (hppn : ptePpn pte = a) (hnew : Q p.length pte) (hzero : ∀ d, Q d 0) :
    Entries Q (k.link a (n + 8 * i) pte).mem ts := by
  intro r q c j hr hq hc hj
  rcases link_entry_cases h s ha hinvalid hpte hppn hr hq hc hj with
    ⟨rfl, heq⟩ | heq | ⟨hold, heq⟩
  · rw [heq]
    exact hnew
  · rw [heq]
    exact hzero _
  · rw [heq]
    exact hf r q c j hr hq hold hj

/-- A write inside a leaf page leaves every entry alone. -/
theorem Entries.write (h : VmInv k bssEnd ts) (hf : Entries Q k.mem ts) {m : Mem} {r pg : Nat}
    {q : List Nat} (root : Roots ts r) (depth : q.length = 3)
    (leaf : follow (tableSucc k.mem) r q = some pg)
    (outside : ∀ x, x / 4096 ≠ pg / 4096 → m x = k.mem x) : Entries Q m ts := by
  intro r' q' c j hr hq hc hj
  rw [follow_of_agree (d := 3) hr (by omega) (h.leaf_tables root depth leaf outside)] at hc
  have hne := h.page_ne hr root (Nat.le_of_lt hq) (Nat.le_of_eq depth) hc leaf
    (by rintro ⟨_, rfl⟩; omega)
  have haligned := h.kernel.aligned c (h.handed hr (Nat.le_of_lt hq) hc)
  have hsame : load64 m (c + 8 * j) = load64 k.mem (c + 8 * j) :=
    load64_congr fun o ho => outside _ (by omega)
  rw [hsame]
  exact hf r' q' c j hr hq hc hj

theorem Entries.flags (h : VmInv k bssEnd ts) (hf : Entries Q k.mem ts) (s : Slot k ts t p n i)
    (hvalid : pteValid (load64 k.mem (n + 8 * i))) {ad : BitVec 64} (had : ad >>> 8 = 0)
    (hnew : Q p.length (load64 k.mem (n + 8 * i) ||| ad)) :
    Entries Q (store64 k.mem (n + 8 * i) (load64 k.mem (n + 8 * i) ||| ad)) ts := by
  have hn := s.aligned h
  have hi := s.index
  intro r q c j hr hq hc hj
  rw [follow_of_agree (d := 3) hr (by omega) (h.or_tables s hvalid had)] at hc
  by_cases hentry : c = n ∧ j = i
  · obtain ⟨rfl, rfl⟩ := hentry
    obtain ⟨_, rfl⟩ := h.noAlias _ _ _ _ _ hr s.root (by omega) (Nat.le_of_lt s.depth) hc s.node
    rw [load64_store64]
    exact hnew
  · have hcaligned := h.kernel.aligned c (h.handed hr (Nat.le_of_lt hq) hc)
    rw [load64_store64_disjoint _ _ _ _ (by omega)]
    exact hf r q c j hr hq hc hj

/-- The entries of a table without entries. -/
theorem Entries.empty {m : Mem} {root birth : Nat} (hempty : ∀ o < 4096, m (root + o) = 0)
    (hzero : ∀ d, Q d 0) : Entries Q m [⟨root, birth⟩] := by
  intro r q c j hr hq hc hj
  obtain ⟨t, ht, rfl⟩ := hr
  obtain rfl := List.mem_singleton.mp ht
  obtain ⟨rfl, rfl⟩ := (follow_childless (tableSucc_zero hempty)).mp hc
  rw [load64_zero fun o ho => by rw [Nat.add_assoc]; exact hempty _ (by omega)]
  exact hzero _

/-- A new table has no entries, and its page was in no table. -/
theorem Entries.create (h : VmInv k bssEnd ts) (hf : Entries Q k.mem ts) (ha : k.Fresh a) (birth : Nat)
    (hzero : ∀ d, Q d 0) : Entries Q (zeroPage k.mem a) (⟨a, birth⟩ :: ts) := by
  have hempty : ∀ o < 4096, zeroPage k.mem a (a + o) = 0 := fun o ho => zeroPage_add _ _ ho
  have haligned := ha.aligned
  have hout : ∀ c, c ∈ k.handed → ∀ o < 4096, zeroPage k.mem a (c + o) = k.mem (c + o) := by
    intro c hc o ho
    have hcaligned := h.kernel.aligned c hc
    have hca : c ≠ a := by
      rintro rfl
      exact ha.not_handed h.kernel hc
    exact zeroPage_outside _ _ (by omega)
  intro r q c j hr hq hc hj
  obtain ⟨t', ht', rfl⟩ := hr
  rcases List.mem_cons.mp ht' with rfl | ht'
  · have hnew : Entries Q (zeroPage k.mem a) [⟨a, birth⟩] := Entries.empty hempty hzero
    exact hnew _ q c j ⟨_, List.mem_singleton.mpr rfl, rfl⟩ hq hc hj
  · have hroot : Roots ts t'.root := ⟨t', ht', rfl⟩
    rw [follow_of_agree (d := 3) hroot (by omega) fun s p n hs hp hn =>
      tableSucc_congr fun o ho => hout n (h.handed hs (Nat.le_of_lt hp) hn) o ho] at hc
    have hsame : load64 (zeroPage k.mem a) (c + 8 * j) = load64 k.mem (c + 8 * j) := by
      apply load64_congr
      intro o ho
      rw [Nat.add_assoc]
      exact hout c (h.handed hroot (Nat.le_of_lt hq) hc) _ (by omega)
    rw [hsame]
    exact hf _ q c j hroot hq hc hj

/-- What the form asks of an entry at depth `d`. -/
def FormedEntry (d : Nat) (e : BitVec 64) : Prop :=
  (d < 2 → pteValid e → PointerEntry e) ∧ (d = 2 → e >>> 54 = 0)

theorem formedEntry_zero (d : Nat) : FormedEntry d 0 :=
  ⟨fun _ hvalid => absurd hvalid not_pteValid_zero, fun _ => by decide⟩

theorem tableFormat_iff {m : Mem} : TableFormat m ts ↔ Entries FormedEntry m ts := by
  constructor
  · intro hf r q c j hr hq hc hj
    refine ⟨fun hlt hvalid => ?_, fun heq => ?_⟩
    · exact hf.pointer r q c j hr hlt hc hj hvalid
    · exact hf.leaf r q c j hr heq hc hj
  · intro hf
    constructor
    · intro r q c j hr hq hc hj hvalid
      exact (hf r q c j hr (by omega) hc hj).1 hq hvalid
    · intro r q c j hr hq hc hj
      exact (hf r q c j hr (by omega) hc hj).2 hq

/-- Every step keeps the form of the tables, when physical addresses have 56 bits. -/
theorem VmStep.format (hstep : VmStep ts k k') (h : VmInv k bssEnd ts) (hf : TableFormat k.mem ts)
    (hsize : k.mm.mmbm.size ≤ 2 ^ 44) : TableFormat k'.mem ts ∧ k'.mm.mmbm.size ≤ 2 ^ 44 := by
  have hphysical : ∀ {a}, k.Fresh a → a < 2 ^ 56 := by
    intro a ha
    have hbelow := ha.below
    omega
  rw [tableFormat_iff] at hf ⊢
  cases hstep with
  | table slot depth fresh invalid inner =>
    refine ⟨hf.link h slot fresh invalid (makePte_valid _ _ _) (fresh.ptePpn_makePte h.kernel _ _) ?_
      formedEntry_zero, hsize⟩
    exact ⟨fun _ _ => makePte_pointer inner (hphysical fresh), fun _ => makePte_high _ _ (hphysical fresh)⟩
  | page slot depth fresh invalid =>
    refine ⟨hf.link h slot fresh invalid (makePte_valid _ _ _) (fresh.ptePpn_makePte h.kernel _ _) ?_
      formedEntry_zero, hsize⟩
    exact ⟨fun hlt => absurd hlt (by omega), fun _ => makePte_high _ _ (hphysical fresh)⟩
  | write root depth leaf outside => exact ⟨hf.write h root depth leaf outside, hsize⟩
  | @flags _ p n i ad slot depth valid low =>
    refine ⟨hf.flags h slot valid low ⟨fun hlt => absurd hlt (by omega), fun _ => ?_⟩, hsize⟩
    have hsplit : ad >>> 54 = (ad >>> 8) >>> 46 := BitVec.shiftRight_add _ 8 46
    rw [BitVec.ushiftRight_or_distrib,
      (hf _ _ _ _ slot.root slot.depth slot.node slot.index).2 depth, hsplit, low]
    decide

theorem VmSteps.format (hsteps : VmSteps ts k k') (h : VmInv k bssEnd ts) (hf : TableFormat k.mem ts)
    (hsize : k.mm.mmbm.size ≤ 2 ^ 44) : TableFormat k'.mem ts ∧ k'.mm.mmbm.size ≤ 2 ^ 44 := by
  induction hsteps with
  | refl => exact ⟨hf, hsize⟩
  | tail hsteps hstep ih => exact hstep.format (VmSteps.inv hsteps h) ih.1 ih.2

/-- A table without entries has the form. -/
theorem TableFormat.empty {m : Mem} {root birth : Nat} (hzero : ∀ o < 4096, m (root + o) = 0) :
    TableFormat m [⟨root, birth⟩] :=
  tableFormat_iff.mpr (Entries.empty hzero formedEntry_zero)

end Format

end VijosOS
