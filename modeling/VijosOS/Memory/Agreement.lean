import VijosOS.Memory.VmCopy

/-!
# Two runs over different memory

Two kernels agree when they have the same allocator, the same allocation history and
the same bytes in every page handed out. The page-table operations read nothing else,
so they keep the agreement and return the same results.
-/

namespace VijosOS

open Library

structure Agree (k₁ k₂ : Kernel) : Prop where
  mm : k₁.mm = k₂.mm
  handed : k₁.handed = k₂.handed
  mem : ∀ a ∈ k₁.handed, ∀ o < 4096, k₁.mem (a + o) = k₂.mem (a + o)

/-- Two runs in step with each other: they agree, and `pt` is a created table or null. -/
structure Twin (pt : Option Nat) (k₁ k₂ : Kernel) : Prop where
  agree : Agree k₁ k₂
  inv : ∃ bssEnd ts, VmInv k₁ bssEnd ts ∧ ∀ r ∈ pt, ∃ t ∈ ts, t.root = r

/-- Both computations return the same value and keep two runs in step. -/
def Respects {α : Type} (pt : Option Nat) (f₁ f₂ : Kernel → α × Kernel) : Prop :=
  ∀ k₁ k₂, Twin pt k₁ k₂ → (f₁ k₁).1 = (f₂ k₂).1 ∧ Twin pt (f₁ k₁).2 (f₂ k₂).2

section Agreement

variable {k₁ k₂ : Kernel}

theorem copyTo_eq {m₁ m₂ : Mem} {a n x : Nat} {src₁ src₂ : Nat → Byte} (hm : m₁ x = m₂ x)
    (hsrc : ∀ i < n, src₁ i = src₂ i) : copyTo m₁ a n src₁ x = copyTo m₂ a n src₂ x := by
  by_cases hin : a ≤ x ∧ x < a + n
  · rw [copyTo_inside _ _ _ _ hin, copyTo_inside _ _ _ _ hin, hsrc _ (by omega)]
  · rw [copyTo_outside _ _ _ _ hin, copyTo_outside _ _ _ _ hin, hm]

theorem Agree.copyTo (h : Agree k₁ k₂) (a : Nat) {n : Nat} {src₁ src₂ : Nat → Byte}
    (hsrc : ∀ i < n, src₁ i = src₂ i) :
    Agree { k₁ with mem := copyTo k₁.mem a n src₁ } { k₂ with mem := copyTo k₂.mem a n src₂ } :=
  ⟨h.mm, h.handed, fun b hb o ho => copyTo_eq (h.mem b hb o ho) hsrc⟩

theorem Agree.writeBytes (h : Agree k₁ k₂) (a : Nat) (bs : List Byte) :
    Agree { k₁ with mem := writeBytes k₁.mem a bs } { k₂ with mem := writeBytes k₂.mem a bs } :=
  h.copyTo a fun _ _ => rfl

/-- A fresh zeroed page is the same in both runs. -/
theorem Agree.handZeroed (h : Agree k₁ k₂) (a : Nat) :
    Agree { k₁.hand a with mem := zeroPage k₁.mem a } { k₂.hand a with mem := zeroPage k₂.mem a } := by
  refine ⟨?_, ?_, ?_⟩
  · simp only [Kernel.hand, h.mm]
  · simp only [Kernel.hand, h.handed]
  · intro b hb o ho
    rcases List.mem_append.mp hb with hold | hnew
    · show zeroPage k₁.mem a (b + o) = zeroPage k₂.mem a (b + o)
      exact copyTo_eq (h.mem b hold o ho) fun _ _ => rfl
    · obtain rfl := List.mem_singleton.mp hnew
      show zeroPage k₁.mem b (b + o) = zeroPage k₂.mem b (b + o)
      rw [zeroPage_add _ _ ho, zeroPage_add _ _ ho]

theorem Agree.link (h : Agree k₁ k₂) (a entry : Nat) (pte : BitVec 64) :
    Agree (k₁.link a entry pte) (k₂.link a entry pte) :=
  (h.handZeroed a).writeBytes entry (leBytes 8 pte.toNat)

/-- A failed allocation changes nothing in either run. -/
theorem Agree.full (h : Agree k₁ k₂) (hfull : k₁.getFreePage = (0, k₁)) : k₂.getFreePage = (0, k₂) := by
  have hzero : (VijosOS.getFreePage k₁.mm).1 = 0 := congrArg Prod.fst hfull
  have hmm : (VijosOS.getFreePage k₁.mm).2 = k₁.mm := congrArg (fun p => p.2.mm) hfull
  simp only [Kernel.getFreePage, ← h.mm, hzero, hmm, if_true]
  rw [h.mm]

theorem Agree.handed_same (h : Agree k₁ k₂) {a : Nat} (hget : k₁.getFreePage = (a, k₁.hand a))
    (ha : a ≠ 0) : k₂.getFreePage = (a, k₂.hand a) := by
  have hpage : (VijosOS.getFreePage k₁.mm).1 = a := congrArg Prod.fst hget
  have hmm : (VijosOS.getFreePage k₁.mm).2 = (k₁.hand a).mm := congrArg (fun p => p.2.mm) hget
  simp only [Kernel.getFreePage, ← h.mm, hpage, hmm, if_neg ha, Kernel.hand]

/-- Every entry of a table of the first run is the same in the second. -/
theorem Agree.entry (h : Agree k₁ k₂) {bssEnd : Nat} {ts : List Table} (hinv : VmInv k₁ bssEnd ts)
    {t : Table} {p : List Nat} {n i : Nat} (s : Slot k₁ ts t p n i) :
    load64 k₁.mem (n + 8 * i) = load64 k₂.mem (n + 8 * i) := by
  have hn := hinv.handed s.root (Nat.le_of_lt s.depth) s.node
  have hi := s.index
  apply load64_congr
  intro o ho
  rw [Nat.add_assoc]
  exact h.mem n hn _ (by omega)

/-- Agreeing runs map the same bytes under the same entries. -/
theorem Agree.userView (h : Agree k₁ k₂) {bssEnd : Nat} {ts : List Table}
    (hinv : VmInv k₁ bssEnd ts) {r : Nat} (hr : Roots ts r) (x : Nat) :
    userView k₂.mem r x = VijosOS.userView k₁.mem r x := by
  have htables : ∀ s p n, Roots ts s → p.length < 3 → follow (tableSucc k₁.mem) s p = some n →
      tableSucc k₂.mem n = tableSucc k₁.mem n := by
    intro s p n hs hp hn
    apply tableSucc_congr
    intro o ho
    exact (h.mem n (hinv.handed hs (Nat.le_of_lt hp) hn) o ho).symm
  apply userView_congr (follow_of_agree (d := 3) hr (by simp) htables)
  obtain ⟨t, ht, rfl⟩ := hr
  intro n hn
  have s : Slot k₁ ts t [ptIdx 2 x, ptIdx 1 x] n (ptIdx 0 x) := ⟨ht, by simp, hn, ptIdx_lt 0 x⟩
  refine ⟨(h.entry hinv s).symm, fun hv => ?_⟩
  have hleaf := hinv.handed ⟨t, ht, rfl⟩ (by simp) (follow_of_leaf hn hv)
  exact (h.mem _ hleaf _ (Nat.mod_lt _ (by decide))).symm

end Agreement

/-! ## The page-table operations -/

section Ops

variable {k₁ k₂ : Kernel} {bssEnd : Nat} {ts : List Table} {t : Table}

theorem getPtLevel_agree (h : Agree k₁ k₂) (hinv : VmInv k₁ bssEnd ts) {p : List Nat} {n i : Nat}
    (s : Slot k₁ ts t p n i) (level : Nat) :
    (getPtLevel level n i k₁).1 = (getPtLevel level n i k₂).1 ∧
      Agree (getPtLevel level n i k₁).2 (getPtLevel level n i k₂).2 := by
  have hentry : pteAt k₂ n i = pteAt k₁ n i := (h.entry hinv s).symm
  unfold getPtLevel
  rw [hentry]
  by_cases hvalid : pteValid (pteAt k₁ n i)
  · rw [if_neg (not_not_intro hvalid), if_neg (not_not_intro hvalid)]
    exact ⟨rfl, h⟩
  · rw [if_pos hvalid, if_pos hvalid]
    rcases Kernel.getFreePage_cases hinv.kernel with hfull | ⟨a, ha, hget⟩
    · simp only [hfull, h.full hfull, if_true]
      exact ⟨trivial, h⟩
    · have hne := ha.ne_zero hinv.kernel
      simp only [hget, h.handed_same hget hne, if_neg hne]
      exact ⟨trivial, h.link a (n + 8 * i) (makePte level a 0)⟩

theorem getPte_agree (h : Agree k₁ k₂) (hinv : VmInv k₁ bssEnd ts) (ht : t ∈ ts) (va : Nat) :
    (getPte (some t.root) va k₁).1 = (getPte (some t.root) va k₂).1 ∧
      Agree (getPte (some t.root) va k₁).2 (getPte (some t.root) va k₂).2 := by
  have top : Slot k₁ ts t [] t.root (ptIdx 2 va) := ⟨ht, by simp, rfl, ptIdx_lt 2 va⟩
  obtain ⟨hsame, hagree⟩ := getPtLevel_agree h hinv top 2
  rcases htwo : getPtLevel 2 t.root (ptIdx 2 va) k₁ with ⟨pt, l₁⟩
  rcases htwo' : getPtLevel 2 t.root (ptIdx 2 va) k₂ with ⟨pt', l₂⟩
  rw [htwo, htwo'] at hsame hagree
  obtain ⟨hinv', _, hnode⟩ := getPtLevel_spec hinv top (by simp) htwo
  obtain rfl : pt = pt' := hsame
  simp only [getPte, htwo, htwo']
  cases pt with
  | none => exact ⟨rfl, hagree⟩
  | some c =>
    have middle : Slot l₁ ts t [ptIdx 2 va] c (ptIdx 1 va) :=
      ⟨ht, by simp, hnode c rfl, ptIdx_lt 1 va⟩
    obtain ⟨hsame', hagree'⟩ := getPtLevel_agree hagree hinv' middle 1
    rcases hone : getPtLevel 1 c (ptIdx 1 va) l₁ with ⟨qt, j₁⟩
    rcases hone' : getPtLevel 1 c (ptIdx 1 va) l₂ with ⟨qt', j₂⟩
    rw [hone, hone'] at hsame' hagree'
    obtain rfl : qt = qt' := hsame'
    cases qt with
    | none =>
      simp only [hone, hone']
      exact ⟨trivial, hagree'⟩
    | some n =>
      simp only [hone, hone']
      exact ⟨trivial, hagree'⟩

theorem mapPage_agree (h : Agree k₁ k₂) (hinv : VmInv k₁ bssEnd ts) (ht : t ∈ ts) (va : Nat)
    (flags : BitVec 64) :
    (mapPage (some t.root) va flags k₁).1 = (mapPage (some t.root) va flags k₂).1 ∧
      Agree (mapPage (some t.root) va flags k₁).2 (mapPage (some t.root) va flags k₂).2 := by
  obtain ⟨hsame, hagree⟩ := getPte_agree h hinv ht va
  rcases hwalk : getPte (some t.root) va k₁ with ⟨pte, l₁⟩
  rcases hwalk' : getPte (some t.root) va k₂ with ⟨pte', l₂⟩
  rw [hwalk, hwalk'] at hsame hagree
  obtain ⟨hinv', _, hslot⟩ := getPte_spec hinv ht hwalk
  obtain rfl : pte = pte' := hsame
  simp only [mapPage, hwalk, hwalk']
  cases pte with
  | none => exact ⟨rfl, hagree⟩
  | some e =>
    obtain ⟨n, s, rfl⟩ := hslot e rfl
    have hentry := hagree.entry hinv' s
    simp only [← hentry]
    by_cases hvalid : pteValid (load64 l₁.mem (n + 8 * ptIdx 0 va))
    · rw [if_neg (not_not_intro hvalid), if_neg (not_not_intro hvalid)]
      exact ⟨rfl, hagree⟩
    · rw [if_pos hvalid, if_pos hvalid]
      rcases Kernel.getFreePage_cases hinv'.kernel with hfull | ⟨a, ha, hget⟩
      · simp only [hfull, hagree.full hfull, if_true]
        exact ⟨trivial, hagree⟩
      · have hne := ha.ne_zero hinv'.kernel
        simp only [hget, hagree.handed_same hget hne, if_neg hne]
        exact ⟨trivial, hagree.link a (n + 8 * ptIdx 0 va) (makePte 0 a flags)⟩

end Ops

/-! ## Computations that keep two runs in step -/

section Respects

variable {pt : Option Nat} {va n : Nat} {flags : BitVec 64} {src₁ src₂ : Nat → Byte}

theorem respects_mapPage (pt : Option Nat) (va : Nat) (flags : BitVec 64) :
    Respects pt (mapPage pt va flags) (mapPage pt va flags) := by
  intro k₁ k₂ h
  obtain ⟨bssEnd, ts, hinv, hpt⟩ := h.inv
  cases pt with
  | none => exact ⟨rfl, h⟩
  | some r =>
    obtain ⟨t, ht, rfl⟩ := hpt r rfl
    obtain ⟨hsame, hagree⟩ := mapPage_agree h.agree hinv ht va flags
    exact ⟨hsame, hagree, bssEnd, ts, (mapPage_spec hinv ht rfl).1, hpt⟩

theorem respects_mapAndWrite {off : Nat} (hn : off + n ≤ 4096) (hsrc : ∀ i < n, src₁ i = src₂ i) :
    Respects pt (mapAndWrite pt va flags off src₁ n) (mapAndWrite pt va flags off src₂ n) := by
  intro k₁ k₂ h
  obtain ⟨hsame, htwin⟩ := respects_mapPage pt va flags k₁ k₂ h
  obtain ⟨bssEnd, ts, hinv, hpt⟩ := h.inv
  cases pt with
  | none => exact ⟨rfl, h⟩
  | some r =>
    obtain ⟨t, ht, rfl⟩ := hpt r rfl
    rcases hwrite : mapAndWrite (some t.root) va flags off src₁ n k₁ with ⟨ok, j₁⟩
    have hinv' := (mapAndWrite_spec hinv ht hn hwrite).1
    rcases hmap : mapPage (some t.root) va flags k₁ with ⟨pg, l₁⟩
    rcases hmap' : mapPage (some t.root) va flags k₂ with ⟨pg', l₂⟩
    rw [hmap, hmap'] at hsame htwin
    obtain rfl : pg = pg' := hsame
    cases pg with
    | none =>
      simp only [mapAndWrite, hmap, Prod.mk.injEq] at hwrite
      simp only [mapAndWrite, hmap']
      obtain ⟨rfl, rfl⟩ := hwrite
      exact ⟨rfl, htwin⟩
    | some a =>
      simp only [mapAndWrite, hmap, Prod.mk.injEq] at hwrite
      simp only [mapAndWrite, hmap']
      obtain ⟨rfl, rfl⟩ := hwrite
      exact ⟨rfl, htwin.agree.copyTo (a + off) hsrc, bssEnd, ts, hinv', hpt⟩

theorem respects_done {α : Type} (a : α) : Respects pt (fun k => (a, k)) (fun k => (a, k)) :=
  fun _ _ h => ⟨rfl, h⟩

/-- Sequencing: what runs next may depend on the first result. -/
theorem Respects.bind {α β : Type} {f₁ f₂ : Kernel → α × Kernel} (g₁ g₂ : α → Kernel → β × Kernel)
    (hf : Respects pt f₁ f₂) (hg : ∀ a, Respects pt (g₁ a) (g₂ a)) :
    Respects pt (fun k => g₁ (f₁ k).1 (f₁ k).2) (fun k => g₂ (f₂ k).1 (f₂ k).2) := by
  intro k₁ k₂ h
  obtain ⟨hsame, htwin⟩ := hf k₁ k₂ h
  dsimp only
  rw [← hsame]
  exact hg _ _ _ htwin

/-- The shape of every loop and phase: stop with `bad` at the first failure, else go on. -/
theorem Respects.andThen {α : Type} {b : α} {f₁ f₂ : Kernel → Bool × Kernel}
    {g₁ g₂ : Kernel → α × Kernel} (hf : Respects pt f₁ f₂) (hg : Respects pt g₁ g₂) :
    Respects pt
      (fun k => match f₁ k with | (false, k) => (b, k) | (true, k) => g₁ k)
      (fun k => match f₂ k with | (false, k) => (b, k) | (true, k) => g₂ k) := by
  intro k₁ k₂ h
  obtain ⟨hsame, htwin⟩ := hf k₁ k₂ h
  rcases h₁ : f₁ k₁ with ⟨ok, l₁⟩
  rcases h₂ : f₂ k₂ with ⟨ok', l₂⟩
  rw [h₁, h₂] at hsame htwin
  obtain rfl : ok = ok' := hsame
  simp only [h₁, h₂]
  cases ok with
  | false => exact ⟨rfl, htwin⟩
  | true => exact hg l₁ l₂ htwin

theorem respects_copyPagesFrom (hsrc : ∀ i < n * 4096, src₁ i = src₂ i) :
    Respects pt (copyPagesFrom pt flags va n src₁) (copyPagesFrom pt flags va n src₂) := by
  induction n generalizing va src₁ src₂ with
  | zero => exact respects_done true
  | succ n ih =>
    refine Respects.andThen (respects_mapAndWrite (by decide) fun i hi => hsrc i ?_)
      (ih fun i hi => hsrc (pgSize + i) ?_)
    · simp only [pgSize] at hi
      omega
    · simp only [pgSize]
      omega

theorem respects_mapRange (pt : Option Nat) (flags : BitVec 64) (lo hi : Nat) :
    Respects pt (mapRange pt flags lo hi) (mapRange pt flags lo hi) := by
  unfold mapRange
  induction pageCount lo hi generalizing lo with
  | zero => exact respects_done true
  | succ n ih =>
    intro k₁ k₂ h
    obtain ⟨hsame, htwin⟩ := respects_mapPage pt lo flags k₁ k₂ h
    rcases hmap : mapPage pt lo flags k₁ with ⟨pg, l₁⟩
    rcases hmap' : mapPage pt lo flags k₂ with ⟨pg', l₂⟩
    rw [hmap, hmap'] at hsame htwin
    obtain rfl : pg = pg' := hsame
    cases pg with
    | none =>
      simp only [mapPagesFrom, hmap, hmap']
      exact ⟨trivial, htwin⟩
    | some a =>
      simp only [mapPagesFrom, hmap, hmap']
      exact ih (lo + pgSize) l₁ l₂ htwin

theorem respects_mapAndCopy {len : Nat} (htop : va + len ≤ 2 ^ 39)
    (hsrc : ∀ i < len, src₁ i = src₂ i) :
    Respects pt (mapAndCopy pt va flags src₁ len) (mapAndCopy pt va flags src₂ len) := by
  by_cases hlen : len = 0
  · subst hlen
    exact respects_done 0
  have hchunk := headChunk_le va len
  obtain ⟨hbegin, hend, hcount, hreach⟩ := copy_middle htop
  have hhead : Respects pt (copyHead pt va flags src₁ len) (copyHead pt va flags src₂ len) := by
    unfold copyHead
    split_ifs
    · exact respects_mapAndWrite (headChunk_fits len (by omega)) fun i hi => hsrc i (by omega)
    · exact respects_done true
  have hn : headChunk va len +
      pageCount (pgAlign va) (pgAlignFloor (wrap64 (va + len))) * pgSize ≤ len ∧
      len - (headChunk va len +
        pageCount (pgAlign va) (pgAlignFloor (wrap64 (va + len))) * pgSize) ≤ 4096 := by
    rw [hcount]
    simp only [pgSize]
    omega
  generalize hpages : pageCount (pgAlign va) (pgAlignFloor (wrap64 (va + len))) = n at hn
  have hmid : Respects pt
      (copyPagesFrom pt flags (pgAlign va) n fun i => src₁ (headChunk va len + i))
      (copyPagesFrom pt flags (pgAlign va) n fun i => src₂ (headChunk va len + i)) :=
    respects_copyPagesFrom fun i hi => hsrc _ (by simp only [pgSize] at hn; omega)
  have htail : Respects pt
      (copyTail pt (pgAlignFloor (wrap64 (va + len))) flags
        (fun i => src₁ (headChunk va len + n * pgSize + i)) (len - (headChunk va len + n * pgSize)))
      (copyTail pt (pgAlignFloor (wrap64 (va + len))) flags
        (fun i => src₂ (headChunk va len + n * pgSize + i))
        (len - (headChunk va len + n * pgSize))) := by
    unfold copyTail
    split_ifs
    · exact respects_mapAndWrite (by omega) fun i hi => hsrc _ (by omega)
    · exact respects_done true
  have hall : Respects pt _ _ := Respects.andThen (b := -eOOM) hhead
    (Respects.andThen (b := -eOOM) hmid (Respects.andThen (b := -eOOM) htail (respects_done 0)))
  intro k₁ k₂ h
  simp only [mapAndCopy, if_neg hlen, hpages]
  exact hall k₁ k₂ h

end Respects

end VijosOS
