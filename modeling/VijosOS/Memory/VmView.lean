import VijosOS.Memory.VmInvariant

/-!
# What a page table maps

The user view of a table sends a virtual address to its leaf entry and its byte.
Each elementary step of the page-table code changes the view of one page or none.
-/

namespace VijosOS

open Library

/-- Two addresses of one virtual page of the 39-bit space. -/
def SamePage (x y : Nat) : Prop := x / 4096 % 2 ^ 27 = y / 4096 % 2 ^ 27

instance (x y : Nat) : Decidable (SamePage x y) := inferInstanceAs (Decidable (_ = _))

/-- The leaf entry and the byte a table maps at a virtual address. -/
def userView (m : Mem) (root x : Nat) : Option (BitVec 64 × Byte) :=
  (follow (tableSucc m) root [ptIdx 2 x, ptIdx 1 x]).bind fun n =>
    let e := load64 m (n + 8 * ptIdx 0 x)
    if pteValid e then some (e, m (ptePpn e + x % 4096)) else none

theorem userView_eq_some {m : Mem} {root x : Nat} {e : BitVec 64} {b : Byte} :
    userView m root x = some (e, b) ↔ ∃ n, follow (tableSucc m) root [ptIdx 2 x, ptIdx 1 x] = some n ∧
      load64 m (n + 8 * ptIdx 0 x) = e ∧ pteValid e ∧ m (ptePpn e + x % 4096) = b := by
  simp only [userView, Option.bind_eq_some_iff]
  constructor
  · rintro ⟨n, hn, h⟩
    split at h
    · rename_i hv
      obtain ⟨rfl, rfl⟩ := Prod.mk.inj (Option.some.inj h)
      exact ⟨n, hn, rfl, hv, rfl⟩
    · exact absurd h (by simp)
  · rintro ⟨n, hn, rfl, hv, rfl⟩
    exact ⟨n, hn, if_pos hv⟩

/-- The leaf entry a table holds for a virtual address. -/
def userPte (m : Mem) (root x : Nat) : Option (BitVec 64) := (userView m root x).map Prod.fst

/-- The byte a table maps at a virtual address. -/
def userByte (m : Mem) (root x : Nat) : Option Byte := (userView m root x).map Prod.snd

theorem userPte_eq_some {m : Mem} {root x : Nat} {e : BitVec 64} :
    userPte m root x = some e ↔ ∃ n, follow (tableSucc m) root [ptIdx 2 x, ptIdx 1 x] = some n ∧
      load64 m (n + 8 * ptIdx 0 x) = e ∧ pteValid e := by
  rw [userPte, Option.map_eq_some_iff]
  constructor
  · rintro ⟨⟨e', b⟩, hview, rfl⟩
    obtain ⟨n, hn, hload, hvalid, _⟩ := userView_eq_some.mp hview
    exact ⟨n, hn, hload, hvalid⟩
  · rintro ⟨n, hn, hload, hvalid⟩
    exact ⟨⟨e, _⟩, userView_eq_some.mpr ⟨n, hn, hload, hvalid, rfl⟩, rfl⟩

/-- The page of a leaf entry is the end of the three-step path. -/
theorem follow_of_leaf {m : Mem} {root x n : Nat}
    (hn : follow (tableSucc m) root [ptIdx 2 x, ptIdx 1 x] = some n)
    (hv : pteValid (load64 m (n + 8 * ptIdx 0 x))) :
    follow (tableSucc m) root [ptIdx 2 x, ptIdx 1 x, ptIdx 0 x] =
      some (ptePpn (load64 m (n + 8 * ptIdx 0 x))) := by
  show follow (tableSucc m) root ([ptIdx 2 x, ptIdx 1 x] ++ [ptIdx 0 x]) = _
  exact follow_snoc_eq_some.mpr ⟨n, hn, tableSucc_of_valid (ptIdx_lt 0 x) hv⟩

/-- Two memories with the same tables agree on a view when the entry and the byte agree. -/
theorem userView_congr {m m' : Mem} {root x : Nat}
    (hpath : follow (tableSucc m') root [ptIdx 2 x, ptIdx 1 x] =
      follow (tableSucc m) root [ptIdx 2 x, ptIdx 1 x])
    (hleaf : ∀ n, follow (tableSucc m) root [ptIdx 2 x, ptIdx 1 x] = some n →
      load64 m' (n + 8 * ptIdx 0 x) = load64 m (n + 8 * ptIdx 0 x) ∧
      (pteValid (load64 m (n + 8 * ptIdx 0 x)) →
        m' (ptePpn (load64 m (n + 8 * ptIdx 0 x)) + x % 4096) =
          m (ptePpn (load64 m (n + 8 * ptIdx 0 x)) + x % 4096))) :
    userView m' root x = userView m root x := by
  unfold userView
  rw [hpath]
  cases hn : follow (tableSucc m) root [ptIdx 2 x, ptIdx 1 x] with
  | none => rfl
  | some n =>
    obtain ⟨hload, hbyte⟩ := hleaf n hn
    simp only [Option.bind_some, hload]
    split
    · rename_i hv
      rw [hbyte hv]
    · rfl

/-! ## The bytes of a page -/

theorem userByte_of_follow {m : Mem} {root x b : Nat}
    (h : follow (tableSucc m) root [ptIdx 2 x, ptIdx 1 x, ptIdx 0 x] = some b) :
    userByte m root x = some (m (b + x % 4096)) := by
  obtain ⟨n, hn, hleaf⟩ := (follow_snoc_eq_some (p := [ptIdx 2 x, ptIdx 1 x])).mp h
  have hvalid : pteValid (load64 m (n + 8 * ptIdx 0 x)) := by
    by_contra hinvalid
    rw [tableSucc_of_invalid hinvalid] at hleaf
    cases hleaf
  rw [tableSucc_of_valid (ptIdx_lt 0 x) hvalid, Option.some.injEq] at hleaf
  rw [userByte, userView_eq_some.mpr ⟨n, hn, rfl, hvalid, rfl⟩, Option.map_some, hleaf]

theorem userView_ne_none {m : Mem} {root x : Nat} : userView m root x ≠ none ↔
    ∃ pg, follow (tableSucc m) root [ptIdx 2 x, ptIdx 1 x, ptIdx 0 x] = some pg := by
  constructor
  · intro h
    obtain ⟨⟨e, b⟩, hview⟩ := Option.ne_none_iff_exists'.mp h
    obtain ⟨n, hn, rfl, hvalid, _⟩ := userView_eq_some.mp hview
    exact ⟨_, follow_of_leaf hn hvalid⟩
  · rintro ⟨pg, hpg⟩ hnone
    have hbyte := userByte_of_follow hpg
    rw [userByte, hnone] at hbyte
    cases hbyte

/-- The bytes a table maps at `n` addresses. -/
def userBytes (m : Mem) (root va n : Nat) : List (Option Byte) :=
  (List.range n).map fun i => userByte m root (va + i)

theorem userBytes_add (m : Mem) (root va a b : Nat) :
    userBytes m root va (a + b) = userBytes m root va a ++ userBytes m root (va + a) b := by
  unfold userBytes
  rw [List.range_add, List.map_append, List.map_map]
  congr 1
  apply List.map_congr_left
  intro i _
  rw [Function.comp_apply, Nat.add_assoc]

/-- Bytes inside the page of `va`, read through its mapping and by the program. -/
theorem bytesAt_page {m : Mem} {root va pg off n : Nat}
    (h : follow (tableSucc m) root [ptIdx 2 va, ptIdx 1 va, ptIdx 0 va] = some pg)
    (hfit : off + n ≤ 4096) :
    (bytesAt m (pg + off) n).map some = userBytes m root (va / 4096 * 4096 + off) n := by
  unfold userBytes
  apply List.ext_getElem (by simp)
  intro i hi _
  have hlt : i < n := by simpa using hi
  have hoff : (va / 4096 * 4096 + off + i) % 4096 = off + i := by omega
  obtain ⟨h₂, h₁, h₀⟩ := (ptIdx_page (va / 4096 * 4096 + off + i) va).mpr (by omega)
  rw [List.getElem_map, List.getElem_map, List.getElem_range]
  rw [userByte_of_follow (b := pg) (by rw [h₂, h₁, h₀]; exact h), hoff, ← Nat.add_assoc]
  simp only [bytesAt, List.getElem_ofFn]

section Steps

variable {k : Kernel} {bssEnd : Nat} {ts : List Table} {t : Table} {p : List Nat} {n i a : Nat}
  {pte : BitVec 64}

theorem link_entry (h : VmInv k bssEnd ts) (s : Slot k ts t p n i) (ha : k.Fresh a) {r c j : Nat}
    {q : List Nat} (hr : Roots ts r) (hq : q.length < 3)
    (hc : follow (tableSucc k.mem) r q = some c) (hj : j < 512) (hne : ¬ (c = n ∧ j = i)) :
    load64 (k.link a (n + 8 * i) pte).mem (c + 8 * j) = load64 k.mem (c + 8 * j) := by
  have hmem := h.handed hr (Nat.le_of_lt hq) hc
  have hcaligned := h.kernel.aligned c hmem
  have haligned := ha.aligned
  have hn := s.aligned h
  have hi := s.index
  have hca : c ≠ a := by
    rintro rfl
    exact ha.not_handed h.kernel hmem
  apply load64_congr
  intro o ho
  apply link_mem_old ha
  · omega
  · by_cases hcn : c = n
    · have hji : j ≠ i := fun hji => hne ⟨hcn, hji⟩
      omega
    · omega

theorem link_leaf_byte (h : VmInv k bssEnd ts) (s : Slot k ts t p n i) (ha : k.Fresh a) {r b o : Nat}
    {q : List Nat} (hr : Roots ts r) (hq : q.length = 3)
    (hb : follow (tableSucc k.mem) r q = some b) (ho : o < 4096) :
    (k.link a (n + 8 * i) pte).mem (b + o) = k.mem (b + o) := by
  have hmem := h.handed hr (Nat.le_of_eq hq) hb
  have hbaligned := h.kernel.aligned b hmem
  have haligned := ha.aligned
  have hn := s.aligned h
  have hi := s.index
  have hba : b ≠ a := by
    rintro rfl
    exact ha.not_handed h.kernel hmem
  have hbn : b / 4096 ≠ n / 4096 := by
    apply h.page_ne hr s.root (Nat.le_of_eq hq) (Nat.le_of_lt s.depth) hb s.node
    rintro ⟨_, rfl⟩
    have hdepth := s.depth
    omega
  exact link_mem_old ha (by omega) (by omega)

/-- Paths of other lengths than the new one are the same after a link. -/
theorem link_follow_ne (h : VmInv k bssEnd ts) (s : Slot k ts t p n i) (ha : k.Fresh a)
    (hinvalid : ¬ pteValid (load64 k.mem (n + 8 * i))) (hpte : pteValid pte) (hppn : ptePpn pte = a)
    {r : Nat} {q : List Nat} (hr : Roots ts r) (hq : q.length ≤ 3)
    (hne : ¬ (r = t.root ∧ q = p ++ [i])) :
    follow (tableSucc (k.link a (n + 8 * i) pte).mem) r q = follow (tableSucc k.mem) r q := by
  apply Option.ext
  intro b
  rw [h.follow_link s ha hinvalid hpte hppn hr hq b]
  constructor
  · rintro (hold | ⟨hrt, hqp, _⟩)
    · exact hold
    · exact absurd ⟨hrt, hqp⟩ hne
  · exact Or.inl

/-- Linking an intermediate table shows nothing new. -/
theorem link_table_view (h : VmInv k bssEnd ts) (s : Slot k ts t p n i) (ha : k.Fresh a)
    (hinvalid : ¬ pteValid (load64 k.mem (n + 8 * i))) (hpte : pteValid pte) (hppn : ptePpn pte = a)
    (hdepth : p.length < 2) {r : Nat} (hr : Roots ts r) (x : Nat) :
    userView (k.link a (n + 8 * i) pte).mem r x = userView k.mem r x := by
  by_cases hnew : r = t.root ∧ [ptIdx 2 x, ptIdx 1 x] = p ++ [i]
  · -- the address goes through the new table, which is empty
    obtain ⟨rfl, hpath⟩ := hnew
    have hold : follow (tableSucc k.mem) t.root [ptIdx 2 x, ptIdx 1 x] = none := by
      rw [hpath, follow_snoc, s.node]
      exact tableSucc_of_invalid hinvalid
    have hto : follow (tableSucc (k.link a (n + 8 * i) pte).mem) t.root [ptIdx 2 x, ptIdx 1 x] =
        some a := by
      rw [h.follow_link s ha hinvalid hpte hppn hr (by simp) a]
      exact Or.inr ⟨rfl, hpath, rfl⟩
    have hempty : ¬ pteValid (load64 (k.link a (n + 8 * i) pte).mem (a + 8 * ptIdx 0 x)) := by
      rw [load64_zero]
      · exact not_pteValid_zero
      · intro o ho
        have hidx := ptIdx_lt 0 x
        rw [Nat.add_assoc]
        exact link_mem_new h s ha (by omega)
    simp only [userView, hold, hto, Option.bind_some, Option.bind_none, if_neg hempty]
  · apply userView_congr
    · exact link_follow_ne h s ha hinvalid hpte hppn hr (by simp) hnew
    · intro c hc
      have hcn : c ≠ n := by
        rintro rfl
        obtain ⟨_, rfl⟩ := h.noAlias _ _ _ _ _ hr s.root (by simp) (Nat.le_of_lt s.depth) hc s.node
        simp at hdepth
      refine ⟨link_entry h s ha hr (by simp) hc (ptIdx_lt 0 x) (fun hh => hcn hh.1), ?_⟩
      intro hv
      exact link_leaf_byte h s ha hr rfl (follow_of_leaf hc hv) (Nat.mod_lt _ (by decide))

/-- Linking a fresh page into a leaf entry shows one new zero page. -/
theorem link_leaf_view {va : Nat} (h : VmInv k bssEnd ts)
    (s : Slot k ts t [ptIdx 2 va, ptIdx 1 va] n (ptIdx 0 va)) (ha : k.Fresh a)
    (hinvalid : ¬ pteValid (load64 k.mem (n + 8 * ptIdx 0 va))) (hpte : pteValid pte)
    (hppn : ptePpn pte = a) {r : Nat} (hr : Roots ts r) (x : Nat) :
    userView (k.link a (n + 8 * ptIdx 0 va) pte).mem r x =
      if r = t.root ∧ SamePage x va then some (pte, 0) else userView k.mem r x := by
  have hfollow : follow (tableSucc (k.link a (n + 8 * ptIdx 0 va) pte).mem) r
      [ptIdx 2 x, ptIdx 1 x] = follow (tableSucc k.mem) r [ptIdx 2 x, ptIdx 1 x] := by
    apply link_follow_ne h s ha hinvalid hpte hppn hr (by simp)
    rintro ⟨_, hpath⟩
    have hlength := congrArg List.length hpath
    simp at hlength
  by_cases hx : r = t.root ∧ SamePage x va
  · obtain ⟨rfl, hpage⟩ := hx
    obtain ⟨h2, h1, h0⟩ := (ptIdx_page x va).mpr hpage
    have hload : load64 (k.link a (n + 8 * ptIdx 0 va) pte).mem (n + 8 * ptIdx 0 x) = pte := by
      rw [h0]
      exact load64_store64 _ _ _
    have hzero : (k.link a (n + 8 * ptIdx 0 va) pte).mem (a + x % 4096) = 0 :=
      link_mem_new h s ha (Nat.mod_lt _ (by decide))
    rw [if_pos ⟨rfl, hpage⟩, userView_eq_some]
    refine ⟨n, ?_, hload, hpte, ?_⟩
    · rw [hfollow, h2, h1]
      exact s.node
    · rw [hppn, hzero]
  · rw [if_neg hx]
    apply userView_congr hfollow
    intro c hc
    constructor
    · apply link_entry h s ha hr (by simp) hc (ptIdx_lt 0 x)
      rintro ⟨rfl, h0⟩
      obtain ⟨rfl, hpath⟩ := h.noAlias _ _ _ _ _ hr s.root (by simp) (by simp) hc s.node
      simp only [List.cons.injEq, and_true] at hpath
      exact hx ⟨rfl, (ptIdx_page x va).mp ⟨hpath.1, hpath.2, h0⟩⟩
    · intro hv
      exact link_leaf_byte h s ha hr rfl (follow_of_leaf hc hv) (Nat.mod_lt _ (by decide))

end Steps

section Writes

variable {k : Kernel} {bssEnd : Nat} {ts : List Table} {t : Table}

/-- What a view shows at `x` after `n` bytes of `src` were written from offset `off` of the page. -/
def overwritten (off : Nat) (src : Nat → Byte) (n x : Nat) (v : BitVec 64 × Byte) :
    BitVec 64 × Byte :=
  (v.1, if off ≤ x % 4096 ∧ x % 4096 < off + n then src (x % 4096 - off) else v.2)

/-- Writing inside the page mapped at `va` changes the view of that page only. -/
theorem write_leaf_view (h : VmInv k bssEnd ts) (ht : t ∈ ts) {va pg off n : Nat} (src : Nat → Byte)
    (hleaf : follow (tableSucc k.mem) t.root [ptIdx 2 va, ptIdx 1 va, ptIdx 0 va] = some pg)
    (hn : off + n ≤ 4096) {r : Nat} (hr : Roots ts r) (x : Nat) :
    userView (copyTo k.mem (pg + off) n src) r x =
      if r = t.root ∧ SamePage x va then (userView k.mem r x).map (overwritten off src n x)
      else userView k.mem r x := by
  have hroot : Roots ts t.root := ⟨t, ht, rfl⟩
  have hpg := h.kernel.aligned pg (h.handed hroot (by simp) hleaf)
  have hout : ∀ y, y / 4096 ≠ pg / 4096 → copyTo k.mem (pg + off) n src y = k.mem y :=
    fun y hy => copyTo_outside _ _ _ _ (by omega)
  have htables := h.leaf_tables hroot rfl hleaf hout
  have hfollow : follow (tableSucc (copyTo k.mem (pg + off) n src)) r [ptIdx 2 x, ptIdx 1 x] =
      follow (tableSucc k.mem) r [ptIdx 2 x, ptIdx 1 x] :=
    follow_of_agree (d := 3) hr (by simp) htables
  have hload : ∀ c, follow (tableSucc k.mem) r [ptIdx 2 x, ptIdx 1 x] = some c →
      load64 (copyTo k.mem (pg + off) n src) (c + 8 * ptIdx 0 x) =
        load64 k.mem (c + 8 * ptIdx 0 x) := by
    intro c hc
    have hne := h.page_ne hr hroot (by simp) (by simp) hc hleaf (by simp)
    have haligned := h.kernel.aligned c (h.handed hr (by simp) hc)
    have hidx := ptIdx_lt 0 x
    exact load64_congr fun o ho => hout _ (by omega)
  by_cases hx : r = t.root ∧ SamePage x va
  · obtain ⟨rfl, hpage⟩ := hx
    obtain ⟨h2, h1, h0⟩ := (ptIdx_page x va).mpr hpage
    rw [if_pos ⟨rfl, hpage⟩]
    unfold userView
    rw [hfollow]
    cases hc : follow (tableSucc k.mem) t.root [ptIdx 2 x, ptIdx 1 x] with
    | none => rfl
    | some c =>
      simp only [Option.bind_some, hload c hc]
      by_cases hv : pteValid (load64 k.mem (c + 8 * ptIdx 0 x))
      · have hppn : ptePpn (load64 k.mem (c + 8 * ptIdx 0 x)) = pg := by
          have hsome := follow_of_leaf hc hv
          rw [h2, h1, h0, hleaf] at hsome
          rw [h0]
          exact (Option.some.inj hsome).symm
        rw [if_pos hv, if_pos hv, hppn]
        simp only [Option.map_some, overwritten, Option.some.injEq, Prod.mk.injEq, true_and]
        split_ifs with hin
        · rw [copyTo_inside _ _ _ _ (by omega)]
          congr 1
          omega
        · exact copyTo_outside _ _ _ _ (by omega)
      · rw [if_neg hv, if_neg hv]
        rfl
  · rw [if_neg hx]
    apply userView_congr hfollow
    intro c hc
    refine ⟨hload c hc, fun hv => hout _ ?_⟩
    have hend := follow_of_leaf hc hv
    have haligned := h.kernel.aligned _ (h.handed hr (by simp) hend)
    have hne : ptePpn (load64 k.mem (c + 8 * ptIdx 0 x)) / 4096 ≠ pg / 4096 := by
      apply h.page_ne hr hroot (by simp) (by simp) hend hleaf
      rintro ⟨rfl, hpath⟩
      simp only [List.cons.injEq, and_true] at hpath
      exact hx ⟨rfl, (ptIdx_page x va).mp hpath⟩
    omega

end Writes

end VijosOS
