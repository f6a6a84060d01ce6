import VijosOS.Memory.Vm

/-!
# The page-table invariant

The tables of any number of page tables form one forest without aliasing whose
pages were all handed out since their table was created. Every operation is built
from three steps: linking a fresh zeroed page, writing inside a leaf page, and
setting flag bits of a valid leaf entry.
-/

namespace VijosOS

open Library

/-- A created page table, with the length of the allocation history before it. -/
structure Table where
  root : Nat
  birth : Nat

def Roots (ts : List Table) (r : Nat) : Prop := ∃ t ∈ ts, t.root = r

/-- A page the allocator may hand out next. -/
structure Kernel.Fresh (k : Kernel) (a : Nat) : Prop where
  aligned : a % 4096 = 0
  above : availableStart k.mm ≤ a
  below : a < k.mm.mmbm.size * 4096
  free : bitAt k.mm.mmbm.bits (a / 4096) = false

/-- Every page handed out is a marked page of the region, above the metadata. -/
structure Kernel.Inv (k : Kernel) (bssEnd : Nat) : Prop where
  mm : k.mm.Inv bssEnd
  aligned : ∀ a ∈ k.handed, a % 4096 = 0
  above : ∀ a ∈ k.handed, availableStart k.mm ≤ a
  below : ∀ a ∈ k.handed, a < k.mm.mmbm.size * 4096
  inUse : ∀ a ∈ k.handed, bitAt k.mm.mmbm.bits (a / 4096) = true

structure VmInv (k : Kernel) (bssEnd : Nat) (ts : List Table) : Prop where
  kernel : k.Inv bssEnd
  noAlias : NoAlias (tableSucc k.mem) (Roots ts) 3
  birth : ∀ t ∈ ts, t.birth ≤ k.handed.length
  owned : ∀ t ∈ ts, ∀ p a, p.length ≤ 3 → follow (tableSucc k.mem) t.root p = some a →
    a ∈ k.handed.drop t.birth

/-- The kernel after page `a` was handed out. -/
def Kernel.hand (k : Kernel) (a : Nat) : Kernel :=
  { k with
    mm := { k.mm with mmbm := k.mm.mmbm.mark (a / 4096) }
    handed := k.handed ++ [a] }

/-- The kernel after a fresh page was zeroed and stored in the entry at `entry`. -/
def Kernel.link (k : Kernel) (a entry : Nat) (pte : BitVec 64) : Kernel :=
  { k.hand a with mem := store64 (zeroPage k.mem a) entry pte }

theorem Kernel.Fresh.ne_zero {k : Kernel} {bssEnd a : Nat} (h : k.Fresh a) (hk : k.Inv bssEnd) :
    a ≠ 0 := by
  have hpos := hk.mm.placed.pos
  have habove := h.above
  omega

theorem Kernel.Fresh.not_handed {k : Kernel} {bssEnd a : Nat} (h : k.Fresh a)
    (hk : k.Inv bssEnd) : a ∉ k.handed := by
  intro hmem
  have hused := hk.inUse a hmem
  rw [h.free] at hused
  exact Bool.noConfusion hused

/-- The allocator either fails and changes nothing, or hands out a fresh page. -/
theorem Kernel.getFreePage_cases {k : Kernel} {bssEnd : Nat} (h : k.Inv bssEnd) :
    k.getFreePage = (0, k) ∨ ∃ a, k.Fresh a ∧ k.getFreePage = (a, k.hand a) := by
  by_cases hz : (VijosOS.getFreePage k.mm).1 = 0
  · refine Or.inl ?_
    rcases getFreePage_spec h.mm.counted with ⟨heq, _⟩ | ⟨pg, hpg, hfree, heq⟩
    · simp only [Kernel.getFreePage, heq, if_true]
    · have hall := (getFreePage_eq_zero h.mm).mp hz pg hpg
      rw [hall] at hfree
      exact Bool.noConfusion hfree
  · obtain ⟨pg, hpg, hfree, habove, heq⟩ := getFreePage_page h.mm hz
    have hdiv : pg * 4096 / 4096 = pg := Nat.mul_div_cancel pg (by decide)
    refine Or.inr ⟨pg * 4096, ⟨by omega, habove, by omega, by rw [hdiv]; exact hfree⟩, ?_⟩
    rw [heq] at hz
    simp only [Kernel.getFreePage, heq, Kernel.hand, hdiv, if_neg hz]

theorem Kernel.Inv.hand {k : Kernel} {bssEnd a : Nat} (h : k.Inv bssEnd) (ha : k.Fresh a) :
    (k.hand a).Inv bssEnd := by
  have hlt : a / 4096 < k.mm.mmbm.size := by
    have hbelow := ha.below
    omega
  have hmem : ∀ b ∈ (k.hand a).handed, b ∈ k.handed ∨ b = a := by
    intro b hb
    simpa [Kernel.hand] using hb
  refine ⟨h.mm.mark hlt ha.free, ?_, ?_, ?_, ?_⟩
  · intro b hb
    rcases hmem b hb with hold | rfl
    · exact h.aligned b hold
    · exact ha.aligned
  · intro b hb
    rcases hmem b hb with hold | rfl
    · exact h.above b hold
    · exact ha.above
  · intro b hb
    rcases hmem b hb with hold | rfl
    · exact h.below b hold
    · exact ha.below
  · intro b hb
    show bitAt (k.mm.mmbm.mark (a / 4096)).bits (b / 4096) = true
    rw [MmBitmap.mark_bitAt]
    rcases hmem b hb with hold | rfl
    · rw [h.inUse b hold, Bool.or_true]
    · simp

theorem Kernel.Inv.withMem {k : Kernel} {bssEnd : Nat} (h : k.Inv bssEnd) (m : Mem) :
    ({ k with mem := m } : Kernel).Inv bssEnd :=
  ⟨h.mm, h.aligned, h.above, h.below, h.inUse⟩

/-- Before any table exists. -/
theorem VmInv.start {mm : Mm} {bssEnd : Nat} (h : mm.Inv bssEnd) (mem : Mem) :
    VmInv ⟨mm, mem, []⟩ bssEnd [] := by
  refine ⟨⟨h, ?_, ?_, ?_, ?_⟩, ?_, ?_, ?_⟩
  all_goals simp [NoAlias, Roots]

/-! ## Reached pages -/

section Reached

variable {k : Kernel} {bssEnd : Nat} {ts : List Table}

theorem VmInv.handed (h : VmInv k bssEnd ts) {r a : Nat} {p : List Nat} (hr : Roots ts r)
    (hp : p.length ≤ 3) (ha : follow (tableSucc k.mem) r p = some a) : a ∈ k.handed := by
  obtain ⟨t, ht, rfl⟩ := hr
  exact List.mem_of_mem_drop (h.owned t ht p a hp ha)

theorem VmInv.not_reached (h : VmInv k bssEnd ts) {a : Nat} (ha : k.Fresh a) :
    ¬ Reached (tableSucc k.mem) (Roots ts) 3 a := by
  rintro ⟨r, p, hr, hp, hra⟩
  exact ha.not_handed h.kernel (h.handed hr hp hra)

/-- Two different reached pages have no byte in common. -/
theorem VmInv.page_ne (h : VmInv k bssEnd ts) {r s a b : Nat} {p q : List Nat} (hr : Roots ts r)
    (hs : Roots ts s) (hp : p.length ≤ 3) (hq : q.length ≤ 3)
    (ha : follow (tableSucc k.mem) r p = some a) (hb : follow (tableSucc k.mem) s q = some b)
    (hpq : ¬ (r = s ∧ p = q)) : a / 4096 ≠ b / 4096 := by
  intro heq
  have haligned := h.kernel.aligned a (h.handed hr hp ha)
  have haligned' := h.kernel.aligned b (h.handed hs hq hb)
  have hab : a = b := by omega
  exact hpq (h.noAlias r s p q a hr hs hp hq ha (hab ▸ hb))

end Reached

theorem VmInv.same_tables {k : Kernel} {bssEnd : Nat} {ts : List Table} (h : VmInv k bssEnd ts)
    (m : Mem) (hsame : ∀ r p n, Roots ts r → p.length < 3 →
      follow (tableSucc k.mem) r p = some n → tableSucc m n = tableSucc k.mem n) :
    VmInv { k with mem := m } bssEnd ts := by
  refine ⟨h.kernel.withMem m, h.noAlias.agree hsame, h.birth, ?_⟩
  intro t ht p a hp ha
  rw [follow_of_agree (h := hsame) ⟨t, ht, rfl⟩ hp] at ha
  exact h.owned t ht p a hp ha

/-! ## Linking a page -/

/-- An entry of a table of `t`: index `i` of the table `n` at the end of path `p`. -/
structure Slot (k : Kernel) (ts : List Table) (t : Table) (p : List Nat) (n i : Nat) : Prop where
  mem : t ∈ ts
  depth : p.length < 3
  node : follow (tableSucc k.mem) t.root p = some n
  index : i < 512

theorem Slot.root {k : Kernel} {ts : List Table} {t : Table} {p : List Nat} {n i : Nat}
    (s : Slot k ts t p n i) : Roots ts t.root := ⟨t, s.mem, rfl⟩

section Link

variable {k : Kernel} {bssEnd : Nat} {ts : List Table} {t : Table} {p : List Nat} {n i a : Nat}
  {pte : BitVec 64}

theorem Slot.page_ne (s : Slot k ts t p n i) (h : VmInv k bssEnd ts) (ha : k.Fresh a) :
    n / 4096 ≠ a / 4096 := by
  intro heq
  have hn := h.handed s.root (Nat.le_of_lt s.depth) s.node
  have haligned := h.kernel.aligned n hn
  have haligned' := ha.aligned
  have hna : n = a := by omega
  exact ha.not_handed h.kernel (hna ▸ hn)

theorem Slot.aligned (s : Slot k ts t p n i) (h : VmInv k bssEnd ts) : n % 4096 = 0 :=
  h.kernel.aligned n (h.handed s.root (Nat.le_of_lt s.depth) s.node)

/-- The fresh page is zero after the link: the entry lies in another page. -/
theorem link_mem_new (h : VmInv k bssEnd ts) (s : Slot k ts t p n i) (ha : k.Fresh a) {o : Nat}
    (ho : o < 4096) : (k.link a (n + 8 * i) pte).mem (a + o) = 0 := by
  have hne := s.page_ne h ha
  have hn := s.aligned h
  have hi := s.index
  have haligned := ha.aligned
  show store64 (zeroPage k.mem a) (n + 8 * i) pte (a + o) = 0
  rw [store64_outside _ _ _ (by omega), zeroPage_add _ _ ho]

theorem link_mem_old {x : Nat} (ha : k.Fresh a) (hx : x / 4096 ≠ a / 4096)
    (hentry : ¬ (n + 8 * i ≤ x ∧ x < n + 8 * i + 8)) :
    (k.link a (n + 8 * i) pte).mem x = k.mem x := by
  have haligned := ha.aligned
  show store64 (zeroPage k.mem a) (n + 8 * i) pte x = k.mem x
  rw [store64_outside _ _ _ hentry, zeroPage_outside _ _ (by omega)]

theorem link_succ_new (h : VmInv k bssEnd ts) (s : Slot k ts t p n i) (ha : k.Fresh a) (j : Nat) :
    tableSucc (k.link a (n + 8 * i) pte).mem a j = none :=
  tableSucc_zero (fun _ ho => link_mem_new h s ha ho) j

theorem link_succ_self (s : Slot k ts t p n i) (hpte : pteValid pte) :
    tableSucc (k.link a (n + 8 * i) pte).mem n i = some (ptePpn pte) :=
  tableSucc_store_self s.index hpte

theorem link_succ_ne (h : VmInv k bssEnd ts) (s : Slot k ts t p n i) (ha : k.Fresh a) {j : Nat}
    (hij : j ≠ i) : tableSucc (k.link a (n + 8 * i) pte).mem n j = tableSucc k.mem n j := by
  have hne := s.page_ne h ha
  have hn := s.aligned h
  have haligned := ha.aligned
  have hzero : tableSucc (zeroPage k.mem a) n = tableSucc k.mem n := by
    apply tableSucc_congr
    intro o ho
    rw [zeroPage_outside _ _ (by omega)]
  show tableSucc (store64 (zeroPage k.mem a) (n + 8 * i) pte) n j = tableSucc k.mem n j
  rw [tableSucc_store_ne _ hij, hzero]

theorem link_succ_other (h : VmInv k bssEnd ts) (s : Slot k ts t p n i) (ha : k.Fresh a) {c : Nat}
    (hc : c % 4096 = 0) (hcn : c ≠ n) (hca : c ≠ a) :
    tableSucc (k.link a (n + 8 * i) pte).mem c = tableSucc k.mem c := by
  have hn := s.aligned h
  have hi := s.index
  have haligned := ha.aligned
  apply tableSucc_congr
  intro o ho
  exact link_mem_old ha (by omega) (by omega)

/-- Linking a fresh page into an invalid entry adds exactly one path. -/
theorem VmInv.follow_link (h : VmInv k bssEnd ts) (s : Slot k ts t p n i) (ha : k.Fresh a)
    (hinvalid : ¬ pteValid (load64 k.mem (n + 8 * i))) (hpte : pteValid pte) (hppn : ptePpn pte = a)
    {r : Nat} {q : List Nat} (hr : Roots ts r) (hq : q.length ≤ 3) (b : Nat) :
    follow (tableSucc (k.link a (n + 8 * i) pte).mem) r q = some b ↔
      follow (tableSucc k.mem) r q = some b ∨ r = t.root ∧ q = p ++ [i] ∧ b = a := by
  refine Library.follow_link h.noAlias s.root s.depth s.node (tableSucc_of_invalid hinvalid)
    (h.not_reached ha) ?_ ?_ ?_ ?_ hr hq b
  · rw [link_succ_self s hpte, hppn]
  · exact fun j hj => link_succ_ne h s ha hj
  · exact fun _ j => link_succ_new h s ha j
  · intro r' q' c hr' hq' hc hcn
    have hmem := h.handed hr' (Nat.le_of_lt hq') hc
    refine link_succ_other h s ha (h.kernel.aligned c hmem) hcn ?_
    rintro rfl
    exact ha.not_handed h.kernel hmem

theorem VmInv.link (h : VmInv k bssEnd ts) (s : Slot k ts t p n i) (ha : k.Fresh a)
    (hinvalid : ¬ pteValid (load64 k.mem (n + 8 * i))) (hpte : pteValid pte) (hppn : ptePpn pte = a) :
    VmInv (k.link a (n + 8 * i) pte) bssEnd ts := by
  have hlink := fun (r : Nat) (q : List Nat) (b : Nat) (hr : Roots ts r) (hq : q.length ≤ 3) =>
    h.follow_link s ha hinvalid hpte hppn hr hq b
  refine ⟨(h.kernel.hand ha).withMem _, h.noAlias.link (h.not_reached ha) hlink, ?_, ?_⟩
  · intro t' ht'
    have hbirth := h.birth t' ht'
    simp only [Kernel.link, Kernel.hand, List.length_append]
    omega
  · intro t' ht' q b hq hb
    have hdrop : (k.link a (n + 8 * i) pte).handed.drop t'.birth = k.handed.drop t'.birth ++ [a] :=
      List.drop_append_of_le_length (h.birth t' ht')
    rw [hdrop]
    rcases (hlink t'.root q b ⟨t', ht', rfl⟩ hq).mp hb with hold | ⟨_, _, rfl⟩
    · exact List.mem_append_left _ (h.owned t' ht' q b hq hold)
    · exact List.mem_append_right _ (List.mem_singleton.mpr rfl)

end Link

/-! ## Writing a leaf page and updating a leaf entry -/

section Write

variable {k : Kernel} {bssEnd : Nat} {ts : List Table}

/-- A change of memory confined to one leaf page leaves every table as it was. -/
theorem VmInv.leaf_tables (h : VmInv k bssEnd ts) {s a : Nat} {q : List Nat} (hs : Roots ts s)
    (hq : q.length = 3) (ha : follow (tableSucc k.mem) s q = some a) {m : Mem}
    (hm : ∀ x, x / 4096 ≠ a / 4096 → m x = k.mem x) :
    ∀ r p n, Roots ts r → p.length < 3 → follow (tableSucc k.mem) r p = some n →
      tableSucc m n = tableSucc k.mem n := by
  intro r p n hr hp hn
  have hne : n / 4096 ≠ a / 4096 := by
    apply h.page_ne hr hs (Nat.le_of_lt hp) (Nat.le_of_eq hq) hn ha
    rintro ⟨_, rfl⟩
    omega
  have haligned := h.kernel.aligned n (h.handed hr (Nat.le_of_lt hp) hn)
  apply tableSucc_congr
  intro o ho
  exact hm _ (by omega)

/-- Setting flag bits of a valid entry leaves every table's children as they were. -/
theorem VmInv.or_tables (h : VmInv k bssEnd ts) {t : Table} {q : List Nat} {n i : Nat}
    (s : Slot k ts t q n i) (hvalid : pteValid (load64 k.mem (n + 8 * i))) {ad : BitVec 64}
    (had : ad >>> 8 = 0) :
    ∀ r p c, Roots ts r → p.length < 3 → follow (tableSucc k.mem) r p = some c →
      tableSucc (store64 k.mem (n + 8 * i) (load64 k.mem (n + 8 * i) ||| ad)) c =
        tableSucc k.mem c := by
  intro r p c hr hp hc
  have hi := s.index
  have hn := s.aligned h
  have hcaligned := h.kernel.aligned c (h.handed hr (Nat.le_of_lt hp) hc)
  by_cases hcn : c = n
  · subst hcn
    funext j
    by_cases hji : j = i
    · subst hji
      rw [tableSucc_store_self hi ((pteValid_or _ _).mpr (Or.inl hvalid)), ptePpn_or _ _ had,
        tableSucc_of_valid hi hvalid]
    · rw [tableSucc_store_ne _ hji]
  · apply tableSucc_congr
    intro o ho
    exact store64_outside _ _ _ (by omega)

end Write

end VijosOS
