import VijosOS.Judge.FaultProgress
import VijosOS.Memory.Isolation

/-!
# What a running program can change

While a job is in user mode its program accesses memory through the page table, and traps end in
`trap_handler`. Whatever the program does, it gains no page and no permission, and outside the pages
it may write only the A and D bits of its own entries change.
-/

namespace VijosOS

open Library

instance (pte : BitVec 64) (acc : Access) : Decidable (LeafPermits pte acc) :=
  decidable_of_iff (pte &&& pteU ≠ 0 ∧ pte &&& acc.permission ≠ 0 ∧ pte &&& pteA ≠ 0 ∧
      (acc.cause = causePfStore → pte &&& pteD ≠ 0)) <| by
    have hstore : acc.cause = causePfStore ↔ acc = .store := by
      cases acc with
      | fetch => exact ⟨fun h => absurd h (by decide), nofun⟩
      | load => exact ⟨fun h => absurd h (by decide), nofun⟩
      | store => exact ⟨fun _ => rfl, fun _ => rfl⟩
    rw [hstore]
    exact ⟨fun ⟨hu, hp, ha, hd⟩ => ⟨hu, hp, ha, hd⟩, fun h => ⟨h.user, h.permission, h.accessed, h.dirty⟩⟩

/-! ## The user program -/

/-- What happens in user mode: an access, with the byte of a store, or a trap. -/
inductive UserAction where
  | access (acc : Access) (va : BitVec 64) (b : Byte)
  | trap (cycle : BitVec 64) (tf : TrapFrame)

/-- The physical address of `va` in the page of a leaf entry. -/
def sv39Paddr (pte va : BitVec 64) : Nat := sv39Ppn pte * 4096 + va.toNat % 4096

/-- Memory after an access, unless it faults. -/
def sv39Access (m : Mem) (satp : BitVec 64) (acc : Access) (va : BitVec 64) (b : Byte) : Option Mem :=
  (sv39Leaf m va 3 (sv39Root satp)).bind fun pte =>
    if Canonical va ∧ LeafPermits pte acc then
      match acc with
      | .store => some (writeBytes m (sv39Paddr pte va) [b])
      | _ => some m
    else none

def actionStep (satp : BitVec 64) (s : TrapState) : UserAction → Option TrapState
  | .access acc va b => (sv39Access s.kernel.mem satp acc va b).map fun m =>
      { s with kernel := { s.kernel with mem := m } }
  | .trap cycle tf =>
    match trapHandler satp cycle tf s with
    | (.resume _, s) => some s
    | _ => none

/-! ## What may change -/

/-- All bits of an entry but A and D. -/
def fixedBits : BitVec 64 := ~~~(pteA ||| pteD)

/-- The byte of a user address whose page the program may write. -/
def UserWritable (k : Kernel) (root x : Nat) : Prop :=
  ∃ va e, userPte k.mem root va = some e ∧ e &&& pteU ≠ 0 ∧ e &&& pteW ≠ 0 ∧ x = ptePpn e + va % 4096

/-- The byte of a leaf entry that holds its A and D bits. -/
def AdByte (k : Kernel) (root x : Nat) : Prop :=
  ∃ va n, follow (tableSucc k.mem) root [ptIdx 2 va, ptIdx 1 va] = some n ∧ x = n + 8 * ptIdx 0 va

/-- A byte of the root or of another table below it. -/
def OwnTable (k : Kernel) (root x : Nat) : Prop :=
  ∃ p n, p.length < 3 ∧ follow (tableSucc k.mem) root p = some n ∧ x / 4096 = n / 4096

/-- Both tables bind the same pages with the same permissions. -/
def SameEntries (k k' : Kernel) (root : Nat) : Prop :=
  ∀ va, (userPte k'.mem root va).map (· &&& fixedBits) = (userPte k.mem root va).map (· &&& fixedBits)

/-- A state of user mode against the one it was entered in. -/
structure Running (root : Nat) (k k' : Kernel) : Prop where
  mm : k'.mm = k.mm
  handed : k'.handed = k.handed
  tree : ∀ p : List Nat, p.length ≤ 3 → follow (tableSucc k'.mem) root p = follow (tableSucc k.mem) root p
  entries : SameEntries k k' root
  changed : ∀ x, k'.mem x ≠ k.mem x →
    UserWritable k root x ∨ AdByte k root x ∧ k'.mem x &&& 0x3f = k.mem x &&& 0x3f

/-- The allocator after it has handed out the pages, one after the other. -/
def Mm.markAll (mm : Mm) (ps : List Nat) : Mm :=
  { mm with mmbm := ps.foldl (fun b a => b.mark (a / 4096)) mm.mmbm }

/-- The pages were free, and are tables below the root. -/
def NewTables (root : Nat) (k k' : Kernel) (ps : List Nat) : Prop :=
  ∀ a ∈ ps, k.Fresh a ∧ ∃ q : List Nat, 0 < q.length ∧ q.length < 3 ∧ follow (tableSucc k'.mem) root q = some a

/-- The state a trap leaves, the last one too, against the one user mode was entered in: the allocator
has handed out the pages `ps` and nothing else, and they are tables of the program. -/
structure Confined (root : Nat) (k k' : Kernel) (ps : List Nat) : Prop where
  mm : k'.mm = k.mm.markAll ps
  handed : k'.handed = k.handed ++ ps
  tables : NewTables root k k' ps
  entries : SameEntries k k' root
  changed : ∀ x, k'.mem x ≠ k.mem x →
    UserWritable k root x ∨ OwnTable k root x ∨ x / 4096 * 4096 ∈ ps
  low : ∀ x < availableStart k.mm, k'.mem x = k.mem x

/-! ## Entries without A and D -/

theorem and_fixedBits {e e' bit : BitVec 64} (h : e &&& fixedBits = e' &&& fixedBits)
    (hbit : fixedBits &&& bit = bit) : e &&& bit = e' &&& bit := by
  rw [← hbit, ← BitVec.and_assoc, h, BitVec.and_assoc]

theorem ptePpn_fixed {e e' : BitVec 64} (h : e &&& fixedBits = e' &&& fixedBits) : ptePpn e = ptePpn e' := by
  have hhigh : e >>> 10 = e' >>> 10 := by
    have hall : fixedBits >>> 10 = BitVec.allOnes 64 >>> 10 := by decide
    have hshift := congrArg (fun v : BitVec 64 => v >>> 10) h
    simp only [BitVec.ushiftRight_and_distrib, hall] at hshift
    rwa [← BitVec.ushiftRight_and_distrib, ← BitVec.ushiftRight_and_distrib, BitVec.and_allOnes,
      BitVec.and_allOnes] at hshift
  rw [ptePpn, ptePpn, ptePpnShift, hhigh]

theorem pteValid_fixed {e e' : BitVec 64} (h : e &&& fixedBits = e' &&& fixedBits) :
    pteValid e ↔ pteValid e' := by
  rw [pteValid, pteValid, and_fixedBits h (by decide)]

theorem or_faultAd_fixed (e cause : BitVec 64) : (e ||| faultAd cause) &&& fixedBits = e &&& fixedBits := by
  have hnone : faultAd cause &&& fixedBits = 0 := by
    unfold faultAd
    split_ifs <;> decide
  rw [BitVec.and_or_distrib_right, hnone]
  exact BitVec.or_zero

/-- Two memories with the same path to an address, whose entries agree but for A and D. -/
theorem userPte_fixed {m m' : Mem} {root x : Nat}
    (hpath : follow (tableSucc m') root [ptIdx 2 x, ptIdx 1 x] =
      follow (tableSucc m) root [ptIdx 2 x, ptIdx 1 x])
    (hentry : ∀ n, follow (tableSucc m) root [ptIdx 2 x, ptIdx 1 x] = some n →
      load64 m' (n + 8 * ptIdx 0 x) &&& fixedBits = load64 m (n + 8 * ptIdx 0 x) &&& fixedBits) :
    (userPte m' root x).map (· &&& fixedBits) = (userPte m root x).map (· &&& fixedBits) := by
  have hle : ∀ {a b : Mem}, follow (tableSucc a) root [ptIdx 2 x, ptIdx 1 x] =
      follow (tableSucc b) root [ptIdx 2 x, ptIdx 1 x] →
      (∀ n, follow (tableSucc b) root [ptIdx 2 x, ptIdx 1 x] = some n →
        load64 a (n + 8 * ptIdx 0 x) &&& fixedBits = load64 b (n + 8 * ptIdx 0 x) &&& fixedBits) →
      ∀ e, userPte b root x = some e → (userPte a root x).map (· &&& fixedBits) = some (e &&& fixedBits) := by
    intro a b hsame hload e he
    obtain ⟨n, hn, rfl, hvalid⟩ := userPte_eq_some.mp he
    have hsome : userPte a root x = some (load64 a (n + 8 * ptIdx 0 x)) :=
      userPte_eq_some.mpr ⟨n, hsame.trans hn, rfl, (pteValid_fixed (hload n hn)).mpr hvalid⟩
    rw [hsome, Option.map_some, hload n hn]
  cases he : userPte m root x with
  | some e => exact hle hpath hentry e he
  | none =>
    cases he' : userPte m' root x with
    | none => rfl
    | some e' =>
      have hback := hle hpath.symm (fun n hn => (hentry n (hpath ▸ hn)).symm) e' he'
      rw [he] at hback
      cases hback

/-- Setting A and D leaves every byte but the first of the entry as it was. -/
theorem store64_ad (m : Mem) (a : Nat) (cause : BitVec 64) (x : Nat) :
    store64 m a (load64 m a ||| faultAd cause) x = m x ∨
      x = a ∧ store64 m a (load64 m a ||| faultAd cause) x &&& 0x3f = m x &&& 0x3f := by
  have hbytes : bytesAt m a 8 = m a :: bytesAt m (a + 1) 7 := by
    rw [bytesAt_add m a 1 7]
    simp [bytesAt]
  have hsum : (load64 m a ||| faultAd cause).toNat =
      leNat ((m a ||| (faultAd cause).setWidth 8) :: bytesAt m (a + 1) 7) := by
    have hlow : (faultAd cause).toNat = ((faultAd cause).setWidth 8).toNat := by
      unfold faultAd
      split_ifs <;> rfl
    have hword : (load64 m a).toNat = 2 ^ 8 * leNat (bytesAt m (a + 1) 7) ||| (m a).toNat := by
      have hlt := leNat_lt (bytesAt m a 8)
      rw [bytesAt_length] at hlt
      rw [load64, BitVec.toNat_ofNat, Nat.mod_eq_of_lt (by omega), hbytes, leNat,
        ← Nat.two_pow_add_eq_or_of_lt (m a).isLt]
      omega
    rw [BitVec.toNat_or, hword, Nat.or_assoc, hlow, ← BitVec.toNat_or,
      ← Nat.two_pow_add_eq_or_of_lt (BitVec.isLt _), leNat]
    omega
  have hwrite : store64 m a (load64 m a ||| faultAd cause) =
      writeBytes m a ((m a ||| (faultAd cause).setWidth 8) :: bytesAt m (a + 1) 7) := by
    have hlist := leBytes_leNat ((m a ||| (faultAd cause).setWidth 8) :: bytesAt m (a + 1) 7)
    rw [← hsum, List.length_cons, bytesAt_length] at hlist
    rw [store64, hlist]
  rw [hwrite]
  by_cases hin : a ≤ x ∧ x < a + 8
  · obtain ⟨i, rfl⟩ := Nat.exists_eq_add_of_le hin.1
    rw [writeBytes_add _ _ _ (by rw [List.length_cons, bytesAt_length]; omega)]
    cases i with
    | zero =>
      refine Or.inr ⟨rfl, ?_⟩
      have hnone : (faultAd cause).setWidth 8 &&& 0x3f = 0 := by
        unfold faultAd
        split_ifs <;> decide
      show (m a ||| (faultAd cause).setWidth 8) &&& 0x3f = m a &&& 0x3f
      rw [BitVec.and_or_distrib_right, hnone]
      exact BitVec.or_zero
    | succ i =>
      refine Or.inl ?_
      rw [List.getD_cons_succ, bytesAt_getD _ _ _ _ (by omega), Nat.add_assoc, Nat.add_comm 1 i]
  · exact Or.inl (writeBytes_outside _ _ _ (by rw [List.length_cons, bytesAt_length]; omega))

/-! ## One step of user mode -/

/-- What one event of user mode does to the kernel's state. -/
inductive UserChange (root : Nat) (k : Kernel) : Kernel → Prop where
  | nothing : UserChange root k k
  | stored {va : Nat} {e : BitVec 64} (b : Byte) (entry : userPte k.mem root va = some e)
      (user : e &&& pteU ≠ 0) (write : e &&& pteW ≠ 0) :
      UserChange root k { k with mem := writeBytes k.mem (ptePpn e + va % 4096) [b] }
  | marked {va n : Nat} (cause : BitVec 64)
      (node : follow (tableSucc k.mem) root [ptIdx 2 va, ptIdx 1 va] = some n)
      (valid : pteValid (load64 k.mem (n + 8 * ptIdx 0 va))) :
      UserChange root k { k with
        mem := store64 k.mem (n + 8 * ptIdx 0 va) (load64 k.mem (n + 8 * ptIdx 0 va) ||| faultAd cause) }

section Step

variable {k k' : Kernel} {bssEnd root : Nat}

/-- The hardware's entry is the kernel's, and names the same page. -/
theorem JobInv.leaf (h : JobInv bssEnd root k) {va e : BitVec 64}
    (hleaf : sv39Leaf k.mem va 3 (sv39Root (setPt root)) = some e) :
    userPte k.mem root va.toNat = some e ∧ sv39Ppn e * 4096 = ptePpn e := by
  obtain ⟨haligned, hlt⟩ := h.root_lt
  rw [sv39Root_setPt hlt haligned] at hleaf
  obtain ⟨hpte, hok, _⟩ := (sv39Leaf_eq_some h.format h.mem).mp hleaf
  refine ⟨hpte, sv39Ppn_eq ?_⟩
  by_contra hhigh
  exact hok (Or.inr hhigh)

/-- A resolved fault sets A, or A and D, in the entry of its address. -/
theorem handlePageFault_marks (h : JobInv bssEnd root k) {cause : BitVec 64} {va : Nat}
    (hrun : handlePageFault (setPt root) cause va k = (true, k')) : UserChange root k k' := by
  cases hpte : userPte k.mem root va with
  | none =>
    have hrefused := handlePageFault_unmapped h.vm h.mem cause (h.vm.satp h.mem) hpte
    rw [hrun] at hrefused
    cases hrefused
  | some e =>
    obtain ⟨n, slot, rfl, hcase⟩ := handlePageFault_mapped h.mem cause (h.vm.satp h.mem) hpte
    obtain ⟨_, _, _, hvalid⟩ := userPte_eq_some.mp hpte
    rw [hrun] at hcase
    split_ifs at hcase
    · obtain rfl := (Prod.mk.inj hcase).2
      exact .marked cause slot.node hvalid
    · cases (Prod.mk.inj hcase).1

theorem actionStep_change {s s' : TrapState} (h : JobInv bssEnd root s.kernel) {e : UserAction}
    (hstep : actionStep (setPt root) s e = some s') : UserChange root s.kernel s'.kernel := by
  cases e with
  | access acc va b =>
    obtain ⟨m, hm, rfl⟩ := Option.map_eq_some_iff.mp hstep
    obtain ⟨e, hleaf, haccess⟩ := Option.bind_eq_some_iff.mp hm
    obtain ⟨hpte, hppn⟩ := h.leaf hleaf
    by_cases hok : Canonical va ∧ LeafPermits e acc
    · rw [if_pos hok] at haccess
      cases acc with
      | fetch =>
        obtain rfl := Option.some.inj haccess
        exact .nothing
      | load =>
        obtain rfl := Option.some.inj haccess
        exact .nothing
      | store =>
        obtain rfl := Option.some.inj haccess
        rw [sv39Paddr, hppn]
        exact .stored b hpte hok.2.user hok.2.permission
    · rw [if_neg hok] at haccess
      cases haccess
  | trap cycle tf =>
    rcases hrun : trapHandler (setPt root) cycle tf s with ⟨r, s₁⟩
    simp only [actionStep, hrun] at hstep
    cases r with
    | resume tf' =>
      obtain rfl := Option.some.inj hstep
      rcases trapHandler_resume hrun with ⟨_, _, k₁, hfault, rfl⟩ | ⟨_, _, _, rfl⟩
      · exact handlePageFault_marks h hfault
      · exact .nothing
    | returnFromUser => cases hstep
    | kernelException => cases hstep
    | unhandledInterrupt => cases hstep

theorem UserChange.steps (hchange : UserChange root k k') (h : VmInv k bssEnd [⟨root, 0⟩]) :
    VmSteps [⟨root, 0⟩] k k' := by
  have ht : (⟨root, 0⟩ : Table) ∈ [(⟨root, 0⟩ : Table)] := List.mem_singleton.mpr rfl
  cases hchange with
  | nothing => exact .refl
  | @stored va e b entry user write =>
    obtain ⟨n, hn, rfl, hvalid⟩ := userPte_eq_some.mp entry
    obtain ⟨hwrite, _⟩ := writeBytes_page h ht (va % 4096) [b] (follow_of_leaf hn hvalid)
      (show va % 4096 + [b].length ≤ 4096 from Nat.mod_lt va (by decide))
    exact .single hwrite
  | @marked va n cause node valid =>
    have slot : Slot k [⟨root, 0⟩] ⟨root, 0⟩ [ptIdx 2 va, ptIdx 1 va] n (ptIdx 0 va) :=
      ⟨ht, by simp, node, ptIdx_lt 0 va⟩
    exact .single (.flags slot rfl valid (faultAd_high cause))

/-- The tables keep their shape. -/
theorem UserChange.tree (hchange : UserChange root k k') (h : VmInv k bssEnd [⟨root, 0⟩]) {p : List Nat}
    (hp : p.length ≤ 3) : follow (tableSucc k'.mem) root p = follow (tableSucc k.mem) root p := by
  have ht : (⟨root, 0⟩ : Table) ∈ [(⟨root, 0⟩ : Table)] := List.mem_singleton.mpr rfl
  have hroot : Roots [⟨root, 0⟩] root := ⟨_, ht, rfl⟩
  cases hchange with
  | nothing => rfl
  | @stored va e b entry user write =>
    obtain ⟨n, hn, rfl, hvalid⟩ := userPte_eq_some.mp entry
    have hleaf := follow_of_leaf hn hvalid
    have haligned := h.kernel.aligned _ (h.handed hroot (by simp) hleaf)
    have hlt := Nat.mod_lt va (show 4096 > 0 by decide)
    refine follow_of_agree (d := 3) hroot hp (h.leaf_tables hroot rfl hleaf fun x hx => ?_)
    exact writeBytes_outside _ _ _ (by rw [List.length_singleton]; omega)
  | @marked va n cause node valid =>
    have slot : Slot k [⟨root, 0⟩] ⟨root, 0⟩ [ptIdx 2 va, ptIdx 1 va] n (ptIdx 0 va) :=
      ⟨ht, by simp, node, ptIdx_lt 0 va⟩
    exact follow_of_agree (d := 3) hroot hp (h.or_tables slot valid (faultAd_high cause))

/-- Every entry keeps its page and its permissions. -/
theorem UserChange.entries (hchange : UserChange root k k') (h : VmInv k bssEnd [⟨root, 0⟩]) :
    SameEntries k k' root := by
  have ht : (⟨root, 0⟩ : Table) ∈ [(⟨root, 0⟩ : Table)] := List.mem_singleton.mpr rfl
  have hroot : Roots [⟨root, 0⟩] root := ⟨_, ht, rfl⟩
  intro x
  refine userPte_fixed (hchange.tree h (by simp)) fun c hc => ?_
  have hidx := ptIdx_lt 0 x
  have hcaligned := h.kernel.aligned c (h.handed hroot (by simp) hc)
  cases hchange with
  | nothing => rfl
  | @stored va e b entry user write =>
    obtain ⟨n, hn, rfl, hvalid⟩ := userPte_eq_some.mp entry
    have hleaf := follow_of_leaf hn hvalid
    have hne := h.page_ne hroot hroot (by simp) (by simp) hc hleaf (by simp)
    have haligned := h.kernel.aligned _ (h.handed hroot (by simp) hleaf)
    have hlt := Nat.mod_lt va (show 4096 > 0 by decide)
    have hload : load64 (writeBytes k.mem (ptePpn (load64 k.mem (n + 8 * ptIdx 0 va)) + va % 4096) [b])
        (c + 8 * ptIdx 0 x) = load64 k.mem (c + 8 * ptIdx 0 x) := by
      refine load64_congr fun o ho => writeBytes_outside _ _ _ ?_
      rw [List.length_singleton]
      omega
    exact congrArg (· &&& fixedBits) hload
  | @marked va n cause node valid =>
    have hnaligned := h.kernel.aligned n (h.handed hroot (by simp) node)
    have hidx' := ptIdx_lt 0 va
    by_cases hsame : c + 8 * ptIdx 0 x = n + 8 * ptIdx 0 va
    · rw [hsame]
      exact (congrArg (· &&& fixedBits) (load64_store64 _ _ _)).trans (or_faultAd_fixed _ cause)
    · exact congrArg (· &&& fixedBits) (load64_store64_disjoint _ _ _ _ (by omega))

end Step

/-! ## Runs of user mode -/

section Run

variable {k k₁ k₂ : Kernel} {bssEnd root x : Nat}

theorem UserChange.changed (hchange : UserChange root k k₁) (hx : k₁.mem x ≠ k.mem x) :
    UserWritable k root x ∨ AdByte k root x ∧ k₁.mem x &&& 0x3f = k.mem x &&& 0x3f := by
  cases hchange with
  | nothing => exact absurd rfl hx
  | @stored va e b entry user write =>
    refine Or.inl ⟨va, e, entry, user, write, ?_⟩
    by_contra hne
    exact hx (writeBytes_outside _ _ _ (by rw [List.length_singleton]; omega))
  | @marked va n cause node valid =>
    rcases store64_ad k.mem (n + 8 * ptIdx 0 va) cause x with hsame | ⟨hat, hbits⟩
    · exact absurd hsame hx
    · exact Or.inr ⟨⟨va, n, node, hat⟩, hbits⟩

/-- A table with the same entries up to A and D lets the program write the same bytes. -/
theorem SameEntries.writable (h : SameEntries k k₁ root) (hx : UserWritable k₁ root x) :
    UserWritable k root x := by
  obtain ⟨va, e, hpte, huser, hwrite, rfl⟩ := hx
  have hfixed := h va
  rw [hpte, Option.map_some] at hfixed
  obtain ⟨e₀, hpte₀, hsame⟩ := Option.map_eq_some_iff.mp hfixed.symm
  refine ⟨va, e₀, hpte₀, ?_, ?_, ?_⟩
  · rwa [and_fixedBits hsame (by decide)]
  · rwa [and_fixedBits hsame (by decide)]
  · rw [ptePpn_fixed hsame]

theorem SameEntries.trans (h : SameEntries k k₁ root) (h' : SameEntries k₁ k₂ root) :
    SameEntries k k₂ root := fun va => (h' va).trans (h va)

theorem Running.refl : Running root k k := ⟨rfl, rfl, fun _ _ => rfl, fun _ => rfl, fun _ hx => absurd rfl hx⟩

theorem Running.next (hrun : Running root k k₁) (h : VmInv k₁ bssEnd [⟨root, 0⟩])
    (hchange : UserChange root k₁ k₂) : Running root k k₂ := by
  have hmm : k₂.mm = k₁.mm ∧ k₂.handed = k₁.handed := by
    cases hchange with
    | nothing => exact ⟨rfl, rfl⟩
    | stored b entry user write => exact ⟨rfl, rfl⟩
    | marked cause node valid => exact ⟨rfl, rfl⟩
  refine ⟨hmm.1.trans hrun.mm, hmm.2.trans hrun.handed,
    fun p hp => (hchange.tree h hp).trans (hrun.tree p hp), hrun.entries.trans (hchange.entries h), ?_⟩
  intro x hx
  have hearlier : k₁.mem x = k.mem x ∨ UserWritable k root x ∨
      AdByte k root x ∧ k₁.mem x &&& 0x3f = k.mem x &&& 0x3f :=
    or_iff_not_imp_left.mpr (hrun.changed x)
  by_cases hsame : k₂.mem x = k₁.mem x
  · rw [hsame] at hx ⊢
    exact hrun.changed x hx
  · rcases hchange.changed hsame with hwritable | ⟨⟨va, n, hnode, hat⟩, hbits⟩
    · exact Or.inl (hrun.entries.writable hwritable)
    · have hown : AdByte k root x := ⟨va, n, (hrun.tree _ (by simp)).symm.trans hnode, hat⟩
      rcases hearlier with heq | hwritable | ⟨_, hold⟩
      · exact Or.inr ⟨hown, by rw [hbits, heq]⟩
      · exact Or.inl hwritable
      · exact Or.inr ⟨hown, hbits.trans hold⟩

theorem run_running {s s' : TrapState} {events : List UserAction} (h : JobInv bssEnd root s.kernel)
    (hrun : runSteps (actionStep (setPt root)) s events = some s') :
    JobInv bssEnd root s'.kernel ∧ Running root s.kernel s'.kernel := by
  refine runSteps_invariant
    (P := fun s' => JobInv bssEnd root s'.kernel ∧ Running root s.kernel s'.kernel) ?_ ⟨h, .refl⟩ hrun
  rintro s₁ e s₂ ⟨hinv, hrunning⟩ hstep
  have hchange := actionStep_change hinv hstep
  exact ⟨hinv.steps (hchange.steps hinv.vm), hrunning.next hinv.vm hchange⟩

end Run

/-! ## The end of user mode -/

section Ended

variable {k k' : Kernel} {bssEnd root x : Nat} {ts : List Table}

/-- The allocator only gives pages out. -/
theorem VmStep.fresh (hstep : VmStep ts k k') {a : Nat} (ha : k'.Fresh a) : k.Fresh a := by
  have hlink : ∀ {b entry : Nat} {pte : BitVec 64}, (k.link b entry pte).Fresh a → k.Fresh a := by
    intro b entry pte hlinked
    refine ⟨hlinked.aligned, hlinked.above, hlinked.below, ?_⟩
    have hfree := hlinked.free
    rw [Kernel.link, Kernel.hand, MmBitmap.mark_bitAt, Bool.or_eq_false_iff] at hfree
    exact hfree.2
  cases hstep with
  | table slot depth fresh invalid inner => exact hlink ha
  | page slot depth fresh invalid => exact hlink ha
  | write root depth leaf outside => exact ⟨ha.aligned, ha.above, ha.below, ha.free⟩
  | flags slot depth valid low => exact ⟨ha.aligned, ha.above, ha.below, ha.free⟩

theorem VmSteps.fresh (hsteps : VmSteps ts k k') {a : Nat} (ha : k'.Fresh a) : k.Fresh a := by
  induction hsteps with
  | refl => exact ha
  | tail _ hstep ih => exact ih (hstep.fresh ha)

/-- What a walk has added below the root: the pages `ps`. -/
structure TablesAdded (root : Nat) (k k' : Kernel) (ps : List Nat) : Prop where
  mm : k'.mm = k.mm.markAll ps
  handed : k'.handed = k.handed ++ ps
  tables : NewTables root k k' ps
  reached : ∀ (q : List Nat) (b : Nat), q.length ≤ 3 → follow (tableSucc k'.mem) root q = some b →
    follow (tableSucc k.mem) root q = some b ∨ b ∈ ps
  changed : ∀ x, k'.mem x ≠ k.mem x → OwnTable k root x ∨ x / 4096 * 4096 ∈ ps

theorem TablesAdded.refl : TablesAdded root k k [] :=
  ⟨rfl, (List.append_nil _).symm, nofun, fun _ _ _ h => .inl h, fun _ hx => absurd rfl hx⟩

/-- One more table. -/
theorem TablesAdded.next {k₁ : Kernel} {ps : List Nat} (hadded : TablesAdded root k k₁ ps)
    (hsteps : VmSteps [⟨root, 0⟩] k k₁) (h : VmInv k₁ bssEnd [⟨root, 0⟩]) (hstep : TableStep [⟨root, 0⟩] k₁ k') :
    ∃ a, TablesAdded root k k' (ps ++ [a]) := by
  have hroot : Roots [⟨root, 0⟩] root := ⟨_, List.mem_singleton.mpr rfl, rfl⟩
  have hvm := hstep.vm
  cases hstep with
  | @table t p n i a level slot depth fresh invalid inner =>
    obtain rfl := List.mem_singleton.mp slot.mem
    have hlink {q : List Nat} (hq : q.length ≤ 3) (b : Nat) :=
      h.follow_link slot fresh invalid (makePte_valid level a 0) (fresh.ptePpn_makePte h.kernel level 0) hroot hq b
    have hnode := slot.node
    refine ⟨a, ?_, ?_, ?_, ?_, ?_⟩
    · rw [Mm.markAll, List.foldl_append]
      show { k₁.mm with mmbm := k₁.mm.mmbm.mark (a / 4096) } = _
      rw [hadded.mm]
      rfl
    · show k₁.handed ++ [a] = _
      rw [hadded.handed, List.append_assoc]
    · intro b hb
      obtain hold | hnew := List.mem_append.mp hb
      · obtain ⟨hfresh, q, hpos, hlen, hq⟩ := hadded.tables b hold
        exact ⟨hfresh, q, hpos, hlen, hvm.follow h hroot (Nat.le_of_lt hlen) hq⟩
      · obtain rfl := List.mem_singleton.mp hnew
        refine ⟨VmSteps.fresh hsteps fresh, p ++ [i], ?_, ?_, (hlink ?_ _).mpr (.inr ⟨rfl, rfl, rfl⟩)⟩
        all_goals
          rw [List.length_append, List.length_singleton]
          omega
    · intro q b hq hb
      obtain hold | ⟨-, -, rfl⟩ := (hlink hq b).mp hb
      · exact (hadded.reached q b hq hold).imp_right fun hmem => List.mem_append_left _ hmem
      · exact .inr (List.mem_append_right _ (List.mem_singleton.mpr rfl))
    · intro x hx
      by_cases hbefore : k₁.mem x = k.mem x
      · have hn := slot.aligned h
        have hi := slot.index
        have haligned := fresh.aligned
        rw [← hbefore] at hx
        by_cases hpage : x / 4096 = a / 4096
        · have hstart : x / 4096 * 4096 = a := by omega
          exact .inr (List.mem_append_right _ (List.mem_singleton.mpr hstart))
        · -- the entry that was set, in a table of the program or in a new one
          have hentry : x / 4096 = n / 4096 := by
            by_contra hother
            exact hx (link_mem_old fresh hpage (by omega))
          obtain hold | hnew := hadded.reached p n (by omega) hnode
          · exact .inl ⟨p, n, by omega, hold, hentry⟩
          · have hstart : x / 4096 * 4096 = n := by omega
            exact .inr (List.mem_append_left _ (hstart ▸ hnew))
      · exact (hadded.changed x hbefore).imp_right fun hmem => List.mem_append_left _ hmem

theorem TableSteps.added (hsteps : TableSteps [⟨root, 0⟩] k k') (h : VmInv k bssEnd [⟨root, 0⟩]) :
    ∃ ps, TablesAdded root k k' ps := by
  induction hsteps with
  | refl => exact ⟨[], .refl⟩
  | tail hsteps hstep ih =>
    obtain ⟨ps, hadded⟩ := ih
    have hvm := TableSteps.vm hsteps
    obtain ⟨a, hnext⟩ := hadded.next hvm (VmSteps.inv hvm h) hstep
    exact ⟨ps ++ [a], hnext⟩

/-- A refused fault leaves what its walk has made. -/
theorem handlePageFault_refused {satp cause : BitVec 64} {va : Nat}
    (hrun : handlePageFault satp cause va k = (false, k')) : (getPte (some (satpRoot satp)) va k).2 = k' := by
  rcases hwalk : getPte (some (satpRoot satp)) va k with ⟨pte, k₁⟩
  simp only [handlePageFault, hwalk] at hrun
  cases pte with
  | none => exact (Prod.mk.inj hrun).2
  | some a =>
    dsimp only at hrun
    split_ifs at hrun
    · cases (Prod.mk.inj hrun).1
    · exact (Prod.mk.inj hrun).2

/-- A changed byte of the user, of the tables or of a new page lies above the allocator's data. -/
theorem low_of_changed (h : VmInv k bssEnd [⟨root, 0⟩]) {ps : List Nat} (htables : NewTables root k k' ps)
    (hchanged : ∀ x, k'.mem x ≠ k.mem x → UserWritable k root x ∨ OwnTable k root x ∨ x / 4096 * 4096 ∈ ps) :
    ∀ x < availableStart k.mm, k'.mem x = k.mem x := by
  have hroot : Roots [⟨root, 0⟩] root := ⟨_, List.mem_singleton.mpr rfl, rfl⟩
  intro x hx
  by_contra hne
  rcases hchanged x hne with ⟨va, e, hpte, _, _, hat⟩ | ⟨p, n, hp, hn, hpage⟩ | hnew
  · obtain ⟨n, hn, rfl, hvalid⟩ := userPte_eq_some.mp hpte
    have habove := h.kernel.above _ (h.handed hroot (by simp) (follow_of_leaf hn hvalid))
    omega
  · have hhanded := h.handed hroot (Nat.le_of_lt hp) hn
    have habove := h.kernel.above n hhanded
    have haligned := h.kernel.aligned n hhanded
    omega
  · have habove := (htables _ hnew).1.above
    omega

/-- A walk in a state of user mode adds tables of the program. -/
theorem Running.confined {k₁ : Kernel} {ps : List Nat} (hrun : Running root k k₁) (h : VmInv k bssEnd [⟨root, 0⟩])
    (hadded : TablesAdded root k₁ k' ps) (hentries : SameEntries k₁ k' root) : Confined root k k' ps := by
  have hroot : Roots [⟨root, 0⟩] root := ⟨_, List.mem_singleton.mpr rfl, rfl⟩
  have htables : NewTables root k k' ps := by
    intro a ha
    obtain ⟨hfresh, hpath⟩ := hadded.tables a ha
    have hfree := hfresh.free
    have habove := hfresh.above
    have hbelow := hfresh.below
    rw [hrun.mm] at hfree habove hbelow
    exact ⟨⟨hfresh.aligned, habove, hbelow, hfree⟩, hpath⟩
  have hchanged : ∀ x, k'.mem x ≠ k.mem x → UserWritable k root x ∨ OwnTable k root x ∨ x / 4096 * 4096 ∈ ps := by
    intro x hx
    by_cases hlast : k'.mem x = k₁.mem x
    · rcases hrun.changed x (hlast ▸ hx) with hwritable | ⟨⟨va, n, hn, hat⟩, _⟩
      · exact .inl hwritable
      · have haligned := h.kernel.aligned n (h.handed hroot (by simp) hn)
        have hidx := ptIdx_lt 0 va
        exact .inr (.inl ⟨_, n, by simp, hn, by omega⟩)
    · rcases hadded.changed x hlast with ⟨p, n, hp, hn, hpage⟩ | hnew
      · exact .inr (.inl ⟨p, n, hp, (hrun.tree p (Nat.le_of_lt hp)).symm.trans hn, hpage⟩)
      · exact .inr (.inr hnew)
  refine ⟨?_, ?_, htables, hrun.entries.trans hentries, hchanged, low_of_changed h htables hchanged⟩
  · rw [hadded.mm, hrun.mm]
  · rw [hadded.handed, hrun.handed]

/-- A trap at any moment of user mode, whether or not the program resumes after it. -/
theorem Running.trap {s : TrapState} (hrun : Running root k s.kernel) (h : VmInv k bssEnd [⟨root, 0⟩])
    (hinv : JobInv bssEnd root s.kernel) (cycle : BitVec 64) (tf : TrapFrame) :
    ∃ ps, Confined root k (trapHandler (setPt root) cycle tf s).2.kernel ps := by
  rcases trapHandler_kernel (setPt root) cycle tf s with hsame | hfault
  · rw [hsame]
    exact ⟨[], hrun.confined h .refl fun _ => rfl⟩
  rw [hfault]
  rcases hresult : handlePageFault (setPt root) tf.cause tf.tval.toNat s.kernel with ⟨ok, k₁⟩
  cases ok with
  | true =>
    exact ⟨[], (hrun.next hinv.vm (handlePageFault_marks hinv hresult)).confined h .refl fun _ => rfl⟩
  | false =>
    have hwalk := handlePageFault_refused hresult
    rw [hinv.vm.satp hinv.mem] at hwalk
    rcases hget : getPte (some root) tf.tval.toNat s.kernel with ⟨pte, k₂⟩
    obtain rfl : k₂ = k₁ := (congrArg Prod.snd hget).symm.trans hwalk
    obtain ⟨_, hview, _⟩ := getPte_spec hinv.vm hinv.mem hget
    have hroot : Roots [⟨root, 0⟩] root := ⟨_, hinv.mem, rfl⟩
    obtain ⟨ps, hadded⟩ := TableSteps.added (getPte_tables hinv.vm hinv.mem hget) hinv.vm
    refine ⟨ps, hrun.confined h hadded fun va => ?_⟩
    show (userPte k₂.mem root va).map _ = (userPte s.kernel.mem root va).map _
    rw [userPte, hview _ _ hroot, ← userPte]

end Ended

/-! ## Every job -/

/-- In every run of user mode of a job that `do_judge` starts, whatever the program does: the allocator
is as it was, every page keeps its place and its permissions, memory changes in pages the program may
write and in the A and D bits of its entries only, an access needs the permission the page had at
entry. A trap that ends the run may have made free pages page tables of the program, and changes nothing
else of the kernel. -/
theorem doJudge_confines {mm : Mm} {bssEnd : Nat} (hmm : mm.Reachable bssEnd)
    (hsize : mm.mmbm.size ≤ 2 ^ 44) {mem : Mem} {req : JudgeReq} {elf input : List Byte}
    {zerosLast : BitVec 64} {buff : Nat → Byte} {u : UserEntry} {k : Kernel}
    (hlen : input.length ≤ judgeTftpBuffSize)
    (hrun : doJudge req (.file elf) (.file input) zerosLast buff ⟨mm, mem, []⟩ = (.ok u, k)) :
    ∃ root, u.pt = some root ∧ ∀ (s : TrapState) (events : List UserAction) (s' : TrapState),
      s.kernel = k → runSteps (actionStep (setPt root)) s events = some s' →
        Running root k s'.kernel ∧
        (∀ (acc : Access) (va : BitVec 64), Sv39Permits s'.kernel.mem (setPt root) va acc →
          ∃ e, userPte k.mem root va.toNat = some e ∧ e &&& pteU ≠ 0 ∧ e &&& acc.permission ≠ 0) ∧
        ∀ (cycle : BitVec 64) (tf : TrapFrame),
          ∃ ps, Confined root k (trapHandler (setPt root) cycle tf s').2.kernel ps := by
  obtain ⟨root, hbuilt⟩ := doJudge_built hmm hlen hrun
  refine ⟨root, hbuilt.pt, ?_⟩
  rintro s events s' rfl hevents
  have hstart := hbuilt.inv hmm hsize
  obtain ⟨hinv, hrunning⟩ := run_running hstart hevents
  refine ⟨hrunning, ?_, fun cycle tf => hrunning.trap hstart.vm hinv cycle tf⟩
  rintro acc va ⟨_, e, hleaf, hpermits⟩
  obtain ⟨hpte, _⟩ := hinv.leaf hleaf
  have hfixed := hrunning.entries va.toNat
  rw [hpte, Option.map_some] at hfixed
  obtain ⟨e₀, hpte₀, hsame⟩ := Option.map_eq_some_iff.mp hfixed.symm
  refine ⟨e₀, hpte₀, ?_, ?_⟩
  · rw [and_fixedBits hsame (by decide)]
    exact hpermits.user
  · rw [and_fixedBits hsame (by cases acc <;> decide)]
    exact hpermits.permission

/-- A fault whose entry has the flags of the access resumes the program. -/
theorem trap_resumes {root : Nat} {bssEnd : Nat} {s : TrapState} (h : JobInv bssEnd root s.kernel)
    {acc : Access} (tf : TrapFrame) (hcause : tf.cause = acc.cause)
    (hrepeats : FaultRepeats s.kernel.mem root tf.tval acc) (cycle : BitVec 64) :
    ∃ s', actionStep (setPt root) s (.trap cycle tf) = some s' := by
  obtain ⟨e, hpte, hflags, _⟩ := hrepeats
  obtain ⟨n, _, _, hresult⟩ := handlePageFault_mapped h.mem acc.cause (h.vm.satp h.mem) hpte
  rw [if_pos hflags] at hresult
  rw [actionStep, trapHandler_pageFault (setPt root) cycle hcause, hresult]
  exact ⟨_, rfl⟩

theorem doJudge_confines_small : ∃ mm u k root s',
    doJudge ⟨1, 1000, 0⟩ (.file (bytesAt smallElf 0 120)) (.file []) 0 (fun _ => 0)
      ⟨mm, fun _ => 0, []⟩ = (.ok u, k) ∧
    runSteps (actionStep (setPt root)) ⟨k, ⟨0, 0, 0, 0⟩, 0⟩ [.trap 0 (loadFrame highVa)] = some s' ∧
    Running root k s'.kernel := by
  obtain ⟨mm, hmm, hsize, u, k, hrun⟩ := boot_reaches (bytesAt smallElf 0 120) (by decide +kernel)
  have hsmall : mm.mmbm.size ≤ 2 ^ 44 := by
    rw [hsize]
    decide
  have hlen : ([] : List Byte).length ≤ judgeTftpBuffSize := by decide
  obtain ⟨root, hpt, hall⟩ := doJudge_confines hmm hsmall hlen hrun
  obtain ⟨root', hbuilt⟩ := doJudge_built hmm hlen hrun
  obtain rfl := Option.some.inj (hpt.symm.trans hbuilt.pt)
  have hjob : JobInv _ root (TrapState.mk k ⟨0, 0, 0, 0⟩ 0).kernel := hbuilt.inv hmm hsmall
  obtain ⟨s', hstep⟩ := trap_resumes hjob (loadFrame highVa) rfl (highVa_repeats hbuilt) 0
  have hevents : runSteps (actionStep (setPt root)) ⟨k, ⟨0, 0, 0, 0⟩, 0⟩ [.trap 0 (loadFrame highVa)] =
      some s' := by
    simp only [runSteps, hstep, Option.bind_some]
  exact ⟨mm, u, k, root, s', hrun, hevents, (hall _ _ _ rfl hevents).1⟩

end VijosOS
