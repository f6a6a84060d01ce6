import VijosOS.Library.Transition
import VijosOS.Memory.TableFormat

/-!
# User isolation

Runs of the page-table operations and of user traps, in any order and whether they
succeed or fail, from the booted allocator. No state of a run has two paths to one
physical page, so a user mapping never reaches a page table, the kernel image or the
allocator's metadata.
-/

namespace VijosOS

open Library

/-- The calls on a page table; a table is named by the pointer `create_pt` returned. -/
inductive VmOp where
  | createPt
  | getPte (pt : Option Nat) (va : Nat)
  | mapPage (pt : Option Nat) (va : Nat) (flags : BitVec 64)
  | mapAndCopy (pt : Option Nat) (va : Nat) (flags : BitVec 64) (src : Nat → Byte) (len : Nat)
  | trap (pt : Nat) (cycle : BitVec 64) (tf : TrapFrame)

structure VmRun where
  state : TrapState
  tables : List Table

def VmRun.withKernel (s : VmRun) (k : Kernel) : VmRun :=
  { s with state := { s.state with kernel := k } }

/-- The pointer is null or a table created earlier in the run. -/
def VmRun.Knows (s : VmRun) (pt : Option Nat) : Prop := ∀ r ∈ pt, r ∈ s.tables.map Table.root

instance (s : VmRun) (pt : Option Nat) : Decidable (s.Knows pt) :=
  inferInstanceAs (Decidable (∀ r ∈ pt, _))

def VmRun.step (s : VmRun) : VmOp → Option VmRun
  | .createPt =>
    match createPt s.state.kernel with
    | (none, k) => some (s.withKernel k)
    | (some pt, k) => some { s.withKernel k with
        tables := ⟨pt, s.state.kernel.handed.length⟩ :: s.tables }
  | .getPte pt va =>
    if s.Knows pt then some (s.withKernel (getPte pt va s.state.kernel).2) else none
  | .mapPage pt va flags =>
    if s.Knows pt then some (s.withKernel (mapPage pt va flags s.state.kernel).2) else none
  | .mapAndCopy pt va flags src len =>
    if s.Knows pt ∧ userBottom ≤ va ∧ va + len ≤ userTop then
      some (s.withKernel (mapAndCopy pt va flags src len s.state.kernel).2)
    else none
  | .trap pt cycle tf =>
    if s.Knows (some pt) then some { s with state := (trapHandler (setPt pt) cycle tf s.state).2 }
    else none

/-- The tables of a state are private trees of pages handed out since their creation. -/
structure Isolated (k : Kernel) (bssEnd : Nat) (ts : List Table) : Prop where
  distinct : ∀ t ∈ ts, ∀ t' ∈ ts, ∀ p q a, p.length ≤ 3 → q.length ≤ 3 →
    follow (tableSucc k.mem) t.root p = some a → follow (tableSucc k.mem) t'.root q = some a →
    t.root = t'.root ∧ p = q
  handedOut : ∀ t ∈ ts, ∀ p a, p.length ≤ 3 → follow (tableSucc k.mem) t.root p = some a →
    a ∈ k.handed.drop t.birth ∧ a % 4096 = 0 ∧ a < k.mm.mmbm.size * 4096 ∧
      bitAt k.mm.mmbm.bits (a / 4096) = true
  placed : k.mm.Placed bssEnd
  aboveKernel : ∀ t ∈ ts, ∀ p a, p.length ≤ 3 → follow (tableSucc k.mem) t.root p = some a →
    availableStart k.mm ≤ a
  leafNotTable : ∀ t ∈ ts, ∀ t' ∈ ts, ∀ x e b q, userView k.mem t.root x = some (e, b) →
    q.length < 3 → follow (tableSucc k.mem) t'.root q ≠ some (ptePpn e)
  leafOnce : ∀ t ∈ ts, ∀ t' ∈ ts, ∀ x y e e' b b', userView k.mem t.root x = some (e, b) →
    userView k.mem t'.root y = some (e', b') → ptePpn e = ptePpn e' →
    t.root = t'.root ∧ SamePage x y

theorem VmInv.isolated {k : Kernel} {bssEnd : Nat} {ts : List Table} (h : VmInv k bssEnd ts) :
    Isolated k bssEnd ts := by
  have hleaf : ∀ t ∈ ts, ∀ x e b, userView k.mem t.root x = some (e, b) →
      follow (tableSucc k.mem) t.root [ptIdx 2 x, ptIdx 1 x, ptIdx 0 x] = some (ptePpn e) := by
    intro t _ x e b hx
    obtain ⟨n, hn, rfl, hvalid, _⟩ := userView_eq_some.mp hx
    exact follow_of_leaf hn hvalid
  refine ⟨?_, ?_, h.kernel.mm.placed, ?_, ?_, ?_⟩
  · intro t ht t' ht' p q a hp hq ha ha'
    exact h.noAlias _ _ p q a ⟨t, ht, rfl⟩ ⟨t', ht', rfl⟩ hp hq ha ha'
  · intro t ht p a hp ha
    have hmem := h.handed ⟨t, ht, rfl⟩ hp ha
    exact ⟨h.owned t ht p a hp ha, h.kernel.aligned a hmem, h.kernel.below a hmem,
      h.kernel.inUse a hmem⟩
  · intro t ht p a hp ha
    exact h.kernel.above a (h.handed ⟨t, ht, rfl⟩ hp ha)
  · intro t ht t' ht' x e b q hx hq hnode
    obtain ⟨_, hpath⟩ := h.noAlias _ _ _ _ _ ⟨t', ht', rfl⟩ ⟨t, ht, rfl⟩ (Nat.le_of_lt hq) (by simp)
      hnode (hleaf t ht x e b hx)
    rw [hpath] at hq
    exact absurd hq (by simp)
  · intro t ht t' ht' x y e e' b b' hx hy hppn
    have hy' := hleaf t' ht' y e' b' hy
    rw [← hppn] at hy'
    obtain ⟨hroot, hpath⟩ := h.noAlias _ _ _ _ _ ⟨t, ht, rfl⟩ ⟨t', ht', rfl⟩ (by simp) (by simp)
      (hleaf t ht x e b hx) hy'
    simp only [List.cons.injEq, and_true] at hpath
    exact ⟨hroot, (ptIdx_page x y).mp hpath⟩

/-! ## Runs -/

/-- A trap changes the kernel only through the page-fault branch. -/
theorem trapHandler_kernel (satp cycle : BitVec 64) (tf : TrapFrame) (s : TrapState) :
    (trapHandler satp cycle tf s).2.kernel = s.kernel ∨
      (trapHandler satp cycle tf s).2.kernel =
        (handlePageFault satp tf.cause tf.tval.toNat s.kernel).2 := by
  unfold trapHandler
  dsimp only
  split_ifs
  · exact Or.inr rfl
  · exact Or.inr rfl
  all_goals exact Or.inl rfl

/-- A step of a run changes the tables by elementary steps, or creates one. -/
theorem VmRun.step_steps {bssEnd : Nat} {s s' : VmRun} {op : VmOp}
    (h : VmInv s.state.kernel bssEnd s.tables) (hstep : s.step op = some s') :
    VmSteps s.tables s.state.kernel s'.state.kernel ∧ s'.tables = s.tables ∨
      ∃ a, s.state.kernel.Fresh a ∧
        createPt s.state.kernel = (some a, s'.state.kernel) ∧
        s'.state.kernel.mem = zeroPage s.state.kernel.mem a ∧
        s'.tables = ⟨a, s.state.kernel.handed.length⟩ :: s.tables := by
  have hknown : ∀ pt, s.Knows (some pt) → ∃ t ∈ s.tables, t.root = pt := by
    intro pt hpt
    exact List.mem_map.mp (hpt pt rfl)
  cases op with
  | createPt =>
    rcases createPt_cases h.kernel with hfull | ⟨a, ha, hrun⟩
    · simp only [VmRun.step, hfull, Option.some.injEq] at hstep
      subst hstep
      exact Or.inl ⟨.refl, rfl⟩
    · simp only [VmRun.step, hrun, Option.some.injEq] at hstep
      subst hstep
      exact Or.inr ⟨a, ha, hrun, rfl, rfl⟩
  | getPte pt va =>
    by_cases hk : s.Knows pt
    · simp only [VmRun.step, if_pos hk, Option.some.injEq] at hstep
      subst hstep
      cases pt with
      | none => exact Or.inl ⟨.refl, rfl⟩
      | some r =>
        obtain ⟨t, ht, rfl⟩ := hknown r hk
        exact Or.inl ⟨getPte_steps h ht rfl, rfl⟩
    · simp [VmRun.step, hk] at hstep
  | mapPage pt va flags =>
    by_cases hk : s.Knows pt
    · simp only [VmRun.step, if_pos hk, Option.some.injEq] at hstep
      subst hstep
      cases pt with
      | none => exact Or.inl ⟨.refl, rfl⟩
      | some r =>
        obtain ⟨t, ht, rfl⟩ := hknown r hk
        exact Or.inl ⟨mapPage_steps h ht rfl, rfl⟩
    · simp [VmRun.step, hk] at hstep
  | mapAndCopy pt va flags src len =>
    by_cases hk : s.Knows pt ∧ userBottom ≤ va ∧ va + len ≤ userTop
    · simp only [VmRun.step, if_pos hk, Option.some.injEq] at hstep
      subst hstep
      refine Or.inl ⟨?_, rfl⟩
      show VmSteps s.tables s.state.kernel (mapAndCopy pt va flags src len s.state.kernel).2
      cases pt with
      | none =>
        rw [mapAndCopy_null]
      | some r =>
        obtain ⟨t, ht, rfl⟩ := hknown r hk.1
        have htop : va + len ≤ 2 ^ 39 := Nat.le_trans hk.2.2 (by decide)
        exact mapAndCopy_steps h ht htop rfl
    · simp [VmRun.step, hk] at hstep
  | trap pt cycle tf =>
    by_cases hk : s.Knows (some pt)
    · simp only [VmRun.step, if_pos hk, Option.some.injEq] at hstep
      subst hstep
      obtain ⟨t, ht, rfl⟩ := hknown pt hk
      refine Or.inl ⟨?_, rfl⟩
      show VmSteps s.tables s.state.kernel (trapHandler (setPt t.root) cycle tf s.state).2.kernel
      rcases trapHandler_kernel (setPt t.root) cycle tf s.state with hsame | hfault
      · rw [hsame]
      · rw [hfault]
        exact handlePageFault_steps h ht (h.satp ht) rfl
    · simp [VmRun.step, hk] at hstep

theorem VmRun.step_inv {bssEnd : Nat} (s : VmRun) (op : VmOp) (s' : VmRun)
    (h : VmInv s.state.kernel bssEnd s.tables) (hstep : s.step op = some s') :
    VmInv s'.state.kernel bssEnd s'.tables := by
  rcases VmRun.step_steps h hstep with ⟨hsteps, htables⟩ | ⟨a, _, hrun, _, htables⟩
  · rw [htables]
    exact hsteps.inv h
  · rcases createPt_spec h with hfull | ⟨b, k', hrun', _, h', _⟩
    · rw [hfull] at hrun
      cases hrun
    · rw [hrun', Prod.mk.injEq, Option.some.injEq] at hrun
      obtain ⟨rfl, rfl⟩ := hrun
      rw [htables]
      exact h'

/-- The machine after boot: any memory contents, no page handed out, no table. -/
def bootedRun (mm : Mm) (mem : Mem) (task : UserTask) (endTime : BitVec 64) : VmRun :=
  ⟨⟨⟨mm, mem, []⟩, task, endTime⟩, []⟩

/-- From any boot whose metadata fits, every state of every run is isolated. -/
theorem vmRuns_isolated {bssEnd start n : Nat} (h : BootLayout bssEnd start n) (mm₀ : Mm) (mem : Mem)
    (task : UserTask) (endTime : BitVec 64) :
    ∃ mm, bootMm bssEnd start n mm₀ = some mm ∧ ∀ ops s,
      runSteps VmRun.step (bootedRun mm mem task endTime) ops = some s →
        Isolated s.state.kernel bssEnd s.tables := by
  obtain ⟨mm, hboot, _, hinit⟩ := bootMm_inv h mm₀
  refine ⟨mm, hboot, ?_⟩
  intro ops s hrun
  have hfinal := runSteps_invariant (P := fun s => VmInv s.state.kernel bssEnd s.tables)
    VmRun.step_inv (VmInv.start hinit.mm mem) hrun
  exact hfinal.isolated

/-- The allocator before the boot of a region of 64 pages. -/
def smallMm : Mm := ⟨0, ⟨0, 0, 0, fun _ => 0⟩, 0, ⟨0, 0, 0, fun _ => 0⟩⟩

set_option maxRecDepth 8000 in
/-- One table with one page in the region of 64 pages. -/
theorem smallRun {mm : Mm} (hboot : bootMm 0x40800 0x40000 64 smallMm = some mm) :
    ∃ s, runSteps VmRun.step (bootedRun mm (fun _ => 0) ⟨0, 0, 0, 0⟩ 0)
        [.createPt, .mapPage (some 0x41000) 0x10000 vmU] = some s ∧
      ∃ t ∈ s.tables, t.root = 0x41000 := by
  have hrun : ((bootMm 0x40800 0x40000 64 smallMm).bind fun mm =>
      (runSteps VmRun.step (bootedRun mm (fun _ => 0) ⟨0, 0, 0, 0⟩ 0)
        [.createPt, .mapPage (some 0x41000) 0x10000 vmU]).map fun s =>
          s.tables.map Table.root) = some [0x41000] := by
    decide
  rw [hboot, Option.bind_some, Option.map_eq_some_iff] at hrun
  obtain ⟨s, hs, hroots⟩ := hrun
  have hmem : 0x41000 ∈ s.tables.map Table.root := by
    rw [hroots]
    exact List.mem_singleton.mpr rfl
  exact ⟨s, hs, List.mem_map.mp hmem⟩

/-- The theorem after one mapping in a region of 64 pages. -/
theorem vmRuns_isolated_small :
    ∃ mm s, bootMm 0x40800 0x40000 64 ⟨0, ⟨0, 0, 0, fun _ => 0⟩, 0, ⟨0, 0, 0, fun _ => 0⟩⟩ = some mm ∧
      runSteps VmRun.step (bootedRun mm (fun _ => 0) ⟨0, 0, 0, 0⟩ 0)
        [.createPt, .mapPage (some 0x41000) 0x10000 vmU] = some s ∧
      Isolated s.state.kernel 0x40800 s.tables := by
  obtain ⟨mm, hboot, hall⟩ := vmRuns_isolated smallLayout smallMm (fun _ => 0) ⟨0, 0, 0, 0⟩ 0
  obtain ⟨s, hs, _⟩ := smallRun hboot
  exact ⟨mm, s, hboot, hs, hall _ s hs⟩

end VijosOS
