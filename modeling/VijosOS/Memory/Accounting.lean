import Mathlib.Data.Nat.Count
import VijosOS.Memory.Isolation
import VijosOS.Memory.TableFormat

/-!
# Memory accounting

`count_pt` walks the three levels of a table and tells pointers from leaves by their
permission bits. Above the last level every entry the code makes is a pointer, so the count
is the number of virtual pages whose leaf entry has the flags.
-/

namespace VijosOS

open Library

def pteTable (x : BitVec 64) : Prop := x &&& (pteV ||| pteR ||| pteW ||| pteX) = pteV

instance (x : BitVec 64) : Decidable (pteTable x) := inferInstanceAs (Decidable (_ = _))

def pgLevel : Nat := 3

/-- What one entry adds to the count; `table` is the count of the level below. -/
def countEntry (level : Nat) (flags : BitVec 64) (table : Nat → Nat) (pte : BitVec 64) : Nat :=
  if pteValid pte then
    if level > 0 ∧ pteTable pte then table (ptePpn pte)
    else if pte &&& flags = flags then 1 <<< (level * pgLevelShift)
    else 0
  else 0

/-- The loop over the entries of one table. -/
def countEntries (m : Mem) (pt : Nat) (count : BitVec 64 → Nat) : Nat :=
  (List.range (pgSize / 8)).foldl (fun n i => n + count (load64 m (pt + 8 * i))) 0

def countPtLevel (m : Mem) (flags : BitVec 64) : Nat → Nat → Nat
  | 0, pt => countEntries m pt (countEntry 0 flags fun _ => 0)
  | level + 1, pt => countEntries m pt (countEntry (level + 1) flags (countPtLevel m flags level))

def countPt (m : Mem) (pt : Nat) (flags : BitVec 64) : Nat :=
  countPtLevel m (pteFlags flags) (pgLevel - 1) pt

/-! ## The specification -/

/-- The flags of `vm.h`, each with its bit in an entry. -/
def vmFlagBits : List (BitVec 64 × BitVec 64) :=
  [(vmR, pteR), (vmW, pteW), (vmX, pteX), (vmA, pteA), (vmD, pteD), (vmU, pteU)]

/-- The virtual pages of the 39-bit space. -/
def virtualPages : Finset Nat := Finset.range (2 ^ 27)

/-- An entry has every flag of the set. -/
def HasFlags (flags e : BitVec 64) : Prop :=
  ∀ f ∈ vmFlagBits, flags &&& f.1 ≠ 0 → e &&& f.2 ≠ 0

instance (flags e : BitVec 64) : Decidable (HasFlags flags e) :=
  inferInstanceAs (Decidable (∀ f ∈ vmFlagBits, _))

/-- The virtual page `vp` is mapped by a leaf entry with the flags. -/
def MappedWith (m : Mem) (root : Nat) (flags : BitVec 64) (vp : Nat) : Prop :=
  ∃ e, userPte m root (vp * 4096) = some e ∧ HasFlags flags e

instance (m : Mem) (root : Nat) (flags : BitVec 64) : DecidablePred (MappedWith m root flags) :=
  fun vp => match h : userPte m root (vp * 4096) with
    | none => isFalse (by simp [MappedWith, h])
    | some e => decidable_of_iff (HasFlags flags e) (by simp [MappedWith, h])

/-- The bits `pte_flags` sets for the flags of a list. -/
def flagBits (flags : BitVec 64) : List (BitVec 64 × BitVec 64) → BitVec 64
  | [] => 0
  | f :: fs => (if flags &&& f.1 ≠ 0 then f.2 else 0) ||| flagBits flags fs

theorem pteFlags_eq (flags : BitVec 64) : pteFlags flags = flagBits flags vmFlagBits := by
  unfold pteFlags
  simp only [vmFlagBits, flagBits]
  split_ifs <;> decide

theorem and_flagBits_iff (flags e : BitVec 64) {fs : List (BitVec 64 × BitVec 64)}
    (hfs : ∀ f ∈ fs, ∃ k < 64, f.2 = 1#64 <<< k) :
    e &&& flagBits flags fs = flagBits flags fs ↔ ∀ f ∈ fs, flags &&& f.1 ≠ 0 → e &&& f.2 ≠ 0 := by
  induction fs with
  | nil => simp [flagBits]
  | cons f fs ih =>
    have ih := ih fun g hg => hfs g (List.mem_cons_of_mem _ hg)
    obtain ⟨k, hk, hbit⟩ := hfs f List.mem_cons_self
    rw [flagBits, and_eq_right_or_iff, ih, List.forall_mem_cons]
    refine and_congr_left fun _ => ?_
    split_ifs with hset
    · rw [hbit, and_one_shiftLeft_eq_self_iff e hk]
      exact ⟨fun h _ => h, fun h => h hset⟩
    · constructor
      · exact fun _ h => absurd h hset
      · exact fun _ => BitVec.and_zero

/-- The comparison of the code asks for every flag of the set. -/
theorem hasFlags_iff (flags e : BitVec 64) :
    HasFlags flags e ↔ e &&& pteFlags flags = pteFlags flags := by
  rw [pteFlags_eq, and_flagBits_iff]
  · rfl
  · intro f hf
    simp only [vmFlagBits, List.mem_cons, List.not_mem_nil, or_false] at hf
    rcases hf with rfl | rfl | rfl | rfl | rfl | rfl
    exacts [⟨1, by decide, rfl⟩, ⟨2, by decide, rfl⟩, ⟨3, by decide, rfl⟩, ⟨6, by decide, rfl⟩,
      ⟨7, by decide, rfl⟩, ⟨4, by decide, rfl⟩]

/-! ## The count of one level -/

theorem countEntries_eq {m : Mem} {pt b : Nat} {count : BitVec 64 → Nat} {p : Nat → Prop}
    [DecidablePred p]
    (h : ∀ i < 512, count (load64 m (pt + 8 * i)) = Nat.count (fun j => p (i * b + j)) b) :
    countEntries m pt count = Nat.count p (512 * b) := by
  have hsum : ∀ (f : Nat → Nat) l, List.foldl (fun n i => n + f i) 0 l = (l.map f).sum := by
    intro f l
    rw [List.sum_eq_foldl, List.foldl_map]
  rw [countEntries, hsum, count_mul]
  exact congrArg List.sum (List.map_congr_left fun i hi => h i (List.mem_range.mp hi))

/-- Walking `level` pointers down from `pt` by the digits of `vp` ends at a leaf entry with the bits. -/
def LeafWith (m : Mem) (bits : BitVec 64) : Nat → Nat → Nat → Prop
  | 0, pt, vp =>
    pteValid (load64 m (pt + 8 * (vp % 512))) ∧ load64 m (pt + 8 * (vp % 512)) &&& bits = bits
  | level + 1, pt, vp =>
    ∃ c, tableSucc m pt (vp / 512 ^ (level + 1) % 512) = some c ∧
      LeafWith m bits level c (vp % 512 ^ (level + 1))

/-- Every valid entry within `level` levels below `pt` is a pointer. -/
def PointersBelow (m : Mem) (level pt : Nat) : Prop :=
  ∀ p n i, p.length < level → follow (tableSucc m) pt p = some n → i < 512 →
    pteValid (load64 m (n + 8 * i)) → pteTable (load64 m (n + 8 * i))

theorem PointersBelow.child {m : Mem} {level pt i c : Nat} (h : PointersBelow m (level + 1) pt)
    (hc : tableSucc m pt i = some c) : PointersBelow m level c := by
  intro p n j hp hn
  apply h (i :: p) n j
  · rw [List.length_cons]
    omega
  · rw [follow, hc, Option.bind_some, hn]

open Classical in
theorem countPtLevel_eq {m : Mem} (bits : BitVec 64) {level pt : Nat} (h : PointersBelow m level pt) :
    countPtLevel m bits level pt = Nat.count (LeafWith m bits level pt) (512 ^ (level + 1)) := by
  induction level generalizing pt with
  | zero =>
    rw [countPtLevel, zero_add, pow_one, ← Nat.mul_one 512]
    apply countEntries_eq
    intro i hi
    have hmod : (i * 1 + 0) % 512 = i := by omega
    rw [Nat.count_succ, Nat.count_zero, Nat.zero_add, LeafWith, hmod, countEntry]
    by_cases hvalid : pteValid (load64 m (pt + 8 * i))
    · simp [hvalid]
    · simp [hvalid]
  | succ level ih =>
    rw [countPtLevel, Nat.pow_succ, Nat.mul_comm]
    apply countEntries_eq
    intro i hi
    have hdigit : ∀ q < 512 ^ (level + 1), (i * 512 ^ (level + 1) + q) / 512 ^ (level + 1) % 512 = i ∧
        (i * 512 ^ (level + 1) + q) % 512 ^ (level + 1) = q := by
      intro q hq
      have hpos : 0 < 512 ^ (level + 1) := Nat.pow_pos (by decide)
      rw [Nat.mul_comm, Nat.mul_add_div hpos, Nat.div_eq_of_lt hq, Nat.add_zero,
        Nat.mod_eq_of_lt hi, Nat.mul_add_mod, Nat.mod_eq_of_lt hq]
      exact ⟨rfl, rfl⟩
    by_cases hvalid : pteValid (load64 m (pt + 8 * i))
    · have hc := tableSucc_of_valid hi hvalid
      have htable := h [] pt i (Nat.succ_pos level) rfl hi hvalid
      rw [countEntry, if_pos hvalid, if_pos ⟨Nat.succ_pos level, htable⟩, ih (h.child hc)]
      apply count_congr
      intro q hq
      obtain ⟨hdiv, hmod⟩ := hdigit q hq
      rw [LeafWith, hdiv, hmod, hc]
      simp only [Option.some.injEq, exists_eq_left']
    · rw [countEntry, if_neg hvalid, eq_comm, Nat.count_iff_forall_not]
      rintro q hq ⟨c, hc, _⟩
      rw [(hdigit q hq).1, tableSucc_of_invalid hvalid] at hc
      cases hc

/-- On the three levels of a table the walk is the user's. -/
theorem leafWith_two (m : Mem) (flags : BitVec 64) (root vp : Nat) :
    LeafWith m (pteFlags flags) 2 root vp ↔ MappedWith m root flags vp := by
  have h2 : ptIdx 2 (vp * 4096) = vp / 512 ^ 2 % 512 := by
    rw [ptIdx_eq]
    omega
  have h1 : ptIdx 1 (vp * 4096) = vp % 512 ^ 2 / 512 ^ 1 % 512 := by
    rw [ptIdx_eq]
    omega
  have h0 : ptIdx 0 (vp * 4096) = vp % 512 ^ 2 % 512 ^ 1 % 512 := by
    rw [ptIdx_eq]
    omega
  simp only [LeafWith, MappedWith, userPte_eq_some, follow, h2, h1, h0, hasFlags_iff]
  constructor
  · rintro ⟨c, hc, n, hn, hvalid, hbits⟩
    have hpath : ((tableSucc m root (vp / 512 ^ 2 % 512)).bind fun c =>
        (tableSucc m c (vp % 512 ^ 2 / 512 ^ 1 % 512)).bind some) = some n :=
      Option.bind_eq_some_iff.mpr ⟨c, hc, Option.bind_eq_some_iff.mpr ⟨n, hn, rfl⟩⟩
    exact ⟨_, ⟨n, hpath, rfl, hvalid⟩, hbits⟩
  · rintro ⟨e, ⟨n, hpath, rfl, hvalid⟩, hbits⟩
    obtain ⟨c, hc, hrest⟩ := Option.bind_eq_some_iff.mp hpath
    obtain ⟨d, hd, hlast⟩ := Option.bind_eq_some_iff.mp hrest
    obtain rfl := Option.some.inj hlast
    exact ⟨c, hc, d, hd, hvalid, hbits⟩

/-- A valid entry above the last level has no permission bit. -/
def InnerPointer (d : Nat) (e : BitVec 64) : Prop := d < 2 → pteValid e → pteTable e

theorem innerPointer_zero (d : Nat) : InnerPointer d 0 :=
  fun _ hvalid => absurd hvalid not_pteValid_zero

theorem makePte_table {level a : Nat} (hlevel : level ≠ 0) : pteTable (makePte level a 0) := by
  rw [pteTable, makePte_and _ _ _ (by decide), newFlags, if_neg hlevel]
  decide

section Pointers

variable {k k' : Kernel} {bssEnd : Nat} {ts : List Table}

theorem VmStep.pointers (hstep : VmStep ts k k') (h : VmInv k bssEnd ts)
    (hf : Entries InnerPointer k.mem ts) : Entries InnerPointer k'.mem ts := by
  cases hstep with
  | table slot depth fresh invalid inner =>
    exact hf.link h slot fresh invalid (makePte_valid _ _ _) (fresh.ptePpn_makePte h.kernel _ _)
      (fun _ _ => makePte_table inner) innerPointer_zero
  | page slot depth fresh invalid =>
    exact hf.link h slot fresh invalid (makePte_valid _ _ _) (fresh.ptePpn_makePte h.kernel _ _)
      (fun hlt => absurd hlt (by omega)) innerPointer_zero
  | write root depth leaf outside => exact hf.write h root depth leaf outside
  | flags slot depth valid low => exact hf.flags h slot valid low fun hlt => absurd hlt (by omega)

theorem VmSteps.pointers (hsteps : VmSteps ts k k') (h : VmInv k bssEnd ts)
    (hf : Entries InnerPointer k.mem ts) : Entries InnerPointer k'.mem ts := by
  induction hsteps with
  | refl => exact hf
  | tail hsteps hstep ih => exact hstep.pointers (VmSteps.inv hsteps h) ih

theorem Entries.pointersBelow {m : Mem} {t : Table} (hf : Entries InnerPointer m ts) (ht : t ∈ ts) :
    PointersBelow m 2 t.root :=
  fun p n i hp hn hi hvalid => hf _ p n i ⟨t, ht, rfl⟩ (by omega) hn hi hp hvalid

end Pointers

/-- The invariant of a run that counting rests on. -/
structure VmRun.Formed (bssEnd : Nat) (s : VmRun) : Prop where
  inv : VmInv s.state.kernel bssEnd s.tables
  pointers : Entries InnerPointer s.state.kernel.mem s.tables

theorem VmRun.Formed.start {mm : Mm} {bssEnd : Nat} (h : mm.Inv bssEnd) (mem : Mem) (task : UserTask)
    (endTime : BitVec 64) : (bootedRun mm mem task endTime).Formed bssEnd := by
  refine ⟨VmInv.start h mem, ?_⟩
  rintro r _ _ _ ⟨t, ht, _⟩
  cases ht

theorem VmRun.Formed.step {bssEnd : Nat} (s : VmRun) (op : VmOp) (s' : VmRun) (h : s.Formed bssEnd)
    (hstep : s.step op = some s') : s'.Formed bssEnd := by
  refine ⟨VmRun.step_inv s op s' h.inv hstep, ?_⟩
  rcases VmRun.step_steps h.inv hstep with ⟨hsteps, htables⟩ | ⟨a, ha, _, hmem, htables⟩
  · rw [htables]
    exact hsteps.pointers h.inv h.pointers
  · rw [htables, hmem]
    exact h.pointers.create h.inv ha _ innerPointer_zero

theorem countPt_eq {m : Mem} {root : Nat} (h : PointersBelow m 2 root) (flags : BitVec 64) :
    countPt m root flags = (virtualPages.filter (MappedWith m root flags)).card := by
  classical
  have hpages : 512 ^ (2 + 1) = 2 ^ 27 := rfl
  rw [countPt, show pgLevel - 1 = 2 from rfl, countPtLevel_eq _ h, hpages, virtualPages,
    ← Nat.count_eq_card_filter_range]
  exact count_congr fun vp _ => leafWith_two m flags root vp

/-- In every reachable state, `count_pt` counts the virtual pages mapped with the flags. -/
theorem vmRuns_countPt {bssEnd start n : Nat} (h : BootLayout bssEnd start n) (mm₀ : Mm) (mem : Mem)
    (task : UserTask) (endTime : BitVec 64) :
    ∃ mm, bootMm bssEnd start n mm₀ = some mm ∧ ∀ ops s,
      runSteps VmRun.step (bootedRun mm mem task endTime) ops = some s →
        ∀ t ∈ s.tables, ∀ flags, countPt s.state.kernel.mem t.root flags =
          (virtualPages.filter (MappedWith s.state.kernel.mem t.root flags)).card := by
  obtain ⟨mm, hboot, _, hinit⟩ := bootMm_inv h mm₀
  refine ⟨mm, hboot, ?_⟩
  intro ops s hrun t ht flags
  have hformed := runSteps_invariant VmRun.Formed.step
    (VmRun.Formed.start hinit.mm mem task endTime) hrun
  exact countPt_eq (hformed.pointers.pointersBelow ht) flags

/-- The theorem after one mapping. -/
theorem vmRuns_countPt_small :
    ∃ mm s, bootMm 0x40800 0x40000 64 smallMm = some mm ∧
      runSteps VmRun.step (bootedRun mm (fun _ => 0) ⟨0, 0, 0, 0⟩ 0)
        [.createPt, .mapPage (some 0x41000) 0x10000 vmU] = some s ∧
      countPt s.state.kernel.mem 0x41000 vmU =
        (virtualPages.filter (MappedWith s.state.kernel.mem 0x41000 vmU)).card := by
  obtain ⟨mm, hboot, hall⟩ := vmRuns_countPt smallLayout smallMm (fun _ => 0) ⟨0, 0, 0, 0⟩ 0
  obtain ⟨s, hs, t, ht, hroot⟩ := smallRun hboot
  have hcount := hall _ s hs t ht vmU
  rw [hroot] at hcount
  exact ⟨mm, s, hboot, hs, hcount⟩

end VijosOS
