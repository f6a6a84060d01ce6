import VijosOS.Arch.Sv39
import VijosOS.Judge.UserMap

/-!
# Page faults make progress

While a job runs, its page table changes only by resolved faults. The handler tests the entry
of the low 39 bits of the address for the flags of the access, and the hardware tests more: the
upper bits of the address, and that no entry has write without read.
-/

namespace VijosOS

open Library

section Handler

variable {k k' : Kernel} {bssEnd : Nat} {ts : List Table} {t : Table}

/-- A fault on a mapped page is resolved when its entry has the flags of the access. -/
theorem handlePageFault_mapped (ht : t ∈ ts) {satp e : BitVec 64} (cause : BitVec 64) {va : Nat}
    (hsatp : satpRoot satp = t.root) (hpte : userPte k.mem t.root va = some e) :
    ∃ n, Slot k ts t [ptIdx 2 va, ptIdx 1 va] n (ptIdx 0 va) ∧ load64 k.mem (n + 8 * ptIdx 0 va) = e ∧
      handlePageFault satp cause va k = if e &&& faultFlags cause = faultFlags cause
        then (true, { k with mem := store64 k.mem (n + 8 * ptIdx 0 va) (e ||| faultAd cause) })
        else (false, k) := by
  obtain ⟨n, hn, rfl, hvalid⟩ := userPte_eq_some.mp hpte
  refine ⟨n, ⟨ht, by simp, hn, ptIdx_lt 0 va⟩, rfl, ?_⟩
  rw [handlePageFault, hsatp, getPte_mapped hn]

/-- A fault on a page that is not mapped is refused. -/
theorem handlePageFault_unmapped (h : VmInv k bssEnd ts) (ht : t ∈ ts) {satp : BitVec 64}
    (cause : BitVec 64) {va : Nat} (hsatp : satpRoot satp = t.root) (hpte : userPte k.mem t.root va = none) :
    (handlePageFault satp cause va k).1 = false := by
  rcases hwalk : getPte (some t.root) va k with ⟨pte, k₁⟩
  obtain ⟨_, hview, hslot⟩ := getPte_spec h ht hwalk
  cases pte with
  | none => simp only [handlePageFault, hsatp, hwalk]
  | some a =>
    obtain ⟨n, s, rfl⟩ := hslot a rfl
    have hinvalid : ¬ pteValid (load64 k₁.mem (n + 8 * ptIdx 0 va)) := by
      intro hvalid
      have hsome : userPte k₁.mem t.root va = some (load64 k₁.mem (n + 8 * ptIdx 0 va)) :=
        userPte_eq_some.mpr ⟨n, s.node, rfl, hvalid⟩
      rw [userPte, hview _ _ ⟨t, ht, rfl⟩] at hsome
      exact Option.some_ne_none _ (hsome.symm.trans hpte)
    have hflags : ¬ load64 k₁.mem (n + 8 * ptIdx 0 va) &&& faultFlags cause = faultFlags cause := by
      intro hflags
      apply hinvalid
      rw [pteValid_iff]
      have hbit := faultFlags_valid cause
      rw [← hflags, BitVec.getLsbD_and, Bool.and_eq_true] at hbit
      exact hbit.1
    simp only [handlePageFault, hsatp, hwalk, if_neg hflags]

/-! ## The entry after a resolved fault -/

/-- The handler's test and update against the hardware's rules. -/
theorem resolved_permits {e : BitVec 64} {acc : Access}
    (hflags : e &&& faultFlags acc.cause = faultFlags acc.cause) (hhigh : e >>> 54 = 0) :
    LeafPermits (e ||| faultAd acc.cause) acc ∧
      ¬ ((e ||| faultAd acc.cause) &&& pteR = 0 ∧ (e ||| faultAd acc.cause) &&& pteX = 0) ∧
      (ReservedEntry (e ||| faultAd acc.cause) ↔ e &&& pteR = 0 ∧ e &&& pteW ≠ 0) := by
  have hzero : ∀ v : BitVec 64, v ||| 0 = v := fun v => BitVec.or_zero
  -- a bit of the test is set in the entry
  have hset : ∀ bit : BitVec 64, bit ≠ 0 → faultFlags acc.cause &&& bit = bit →
      (e ||| faultAd acc.cause) &&& bit ≠ 0 := by
    intro bit hbit hin hnone
    rw [BitVec.and_or_distrib_right] at hnone
    apply hbit
    rw [← hin, ← hflags, BitVec.and_assoc, hin]
    exact (BitVec.or_eq_zero_iff.mp hnone).1
  have hadded : ∀ bit : BitVec 64, faultAd acc.cause &&& bit ≠ 0 →
      (e ||| faultAd acc.cause) &&& bit ≠ 0 := by
    intro bit hin hnone
    rw [BitVec.and_or_distrib_right] at hnone
    exact hin (BitVec.or_eq_zero_iff.mp hnone).2
  have hkept : ∀ bit : BitVec 64, faultAd acc.cause &&& bit = 0 →
      (e ||| faultAd acc.cause) &&& bit = e &&& bit := by
    intro bit hout
    rw [BitVec.and_or_distrib_right, hout, hzero]
  have hread : faultAd acc.cause &&& pteR = 0 := by cases acc <;> decide
  have hwrite : faultAd acc.cause &&& pteW = 0 := by cases acc <;> decide
  refine ⟨⟨hset _ (by decide) ?_, hset _ ?_ ?_, hadded _ ?_, ?_⟩, ?_, ?_⟩
  · cases acc <;> decide
  · cases acc <;> decide
  · cases acc <;> decide
  · cases acc <;> decide
  · rintro rfl
    exact hadded _ (by decide)
  · rintro ⟨hr, hx⟩
    cases acc with
    | fetch => exact hset pteX (by decide) (by decide) hx
    | load => exact hset pteR (by decide) (by decide) hr
    | store => exact hset pteR (by decide) (by decide) hr
  · have hsplit : faultAd acc.cause >>> 54 = (faultAd acc.cause >>> 8) >>> 46 := BitVec.shiftRight_add _ 8 46
    have hnew : (e ||| faultAd acc.cause) >>> 54 = 0 := by
      rw [BitVec.ushiftRight_or_distrib, hhigh, hsplit, faultAd_high]
      decide
    rw [ReservedEntry, hkept _ hread, hkept _ hwrite]
    exact or_iff_left (not_not_intro hnew)

end Handler

/-! ## A running job -/

/-- What changes memory while the user program runs: a page fault that is resolved, and a byte
the program stores in a mapped page. -/
inductive JobEvent where
  | fault (acc : Access) (va : BitVec 64)
  | store (x : Nat) (b : Byte)

def jobStep (root : Nat) (k : Kernel) : JobEvent → Option Kernel
  | .fault acc va =>
    match handlePageFault (setPt root) acc.cause va.toNat k with
    | (true, k) => some k
    | (false, _) => none
  | .store x b => (userPte k.mem root x).map fun e =>
      { k with mem := writeBytes k.mem (ptePpn e + x % 4096) [b] }

/-- The tables of a running job, in 56 bits of physical memory. -/
structure JobInv (bssEnd root : Nat) (k : Kernel) : Prop where
  vm : VmInv k bssEnd [⟨root, 0⟩]
  format : TableFormat k.mem [⟨root, 0⟩]
  size : k.mm.mmbm.size ≤ 2 ^ 44

section Job

variable {k k' : Kernel} {bssEnd root : Nat}

theorem JobInv.mem (_ : JobInv bssEnd root k) : (⟨root, 0⟩ : Table) ∈ [(⟨root, 0⟩ : Table)] :=
  List.mem_singleton.mpr rfl

theorem JobInv.root_lt (h : JobInv bssEnd root k) : root % 4096 = 0 ∧ root < 2 ^ 56 := by
  have hhanded := h.vm.handed (p := []) ⟨_, h.mem, rfl⟩ (by simp) rfl
  have hbelow := h.vm.kernel.below root hhanded
  have hsize := h.size
  exact ⟨h.vm.kernel.aligned root hhanded, by omega⟩

theorem JobInv.steps (h : JobInv bssEnd root k) (hsteps : VmSteps [⟨root, 0⟩] k k') :
    JobInv bssEnd root k' := by
  obtain ⟨hformat, hsize⟩ := hsteps.format h.vm h.format h.size
  exact ⟨hsteps.inv h.vm, hformat, hsize⟩

/-- What changes memory while the program runs are steps of the page-table code. -/
theorem jobStep_steps {e : JobEvent} (h : VmInv k bssEnd [⟨root, 0⟩]) (hstep : jobStep root k e = some k') :
    VmSteps [⟨root, 0⟩] k k' := by
  have ht : (⟨root, 0⟩ : Table) ∈ [(⟨root, 0⟩ : Table)] := List.mem_singleton.mpr rfl
  cases e with
  | fault acc va =>
    rcases hrun : handlePageFault (setPt root) acc.cause va.toNat k with ⟨ok, k₁⟩
    have hsteps := handlePageFault_steps h ht (h.satp ht) hrun
    simp only [jobStep, hrun] at hstep
    cases ok with
    | false => cases hstep
    | true =>
      obtain rfl := Option.some.inj hstep
      exact hsteps
  | store x b =>
    obtain ⟨e, he, rfl⟩ := Option.map_eq_some_iff.mp hstep
    obtain ⟨n, hn, rfl, hvalid⟩ := userPte_eq_some.mp he
    obtain ⟨hwrite, _⟩ := writeBytes_page h ht (x % 4096) [b] (follow_of_leaf hn hvalid)
      (show x % 4096 + [b].length ≤ 4096 from Nat.mod_lt x (by decide))
    exact .single hwrite

theorem runJob_steps {events : List JobEvent} (h : VmInv k bssEnd [⟨root, 0⟩])
    (hrun : runSteps (jobStep root) k events = some k') : VmSteps [⟨root, 0⟩] k k' := by
  refine runSteps_invariant (P := fun k' => VmSteps [⟨root, 0⟩] k k') ?_ .refl hrun
  intro k₁ e k₂ hsteps hstep
  exact hsteps.trans (jobStep_steps (VmSteps.inv hsteps h) hstep)

theorem jobStep_inv (k : Kernel) (e : JobEvent) (k' : Kernel) (h : JobInv bssEnd root k)
    (hstep : jobStep root k e = some k') : JobInv bssEnd root k' := h.steps (jobStep_steps h.vm hstep)

end Job

/-! ## The trap handler -/

/-- After a page fault the same access is permitted, or the job ended with a page-fault error. -/
def FaultResolved (satp cycle : BitVec 64) (tf : TrapFrame) (s : TrapState) (acc : Access) : Prop :=
  (trapHandler satp cycle tf s).1 = .resume tf ∧
      Sv39Permits (trapHandler satp cycle tf s).2.kernel.mem satp tf.tval acc ∨
    (trapHandler satp cycle tf s).1 = .returnFromUser ∧
      (trapHandler satp cycle tf s).2.userTask.exitcode = -11 ∧
      (trapHandler satp cycle tf s).2.userTask.error = -ePAGEFAULT

/-- The page named by the low 39 bits is mapped with the flags of the access, but the address
is not canonical, or the entry has write without read. -/
def FaultRepeats (m : Mem) (root : Nat) (va : BitVec 64) (acc : Access) : Prop :=
  ∃ e, userPte m root va.toNat = some e ∧ e &&& faultFlags acc.cause = faultFlags acc.cause ∧
    (¬ Canonical va ∨ e &&& pteR = 0 ∧ e &&& pteW ≠ 0)

theorem trapHandler_pageFault (satp cycle : BitVec 64) {tf : TrapFrame} {acc : Access}
    (hcause : tf.cause = acc.cause) (s : TrapState) : trapHandler satp cycle tf s =
      if (handlePageFault satp acc.cause tf.tval.toNat s.kernel).1 then
        (.resume tf, { s with kernel := (handlePageFault satp acc.cause tf.tval.toNat s.kernel).2 })
      else (.returnFromUser, {
        kernel := (handlePageFault satp acc.cause tf.tval.toNat s.kernel).2
        userEndTime := tf.cycle
        userTask := { exitcode := -11, error := -ePAGEFAULT, epc := tf.epc, eval := tf.tval } }) := by
  have hpf : tf.cause = causePfFetch ∨ tf.cause = causePfLoad ∨ tf.cause = causePfStore := by
    rw [hcause]
    cases acc with
    | fetch => exact Or.inl rfl
    | load => exact Or.inr (Or.inl rfl)
    | store => exact Or.inr (Or.inr rfl)
  rw [trapHandler, if_pos hpf, hcause]

/-- A fault on the table of a job makes progress exactly when it does not repeat. -/
theorem faultResolved_iff {bssEnd root : Nat} {s : TrapState} (h : JobInv bssEnd root s.kernel)
    (cycle : BitVec 64) {tf : TrapFrame} {acc : Access} (hcause : tf.cause = acc.cause) :
    FaultResolved (setPt root) cycle tf s acc ↔ ¬ FaultRepeats s.kernel.mem root tf.tval acc := by
  obtain ⟨haligned, hlt⟩ := h.root_lt
  unfold FaultResolved
  rw [trapHandler_pageFault (setPt root) cycle hcause]
  cases hpte : userPte s.kernel.mem root tf.tval.toNat with
  | none =>
    have hrefused := handlePageFault_unmapped h.vm h.mem acc.cause (h.vm.satp h.mem) hpte
    rw [hrefused]
    constructor
    · rintro - ⟨e, he, -⟩
      exact Option.some_ne_none e (he.symm.trans hpte)
    · intro _
      exact Or.inr ⟨rfl, rfl, rfl⟩
  | some e =>
    obtain ⟨n, slot, hload, hrun⟩ := handlePageFault_mapped h.mem acc.cause (h.vm.satp h.mem) hpte
    by_cases hflags : e &&& faultFlags acc.cause = faultFlags acc.cause
    · rw [if_pos hflags] at hrun
      have hnext := h.steps (handlePageFault_steps h.vm h.mem (h.vm.satp h.mem) hrun)
      have hhigh : e >>> 54 = 0 := by
        rw [← hload]
        exact h.format.leaf _ _ _ _ slot.root rfl slot.node slot.index
      have hvalid : pteValid e := by
        obtain ⟨_, _, _, hv⟩ := userPte_eq_some.mp hpte
        exact hv
      obtain ⟨hpermits, hleaf, hreserved⟩ := resolved_permits hflags hhigh
      have hupdated : userPte (store64 s.kernel.mem (n + 8 * ptIdx 0 tf.tval.toNat)
          (e ||| faultAd acc.cause)) root tf.tval.toNat = some (e ||| faultAd acc.cause) := by
        refine userPte_eq_some.mpr ⟨n, ?_, load64_store64 _ _ _, (pteValid_or _ _).mpr (Or.inl hvalid)⟩
        have htables := h.vm.or_tables slot (by rw [hload]; exact hvalid) (faultAd_high acc.cause)
        rw [hload] at htables
        rw [follow_of_agree (d := 3) slot.root (by simp) htables]
        exact slot.node
      have hwalk : Sv39Permits (store64 s.kernel.mem (n + 8 * ptIdx 0 tf.tval.toNat)
          (e ||| faultAd acc.cause)) (setPt root) tf.tval acc ↔
          Canonical tf.tval ∧ ¬ (e &&& pteR = 0 ∧ e &&& pteW ≠ 0) := by
        unfold Sv39Permits
        rw [sv39Root_setPt hlt haligned]
        constructor
        · rintro ⟨hcanonical, pte, hfound, _⟩
          obtain ⟨hsome, hok, _⟩ := (sv39Leaf_eq_some hnext.format h.mem).mp hfound
          obtain rfl := Option.some.inj (hupdated.symm.trans hsome)
          exact ⟨hcanonical, fun hbad => hok (hreserved.mpr hbad)⟩
        · rintro ⟨hcanonical, hok⟩
          refine ⟨hcanonical, _, ?_, hpermits⟩
          exact (sv39Leaf_eq_some hnext.format h.mem).mpr
            ⟨hupdated, fun hbad => hok (hreserved.mp hbad), hleaf⟩
      rw [hrun]
      constructor
      · rintro (⟨_, hafter⟩ | ⟨hkilled, _⟩)
        · rintro ⟨e', he', _, hbad⟩
          obtain rfl := Option.some.inj (hpte.symm.trans he')
          obtain ⟨hcanonical, hok⟩ := hwalk.mp hafter
          exact hbad.elim (fun hc => hc hcanonical) hok
        · cases hkilled
      · intro hno
        refine Or.inl ⟨rfl, hwalk.mpr ⟨?_, fun hbad => hno ⟨e, hpte, hflags, Or.inr hbad⟩⟩⟩
        by_contra hcanonical
        exact hno ⟨e, hpte, hflags, Or.inl hcanonical⟩
    · rw [if_neg hflags] at hrun
      rw [hrun]
      constructor
      · rintro - ⟨e', he', hbad, _⟩
        obtain rfl := Option.some.inj (hpte.symm.trans he')
        exact hflags hbad
      · intro _
        exact Or.inr ⟨rfl, rfl, rfl⟩

/-! ## Every job -/

theorem createPt_root {mm : Mm} {bssEnd : Nat} (hmm : mm.Inv bssEnd) {mem : Mem} {root : Nat}
    (hroot : (createPt ⟨mm, mem, []⟩).1 = some root) :
    (∀ o < 4096, (createPt ⟨mm, mem, []⟩).2.mem (root + o) = 0) ∧
      (createPt ⟨mm, mem, []⟩).2.mm.mmbm.size = mm.mmbm.size := by
  rcases Kernel.getFreePage_cases (VmInv.start hmm mem).kernel with hfull | ⟨a, ha, hget⟩
  · simp only [createPt, hfull, if_true] at hroot
    cases hroot
  · have hne := ha.ne_zero (VmInv.start hmm mem).kernel
    simp only [createPt, hget, if_neg hne, kernelPt] at hroot ⊢
    obtain rfl := Option.some.inj hroot
    exact ⟨fun o ho => zeroPage_add _ _ ho, rfl⟩

/-- A job starts user mode on tables the hardware reads as the kernel does. -/
theorem JobBuilt.inv {mm : Mm} {mem : Mem} {bssEnd : Nat} {image : Nat → Byte} {elfLen stdinLen : Nat}
    {u : UserEntry} {k : Kernel} {root : Nat} (h : JobBuilt mm mem bssEnd image elfLen stdinLen u k root)
    (hmm : mm.Reachable bssEnd) (hsize : mm.mmbm.size ≤ 2 ^ 44) : JobInv bssEnd root k := by
  obtain ⟨hzero, hsame⟩ := createPt_root hmm.inv h.create
  have hstart : JobInv bssEnd root (createPt ⟨mm, mem, []⟩).2 :=
    ⟨h.start, TableFormat.empty hzero, hsame ▸ hsize⟩
  exact hstart.steps h.steps

/-- In every state a job reaches, a page fault makes progress exactly when the page of its low
39 bits is not mapped with the flags of the access, or the address is canonical and the entry
does not have write without read. -/
theorem doJudge_fault_progress_iff {mm : Mm} {bssEnd : Nat} (hmm : mm.Reachable bssEnd)
    (hsize : mm.mmbm.size ≤ 2 ^ 44) {mem : Mem} {req : JudgeReq} {elf input : List Byte}
    {zerosLast : BitVec 64} {buff : Nat → Byte} {u : UserEntry} {k : Kernel}
    (hlen : input.length ≤ judgeTftpBuffSize)
    (hrun : doJudge req (.file elf) (.file input) zerosLast buff ⟨mm, mem, []⟩ = (.ok u, k)) :
    ∃ root, u.pt = some root ∧ ∀ events k', runSteps (jobStep root) k events = some k' →
      ∀ (cycle : BitVec 64) (tf : TrapFrame) (s : TrapState) (acc : Access),
        s.kernel = k' → tf.cause = acc.cause →
        (FaultResolved (setPt root) cycle tf s acc ↔ ¬ FaultRepeats k'.mem root tf.tval acc) := by
  obtain ⟨root, hbuilt⟩ := doJudge_built hmm hlen hrun
  refine ⟨root, hbuilt.pt, ?_⟩
  rintro events k' hevents cycle tf s acc rfl hcause
  exact faultResolved_iff (runSteps_invariant jobStep_inv (hbuilt.inv hmm hsize) hevents) cycle hcause

/-- An address above the 39-bit space whose low bits lie in the segment of the small image. -/
def highVa : BitVec 64 := 0x8000010040

theorem highVa_not_canonical : ¬ Canonical highVa := by decide

/-- A load from the high address repeats in a job with the small image. -/
theorem highVa_repeats {mm : Mm} {mem : Mem} {bssEnd elfLen stdinLen : Nat} {u : UserEntry} {k : Kernel}
    {root : Nat} (h : JobBuilt mm mem bssEnd (writeBytes (fun _ => 0) 0 (bytesAt smallElf 0 120)) elfLen
      stdinLen u k root) : FaultRepeats k.mem root highVa .load := by
  have hphnum : (elfHeader (writeBytes (fun _ => 0) 0 (bytesAt smallElf 0 120))).ePhnum = 1 := by
    decide +kernel
  have hflags : (elfPhdr (writeBytes (fun _ => 0) 0 (bytesAt smallElf 0 120)) 0).pFlags = 4 := by
    decide +kernel
  have hload : IsLoad (writeBytes (fun _ => 0) 0 (bytesAt smallElf 0 120))
      (elfHeader (writeBytes (fun _ => 0) 0 (bytesAt smallElf 0 120))).ePhnum 0 := by
    rw [hphnum]
    exact ⟨by decide, by decide +kernel⟩
  have hon : Touches (elfPhdr (writeBytes (fun _ => 0) 0 (bytesAt smallElf 0 120)) 0).pVaddr
      (elfPhdr (writeBytes (fun _ => 0) 0 (bytesAt smallElf 0 120)) 0).pMemsz 0x10040 := by
    decide +kernel
  have hmapped := (h.map.mapped 0x10040 (by decide)).mpr ⟨.segments, 0, hload, hon⟩
  obtain ⟨e, he⟩ := Option.ne_none_iff_exists'.mp hmapped
  obtain ⟨a, f, hf, rfl⟩ := h.map.entry 0x10040 (by decide) e he
  have hsame : userPte k.mem root highVa.toNat = userPte k.mem root 0x10040 := by
    have hidx : ptIdx 2 highVa.toNat = ptIdx 2 0x10040 ∧ ptIdx 1 highVa.toNat = ptIdx 1 0x10040 ∧
        ptIdx 0 highVa.toNat = ptIdx 0 0x10040 ∧ highVa.toNat % 4096 = 0x10040 % 4096 := by
      decide
    unfold userPte userView
    rw [hidx.1, hidx.2.1, hidx.2.2.1, hidx.2.2.2]
  refine ⟨_, hsame.trans he, ?_, Or.inl highVa_not_canonical⟩
  rw [makePte_and 0 a f (by decide)]
  rcases hf with ⟨i, hi, rfl⟩ | rfl | rfl
  · rw [hphnum] at hi
    obtain rfl : i = 0 := by
      have hlt := hi.1
      omega
    rw [hflags]
    decide
  · decide
  · decide

def loadFrame (tval : BitVec 64) : TrapFrame := ⟨fun _ => 0, 0, 0, tval, causePfLoad, 0⟩

theorem doJudge_fault_progress_iff_small : ∃ mm u k root,
    doJudge ⟨1, 1000, 0⟩ (.file (bytesAt smallElf 0 120)) (.file []) 0 (fun _ => 0)
      ⟨mm, fun _ => 0, []⟩ = (.ok u, k) ∧
    (FaultResolved (setPt root) 0 (loadFrame 0x10040) ⟨k, ⟨0, 0, 0, 0⟩, 0⟩ .load ↔
      ¬ FaultRepeats k.mem root 0x10040 .load) := by
  obtain ⟨mm, hmm, hsize, u, k, hrun⟩ := boot_reaches (bytesAt smallElf 0 120) (by decide +kernel)
  obtain ⟨root, _, hall⟩ := doJudge_fault_progress_iff hmm (by rw [hsize]; decide)
    (show [].length ≤ judgeTftpBuffSize by decide) hrun
  exact ⟨mm, u, k, root, hrun, hall [] k rfl 0 (loadFrame 0x10040) ⟨k, ⟨0, 0, 0, 0⟩, 0⟩ .load rfl rfl⟩

/-- A load from a non-canonical address whose low bits are mapped faults for ever. -/
theorem doJudge_fault_progress_not_always :
    ¬ ∀ (mm : Mm) (bssEnd : Nat), mm.Reachable bssEnd → mm.mmbm.size ≤ 2 ^ 44 →
      ∀ (mem : Mem) (req : JudgeReq) (elf input : List Byte) (zerosLast : BitVec 64)
        (buff : Nat → Byte) (u : UserEntry) (k : Kernel) (root : Nat),
      input.length ≤ judgeTftpBuffSize →
      doJudge req (.file elf) (.file input) zerosLast buff ⟨mm, mem, []⟩ = (.ok u, k) →
      u.pt = some root →
      ∀ (cycle : BitVec 64) (tf : TrapFrame) (s : TrapState) (acc : Access), s.kernel = k →
        tf.cause = acc.cause → ¬ Sv39Permits k.mem (setPt root) tf.tval acc →
        FaultResolved (setPt root) cycle tf s acc := by
  intro h
  obtain ⟨mm, hmm, hsize, u, k, hrun⟩ := boot_reaches (bytesAt smallElf 0 120) (by decide +kernel)
  have hsmall : mm.mmbm.size ≤ 2 ^ 44 := by
    rw [hsize]
    decide
  have hlen : ([] : List Byte).length ≤ judgeTftpBuffSize := by decide
  obtain ⟨root, hbuilt⟩ := doJudge_built hmm hlen hrun
  have hresolved := h mm _ hmm hsmall _ _ _ [] _ _ u k root hlen hrun hbuilt.pt 0 (loadFrame highVa)
    ⟨k, ⟨0, 0, 0, 0⟩, 0⟩ .load rfl rfl fun hpermits => highVa_not_canonical hpermits.1
  have hjob : JobInv _ root (TrapState.mk k ⟨0, 0, 0, 0⟩ 0).kernel := hbuilt.inv hmm hsmall
  exact (faultResolved_iff hjob 0 rfl).mp hresolved (highVa_repeats hbuilt)

end VijosOS
