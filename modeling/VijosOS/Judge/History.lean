import VijosOS.Judge.Verdict

/-!
# Jobs leave no trace

`judge_entry` takes a snapshot of the allocator before `do_judge` and restores it afterwards. What
happens between only calls `get_free_page`, so after any jobs the next one finds the allocator as
the first one did.
-/

namespace VijosOS

open Library

/-! ## What the kernel does to the allocator -/

/-- The allocator after some calls of `get_free_page`. -/
abbrev Gets : Mm → Mm → Prop := Relation.ReflTransGen fun mm mm' => mm' = (getFreePage mm).2

theorem Gets.get (mm : Mm) : Gets mm (getFreePage mm).2 := .single rfl

section Operations

variable (pt : Option Nat) (flags : BitVec 64) (src : Nat → Byte)

theorem Kernel.getFreePage_gets (k : Kernel) : Gets k.mm k.getFreePage.2.mm := .get k.mm

/-- The allocator after an operation whose result is known. -/
theorem Gets.result {α : Type} {r : α × Kernel} {k k' : Kernel} {a : α} (h : Gets k.mm r.2.mm)
    (hr : r = (a, k')) : Gets k.mm k'.mm := by
  rw [hr] at h
  exact h

theorem createPt_gets (k : Kernel) : Gets k.mm (createPt k).2.mm := by
  rcases hk : k.getFreePage with ⟨pg, k₁⟩
  have hget := k.getFreePage_gets.result hk
  simp only [createPt, hk]
  split_ifs
  · exact hget
  · exact hget

theorem getPtLevel_gets (level n idx : Nat) (k : Kernel) : Gets k.mm (getPtLevel level n idx k).2.mm := by
  rcases hk : k.getFreePage with ⟨pg, k₁⟩
  have hget := k.getFreePage_gets.result hk
  simp only [getPtLevel, hk]
  split_ifs
  · exact .refl
  · exact hget
  · exact hget

theorem getPte_gets (va : Nat) (k : Kernel) : Gets k.mm (getPte pt va k).2.mm := by
  cases pt with
  | none => exact .refl
  | some root =>
    rcases hk : getPtLevel 2 root (ptIdx 2 va) k with ⟨pt₂, k₂⟩
    have htwo := (getPtLevel_gets 2 root (ptIdx 2 va) k).result hk
    cases pt₂ with
    | none =>
      simp only [getPte, hk]
      exact htwo
    | some c =>
      rcases hk₁ : getPtLevel 1 c (ptIdx 1 va) k₂ with ⟨pt₁, k₁⟩
      have hone := (getPtLevel_gets 1 c (ptIdx 1 va) k₂).result hk₁
      cases pt₁ with
      | none =>
        simp only [getPte, hk, hk₁]
        exact htwo.trans hone
      | some n =>
        simp only [getPte, hk, hk₁]
        exact htwo.trans hone

theorem mapPage_gets (va : Nat) (k : Kernel) : Gets k.mm (mapPage pt va flags k).2.mm := by
  rcases hk : getPte pt va k with ⟨pte, k₁⟩
  have hwalk := (getPte_gets pt va k).result hk
  cases pte with
  | none =>
    simp only [mapPage, hk]
    exact hwalk
  | some e =>
    rcases hk₂ : k₁.getFreePage with ⟨pg, k₂⟩
    have hget := k₁.getFreePage_gets.result hk₂
    simp only [mapPage, hk, hk₂]
    split_ifs
    · exact hwalk
    · exact hwalk.trans hget
    · exact hwalk.trans hget

theorem mapAndWrite_gets (va off n : Nat) (k : Kernel) :
    Gets k.mm (mapAndWrite pt va flags off src n k).2.mm := by
  rcases hk : mapPage pt va flags k with ⟨pg, k₁⟩
  have hmap := (mapPage_gets pt flags va k).result hk
  cases pg with
  | none =>
    simp only [mapAndWrite, hk]
    exact hmap
  | some a =>
    simp only [mapAndWrite, hk]
    exact hmap

theorem copyPagesFrom_gets (va n : Nat) (k : Kernel) :
    Gets k.mm (copyPagesFrom pt flags va n src k).2.mm := by
  induction n generalizing va src k with
  | zero => exact .refl
  | succ n ih =>
    rcases hk : mapAndWrite pt va flags 0 src pgSize k with ⟨ok, k₁⟩
    have hpage := (mapAndWrite_gets pt flags src va 0 pgSize k).result hk
    cases ok with
    | false =>
      simp only [copyPagesFrom, hk]
      exact hpage
    | true =>
      simp only [copyPagesFrom, hk]
      exact hpage.trans (ih _ _ _)

theorem mapPagesFrom_gets (va n : Nat) (k : Kernel) : Gets k.mm (mapPagesFrom pt flags va n k).2.mm := by
  induction n generalizing va k with
  | zero => exact .refl
  | succ n ih =>
    rcases hk : mapPage pt va flags k with ⟨pg, k₁⟩
    have hpage := (mapPage_gets pt flags va k).result hk
    cases pg with
    | none =>
      simp only [mapPagesFrom, hk]
      exact hpage
    | some a =>
      simp only [mapPagesFrom, hk]
      exact hpage.trans (ih _ _)

theorem mapRange_gets (lo hi : Nat) (k : Kernel) : Gets k.mm (mapRange pt flags lo hi k).2.mm :=
  mapPagesFrom_gets pt flags lo (pageCount lo hi) k

theorem copyHead_gets (va len : Nat) (k : Kernel) : Gets k.mm (copyHead pt va flags src len k).2.mm := by
  unfold copyHead
  split_ifs
  · exact mapAndWrite_gets pt flags src _ _ _ k
  · exact .refl

theorem copyTail_gets (va len : Nat) (k : Kernel) : Gets k.mm (copyTail pt va flags src len k).2.mm := by
  unfold copyTail
  split_ifs
  · exact mapAndWrite_gets pt flags src _ _ _ k
  · exact .refl

theorem mapAndCopy_gets (va len : Nat) (k : Kernel) : Gets k.mm (mapAndCopy pt va flags src len k).2.mm := by
  unfold mapAndCopy
  split_ifs
  · exact .refl
  rcases hhead : copyHead pt va flags src len k with ⟨ok₁, k₁⟩
  have h₁ := (copyHead_gets pt flags src va len k).result hhead
  cases ok₁ with
  | false => exact h₁
  | true =>
    dsimp only
    generalize pageCount (pgAlign va) (pgAlignFloor (wrap64 (va + len))) = n
    rcases hmid : copyPagesFrom pt flags (pgAlign va) n (fun i => src (headChunk va len + i)) k₁ with ⟨ok₂, k₂⟩
    have h₂ := (copyPagesFrom_gets pt flags _ (pgAlign va) n k₁).result hmid
    cases ok₂ with
    | false => exact h₁.trans h₂
    | true =>
      dsimp only
      rcases htail : copyTail pt (pgAlignFloor (wrap64 (va + len))) flags
        (fun i => src (headChunk va len + n * pgSize + i)) (len - (headChunk va len + n * pgSize)) k₂
        with ⟨ok₃, k₃⟩
      have h₃ := (copyTail_gets pt flags _ _ _ k₂).result htail
      cases ok₃ with
      | false => exact (h₁.trans h₂).trans h₃
      | true => exact (h₁.trans h₂).trans h₃

theorem mapSegment_gets (ph : Elf64Phdr) (k : Kernel) : Gets k.mm (mapSegment pt src ph k).2.mm := by
  rcases hcopy : mapAndCopy pt ph.pVaddr (segmentFlags ph.pFlags) (fun i => src (ph.pOffset + i))
    ph.pFilesz k with ⟨ret, k₁⟩
  have h₁ := (mapAndCopy_gets pt _ _ ph.pVaddr ph.pFilesz k).result hcopy
  simp only [mapSegment, hcopy]
  split_ifs
  · exact h₁
  · rcases hmap : mapRange pt (segmentFlags ph.pFlags) (pgAlignFloor (wrap64 (ph.pVaddr + ph.pFilesz)))
      (pgAlign (wrap64 (ph.pVaddr + ph.pMemsz))) k₁ with ⟨ok, k₂⟩
    have h₂ := (mapRange_gets pt _ _ _ k₁).result hmap
    cases ok with
    | false => exact h₁.trans h₂
    | true => exact h₁.trans h₂
  · exact h₁

theorem loadSegments_gets (len i n : Nat) (k : Kernel) : Gets k.mm (loadSegments pt src len i n k).2.mm := by
  induction n generalizing i k with
  | zero => exact .refl
  | succ n ih =>
    rcases hseg : loadSegment pt src len (elfPhdr src i) k with ⟨ret, k₁⟩
    have h₁ : Gets k.mm k₁.mm := by
      refine Gets.result (r := loadSegment pt src len (elfPhdr src i) k) ?_ hseg
      unfold loadSegment
      split_ifs
      · exact .refl
      · exact .refl
      · exact .refl
      · exact mapSegment_gets pt src _ k
      · exact .refl
    simp only [loadSegments, hseg]
    split_ifs
    · exact h₁
    · exact h₁.trans (ih _ _)

theorem loadElf_gets (len : Nat) (k : Kernel) : Gets k.mm (loadElf pt src len k).kernel.mm := by
  rcases loadElf_kernel pt src len k with hsame | hload
  · rw [hsame]
  · rw [hload]
    exact loadSegments_gets pt src len _ _ k

end Operations

/-! ## A job -/

/-- A part of `do_judge` that only takes pages from the allocator. -/
def TakesPages {α : Type} (x : KernelM α) : Prop := ∀ k, Gets k.mm (x k).2.mm

section Monad

variable {α β : Type}

theorem TakesPages.bind {x : KernelM α} {f : α → KernelM β} (hx : TakesPages x) (hf : ∀ a, TakesPages (f a)) :
    TakesPages (x >>= f) := by
  intro k
  rw [kernelM_bind]
  rcases hk : x k with ⟨r, k₁⟩
  have h₁ := (hx k).result hk
  cases r with
  | ok a => exact h₁.trans (hf a k₁)
  | error e => exact h₁

theorem takesPages_pure (a : α) : TakesPages (pure a : KernelM α) := fun _ => .refl

theorem takesPages_get (d : Download) : TakesPages d.get := by
  intro k
  cases d with
  | failed ret negative => exact .refl
  | file bytes => exact .refl

theorem takesPages_check {op : Kernel → Int × Kernel} (h : ∀ k, Gets k.mm (op k).2.mm) :
    TakesPages (check op) := by
  intro k
  rcases hk : op k with ⟨ret, k₁⟩
  have h₁ := (h k).result hk
  simp only [check, hk]
  split_ifs
  · exact h₁
  · exact h₁

theorem takesPages_checkOom {op : Kernel → Bool × Kernel} (h : ∀ k, Gets k.mm (op k).2.mm) :
    TakesPages (checkOom op) := by
  intro k
  rcases hk : op k with ⟨ok, k₁⟩
  have h₁ := (h k).result hk
  simp only [checkOom, hk]
  cases ok with
  | false => exact h₁
  | true => exact h₁

theorem takesPages_loadImage (pt : Option Nat) (elf : Nat → Byte) (len : Nat) :
    TakesPages (loadImage pt elf len) := by
  intro k
  have h := loadElf_gets pt elf len k
  unfold loadImage
  dsimp only
  split_ifs
  · exact h
  · exact h

theorem takesPages_setupStack (pt : Option Nat) (stackVa : Nat) (aux stackWord : List Nat) :
    TakesPages (setupStack pt stackVa aux stackWord) := by
  refine TakesPages.bind (fun k => mapPage_gets pt _ stackVa k) fun page => ?_
  exact TakesPages.bind (fun _ => .refl) fun _ _ => .refl

theorem takesPages_mapAndCopy (pt : Option Nat) (va : Nat) (flags : BitVec 64) (src : Nat → Byte) (len : Nat) :
    TakesPages (check (mapAndCopy pt va flags src len)) :=
  takesPages_check fun k => mapAndCopy_gets pt flags src va len k

theorem takesPages_mapRange (pt : Option Nat) (flags : BitVec 64) (lo hi : Nat) :
    TakesPages (checkOom (mapRange pt flags lo hi)) :=
  takesPages_checkOom fun k => mapRange_gets pt flags lo hi k

theorem takesPages_newPt : TakesPages newPt := fun k => createPt_gets k

theorem takesPages_buildUser (req : JudgeReq) (elf : List Byte) (stdin : Download) (zerosLast : BitVec 64)
    (buff : Nat → Byte) (pt : Option Nat) : TakesPages (buildUser req elf stdin zerosLast buff pt) := by
  unfold buildUser
  refine TakesPages.bind (takesPages_loadImage _ _ _) fun entryVa => ?_
  refine TakesPages.bind (takesPages_mapAndCopy _ _ _ _ _) fun _ => ?_
  refine TakesPages.bind (takesPages_get _) fun stdinBytes => ?_
  refine TakesPages.bind (takesPages_mapAndCopy _ _ _ _ _) fun _ => ?_
  refine TakesPages.bind (takesPages_mapRange _ _ _ _) fun _ => ?_
  refine TakesPages.bind (takesPages_mapRange _ _ _ _) fun _ => ?_
  refine TakesPages.bind (takesPages_mapRange _ _ _ _) fun _ => ?_
  refine TakesPages.bind (takesPages_setupStack _ _ _ _) fun _ => ?_
  exact takesPages_pure _

theorem takesPages_doJudge (req : JudgeReq) (elf stdin : Download) (zerosLast : BitVec 64)
    (buff : Nat → Byte) : TakesPages (doJudge req elf stdin zerosLast buff) := by
  unfold doJudge
  refine TakesPages.bind (takesPages_get elf) fun elfBytes => ?_
  refine TakesPages.bind takesPages_newPt fun pt => ?_
  exact takesPages_buildUser req elfBytes stdin zerosLast buff pt

end Monad

section UserMode

variable {bssEnd : Nat}

theorem handlePageFault_gets (satp cause : BitVec 64) (va : Nat) (k : Kernel) :
    Gets k.mm (handlePageFault satp cause va k).2.mm := by
  rcases hk : getPte (some (satpRoot satp)) va k with ⟨pte, k₁⟩
  have h₁ := (getPte_gets _ va k).result hk
  simp only [handlePageFault, hk]
  cases pte with
  | none => exact h₁
  | some a =>
    dsimp only
    split_ifs
    · exact h₁
    · exact h₁

theorem jobStep_gets {root : Nat} {k k' : Kernel} {e : JobEvent} (h : jobStep root k e = some k') :
    Gets k.mm k'.mm := by
  cases e with
  | fault acc va =>
    rcases hk : handlePageFault (setPt root) acc.cause va.toNat k with ⟨ok, k₁⟩
    have h₁ := (handlePageFault_gets _ _ _ k).result hk
    simp only [jobStep, hk] at h
    cases ok with
    | false => cases h
    | true =>
      obtain rfl := Option.some.inj h
      exact h₁
  | store x b =>
    obtain ⟨e, _, rfl⟩ := Option.map_eq_some_iff.mp h
    exact .refl

theorem callUser_gets {env : JobEnv bssEnd} {u : UserEntry} {k : Kernel} {s : TrapState}
    (h : callUser env u k = some s) : Gets k.mm s.kernel.mm := by
  obtain ⟨k₁, hevents, htrap⟩ := Option.bind_eq_some_iff.mp h
  have h₁ : Gets k.mm k₁.mm := by
    refine runSteps_invariant (P := fun k' => Gets k.mm k'.mm) ?_ .refl hevents
    exact fun k₁ e k₂ hk hstep => hk.trans (jobStep_gets hstep)
  rcases hrun : trapHandler (setPt (u.pt.getD 0)) env.cycle env.tf ⟨k₁, env.userTask, env.userEndTime⟩
    with ⟨r, s₁⟩
  rw [hrun] at htrap
  cases r with
  | returnFromUser =>
    obtain rfl := Option.some.inj htrap
    rcases (trapHandler_return hrun).1 with hsame | hfault
    · rw [hsame]
      exact h₁
    · rw [hfault]
      exact h₁.trans (handlePageFault_gets _ _ _ k₁)
  | resume tf => cases htrap
  | kernelException => cases htrap
  | unhandledInterrupt => cases htrap

theorem afterReads_gets (s : Ctx × Kernel) (n : Nat) : Gets s.2.mm (afterReads s n).2.mm := by
  induction n with
  | zero => exact .refl
  | succ n ih =>
    refine ih.trans ?_
    rcases hk : mapPage (afterReads s n).1.pt (afterReads s n).1.buff (vmU ||| vmR ||| vmW) (afterReads s n).2
      with ⟨pg, k₁⟩
    have h₁ := (mapPage_gets _ _ _ (afterReads s n).2).result hk
    simp only [afterReads, judgeReadBlock, hk]
    exact h₁

end UserMode

/-! ## Snapshot and restore -/

section Snapshot

variable {mm mm' : Mm} {bssEnd : Nat}

/-- What calls of `get_free_page` leave alone. -/
structure SameBeyond (mm mm' : Mm) : Prop where
  mmbmAt : mm'.mmbmAt = mm.mmbmAt
  snapshotAt : mm'.mmbmSnapshotAt = mm.mmbmSnapshotAt
  snapshot : mm'.mmbmSnapshot = mm.mmbmSnapshot
  size : mm'.mmbm.size = mm.mmbm.size
  bits : ∀ i, mm.mmbm.size / 64 ≤ i → mm'.mmbm.bits i = mm.mmbm.bits i

theorem getFreePage_same (h : mm.Inv bssEnd) :
    (getFreePage mm).2.Inv bssEnd ∧ SameBeyond mm (getFreePage mm).2 := by
  rcases getFreePage_spec h.counted with ⟨heq, _⟩ | ⟨pg, hpg, hfree, heq⟩
  · rw [heq]
    exact ⟨h, rfl, rfl, rfl, rfl, fun _ _ => rfl⟩
  · rw [heq]
    refine ⟨h.mark hpg hfree, rfl, rfl, rfl, rfl, fun i hi => ?_⟩
    have hblock := h.counted.block
    exact Function.update_of_ne (by omega) _ _

theorem Gets.same (hgets : Gets mm mm') (h : mm.Inv bssEnd) : mm'.Inv bssEnd ∧ SameBeyond mm mm' := by
  induction hgets with
  | refl => exact ⟨h, rfl, rfl, rfl, rfl, fun _ _ => rfl⟩
  | tail _ hget ih =>
    obtain ⟨hinv, hsame⟩ := ih
    obtain ⟨hinv', hsame'⟩ := getFreePage_same hinv
    rw [hget]
    refine ⟨hinv', hsame'.mmbmAt.trans hsame.mmbmAt, hsame'.snapshotAt.trans hsame.snapshotAt,
      hsame'.snapshot.trans hsame.snapshot, hsame'.size.trans hsame.size, fun i hi => ?_⟩
    rw [hsame'.bits i (by rw [hsame.size]; exact hi), hsame.bits i hi]

/-- A second snapshot of an unchanged bitmap changes nothing. -/
theorem takeSnapshot_idem (mm : Mm) : mmTakeSnapshot (mmTakeSnapshot mm) = mmTakeSnapshot mm := by
  have hbits : ∀ i, (if i < (mmbmSize mm - 24) / 8 then mm.mmbm.bits i else
      if i < (mmbmSize mm - 24) / 8 then mm.mmbm.bits i else mm.mmbmSnapshot.bits i) =
      if i < (mmbmSize mm - 24) / 8 then mm.mmbm.bits i else mm.mmbmSnapshot.bits i := by
    intro i
    split_ifs
    · rfl
    · rfl
  show Mm.mk _ _ _ (MmBitmap.mk _ _ _ _) = Mm.mk _ _ _ (MmBitmap.mk _ _ _ _)
  exact congrArg (fun bits => Mm.mk mm.mmbmAt mm.mmbm mm.mmbmSnapshotAt
    ⟨mm.mmbm.size, mm.mmbm.next, mm.mmbm.used, bits⟩) (funext hbits)

/-- Restoring after any calls of `get_free_page` gives the state at the snapshot. -/
theorem restore_gets (h : (mmTakeSnapshot mm).Inv bssEnd) (hgets : Gets (mmTakeSnapshot mm) mm') :
    mmRestoreSnapshot mm' = mmTakeSnapshot mm := by
  obtain ⟨_, hsame⟩ := hgets.same h
  have hbytes : bitmapBytes mm.mmbm = 24 + mm.mmbm.size / 64 * 8 :=
    bitmapBytes_eq mm.mmbm h.counted.block h.counted.bound
  have hwords : (bitmapBytes mm.mmbm - 24) / 8 = mm.mmbm.size / 64 := by omega
  have hsnapshot : mm'.mmbmSnapshot = copyBitmap mm.mmbmSnapshot mm.mmbm (bitmapBytes mm.mmbm) := hsame.snapshot
  have hsize : bitmapBytes mm'.mmbmSnapshot = bitmapBytes mm.mmbm := by
    rw [hsnapshot]
    rfl
  have hrestored : copyBitmap mm'.mmbm mm'.mmbmSnapshot (bitmapBytes mm'.mmbmSnapshot) = mm.mmbm := by
    rw [hsize, hsnapshot]
    show MmBitmap.mk mm.mmbm.size mm.mmbm.next mm.mmbm.used _ = mm.mmbm
    have hbits : (fun i => if i < (bitmapBytes mm.mmbm - 24) / 8 then
        (if i < (bitmapBytes mm.mmbm - 24) / 8 then mm.mmbm.bits i else mm.mmbmSnapshot.bits i)
        else mm'.mmbm.bits i) = mm.mmbm.bits := by
      funext i
      by_cases hi : i < (bitmapBytes mm.mmbm - 24) / 8
      · rw [if_pos hi, if_pos hi]
      · rw [if_neg hi]
        exact hsame.bits i (by rw [hwords] at hi; exact Nat.not_lt.mp hi)
    exact congrArg (MmBitmap.mk mm.mmbm.size mm.mmbm.next mm.mmbm.used) hbits
  have hat : mm'.mmbmAt = mm.mmbmAt := hsame.mmbmAt
  have hsnapAt : mm'.mmbmSnapshotAt = mm.mmbmSnapshotAt := hsame.snapshotAt
  show Mm.mk mm'.mmbmAt (copyBitmap mm'.mmbm mm'.mmbmSnapshot (bitmapBytes mm'.mmbmSnapshot))
    mm'.mmbmSnapshotAt mm'.mmbmSnapshot = Mm.mk _ _ _ _
  rw [hrestored, hat, hsnapAt, hsnapshot]
  rfl

theorem Mm.Reachable.take (h : mm.Reachable bssEnd) : (mmTakeSnapshot mm).Reachable bssEnd := by
  obtain ⟨start, n, mm₀, booted, hlayout, hboot, ops, r, hrun, rfl⟩ := h
  refine ⟨start, n, mm₀, booted, hlayout, hboot, ops ++ [.takeSnapshot], ⟨_, r.live, some []⟩, ?_, rfl⟩
  rw [runSteps_append, hrun]
  rfl

theorem Mm.Reachable.restored (h : mm.Reachable bssEnd) (hgets : Gets (mmTakeSnapshot mm) mm') :
    (mmRestoreSnapshot mm').Reachable bssEnd := by
  rw [restore_gets h.take.inv hgets]
  exact h.take

end Snapshot

/-! ## Jobs one after the other -/

/-- The allocator between two jobs. -/
structure JudgeHeap (bssEnd : Nat) where
  mm : Mm
  reachable : mm.Reachable bssEnd

/-- A request with the files of the server, and what the job finds and does besides the allocator;
`reads` counts the blocks of its output that were read. -/
structure Job where
  req : JudgeReq
  elfFile : List Byte
  stdinFile : List Byte
  mem : Mem
  judgeTftpBuff : Nat → Byte
  zerosLast : BitVec 64
  getElf : Transfer GetEvent
  getStdin : Transfer GetEvent
  userStartTime : BitVec 64
  userTask : UserTask
  userEndTime : BitVec 64
  events : List JobEvent
  cycle : BitVec 64
  tf : TrapFrame
  putStdout : Transfer PutEvent
  reads : Nat

namespace JudgeHeap

variable {bssEnd : Nat}

def take (h : JudgeHeap bssEnd) : JudgeHeap bssEnd := ⟨mmTakeSnapshot h.mm, h.reachable.take⟩

/-- The environment of a job that finds the allocator `h`. -/
def env (h : JudgeHeap bssEnd) (j : Job) : JobEnv bssEnd where
  mm := h.mm
  reachable := h.reachable
  mem := j.mem
  judgeTftpBuff := j.judgeTftpBuff
  zerosLast := j.zerosLast
  getElf := j.getElf
  getStdin := j.getStdin
  userStartTime := j.userStartTime
  userTask := j.userTask
  userEndTime := j.userEndTime
  events := j.events
  cycle := j.cycle
  tf := j.tf
  putStdout := j.putStdout

/-- `do_judge`, with the allocator it leaves; `none` while it has not returned. -/
def judge (h : JudgeHeap bssEnd) (j : Job) : Option (JobResult × Mm) :=
  (j.getElf.getFile elfName j.elfFile).bind fun elf =>
    (j.getStdin.getFile stdinName j.stdinFile).bind fun stdin =>
      match doJudge j.req elf stdin j.zerosLast j.judgeTftpBuff ⟨h.mm, j.mem, []⟩ with
      | (.error ret, k) => some (⟨ret, none⟩, k.mm)
      | (.ok u, k) => (callUser (h.env j) u k).bind fun exit =>
          let run : UserRun := ⟨j.req, elf.bytes, stdin.bytes, u, k, j.userStartTime, exit, none⟩
          (finishJudge (h.env j) run).map fun r => (r, (afterReads run.ctx j.reads).2.mm)

/-- The result is that of the job in the system of the daemon and its client. -/
theorem judge_fst (h : JudgeHeap bssEnd) (j : Job) :
    (h.judge j).map Prod.fst = judgeJob j.elfFile j.stdinFile (h.env j) j.req := by
  unfold judge judgeJob
  rw [Option.map_bind]
  refine congrArg (Option.bind _) (funext fun elf => ?_)
  rw [Function.comp_apply, Option.map_bind]
  refine congrArg (Option.bind _) (funext fun stdin => ?_)
  dsimp only [Function.comp_apply, env]
  rcases doJudge j.req elf stdin j.zerosLast j.judgeTftpBuff ⟨h.mm, j.mem, []⟩ with ⟨ret, k⟩
  cases ret with
  | error e => rfl
  | ok u =>
    dsimp only
    rw [Option.map_bind]
    refine congrArg (Option.bind _) (funext fun exit => ?_)
    rw [Function.comp_apply, Option.map_map]
    exact Option.map_id'

theorem judgeJob_judge {h : JudgeHeap bssEnd} {j : Job} {r : JobResult}
    (hjob : judgeJob j.elfFile j.stdinFile (h.env j) j.req = some r) : ∃ mm, h.judge j = some (r, mm) := by
  obtain ⟨⟨_, mm⟩, hjudge, rfl⟩ := Option.map_eq_some_iff.mp ((judge_fst h j).trans hjob)
  exact ⟨mm, hjudge⟩

/-- A job takes pages from the allocator, however it ends. -/
theorem judge_gets {h : JudgeHeap bssEnd} {j : Job} {r : JobResult} {mm : Mm} (hjudge : h.judge j = some (r, mm)) :
    Gets h.mm mm := by
  obtain ⟨elf, _, hrest⟩ := Option.bind_eq_some_iff.mp hjudge
  obtain ⟨stdin, _, hrest⟩ := Option.bind_eq_some_iff.mp hrest
  have hbuild := takesPages_doJudge j.req elf stdin j.zerosLast j.judgeTftpBuff ⟨h.mm, j.mem, []⟩
  rcases hrun : doJudge j.req elf stdin j.zerosLast j.judgeTftpBuff ⟨h.mm, j.mem, []⟩ with ⟨ret, k⟩
  have hpages : Gets h.mm k.mm := hbuild.result hrun
  rw [hrun] at hrest
  cases ret with
  | error e =>
    obtain ⟨_, rfl⟩ := Prod.mk.inj (Option.some.inj hrest)
    exact hpages
  | ok u =>
    obtain ⟨exit, hexit, hrest⟩ := Option.bind_eq_some_iff.mp hrest
    obtain ⟨r', _, hpair⟩ := Option.map_eq_some_iff.mp hrest
    obtain ⟨_, rfl⟩ := Prod.mk.inj hpair
    refine (hpages.trans (callUser_gets hexit)).trans ?_
    generalize hr : (⟨j.req, elf.bytes, stdin.bytes, u, k, j.userStartTime, exit, none⟩ : UserRun) = run
    have hupload : run.ctx.2.mm = exit.kernel.mm := by
      rw [← hr]
      unfold UserRun.ctx uploadCtx
      dsimp only
      split_ifs
      · rfl
      · rfl
    rw [← hupload]
    exact afterReads_gets run.ctx j.reads

/-- `mm_take_snapshot`, `do_judge`, `mm_restore_snapshot`. -/
def serve (h : JudgeHeap bssEnd) (j : Job) : Option (JobResult × JudgeHeap bssEnd) :=
  match hjudge : h.take.judge j with
  | none => none
  | some (r, mm) => some (r, ⟨mmRestoreSnapshot mm, h.reachable.restored (judge_gets hjudge)⟩)

/-- The allocator after a job is the one at its snapshot. -/
theorem serve_eq (h : JudgeHeap bssEnd) (j : Job) :
    h.serve j = (h.take.judge j).map fun result => (result.1, h.take) := by
  unfold serve
  split
  · rename_i hnone
    rw [hnone]
    rfl
  · rename_i r mm hjudge
    have hheap : (⟨mmRestoreSnapshot mm, h.reachable.restored (judge_gets hjudge)⟩ : JudgeHeap bssEnd) =
        h.take := by
      simp only [take, restore_gets h.take.reachable.inv (judge_gets hjudge)]
    rw [hheap, hjudge]
    rfl

theorem serve_take (h : JudgeHeap bssEnd) (j : Job) : h.take.serve j = h.serve j := by
  have htake : h.take.take = h.take := by
    simp only [take, takeSnapshot_idem]
  rw [serve_eq, serve_eq, htake]

/-- Whatever jobs were served, with whatever results, no page is lost, and the next job is served
exactly as it would have been before them. -/
theorem jobs_leave_no_trace {h h' : JudgeHeap bssEnd} {js : List Job}
    (hrun : runSteps (fun h j => (serve h j).map Prod.snd) h js = some h') :
    h'.mm.mmbm = h.mm.mmbm ∧ ∀ j, h'.serve j = h.serve j := by
  refine runSteps_invariant (P := fun h' => h'.mm.mmbm = h.mm.mmbm ∧ ∀ j, h'.serve j = h.serve j) ?_
    ⟨rfl, fun _ => rfl⟩ hrun
  rintro h₁ j h₂ ⟨hbitmap, hsame⟩ hstep
  rw [serve_eq, Option.map_map] at hstep
  obtain ⟨_, _, rfl⟩ := Option.map_eq_some_iff.mp hstep
  exact ⟨hbitmap, fun j' => (serve_take h₁ j').trans (hsame j')⟩

/-- A request that finds the given image on the server, and no input. -/
def smallJob (elf : List Byte) : Job where
  req := ⟨1, 1000, 0⟩
  elfFile := elf
  stdinFile := []
  mem := fun _ => 0
  judgeTftpBuff := fun _ => 0
  zerosLast := 0
  getElf := JudgeSystem.smallGet elfName elf
  getStdin := JudgeSystem.smallGet stdinName []
  userStartTime := 100
  userTask := ⟨0, 0, 0, 0⟩
  userEndTime := 0
  events := []
  cycle := 0
  tf := ⟨fun r => if r = 10 then 3 else 0, 0, 0, 0, causeEcallU, 350⟩
  putStdout := JudgeSystem.smallPut
  reads := 1

/-- The first job runs its program to the end, the second one fails for its image. -/
theorem jobs_leave_no_trace_small : ∃ (h h' : JudgeHeap 0x40800) (r : UserRun) (mm mm' : Mm),
    h.take.judge (smallJob JudgeSystem.smallImage) = some (⟨0, some r⟩, mm) ∧ r.exitcode = 3 ∧
    h.take.judge (smallJob []) = some (⟨-eOOB, none⟩, mm') ∧
    runSteps (fun h j => (serve h j).map Prod.snd) h [smallJob JudgeSystem.smallImage, smallJob []] = some h' ∧
    h'.mm.mmbm = h.mm.mmbm := by
  obtain ⟨mm, hboot, hmm, -⟩ := boot_small
  have hroom : (bootMm 0x40800 0x40000 8192 ⟨0, ⟨0, 0, 0, fun _ => 0⟩, 0, ⟨0, 0, 0, fun _ => 0⟩⟩).map
      (fun mm => LoadsWithRoom JudgeSystem.smallImage ⟨mmTakeSnapshot mm, fun _ => 0, []⟩) = some true := by
    decide +kernel
  rw [hboot, Option.map_some, Option.some.injEq] at hroom
  obtain ⟨u, k, hstart⟩ := LoadsWithRoom.reaches hroom hmm.take
  let h : JudgeHeap 0x40800 := ⟨mm, hmm⟩
  obtain ⟨r, hran, hexit, -⟩ := JudgeSystem.smallJob hmm.take hstart
  obtain ⟨mm₁, hjudge₁⟩ := judgeJob_judge (h := h.take) (j := smallJob JudgeSystem.smallImage) hran
  have helf : (JudgeSystem.smallGet elfName []).getFile elfName [] = some (.file []) := by decide +kernel
  have hstdin : (JudgeSystem.smallGet stdinName []).getFile stdinName [] = some (.file []) := by decide +kernel
  have hfailed : ∀ h : JudgeHeap 0x40800, judgeJob [] [] (h.env (smallJob [])) ⟨1, 1000, 0⟩ = some ⟨-eOOB, none⟩ :=
    fun h => judgeJob_of_error helf hstdin (JudgeSystem.doJudge_short (by decide) _ _ _ _ _)
  obtain ⟨mm₂, hjudge₂⟩ := judgeJob_judge (h := h.take) (j := smallJob []) (hfailed h.take)
  have hstep₁ : (h.serve (smallJob JudgeSystem.smallImage)).map Prod.snd = some h.take := by
    rw [serve_eq, hjudge₁]
    rfl
  have hstep₂ : (h.take.serve (smallJob [])).map Prod.snd = some h.take := by
    rw [serve_take, serve_eq, hjudge₂]
    rfl
  have hrun : runSteps (fun h j => (serve h j).map Prod.snd) h [smallJob JudgeSystem.smallImage, smallJob []] =
      some h.take := by
    simp only [runSteps, hstep₁, hstep₂, Option.bind_some]
  exact ⟨h, h.take, r, mm₁, mm₂, hjudge₁, hexit, hjudge₂, hrun, (jobs_leave_no_trace hrun).1⟩

end JudgeHeap

end VijosOS
