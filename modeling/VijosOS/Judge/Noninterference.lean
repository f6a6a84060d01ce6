import VijosOS.Judge.UserMap
import VijosOS.Memory.Agreement

/-!
# No information flows between jobs

Two runs of the job set-up with the same inputs and the same allocator, over any
memory contents and any old contents of the download buffer, fail alike or start user
programs that see the same state.
-/

namespace VijosOS

open Library

/-! ## The loader -/

section Loader

variable {pt : Option Nat} {elf₁ elf₂ : Nat → Byte} {len : Nat}

theorem elfHeader_congr (h : AgreeUpTo len elf₁ elf₂) (hlen : elf64EhdrSize ≤ len) :
    elfHeader elf₁ = elfHeader elf₂ := by
  unfold elf64EhdrSize at hlen
  unfold elfHeader
  rw [h.bytesAt (by omega : 0 + 4 ≤ len), h.getLe (by omega : 16 + 2 ≤ len),
    h.getLe (by omega : 24 + 8 ≤ len), h.getLe (by omega : 32 + 8 ≤ len),
    h.getLe (by omega : 54 + 2 ≤ len), h.getLe (by omega : 56 + 2 ≤ len)]

/-- A header of a table inside the image. -/
theorem elfPhdr_congr (h : AgreeUpTo len elf₁ elf₂) (hhead : elfHeader elf₁ = elfHeader elf₂)
    {i : Nat} (hi : (elfHeader elf₁).ePhoff + 56 * (i + 1) ≤ len) :
    elfPhdr elf₁ i = elfPhdr elf₂ i := by
  unfold elfPhdr elf64PhdrSize
  dsimp only
  rw [← hhead]
  generalize hbase : (elfHeader elf₁).ePhoff + 56 * i = a
  rw [h.getLe (by omega : a + 4 ≤ len), h.getLe (by omega : a + 4 + 4 ≤ len),
    h.getLe (by omega : a + 8 + 8 ≤ len), h.getLe (by omega : a + 16 + 8 ≤ len),
    h.getLe (by omega : a + 32 + 8 ≤ len), h.getLe (by omega : a + 40 + 8 ≤ len)]

/-- `mapSegment` after the copy of the file part. -/
def segmentTail (pt : Option Nat) (ph : Elf64Phdr) (ret : Int) (k : Kernel) : Int × Kernel :=
  if ret < 0 then (ret, k)
  else if ph.pFilesz < ph.pMemsz then
    match mapRange pt (segmentFlags ph.pFlags) (pgAlignFloor (wrap64 (ph.pVaddr + ph.pFilesz)))
      (pgAlign (wrap64 (ph.pVaddr + ph.pMemsz))) k with
    | (false, k) => (-eOOM, k)
    | (true, k) => (0, k)
  else (0, k)

theorem respects_mapSegment {ph : Elf64Phdr} (htop : ph.pVaddr + ph.pFilesz ≤ 2 ^ 39)
    (h : ∀ i < ph.pFilesz, elf₁ (ph.pOffset + i) = elf₂ (ph.pOffset + i)) :
    Respects pt (mapSegment pt elf₁ ph) (mapSegment pt elf₂ ph) := by
  refine Respects.bind (segmentTail pt ph) (segmentTail pt ph) (respects_mapAndCopy htop h) fun ret => ?_
  unfold segmentTail
  by_cases hret : ret < 0
  · simp only [if_pos hret]
    exact respects_done ret
  · simp only [if_neg hret]
    by_cases hbss : ph.pFilesz < ph.pMemsz
    · simp only [if_pos hbss]
      exact Respects.andThen (respects_mapRange pt _ _ _) (respects_done 0)
    · simp only [if_neg hbss]
      exact respects_done 0

theorem respects_loadSegment (h : AgreeUpTo len elf₁ elf₂) (i : Nat) :
    Respects pt (loadSegment pt elf₁ len (elfPhdr elf₁ i))
      (loadSegment pt elf₂ len (elfPhdr elf₁ i)) := by
  have hoffset : (elfPhdr elf₁ i).pOffset < 2 ^ 64 := getLe_lt elf₁ _ 8
  have hfilesz : (elfPhdr elf₁ i).pFilesz < 2 ^ 64 := getLe_lt elf₁ _ 8
  have hvaddr : (elfPhdr elf₁ i).pVaddr < 2 ^ 64 := getLe_lt elf₁ _ 8
  have hmemsz : (elfPhdr elf₁ i).pMemsz < 2 ^ 64 := getLe_lt elf₁ _ 8
  generalize elfPhdr elf₁ i = ph at *
  unfold loadSegment
  by_cases hload : ph.pType ≠ ptLoad
  · simp only [if_pos hload]
    exact respects_done 0
  simp only [if_neg hload]
  by_cases hfile : ph.pFilesz ≠ 0 ∧ ¬ (ph.pOffset ≤ wrap64 (ph.pOffset + ph.pFilesz) ∧
      wrap64 (ph.pOffset + ph.pFilesz) ≤ len)
  · simp only [if_pos hfile]
    exact respects_done (-eOOB)
  simp only [if_neg hfile]
  by_cases hrange : ¬ (userBottom ≤ ph.pVaddr ∧ ph.pVaddr ≤ wrap64 (ph.pVaddr + ph.pMemsz) ∧
      wrap64 (ph.pVaddr + ph.pMemsz) ≤ userTop)
  · simp only [if_pos hrange]
    exact respects_done (-eOOB)
  simp only [if_neg hrange]
  by_cases hsize : ph.pFilesz > ph.pMemsz
  · simp only [if_pos hsize]
    exact respects_done (-eBADPKT)
  simp only [if_neg hsize]
  refine respects_mapSegment ?_ ?_
  · unfold userTop userBottom wrap64 at hrange
    omega
  · intro j hj
    apply h
    unfold wrap64 at hfile
    omega

theorem respects_loadSegments (h : AgreeUpTo len elf₁ elf₂)
    (hhead : elfHeader elf₁ = elfHeader elf₂) {i n : Nat}
    (htable : (elfHeader elf₁).ePhoff + 56 * (i + n) ≤ len) :
    Respects pt (loadSegments pt elf₁ len i n) (loadSegments pt elf₂ len i n) := by
  induction n generalizing i with
  | zero => exact respects_done 0
  | succ n ih =>
    have hseg : Respects pt (loadSegment pt elf₁ len (elfPhdr elf₁ i))
        (loadSegment pt elf₂ len (elfPhdr elf₁ i)) := respects_loadSegment h i
    have hphdr : elfPhdr elf₁ i = elfPhdr elf₂ i := elfPhdr_congr h hhead (by omega)
    have hseg' : Respects pt (loadSegment pt elf₁ len (elfPhdr elf₁ i))
        (loadSegment pt elf₂ len (elfPhdr elf₂ i)) := by
      rw [← hphdr]
      exact hseg
    refine Respects.bind (fun ret k => if ret ≠ 0 then (ret, k) else loadSegments pt elf₁ len (i + 1) n k)
      (fun ret k => if ret ≠ 0 then (ret, k) else loadSegments pt elf₂ len (i + 1) n k) hseg' ?_
    intro ret
    by_cases hret : ret ≠ 0
    · simp only [if_pos hret]
      exact respects_done ret
    · simp only [if_neg hret]
      exact ih (by omega)

/-- Only the bytes of the image matter to the loader. -/
theorem respects_loadImage (h : AgreeUpTo len elf₁ elf₂) :
    Respects pt (loadImage pt elf₁ len) (loadImage pt elf₂ len) := by
  unfold loadImage loadElf
  by_cases hlen : len < elf64EhdrSize
  · simp only [if_pos hlen]
    exact respects_done (Except.error (-eOOB))
  have hhead : elfHeader elf₁ = elfHeader elf₂ := elfHeader_congr h (Nat.not_lt.mp hlen)
  simp only [if_neg hlen, ← hhead]
  by_cases hmagic : (elfHeader elf₁).eMagic ≠ elfMag
  · simp only [if_pos hmagic]
    exact respects_done (Except.error (-eBADPKT))
  simp only [if_neg hmagic]
  by_cases htype : (elfHeader elf₁).eType ≠ etExec
  · simp only [if_pos htype]
    exact respects_done (Except.error (-eBADPKT))
  simp only [if_neg htype]
  by_cases hphnum : (elfHeader elf₁).ePhnum = 0
  · simp only [if_pos hphnum]
    exact respects_done (Except.error (-eBADPKT))
  simp only [if_neg hphnum]
  by_cases hentsize : (elfHeader elf₁).ePhentsize ≠ elf64PhdrSize
  · simp only [if_pos hentsize]
    exact respects_done (Except.error (-eNOIMPL))
  simp only [if_neg hentsize]
  by_cases htable : ¬ ((elfHeader elf₁).ePhoff ≤
      wrap64 ((elfHeader elf₁).ePhoff + (elfHeader elf₁).ePhnum * elf64PhdrSize) ∧
      wrap64 ((elfHeader elf₁).ePhoff + (elfHeader elf₁).ePhnum * elf64PhdrSize) ≤ len)
  · simp only [if_pos htable]
    exact respects_done (Except.error (-eOOB))
  simp only [if_neg htable]
  have hphoff : (elfHeader elf₁).ePhoff < 2 ^ 64 := getLe_lt elf₁ _ 8
  have hcount : (elfHeader elf₁).ePhnum < 2 ^ 16 := getLe_lt elf₁ _ 2
  have hinside : (elfHeader elf₁).ePhoff + 56 * (0 + (elfHeader elf₁).ePhnum) ≤ len := by
    unfold elf64PhdrSize wrap64 at htable
    omega
  let rest := fun (ret : Int) (k : Kernel) =>
    if ret < 0 then (Except.error ret, k)
    else (Except.ok ((some (elfHeader elf₁).eEntry).getD 0), k)
  refine Respects.bind rest rest (respects_loadSegments h hhead hinside) fun ret => ?_
  simp only [rest]
  by_cases hret : ret < 0
  · simp only [if_pos hret]
    exact respects_done _
  · simp only [if_neg hret]
    exact respects_done _

end Loader

/-! ## The job -/

section Job

variable {pt : Option Nat}

/-- Two runs of kernel code that stay in step and return alike. -/
def RespectsM {α : Type} (pt : Option Nat) (x₁ x₂ : KernelM α) : Prop :=
  Respects (α := Except Int α) pt x₁ x₂

/-- Sequencing, with a property `P` of every value the first part can return. -/
theorem RespectsM.bind {α β : Type} {x₁ x₂ : KernelM α} {f₁ f₂ : α → KernelM β} (P : α → Prop)
    (hx : RespectsM pt x₁ x₂) (hP : Yields P x₁)
    (hf : ∀ a, P a → RespectsM pt (f₁ a) (f₂ a)) : RespectsM pt (x₁ >>= f₁) (x₂ >>= f₂) := by
  intro k₁ k₂ h
  obtain ⟨hsame, htwin⟩ := hx k₁ k₂ h
  rw [kernelM_bind, kernelM_bind, ← hsame]
  cases hret : (x₁ k₁).1 with
  | ok a => exact hf a (hP k₁ a hret) _ _ htwin
  | error e => exact ⟨rfl, htwin⟩

/-- Sequencing of steps that return nothing. -/
theorem RespectsM.seq {β : Type} {x₁ x₂ : KernelM Unit} {f₁ f₂ : Unit → KernelM β}
    (hx : RespectsM pt x₁ x₂) (hf : RespectsM pt (f₁ ()) (f₂ ())) :
    RespectsM pt (x₁ >>= f₁) (x₂ >>= f₂) :=
  RespectsM.bind (fun _ => True) hx (fun _ _ _ => trivial) fun _ _ => hf

theorem respectsM_pure {α : Type} (a : α) : RespectsM pt (pure a) (pure a) := respects_done _

theorem respectsM_check {f₁ f₂ : Kernel → Int × Kernel} (h : Respects pt f₁ f₂) :
    RespectsM pt (check f₁) (check f₂) := by
  let rest := fun (ret : Int) (k : Kernel) =>
    if ret < 0 then ((Except.error ret : Except Int Unit), k) else (Except.ok (), k)
  refine Respects.bind rest rest h fun ret => ?_
  simp only [rest]
  split_ifs
  · exact respects_done _
  · exact respects_done _

theorem respectsM_checkOom {f₁ f₂ : Kernel → Bool × Kernel} (h : Respects pt f₁ f₂) :
    RespectsM pt (checkOom f₁) (checkOom f₂) :=
  Respects.andThen h (respects_done _)

theorem respectsM_get (d : Download) : RespectsM pt d.get d.get := by
  cases d with
  | failed ret _ => exact respects_done _
  | file bytes => exact respects_done _

/-- Writing below 4096 or inside a mapped page leaves the tables as they were. -/
theorem VmInv.page_write {k : Kernel} {bssEnd : Nat} {ts : List Table} (h : VmInv k bssEnd ts)
    {pg : Nat} {m : Mem}
    (hpg : pg = 0 ∨ ∃ r q, Roots ts r ∧ q.length = 3 ∧ follow (tableSucc k.mem) r q = some pg)
    (hm : ∀ x, ¬ (pg ≤ x ∧ x < pg + 4096) → m x = k.mem x) :
    VmInv { k with mem := m } bssEnd ts := by
  apply h.same_tables
  rcases hpg with rfl | ⟨r, q, hr, hq, hleaf⟩
  · intro s p n hs hp hn
    have hmem := h.handed hs (Nat.le_of_lt hp) hn
    have habove := h.kernel.above n hmem
    have haligned := h.kernel.aligned n hmem
    have hpos := h.kernel.mm.placed.pos
    apply tableSucc_congr
    intro o ho
    exact hm _ (by omega)
  · have haligned := h.kernel.aligned pg (h.handed hr (Nat.le_of_eq hq) hleaf)
    exact h.leaf_tables hr hq hleaf fun x hx => hm _ (by omega)

theorem respectsM_setupStack (va : Nat) {aux stackWord : List Nat}
    (hsize : 0x10 + 8 * aux.length + 8 * stackWord.length ≤ 4096) :
    RespectsM pt (setupStack pt va aux stackWord) (setupStack pt va aux stackWord) := by
  intro k₁ k₂ h
  obtain ⟨hsame, htwin⟩ := respects_mapPage pt va (vmU ||| vmR ||| vmW) k₁ k₂ h
  obtain ⟨bssEnd, ts, hinv, hpt⟩ := h.inv
  have hpage : VmInv (mapPage pt va (vmU ||| vmR ||| vmW) k₁).2 bssEnd ts ∧
      ((mapPage pt va (vmU ||| vmR ||| vmW) k₁).1.getD 0 = 0 ∨ ∃ r q, Roots ts r ∧ q.length = 3 ∧
        follow (tableSucc (mapPage pt va (vmU ||| vmR ||| vmW) k₁).2.mem) r q =
          some ((mapPage pt va (vmU ||| vmR ||| vmW) k₁).1.getD 0)) := by
    cases pt with
    | none => exact ⟨hinv, Or.inl rfl⟩
    | some r =>
      obtain ⟨t, ht, rfl⟩ := hpt r rfl
      obtain ⟨hinv', _, hdone⟩ := mapPage_spec hinv ht
        (show mapPage (some t.root) va (vmU ||| vmR ||| vmW) k₁ = _ from rfl)
      refine ⟨hinv', ?_⟩
      cases hpg : (mapPage (some t.root) va (vmU ||| vmR ||| vmW) k₁).1 with
      | none => exact Or.inl rfl
      | some a => exact Or.inr ⟨t.root, _, ⟨t, ht, rfl⟩, rfl, (hdone a hpg).1⟩
  obtain ⟨hinv', hpg⟩ := hpage
  rw [setupStack_eq, setupStack_eq, ← hsame]
  generalize (mapPage pt va (vmU ||| vmR ||| vmW) k₁).1.getD 0 = pg at hpg ⊢
  generalize (mapPage pt va (vmU ||| vmR ||| vmW) k₁).2 = l₁ at htwin hinv' hpg ⊢
  generalize (mapPage pt va (vmU ||| vmR ||| vmW) k₂).2 = l₂ at htwin ⊢
  have haux := wordBytes_length aux
  have hword := wordBytes_length stackWord
  refine ⟨rfl, (htwin.agree.writeBytes _ _).writeBytes _ _, bssEnd, ts, hinv'.page_write hpg ?_, hpt⟩
  intro x hx
  simp only [pgSize]
  rw [writeBytes_outside _ _ _ (by omega), writeBytes_outside _ _ _ (by omega)]

/-! ## Two runs of `do_judge` -/

theorem respectsM_buildUser (req : JudgeReq) (elf : List Byte) {stdin : Download}
    (zerosLast : BitVec 64) (buff₁ buff₂ : Nat → Byte)
    (hstdin : ∀ bytes, stdin = .file bytes → bytes.length ≤ judgeTftpBuffSize) :
    RespectsM pt (buildUser req elf stdin zerosLast buff₁ pt)
      (buildUser req elf stdin zerosLast buff₂ pt) := by
  have hwritten : ∀ (m₁ m₂ : Mem) (bytes : List Byte), ∀ i < bytes.length,
      writeBytes m₁ 0 bytes i = writeBytes m₂ 0 bytes i := by
    intro m₁ m₂ bytes i hi
    have h₁ := writeBytes_add m₁ 0 bytes hi
    have h₂ := writeBytes_add m₂ 0 bytes hi
    rw [Nat.zero_add] at h₁ h₂
    rw [h₁, h₂]
  unfold buildUser
  dsimp only
  refine RespectsM.bind (fun _ => elf64EhdrSize ≤ elf.length)
    (respects_loadImage (hwritten _ _ _)) (yields_loadImage _ _ _) ?_
  intro entryVa hlen
  have hhead := elfHeader_congr (hwritten buff₁ buff₂ elf) hlen
  have hparse : parseElfPhdr (writeBytes buff₁ 0 elf) = parseElfPhdr (writeBytes buff₂ 0 elf) := by
    simp only [parseElfPhdr, hhead]
  rw [hparse]
  refine RespectsM.seq (respectsM_check (respects_mapAndCopy ?_ ?_)) ?_
  · unfold elfHeaderVa userTop
    simp only [pgSize]
    split_ifs <;> omega
  · intro i hi
    exact hwritten _ _ _ i (by split_ifs at hi <;> omega)
  refine RespectsM.bind (fun bytes => bytes.length ≤ judgeTftpBuffSize) (respectsM_get stdin) ?_ ?_
  · intro k bytes hget
    cases stdin with
    | failed ret _ => cases hget
    | file bytes' =>
      obtain rfl := Except.ok.inj hget
      exact hstdin _ rfl
  intro bytes hbytes
  refine RespectsM.seq (respectsM_check (respects_mapAndCopy ?_ (hwritten _ _ _))) ?_
  · unfold judgeTftpBuffSize at hbytes
    rw [pgAlign_eq (by omega), sub64_of_le (by decide) (by unfold elfHeaderVa userTop; simp only [pgSize]; omega)]
    unfold elfHeaderVa userTop
    simp only [pgSize]
    omega
  refine RespectsM.seq (respectsM_checkOom (respects_mapRange _ _ _ _)) ?_
  refine RespectsM.seq (respectsM_checkOom (respects_mapRange _ _ _ _)) ?_
  refine RespectsM.seq (respectsM_checkOom (respects_mapRange _ _ _ _)) ?_
  refine RespectsM.seq (respectsM_setupStack _ (by simp)) ?_
  exact respectsM_pure _

end Job

/-- A new table is the same in both runs. -/
theorem createPt_twin {k₁ k₂ : Kernel} {bssEnd : Nat} {ts : List Table} (h : Agree k₁ k₂)
    (hinv : VmInv k₁ bssEnd ts) :
    (createPt k₁).1 = (createPt k₂).1 ∧
      Twin (createPt k₁).1 (createPt k₁).2 (createPt k₂).2 := by
  rcases Kernel.getFreePage_cases hinv.kernel with hfull | ⟨a, ha, hget⟩
  · simp only [createPt, hfull, h.full hfull, if_true]
    exact ⟨trivial, h, bssEnd, ts, hinv, fun r hr => absurd hr.symm (Option.some_ne_none r)⟩
  · have hne := ha.ne_zero hinv.kernel
    rcases createPt_spec hinv with hnone | ⟨b, k', hcreate, _, hinv', _⟩
    · simp only [createPt, hget, if_neg hne, kernelPt, Prod.mk.injEq] at hnone
      exact absurd hnone.1 (Option.some_ne_none _)
    · have hsome : (createPt k₁).1 = some b := congrArg Prod.fst hcreate
      have hk' : (createPt k₁).2 = k' := congrArg Prod.snd hcreate
      refine ⟨?_, ?_, bssEnd, _, hk' ▸ hinv', ?_⟩
      · simp only [createPt, hget, h.handed_same hget hne, if_neg hne, kernelPt]
      · simp only [createPt, hget, h.handed_same hget hne, if_neg hne, kernelPt]
        exact h.handZeroed a
      · intro r hr
        rw [hsome] at hr
        obtain rfl := Option.some.inj hr
        exact ⟨⟨b, _⟩, List.mem_cons_self, rfl⟩

/-- Two runs of a job that differ only in old memory contents end alike. -/
theorem doJudge_noninterference {mm : Mm} {bssEnd : Nat} (hmm : mm.Reachable bssEnd)
    (req : JudgeReq) (elf stdin : Download) (zerosLast : BitVec 64) (mem₁ mem₂ : Mem)
    (buff₁ buff₂ : Nat → Byte)
    (hstdin : ∀ bytes, stdin = .file bytes → bytes.length ≤ judgeTftpBuffSize) :
    (doJudge req elf stdin zerosLast buff₁ ⟨mm, mem₁, []⟩).1 =
      (doJudge req elf stdin zerosLast buff₂ ⟨mm, mem₂, []⟩).1 ∧
    ∀ u, (doJudge req elf stdin zerosLast buff₁ ⟨mm, mem₁, []⟩).1 = .ok u →
      ∃ root, u.pt = some root ∧ ∀ x,
        userView (doJudge req elf stdin zerosLast buff₁ ⟨mm, mem₁, []⟩).2.mem root x =
          userView (doJudge req elf stdin zerosLast buff₂ ⟨mm, mem₂, []⟩).2.mem root x := by
  cases elf with
  | failed ret negative =>
    have hrun : ∀ buff k, doJudge req (.failed ret negative) stdin zerosLast buff k =
        (.error ret, k) := by
      intro buff k
      rw [doJudge, kernelM_bind]
      rfl
    rw [hrun, hrun]
    exact ⟨rfl, fun u hu => by cases hu⟩
  | file bytes =>
    have hstart : Agree ⟨mm, mem₁, []⟩ ⟨mm, mem₂, []⟩ := ⟨rfl, rfl, fun _ h => absurd h List.not_mem_nil⟩
    obtain ⟨hpt, htwin⟩ := createPt_twin hstart (VmInv.start hmm.inv mem₁)
    have hrun : ∀ buff k, doJudge req (.file bytes) stdin zerosLast buff k =
        buildUser req bytes stdin zerosLast buff (createPt k).1 (createPt k).2 := by
      intro buff k
      rw [doJudge, kernelM_bind]
      exact kernelM_bind _ _ _
    obtain ⟨hsame, hfinal⟩ := respectsM_buildUser req bytes zerosLast buff₁ buff₂ hstdin _ _
      htwin
    rw [hrun, hrun, ← hpt]
    refine ⟨hsame, ?_⟩
    intro u hu
    obtain ⟨hroot, hne⟩ := yields_buildUser _ _ _ _ _ _ _ u hu
    obtain ⟨root, hsome⟩ := Option.ne_none_iff_exists'.mp hne
    obtain ⟨bssEnd', ts, hinv, hknown⟩ := hfinal.inv
    obtain ⟨t, ht, rfl⟩ := hknown root hsome
    refine ⟨t.root, hroot.trans hsome, fun x => ?_⟩
    exact (hfinal.agree.userView hinv ⟨t, ht, rfl⟩ x).symm

/-- The small image and an empty input, right after boot, over zeroed and over dirty memory: both runs
enter user mode. -/
theorem doJudge_noninterference_small : ∃ mm u root,
    (doJudge ⟨1, 1000, 0⟩ (.file (bytesAt smallElf 0 120)) (.file []) 0 (fun _ => 0) ⟨mm, fun _ => 0, []⟩).1 = .ok u ∧
      (doJudge ⟨1, 1000, 0⟩ (.file (bytesAt smallElf 0 120)) (.file []) 0 (fun _ => 0xaa)
        ⟨mm, fun _ => 0xff, []⟩).1 = .ok u ∧
      u.pt = some root ∧ ∀ x,
        userView (doJudge ⟨1, 1000, 0⟩ (.file (bytesAt smallElf 0 120)) (.file []) 0 (fun _ => 0)
          ⟨mm, fun _ => 0, []⟩).2.mem root x =
        userView (doJudge ⟨1, 1000, 0⟩ (.file (bytesAt smallElf 0 120)) (.file []) 0 (fun _ => 0xaa)
          ⟨mm, fun _ => 0xff, []⟩).2.mem root x := by
  have hstdin : ∀ bytes, Download.file [] = .file bytes → bytes.length ≤ judgeTftpBuffSize := by
    intro bytes hbytes
    obtain rfl := Download.file.inj hbytes
    decide
  obtain ⟨mm, hmm, -, u, k, hrun⟩ := boot_reaches (bytesAt smallElf 0 120) (by decide +kernel)
  obtain ⟨hsame, hview⟩ := doJudge_noninterference hmm ⟨1, 1000, 0⟩ (.file (bytesAt smallElf 0 120)) _ 0
    (fun _ => 0) (fun _ => 0xff) (fun _ => 0) (fun _ => 0xaa) hstdin
  have hok := congrArg Prod.fst hrun
  obtain ⟨root, hroot, hviews⟩ := hview u hok
  exact ⟨mm, u, root, hok, hsame.symm.trans hok, hroot, hviews⟩

end VijosOS
