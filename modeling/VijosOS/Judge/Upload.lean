import VijosOS.Judge.FaultProgress
import VijosOS.Tftp.PutSafety

/-!
# The upload of the output

After the program left user mode `do_judge` clamps `aux->stdout_len` and hands `tftp_put_file`
the function `judge_read_block`, which walks the output buffer block by block. The buffer and the
byte after it are mapped, the blocks divide a page, and the reads change nothing.
-/

namespace VijosOS

open Library

/-! ## The code -/

/-- `ctx_t`. -/
structure Ctx where
  pt : Option Nat
  buff : Nat
  len : Nat

def judgeReadBlock (c : Ctx) (k : Kernel) : List Byte × Ctx × Kernel :=
  let len := if c.len < tftpChunkSize then c.len else tftpChunkSize
  match mapPage c.pt c.buff (vmU ||| vmR ||| vmW) k with
  | (pg, k) =>
    let buffMapped := pg.getD 0 + c.buff % pgSize
    (bytesAt k.mem buffMapped len, { c with buff := wrap64 (c.buff + len), len := c.len - len }, k)

/-- The pointer `aux`, in the page that `map_page` found for the arguments of the program. -/
def auxPtr (pt : Option Nat) (stdinLen : Nat) (k : Kernel) : Nat :=
  (mapPage pt (argsVa stdinLen) (vmU ||| vmR ||| vmW) k).1.getD 0 + pgSize - 0x10 - 56

/-- The address of `aux->stdout_len`. -/
def auxStdoutLen (aux : Nat) : Nat := aux + 32

/-- `do_judge` from the return of `arch_call_user` to the call of `tftp_put_file`. -/
def uploadCtx (pt : Option Nat) (aux stdoutVa : Nat) (k : Kernel) : Ctx × Kernel :=
  let k := if stdoutLimit < (load64 k.mem (auxStdoutLen aux)).toNat then
    { k with mem := store64 k.mem (auxStdoutLen aux) (BitVec.ofNat 64 stdoutLimit) } else k
  (⟨pt, stdoutVa, (load64 k.mem (auxStdoutLen aux)).toNat⟩, k)

/-- The context and the kernel after `n` calls. -/
def afterReads (s : Ctx × Kernel) : Nat → Ctx × Kernel
  | 0 => s
  | n + 1 => (judgeReadBlock (afterReads s n).1 (afterReads s n).2).2

/-- The block of call `n`. -/
def blockRead (s : Ctx × Kernel) (n : Nat) : List Byte :=
  (judgeReadBlock (afterReads s n).1 (afterReads s n).2).1

/-- `tftp_put_file` after `recv_udp` returned the given datagrams, or timed out. -/
def PutClient.run (readBlock : ReadBlock) (c : PutClient) (ds : List (Option UdpDispatch)) : PutClient :=
  ds.foldl (fun c d => (c.recv readBlock d).1) c

/-! ## How often a block is read -/

namespace PutClient

variable {readBlock : ReadBlock} {blocks : Nat → List Byte} {last : Nat} {c : PutClient}

/-- The calls of `read_block` so far; the loop ends after the short block. -/
def Counts (blocks : Nat → List Byte) (last : Nat) (c : PutClient) : Prop :=
  match c.point with
  | .requesting => c.calls = 0
  | .transferring => ∃ n ≤ last, c.calls = n + 1 ∧ c.blockSize = (blocks n).length
  | .returned ret => c.calls ≤ last + 1 ∧ (ret = 0 → c.calls = last + 1)

theorem Counts.fail {ret : Int} (hcalls : c.calls ≤ last + 1) (hret : ret < 0) :
    Counts blocks last (c.fail ret).1 := by
  refine ⟨hcalls, fun hzero => ?_⟩
  omega

theorem Counts.sendBlock (hread : readBlock.Returns blocks last) (hcalls : c.calls ≤ last) :
    Counts blocks last (PutClient.sendBlock readBlock c).1 := by
  obtain ⟨m, hsend, _⟩ := sendBlock_ok (hread.read c.calls hcalls)
  rw [hsend]
  exact ⟨c.calls, hcalls, rfl, rfl⟩

theorem Counts.recvFirst (hread : readBlock.Returns blocks last) (hpoint : c.point = .requesting)
    (h : c.Counts blocks last) (d : Option UdpDispatch) :
    Counts blocks last (PutClient.recvFirst readBlock c d).1 := by
  rw [Counts, hpoint] at h
  dsimp only at h
  unfold PutClient.recvFirst
  rcases recvInto c.tftpRespBuff 1024 d with ⟨ret, m⟩
  dsimp only
  split_ifs with hret hcheck hseq
  · rw [Counts]
    simp only [hpoint]
    exact h
  · exact Counts.fail (by simp only; omega) hcheck
  · exact Counts.fail (by simp only; omega) (by decide)
  · exact Counts.sendBlock hread (by simp only; omega)

theorem Counts.recvNext (hread : readBlock.Returns blocks last) (hpoint : c.point = .transferring)
    (h : c.Counts blocks last) (d : Option UdpDispatch) :
    Counts blocks last (PutClient.recvNext readBlock c d).1 := by
  rw [Counts, hpoint] at h
  obtain ⟨n, hn, hcalls, hsize⟩ := h
  have hsame : ∀ m, Counts blocks last { c with tftpRespBuff := m } := by
    intro m
    rw [Counts]
    simp only [hpoint]
    exact ⟨n, hn, hcalls, hsize⟩
  unfold PutClient.recvNext
  rcases recvInto c.tftpRespBuff 1024 d with ⟨ret, m⟩
  dsimp only
  split_ifs with hret hcheck hseq hshort
  · exact hsame m
  · exact Counts.fail (by simp only; omega) hcheck
  · -- a short block is the last one
    have hlast : n = last := by
      by_contra hne
      have hfull := hread.full n (by omega)
      unfold tftpChunkSize at hshort
      omega
    exact ⟨by simp only; omega, fun _ => by simp only; omega⟩
  · have hmore : n < last := by
      by_contra hge
      obtain rfl : n = last := by omega
      have hlt := hread.short
      unfold tftpChunkSize at hshort
      omega
    exact Counts.sendBlock hread (by simp only; omega)
  · exact hsame m

theorem Counts.recv (hread : readBlock.Returns blocks last) (h : c.Counts blocks last)
    (d : Option UdpDispatch) : Counts blocks last (c.recv readBlock d).1 := by
  unfold PutClient.recv
  cases hpoint : c.point with
  | requesting => exact Counts.recvFirst hread hpoint h d
  | transferring => exact Counts.recvNext hread hpoint h d
  | returned ret => exact h

theorem Counts.start (clientIp : Ipv6Addr) (clientPort : ClientPort) (filename : List Byte)
    (tftpReq tftpBuff tftpRespBuff : Mem) :
    Counts blocks last (tftpPutFile clientIp clientPort filename tftpReq tftpBuff tftpRespBuff).1 := by
  unfold tftpPutFile
  dsimp only
  cases hreq : tftpBuildReq tftpReq 128 tftpOpWrq filename with
  | error ret =>
    rw [tftpBuildReq_error hreq]
    exact Counts.fail (Nat.zero_le _) (by decide)
  | ok r => rfl

theorem Counts.run (hread : readBlock.Returns blocks last) (h : c.Counts blocks last)
    (ds : List (Option UdpDispatch)) : Counts blocks last (c.run readBlock ds) := by
  induction ds generalizing c with
  | nil => exact h
  | cons d ds ih => exact ih (h.recv hread d)

theorem Counts.calls_le (h : c.Counts blocks last) : c.calls ≤ last + 1 := by
  unfold Counts at h
  split at h
  · omega
  · obtain ⟨n, hn, hcalls, _⟩ := h
    omega
  · exact h.1

end PutClient

/-! ## One block -/

/-- A call on a mapped page reads the bytes of the program and leaves the kernel as it was. -/
theorem judgeReadBlock_mapped {k : Kernel} {root buff len : Nat}
    (hmapped : userView k.mem root buff ≠ none) (hfit : buff % 4096 + min 512 len ≤ 4096)
    (htop : buff + 512 < 2 ^ 64) :
    (judgeReadBlock ⟨some root, buff, len⟩ k).2 =
        (⟨some root, buff + min 512 len, len - min 512 len⟩, k) ∧
      (judgeReadBlock ⟨some root, buff, len⟩ k).1.map some = userBytes k.mem root buff (min 512 len) := by
  obtain ⟨pg, hmap, hleaf⟩ := mapPage_mapped (vmU ||| vmR ||| vmW) hmapped
  have hlen : (if len < tftpChunkSize then len else tftpChunkSize) = min 512 len := by
    unfold tftpChunkSize
    split_ifs <;> omega
  have hread : judgeReadBlock ⟨some root, buff, len⟩ k = (bytesAt k.mem (pg + buff % 4096) (min 512 len),
      ⟨some root, buff + min 512 len, len - min 512 len⟩, k) := by
    simp only [judgeReadBlock, hmap, hlen, Option.getD_some,
      wrap64_of_lt (show buff + min 512 len < 2 ^ 64 by omega)]
  have hbytes := bytesAt_page hleaf hfit
  rw [Nat.div_add_mod'] at hbytes
  rw [hread]
  exact ⟨rfl, hbytes⟩

/-! ## All the blocks -/

/-- A buffer of whole blocks whose pages are mapped, as is the page after it. -/
structure OutputMapped (m : Mem) (root va total : Nat) : Prop where
  aligned : va % 512 = 0
  top : va + total + 512 < 2 ^ 64
  mapped : ∀ o ≤ total, userView m root (va + o) ≠ none

theorem uploadCtx_of_le {pt : Option Nat} {aux va : Nat} {k : Kernel}
    (hle : (load64 k.mem (auxStdoutLen aux)).toNat ≤ stdoutLimit) :
    uploadCtx pt aux va k = (⟨pt, va, (load64 k.mem (auxStdoutLen aux)).toNat⟩, k) := by
  rw [uploadCtx, if_neg (Nat.not_lt.mpr hle)]

/-- Before the program has run its output is empty. -/
theorem load64_auxStdoutLen {m : Mem} {aux stdinLen : Nat}
    (haux : bytesAt m aux 56 = wordBytes (auxWords stdinLen)) : load64 m (auxStdoutLen aux) = 0 := by
  have hsplit : wordBytes (auxWords stdinLen) =
      wordBytes [stdinVa stdinLen, stdinLen, stdoutVa stdinLen, stdoutLimit] ++
        (leBytes 8 0 ++ wordBytes [heapVa, wrap64 (heapVa + heapSize)]) := by
    simp only [auxWords, wordBytes, List.flatMap_cons, List.flatMap_nil, List.append_assoc, List.nil_append]
  have hword : bytesAt m (aux + 32) 8 = leBytes 8 0 := by
    have hbytes : bytesAt m aux (32 + 24) = wordBytes (auxWords stdinLen) := haux
    rw [bytesAt_add, hsplit] at hbytes
    have hrest := (List.append_inj hbytes (by rw [bytesAt_length, wordBytes_length]; rfl)).2
    rw [← bytesAt_take m (aux + 32) (by decide : 8 ≤ 24), hrest, List.take_left' (leBytes_length 8 0)]
  rw [auxStdoutLen, load64, hword]
  decide

/-- With nothing left every block is empty. -/
theorem blockRead_empty {s : Ctx × Kernel} (hlen : s.1.len = 0) (n : Nat) : blockRead s n = [] := by
  have hstep : ∀ (c : Ctx) (k : Kernel), c.len = 0 →
      (judgeReadBlock c k).1 = [] ∧ (judgeReadBlock c k).2.1.len = 0 := by
    intro c k hc
    rw [judgeReadBlock, hc, if_pos (by decide : 0 < tftpChunkSize)]
    exact ⟨rfl, rfl⟩
  have hlens : ∀ n, (afterReads s n).1.len = 0 := by
    intro n
    induction n with
    | zero => exact hlen
    | succ n ih => exact (hstep _ _ ih).2
  exact (hstep _ _ (hlens n)).1

section Blocks

variable {k : Kernel} {root va total : Nat}

theorem afterReads_eq (h : OutputMapped k.mem root va total) (n : Nat) :
    afterReads (⟨some root, va, total⟩, k) n =
      (⟨some root, va + min (512 * n) total, total - 512 * n⟩, k) := by
  have haligned := h.aligned
  have htop := h.top
  induction n with
  | zero =>
    rw [afterReads, Nat.mul_zero, Nat.zero_min, Nat.add_zero, Nat.sub_zero]
  | succ n ih =>
    rw [afterReads, ih]
    have hfit : (va + min (512 * n) total) % 4096 + min 512 (total - 512 * n) ≤ 4096 := by omega
    have hread := judgeReadBlock_mapped (h.mapped _ (Nat.min_le_right (512 * n) total)) hfit (by omega)
    rw [hread.1]
    have hbuff : va + min (512 * n) total + min 512 (total - 512 * n) =
        va + min (512 * (n + 1)) total := by omega
    have hlen : total - 512 * n - min 512 (total - 512 * n) = total - 512 * (n + 1) := by omega
    simp only [hbuff, hlen]

/-- Block `n` holds the bytes of the buffer from `512 * n` on, in one page. -/
theorem blockRead_eq (h : OutputMapped k.mem root va total) (n : Nat) :
    (va + min (512 * n) total) % 4096 + (blockRead (⟨some root, va, total⟩, k) n).length ≤ 4096 ∧
      (blockRead (⟨some root, va, total⟩, k) n).length = min 512 (total - 512 * n) ∧
      (blockRead (⟨some root, va, total⟩, k) n).map some =
        userBytes k.mem root (va + min (512 * n) total) (min 512 (total - 512 * n)) := by
  have haligned := h.aligned
  have htop := h.top
  have hfit : (va + min (512 * n) total) % 4096 + min 512 (total - 512 * n) ≤ 4096 := by omega
  have hread := (judgeReadBlock_mapped (h.mapped _ (Nat.min_le_right (512 * n) total)) hfit (by omega)).2
  have hlength : (blockRead (⟨some root, va, total⟩, k) n).length = min 512 (total - 512 * n) := by
    rw [blockRead, afterReads_eq h n, ← List.length_map some, hread, userBytes, List.length_map,
      List.length_range]
  refine ⟨by omega, hlength, ?_⟩
  rw [blockRead, afterReads_eq h n]
  exact hread

/-- The first `n` blocks are a prefix of the buffer. -/
theorem blocks_flatten (h : OutputMapped k.mem root va total) (n : Nat) :
    ((List.range n).map (blockRead (⟨some root, va, total⟩, k))).flatten.map some =
      userBytes k.mem root va (min (512 * n) total) := by
  induction n with
  | zero =>
    rw [Nat.mul_zero, Nat.zero_min]
    rfl
  | succ n ih =>
    have hsum : min (512 * (n + 1)) total = min (512 * n) total + min 512 (total - 512 * n) := by omega
    rw [hsum, userBytes_add, ← ih, ← (blockRead_eq h n).2.2]
    rw [List.range_succ, List.map_append, List.flatten_append, List.map_append]
    simp

theorem blockRead_returns (h : OutputMapped k.mem root va total) (hfew : total ≤ stdoutLimit) :
    ReadBlock.Returns (fun n => .ok (blockRead (⟨some root, va, total⟩, k) n))
      (blockRead (⟨some root, va, total⟩, k)) (total / 512) := by
  unfold stdoutLimit at hfew
  refine ⟨fun _ _ => rfl, fun n hn => ?_, ?_, by omega⟩
  · rw [(blockRead_eq h n).2.1]
    omega
  · rw [(blockRead_eq h _).2.1]
    omega

end Blocks

/-! ## The output of a job -/

section Job

variable {k k' : Kernel} {bssEnd root stdinLen : Nat}

/-- The buffer ends at the input, or at the header when there is no input. -/
theorem stdout_has (image : Nat → Byte) (hlen : stdinLen ≤ judgeTftpBuffSize) {o : Nat}
    (ho : o ≤ stdoutLimit) : ∃ r : Region, r.Has image stdinLen (stdoutVa stdinLen + o) := by
  obtain ⟨hstdin, hstdout, _⟩ := ranges_eq hlen
  have hheader : elfHeaderVa = 0x3FFFFFF000 := by decide
  unfold judgeTftpBuffSize at hlen
  by_cases hin : o < stdoutLimit
  · refine ⟨.stdout, ?_⟩
    unfold Region.Has Touches
    rw [hstdout]
    unfold stdoutLimit at hin ⊢
    omega
  · unfold stdoutLimit at ho hin
    by_cases hinput : stdinLen = 0
    · refine ⟨.header, ?_⟩
      unfold Region.Has Touches
      rw [hstdout, hheader]
      simp only [pgSize]
      omega
    · refine ⟨.stdin, ?_⟩
      unfold Region.Has Touches
      rw [hstdout, hstdin]
      omega

/-- What the program left in `aux->stdout_len`, up to the size of the buffer. -/
def stdoutLen (aux : Nat) (k : Kernel) : Nat := min (load64 k.mem (auxStdoutLen aux)).toNat stdoutLimit

/-- The upload from the context and kernel `s`, when the program left memory as in `k`. -/
structure UploadOk (root stdinLen total : Nat) (k : Kernel) (s : Ctx × Kernel) : Prop where
  page : ∀ n, (afterReads s n).1.buff % pgSize + (blockRead s n).length ≤ pgSize
  kernel : ∀ n, (afterReads s n).2.mm = k.mm ∧ (afterReads s n).2.handed = k.handed ∧
    ∀ x, userPte (afterReads s n).2.mem root x = userPte k.mem root x
  full : ∀ n < total / 512, (blockRead s n).length = 512
  last : (blockRead s (total / 512)).length = total % 512
  bytes : ((List.range (total / 512 + 1)).map (blockRead s)).flatten.map some =
    userBytes k.mem root (stdoutVa stdinLen) total
  loop : ∀ clientIp clientPort filename tftpReq tftpBuff tftpRespBuff ds c,
    c = PutClient.run (fun n => .ok (blockRead s n))
      (tftpPutFile clientIp clientPort filename tftpReq tftpBuff tftpRespBuff).1 ds →
    c.calls ≤ total / 512 + 1 ∧ (c.point = .returned 0 → c.calls = total / 512 + 1)

/-- The pages of the buffer and of the arguments, and the page after the buffer, are mapped. -/
structure OutputBuilt (m : Mem) (root stdinLen pg : Nat) : Prop where
  args : follow (tableSucc m) root
    [ptIdx 2 (argsVa stdinLen), ptIdx 1 (argsVa stdinLen), ptIdx 0 (argsVa stdinLen)] = some pg
  stdout : ∀ o ≤ stdoutLimit, userView m root (stdoutVa stdinLen + o) ≠ none

theorem OutputBuilt.steps {ts : List Table} {pg : Nat} (h : OutputBuilt k.mem root stdinLen pg)
    (hvm : VmInv k bssEnd ts) (hr : Roots ts root) (hsteps : VmSteps ts k k') :
    OutputBuilt k'.mem root stdinLen pg := by
  refine ⟨hsteps.follow hvm hr (by simp) h.args, fun o ho => ?_⟩
  obtain ⟨p, hp⟩ := userView_ne_none.mp (h.stdout o ho)
  exact userView_ne_none.mpr ⟨p, hsteps.follow hvm hr (by simp) hp⟩

/-- Clamping the length writes in the page of the arguments only. -/
theorem uploadCtx_spec {pg : Nat} (h : OutputBuilt k.mem root stdinLen pg)
    (hvm : VmInv k bssEnd [⟨root, 0⟩]) (hlen : stdinLen ≤ judgeTftpBuffSize) {aux : Nat}
    (haux : aux = pg + (4096 - 0x10 - 56)) :
    ∃ k₁, uploadCtx (some root) aux (stdoutVa stdinLen) k =
        (⟨some root, stdoutVa stdinLen, stdoutLen aux k⟩, k₁) ∧ k₁.mm = k.mm ∧ k₁.handed = k.handed ∧
      (∀ x, userPte k₁.mem root x = userPte k.mem root x) ∧
      ∀ o ≤ stdoutLimit, userView k₁.mem root (stdoutVa stdinLen + o) =
        userView k.mem root (stdoutVa stdinLen + o) := by
  by_cases hover : stdoutLimit < (load64 k.mem (auxStdoutLen aux)).toNat
  · have hlimit : (BitVec.ofNat 64 stdoutLimit).toNat = stdoutLimit := by decide
    have hat : auxStdoutLen aux = pg + 4056 := by
      rw [auxStdoutLen, haux]
    obtain ⟨_, _, hpte, hview⟩ := writeBytes_page hvm (List.mem_singleton.mpr rfl) 4056
      (leBytes 8 (BitVec.ofNat 64 stdoutLimit).toNat) h.args (by rw [leBytes_length]; decide)
    refine ⟨{ k with mem := store64 k.mem (auxStdoutLen aux) (BitVec.ofNat 64 stdoutLimit) }, ?_, rfl,
      rfl, ?_, fun o ho => ?_⟩
    · simp only [uploadCtx, if_pos hover, load64_store64, stdoutLen, hlimit,
        Nat.min_eq_right (Nat.le_of_lt hover)]
    · rw [hat]
      exact hpte
    · rw [hat]
      apply hview
      obtain ⟨_, hstdout, _⟩ := ranges_eq hlen
      obtain ⟨hargs, _, _⟩ := args_eq hlen
      unfold SamePage
      unfold judgeTftpBuffSize at hlen
      unfold stdoutLimit at ho
      rw [hargs, hstdout]
      omega
  · refine ⟨k, ?_, rfl, rfl, fun _ => rfl, fun _ _ => rfl⟩
    simp only [uploadCtx, if_neg hover, stdoutLen, Nat.min_eq_left (Nat.le_of_not_lt hover)]

theorem OutputBuilt.upload {pg : Nat} (h : OutputBuilt k.mem root stdinLen pg)
    (hvm : VmInv k bssEnd [⟨root, 0⟩]) (hlen : stdinLen ≤ judgeTftpBuffSize) {aux : Nat}
    (haux : aux = pg + (4096 - 0x10 - 56)) :
    UploadOk root stdinLen (stdoutLen aux k) k (uploadCtx (some root) aux (stdoutVa stdinLen) k) := by
  obtain ⟨k₁, hctx, hmm, hhanded, hpte, hview⟩ := uploadCtx_spec h hvm hlen haux
  have htotal : stdoutLen aux k ≤ stdoutLimit := Nat.min_le_right _ _
  obtain ⟨_, hstdout, _⟩ := ranges_eq hlen
  have hout : OutputMapped k₁.mem root (stdoutVa stdinLen) (stdoutLen aux k) := by
    refine ⟨?_, ?_, fun o ho => ?_⟩
    · unfold judgeTftpBuffSize at hlen
      omega
    · unfold stdoutLimit at htotal
      omega
    · rw [hview o (Nat.le_trans ho htotal)]
      exact h.stdout o (Nat.le_trans ho htotal)
  have hreturns := blockRead_returns hout htotal
  rw [hctx]
  constructor
  · intro n
    rw [afterReads_eq hout n]
    exact (blockRead_eq hout n).1
  · intro n
    rw [afterReads_eq hout n]
    exact ⟨hmm, hhanded, hpte⟩
  · exact fun n hn => hreturns.full n hn
  · rw [(blockRead_eq hout _).2.1]
    omega
  · have hall : min (512 * (stdoutLen aux k / 512 + 1)) (stdoutLen aux k) = stdoutLen aux k := by omega
    rw [blocks_flatten hout, hall]
    unfold userBytes
    apply List.map_congr_left
    intro o ho
    rw [userByte, userByte, hview o (Nat.le_trans (Nat.le_of_lt (List.mem_range.mp ho)) htotal)]
  · rintro clientIp clientPort filename tftpReq tftpBuff tftpRespBuff ds c rfl
    have hcounts := PutClient.Counts.run hreturns
      (PutClient.Counts.start clientIp clientPort filename tftpReq tftpBuff tftpRespBuff) ds
    refine ⟨hcounts.calls_le, fun hret => ?_⟩
    rw [PutClient.Counts, hret] at hcounts
    exact hcounts.2 rfl

/-- The program finds `aux` where the kernel reads it. -/
theorem OutputBuilt.aux_bytes {m : Mem} {pg : Nat} (h : OutputBuilt m root stdinLen pg)
    (hlen : stdinLen ≤ judgeTftpBuffSize) :
    (bytesAt m (pg + (4096 - 0x10 - 56)) 56).map some = userBytes m root (auxVa stdinLen) 56 := by
  obtain ⟨_, hstdout, _⟩ := ranges_eq hlen
  obtain ⟨hargs, haux, _⟩ := args_eq hlen
  unfold judgeTftpBuffSize at hlen
  have hva : argsVa stdinLen / 4096 * 4096 + (4096 - 0x10 - 56) = auxVa stdinLen := by
    rw [hargs, haux, hstdout]
    omega
  rw [← hva]
  exact bytesAt_page h.args (by decide)

end Job

/-- `do_judge` enters user mode with the output buffer and the arguments of the program mapped. -/
theorem doJudge_output {mm : Mm} {bssEnd : Nat} (hmm : mm.Reachable bssEnd) {mem : Mem}
    {req : JudgeReq} {elf input : List Byte} {zerosLast : BitVec 64} {buff : Nat → Byte}
    {u : UserEntry} {k : Kernel} (hlen : input.length ≤ judgeTftpBuffSize)
    (hrun : doJudge req (.file elf) (.file input) zerosLast buff ⟨mm, mem, []⟩ = (.ok u, k)) :
    ∃ root pg, u.pt = some root ∧ VmInv k bssEnd [⟨root, 0⟩] ∧ OutputBuilt k.mem root input.length pg ∧
      auxPtr u.pt input.length k = pg + (4096 - 0x10 - 56) ∧
      bytesAt k.mem (auxPtr u.pt input.length k) 56 = wordBytes (auxWords input.length) := by
  obtain ⟨root, hbuilt, hstack, _, _⟩ := doJudge_parts hmm hlen hrun
  have hvm := VmSteps.inv hbuilt.steps hbuilt.start
  obtain ⟨pg, hargs, haux, _⟩ := hstack.set
  have hout : OutputBuilt k.mem root input.length pg := by
    refine ⟨hargs, fun o ho hnone => ?_⟩
    obtain ⟨_, hstdout, _⟩ := ranges_eq hlen
    unfold stdoutLimit at ho
    apply (hbuilt.map.mapped (stdoutVa input.length + o) (by omega)).mpr (stdout_has _ hlen ho)
    rw [userPte, hnone]
    rfl
  have hptr : auxPtr u.pt input.length k = pg + (4096 - 0x10 - 56) := by
    obtain ⟨a, hmap, ha⟩ := mapPage_mapped (vmU ||| vmR ||| vmW) (userView_ne_none.mpr ⟨pg, hargs⟩)
    obtain rfl := Option.some.inj (ha.symm.trans hargs)
    rw [auxPtr, hbuilt.pt, hmap]
    simp only [Option.getD_some, pgSize]
    omega
  refine ⟨root, pg, hbuilt.pt, hvm, hout, hptr, ?_⟩
  rw [hptr]
  exact haux

/-- Whatever the program left in its memory, the blocks that `tftp_put_file` reads are the first
`min(aux->stdout_len, STDOUT_LIMIT)` bytes of the output buffer, and reading them maps nothing. -/
theorem doJudge_upload {mm : Mm} {bssEnd : Nat} (hmm : mm.Reachable bssEnd) {mem : Mem}
    {req : JudgeReq} {elf input : List Byte} {zerosLast : BitVec 64} {buff : Nat → Byte}
    {u : UserEntry} {k : Kernel} (hlen : input.length ≤ judgeTftpBuffSize)
    (hrun : doJudge req (.file elf) (.file input) zerosLast buff ⟨mm, mem, []⟩ = (.ok u, k)) :
    ∃ root, u.pt = some root ∧
      bytesAt k.mem (auxPtr u.pt input.length k) 56 = wordBytes (auxWords input.length) ∧
      ∀ events k', runSteps (jobStep root) k events = some k' →
        (bytesAt k'.mem (auxPtr u.pt input.length k) 56).map some =
          userBytes k'.mem root (auxVa input.length) 56 ∧
        UploadOk root input.length (stdoutLen (auxPtr u.pt input.length k) k') k'
          (uploadCtx u.pt (auxPtr u.pt input.length k) (stdoutVa input.length) k') := by
  obtain ⟨root, pg, hpt, hvm, hout, hptr, haux⟩ := doJudge_output hmm hlen hrun
  have hroot : Roots [⟨root, 0⟩] root := ⟨_, List.mem_singleton.mpr rfl, rfl⟩
  refine ⟨root, hpt, haux, ?_⟩
  intro events k' hevents
  have hsteps := runJob_steps hvm hevents
  have hout' := hout.steps hvm hroot hsteps
  rw [hptr, hpt]
  exact ⟨hout'.aux_bytes hlen, hout'.upload (VmSteps.inv hsteps hvm) hlen rfl⟩

/-- A store of the program to a page that is mapped. -/
theorem jobStep_store {k : Kernel} {root x pg : Nat}
    (hleaf : follow (tableSucc k.mem) root [ptIdx 2 x, ptIdx 1 x, ptIdx 0 x] = some pg) (b : Byte) :
    jobStep root k (.store x b) = some { k with mem := writeBytes k.mem (pg + x % 4096) [b] } := by
  obtain ⟨⟨e, c⟩, hview⟩ := Option.ne_none_iff_exists'.mp (userView_ne_none.mpr ⟨pg, hleaf⟩)
  obtain ⟨n, hn, rfl, hvalid, -⟩ := userView_eq_some.mp hview
  have hpage := Option.some.inj ((follow_of_leaf hn hvalid).symm.trans hleaf)
  rw [jobStep, userPte, hview, Option.map_some, Option.map_some, hpage]

theorem getLe_cons (m : Mem) (a n : Nat) : getLe m a (n + 1) = (m a).toNat + 256 * getLe m (a + 1) n := by
  rw [getLe, Nat.add_comm n 1, bytesAt_add]
  rfl

/-- A byte stored over the low one of a word that was zero. -/
theorem load64_writeByte {m : Mem} {a : Nat} (h : load64 m a = 0) (b : Byte) :
    load64 (writeBytes m a [b]) a = BitVec.ofNat 64 b.toNat := by
  have hload : ∀ m : Mem, load64 m a = BitVec.ofNat 64 (getLe m a 8) := fun _ => rfl
  have hzero : getLe m (a + 1) 7 = 0 := by
    have hmod := congrArg BitVec.toNat ((hload m).symm.trans h)
    rw [BitVec.toNat_ofNat, getLe_cons] at hmod
    have hlt := getLe_lt m (a + 1) 7
    have hbyte := (m a).isLt
    have hnone : (0 : BitVec 64).toNat = 0 := rfl
    omega
  have hbyte : writeBytes m a [b] a = b := List.head_eq_of_cons_eq (bytesAt_writeBytes m a [b])
  have hrest : getLe (writeBytes m a [b]) (a + 1) 7 = getLe m (a + 1) 7 :=
    getLe_writeBytes_disjoint _ _ _ _ _ (.inr (Nat.le_refl _))
  rw [hload, getLe_cons, hbyte, hrest, hzero, Nat.mul_zero, Nat.add_zero]

/-- Bytes of a page do not change with a store to another one. -/
theorem bytesAt_store {k : Kernel} {bssEnd root x y pg pg' off n : Nat} (hvm : VmInv k bssEnd [⟨root, 0⟩])
    (hleaf : follow (tableSucc k.mem) root [ptIdx 2 x, ptIdx 1 x, ptIdx 0 x] = some pg)
    (hother : follow (tableSucc k.mem) root [ptIdx 2 y, ptIdx 1 y, ptIdx 0 y] = some pg')
    (hne : ¬ SamePage y x) (hfit : off + n ≤ 4096) (b : Byte) :
    bytesAt (writeBytes k.mem (pg + x % 4096) [b]) (pg' + off) n = bytesAt k.mem (pg' + off) n := by
  have hroot : Roots [⟨root, 0⟩] root := ⟨_, List.mem_singleton.mpr rfl, rfl⟩
  obtain ⟨-, -, -, hview⟩ := writeBytes_page hvm (List.mem_singleton.mpr rfl) (x % 4096) [b] hleaf
    (Nat.mod_lt x (by decide))
  have hkept := (jobStep_steps hvm (jobStep_store hleaf b)).follow hvm hroot (by simp) hother
  have hbytes : userBytes (writeBytes k.mem (pg + x % 4096) [b]) root (y / 4096 * 4096 + off) n =
      userBytes k.mem root (y / 4096 * 4096 + off) n := by
    refine List.map_congr_left fun i hi => ?_
    have hlt := List.mem_range.mp hi
    rw [userByte, userByte, hview]
    intro hsame
    refine hne ?_
    unfold SamePage at hsame ⊢
    rw [← hsame, show (y / 4096 * 4096 + off + i) / 4096 = y / 4096 by omega]
  have hmap := (bytesAt_page hkept hfit).trans (hbytes.trans (bytesAt_page hother hfit).symm)
  exact List.map_injective_iff.mpr (Option.some_injective _) hmap

/-- A program without input that stores a byte of output, and the length of its output before. -/
theorem OutputBuilt.store_output {k : Kernel} {bssEnd root pg : Nat} (h : OutputBuilt k.mem root 0 pg)
    (hvm : VmInv k bssEnd [⟨root, 0⟩]) (hzero : load64 k.mem (pg + 4056) = 0) (b : Byte) :
    ∃ k', runSteps (jobStep root) k [.store (auxVa 0 + 32) 1, .store (stdoutVa 0) b] = some k' ∧
      load64 k'.mem (pg + 4056) = 1 ∧ userByte k'.mem root (stdoutVa 0) = some b := by
  have hroot : Roots [⟨root, 0⟩] root := ⟨_, List.mem_singleton.mpr rfl, rfl⟩
  have hsame : SamePage (auxVa 0 + 32) (argsVa 0) := by decide
  have hother : ¬ SamePage (argsVa 0) (stdoutVa 0) := by decide
  have hplace : (auxVa 0 + 32) % 4096 = 4056 := by decide
  obtain ⟨h₂, h₁, h₀⟩ := (ptIdx_page (auxVa 0 + 32) (argsVa 0)).mpr hsame
  have hlength := jobStep_store (k := k) (x := auxVa 0 + 32) (by rw [h₂, h₁, h₀]; exact h.args) 1
  have hsteps := jobStep_steps hvm hlength
  have hkept := h.steps hvm hroot hsteps
  obtain ⟨pg₁, hpage⟩ := userView_ne_none.mp (hkept.stdout 0 (by decide))
  have hbyte := jobStep_store hpage b
  refine ⟨_, (runSteps_cons _ _ _ _ _).mpr ⟨_, hlength, (runSteps_cons _ _ _ _ _).mpr ⟨_, hbyte, rfl⟩⟩, ?_, ?_⟩
  · have hwithin : 4056 + 8 ≤ 4096 := by decide
    have hsame := bytesAt_store (VmSteps.inv hsteps hvm) hpage hkept.args hother hwithin b
    rw [load64, hsame]
    rw [← hplace] at hzero ⊢
    exact load64_writeByte hzero 1
  · have hpage' := (jobStep_steps (VmSteps.inv hsteps hvm) hbyte).follow (VmSteps.inv hsteps hvm) hroot (by simp) hpage
    refine (userByte_of_follow hpage').trans (congrArg some ?_)
    exact List.head_eq_of_cons_eq (bytesAt_writeBytes _ _ [b])

/-- The byte that the small image has stored is uploaded. -/
theorem doJudge_upload_small : ∃ mm u k root k',
    doJudge ⟨1, 1000, 0⟩ (.file (bytesAt smallElf 0 120)) (.file []) 0 (fun _ => 0)
      ⟨mm, fun _ => 0, []⟩ = (.ok u, k) ∧ u.pt = some root ∧
    runSteps (jobStep root) k [.store (auxVa 0 + 32) 1, .store (stdoutVa 0) 65] = some k' ∧
    blockRead (uploadCtx u.pt (auxPtr u.pt 0 k) (stdoutVa 0) k') 0 = [65] ∧
    UploadOk root 0 1 k' (uploadCtx u.pt (auxPtr u.pt 0 k) (stdoutVa 0) k') := by
  obtain ⟨mm, hmm, _, u, k, hrun⟩ := boot_reaches (bytesAt smallElf 0 120) (by decide +kernel)
  have hlen : ([] : List Byte).length ≤ judgeTftpBuffSize := by decide
  obtain ⟨root, hpt, -, hall⟩ := doJudge_upload hmm hlen hrun
  obtain ⟨root', pg, hpt', hvm, hout, hptr, haux⟩ := doJudge_output hmm hlen hrun
  obtain rfl := Option.some.inj (hpt.symm.trans hpt')
  rw [List.length_nil] at hptr hall haux hout
  have hat : auxStdoutLen (auxPtr u.pt 0 k) = pg + 4056 := by rw [auxStdoutLen, hptr]
  have hzero := load64_auxStdoutLen haux
  rw [hat] at hzero
  obtain ⟨k', hevents, hword, hbyte⟩ := hout.store_output hvm hzero 65
  obtain ⟨-, hupload⟩ := hall _ k' hevents
  have hone : stdoutLen (auxPtr u.pt 0 k) k' = 1 := by
    rw [stdoutLen, hat, hword]
    rfl
  rw [hone] at hupload
  have hbytes := hupload.bytes
  simp only [userBytes, List.range_one, List.map_cons, List.map_nil, List.flatten_cons, List.flatten_nil,
    List.append_nil, Nat.add_zero, hbyte, Nat.reduceDiv, Nat.zero_add] at hbytes
  refine ⟨mm, u, k, root, k', hrun, hpt, hevents, ?_, hupload⟩
  exact List.map_injective_iff.mpr (Option.some_injective _) hbytes

end VijosOS
