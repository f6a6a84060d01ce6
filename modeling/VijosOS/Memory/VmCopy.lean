import VijosOS.Memory.VmOps

/-!
# Copies into user memory

`map_and_copy` splits a range into an unaligned head, whole pages and a tail. Each
piece is a copy inside one page; adjacent copies compose, so the call copies a prefix
of the range, and all of it when it succeeds. A loop of `map_page` is a copy that
writes nothing.
-/

namespace VijosOS

open Library

/-- The page of `x` has an address in `[va, va + len)`. -/
def Touches (va len x : Nat) : Prop :=
  0 < len ∧ va / 4096 ≤ x / 4096 ∧ x / 4096 * 4096 < va + len

instance (va len x : Nat) : Decidable (Touches va len x) := inferInstanceAs (Decidable (_ ∧ _))

/-- What a view shows at `x` after `src` was copied to `[va, va + len)`, with `pages` naming
the physical page newly bound to each virtual page. A byte of `src` may be absent. -/
def copiedAt (va : Nat) (flags : BitVec 64) (src : Nat → Option Byte) (len : Nat)
    (pages : Nat → Nat) (x : Nat) (v : Option (BitVec 64 × Byte)) : Option (BitVec 64 × Byte) :=
  if Touches va len x then
    let old := v.getD (makePte 0 (pages (x / 4096)) flags, 0)
    some (old.1, if va ≤ x ∧ x < va + len then (src (x - va)).getD old.2 else old.2)
  else v

theorem copiedAt_zero (va : Nat) (flags : BitVec 64) (src : Nat → Option Byte) (pages : Nat → Nat)
    (x : Nat) (v : Option (BitVec 64 × Byte)) : copiedAt va flags src 0 pages x v = v :=
  if_neg fun h => Nat.lt_irrefl 0 h.1

/-- Adjacent copies compose. -/
theorem copiedAt_append {va m n : Nat} (flags : BitVec 64) (src : Nat → Option Byte)
    (pages pages' : Nat → Nat) (x : Nat) (v : Option (BitVec 64 × Byte)) :
    copiedAt (va + m) flags (fun i => src (m + i)) n pages' x (copiedAt va flags src m pages x v) =
      copiedAt va flags src (m + n)
        (fun p => if Touches va m (p * 4096) then pages p else pages' p) x v := by
  have hpage : x / 4096 * 4096 / 4096 = x / 4096 := Nat.mul_div_cancel _ (by decide)
  have hsel : Touches va m (x / 4096 * 4096) ↔ Touches va m x := by
    unfold Touches
    rw [hpage]
  have hshift : va + m ≤ x → m + (x - (va + m)) = x - va := by omega
  unfold copiedAt
  by_cases hfirst : Touches va m x
  · have hboth : Touches va (m + n) x := by
      unfold Touches at hfirst ⊢
      omega
    rw [if_pos hfirst, if_pos hboth]
    simp only [hsel, if_pos hfirst, Option.getD_some]
    by_cases hin : va + m ≤ x ∧ x < va + m + n
    · have hsecond : Touches (va + m) n x := by
        unfold Touches
        omega
      have hnot : ¬ (va ≤ x ∧ x < va + m) := by omega
      have hall : va ≤ x ∧ x < va + (m + n) := by omega
      rw [if_pos hsecond, if_pos hin, if_neg hnot, if_pos hall, hshift hin.1]
    · have hold : (va ≤ x ∧ x < va + m) ↔ (va ≤ x ∧ x < va + (m + n)) := by omega
      simp only [if_neg hin, hold, ite_self]
  · rw [if_neg hfirst]
    by_cases hsecond : Touches (va + m) n x
    · have hboth : Touches va (m + n) x := by
        unfold Touches at hfirst hsecond ⊢
        omega
      have hin : (va + m ≤ x ∧ x < va + m + n) ↔ (va ≤ x ∧ x < va + (m + n)) := by
        unfold Touches at hfirst hsecond
        omega
      rw [if_pos hsecond, if_pos hboth]
      simp only [hsel, if_neg hfirst]
      by_cases hx : va + m ≤ x ∧ x < va + m + n
      · rw [if_pos hx, if_pos (hin.mp hx), hshift hx.1]
      · rw [if_neg hx, if_neg (fun hy => hx (hin.mpr hy))]
    · have hboth : ¬ Touches va (m + n) x := by
        unfold Touches at hfirst hsecond ⊢
        omega
      rw [if_neg hsecond, if_neg hboth]

/-- The copy of `src` to `[va, va + len)` of the table at `root` is all that happened. -/
def Copied (ts : List Table) (root va : Nat) (flags : BitVec 64) (src : Nat → Option Byte)
    (len : Nat) (k k' : Kernel) : Prop :=
  ∃ pages, ∀ r x, Roots ts r → x < 2 ^ 39 → userView k'.mem r x =
    if r = root then copiedAt va flags src len pages x (userView k.mem r x) else userView k.mem r x

section Copy

variable {k k' k'' : Kernel} {bssEnd : Nat} {ts : List Table} {t : Table} {root va m n : Nat}
  {flags : BitVec 64}

theorem SameViews.copied {src : Nat → Option Byte} (h : SameViews ts k k') : Copied ts root va flags src 0 k k' := by
  refine ⟨fun _ => 0, fun r x hr _ => ?_⟩
  rw [copiedAt_zero, ite_self, h r x hr]

theorem Copied.of_zero {src : Nat → Option Byte} (h : Copied ts root va flags src 0 k k')
    (va' : Nat) (src' : Nat → Option Byte) :
    Copied ts root va' flags src' 0 k k' := by
  obtain ⟨pages, hcopy⟩ := h
  refine ⟨pages, fun r x hr hx => ?_⟩
  rw [hcopy r x hr hx, copiedAt_zero, copiedAt_zero]

theorem Copied.append {src : Nat → Option Byte} (h : Copied ts root va flags src m k k')
    (h' : Copied ts root (va + m) flags (fun i => src (m + i)) n k' k'') :
    Copied ts root va flags src (m + n) k k'' := by
  obtain ⟨pages, hcopy⟩ := h
  obtain ⟨pages', hcopy'⟩ := h'
  refine ⟨fun p => if Touches va m (p * 4096) then pages p else pages' p, fun r x hr hx => ?_⟩
  rw [hcopy' r x hr hx, hcopy r x hr hx]
  by_cases hroot : r = root
  · simp only [if_pos hroot]
    exact copiedAt_append flags src pages pages' x _
  · simp only [if_neg hroot]

variable {src : Nat → Byte}

/-- One page of a copy is a copy. -/
theorem mapAndWrite_copied (h : VmInv k bssEnd ts) (ht : t ∈ ts) {off : Nat} {ok : Bool}
    (hva : va % 4096 = 0) (htop : va < 2 ^ 39) (hpos : 0 < n) (hn : off + n ≤ 4096)
    (hrun : mapAndWrite (some t.root) va flags off src n k = (ok, k')) :
    VmInv k' bssEnd ts ∧ (ok = false → SameViews ts k k') ∧
      (ok = true → Copied ts t.root (va + off) flags (fun i => some (src i)) n k k') := by
  obtain ⟨h', hfail, hdone⟩ := mapAndWrite_spec h ht hn hrun
  refine ⟨h', hfail, fun hok => ?_⟩
  obtain ⟨a, hview⟩ := hdone hok
  refine ⟨fun _ => a, fun r x hr hx => ?_⟩
  rw [hview r x hr, writtenView]
  have hpage : SamePage x va ↔ Touches (va + off) n x := by
    unfold SamePage Touches
    omega
  by_cases hroot : r = t.root
  · by_cases htouch : SamePage x va
    · have hin : (off ≤ x % 4096 ∧ x % 4096 < off + n) ↔ (va + off ≤ x ∧ x < va + off + n) := by
        unfold SamePage at htouch
        omega
      have hsrc : x % 4096 - off = x - (va + off) ∨ ¬ (off ≤ x % 4096 ∧ x % 4096 < off + n) := by
        unfold SamePage at htouch
        omega
      simp only [if_pos hroot, htouch, and_true, copiedAt, if_pos (hpage.mp htouch),
        overwritten]
      split_ifs with hold hnew hnew
      · rcases hsrc with heq | hno
        · rw [heq, Option.getD_some]
        · exact absurd hold hno
      · exact absurd (hin.mp hold) hnew
      · exact absurd (hin.mpr hnew) hold
      · rfl
    · rw [if_neg (fun hh => htouch hh.2), if_pos hroot, copiedAt,
        if_neg (fun hh => htouch (hpage.mpr hh))]
  · rw [if_neg (fun hh => hroot hh.1), if_neg hroot]

theorem copyPagesFrom_spec (h : VmInv k bssEnd ts) (ht : t ∈ ts) {ok : Bool} (hva : va % 4096 = 0)
    (htop : va + n * 4096 ≤ 2 ^ 39)
    (hrun : copyPagesFrom (some t.root) flags va n src k = (ok, k')) :
    VmInv k' bssEnd ts ∧ ∃ m ≤ n, Copied ts t.root va flags (fun i => some (src i)) (m * 4096) k k' ∧
      (ok = true → m = n) := by
  induction n generalizing k va src with
  | zero =>
    simp only [copyPagesFrom, Prod.mk.injEq] at hrun
    obtain ⟨rfl, rfl⟩ := hrun
    exact ⟨h, 0, Nat.le_refl 0, (SameViews.refl ts k).copied, fun _ => rfl⟩
  | succ n ih =>
    rcases hpage : mapAndWrite (some t.root) va flags 0 src pgSize k with ⟨ok₁, k₁⟩
    obtain ⟨h₁, hfail, hdone⟩ :=
      mapAndWrite_copied h ht hva (by omega) (by decide) (by decide) hpage
    cases ok₁ with
    | false =>
      simp only [copyPagesFrom, hpage, Prod.mk.injEq] at hrun
      obtain ⟨rfl, rfl⟩ := hrun
      refine ⟨h₁, 0, Nat.zero_le _, ?_, nofun⟩
      rw [Nat.zero_mul]
      exact (hfail rfl).copied
    | true =>
      simp only [copyPagesFrom, hpage] at hrun
      obtain ⟨h', m, hm, hcopy, hok⟩ :=
        ih h₁ (by simp only [pgSize]; omega) (by simp only [pgSize]; omega) hrun
      refine ⟨h', m + 1, by omega, ?_, fun hh => congrArg (· + 1) (hok hh)⟩
      have hlen : (m + 1) * 4096 = 4096 + m * 4096 := by omega
      rw [hlen]
      exact (hdone rfl).append hcopy

theorem headChunk_le (va len : Nat) : headChunk va len ≤ len := by
  unfold headChunk
  dsimp only
  split_ifs <;> omega

theorem headChunk_fits {va : Nat} (len : Nat) (hva : va < 2 ^ 64) :
    va - pgAlignFloor va + headChunk va len ≤ 4096 := by
  simp only [headChunk, pgAlignFloor_eq hva, pgSize]
  split_ifs <;> omega

/-- Where the whole pages start and how many there are. Either the range ends inside its first
page, or the head reaches the next page boundary. -/
theorem copy_middle {va len : Nat} (htop : va + len ≤ 2 ^ 39) :
    pgAlign va = (va + 4095) / 4096 * 4096 ∧
      pgAlignFloor (wrap64 (va + len)) = (va + len) / 4096 * 4096 ∧
      pageCount (pgAlign va) (pgAlignFloor (wrap64 (va + len))) =
        (va + len) / 4096 - (va + 4095) / 4096 ∧
      (headChunk va len = len ∧ (va + len) / 4096 < (va + 4095) / 4096 ∨
        va + headChunk va len = (va + 4095) / 4096 * 4096) := by
  have hbegin : pgAlign va = (va + 4095) / 4096 * 4096 := pgAlign_eq (by omega)
  have hend : pgAlignFloor (wrap64 (va + len)) = (va + len) / 4096 * 4096 := by
    rw [wrap64_of_lt (by omega)]
    exact pgAlignFloor_eq (by omega)
  refine ⟨hbegin, hend, ?_, ?_⟩
  · rw [hbegin, hend]
    simp only [pageCount, pgSize]
    omega
  · simp only [headChunk, pgAlignFloor_eq (show va < 2 ^ 64 by omega), pgSize]
    split_ifs <;> omega

private theorem copyHead_spec (h : VmInv k bssEnd ts) (ht : t ∈ ts) {len : Nat} {ok : Bool}
    (hlen : 0 < len) (htop : va + len ≤ 2 ^ 39)
    (hrun : copyHead (some t.root) va flags src len k = (ok, k')) :
    VmInv k' bssEnd ts ∧ (ok = false → SameViews ts k k') ∧
      (ok = true → Copied ts t.root va flags (fun i => some (src i)) (headChunk va len) k k') := by
  have hfloor : pgAlignFloor va = va / 4096 * 4096 := pgAlignFloor_eq (by omega)
  by_cases hva : va ≠ pgAlignFloor va
  · have hpos : 0 < headChunk va len := by
      simp only [headChunk, hfloor, pgSize]
      split_ifs <;> omega
    have hstart : pgAlignFloor va + (va - pgAlignFloor va) = va := by omega
    rw [copyHead, if_pos hva] at hrun
    have hpage := mapAndWrite_copied h ht (by omega) (by omega) hpos
      (headChunk_fits len (by omega)) hrun
    rwa [hstart] at hpage
  · rw [copyHead, if_neg hva] at hrun
    obtain ⟨rfl, rfl⟩ := Prod.mk.inj hrun
    have hchunk : headChunk va len = 0 := if_neg hva
    rw [hchunk]
    exact ⟨h, nofun, fun _ => (SameViews.refl ts k).copied⟩

private theorem copyTail_spec (h : VmInv k bssEnd ts) (ht : t ∈ ts) {len : Nat} {ok : Bool}
    (hva : len ≠ 0 → va % 4096 = 0 ∧ va < 2 ^ 39 ∧ len ≤ 4096)
    (hrun : copyTail (some t.root) va flags src len k = (ok, k')) :
    VmInv k' bssEnd ts ∧ (ok = false → SameViews ts k k') ∧
      (ok = true → Copied ts t.root va flags (fun i => some (src i)) len k k') := by
  by_cases hlen : len > 0
  · obtain ⟨haligned, htop, hsize⟩ := hva (Nat.ne_of_gt hlen)
    rw [copyTail, if_pos hlen] at hrun
    exact mapAndWrite_copied h ht haligned htop hlen (by omega) hrun
  · obtain rfl : len = 0 := by omega
    rw [copyTail, if_neg hlen] at hrun
    obtain ⟨rfl, rfl⟩ := Prod.mk.inj hrun
    exact ⟨h, nofun, fun _ => (SameViews.refl ts k).copied⟩

/-- A null table maps nothing, whatever the range. -/
theorem mapAndCopy_null (va : Nat) (flags : BitVec 64) (src : Nat → Byte) (len : Nat) (k : Kernel) :
    mapAndCopy none va flags src len k = (if len = 0 then 0 else -eOOM, k) := by
  by_cases hlen : len = 0
  · rw [mapAndCopy, if_pos hlen, if_pos hlen]
  rw [mapAndCopy, if_neg hlen, if_neg hlen]
  by_cases hva : va ≠ pgAlignFloor va
  · have hhead : copyHead none va flags src len k = (false, k) := by
      rw [copyHead, if_pos hva]
      rfl
    rw [hhead]
  · have hhead : copyHead none va flags src len k = (true, k) := if_neg hva
    have hchunk : headChunk va len = 0 := if_neg hva
    simp only [hhead, hchunk]
    cases pageCount (pgAlign va) (pgAlignFloor (wrap64 (va + len))) with
    | zero =>
      have htail : copyTail none (pgAlignFloor (wrap64 (va + len))) flags
          (fun i => src (0 + 0 * pgSize + i)) (len - (0 + 0 * pgSize)) k = (false, k) := by
        rw [copyTail, if_pos (by omega)]
        rfl
      simp only [copyPagesFrom, htail]
    | succ n => rfl

/-- `map_and_copy` copies a prefix of the range, and all of it when it succeeds. -/
theorem mapAndCopy_spec (h : VmInv k bssEnd ts) (ht : t ∈ ts) {len : Nat} {ret : Int}
    (htop : va + len ≤ 2 ^ 39)
    (hrun : mapAndCopy (some t.root) va flags src len k = (ret, k')) :
    VmInv k' bssEnd ts ∧ ∃ n ≤ len, Copied ts t.root va flags (fun i => some (src i)) n k k' ∧
      (ret = 0 ∧ n = len ∨ ret = -eOOM) := by
  by_cases hlen : len = 0
  · rw [mapAndCopy, if_pos hlen, Prod.mk.injEq] at hrun
    obtain ⟨rfl, rfl⟩ := hrun
    exact ⟨h, 0, Nat.zero_le _, (SameViews.refl ts k).copied, Or.inl ⟨rfl, hlen.symm⟩⟩
  have hchunk := headChunk_le va len
  obtain ⟨hbegin, hend, hcount, hreach⟩ := copy_middle htop
  rw [hbegin, hend] at hcount
  rw [mapAndCopy, if_neg hlen] at hrun
  simp only [hbegin, hend, hcount] at hrun
  rcases hhead : copyHead (some t.root) va flags src len k with ⟨ok₁, k₁⟩
  obtain ⟨h₁, hfail₁, hdone₁⟩ := copyHead_spec h ht (by omega) htop hhead
  rw [hhead] at hrun
  cases ok₁ with
  | false =>
    obtain ⟨rfl, rfl⟩ := Prod.mk.inj hrun
    exact ⟨h₁, 0, Nat.zero_le _, (hfail₁ rfl).copied, Or.inr rfl⟩
  | true =>
    generalize hn : (va + len) / 4096 - (va + 4095) / 4096 = n at hrun
    rcases hmid : copyPagesFrom (some t.root) flags ((va + 4095) / 4096 * 4096) n
      (fun i => src (headChunk va len + i)) k₁ with ⟨ok₂, k₂⟩
    obtain ⟨h₂, m, hm, hcopy₂, hall₂⟩ := copyPagesFrom_spec h₁ ht (by omega) (by omega) hmid
    simp only [hmid] at hrun
    have hpre : Copied ts t.root va flags (fun i => some (src i)) (headChunk va len + m * 4096) k k₂ := by
      refine (hdone₁ rfl).append ?_
      rcases hreach with ⟨_, hshort⟩ | hmeet
      · obtain rfl : m = 0 := by omega
        rw [Nat.zero_mul] at hcopy₂ ⊢
        exact hcopy₂.of_zero _ _
      · rw [hmeet]
        exact hcopy₂
    have hle : headChunk va len + m * 4096 ≤ len := by omega
    cases ok₂ with
    | false =>
      obtain ⟨rfl, rfl⟩ := Prod.mk.inj hrun
      exact ⟨h₂, _, hle, hpre, Or.inr rfl⟩
    | true =>
      obtain rfl := hall₂ rfl
      rcases htail : copyTail (some t.root) ((va + len) / 4096 * 4096) flags
        (fun i => src (headChunk va len + m * pgSize + i)) (len - (headChunk va len + m * pgSize)) k₂
        with ⟨ok₃, k₃⟩
      have hstart : len - (headChunk va len + m * pgSize) ≠ 0 →
          (va + len) / 4096 * 4096 % 4096 = 0 ∧ (va + len) / 4096 * 4096 < 2 ^ 39 ∧
            len - (headChunk va len + m * pgSize) ≤ 4096 := by
        intro hne
        simp only [pgSize] at hne ⊢
        omega
      obtain ⟨h₃, hfail₃, hdone₃⟩ := copyTail_spec h₂ ht hstart htail
      simp only [htail] at hrun
      cases ok₃ with
      | false =>
        obtain ⟨rfl, rfl⟩ := Prod.mk.inj hrun
        refine ⟨h₃, headChunk va len + m * 4096, hle, ?_, Or.inr rfl⟩
        have hsame : Copied ts t.root (va + (headChunk va len + m * 4096)) flags
            (fun i => some (src (headChunk va len + m * 4096 + i))) 0 k₂ k₃ := (hfail₃ rfl).copied
        have hall := hpre.append hsame
        rwa [Nat.add_zero] at hall
      | true =>
        obtain ⟨rfl, rfl⟩ := Prod.mk.inj hrun
        refine ⟨h₃, len, Nat.le_refl _, ?_, Or.inl ⟨rfl, rfl⟩⟩
        have htotal : headChunk va len + m * 4096 + (len - (headChunk va len + m * 4096)) = len := by
          omega
        rw [← htotal]
        refine hpre.append ?_
        rcases hreach with ⟨hwhole, hshort⟩ | hmeet
        · have hrest : len - (headChunk va len + m * 4096) = 0 := by omega
          have hcopy := hdone₃ rfl
          simp only [pgSize, hrest] at hcopy ⊢
          exact hcopy.of_zero _ _
        · have hend : va + (headChunk va len + m * 4096) = (va + len) / 4096 * 4096 := by omega
          rw [hend]
          exact hdone₃ rfl

theorem mapPage_copied (h : VmInv k bssEnd ts) (ht : t ∈ ts) {pg : Option Nat}
    (hva : va % 4096 = 0) (htop : va < 2 ^ 39) (hrun : mapPage (some t.root) va flags k = (pg, k')) :
    VmInv k' bssEnd ts ∧ (pg = none → SameViews ts k k') ∧
      (pg ≠ none → Copied ts t.root va flags (fun _ => none) 4096 k k') := by
  obtain ⟨h', hfail, hdone⟩ := mapPage_spec h ht hrun
  refine ⟨h', hfail, fun hne => ?_⟩
  obtain ⟨a, ha⟩ := Option.ne_none_iff_exists'.mp hne
  obtain ⟨_, hview⟩ := hdone a ha
  refine ⟨fun _ => a, fun r x hr hx => ?_⟩
  rw [hview r x hr, mappedView]
  have hpage : SamePage x va ↔ Touches va 4096 x := by
    unfold SamePage Touches
    omega
  by_cases hroot : r = t.root
  · by_cases htouch : SamePage x va
    · rw [if_pos ⟨hroot, htouch⟩, if_pos hroot, copiedAt, if_pos (hpage.mp htouch)]
      simp only [Option.getD_none, ite_self]
    · rw [if_neg (fun hh => htouch hh.2), if_pos hroot, copiedAt,
        if_neg (fun hh => htouch (hpage.mpr hh))]
  · rw [if_neg (fun hh => hroot hh.1), if_neg hroot]

theorem mapPagesFrom_spec (h : VmInv k bssEnd ts) (ht : t ∈ ts) {ok : Bool} (hva : va % 4096 = 0)
    (htop : va + n * 4096 ≤ 2 ^ 39) (hrun : mapPagesFrom (some t.root) flags va n k = (ok, k')) :
    VmInv k' bssEnd ts ∧ ∃ m ≤ n, Copied ts t.root va flags (fun _ => none) (m * 4096) k k' ∧
      (ok = true → m = n) := by
  induction n generalizing k va with
  | zero =>
    simp only [mapPagesFrom, Prod.mk.injEq] at hrun
    obtain ⟨rfl, rfl⟩ := hrun
    exact ⟨h, 0, Nat.le_refl 0, (SameViews.refl ts k).copied, fun _ => rfl⟩
  | succ n ih =>
    rcases hpage : mapPage (some t.root) va flags k with ⟨pg, k₁⟩
    obtain ⟨h₁, hfail, hdone⟩ := mapPage_copied h ht hva (by omega) hpage
    cases pg with
    | none =>
      simp only [mapPagesFrom, hpage, Prod.mk.injEq] at hrun
      obtain ⟨rfl, rfl⟩ := hrun
      refine ⟨h₁, 0, Nat.zero_le _, ?_, nofun⟩
      rw [Nat.zero_mul]
      exact (hfail rfl).copied
    | some a =>
      simp only [mapPagesFrom, hpage] at hrun
      obtain ⟨h', m, hm, hcopy, hok⟩ :=
        ih h₁ (by simp only [pgSize]; omega) (by simp only [pgSize]; omega) hrun
      refine ⟨h', m + 1, by omega, ?_, fun hh => congrArg (· + 1) (hok hh)⟩
      have hlen : (m + 1) * 4096 = 4096 + m * 4096 := by omega
      rw [hlen]
      exact (hdone (by simp)).append hcopy

end Copy

end VijosOS
