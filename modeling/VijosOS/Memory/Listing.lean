import VijosOS.Console.Calls
import VijosOS.Library.RunLength
import VijosOS.Memory.AllocatorRuns

/-!
# The memory status

`mm_print` goes over the bitmap once and prints a line whenever a page differs from the one before.
What it prints is the run-length listing of the bitmap, from which the bitmap can be read back.
-/

namespace VijosOS

open Library

/-! ## Code -/

def mmIsInUse (b : MmBitmap) (pg : Nat) : Bool :=
  let n := pg >>> pgShift
  let index := n >>> 6
  let mask := 1#64 <<< (n &&& 63)
  decide (b.bits index &&& mask ≠ 0#64)

section Code

variable {σ : Type} (putchar : Byte → σ → σ)

def printPages (start stop : Nat) (inUse : Bool) (s : σ) : Option σ :=
  print putchar "  [0x%016lx - 0x%016lx]: %s\n" [vaLong (wrap64 (start <<< pgShift)),
    vaLong (sub64 (wrap64 (stop <<< pgShift)) 1), vaString (if inUse then "In Use" else "Free")] s

-- The loop of `mm_print` from page `pg` with `n` iterations left, and the line behind it.
def mmPrintFrom (b : MmBitmap) : Nat → Nat → Nat → Bool → σ → Option σ
  | 0, _, start, startInUse, s => printPages putchar start b.size startInUse s
  | n + 1, pg, start, startInUse, s =>
    let inUse := mmIsInUse b (wrap64 (pg <<< pgShift))
    if inUse ≠ startInUse then
      (printPages putchar start pg startInUse s).bind (mmPrintFrom b n (pg + 1) pg inUse)
    else mmPrintFrom b n (pg + 1) start startInUse s

def mmPrint (mm : Mm) (s : σ) : Option σ := do
  let s ← print putchar "Memory Status:\n" [] s
  let s ← print putchar "  Metadata is at 0x%016lx\n" [vaLong mm.mmbmAt] s
  let s ← print putchar "  Metadata snapshot is at 0x%016lx\n" [vaLong mm.mmbmSnapshotAt] s
  let s ← print putchar "  Metadata: %lu bytes\n" [vaLong (mmbmSize mm)] s
  let s ← print putchar "  Total Memory: % 12lu bytes\n" [vaLong (wrap64 (mm.mmbm.size <<< pgShift))] s
  let s ← print putchar "  Used  Memory: % 12lu bytes\n" [vaLong (wrap64 (mm.mmbm.used <<< pgShift))] s
  let s ← print putchar "  Free  Memory: % 12lu bytes\n"
    [vaLong (wrap64 (sub64 mm.mmbm.size mm.mmbm.used <<< pgShift))] s
  mmPrintFrom putchar mm.mmbm mm.mmbm.size 0 0 (mmIsInUse mm.mmbm 0) s

end Code

/-! ## The lines -/

def addressLine (name : String) (v : Nat) : List Byte := bytesOf name ++ padded false 16 16 v

def amountLine (name : String) (k v : Nat) : List Byte :=
  bytesOf name ++ (List.leftpad k (chr ' ') (padded false 10 1 v) ++ bytesOf " bytes")

def headerLines (mm : Mm) : List (List Byte) :=
  [bytesOf "Memory Status:",
    addressLine "  Metadata is at 0x" mm.mmbmAt,
    addressLine "  Metadata snapshot is at 0x" mm.mmbmSnapshotAt,
    amountLine "  Metadata: " 0 (mmbmSize mm),
    amountLine "  Total Memory: " 12 (wrap64 (mm.mmbm.size * 4096)),
    amountLine "  Used  Memory: " 12 (wrap64 (mm.mmbm.used * 4096)),
    amountLine "  Free  Memory: " 12 (wrap64 ((mm.mmbm.size - mm.mmbm.used) * 4096))]

/-- The first and the last address of a stretch of pages, and their state. -/
def pagesLine (s : Stretch Bool) : List Byte :=
  bytesOf "  [0x" ++ (padded false 16 16 (s.first * 4096) ++ (bytesOf " - 0x" ++
    (padded false 16 16 (s.stop * 4096 - 1) ++ (bytesOf "]: " ++
      bytesOf (if s.value then "In Use" else "Free")))))

def unlines (lines : List (List Byte)) : List Byte := lines.flatMap (· ++ [chr '\n'])

section Lines

variable {σ : Type} {putchar : Byte → σ → σ} {s : σ}

/-- No character of the text ends a format or starts a directive in it. -/
def isLiteral (text : String) : Bool := text.toList.all fun c => decide (chr c ≠ 0 ∧ chr c ≠ chr '%')

theorem literal_valid {text : String} (h : isLiteral text = true) : ∀ x ∈ literal text, x.Valid := by
  intro x hx
  obtain ⟨c, hc, rfl⟩ := List.mem_map.mp hx
  show chr c ≠ 0 ∧ chr c ≠ chr '%'
  exact of_decide_eq_true (List.all_eq_true.mp h c hc)

theorem literal_not_char (text : String) : ∀ x ∈ literal text, ∀ head arg, x ≠ .character head arg := by
  intro x hx head arg heq
  obtain ⟨c, _, rfl⟩ := List.mem_map.mp hx
  cases heq

theorem ulong_not_char (flags : List FlagChar) (k : Nat) (conv : IntConv) (v : Nat) (head : Head) (arg : VaArg) :
    ulong flags k conv v ≠ .character head arg := fun h => by cases h

theorem textOf_append (xs ys : List Piece) : textOf (xs ++ ys) = textOf xs ++ textOf ys := List.flatMap_append

theorem formatOf_append (xs ys : List Piece) : formatOf (xs ++ ys) = formatOf xs ++ formatOf ys :=
  List.flatMap_append

theorem argsOf_append (xs ys : List Piece) : argsOf (xs ++ ys) = argsOf xs ++ argsOf ys := List.flatMap_append

theorem hex_text {v : Nat} (hv : v < 2 ^ 64) : (ulong [.zero] 16 .x v).text = padded false 16 16 v :=
  (ulong_text (by decide) rfl hv).trans (if_pos (by decide))

theorem hex_valid {v : Nat} (hv : v < 2 ^ 64) : (ulong [.zero] 16 .x v).Valid :=
  ulong_valid (by decide) (by decide) rfl (by decide) hv

/-- The formats with one number. -/
theorem print_number {format before spec after : String} {x : Piece} {v : Nat} {text : List Byte}
    (hformat : cstr format = bytesOf before ++ (bytesOf spec ++ (bytesOf after ++ [0]))) (hspec : x.format = bytesOf spec)
    (hargs : x.args = [vaLong v]) (hx : x.Valid) (hchar : ∀ head arg, x ≠ .character head arg) (htext : x.text = text)
    (hbefore : isLiteral before = true) (hafter : isLiteral after = true) :
    print putchar format [vaLong v] s = some (putText putchar (bytesOf before ++ (text ++ bytesOf after)) s) := by
  have hpieces : textOf (literal before ++ (x :: literal after)) = bytesOf before ++ (text ++ bytesOf after) := by
    rw [textOf_append, literal_text, ← htext, ← literal_text after]
    rfl
  have hva : argsOf (literal before ++ (x :: literal after)) = [vaLong v] := by
    have hcons : argsOf (x :: literal after) = x.args ++ argsOf (literal after) := rfl
    rw [argsOf_append, literal_args, hcons, literal_args, hargs]
    rfl
  have hwritten : cstr format = formatOf (literal before ++ (x :: literal after)) ++ [0] := by
    have hcons : formatOf (x :: literal after) = x.format ++ formatOf (literal after) := rfl
    rw [hformat, formatOf_append, hcons, literal_format, literal_format, hspec, List.append_assoc, List.append_assoc]
  rw [← hva, ← hpieces]
  refine print_pieces hwritten ?_ ?_ s
  · intro y hy
    rcases List.mem_append.mp hy with hy | hy
    · exact literal_valid hbefore y hy
    rcases List.mem_cons.mp hy with rfl | hy
    · exact hx
    · exact literal_valid hafter y hy
  · intro y hy
    rcases List.mem_append.mp hy with hy | hy
    · exact literal_not_char before y hy
    rcases List.mem_cons.mp hy with rfl | hy
    · exact hchar
    · exact literal_not_char after y hy

theorem print_literal {format text : String} (hformat : cstr format = formatOf (literal text) ++ [0])
    (htext : isLiteral text = true) :
    print putchar format [] s = some (putText putchar (bytesOf text) s) := by
  have h : print putchar format (argsOf (literal text)) s = some (putText putchar (textOf (literal text)) s) :=
    print_pieces hformat (literal_valid htext) (literal_not_char text) s
  rwa [literal_args, literal_text] at h

theorem putText_line (line : List Byte) (lines : List (List Byte)) (s : σ) :
    putText putchar (unlines (line :: lines)) s =
      putText putchar (unlines lines) (putText putchar (line ++ [chr '\n']) s) := by
  rw [← putText_append]
  rfl

theorem putText_none : putText putchar (unlines []) s = s := rfl

/-! ## The header -/

theorem hex_format (v : Nat) : (ulong [.zero] 16 .x v).format = bytesOf "%016lx" := by
  have h : (ulong [.zero] 16 .x 0).format = bytesOf "%016lx" := by decide
  exact h

theorem print_address {format : String} (name : String) {v : Nat} (hv : v < 2 ^ 64)
    (hformat : cstr format = bytesOf name ++ (bytesOf "%016lx" ++ (bytesOf "\n" ++ [0])))
    (hname : isLiteral name = true) :
    print putchar format [vaLong v] s = some (putText putchar (addressLine name v ++ [chr '\n']) s) := by
  refine (print_number hformat (hex_format v) rfl (hex_valid hv) (ulong_not_char _ _ _ _) (hex_text hv) hname
    (by decide)).trans ?_
  rw [addressLine, List.append_assoc]
  rfl

theorem print_amount {format : String} (name spec : String) (flags : List FlagChar) (k : Nat) {v : Nat}
    (hv : v < 2 ^ 64) (hk : k ≤ 32) (hflags : .minus ∉ flags ∧ .zero ∉ flags) (hspec : (ulong flags k .u 0).format = bytesOf spec)
    (hformat : cstr format = bytesOf name ++ (bytesOf spec ++ (bytesOf " bytes\n" ++ [0])))
    (hname : isLiteral name = true) :
    print putchar format [vaLong v] s = some (putText putchar (amountLine name k v ++ [chr '\n']) s) := by
  have htext : (ulong flags k .u v).text = List.leftpad k (chr ' ') (padded false 10 1 v) :=
    (ulong_text hflags.1 rfl hv).trans (if_neg hflags.2)
  have hargs : (ulong flags k .u v).args = [vaLong v] := by
    show (widthOf k).args ++ ([] ++ [vaLong v]) = [vaLong v]
    unfold widthOf
    split_ifs
    · rfl
    · rfl
  have hend : bytesOf " bytes\n" = bytesOf " bytes" ++ [chr '\n'] := by decide
  have hwritten : (ulong flags k .u v).format = bytesOf spec := hspec
  refine (print_number hformat hwritten hargs (ulong_valid hflags.1 hk rfl (by decide) hv) (ulong_not_char _ _ _ _) htext
    hname (by decide)).trans ?_
  rw [hend, amountLine, List.append_assoc, List.append_assoc]

theorem wrap64_lt (x : Nat) : wrap64 x < 2 ^ 64 := Nat.mod_lt _ (by decide)

/-! ## The pages -/

theorem mmIsInUse_eq (b : MmBitmap) {pg : Nat} (hpg : pg < 2 ^ 52) :
    mmIsInUse b (wrap64 (pg <<< pgShift)) = bitAt b.bits pg := by
  have haddr : wrap64 (pg <<< pgShift) = pg * 4096 := by
    rw [Nat.shiftLeft_eq, wrap64_of_lt (by show pg * 2 ^ 12 < 2 ^ 64; omega)]
    rfl
  have hpage : (pg * 4096) >>> pgShift = pg := by
    rw [Nat.shiftRight_eq_div_pow]
    exact Nat.mul_div_cancel pg (by decide)
  have hidx : pg >>> 6 = pg / 64 := Nat.shiftRight_eq_div_pow _ 6
  have hbit : pg &&& 63 = pg % 64 := Nat.and_two_pow_sub_one_eq_mod pg 6
  have hlt : pg % 64 < 64 := Nat.mod_lt _ (by decide)
  unfold mmIsInUse
  dsimp only
  rw [haddr, hpage, hidx, hbit]
  have hmask := and_one_shiftLeft_eq_zero (b.bits (pg / 64)) hlt
  by_cases h : bitAt b.bits pg = false
  · rw [h]
    exact decide_eq_false (not_not.mpr (hmask.mpr h))
  · rw [Bool.not_eq_false] at h
    rw [h]
    refine decide_eq_true fun hzero => ?_
    exact Bool.noConfusion (h.symm.trans (hmask.mp hzero))

theorem printPages_eq {start stop : Nat} (hstart : start < 2 ^ 52) (hpos : 0 < stop) (hstop : stop ≤ 2 ^ 52)
    (inUse : Bool) : printPages putchar start stop inUse s =
      some (putText putchar (pagesLine ⟨start, stop, inUse⟩ ++ [chr '\n']) s) := by
  have hfirst : wrap64 (start <<< pgShift) = start * 4096 := by
    rw [Nat.shiftLeft_eq, wrap64_of_lt (by show start * 2 ^ 12 < 2 ^ 64; omega)]
    rfl
  have hlast : sub64 (wrap64 (stop <<< pgShift)) 1 = stop * 4096 - 1 := by
    rw [Nat.shiftLeft_eq]
    unfold sub64 wrap64
    show (stop * 2 ^ 12 % 2 ^ 64 + (2 ^ 64 - 1)) % 2 ^ 64 = stop * 4096 - 1
    omega
  have hx : start * 4096 < 2 ^ 64 := by omega
  have hy : stop * 4096 - 1 < 2 ^ 64 := by omega
  let pieces : List Piece := literal "  [0x" ++ (ulong [.zero] 16 .x (start * 4096) :: (literal " - 0x" ++
    (ulong [.zero] 16 .x (stop * 4096 - 1) :: (literal "]: " ++
      (stringPiece (if inUse then "In Use" else "Free") :: literal "\n")))))
  have hargs : argsOf pieces = [vaLong (start * 4096), vaLong (stop * 4096 - 1),
      vaString (if inUse then "In Use" else "Free")] := rfl
  have htext : textOf pieces = pagesLine ⟨start, stop, inUse⟩ ++ [chr '\n'] := by
    have hstring : (stringPiece (if inUse then "In Use" else "Free")).text =
        bytesOf (if inUse then "In Use" else "Free") := by
      cases inUse <;> decide
    have hcons : ∀ (x : Piece) (xs : List Piece), textOf (x :: xs) = x.text ++ textOf xs := fun _ _ => rfl
    show textOf (literal _ ++ (_ :: (literal _ ++ (_ :: (literal _ ++ (_ :: literal _)))))) = _
    rw [textOf_append, hcons, textOf_append, hcons, textOf_append, hcons, literal_text, literal_text, literal_text,
      literal_text, hex_text hx, hex_text hy, hstring, pagesLine]
    simp only [List.append_assoc]
    rfl
  have hformat : cstr "  [0x%016lx - 0x%016lx]: %s\n" = formatOf pieces ++ [0] := by
    show _ = formatOf (literal _ ++ (_ :: (literal _ ++ (_ :: (literal _ ++ (_ :: literal _)))))) ++ [0]
    have hstring : ∀ text, (stringPiece text).format = bytesOf "%s" := fun _ => rfl
    have hcons : ∀ (x : Piece) (xs : List Piece), formatOf (x :: xs) = x.format ++ formatOf xs := fun _ _ => rfl
    rw [formatOf_append, hcons, formatOf_append, hcons, formatOf_append, hcons, literal_format, literal_format,
      literal_format, literal_format, hex_format, hex_format, hstring]
    decide
  have hstring : (stringPiece (if inUse then "In Use" else "Free")).Valid := by
    refine ⟨⟨trivial, fun h => FieldNumber.noConfusion h, fun f hf => Option.noConfusion rfl (heq_of_eq hf)⟩, ?_⟩
    cases inUse <;> decide
  have hprint : (∀ x ∈ pieces, x.Valid) → (∀ x ∈ pieces, ∀ head arg, x ≠ .character head arg) →
      printPages putchar start stop inUse s =
        some (putText putchar (pagesLine ⟨start, stop, inUse⟩ ++ [chr '\n']) s) := by
    intro hvalid hchar
    rw [printPages, hfirst, hlast, ← hargs, print_pieces hformat hvalid hchar s, htext]
  refine hprint ?_ ?_
  · intro x hx'
    rcases List.mem_append.mp hx' with h | h
    · exact literal_valid (by decide) x h
    rcases List.mem_cons.mp h with rfl | h
    · exact hex_valid hx
    rcases List.mem_append.mp h with h | h
    · exact literal_valid (by decide) x h
    rcases List.mem_cons.mp h with rfl | h
    · exact hex_valid hy
    rcases List.mem_append.mp h with h | h
    · exact literal_valid (by decide) x h
    rcases List.mem_cons.mp h with rfl | h
    · exact hstring
    · exact literal_valid (by decide) x h
  · intro x hx'
    rcases List.mem_append.mp hx' with h | h
    · exact literal_not_char _ x h
    rcases List.mem_cons.mp h with rfl | h
    · exact ulong_not_char _ _ _ _
    rcases List.mem_append.mp h with h | h
    · exact literal_not_char _ x h
    rcases List.mem_cons.mp h with rfl | h
    · exact ulong_not_char _ _ _ _
    rcases List.mem_append.mp h with h | h
    · exact literal_not_char _ x h
    rcases List.mem_cons.mp h with rfl | h
    · exact fun head arg h => by cases h
    · exact literal_not_char _ x h

/-- The loop prints one line for each stretch. -/
theorem mmPrintFrom_eq {b : MmBitmap} (hbound : b.size ≤ 2 ^ 52) {n pg start : Nat} {startInUse : Bool}
    (hsize : pg + n = b.size) (hle : start ≤ pg) (hopen : start < pg ∨ 0 < n ∧ bitAt b.bits pg = startInUse) :
    mmPrintFrom putchar b n pg start startInUse s = some (putText putchar
      (unlines ((stretchesFrom (bitAt b.bits) n pg start startInUse).map pagesLine)) s) := by
  induction n generalizing pg start startInUse s with
  | zero =>
    have hlt : start < pg := hopen.resolve_right (fun h => Nat.lt_irrefl 0 h.1)
    have hstop : pg = b.size := hsize
    rw [mmPrintFrom, stretchesFrom, printPages_eq (by omega) (by omega) hbound, hstop, List.map_cons, putText_line]
    rfl
  | succ n ih =>
    have hbit : mmIsInUse b (wrap64 (pg <<< pgShift)) = bitAt b.bits pg := mmIsInUse_eq b (by omega)
    by_cases hchange : bitAt b.bits pg = startInUse
    · rw [mmPrintFrom, stretchesFrom, hbit, if_neg (not_not.mpr hchange), if_neg (not_not.mpr hchange)]
      exact ih (by omega) (by omega) (Or.inl (by omega))
    · have hlt : start < pg := hopen.resolve_right (fun h => hchange h.2)
      rw [mmPrintFrom, stretchesFrom, hbit, if_pos hchange, if_pos hchange,
        printPages_eq (by omega) (by omega) (by omega), Option.bind_some,
        ih (by omega) (by omega) (Or.inl (by omega)), List.map_cons, putText_line]

/-- The listing of an allocator. -/
def listing (mm : Mm) : List (Stretch Bool) :=
  stretchesFrom (bitAt mm.mmbm.bits) mm.mmbm.size 0 0 (bitAt mm.mmbm.bits 0)

theorem listing_stretches {b : MmBitmap} (hpos : 0 < b.size) :
    Stretches (bitAt b.bits) b.size 0 (stretchesFrom (bitAt b.bits) b.size 0 0 (bitAt b.bits 0)) := by
  have h := stretchesFrom_stretches (bitAt b.bits) b.size 0 0 (bitAt b.bits 0) (le_refl 0) (Or.inr ⟨hpos, rfl⟩)
    fun j _ hj => absurd hj (Nat.not_lt_zero j)
  rwa [Nat.zero_add] at h

/-- What is printed, line by line. -/
theorem mmPrint_eq {mm : Mm} (h : mm.mmbm.Counted) (hat : mm.mmbmAt < 2 ^ 64) (hsnap : mm.mmbmSnapshotAt < 2 ^ 64) :
    mmPrint putchar mm s = some (putText putchar (unlines (headerLines mm ++ (listing mm).map pagesLine)) s) := by
  have hbound := h.bound
  have hpos : 0 < mm.mmbm.size := by
    have hnext := h.next_lt
    omega
  have hused : mm.mmbm.used ≤ mm.mmbm.size := h.used_eq ▸ Nat.count_le _
  have hbit : mmIsInUse mm.mmbm (wrap64 (0 <<< pgShift)) = bitAt mm.mmbm.bits 0 := mmIsInUse_eq mm.mmbm (by decide)
  have hzero : wrap64 (0 <<< pgShift) = 0 := by decide
  rw [hzero] at hbit
  have htitle : print putchar "Memory Status:\n" [] s =
      some (putText putchar (bytesOf "Memory Status:" ++ [chr '\n']) s) := by
    have hline : bytesOf "Memory Status:\n" = bytesOf "Memory Status:" ++ [chr '\n'] := by decide
    rw [← hline]
    exact print_literal (by decide) (by decide)
  have hshift : ∀ n, n <<< pgShift = n * 4096 := fun n => Nat.shiftLeft_eq n 12
  have hfree : sub64 mm.mmbm.size mm.mmbm.used = mm.mmbm.size - mm.mmbm.used := sub64_of_le (by omega) hused
  have hmeta : mmbmSize mm < 2 ^ 64 := by
    rw [mmbmSize, bitmapBytes]
    exact wrap64_lt _
  have hbind : ∀ {x : Option σ} {t : σ} (f : σ → Option σ), x = some t → x >>= f = f t := by
    rintro x t f rfl
    rfl
  have hlines : putText putchar (unlines (headerLines mm ++ (listing mm).map pagesLine)) s =
      putText putchar (unlines ((listing mm).map pagesLine)) (putText putchar (unlines (headerLines mm)) s) := by
    rw [← putText_append, unlines, unlines, unlines, List.flatMap_append]
  rw [hlines]
  unfold mmPrint
  rw [hbind _ htitle, hbind _ (print_address "  Metadata is at 0x" hat (by decide) (by decide)),
    hbind _ (print_address "  Metadata snapshot is at 0x" hsnap (by decide) (by decide))]
  rw [hbind _ (print_amount "  Metadata: " "%lu" [] 0 hmeta (by decide) (by decide) (by decide) (by decide)
    (by decide)), hshift, hshift, hfree, hshift]
  rw [hbind _ (print_amount "  Total Memory: " "% 12lu" [.space] 12 (wrap64_lt _) (by decide) (by decide) (by decide)
      (by decide) (by decide)),
    hbind _ (print_amount "  Used  Memory: " "% 12lu" [.space] 12 (wrap64_lt _) (by decide) (by decide) (by decide)
      (by decide) (by decide)),
    hbind _ (print_amount "  Free  Memory: " "% 12lu" [.space] 12 (wrap64_lt _) (by decide) (by decide) (by decide)
      (by decide) (by decide)),
    hbit]
  refine (mmPrintFrom_eq hbound (Nat.zero_add _) (le_refl 0) (Or.inr ⟨hpos, rfl⟩)).trans ?_
  rw [headerLines, putText_line, putText_line, putText_line, putText_line, putText_line, putText_line, putText_line,
    putText_none, listing]

end Lines

/-! ## The status of a reachable allocator -/

theorem Mm.Reachable.metadata {mm : Mm} {bssEnd : Nat} (h : mm.Reachable bssEnd) :
    mm.mmbmAt < 2 ^ 64 ∧ mm.mmbmSnapshotAt < 2 ^ 64 := by
  have hinv := h.inv
  have hbound := hinv.counted.bound
  have hbitmap := hinv.placed.bitmap
  have hsnapshot := hinv.placed.snapshot
  have hwithin := hinv.placed.within
  have hbytes : 24 ≤ mmbmSize mm := by
    rw [mmbmSize, bitmapBytes_eq _ hinv.counted.block hbound]
    omega
  constructor
  · omega
  · omega

theorem Mm.Reachable.listing {mm : Mm} {bssEnd : Nat} (h : mm.Reachable bssEnd) :
    Stretches (bitAt mm.mmbm.bits) mm.mmbm.size 0 (VijosOS.listing mm) := by
  have hnext := h.inv.counted.next_lt
  exact listing_stretches (by omega)

/-- The status of the memory lists the maximal stretches of pages in use and of free pages from the
first page to the last, and the stretches in use add up to the amount in its header. -/
theorem mmPrint_lists {mm : Mm} {bssEnd : Nat} (h : mm.Reachable bssEnd) :
    Stretches (bitAt mm.mmbm.bits) mm.mmbm.size 0 (listing mm) ∧
      (((listing mm).filter (·.value = true)).map fun s => s.stop - s.first).sum = mm.mmbm.used ∧
      ∀ (σ : Type) (putchar : Byte → σ → σ) (s : σ), mmPrint putchar mm s =
        some (putText putchar (unlines (headerLines mm ++ (listing mm).map pagesLine)) s) := by
  obtain ⟨hat, hsnap⟩ := h.metadata
  refine ⟨h.listing, ?_, fun σ putchar s => mmPrint_eq h.inv.counted hat hsnap⟩
  have hcount := h.listing.count true
  rw [Nat.count_zero, Nat.zero_add] at hcount
  rw [hcount, h.inv.counted.used_eq]
  rfl

/-- A console that appends. -/
theorem putText_console (text s : List Byte) : putText (fun c s => s ++ [c]) text s = s ++ text := by
  induction text generalizing s with
  | nil => exact (List.append_nil s).symm
  | cons c text ih =>
    show putText (fun c s => s ++ [c]) text (s ++ [c]) = s ++ c :: text
    rw [ih, List.append_assoc]
    rfl

/-- The status after a boot with 128 pages. -/
def smallStatus : List (List Byte) := [
  bytesOf "Memory Status:",
  bytesOf "  Metadata is at 0x0000000000040800",
  bytesOf "  Metadata snapshot is at 0x0000000000040828",
  bytesOf "  Metadata: 40 bytes",
  bytesOf "  Total Memory:       524288 bytes",
  bytesOf "  Used  Memory:       266240 bytes",
  bytesOf "  Free  Memory:       258048 bytes",
  bytesOf "  [0x0000000000000000 - 0x0000000000040fff]: In Use",
  bytesOf "  [0x0000000000041000 - 0x000000000007ffff]: Free"]

theorem mmPrint_lists_small : ∃ mm : Mm,
    bootMm 0x40800 0x40000 64 ⟨0, ⟨0, 0, 0, fun _ => 0⟩, 0, ⟨0, 0, 0, fun _ => 0⟩⟩ = some mm ∧
    (((listing mm).filter (·.value = true)).map fun s => s.stop - s.first).sum = 65 ∧
    mmPrint (fun c s => s ++ [c]) mm [] = some (unlines smallStatus) := by
  obtain ⟨mm, hboot, _⟩ := bootMm_inv smallLayout ⟨0, ⟨0, 0, 0, fun _ => 0⟩, 0, ⟨0, 0, 0, fun _ => 0⟩⟩
  have h : mm.Reachable 0x40800 := ⟨0x40000, 64, _, mm, smallLayout, hboot, [], ⟨mm, [], none⟩, rfl, rfl⟩
  obtain ⟨-, hused, htext⟩ := mmPrint_lists h
  have hevaluated : (bootMm 0x40800 0x40000 64 ⟨0, ⟨0, 0, 0, fun _ => 0⟩, 0, ⟨0, 0, 0, fun _ => 0⟩⟩).map
      (fun mm => (mm.mmbm.used, unlines (headerLines mm ++ (listing mm).map pagesLine))) =
        some (65, unlines smallStatus) := by
    decide +kernel
  rw [hboot, Option.map_some, Option.some.injEq, Prod.mk.injEq] at hevaluated
  refine ⟨mm, hboot, hused.trans hevaluated.1, ?_⟩
  rw [htext, putText_console, hevaluated.2, List.nil_append]

/-! ## Reading the status -/

/-- Texts that end their lines with a newline are equal only line by line. -/
theorem line_inj {c : Byte} {a b x y : List Byte} (ha : c ∉ a) (hb : c ∉ b) (h : a ++ c :: x = b ++ c :: y) :
    a = b ∧ x = y := by
  induction a generalizing b with
  | nil =>
    cases b with
    | nil => exact ⟨rfl, (List.cons.inj h).2⟩
    | cons d b =>
      obtain ⟨rfl, _⟩ := List.cons.inj h
      exact absurd List.mem_cons_self hb
  | cons d a ih =>
    cases b with
    | nil =>
      obtain ⟨rfl, _⟩ := List.cons.inj h
      exact absurd List.mem_cons_self ha
    | cons e b =>
      obtain ⟨rfl, hrest⟩ := List.cons.inj h
      obtain ⟨rfl, hxy⟩ := ih (fun hc => ha (List.mem_cons_of_mem _ hc)) (fun hc => hb (List.mem_cons_of_mem _ hc)) hrest
      exact ⟨rfl, hxy⟩

theorem unlines_inj {ls ls' : List (List Byte)} (h : ∀ l ∈ ls, chr '\n' ∉ l) (h' : ∀ l ∈ ls', chr '\n' ∉ l)
    (heq : unlines ls = unlines ls') : ls = ls' := by
  induction ls generalizing ls' with
  | nil =>
    cases ls' with
    | nil => rfl
    | cons l' ls' => simp [unlines] at heq
  | cons l ls ih =>
    cases ls' with
    | nil => simp [unlines] at heq
    | cons l' ls' =>
      obtain ⟨hl, hls⟩ := List.forall_mem_cons.mp h
      obtain ⟨hl', hls'⟩ := List.forall_mem_cons.mp h'
      have hlines : l ++ chr '\n' :: unlines ls = l' ++ chr '\n' :: unlines ls' := by
        simpa [unlines] using heq
      obtain ⟨rfl, hrest⟩ := line_inj hl hl' hlines
      rw [ih hls hls' hrest]

theorem digitByte_ne_newline (upper : Bool) {d : Nat} (hd : d < 36) : digitByte upper d ≠ chr '\n' := by
  have h : ∀ d : Fin 36, digitByte upper d ≠ chr '\n' := by cases upper <;> decide
  exact h ⟨d, hd⟩

theorem padded_newline (upper : Bool) {base : Nat} (hlow : 1 < base) (hbase : base ≤ 36) (k n : Nat) :
    chr '\n' ∉ padded upper base k n := by
  intro hc
  rcases mem_leftpad hc with h | h
  · exact digitByte_ne_newline upper (by decide) h.symm
  · obtain ⟨d, hd, heq⟩ := List.mem_map.mp (List.mem_reverse.mp h)
    exact digitByte_ne_newline upper (lt_of_lt_of_le (Nat.digits_lt_base hlow hd) hbase) heq

theorem notMem_append {c : Byte} {a b : List Byte} (ha : c ∉ a) (hb : c ∉ b) : c ∉ a ++ b :=
  fun h => (List.mem_append.mp h).elim ha hb

theorem addressLine_newline {name : String} (hname : chr '\n' ∉ bytesOf name) (v : Nat) :
    chr '\n' ∉ addressLine name v :=
  notMem_append hname (padded_newline false (by decide) (by decide) 16 v)

theorem amountLine_newline {name : String} (hname : chr '\n' ∉ bytesOf name) (k v : Nat) :
    chr '\n' ∉ amountLine name k v := by
  refine notMem_append hname (notMem_append (fun h => ?_) (by decide))
  rcases mem_leftpad h with h | h
  · exact absurd h (by decide)
  · exact padded_newline false (by decide) (by decide) 1 v h

theorem headerLines_newline (mm : Mm) : ∀ l ∈ headerLines mm, chr '\n' ∉ l := by
  simp only [headerLines, List.forall_mem_cons]
  refine ⟨by decide, addressLine_newline (by decide) _, addressLine_newline (by decide) _,
    amountLine_newline (by decide) _ _, amountLine_newline (by decide) _ _, amountLine_newline (by decide) _ _,
    amountLine_newline (by decide) _ _, fun l hl => ?_⟩
  cases hl

theorem pagesLine_newline (s : Stretch Bool) : chr '\n' ∉ pagesLine s := by
  have hstate : chr '\n' ∉ bytesOf (if s.value then "In Use" else "Free") := by
    cases s.value <;> decide
  exact notMem_append (by decide) (notMem_append (padded_newline false (by decide) (by decide) _ _)
    (notMem_append (by decide) (notMem_append (padded_newline false (by decide) (by decide) _ _)
      (notMem_append (by decide) hstate))))

/-- A line tells the stretch. -/
theorem pagesLine_inj {s t : Stretch Bool} (hs : s.first < s.stop ∧ s.stop ≤ 2 ^ 52)
    (ht : t.first < t.stop ∧ t.stop ≤ 2 ^ 52) (h : pagesLine s = pagesLine t) : s = t := by
  have hread : ∀ n, (readDigits 16 0 (padded false 16 16 n ++ [])).1 = n := fun n =>
    congrArg Prod.fst (readDigits_padded false (by decide) (by decide) 16 n (by simp))
  have hlen : ∀ {n}, n < 2 ^ 64 → (padded false 16 16 n).length = 16 := fun hn =>
    padded_length false (by decide) hn
  unfold pagesLine at h
  have h₁ := List.append_cancel_left h
  obtain ⟨hfirst, h₂⟩ := List.append_inj h₁ ((hlen (by omega)).trans (hlen (by omega)).symm)
  obtain ⟨hstop, h₃⟩ := List.append_inj (List.append_cancel_left h₂) ((hlen (by omega)).trans (hlen (by omega)).symm)
  have hstate := List.append_cancel_left h₃
  have hf := (hread (s.first * 4096)).symm.trans ((congrArg (fun x => (readDigits 16 0 (x ++ [])).1) hfirst).trans
    (hread (t.first * 4096)))
  have hl := (hread (s.stop * 4096 - 1)).symm.trans ((congrArg (fun x => (readDigits 16 0 (x ++ [])).1) hstop).trans
    (hread (t.stop * 4096 - 1)))
  obtain ⟨first, stop, value⟩ := s
  obtain ⟨first', stop', value'⟩ := t
  dsimp only at *
  obtain rfl : first = first' := by omega
  obtain rfl : stop = stop' := by omega
  have hstates : ∀ v w : Bool, bytesOf (if v then "In Use" else "Free") = bytesOf (if w then "In Use" else "Free") →
      v = w := by decide
  rw [hstates value value' hstate]

theorem pagesLines_inj {ss ts : List (Stretch Bool)} (hs : ∀ s ∈ ss, s.first < s.stop ∧ s.stop ≤ 2 ^ 52)
    (ht : ∀ t ∈ ts, t.first < t.stop ∧ t.stop ≤ 2 ^ 52) (h : ss.map pagesLine = ts.map pagesLine) : ss = ts := by
  induction ss generalizing ts with
  | nil => exact (List.map_eq_nil_iff.mp h.symm).symm
  | cons s ss ih =>
    cases ts with
    | nil => cases h
    | cons t ts =>
      obtain ⟨hs₁, hs₂⟩ := List.forall_mem_cons.mp hs
      obtain ⟨ht₁, ht₂⟩ := List.forall_mem_cons.mp ht
      obtain ⟨hline, hlines⟩ := List.cons.inj h
      rw [pagesLine_inj hs₁ ht₁ hline, ih hs₂ ht₂ hlines]

/-- Two allocators with the same status have the same pages in use. -/
theorem mmPrint_determines {mm mm' : Mm} {bssEnd bssEnd' : Nat} (h : mm.Reachable bssEnd)
    (h' : mm'.Reachable bssEnd')
    (hsame : mmPrint (fun c s => s ++ [c]) mm [] = mmPrint (fun c s => s ++ [c]) mm' []) :
    mm'.mmbm.size = mm.mmbm.size ∧ mm'.mmbm.used = mm.mmbm.used ∧
      ∀ pg < mm.mmbm.size, bitAt mm'.mmbm.bits pg = bitAt mm.mmbm.bits pg := by
  obtain ⟨hat, hsnap⟩ := h.metadata
  obtain ⟨hat', hsnap'⟩ := h'.metadata
  rw [mmPrint_eq h.inv.counted hat hsnap, mmPrint_eq h'.inv.counted hat' hsnap', putText_console, putText_console,
    List.nil_append, List.nil_append] at hsame
  have hnewline : ∀ mm : Mm, ∀ l ∈ headerLines mm ++ (VijosOS.listing mm).map pagesLine, chr '\n' ∉ l := by
    intro mm l hl
    rcases List.mem_append.mp hl with hl | hl
    · exact headerLines_newline mm l hl
    · obtain ⟨s, _, rfl⟩ := List.mem_map.mp hl
      exact pagesLine_newline s
  have hlines := unlines_inj (hnewline mm) (hnewline mm') (Option.some.inj hsame)
  have hheader : ∀ mm : Mm, (headerLines mm).length = 7 := fun _ => rfl
  obtain ⟨_, hpages⟩ := List.append_inj hlines ((hheader mm).trans (hheader mm').symm)
  have hbound := h.inv.counted.bound
  have hbound' := h'.inv.counted.bound
  have hlisting : VijosOS.listing mm = VijosOS.listing mm' := by
    refine pagesLines_inj (fun s hs => ?_) (fun s hs => ?_) hpages
    · obtain ⟨hlt, hle⟩ := h.listing.bounded s hs
      exact ⟨hlt, hle.trans hbound⟩
    · obtain ⟨hlt, hle⟩ := h'.listing.bounded s hs
      exact ⟨hlt, hle.trans hbound'⟩
  obtain ⟨hsize, hbits⟩ := h.listing.agree (hlisting ▸ h'.listing)
  have hbits' : ∀ pg < mm.mmbm.size, bitAt mm'.mmbm.bits pg = bitAt mm.mmbm.bits pg := fun pg hpg =>
    (hbits pg (Nat.zero_le pg) hpg).symm
  refine ⟨hsize.symm, ?_, hbits'⟩
  rw [h'.inv.counted.used_eq, h.inv.counted.used_eq, ← hsize]
  exact countBits_congr hbits'

/-- Two boots, of different regions and over different old contents, have the same status. -/
theorem mmPrint_determines_boots : ∃ mm mm' : Mm,
    bootMm 0x40800 0x40000 64 ⟨0, ⟨0, 0, 0, fun _ => 0⟩, 0, ⟨0, 0, 0, fun _ => 0⟩⟩ = some mm ∧
    bootMm 0x407f8 0 128 ⟨7, ⟨3, 2, 1, fun _ => -1⟩, 9, ⟨0, 0, 0, fun _ => -1⟩⟩ = some mm' ∧
    mm'.mmbm.bits 2 ≠ mm.mmbm.bits 2 ∧ mm'.mmbm.size = mm.mmbm.size ∧ mm'.mmbm.used = mm.mmbm.used ∧
    ∀ pg < mm.mmbm.size, bitAt mm'.mmbm.bits pg = bitAt mm.mmbm.bits pg := by
  have hlayout : BootLayout 0x407f8 0 128 := ⟨by decide, by decide, by decide, by decide, by decide⟩
  obtain ⟨mm, hboot, _⟩ := bootMm_inv smallLayout ⟨0, ⟨0, 0, 0, fun _ => 0⟩, 0, ⟨0, 0, 0, fun _ => 0⟩⟩
  obtain ⟨mm', hboot', _⟩ := bootMm_inv hlayout ⟨7, ⟨3, 2, 1, fun _ => -1⟩, 9, ⟨0, 0, 0, fun _ => -1⟩⟩
  have h : mm.Reachable 0x40800 := ⟨0x40000, 64, _, mm, smallLayout, hboot, [], ⟨mm, [], none⟩, rfl, rfl⟩
  have h' : mm'.Reachable 0x407f8 := ⟨0, 128, _, mm', hlayout, hboot', [], ⟨mm', [], none⟩, rfl, rfl⟩
  have hsame : (bootMm 0x40800 0x40000 64 ⟨0, ⟨0, 0, 0, fun _ => 0⟩, 0, ⟨0, 0, 0, fun _ => 0⟩⟩).map
        (fun mm => unlines (headerLines mm ++ (listing mm).map pagesLine)) =
      (bootMm 0x407f8 0 128 ⟨7, ⟨3, 2, 1, fun _ => -1⟩, 9, ⟨0, 0, 0, fun _ => -1⟩⟩).map
        (fun mm => unlines (headerLines mm ++ (listing mm).map pagesLine)) := by
    decide +kernel
  have hother : (bootMm 0x40800 0x40000 64 ⟨0, ⟨0, 0, 0, fun _ => 0⟩, 0, ⟨0, 0, 0, fun _ => 0⟩⟩).map
        (fun mm => mm.mmbm.bits 2) ≠
      (bootMm 0x407f8 0 128 ⟨7, ⟨3, 2, 1, fun _ => -1⟩, 9, ⟨0, 0, 0, fun _ => -1⟩⟩).map
        (fun mm => mm.mmbm.bits 2) := by
    decide +kernel
  rw [hboot, hboot', Option.map_some, Option.map_some, Option.some.injEq] at hsame
  rw [hboot, hboot', Option.map_some, Option.map_some] at hother
  refine ⟨mm, mm', hboot, hboot', fun hbits => hother (congrArg some hbits.symm), mmPrint_determines h h' ?_⟩
  obtain ⟨hat, hsnap⟩ := h.metadata
  obtain ⟨hat', hsnap'⟩ := h'.metadata
  rw [mmPrint_eq h.inv.counted hat hsnap, mmPrint_eq h'.inv.counted hat' hsnap', hsame]

end VijosOS
