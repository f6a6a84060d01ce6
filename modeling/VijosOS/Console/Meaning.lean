import VijosOS.Console.Directive

/-!
# What `printf` prints

Each piece of a format is read back and its text is produced, so that the whole output is the text of
the pieces.
-/

namespace VijosOS

open Library

/-! ## Lengths and specifiers -/

def Length.set (length : Length) (flags : Flags) : Flags :=
  match length with
  | .int => flags
  | .hh => { flags with short := true, char := true }
  | .h => { flags with short := true }
  | _ => { flags with long := true }

theorem evalLength_eq (flags : Flags) (length : Length) {c : Byte}
    (hc : ∀ d ∈ [chr 'l', chr 'h', chr 't', chr 'j', chr 'z'], c ≠ d) (rest : List Byte) :
    evalLength flags (length.text ++ c :: rest) = some (length.set flags, c :: rest) := by
  cases length with
  | int =>
    show evalLength flags (c :: rest) = _
    unfold evalLength
    dsimp only
    rw [if_neg (hc _ (by simp)), if_neg (hc _ (by simp)), if_neg]
    · rfl
    · rintro (h | h | h)
      · exact hc _ (by simp) h
      · exact hc _ (by simp) h
      · exact hc _ (by simp) h
  | hh => rfl
  | h =>
    have hstep : evalLength flags (chr 'h' :: c :: rest) =
      if c = chr 'h' then some ({ flags with short := true, char := true }, rest)
      else some ({ flags with short := true }, c :: rest) := rfl
    exact hstep.trans (if_neg (hc _ (by simp)))
  | l =>
    have hstep : evalLength flags (chr 'l' :: c :: rest) =
      if c = chr 'l' then some ({ flags with long := true, longLong := true }, rest)
      else some ({ flags with long := true }, c :: rest) := rfl
    exact hstep.trans (if_neg (hc _ (by simp)))
  | t => rfl
  | j => rfl
  | z => rfl

section Specifier

variable {σ : Type} (out : OutFct σ) (maxlen : Nat)

/-- What follows the precision of a directive. -/
def evalRest (p : Nat × σ) (flags : Flags) (width precision : Nat) (format : List Byte) (va : List VaArg) :
    Option (List Byte × List VaArg × (Nat × σ)) :=
  (evalLength flags format).bind fun r =>
    match r.2 with
    | [] => none
    | c :: format => (evalSpecifier out maxlen c r.1 width precision va p).map fun s => (format, s.1, s.2)

/-- A directive is a head, a length and a specifier. -/
theorem evalDirective_eq {h : Head} (hvalid : h.Valid) (length : Length) {c : Byte} (hletter : IsLetter c)
    (hc : ∀ d ∈ [chr 'l', chr 'h', chr 't', chr 'j', chr 'z'], c ≠ d) (rest : List Byte) (va : List VaArg)
    (p : Nat × σ) :
    evalDirective out maxlen (h.flags.map FlagChar.char ++ (h.width.text ++ (h.precisionText ++
      (length.text ++ c :: rest)))) (h.width.args ++ (h.precisionArgs ++ va)) p =
      (evalSpecifier out maxlen c (length.set h.scan) h.layout.width (h.layout.precision.getD 0) va p).map
        fun r => (rest, r.1, r.2) := by
  -- the length starts with a letter, or the specifier is one
  obtain ⟨e, after, hafter, he⟩ : ∃ e after, length.text ++ c :: rest = e :: after ∧ IsLetter e := by
    cases length with
    | int => exact ⟨c, rest, rfl, hletter⟩
    | hh => exact ⟨chr 'h', chr 'h' :: c :: rest, rfl, by decide⟩
    | h => exact ⟨chr 'h', c :: rest, rfl, by decide⟩
    | l => exact ⟨chr 'l', c :: rest, rfl, by decide⟩
    | t => exact ⟨chr 't', c :: rest, rfl, by decide⟩
    | j => exact ⟨chr 'j', c :: rest, rfl, by decide⟩
    | z => exact ⟨chr 'z', c :: rest, rfl, by decide⟩
  have hhead := evalHead hvalid he after va (evalRest out maxlen p)
  rw [← hafter] at hhead
  refine Eq.trans ?_ (hhead.trans ?_)
  · rfl
  · rw [evalRest, evalLength_eq _ length hc rest, Option.bind_some]

theorem magnitude_eq {w : Nat} (v : BitVec w) : magnitude v = v.toInt.natAbs := by
  have hlt := v.isLt
  have hint := BitVec.toInt_eq_toNat_cond v
  have hneg : (0 - v).toNat = (2 ^ w - v.toNat) % 2 ^ w := by
    rw [BitVec.toNat_sub, show (0 : BitVec w).toNat = 0 from BitVec.toNat_zero, Nat.add_zero]
  unfold magnitude
  rcases Int.lt_or_le 0 v.toInt with hpos | hneg'
  · rw [if_pos hpos]
    split_ifs at hint <;> omega
  · rw [if_neg (Int.not_lt.mpr hneg'), hneg]
    split_ifs at hint with hsmall
    · have hzero : v.toNat = 0 := by omega
      rw [hzero, Nat.sub_zero, Nat.mod_self]
      omega
    · rw [Nat.mod_eq_of_lt (by omega)]
      omega

/-- The magnitude and the sign of an argument. -/
theorem integerValue_eq {flags : Flags} (hlong : flags.long = false) (hshort : flags.short = false)
    (hchar : flags.char = false) (length : Length) (conv : IntConv) (hhh : conv.signed = true → length ≠ .hh)
    (word : BitVec 64) :
    integerValue (length.set flags) conv.signed word =
      ((conv.value length word).natAbs, decide (conv.value length word < 0)) := by
  have hnat : ∀ n : Nat, ((n : Int).natAbs, decide ((n : Int) < 0)) = (n, false) := by
    intro n
    rw [Int.natAbs_natCast, decide_eq_false (Int.not_lt.mpr (Int.natCast_nonneg n))]
  have hextend : ((word.setWidth 16).signExtend 32).toInt = (word.setWidth 16).toInt :=
    BitVec.toInt_signExtend_of_le (by decide)
  cases hsigned : conv.signed with
  | true =>
    cases length with
    | hh => exact absurd rfl (hhh hsigned)
    | int => simp [integerValue, Length.set, IntConv.value, hsigned, hlong, hshort, hchar, magnitude_eq]
    | h =>
      simp only [integerValue, Length.set, IntConv.value, hsigned, hlong, hchar, magnitude_eq, hextend, if_true,
        Bool.false_eq_true, if_false]
    | l => simp [integerValue, Length.set, IntConv.value, hsigned, magnitude_eq]
    | t => simp [integerValue, Length.set, IntConv.value, hsigned, magnitude_eq]
    | j => simp [integerValue, Length.set, IntConv.value, hsigned, magnitude_eq]
    | z => simp [integerValue, Length.set, IntConv.value, hsigned, magnitude_eq]
  | false =>
    cases length with
    | int =>
      simp only [integerValue, Length.set, IntConv.value, hsigned, hlong, hshort, hchar, Bool.false_eq_true,
        if_false, hnat]
    | hh =>
      simp only [integerValue, Length.set, IntConv.value, hsigned, hlong, Bool.false_eq_true, if_false, if_true, hnat]
    | h =>
      simp only [integerValue, Length.set, IntConv.value, hsigned, hlong, hchar, Bool.false_eq_true, if_false,
        if_true, hnat]
    | l => simp only [integerValue, Length.set, IntConv.value, hsigned, Bool.false_eq_true, if_false, if_true, hnat]
    | t => simp only [integerValue, Length.set, IntConv.value, hsigned, Bool.false_eq_true, if_false, if_true, hnat]
    | j => simp only [integerValue, Length.set, IntConv.value, hsigned, Bool.false_eq_true, if_false, if_true, hnat]
    | z => simp only [integerValue, Length.set, IntConv.value, hsigned, Bool.false_eq_true, if_false, if_true, hnat]

/-! ## Pieces -/

/-- The flags of an integer conversion. -/
theorem integerFlags_eq (conv : IntConv) {flags : Flags} (hhash : flags.hash = false)
    (hupper : flags.uppercase = false) :
    integerFlags conv.char flags =
      { flags with
        uppercase := conv.upper
        plus := flags.plus && conv.signed
        space := flags.space && conv.signed
        zeropad := flags.zeropad && !flags.precision } := by
  obtain ⟨zeropad, left, plus, space, hash, uppercase, char, short, long, longLong, precision⟩ := flags
  obtain rfl : hash = false := hhash
  obtain rfl : uppercase = false := hupper
  have hcases : ∀ (conv : IntConv) (zeropad plus space precision : Bool),
      integerFlags conv.char ⟨zeropad, left, plus, space, false, false, char, short, long, longLong, precision⟩ =
        ⟨zeropad && !precision, left, plus && conv.signed, space && conv.signed, false, conv.upper, char, short,
          long, longLong, precision⟩ := by
    intro conv zeropad plus space precision
    cases conv <;> cases precision <;> cases zeropad <;> cases plus <;> cases space <;> rfl
  exact hcases conv zeropad plus space precision

theorem Length.set_hash (length : Length) (flags : Flags) : (length.set flags).hash = flags.hash := by
  cases length <;> rfl

theorem Length.set_uppercase (length : Length) (flags : Flags) :
    (length.set flags).uppercase = flags.uppercase := by
  cases length <;> rfl

theorem integerFlags_set (conv : IntConv) (length : Length) (h : Head) :
    integerFlags conv.char (length.set h.scan) = length.set (integerFlags conv.char h.scan) := by
  rw [integerFlags_eq conv (length.set_hash _) (length.set_uppercase _), integerFlags_eq conv rfl rfl]
  cases length <;> rfl

theorem integerFlags_scanned (conv : IntConv) (length : Length) (h : Head) :
    (Piece.integerLayout h conv).Scanned (integerFlags conv.char (length.set h.scan)) := by
  have hprec : h.layout.precision.isSome = h.precision.isSome := Option.isSome_map
  have hzero : (h.layout.zero && !h.precision.isSome) = (h.layout.zero && h.layout.precision.isNone) := by
    rw [← hprec, Option.not_isSome]
  rw [integerFlags_set, integerFlags_eq conv rfl rfl]
  cases length <;> exact ⟨rfl, rfl, rfl, hzero, rfl, hprec.symm⟩

theorem integerFlags_uppercase (conv : IntConv) (length : Length) (h : Head) :
    (integerFlags conv.char (length.set h.scan)).uppercase = conv.upper := by
  rw [integerFlags_set, Length.set_uppercase, integerFlags_eq conv rfl rfl]

theorem evalInteger_eq (h : Head) (length : Length) (conv : IntConv) (hhh : conv.signed = true → length ≠ .hh)
    (arg : VaArg) (hf : (Piece.integerLayout h conv).Fits conv.upper conv.base
      (conv.value length arg.word).natAbs (decide (conv.value length arg.word < 0)))
    (va : List VaArg) (p : Nat × σ) :
    evalInteger out maxlen conv.char (length.set h.scan) h.layout.width (h.layout.precision.getD 0) (arg :: va) p =
      some (va, emit out maxlen (Piece.integer h length conv arg).text p) := by
  have hbase : integerBase conv.char = conv.base := by cases conv <;> rfl
  have hsigned : isSigned conv.char = conv.signed := by cases conv <;> rfl
  have hlow : 1 < conv.base := by cases conv <;> decide
  have hlong : (integerFlags conv.char (length.set h.scan)).longLong = false := by
    rw [integerFlags_set, integerFlags_eq conv rfl rfl]
    cases length <;> rfl
  have hnumber : integerValue (integerFlags conv.char (length.set h.scan)) conv.signed arg.word =
      ((conv.value length arg.word).natAbs, decide (conv.value length arg.word < 0)) := by
    rw [integerFlags_set]
    have hplain := @integerFlags_eq conv h.scan rfl rfl
    exact integerValue_eq (by rw [hplain]; rfl) (by rw [hplain]; rfl) (by rw [hplain]; rfl) length conv hhh arg.word
  have hupper := integerFlags_uppercase conv length h
  have htext := Layout.ntoaText_eq hlow (integerFlags_scanned conv length h) (hupper ▸ hf)
  unfold evalInteger
  dsimp only
  rw [hlong, if_neg Bool.false_ne_true, hsigned, hnumber, hbase, ntoaLong_emit]
  rw [hupper] at htext
  have hsame : ntoaText (conv.value length arg.word).natAbs (decide (conv.value length arg.word < 0)) conv.base
      (h.layout.precision.getD 0) h.layout.width (integerFlags conv.char (length.set h.scan)) =
        some (Piece.integer h length conv arg).text := htext
  dsimp only
  rw [hsame]
  rfl

theorem evalChar_eq {l : Layout} {flags : Flags} (hleft : flags.left = l.minus) (arg : VaArg) (va : List VaArg)
    (p : Nat × σ) :
    evalChar out maxlen flags l.width (arg :: va) p =
      some (va, emit out maxlen (l.field [arg.word.setWidth 8]) p) := by
  unfold evalChar Layout.field
  rw [hleft]
  cases l.minus with
  | true =>
    simp only [if_true, putSpaces_emit, put_emit, ← emit_append]
    rfl
  | false =>
    simp only [Bool.false_eq_true, if_false, putSpaces_emit, put_emit, ← emit_append]
    rfl

theorem strnlenS_cString (maxsize : Nat) {chars : List Byte} (hend : 0 ∈ chars) :
    strnlenS maxsize chars = some (min (cString chars).length maxsize) := by
  induction chars generalizing maxsize with
  | nil => cases hend
  | cons c chars ih =>
    cases maxsize with
    | zero => simp [strnlenS]
    | succ n =>
      by_cases hc : c = 0
      · simp [strnlenS, hc, cString]
      · have hmem : 0 ∈ chars := (List.mem_cons.mp hend).resolve_left (Ne.symm hc)
        have hcons : cString (c :: chars) = c :: cString chars := List.takeWhile_cons_of_pos (by simpa using hc)
        rw [strnlenS, if_neg hc, ih n hmem, hcons, List.length_cons, Option.map_some, Nat.succ_min_succ]

theorem stringText_eq (precision : Option Nat) {chars : List Byte} (hend : 0 ∈ chars) :
    stringText precision.isSome (precision.getD 0) chars =
      some (match precision with
        | none => cString chars
        | some k => (cString chars).take k) := by
  induction chars generalizing precision with
  | nil => cases hend
  | cons c chars ih =>
    by_cases hc : c = 0
    · have hempty : cString (c :: chars) = [] := List.takeWhile_cons_of_neg (by simpa using hc)
      rw [hempty]
      cases precision with
      | none => exact if_pos (Or.inl hc)
      | some k =>
        cases k with
        | zero => exact if_pos (Or.inl hc)
        | succ k => exact if_pos hc
    · have hmem : 0 ∈ chars := (List.mem_cons.mp hend).resolve_left (Ne.symm hc)
      have hcons : cString (c :: chars) = c :: cString chars := List.takeWhile_cons_of_pos (by simpa using hc)
      rw [hcons]
      cases precision with
      | none =>
        have h := ih none hmem
        exact (if_neg (not_or.mpr ⟨hc, Bool.false_ne_true⟩)).trans (congrArg (Option.map (c :: ·)) h)
      | some k =>
        cases k with
        | zero => exact if_pos (Or.inr rfl)
        | succ k =>
          have h := ih (some k) hmem
          exact (if_neg hc).trans (congrArg (Option.map (c :: ·)) h)

theorem evalString_eq {l : Layout} {flags : Flags} (hleft : flags.left = l.minus)
    (hprec : flags.precision = l.precision.isSome) {arg : VaArg} (hend : 0 ∈ arg.chars)
    (hlen : (cString arg.chars).length < 2 ^ 32) (va : List VaArg) (p : Nat × σ) :
    evalString out maxlen flags l.width (l.precision.getD 0) (arg :: va) p =
      some (va, emit out maxlen (l.field (match l.precision with
        | none => cString arg.chars
        | some k => (cString arg.chars).take k)) p) := by
  have htext := stringText_eq l.precision hend
  generalize hshown : (match l.precision with
    | none => cString arg.chars
    | some k => (cString arg.chars).take k) = shown at htext
  have hcount : ∀ count, count = min (cString arg.chars).length
      (if l.precision.getD 0 ≠ 0 then l.precision.getD 0 else 2 ^ 64 - 1) % 2 ^ 32 →
      (if l.precision.isSome = true then (if count < l.precision.getD 0 then count else l.precision.getD 0)
        else count) = shown.length := by
    rintro _ rfl
    rw [← hshown]
    cases l.precision with
    | none =>
      have hmin : min (cString arg.chars).length (2 ^ 64 - 1) = (cString arg.chars).length := by omega
      simp only [Option.getD_none, ne_eq, not_true, if_false, Option.isSome_none, Bool.false_eq_true, hmin,
        Nat.mod_eq_of_lt hlen]
    | some k =>
      simp only [Option.getD_some, Option.isSome_some, if_true, List.length_take]
      rcases Nat.eq_zero_or_pos k with rfl | hk
      · simp
      · have hmod : min (cString arg.chars).length k % 2 ^ 32 = min (cString arg.chars).length k :=
          Nat.mod_eq_of_lt (lt_of_le_of_lt (min_le_left _ _) hlen)
        rw [if_pos hk.ne', hmod]
        split_ifs <;> omega
  unfold evalString Layout.field
  dsimp only
  simp only [Option.bind_eq_bind]
  rw [strnlenS_cString _ hend, Option.bind_some, hprec, hcount _ rfl, hleft]
  cases l.minus with
  | true =>
    simp only [if_true, putSpaces_emit, putString_emit, htext, Option.map_some, Option.bind_some, ← emit_append]
    rfl
  | false =>
    simp only [Bool.false_eq_true, if_false, putSpaces_emit, putString_emit, htext, Option.map_some,
      Option.bind_some, ← emit_append]
    rfl

/-- The layout of an address. -/
def pointerLayout : Layout := ⟨false, false, false, true, 16, none⟩

def pointerFlags : Flags := { Flags.none with zeropad := true, uppercase := true }

theorem pointerLayout_integer (n : Nat) : pointerLayout.integer true 16 n false = padded true 16 16 n := by
  have hfields : pointerLayout.zero = true ∧ pointerLayout.minus = false ∧ pointerLayout.precision = none :=
    ⟨rfl, rfl, rfl⟩
  rw [Layout.integer, if_pos hfields]
  exact leftpad_padded true 1 16 n

theorem pointerLayout_fits {n : Nat} (hn : n < 2 ^ 64) : pointerLayout.Fits pointerFlags.uppercase 16 n false := by
  have hlength : (numeral true 16 n).length ≤ 16 := (numeral_length_le true (by decide)).mpr hn
  refine ⟨?_, fun _ => by decide, fun h => Bool.noConfusion h, fun _ _ _ => by decide⟩
  exact le_trans hlength (by decide)

/-- A number in a field of sixteen digits. -/
theorem evalPointer_eq (arg : VaArg) (va : List VaArg) (p : Nat × σ) :
    evalPointer out maxlen Flags.none 0 (arg :: va) p =
      some (va, emit out maxlen (padded true 16 16 arg.word.toNat) p) := by
  have hs : pointerLayout.Scanned pointerFlags := ⟨rfl, rfl, rfl, rfl, rfl, rfl⟩
  have htext := Layout.ntoaText_eq (by decide) hs (pointerLayout_fits arg.word.isLt)
  have hupper : pointerFlags.uppercase = true := rfl
  rw [hupper, pointerLayout_integer] at htext
  have hlong : ntoaLong out maxlen arg.word.toNat false 16 0 16 pointerFlags p =
      some (emit out maxlen (padded true 16 16 arg.word.toNat) p) := by
    rw [ntoaLong_emit]
    exact congrArg (Option.map fun text => emit out maxlen text p) htext
  exact congrArg (Option.map fun p => (va, p)) hlong

/-- A specifier without anything before it. -/
theorem evalDirective_plain {c : Byte} (hflag : ∀ d ∈ [chr '0', chr '-', chr '+', chr ' ', chr '#'], c ≠ d)
    (hdigit : isDigit c = false) (hpoint : c ≠ chr '*' ∧ c ≠ chr '.')
    (hlength : ∀ d ∈ [chr 'l', chr 'h', chr 't', chr 'j', chr 'z'], c ≠ d) (rest : List Byte) (va : List VaArg)
    (p : Nat × σ) : evalDirective out maxlen (c :: rest) va p =
      (evalSpecifier out maxlen c Flags.none 0 0 va p).map fun r => (rest, r.1, r.2) := by
  have hflags : evalFlags Flags.none (c :: rest) = some (Flags.none, c :: rest) := evalFlags_chars Flags.none [] hflag
  have hwidth : evalWidth Flags.none va (c :: rest) = some ⟨Flags.none, 0, c :: rest, va⟩ :=
    evalWidth_eq Flags.none va .absent trivial (fun h => FieldNumber.noConfusion h) hdigit hpoint.1
  have hlen : evalLength Flags.none (c :: rest) = some (Flags.none, c :: rest) :=
    evalLength_eq Flags.none .int hlength rest
  unfold evalDirective
  simp only [Option.bind_eq_bind]
  rw [hflags, Option.bind_some]
  dsimp only
  rw [hwidth, Option.bind_some]
  dsimp only
  rw [evalPrecision_none _ _ hpoint.2, Option.bind_some]
  dsimp only
  rw [hlen, Option.bind_some]

/-- One round of the loop for each piece. -/
theorem vsnprintfLoop_piece {x : Piece} (hx : x.Valid) (n : Nat) (rest : List Byte) (va : List VaArg) (p : Nat × σ) :
    vsnprintfLoop out maxlen (n + 1) (x.format ++ rest) (x.args ++ va) p =
      vsnprintfLoop out maxlen n rest va (emit out maxlen x.text p) := by
  have hdirective : ∀ (format : List Byte) (va' : List VaArg) (text : List Byte),
      evalDirective out maxlen format va' p = some (rest, va, emit out maxlen text p) →
      vsnprintfLoop out maxlen (n + 1) (chr '%' :: format) va' p =
        vsnprintfLoop out maxlen n rest va (emit out maxlen text p) := by
    intro format va' text h
    rw [vsnprintfLoop, if_neg (by decide), if_neg (not_not.mpr rfl), h, Option.bind_some]
  cases x with
  | char c =>
    show vsnprintfLoop out maxlen (n + 1) (c :: rest) va p = _
    rw [vsnprintfLoop, if_neg hx.1, if_pos hx.2]
    rfl
  | percent =>
    refine hdirective _ _ [chr '%'] ?_
    have h := evalDirective_plain out maxlen (c := chr '%') (by decide) (by decide) (by decide) (by decide) rest va p
    rw [evalSpecifier, if_neg (by decide), if_neg (by decide), if_neg (by decide), if_neg (by decide),
      if_pos rfl] at h
    exact h
  | integer head length conv arg =>
    obtain ⟨hhead, hhh, hf⟩ := hx
    have hletter : IsLetter conv.char := by cases conv <;> decide
    have hother : ∀ d ∈ [chr 'l', chr 'h', chr 't', chr 'j', chr 'z'], conv.char ≠ d := by
      cases conv <;> decide
    have hint : isInteger conv.char = true := by cases conv <;> rfl
    have h := evalDirective_eq out maxlen hhead length hletter hother rest (arg :: va) p
    rw [evalSpecifier, hint, if_pos rfl, evalInteger_eq out maxlen head length conv hhh arg hf] at h
    have hargs : (Piece.integer head length conv arg).args ++ va =
        head.width.args ++ (head.precisionArgs ++ arg :: va) := by simp [Piece.args]
    have hformat : (Piece.integer head length conv arg).format ++ rest = chr '%' ::
        (head.flags.map FlagChar.char ++ (head.width.text ++ (head.precisionText ++
          (length.text ++ conv.char :: rest)))) := by simp [Piece.format]
    rw [hargs, hformat]
    exact hdirective _ _ _ h
  | character head arg =>
    have h := evalDirective_eq out maxlen hx .int (c := chr 'c') (by decide) (by decide) rest (arg :: va) p
    rw [evalSpecifier, if_neg (by decide), if_pos rfl,
      @evalChar_eq σ out maxlen head.layout (Length.set .int head.scan) rfl] at h
    have hargs : (Piece.character head arg).args ++ va =
        head.width.args ++ (head.precisionArgs ++ arg :: va) := by simp [Piece.args]
    have hformat : (Piece.character head arg).format ++ rest = chr '%' ::
        (head.flags.map FlagChar.char ++ (head.width.text ++ (head.precisionText ++ chr 'c' :: rest))) := by
      simp [Piece.format]
    rw [hargs, hformat]
    exact hdirective _ _ _ h
  | string head arg =>
    obtain ⟨hhead, hend, hlen⟩ := hx
    have hprec : (Length.set .int head.scan).precision = head.layout.precision.isSome := Option.isSome_map.symm
    have h := evalDirective_eq out maxlen hhead .int (c := chr 's') (by decide) (by decide) rest (arg :: va) p
    rw [evalSpecifier, if_neg (by decide), if_neg (by decide), if_pos rfl,
      @evalString_eq σ out maxlen head.layout (Length.set .int head.scan) rfl hprec arg hend hlen] at h
    have hargs : (Piece.string head arg).args ++ va =
        head.width.args ++ (head.precisionArgs ++ arg :: va) := by simp [Piece.args]
    have hformat : (Piece.string head arg).format ++ rest = chr '%' ::
        (head.flags.map FlagChar.char ++ (head.width.text ++ (head.precisionText ++ chr 's' :: rest))) := by
      simp [Piece.format]
    rw [hargs, hformat]
    exact hdirective _ _ _ h
  | pointer arg =>
    refine hdirective _ _ (padded true 16 16 arg.word.toNat) ?_
    have h := evalDirective_plain out maxlen (c := chr 'p') (by decide) (by decide) (by decide) (by decide) rest
      (arg :: va) p
    rw [evalSpecifier, if_neg (by decide), if_neg (by decide), if_neg (by decide), if_pos rfl,
      evalPointer_eq] at h
    exact h

/-- The pieces of a format one after the other. -/
theorem vsnprintfLoop_pieces {pieces : List Piece} (hvalid : ∀ x ∈ pieces, x.Valid) {n : Nat}
    (hn : pieces.length < n) (rest : List Byte) (va : List VaArg) (p : Nat × σ) :
    vsnprintfLoop out maxlen n (formatOf pieces ++ 0 :: rest) (argsOf pieces ++ va) p =
      some (emit out maxlen (textOf pieces) p) := by
  induction pieces generalizing n p with
  | nil =>
    obtain ⟨m, rfl⟩ := Nat.exists_eq_add_of_lt hn
    show vsnprintfLoop out maxlen (0 + m + 1) (0 :: rest) va p = _
    rw [vsnprintfLoop, if_pos rfl]
    rfl
  | cons x pieces ih =>
    obtain ⟨hx, hrest⟩ := List.forall_mem_cons.mp hvalid
    obtain ⟨m, rfl⟩ : ∃ m, n = m + 1 := ⟨n - 1, by omega⟩
    have hm : pieces.length < m := by
      rw [List.length_cons] at hn
      omega
    have hformat : formatOf (x :: pieces) ++ 0 :: rest = x.format ++ (formatOf pieces ++ 0 :: rest) := by
      simp [formatOf]
    have hargs : argsOf (x :: pieces) ++ va = x.args ++ (argsOf pieces ++ va) := by simp [argsOf]
    have htext : textOf (x :: pieces) = x.text ++ textOf pieces := by simp [textOf]
    rw [hformat, hargs, vsnprintfLoop_piece out maxlen hx, ih hrest hm, htext, emit_append]

end Specifier

theorem format_length (pieces : List Piece) : pieces.length ≤ (formatOf pieces).length := by
  induction pieces with
  | nil => exact le_refl 0
  | cons x pieces ih =>
    have hx : 1 ≤ x.format.length := by cases x <;> simp [Piece.format]
    simp only [formatOf, List.flatMap_cons, List.length_append, List.length_cons] at ih ⊢
    omega

/-- The text of a written format is the text of its pieces. -/
theorem formatted_pieces {pieces : List Piece} (hvalid : ∀ x ∈ pieces, x.Valid) (rest : List Byte)
    (va : List VaArg) : formatted (formatOf pieces ++ 0 :: rest) (argsOf pieces ++ va) = some (textOf pieces) := by
  have hlen : pieces.length < (formatOf pieces ++ 0 :: rest).length := by
    have h := format_length pieces
    rw [List.length_append, List.length_cons]
    omega
  rw [formatted, vsnprintfLoop_pieces collect 0 hvalid hlen, emit_collect]
  rfl

/-- A format that is written from valid pieces prints their texts, whatever stands behind its
terminator and behind its arguments: all of them on the console, and as much of them as fits into a
buffer. -/
theorem pieces_printed {pieces : List Piece} (hvalid : ∀ x ∈ pieces, x.Valid) (rest : List Byte)
    (va : List VaArg) :
    (∀ (σ : Type) (putchar : Byte → σ → σ) (s : σ),
      printf_ putchar (formatOf pieces ++ 0 :: rest) (argsOf pieces ++ va) s = some (returned (textOf pieces),
        ((textOf pieces).filter (· ≠ 0)).foldl (fun s c => putchar c s) s)) ∧
    ∀ (a : Nat) (count : BitVec 64) (m : Mem),
      snprintf_ (some a) count (formatOf pieces ++ 0 :: rest) (argsOf pieces ++ va) m =
        some (returned (textOf pieces), writeBytes m a (fitted count.toNat (textOf pieces))) := by
  have htext := formatted_pieces hvalid rest va
  refine ⟨fun σ putchar s => ?_, fun a count m => ?_⟩
  · rw [printf_eq, htext]
    rfl
  · rw [snprintf_eq, htext]
    rfl

/-- A character, a number and a string, each in its field. -/
def threeFields : List Piece :=
  [.character ⟨[.minus], .digits 4, none⟩ ⟨65, []⟩, .char (chr '|'),
    .integer ⟨[.plus, .zero], .digits 6, none⟩ .int .d ⟨-5, []⟩, .char (chr '|'),
    .string ⟨[], .star ⟨8, []⟩, some (.digits 3)⟩ ⟨0, cstr "kernel"⟩]

theorem pieces_printed_fields :
    printf_ (fun c s => s ++ [c]) (cstr "%-4c|%+06d|%*.3s") [⟨65, []⟩, ⟨-5, []⟩, ⟨8, []⟩, ⟨0, cstr "kernel"⟩]
      ([] : List Byte) = some (20, "A   |-00005|     ker".toList.map chr) := by
  have hvalid : ∀ x ∈ threeFields, x.Valid := by
    have hhead : ∀ (flags : List FlagChar) (width : FieldNumber), width.Bounded → width ≠ .digits 0 →
        (⟨flags, width, none⟩ : Head).Valid := fun _ _ h hz => ⟨h, hz, fun f hf => by cases hf⟩
    have hfour : (4 : Nat) < 2 ^ 32 := by decide
    have hsix : (6 : Nat) < 2 ^ 32 := by decide
    simp only [threeFields, List.forall_mem_cons]
    refine ⟨hhead _ _ hfour (fun h => ?_), ⟨by decide, by decide⟩, ⟨hhead _ _ hsix (fun h => ?_), ?_, ?_⟩,
      ⟨by decide, by decide⟩, ⟨⟨trivial, fun h => ?_, fun f hf => ?_⟩, by decide, by decide⟩, fun x hx => ?_⟩
    · cases h
    · cases h
    · exact fun _ => Length.noConfusion
    · exact ⟨by decide, fun _ => by decide, fun h => Bool.noConfusion h, fun _ _ _ => by decide⟩
    · cases h
    · obtain rfl : FieldNumber.digits 3 = f := Option.some.inj hf
      exact ⟨by show (3 : Nat) < 2 ^ 32; decide, by decide⟩
    · cases hx
  have h := (pieces_printed hvalid [] []).1 (List Byte) (fun c s => s ++ [c]) []
  have hformat : formatOf threeFields ++ [0] = cstr "%-4c|%+06d|%*.3s" := by decide
  have htext : textOf threeFields = "A   |-00005|     ker".toList.map chr := by decide
  rw [hformat, htext] at h
  exact h

end VijosOS
