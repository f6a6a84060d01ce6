import VijosOS.Console.Printf

/-!
# One text for every output function

The format and the arguments decide a text; an output function receives its bytes in order at
consecutive indices, and then the terminator.
-/

namespace VijosOS

open Library

section Emission

variable {σ : Type} (out : OutFct σ) (maxlen : Nat)

/-- The bytes of a text one after the other. -/
def emit (text : List Byte) (p : Nat × σ) : Nat × σ := text.foldl (fun p c => put out maxlen c p) p

@[simp] theorem emit_nil (p : Nat × σ) : emit out maxlen [] p = p := rfl

theorem emit_cons (c : Byte) (text : List Byte) (p : Nat × σ) :
    emit out maxlen (c :: text) p = emit out maxlen text (put out maxlen c p) := rfl

theorem emit_append (text text' : List Byte) (p : Nat × σ) :
    emit out maxlen (text ++ text') p = emit out maxlen text' (emit out maxlen text p) :=
  List.foldl_append

@[simp] theorem emit_fst (text : List Byte) (p : Nat × σ) :
    (emit out maxlen text p).1 = p.1 + text.length := by
  induction text generalizing p with
  | nil => rfl
  | cons c text ih =>
    rw [emit_cons, ih, put, List.length_cons]
    omega

theorem put_emit (c : Byte) (p : Nat × σ) : put out maxlen c p = emit out maxlen [c] p := rfl

theorem putSpaces_emit (n : Nat) (p : Nat × σ) :
    putSpaces out maxlen n p = emit out maxlen (List.replicate n (chr ' ')) p := by
  induction n generalizing p with
  | zero => rfl
  | succ n ih => rw [putSpaces, ih, List.replicate_succ, emit_cons]

theorem putReversed_emit (buf : NtoaBuf) (p : Nat × σ) : putReversed out maxlen buf p = emit out maxlen buf p := by
  induction buf generalizing p with
  | nil => rfl
  | cons c buf ih => rw [putReversed, ih, emit_cons]

/-- The characters of `_out_rev`. -/
def outRevText (buf : NtoaBuf) (width : Nat) (flags : Flags) : List Byte :=
  if flags.left then buf ++ List.replicate (width - buf.length) (chr ' ')
  else if flags.zeropad then buf
  else List.replicate (width - buf.length) (chr ' ') ++ buf

theorem outRev_emit (buf : NtoaBuf) (width : Nat) (flags : Flags) (p : Nat × σ) :
    outRev out maxlen buf width flags p = emit out maxlen (outRevText buf width flags) p := by
  unfold outRev outRevText
  cases flags.left with
  | true =>
    have hpad : (emit out maxlen buf p).1 - p.1 = buf.length := by
      rw [emit_fst, Nat.add_sub_cancel_left]
    simp only [Bool.not_true, Bool.false_and, Bool.false_eq_true, if_false, if_true, putReversed_emit,
      putSpaces_emit, hpad, emit_append]
  | false =>
    cases flags.zeropad with
    | true => simp [putReversed_emit]
    | false => simp [putReversed_emit, putSpaces_emit, emit_append]

/-- The characters of `_ntoa_format`. -/
def ntoaFormatText (buf : NtoaBuf) (negative : Bool) (base prec width : Nat) (flags : Flags) : Option (List Byte) :=
  let (width, buf) := padNumber buf negative prec width flags
  (hashNumber buf base prec width flags).bind fun buf =>
    (signNumber buf negative flags).map fun buf => outRevText buf width flags

/-- The characters of `_ntoa_long`. -/
def ntoaText (value : Nat) (negative : Bool) (base prec width : Nat) (flags : Flags) : Option (List Byte) :=
  let flags := if value = 0 then { flags with hash := false } else flags
  (ntoaNumber value base flags).bind fun buf => ntoaFormatText buf negative base prec width flags

theorem ntoaLong_emit (value : Nat) (negative : Bool) (base prec width : Nat) (flags : Flags) (p : Nat × σ) :
    ntoaLong out maxlen value negative base prec width flags p =
      (ntoaText value negative base prec width flags).map fun text => emit out maxlen text p := by
  simp only [ntoaLong, ntoaText, ntoaFormat, ntoaFormatText, outRev_emit, Option.map_bind, Option.map_map,
    Function.comp_def]

end Emission

/-! ## The text of a format -/

/-- An output function that keeps everything. -/
def collect : OutFct (List Byte) := fun c _ _ s => s ++ [c]

theorem emit_collect (maxlen : Nat) (text : List Byte) (i : Nat) (s : List Byte) :
    emit collect maxlen text (i, s) = (i + text.length, s ++ text) := by
  induction text generalizing i s with
  | nil => simp
  | cons c text ih =>
    rw [emit_cons, put, ih]
    simp [collect, Nat.add_assoc, Nat.add_comm 1]

/-- The text, with what else is computed next to it, does not depend on the output function. -/
def Uniform {α : Type} (f : (σ : Type) → OutFct σ → Nat → Nat × σ → Option (α × (Nat × σ))) : Prop :=
  ∃ r : Option (α × List Byte), ∀ (σ : Type) (out : OutFct σ) (maxlen : Nat) (p : Nat × σ),
    f σ out maxlen p = r.map fun r => (r.1, emit out maxlen r.2 p)

section Uniformity

variable {α : Type}

theorem Uniform.undefined : Uniform fun σ (_ : OutFct σ) _ _ => (none : Option (α × (Nat × σ))) :=
  ⟨none, fun _ _ _ _ => rfl⟩

theorem Uniform.text (a : α) (text : List Byte) :
    Uniform fun _ out maxlen p => some (a, emit out maxlen text p) :=
  ⟨some (a, text), fun _ _ _ _ => rfl⟩

theorem evalInteger_uniform (c : Byte) (flags : Flags) (width precision : Nat) (va : List VaArg) :
    Uniform fun _ out maxlen p => evalInteger out maxlen c flags width precision va p := by
  by_cases hlong : (integerFlags c flags).longLong
  · refine ⟨some (va, []), fun σ out maxlen p => ?_⟩
    exact if_pos hlong
  · cases va with
    | nil => exact ⟨none, fun σ out maxlen p => if_neg hlong⟩
    | cons arg va =>
      let number := integerValue (integerFlags c flags) (isSigned c) arg.word
      refine ⟨(ntoaText number.1 number.2 (integerBase c) precision width (integerFlags c flags)).map
        fun text => (va, text), fun σ out maxlen p => ?_⟩
      refine (if_neg hlong).trans ?_
      simp only [ntoaLong_emit, Option.map_map]
      rfl

theorem evalChar_uniform (flags : Flags) (width : Nat) (va : List VaArg) :
    Uniform fun _ out maxlen p => evalChar out maxlen flags width va p := by
  cases va with
  | nil => exact Uniform.undefined
  | cons arg va =>
    cases hleft : flags.left with
    | true =>
      refine ⟨some (va, [arg.word.setWidth 8] ++ List.replicate (width - 1) (chr ' ')), fun σ out maxlen p => ?_⟩
      simp [evalChar, hleft, putSpaces_emit, put_emit, ← emit_append]
    | false =>
      refine ⟨some (va, List.replicate (width - 1) (chr ' ') ++ [arg.word.setWidth 8]), fun σ out maxlen p => ?_⟩
      simp [evalChar, hleft, putSpaces_emit, put_emit, ← emit_append]

/-- The characters a string contributes. -/
def stringText (bounded : Bool) : Nat → List Byte → Option (List Byte)
  | _, [] => none
  | 0, c :: s => if c = 0 ∨ bounded then some [] else (stringText bounded 0 s).map (c :: ·)
  | precision + 1, c :: s => if c = 0 then some [] else (stringText bounded precision s).map (c :: ·)

theorem putString_emit {σ : Type} (out : OutFct σ) (maxlen : Nat) (bounded : Bool) (precision : Nat)
    (s : List Byte) (p : Nat × σ) :
    putString out maxlen bounded precision s p =
      (stringText bounded precision s).map fun text => emit out maxlen text p := by
  induction s generalizing precision p with
  | nil =>
    cases precision with
    | zero => rfl
    | succ n => rfl
  | cons c s ih =>
    cases precision with
    | zero =>
      unfold putString stringText
      split_ifs
      · rfl
      · rw [ih, Option.map_map]
        rfl
    | succ n =>
      unfold putString stringText
      split_ifs
      · rfl
      · rw [ih, Option.map_map]
        rfl

theorem evalString_uniform (flags : Flags) (width precision : Nat) (va : List VaArg) :
    Uniform fun _ out maxlen p => evalString out maxlen flags width precision va p := by
  cases va with
  | nil => exact Uniform.undefined
  | cons arg va =>
    rcases hl : strnlenS (if precision ≠ 0 then precision else 2 ^ 64 - 1) arg.chars with _ | l
    · refine ⟨none, fun σ out maxlen p => ?_⟩
      simp only [evalString, hl]
      rfl
    · let l' := if flags.precision then (if l % 2 ^ 32 < precision then l % 2 ^ 32 else precision)
        else l % 2 ^ 32
      let pad := List.replicate (width - l') (chr ' ')
      refine ⟨(stringText flags.precision precision arg.chars).map fun text =>
        (va, if flags.left then text ++ pad else pad ++ text), fun σ out maxlen p => ?_⟩
      simp only [evalString, hl, Option.bind_eq_bind, Option.bind_some, putString_emit, putSpaces_emit]
      cases flags.left with
      | true =>
        rcases stringText flags.precision precision arg.chars with _ | text
        · rfl
        · simp only [if_true, Option.map_some, Option.bind_some, emit_append]
          rfl
      | false =>
        rcases stringText flags.precision precision arg.chars with _ | text
        · rfl
        · simp only [Bool.false_eq_true, if_false, Option.map_some, Option.bind_some, emit_append]
          rfl

theorem evalPointer_uniform (flags : Flags) (precision : Nat) (va : List VaArg) :
    Uniform fun _ out maxlen p => evalPointer out maxlen flags precision va p := by
  cases va with
  | nil => exact Uniform.undefined
  | cons arg va =>
    refine ⟨(ntoaText arg.word.toNat false 16 precision 16
      { flags with zeropad := true, uppercase := true }).map fun text => (va, text), ?_⟩
    intro σ out maxlen p
    simp only [evalPointer, ntoaLong_emit, Option.map_map]
    rfl

theorem evalSpecifier_uniform (c : Byte) (flags : Flags) (width precision : Nat) (va : List VaArg) :
    Uniform fun _ out maxlen p => evalSpecifier out maxlen c flags width precision va p := by
  unfold evalSpecifier
  split_ifs
  · exact evalInteger_uniform c flags width precision va
  · exact evalChar_uniform flags width va
  · exact evalString_uniform flags width precision va
  · exact evalPointer_uniform flags precision va
  · exact Uniform.text va [chr '%']
  · exact Uniform.text va [c]

theorem evalDirective_uniform (format : List Byte) (va : List VaArg) :
    ∃ r : Option (List Byte × List VaArg × List Byte), ∀ (σ : Type) (out : OutFct σ) (maxlen : Nat) (p : Nat × σ),
      evalDirective out maxlen format va p = r.map fun r => (r.1, r.2.1, emit out maxlen r.2.2 p) := by
  unfold evalDirective
  simp only [Option.bind_eq_bind]
  rcases evalFlags Flags.none format with _ | ⟨flags, format⟩
  · exact ⟨none, fun _ _ _ _ => rfl⟩
  simp only [Option.bind_some]
  rcases evalWidth flags va format with _ | w
  · exact ⟨none, fun _ _ _ _ => rfl⟩
  simp only [Option.bind_some]
  rcases evalPrecision w.flags w.va w.format with _ | prec
  · exact ⟨none, fun _ _ _ _ => rfl⟩
  simp only [Option.bind_some]
  rcases evalLength prec.flags prec.format with _ | ⟨flags, format⟩
  · exact ⟨none, fun _ _ _ _ => rfl⟩
  simp only [Option.bind_some]
  cases format with
  | nil => exact ⟨none, fun _ _ _ _ => rfl⟩
  | cons c format =>
    obtain ⟨r, hr⟩ := evalSpecifier_uniform c flags w.value prec.value prec.va
    refine ⟨r.map fun r => (format, r.1, r.2), fun σ out maxlen p => ?_⟩
    simp only [hr, Option.map_map]
    rfl

theorem vsnprintfLoop_uniform (n : Nat) (format : List Byte) (va : List VaArg) :
    ∃ r : Option (List Byte), ∀ (σ : Type) (out : OutFct σ) (maxlen : Nat) (p : Nat × σ),
      vsnprintfLoop out maxlen n format va p = r.map fun text => emit out maxlen text p := by
  induction n generalizing format va with
  | zero => exact ⟨none, fun _ _ _ _ => rfl⟩
  | succ n ih =>
    cases format with
    | nil => exact ⟨none, fun _ _ _ _ => rfl⟩
    | cons c format =>
      by_cases hend : c = 0
      · refine ⟨some [], fun σ out maxlen p => ?_⟩
        simp [vsnprintfLoop, hend]
      by_cases hpercent : c = chr '%'
      · obtain ⟨r, hr⟩ := evalDirective_uniform format va
        cases r with
        | none =>
          refine ⟨none, fun σ out maxlen p => ?_⟩
          rw [vsnprintfLoop, if_neg hend, if_neg (not_not.mpr hpercent), hr]
          rfl
        | some r =>
          obtain ⟨rest, hrest⟩ := ih r.1 r.2.1
          refine ⟨rest.map (r.2.2 ++ ·), fun σ out maxlen p => ?_⟩
          rw [vsnprintfLoop, if_neg hend, if_neg (not_not.mpr hpercent), hr, Option.map_some, Option.bind_some,
            hrest, Option.map_map]
          congr 1
          funext text
          exact (emit_append out maxlen r.2.2 text p).symm
      · obtain ⟨rest, hrest⟩ := ih format va
        refine ⟨rest.map (c :: ·), fun σ out maxlen p => ?_⟩
        rw [vsnprintfLoop, if_neg hend, if_pos hpercent, hrest, Option.map_map]
        rfl

end Uniformity

/-- The text of a format and its arguments. -/
def formatted (format : List Byte) (va : List VaArg) : Option (List Byte) :=
  (vsnprintfLoop collect 0 format.length format va (0, [])).map Prod.snd

theorem vsnprintfLoop_eq {σ : Type} (out : OutFct σ) (maxlen : Nat) (format : List Byte) (va : List VaArg)
    (p : Nat × σ) : vsnprintfLoop out maxlen format.length format va p =
      (formatted format va).map fun text => emit out maxlen text p := by
  obtain ⟨r, hr⟩ := vsnprintfLoop_uniform format.length format va
  have htext : formatted format va = r := by
    rw [formatted, hr, Option.map_map]
    cases r with
    | none => rfl
    | some text => simp [emit_collect]
  rw [htext, hr]

/-! ## Each output function -/

/-- `(int)idx` after a text. -/
def returned (text : List Byte) : Int := (BitVec.ofNat 32 text.length).toInt

/-- What fits into a buffer of `count` bytes. -/
def fitted (count : Nat) (text : List Byte) : List Byte :=
  if count = 0 then [] else text.take (count - 1) ++ [0]

theorem fitted_length (count : Nat) (text : List Byte) : (fitted count text).length ≤ count := by
  unfold fitted
  split_ifs
  · exact Nat.zero_le _
  · rw [List.length_append, List.length_take, List.length_singleton]
    omega

theorem update_eq_writeBytes (m : Mem) (a : Nat) (c : Byte) : Function.update m a c = writeBytes m a [c] := by
  funext x
  by_cases hx : x = a
  · subst hx
    rw [Function.update_self]
    exact (writeBytes_add m x [c] Nat.zero_lt_one).symm
  · rw [Function.update_of_ne hx, writeBytes_outside _ _ _ (by simp; omega)]

theorem emit_outBuffer (a maxlen : Nat) (text : List Byte) (i : Nat) (m : Mem) :
    (emit (outBuffer a) maxlen text (i, m)).2 = writeBytes m (a + i) (text.take (maxlen - i)) := by
  induction text generalizing i m with
  | nil => simp
  | cons c text ih =>
    rw [emit_cons, put, ih]
    by_cases hi : i < maxlen
    · obtain ⟨n, hn⟩ := Nat.exists_eq_add_of_lt hi
      have hcount : maxlen - i = n + 1 := by omega
      have hnext : maxlen - (i + 1) = n := by omega
      rw [outBuffer, if_pos hi, update_eq_writeBytes, hcount, hnext, List.take_succ_cons]
      exact writeBytes_append m (a + i) [c] (text.take n)
    · have hcount : maxlen - i = 0 := by omega
      have hnext : maxlen - (i + 1) = 0 := by omega
      rw [outBuffer, if_neg hi, hcount, hnext]
      simp

/-- The terminator replaces the last byte of a text that does not fit. -/
theorem terminate (a : Nat) (maxlen : BitVec 64) (text : List Byte) (m : Mem) :
    outBuffer a 0 (if text.length < maxlen.toNat then text.length else (maxlen - 1).toNat) maxlen.toNat
      (writeBytes m a (text.take maxlen.toNat)) = writeBytes m a (fitted maxlen.toNat text) := by
  have hlt := maxlen.isLt
  by_cases hzero : maxlen.toNat = 0
  · have hpred : ¬ (maxlen - 1).toNat < maxlen.toNat := by omega
    rw [hzero, if_neg (Nat.not_lt_zero _), fitted, if_pos rfl]
    simp [outBuffer]
  have hpred : (maxlen - 1).toNat = maxlen.toNat - 1 := by
    rw [BitVec.toNat_sub_of_le]
    · rfl
    · have hone : (1 : BitVec 64).toNat = 1 := rfl
      rw [BitVec.le_def, hone]
      omega
  rw [fitted, if_neg hzero, hpred]
  by_cases hfits : text.length < maxlen.toNat
  · rw [if_pos hfits, outBuffer, if_pos hfits, update_eq_writeBytes, List.take_of_length_le hfits.le,
      List.take_of_length_le (by omega)]
    exact writeBytes_append m a text [0]
  · have hlast : maxlen.toNat - 1 < maxlen.toNat := by omega
    have hlen : (text.take (maxlen.toNat - 1)).length = maxlen.toNat - 1 := by
      rw [List.length_take]
      omega
    have hsplit : text.take maxlen.toNat =
        text.take (maxlen.toNat - 1) ++ [text.getD (maxlen.toNat - 1) 0] := by
      conv_lhs => rw [show maxlen.toNat = maxlen.toNat - 1 + 1 by omega]
      rw [List.take_add_one, List.getElem?_eq_getElem (by omega), List.getD_eq_getElem _ _ (by omega)]
      rfl
    rw [if_neg hfits, outBuffer, if_pos hlast, hsplit, ← writeBytes_append m a _ [text.getD _ 0],
      ← writeBytes_append m a _ [0], hlen, ← update_eq_writeBytes, ← update_eq_writeBytes,
      Function.update_idem]

theorem emit_outNull {σ : Type} (maxlen : Nat) (text : List Byte) (p : Nat × σ) :
    (emit outNull maxlen text p).2 = p.2 := by
  induction text generalizing p with
  | nil => rfl
  | cons c text ih =>
    rw [emit_cons, ih]
    rfl

theorem emit_outChar {σ : Type} (putchar : Byte → σ → σ) (maxlen : Nat) (text : List Byte) (p : Nat × σ) :
    (emit (outChar putchar) maxlen text p).2 = (text.filter (· ≠ 0)).foldl (fun s c => putchar c s) p.2 := by
  induction text generalizing p with
  | nil => rfl
  | cons c text ih =>
    rw [emit_cons, ih]
    by_cases hc : c = 0
    · rw [List.filter_cons_of_neg (by simpa using hc), put, outChar, if_neg (not_not.mpr hc)]
    · rw [List.filter_cons_of_pos (by simpa using hc), put, outChar, if_pos hc, List.foldl_cons]

theorem vsnprintf_eq {σ : Type} (out : Nat → OutFct σ) (a : Nat) (maxlen : BitVec 64) (format : List Byte)
    (va : List VaArg) (s : σ) : vsnprintf out (some a) maxlen format va s =
      (formatted format va).map fun text => (returned text,
        out a 0 (if text.length < maxlen.toNat then text.length else (maxlen - 1).toNat) maxlen.toNat
          (emit (out a) maxlen.toNat text (0, s)).2) := by
  simp only [vsnprintf, vsnprintfLoop_eq, Option.map_map]
  congr 1
  funext text
  simp only [Function.comp_apply, emit_fst, Nat.zero_add, returned]

theorem snprintf_eq (a : Nat) (count : BitVec 64) (format : List Byte) (va : List VaArg) (m : Mem) :
    snprintf_ (some a) count format va m =
      (formatted format va).map fun text => (returned text, writeBytes m a (fitted count.toNat text)) := by
  rw [snprintf_, vsnprintf_eq]
  congr 1
  funext text
  rw [emit_outBuffer, Nat.sub_zero, Nat.add_zero, terminate]

theorem printf_eq {σ : Type} (putchar : Byte → σ → σ) (format : List Byte) (va : List VaArg) (s : σ) :
    printf_ putchar format va s = (formatted format va).map fun text =>
      (returned text, (text.filter (· ≠ 0)).foldl (fun s c => putchar c s) s) := by
  rw [printf_, vsnprintf_eq]
  congr 1
  funext text
  rw [emit_outChar]
  rfl

/-- Every function of the family produces the text of the format and its arguments, and returns its
length as an `int`: to the console without zero bytes, which the length counts, into a buffer as much
of it as fits before a terminator, nothing behind that, and nothing at all to `NULL`. -/
theorem family_text (format : List Byte) (va : List VaArg) :
    (∀ (a : Nat) (count : BitVec 64) (m : Mem), snprintf_ (some a) count format va m =
      (formatted format va).map fun text => (returned text, writeBytes m a (fitted count.toNat text))) ∧
    (∀ (a : Nat) (m : Mem), sprintf_ (some a) format va m =
      (formatted format va).map fun text => (returned text, writeBytes m a (fitted (2 ^ 64 - 1) text))) ∧
    (∀ (count : BitVec 64) (m : Mem), snprintf_ none count format va m =
      (formatted format va).map fun text => (returned text, m)) ∧
    (∀ (σ : Type) (putchar : Byte → σ → σ) (s : σ), printf_ putchar format va s =
      (formatted format va).map fun text =>
        (returned text, (text.filter (· ≠ 0)).foldl (fun s c => putchar c s) s)) ∧
    (∀ (α σ : Type) (fct : Byte → α → σ → σ) (arg : α) (s : σ), fctprintf fct arg format va s =
      (formatted format va).map fun text =>
        (returned text, (text.filter (· ≠ 0)).foldl (fun s c => fct c arg s) s)) := by
  refine ⟨fun a count m => snprintf_eq a count format va m, fun a m => ?_, fun count m => ?_,
    fun σ putchar s => printf_eq putchar format va s, fun α σ fct arg s => ?_⟩
  · exact snprintf_eq a (BitVec.allOnes 64) format va m
  · simp only [snprintf_, vsnprintf, vsnprintfLoop_eq, Option.map_map]
    congr 1
    funext text
    simp only [Function.comp_apply, emit_fst, emit_outNull, Nat.zero_add, returned]
    rfl
  · exact printf_eq (fun c s => fct c arg s) format va s

end VijosOS
