import Mathlib.Data.List.TakeWhile
import VijosOS.Console.Meaning

/-!
# Calls of `printf`

The pieces the kernel's formats are made of, and what reaches the console.
-/

namespace VijosOS

open Library

/-! ## No zero bytes -/

theorem digitByte_ne_zero (upper : Bool) {d : Nat} (hd : d < 36) : digitByte upper d ≠ 0 := by
  have h : ∀ d : Fin 36, digitByte upper d ≠ 0 := by cases upper <;> decide
  exact h ⟨d, hd⟩

theorem mem_leftpad {k : Nat} {a c : Byte} {text : List Byte} (hc : c ∈ List.leftpad k a text) : c = a ∨ c ∈ text := by
  rcases List.mem_append.mp hc with hpad | htext
  · exact Or.inl (List.eq_of_mem_replicate hpad)
  · exact Or.inr htext

theorem numeral_ne_zero (upper : Bool) {base n : Nat} (hlow : 1 < base) (hbase : base ≤ 36) :
    ∀ c ∈ numeral upper base n, c ≠ 0 := by
  intro c hc
  obtain ⟨d, hd, rfl⟩ := List.mem_map.mp (List.mem_reverse.mp hc)
  exact digitByte_ne_zero upper (lt_of_lt_of_le (Nat.digits_lt_base hlow hd) hbase)

theorem padded_ne_zero (upper : Bool) {base k n : Nat} (hlow : 1 < base) (hbase : base ≤ 36) :
    ∀ c ∈ padded upper base k n, c ≠ 0 := by
  intro c hc
  rcases mem_leftpad hc with rfl | hdigit
  · exact digitByte_ne_zero upper (by decide)
  · exact numeral_ne_zero upper hlow hbase c hdigit

namespace Layout

variable {l : Layout}

theorem field_ne_zero {text : List Byte} (htext : ∀ c ∈ text, c ≠ 0) : ∀ c ∈ l.field text, c ≠ 0 := by
  intro c hc
  have hspace : chr ' ' ≠ 0 := by decide
  unfold field at hc
  split_ifs at hc
  · rcases List.mem_append.mp hc with h | h
    · exact htext c h
    · rw [List.eq_of_mem_replicate h]
      exact hspace
  · rcases mem_leftpad hc with rfl | h
    · exact hspace
    · exact htext c h

theorem sign_ne_zero {negative : Bool} : ∀ c ∈ l.sign negative, c ≠ 0 := by
  intro c hc
  unfold sign at hc
  split_ifs at hc
  · rw [List.mem_singleton.mp hc]
    decide
  · rw [List.mem_singleton.mp hc]
    decide
  · rw [List.mem_singleton.mp hc]
    decide
  · cases hc

theorem integer_ne_zero {upper negative : Bool} {base n : Nat} (hlow : 1 < base) (hbase : base ≤ 36) :
    ∀ c ∈ l.integer upper base n negative, c ≠ 0 := by
  intro c hc
  unfold integer at hc
  split_ifs at hc
  · rcases List.mem_append.mp hc with h | h
    · exact sign_ne_zero c h
    · rcases mem_leftpad h with rfl | h
      · decide
      · exact padded_ne_zero upper hlow hbase c h
  · refine field_ne_zero (fun c hc => ?_) c hc
    rcases List.mem_append.mp hc with h | h
    · exact sign_ne_zero c h
    · exact padded_ne_zero upper hlow hbase c h

end Layout

theorem cString_ne_zero {chars : List Byte} : ∀ c ∈ cString chars, c ≠ 0 := by
  intro c hc
  simpa using List.mem_takeWhile_imp hc

/-- Only `%c` can print a zero byte. -/
theorem Piece.text_ne_zero {x : Piece} (hx : x.Valid) (hchar : ∀ head arg, x ≠ .character head arg) :
    ∀ c ∈ x.text, c ≠ 0 := by
  cases x with
  | char c =>
    intro d hd
    rw [List.mem_singleton.mp hd]
    exact hx.1
  | percent => decide
  | integer head length conv arg =>
    have hlow : 1 < conv.base := by cases conv <;> decide
    have hbase : conv.base ≤ 36 := by cases conv <;> decide
    exact Layout.integer_ne_zero hlow hbase
  | character head arg => exact absurd rfl (hchar head arg)
  | string head arg =>
    refine Layout.field_ne_zero fun c hc => ?_
    cases hprec : head.layout.precision with
    | none =>
      rw [hprec] at hc
      exact cString_ne_zero c hc
    | some k =>
      rw [hprec] at hc
      exact cString_ne_zero c (List.mem_of_mem_take hc)
  | pointer arg => exact padded_ne_zero true (by decide) (by decide)

/-! ## The kernel's formats -/

def vaLong (v : Nat) : VaArg := ⟨BitVec.ofNat 64 v, []⟩

-- Of a string only the characters are looked at.
def vaString (s : String) : VaArg := ⟨0, cstr s⟩

def literal (s : String) : List Piece := s.toList.map fun c => .char (chr c)

def bytesOf (s : String) : List Byte := s.toList.map chr

theorem literal_text (s : String) : textOf (literal s) = bytesOf s := by
  rw [textOf, literal, List.flatMap_map, bytesOf]
  exact (List.map_eq_flatMap ..).symm

theorem literal_format (s : String) : formatOf (literal s) = bytesOf s := by
  rw [formatOf, literal, List.flatMap_map, bytesOf]
  exact (List.map_eq_flatMap ..).symm

theorem literal_args (s : String) : argsOf (literal s) = [] := by
  simp [argsOf, literal, List.flatMap_map, Piece.args]

/-- A width that is written when there is one. -/
def widthOf (k : Nat) : FieldNumber := if k = 0 then .absent else .digits k

/-- An unsigned conversion of a `long`, filled up to `k` characters by zeros or spaces. -/
def ulong (flags : List FlagChar) (k : Nat) (conv : IntConv) (v : Nat) : Piece :=
  .integer ⟨flags, widthOf k, none⟩ .l conv (vaLong v)

section Unsigned

variable {conv : IntConv} {v k : Nat} {flags : List FlagChar}

theorem widthOf_value (k : Nat) : (widthOf k).value = k := by
  unfold widthOf
  split_ifs with hk
  · rw [hk]
    rfl
  · rfl

theorem value_unsigned (hconv : conv.signed = false) (hv : v < 2 ^ 64) :
    conv.value .l (vaLong v).word = v := by
  have hword : (vaLong v).word.toNat = v := Nat.mod_eq_of_lt hv
  simp only [IntConv.value, hconv, hword, Bool.false_eq_true, if_false]

theorem sign_unsigned (hconv : conv.signed = false) (head : Head) :
    (Piece.integerLayout head conv).sign false = [] := by
  simp [Layout.sign, Piece.integerLayout, hconv]

/-- 22 octal digits hold 64 bits. -/
theorem numeral_room (hconv : conv ≠ .b) (hv : v < 2 ^ 64) : (numeral conv.upper conv.base v).length ≤ 22 := by
  cases conv with
  | b => exact absurd rfl hconv
  | d => exact (numeral_length_le _ (by decide)).mpr (lt_of_lt_of_le hv (by decide))
  | i => exact (numeral_length_le _ (by decide)).mpr (lt_of_lt_of_le hv (by decide))
  | u => exact (numeral_length_le _ (by decide)).mpr (lt_of_lt_of_le hv (by decide))
  | x => exact (numeral_length_le _ (by decide)).mpr (lt_of_lt_of_le hv (by decide))
  | X => exact (numeral_length_le _ (by decide)).mpr (lt_of_lt_of_le hv (by decide))
  | o => exact (numeral_length_le _ (by decide)).mpr (lt_of_lt_of_le hv (by decide))

theorem ulong_minus (hleft : .minus ∉ flags) : (Piece.integerLayout ⟨flags, widthOf k, none⟩ conv).minus = false := by
  have hwidth : decide ((widthOf k).value < 0) = false := by
    rw [widthOf_value]
    exact decide_eq_false (Int.not_lt.mpr (Int.natCast_nonneg k))
  show (decide (FlagChar.minus ∈ flags) || decide ((widthOf k).value < 0)) = false
  rw [decide_eq_false hleft, hwidth]
  rfl

theorem ulong_valid (hleft : .minus ∉ flags) (hwidth : k ≤ 32) (hconv : conv.signed = false) (hbase : conv ≠ .b)
    (hv : v < 2 ^ 64) : (ulong flags k conv v).Valid := by
  have hroom := numeral_room hbase hv
  have hhead : (⟨flags, widthOf k, none⟩ : Head).Valid := by
    refine ⟨?_, ?_, fun f hf => Option.noConfusion rfl (heq_of_eq hf)⟩
    · show (widthOf k).Bounded
      unfold widthOf
      split_ifs
      · trivial
      · exact lt_of_le_of_lt hwidth (by decide)
    · show widthOf k ≠ .digits 0
      unfold widthOf
      split_ifs with hk
      · exact fun h => FieldNumber.noConfusion h
      · exact fun h => hk (FieldNumber.digits.inj h)
  have hsigned : conv.signed = true → Length.l ≠ Length.hh := fun _ => Length.noConfusion
  refine ⟨hhead, hsigned, ?_⟩
  rw [value_unsigned hconv hv, Int.natAbs_natCast, decide_eq_false (Int.not_lt.mpr (Int.natCast_nonneg v))]
  refine ⟨?_, fun _ => ?_, fun h => ?_, fun _ _ _ => ?_⟩
  · rw [sign_unsigned hconv, List.length_nil]
    exact le_trans hroom (by decide)
  · rw [sign_unsigned hconv]
    exact (by decide : 1 ≤ 32)
  · rw [ulong_minus hleft] at h
    cases h
  · show (widthOf k).value.natAbs ≤ 32
    rw [widthOf_value]
    exact hwidth

theorem ulong_text (hleft : .minus ∉ flags) (hconv : conv.signed = false) (hv : v < 2 ^ 64) :
    (ulong flags k conv v).text =
      if .zero ∈ flags then padded conv.upper conv.base (max 1 k) v
      else List.leftpad k (chr ' ') (padded conv.upper conv.base 1 v) := by
  have hwidth : (Piece.integerLayout ⟨flags, widthOf k, none⟩ conv).width = k := by
    show (widthOf k).value.natAbs = k
    rw [widthOf_value, Int.natAbs_natCast]
  have hminus : (Piece.integerLayout ⟨flags, widthOf k, none⟩ conv).minus = false := ulong_minus hleft
  show Layout.integer _ _ _ _ _ = _
  rw [value_unsigned hconv hv, Int.natAbs_natCast, decide_eq_false (Int.not_lt.mpr (Int.natCast_nonneg v)),
    Layout.integer, sign_unsigned hconv, hwidth, List.nil_append, List.nil_append, List.length_nil, Nat.sub_zero,
    Layout.field, hminus, hwidth, if_neg Bool.false_ne_true]
  by_cases hzero : .zero ∈ flags
  · rw [if_pos hzero, if_pos ⟨decide_eq_true hzero, rfl, rfl⟩]
    exact leftpad_padded conv.upper 1 k v
  · rw [if_neg hzero, if_neg fun h => hzero (of_decide_eq_true h.1)]
    rfl

end Unsigned

/-- A whole string. -/
def stringPiece (s : String) : Piece := .string ⟨[], .absent, none⟩ (vaString s)

/-- A call whose result is not used. -/
def print {σ : Type} (putchar : Byte → σ → σ) (format : String) (va : List VaArg) (s : σ) : Option σ :=
  (printf_ putchar (cstr format) va s).map Prod.snd

/-- The bytes of a text one after the other on the console. -/
def putText {σ : Type} (putchar : Byte → σ → σ) (text : List Byte) (s : σ) : σ :=
  text.foldl (fun s c => putchar c s) s

theorem putText_append {σ : Type} (putchar : Byte → σ → σ) (text text' : List Byte) (s : σ) :
    putText putchar (text ++ text') s = putText putchar text' (putText putchar text s) := List.foldl_append

/-- A call with a written format puts the text of its pieces on the console. -/
theorem print_pieces {σ : Type} {putchar : Byte → σ → σ} {format : String} {pieces : List Piece}
    (hformat : cstr format = formatOf pieces ++ [0]) (hvalid : ∀ x ∈ pieces, x.Valid)
    (hchar : ∀ x ∈ pieces, ∀ head arg, x ≠ .character head arg) (s : σ) :
    print putchar format (argsOf pieces) s = some (putText putchar (textOf pieces) s) := by
  have hva : argsOf pieces = argsOf pieces ++ [] := (List.append_nil _).symm
  have hvisible : (textOf pieces).filter (· ≠ 0) = textOf pieces := by
    rw [List.filter_eq_self]
    intro c hc
    obtain ⟨x, hx, hcx⟩ := List.mem_flatMap.mp hc
    exact decide_eq_true (Piece.text_ne_zero (hvalid x hx) (hchar x hx) c hcx)
  rw [print, printf_eq, hformat, hva, formatted_pieces hvalid [] [], Option.map_some, Option.map_some, hvisible]
  rfl

end VijosOS
