import VijosOS.Console.Emission
import VijosOS.Library.Numeral

/-!
# Integer conversions

What the flags, the width and the precision of a conversion ask for, and when `_ntoa_long` with its
32 bytes of buffer produces it.
-/

namespace VijosOS

open Library

/-- The parts of a conversion specification that lay out its text. -/
structure Layout where
  minus : Bool
  plus : Bool
  space : Bool
  zero : Bool
  width : Nat
  precision : Option Nat

namespace Layout

def sign (l : Layout) (negative : Bool) : List Byte :=
  if negative then [chr '-'] else if l.plus then [chr '+'] else if l.space then [chr ' '] else []

/-- The digits, at least as many as the precision, which is one by default. -/
def number (l : Layout) (upper : Bool) (base n : Nat) : List Byte := padded upper base (l.precision.getD 1) n

/-- A text in its field. -/
def field (l : Layout) (text : List Byte) : List Byte :=
  if l.minus then List.rightpad l.width (chr ' ') text else List.leftpad l.width (chr ' ') text

/-- The zero flag fills the field behind the sign, unless a minus or a precision is given. -/
def integer (l : Layout) (upper : Bool) (base n : Nat) (negative : Bool) : List Byte :=
  if l.zero ∧ l.minus = false ∧ l.precision = none then
    l.sign negative ++ List.leftpad (l.width - (l.sign negative).length) (chr '0') (l.number upper base n)
  else l.field (l.sign negative ++ l.number upper base n)

/-- What `_ntoa_format` can do: all digits and the sign have their places in `buf`, and next to a
minus flag no zeros are asked for. -/
structure Fits (l : Layout) (upper : Bool) (base n : Nat) (negative : Bool) : Prop where
  room : (numeral upper base n).length + (l.sign negative).length ≤ ntoaBufferSize
  precision : l.minus = false → l.precision.getD 1 + (l.sign negative).length ≤ ntoaBufferSize
  left : l.minus = true → ∀ k ∈ l.precision, k ≤ (numeral upper base n).length
  width : l.zero = true → l.minus = false → l.precision = none → l.width ≤ ntoaBufferSize

/-- The flags of `_ntoa_long` for a layout. -/
structure Scanned (l : Layout) (flags : Flags) : Prop where
  left : flags.left = l.minus
  plus : flags.plus = l.plus
  space : flags.space = l.space
  zeropad : flags.zeropad = (l.zero && l.precision.isNone)
  hash : flags.hash = false
  precision : flags.precision = l.precision.isSome

end Layout

/-! ## The buffer -/

section Buffer

variable {base : Nat} {flags : Flags}

theorem ntoaDigits_numeral (hbase : 1 < base) (free value : Nat) (buf : NtoaBuf) (hvalue : 0 < value)
    (hfree : (numeral flags.uppercase base value).length ≤ free) (hbuf : buf.length + free = ntoaBufferSize) :
    ntoaDigits base flags free value buf = some (numeral flags.uppercase base value ++ buf) := by
  have hsplit := numeral_step flags.uppercase hbase hvalue
  induction free generalizing value buf with
  | zero =>
    have hpos : 0 < (numeral flags.uppercase base value).length := numeral_pos _ hvalue
    omega
  | succ free ih =>
    have hlength : (numeral flags.uppercase base (value / base)).length + 1 ≤ free + 1 := by
      rw [hsplit, List.length_append] at hfree
      exact hfree
    show (if value / base ≠ 0 ∧ (digitByte flags.uppercase (value % base) :: buf).length < ntoaBufferSize then
      ntoaDigits base flags free (value / base) (digitByte flags.uppercase (value % base) :: buf)
      else some (digitByte flags.uppercase (value % base) :: buf)) = _
    have hcons : (digitByte flags.uppercase (value % base) :: buf).length = buf.length + 1 := rfl
    rcases Nat.eq_zero_or_pos (value / base) with hlast | hmore
    · rw [if_neg (fun h => h.1 hlast), hsplit, hlast]
      simp
    · have hdigits : 0 < (numeral flags.uppercase base (value / base)).length := numeral_pos _ hmore
      rw [if_pos ⟨hmore.ne', by omega⟩, ih _ _ hmore (by omega) (by omega)
        (numeral_step flags.uppercase hbase hmore), hsplit, List.append_assoc]
      rfl

/-- The digits `_ntoa_long` hands on. -/
def written (flags : Flags) (base value : Nat) : NtoaBuf :=
  if value = 0 ∧ flags.precision = false then [chr '0'] else numeral flags.uppercase base value

theorem ntoaNumber_written (hbase : 1 < base) {value : Nat}
    (hlength : (numeral flags.uppercase base value).length ≤ ntoaBufferSize) :
    ntoaNumber value base flags = some (written flags base value) := by
  unfold ntoaNumber written
  rcases Nat.eq_zero_or_pos value with rfl | hvalue
  · cases flags.precision with
    | true => simp
    | false =>
      simp only [Bool.not_false, true_or, if_true, and_self]
      unfold ntoaDigits
      simp
  · rw [if_pos (Or.inr hvalue.ne'), if_neg (fun h => hvalue.ne' h.1),
      ntoaDigits_numeral hbase _ _ _ hvalue hlength rfl, List.append_nil]

theorem padZeros_eq (n free : Nat) (buf : NtoaBuf) (hbuf : buf.length + free = ntoaBufferSize) :
    padZeros n free buf = List.leftpad (min n ntoaBufferSize) (chr '0') buf := by
  induction free generalizing buf with
  | zero =>
    have hnone : min n ntoaBufferSize - buf.length = 0 := by omega
    rw [padZeros, List.leftpad, hnone]
    rfl
  | succ free ih =>
    rw [padZeros]
    by_cases hshort : buf.length < n ∧ buf.length < ntoaBufferSize
    · have hmore : min n ntoaBufferSize - buf.length = min n ntoaBufferSize - (buf.length + 1) + 1 := by omega
      rw [if_pos hshort, ih _ (by rw [List.length_cons]; omega), List.leftpad, List.leftpad, List.length_cons,
        hmore, List.replicate_succ', List.append_assoc]
      rfl
    · have hnone : min n ntoaBufferSize - buf.length = 0 := by omega
      rw [if_neg hshort, List.leftpad, hnone]
      rfl

end Buffer

namespace Layout

variable {l : Layout} {flags : Flags} {base n : Nat} {negative : Bool}

theorem sign_length_le (l : Layout) (negative : Bool) : (l.sign negative).length ≤ 1 := by
  unfold sign
  split_ifs
  · exact le_refl 1
  · exact le_refl 1
  · exact le_refl 1
  · exact Nat.zero_le 1

theorem number_length (l : Layout) (upper : Bool) (base n : Nat) :
    (l.number upper base n).length = max (l.precision.getD 1) (numeral upper base n).length := by
  rw [number, padded, List.length_leftpad]

theorem signNumber_eq (hs : l.Scanned flags) {buf : NtoaBuf}
    (hbuf : buf.length + (l.sign negative).length ≤ ntoaBufferSize) :
    signNumber buf negative flags = some (l.sign negative ++ buf) := by
  unfold signNumber sign at *
  rw [hs.plus, hs.space]
  split_ifs at * with hlt hneg hplus hspace
  · rw [storeChar, if_pos hlt]
    rfl
  · rw [storeChar, if_pos hlt]
    rfl
  · rw [storeChar, if_pos hlt]
    rfl
  · rfl
  · simp only [List.length_singleton] at hbuf
    omega
  · simp only [List.length_singleton] at hbuf
    omega
  · simp only [List.length_singleton] at hbuf
    omega
  · rfl

/-- The digits filled up to the precision. -/
theorem leftpad_written (hs : l.Scanned flags) : List.leftpad (l.precision.getD 0) (chr '0') (written flags base n) =
    l.number flags.uppercase base n := by
  unfold written number padded
  rw [hs.precision]
  cases l.precision with
  | some k => simp only [Option.isSome_some, Bool.true_eq_false, and_false, if_false, Option.getD_some]; rfl
  | none =>
    rcases Nat.eq_zero_or_pos n with rfl | hn
    · simp only [Option.isSome_none, and_self, if_true, numeral_zero]
      rfl
    · have hpos : 0 < (numeral flags.uppercase base n).length := numeral_pos _ hn
      have hone : 1 - (numeral flags.uppercase base n).length = 0 := by omega
      rw [if_neg (fun h => hn.ne' h.1)]
      simp only [Option.getD_none, List.leftpad, Nat.zero_sub, hone, List.replicate_zero, List.nil_append]

theorem written_length_le (hroom : (numeral flags.uppercase base n).length ≤ ntoaBufferSize) :
    (written flags base n).length ≤ ntoaBufferSize := by
  unfold written
  split_ifs
  · exact (by decide : 1 ≤ ntoaBufferSize)
  · exact hroom

/-- Next to a minus flag the digits are not filled up, and need not be. -/
theorem written_left (hs : l.Scanned flags) (hleft : ∀ k ∈ l.precision, k ≤ (numeral flags.uppercase base n).length) :
    written flags base n = l.number flags.uppercase base n := by
  rw [← leftpad_written hs, List.leftpad]
  have hnone : l.precision.getD 0 - (written flags base n).length = 0 := by
    unfold written
    rw [hs.precision]
    cases hprec : l.precision with
    | none => simp
    | some k =>
      have hk := hleft k hprec
      simp only [Option.isSome_some, Bool.true_eq_false, and_false, if_false, Option.getD_some]
      omega
  rw [hnone]
  rfl

theorem padNumber_left (hs : l.Scanned flags) (hf : l.Fits flags.uppercase base n negative)
    (hminus : l.minus = true) : padNumber (written flags base n) negative (l.precision.getD 0) l.width flags =
      (l.width, l.number flags.uppercase base n) := by
  rw [padNumber, hs.left, if_pos hminus, written_left hs (hf.left hminus)]

/-- The sign takes one place of the width. -/
theorem zeroWidth (negative : Bool) (hs : l.Scanned flags) (hzero : flags.zeropad = true) :
    (if l.width ≠ 0 ∧ flags.zeropad ∧ (negative ∨ flags.plus ∨ flags.space) then l.width - 1 else l.width) =
      l.width - (l.sign negative).length := by
  rw [hs.plus, hs.space, hzero]
  unfold sign
  cases negative with
  | true =>
    simp only [true_or, and_true, if_true, List.length_singleton]
    split_ifs <;> omega
  | false =>
    cases l.plus with
    | true =>
      simp only [Bool.false_eq_true, true_or, or_true, and_true, if_true, if_false, List.length_singleton]
      split_ifs <;> omega
    | false =>
      cases l.space with
      | true =>
        simp only [Bool.false_eq_true, or_true, and_true, if_true, if_false, List.length_singleton]
        split_ifs <;> omega
      | false => simp

theorem padNumber_right (hs : l.Scanned flags) (hf : l.Fits flags.uppercase base n negative)
    (hminus : l.minus = false) : padNumber (written flags base n) negative (l.precision.getD 0) l.width flags =
      (if flags.zeropad then (l.width - (l.sign negative).length,
        List.leftpad (l.width - (l.sign negative).length) (chr '0') (l.number flags.uppercase base n))
      else (l.width, l.number flags.uppercase base n)) := by
  have hroom := hf.room
  have hprecision := hf.precision hminus
  have hwritten : (written flags base n).length ≤ ntoaBufferSize := written_length_le (by omega)
  have hprec : l.precision.getD 0 ≤ ntoaBufferSize := by
    cases hp : l.precision with
    | none => exact Nat.zero_le _
    | some k =>
      rw [hp] at hprecision
      exact le_trans (Nat.le_add_right _ _) hprecision
  have hpad : padZeros (l.precision.getD 0) (ntoaBufferSize - (written flags base n).length)
      (written flags base n) = l.number flags.uppercase base n := by
    rw [padZeros_eq _ _ _ (by omega), min_eq_left hprec, leftpad_written hs]
  have hnumber : (l.number flags.uppercase base n).length ≤ ntoaBufferSize := by
    rw [number_length]
    exact max_le (by omega) (by omega)
  rw [padNumber, hs.left, hminus, if_neg Bool.false_ne_true]
  dsimp only
  rw [hpad]
  cases hzero : flags.zeropad with
  | false => simp
  | true =>
    have hwidth := zeroWidth negative hs hzero
    rw [hzero] at hwidth
    rw [if_pos rfl, if_pos rfl, hwidth]
    have hbound : l.width - (l.sign negative).length ≤ ntoaBufferSize := by
      have hboth := hs.zeropad.symm.trans hzero
      rw [Bool.and_eq_true, Option.isNone_iff_eq_none] at hboth
      have h := hf.width hboth.1 hminus hboth.2
      omega
    rw [padZeros_eq _ _ _ (by omega), min_eq_left hbound]

/-- The text once the digits are padded and the sign has its place. -/
theorem ntoaFormatText_signed (hs : l.Scanned flags) {buf buf' : NtoaBuf} {prec width width' : Nat}
    (hpad : padNumber buf negative prec width flags = (width', buf'))
    (hbuf : buf'.length + (l.sign negative).length ≤ ntoaBufferSize) :
    ntoaFormatText buf negative base prec width flags =
      some (outRevText (l.sign negative ++ buf') width' flags) := by
  have hash : hashNumber buf' base prec width' flags = some buf' := by
    rw [hashNumber, hs.hash]
    rfl
  rw [ntoaFormatText, hpad]
  dsimp only
  rw [hash, Option.bind_some, signNumber_eq hs hbuf, Option.map_some]

theorem ntoaFormatText_eq (hs : l.Scanned flags) (hf : l.Fits flags.uppercase base n negative) :
    ntoaFormatText (written flags base n) negative base (l.precision.getD 0) l.width flags =
      some (l.integer flags.uppercase base n negative) := by
  have hsize : ntoaBufferSize = 32 := rfl
  have hroom := hf.room
  have hsign := l.sign_length_le negative
  cases hminus : l.minus with
  | true =>
    have hnumber : (l.number flags.uppercase base n).length + (l.sign negative).length ≤ ntoaBufferSize := by
      have hleft := hf.left hminus
      rw [number_length]
      cases hp : l.precision with
      | none => simp only [Option.getD_none]; omega
      | some k =>
        have hk := hleft k hp
        simp only [Option.getD_some]
        omega
    rw [ntoaFormatText_signed hs (padNumber_left hs hf hminus) hnumber, outRevText, hs.left, if_pos hminus,
      integer, if_neg (fun h => Bool.noConfusion (hminus.symm.trans h.2.1)), field, if_pos hminus]
    rfl
  | false =>
    have hprecision := hf.precision hminus
    have hnumber : (l.number flags.uppercase base n).length + (l.sign negative).length ≤ ntoaBufferSize := by
      rw [number_length]
      omega
    have hpad := padNumber_right hs hf hminus
    cases hzero : flags.zeropad with
    | true =>
      have hboth := hs.zeropad.symm.trans hzero
      rw [Bool.and_eq_true, Option.isNone_iff_eq_none] at hboth
      have hwidth := hf.width hboth.1 hminus hboth.2
      have hpadded : (List.leftpad (l.width - (l.sign negative).length) (chr '0')
          (l.number flags.uppercase base n)).length + (l.sign negative).length ≤ ntoaBufferSize := by
        rw [List.length_leftpad]
        omega
      rw [if_pos hzero] at hpad
      rw [ntoaFormatText_signed hs hpad hpadded, outRevText, hs.left, hminus, if_neg Bool.false_ne_true,
        if_pos hzero, integer, if_pos ⟨hboth.1, hminus, hboth.2⟩]
    | false =>
      have hnone : ¬ (l.zero = true ∧ l.minus = false ∧ l.precision = none) := by
        rintro ⟨hz, _, hp⟩
        have h := hs.zeropad
        rw [hzero, hz, hp] at h
        cases h
      rw [hzero, if_neg Bool.false_ne_true] at hpad
      rw [ntoaFormatText_signed hs hpad hnumber, outRevText, hs.left, hminus, if_neg Bool.false_ne_true, hzero,
        if_neg Bool.false_ne_true, integer, if_neg hnone, field, hminus, if_neg Bool.false_ne_true]
      rfl

/-- `_ntoa_long` lays a number out as asked for. -/
theorem ntoaText_eq (hbase : 1 < base) (hs : l.Scanned flags) (hf : l.Fits flags.uppercase base n negative) :
    ntoaText n negative base (l.precision.getD 0) l.width flags =
      some (l.integer flags.uppercase base n negative) := by
  have hroom := hf.room
  have hflags : (if n = 0 then { flags with hash := false } else flags) = flags := by
    split_ifs
    · have hash := hs.hash
      cases flags
      simp only at hash
      simp only [hash]
    · rfl
  unfold ntoaText
  dsimp only
  rw [hflags, ntoaNumber_written hbase (by omega), Option.bind_some, ntoaFormatText_eq hs hf]

end Layout

end VijosOS
