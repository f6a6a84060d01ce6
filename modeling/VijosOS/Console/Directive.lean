import VijosOS.Console.Conversion

/-!
# The language of formats

A format is written as a list of pieces, each with its arguments and the text it stands for.
`_vsnprintf` reads the written format and produces the texts one after the other.
-/

namespace VijosOS

open Library

/-! ## Pieces -/

inductive FlagChar
  | zero
  | minus
  | plus
  | space
  deriving DecidableEq

def FlagChar.char : FlagChar → Byte
  | zero => chr '0'
  | minus => chr '-'
  | plus => chr '+'
  | space => chr ' '

/-- A width, or what follows the point of a precision. -/
inductive FieldNumber
  | absent
  | digits (n : Nat)
  | star (arg : VaArg)

namespace FieldNumber

def text : FieldNumber → List Byte
  | absent => []
  | digits n => numeral false 10 n
  | star _ => [chr '*']

def args : FieldNumber → List VaArg
  | absent => []
  | digits _ => []
  | star arg => [arg]

def value : FieldNumber → Int
  | absent => 0
  | digits n => n
  | star arg => (arg.word.setWidth 32).toInt

def Bounded : FieldNumber → Prop
  | absent => True
  | digits n => n < 2 ^ 32
  | star _ => True

end FieldNumber

/-- What stands between `%` and the length. -/
structure Head where
  flags : List FlagChar
  width : FieldNumber
  precision : Option FieldNumber

namespace Head

def precisionText (h : Head) : List Byte :=
  match h.precision with
  | none => []
  | some f => chr '.' :: f.text

def precisionArgs (h : Head) : List VaArg :=
  match h.precision with
  | none => []
  | some f => f.args

/-- A negative width is a minus flag and a width. -/
def layout (h : Head) : Layout where
  minus := decide (.minus ∈ h.flags) || decide (h.width.value < 0)
  plus := decide (.plus ∈ h.flags)
  space := decide (.space ∈ h.flags)
  zero := decide (.zero ∈ h.flags)
  width := h.width.value.natAbs
  precision := h.precision.map fun f => f.value.toNat

/-- A width does not start with a zero, and a precision is not negative. -/
structure Valid (h : Head) : Prop where
  width : h.width.Bounded
  width_zero : h.width ≠ .digits 0
  precision : ∀ f ∈ h.precision, f.Bounded ∧ 0 ≤ f.value

end Head

inductive Length
  | int
  | hh
  | h
  | l
  | t
  | j
  | z
  deriving DecidableEq

def Length.text : Length → List Byte
  | int => []
  | hh => [chr 'h', chr 'h']
  | h => [chr 'h']
  | l => [chr 'l']
  | t => [chr 't']
  | j => [chr 'j']
  | z => [chr 'z']

inductive IntConv
  | d
  | i
  | u
  | x
  | X
  | o
  | b
  deriving DecidableEq

namespace IntConv

def char : IntConv → Byte
  | d => chr 'd'
  | i => chr 'i'
  | u => chr 'u'
  | x => chr 'x'
  | X => chr 'X'
  | o => chr 'o'
  | b => chr 'b'

def base : IntConv → Nat
  | d => 10
  | i => 10
  | u => 10
  | x => 16
  | X => 16
  | o => 8
  | b => 2

def signed : IntConv → Bool
  | d => true
  | i => true
  | _ => false

def upper (c : IntConv) : Bool := decide (c = X)

/-- The number an argument stands for. -/
def value (c : IntConv) (length : Length) (word : BitVec 64) : Int :=
  match length with
  | .int => if c.signed then (word.setWidth 32).toInt else (word.setWidth 32).toNat
  | .hh => if c.signed then (word.setWidth 8).toInt else (word.setWidth 8).toNat
  | .h => if c.signed then (word.setWidth 16).toInt else (word.setWidth 16).toNat
  | _ => if c.signed then word.toInt else word.toNat

end IntConv

/-- The characters before the terminator. -/
def cString (chars : List Byte) : List Byte := chars.takeWhile (· ≠ 0)

inductive Piece
  | char (c : Byte)
  | percent
  | integer (head : Head) (length : Length) (conv : IntConv) (arg : VaArg)
  | character (head : Head) (arg : VaArg)
  | string (head : Head) (arg : VaArg)
  | pointer (arg : VaArg)

namespace Piece

/-- How a piece is written in a format. -/
def format : Piece → List Byte
  | char c => [c]
  | percent => [chr '%', chr '%']
  | integer head length conv _ =>
    chr '%' :: head.flags.map FlagChar.char ++ (head.width.text ++ (head.precisionText ++
      (length.text ++ [conv.char])))
  | character head _ =>
    chr '%' :: head.flags.map FlagChar.char ++ (head.width.text ++ (head.precisionText ++ [chr 'c']))
  | string head _ =>
    chr '%' :: head.flags.map FlagChar.char ++ (head.width.text ++ (head.precisionText ++ [chr 's']))
  | pointer _ => [chr '%', chr 'p']

def args : Piece → List VaArg
  | char _ => []
  | percent => []
  | integer head _ _ arg => head.width.args ++ (head.precisionArgs ++ [arg])
  | character head arg => head.width.args ++ (head.precisionArgs ++ [arg])
  | string head arg => head.width.args ++ (head.precisionArgs ++ [arg])
  | pointer arg => [arg]

/-- The signs of a layout are for signed conversions. -/
def integerLayout (head : Head) (conv : IntConv) : Layout :=
  { head.layout with plus := head.layout.plus && conv.signed, space := head.layout.space && conv.signed }

/-- The text a piece stands for. -/
def text : Piece → List Byte
  | char c => [c]
  | percent => [chr '%']
  | integer head length conv arg =>
    (integerLayout head conv).integer conv.upper conv.base (conv.value length arg.word).natAbs
      (decide (conv.value length arg.word < 0))
  | character head arg => head.layout.field [arg.word.setWidth 8]
  | string head arg =>
    head.layout.field (match head.layout.precision with
      | none => cString arg.chars
      | some k => (cString arg.chars).take k)
  | pointer arg => padded true 16 16 arg.word.toNat

/-- `char` is unsigned, so that `hh` has no signed conversion. -/
def Valid : Piece → Prop
  | char c => c ≠ 0 ∧ c ≠ chr '%'
  | percent => True
  | integer head length conv arg => head.Valid ∧ (conv.signed = true → length ≠ .hh) ∧
      (integerLayout head conv).Fits conv.upper conv.base (conv.value length arg.word).natAbs
        (decide (conv.value length arg.word < 0))
  | character head _ => head.Valid
  | string head arg => head.Valid ∧ 0 ∈ arg.chars ∧ (cString arg.chars).length < 2 ^ 32
  | pointer _ => True

end Piece

def formatOf (pieces : List Piece) : List Byte := pieces.flatMap Piece.format
def argsOf (pieces : List Piece) : List VaArg := pieces.flatMap Piece.args
def textOf (pieces : List Piece) : List Byte := pieces.flatMap Piece.text

/-! ## Reading numbers -/

theorem isDigit_digitByte {d : Nat} (hd : d < 10) : isDigit (digitByte false d) = true := by
  have h : ∀ d : Fin 10, isDigit (digitByte false d) = true := by decide
  exact h ⟨d, hd⟩

theorem digitByte_toNat {d : Nat} (hd : d < 10) : (digitByte false d).toNat - 0x30 = d := by
  have h : ∀ d : Fin 10, (digitByte false d).toNat - 0x30 = d := by decide
  exact h ⟨d, hd⟩

theorem atoi_numeral (i n : Nat) (rest : List Byte) (hsmall : i * 10 ^ (Nat.digits 10 n).length + n < 2 ^ 32) :
    atoi i (numeral false 10 n ++ rest) = atoi (i * 10 ^ (Nat.digits 10 n).length + n) rest := by
  induction n using Nat.strong_induction_on generalizing rest with
  | _ n ih =>
    rcases Nat.eq_zero_or_pos n with rfl | hn
    · simp
    · have hmod : n % 10 < 10 := Nat.mod_lt _ (by decide)
      have hvalue : i * 10 ^ (Nat.digits 10 n).length + n =
          (i * 10 ^ (Nat.digits 10 (n / 10)).length + n / 10) * 10 + n % 10 := by
        rw [Nat.digits_def' (by decide) hn, List.length_cons, Nat.pow_succ, Nat.add_mul, Nat.mul_assoc]
        omega
      rw [hvalue] at hsmall ⊢
      rw [numeral_step false (by decide) hn, List.append_assoc, List.singleton_append,
        ih _ (Nat.div_lt_self hn (by decide)) _ (by omega), atoi, if_pos (isDigit_digitByte hmod),
        digitByte_toNat hmod, Nat.mod_eq_of_lt hsmall]

theorem atoi_stop {c : Byte} (hc : isDigit c = false) (i : Nat) (rest : List Byte) :
    atoi i (c :: rest) = some (i, c :: rest) := by
  rw [atoi, hc]
  rfl

theorem atoi_digits {n : Nat} (hn : n < 2 ^ 32) {c : Byte} (hc : isDigit c = false) (rest : List Byte) :
    atoi 0 (numeral false 10 n ++ c :: rest) = some (n, c :: rest) := by
  rw [atoi_numeral 0 n _ (by omega), atoi_stop hc, Nat.zero_mul, Nat.zero_add]

/-- A positive number does not start with a zero. -/
theorem numeral_head {n : Nat} (hn : 0 < n) :
    ∃ d text, 0 < d ∧ d < 10 ∧ numeral false 10 n = digitByte false d :: text := by
  induction n using Nat.strong_induction_on with
  | _ n ih =>
    rw [numeral_step false (by decide) hn]
    rcases Nat.eq_zero_or_pos (n / 10) with hlast | hmore
    · refine ⟨n % 10, [], by omega, Nat.mod_lt _ (by decide), ?_⟩
      rw [hlast, numeral_zero]
      rfl
    · obtain ⟨d, text, hpos, hd, htext⟩ := ih (n / 10) (Nat.div_lt_self hn (by decide)) hmore
      refine ⟨d, text ++ [digitByte false (n % 10)], hpos, hd, ?_⟩
      rw [htext]
      rfl

/-! ## Reading a head -/

/-- Specifiers and lengths are letters, what stands before them is not. -/
def IsLetter (c : Byte) : Prop := 0x41 ≤ c.toNat

instance (c : Byte) : Decidable (IsLetter c) := inferInstanceAs (Decidable (0x41 ≤ c.toNat))

theorem IsLetter.ne {c d : Byte} (hc : IsLetter c) (hd : d.toNat < 0x41) : c ≠ d := by
  rintro rfl
  exact absurd hc (Nat.not_le.mpr hd)

theorem IsLetter.not_digit {c : Byte} (hc : IsLetter c) : isDigit c = false := by
  have h : ¬ c.toNat ≤ 0x39 := fun h => absurd hc (by unfold IsLetter; omega)
  simp [isDigit, h]

section Head

variable (flags : Flags) (va : List VaArg) {c : Byte} {rest : List Byte}

theorem evalFlags_chars (fs : List FlagChar) (hc : ∀ d ∈ [chr '0', chr '-', chr '+', chr ' ', chr '#'], c ≠ d) :
    evalFlags flags (fs.map FlagChar.char ++ c :: rest) = some (
      { flags with
        zeropad := flags.zeropad || decide (.zero ∈ fs)
        left := flags.left || decide (.minus ∈ fs)
        plus := flags.plus || decide (.plus ∈ fs)
        space := flags.space || decide (.space ∈ fs) }, c :: rest) := by
  induction fs generalizing flags with
  | nil =>
    have hstop : evalFlags flags (c :: rest) = some (flags, c :: rest) := by
      rw [evalFlags, if_neg (hc _ (by simp)), if_neg (hc _ (by simp)), if_neg (hc _ (by simp)),
        if_neg (hc _ (by simp)), if_neg (hc _ (by simp))]
    simpa using hstop
  | cons f fs ih =>
    cases f with
    | zero =>
      have hstep : evalFlags flags (chr '0' :: (fs.map FlagChar.char ++ c :: rest)) =
        evalFlags { flags with zeropad := true } (fs.map FlagChar.char ++ c :: rest) := rfl
      refine hstep.trans ((ih _).trans ?_)
      simp
    | minus =>
      have hstep : evalFlags flags (chr '-' :: (fs.map FlagChar.char ++ c :: rest)) =
        evalFlags { flags with left := true } (fs.map FlagChar.char ++ c :: rest) := rfl
      refine hstep.trans ((ih _).trans ?_)
      simp
    | plus =>
      have hstep : evalFlags flags (chr '+' :: (fs.map FlagChar.char ++ c :: rest)) =
        evalFlags { flags with plus := true } (fs.map FlagChar.char ++ c :: rest) := rfl
      refine hstep.trans ((ih _).trans ?_)
      simp
    | space =>
      have hstep : evalFlags flags (chr ' ' :: (fs.map FlagChar.char ++ c :: rest)) =
        evalFlags { flags with space := true } (fs.map FlagChar.char ++ c :: rest) := rfl
      refine hstep.trans ((ih _).trans ?_)
      simp

/-- The arguments of `star` as `_vsnprintf` takes them. -/
theorem toNat_natAbs {w : Nat} (v : BitVec w) :
    (v.toInt < 0 → (-v).toNat = v.toInt.natAbs) ∧ (0 ≤ v.toInt → v.toNat = v.toInt.natAbs) := by
  have hlt := v.isLt
  have hneg : (-v).toNat = (2 ^ w - v.toNat) % 2 ^ w := BitVec.toNat_neg v
  have hint := BitVec.toInt_eq_toNat_cond v
  constructor
  · intro h
    split_ifs at hint with hsmall
    · omega
    · rw [hneg, Nat.mod_eq_of_lt (by omega)]
      omega
  · intro h
    split_ifs at hint with hsmall
    · omega
    · omega

theorem Flags.orLeft_false : { flags with left := flags.left || false } = flags := by
  rw [Bool.or_false]

theorem Flags.orLeft_true : { flags with left := flags.left || true } = { flags with left := true } := by
  rw [Bool.or_true]

theorem evalWidth_eq (f : FieldNumber) (hf : f.Bounded) (hzero : f ≠ .digits 0) (hdigit : isDigit c = false)
    (hstar : c ≠ chr '*') :
    evalWidth flags (f.args ++ va) (f.text ++ c :: rest) = some
      ⟨{ flags with left := flags.left || decide (f.value < 0) }, f.value.natAbs, c :: rest, va⟩ := by
  cases f with
  | absent =>
    show evalWidth flags va (c :: rest) = _
    rw [evalWidth, if_neg (by simp [hdigit]), if_neg hstar]
    simp [FieldNumber.value]
  | digits n =>
    have hn : 0 < n := by
      rcases Nat.eq_zero_or_pos n with rfl | hn
      · exact absurd rfl hzero
      · exact hn
    obtain ⟨d, text, _, hd, htext⟩ := numeral_head hn
    have hread := atoi_digits hf hdigit rest
    show evalWidth flags va (numeral false 10 n ++ c :: rest) = _
    rw [htext, List.cons_append] at hread ⊢
    have hvalue : decide ((FieldNumber.digits n).value < 0) = false :=
      decide_eq_false (Int.not_lt.mpr (Int.natCast_nonneg n))
    rw [evalWidth, if_pos (isDigit_digitByte hd), hread, hvalue, Flags.orLeft_false]
    rfl
  | star arg =>
    obtain ⟨hneg, hpos⟩ := toNat_natAbs (arg.word.setWidth 32)
    have hstep : evalWidth flags (arg :: va) (chr '*' :: c :: rest) =
      some (if (arg.word.setWidth 32).toInt < 0
        then ⟨{ flags with left := true }, (-(arg.word.setWidth 32)).toNat, c :: rest, va⟩
        else ⟨flags, (arg.word.setWidth 32).toNat, c :: rest, va⟩) := rfl
    refine hstep.trans ?_
    by_cases h : (arg.word.setWidth 32).toInt < 0
    · have hvalue : decide ((FieldNumber.star arg).value < 0) = true := decide_eq_true h
      rw [if_pos h, hneg h, hvalue, Flags.orLeft_true]
      rfl
    · have hvalue : decide ((FieldNumber.star arg).value < 0) = false := decide_eq_false h
      rw [if_neg h, hpos (Int.not_lt.mp h), hvalue, Flags.orLeft_false]
      rfl

theorem evalPrecision_none (hc : c ≠ chr '.') :
    evalPrecision flags va (c :: rest) = some ⟨flags, 0, c :: rest, va⟩ := by
  cases rest with
  | nil => exact if_neg hc
  | cons d rest => exact if_neg hc

theorem evalPrecision_some (f : FieldNumber) (hf : f.Bounded) (hnonneg : 0 ≤ f.value) (hc : IsLetter c) :
    evalPrecision flags (f.args ++ va) (chr '.' :: (f.text ++ c :: rest)) = some
      ⟨{ flags with precision := true }, f.value.toNat, c :: rest, va⟩ := by
  have hempty : evalPrecision flags va (chr '.' :: c :: rest) =
      some ⟨{ flags with precision := true }, 0, c :: rest, va⟩ := by
    rw [evalPrecision, if_pos rfl, hc.not_digit, if_neg Bool.false_ne_true, if_neg (hc.ne (by decide))]
  cases f with
  | absent => exact hempty
  | digits n =>
    rcases Nat.eq_zero_or_pos n with rfl | hn
    · show evalPrecision flags va (chr '.' :: (numeral false 10 0 ++ c :: rest)) = _
      rw [numeral_zero]
      exact hempty
    · obtain ⟨d, text, _, hd, htext⟩ := numeral_head hn
      have hread := atoi_digits hf hc.not_digit rest
      show evalPrecision flags va (chr '.' :: (numeral false 10 n ++ c :: rest)) = _
      rw [htext, List.cons_append] at hread ⊢
      rw [evalPrecision, if_pos rfl, if_pos (isDigit_digitByte hd), hread]
      simp [FieldNumber.value]
  | star arg =>
    obtain ⟨_, hpos⟩ := toNat_natAbs (arg.word.setWidth 32)
    have hvalue : (if 0 < (arg.word.setWidth 32).toInt then (arg.word.setWidth 32).toNat else 0) =
        (arg.word.setWidth 32).toInt.toNat := by
      have hnonneg : 0 ≤ (arg.word.setWidth 32).toInt := hnonneg
      have h := hpos hnonneg
      split_ifs <;> omega
    have hstep : evalPrecision flags (arg :: va) (chr '.' :: chr '*' :: c :: rest) =
      some ⟨{ flags with precision := true },
        if 0 < (arg.word.setWidth 32).toInt then (arg.word.setWidth 32).toNat else 0, c :: rest, va⟩ := rfl
    refine hstep.trans ?_
    rw [hvalue]
    rfl

end Head

/-- The flags `_vsnprintf` has set before the length. -/
def Head.scan (h : Head) : Flags :=
  { Flags.none with
    zeropad := h.layout.zero
    left := h.layout.minus
    plus := h.layout.plus
    space := h.layout.space
    precision := h.precision.isSome }

/-- The flags, the width and the precision are read as they are written. -/
theorem evalHead {h : Head} (hvalid : h.Valid) {c : Byte} (hc : IsLetter c) (rest : List Byte)
    (va : List VaArg) {β : Type} (k : Flags → Nat → Nat → List Byte → List VaArg → Option β) :
    ((evalFlags Flags.none (h.flags.map FlagChar.char ++ (h.width.text ++ (h.precisionText ++ c :: rest)))).bind
      fun r => (evalWidth r.1 (h.width.args ++ (h.precisionArgs ++ va)) r.2).bind fun w =>
        (evalPrecision w.flags w.va w.format).bind fun prec =>
          k prec.flags w.value prec.value prec.format prec.va) =
      k h.scan h.layout.width (h.layout.precision.getD 0) (c :: rest) va := by
  -- what follows the width is a point or the letter
  obtain ⟨e, after, hafter, hpoint⟩ : ∃ e after, h.precisionText ++ c :: rest = e :: after ∧
      (e = chr '.' ∨ IsLetter e) := by
    unfold Head.precisionText
    cases h.precision with
    | none => exact ⟨c, rest, rfl, Or.inr hc⟩
    | some f => exact ⟨chr '.', f.text ++ c :: rest, rfl, Or.inl rfl⟩
  have hdigit : isDigit e = false := by
    rcases hpoint with rfl | hletter
    · decide
    · exact hletter.not_digit
  have hstar : e ≠ chr '*' := by
    rcases hpoint with rfl | hletter
    · decide
    · exact hletter.ne (by decide)
  -- what follows the flags is no flag
  obtain ⟨g, next, hnext, hflag⟩ : ∃ g next, h.width.text ++ e :: after = g :: next ∧
      ∀ d ∈ [chr '0', chr '-', chr '+', chr ' ', chr '#'], g ≠ d := by
    have hpointFlag : ∀ d ∈ [chr '0', chr '-', chr '+', chr ' ', chr '#'], e ≠ d := by
      rcases hpoint with rfl | hletter
      · decide
      · have hall : ∀ d ∈ [chr '0', chr '-', chr '+', chr ' ', chr '#'], d.toNat < 0x41 := by decide
        exact fun d hd => hletter.ne (hall d hd)
    cases hwidth : h.width with
    | absent => exact ⟨e, after, rfl, hpointFlag⟩
    | digits n =>
      have hn : 0 < n := by
        rcases Nat.eq_zero_or_pos n with rfl | hn
        · exact absurd hwidth hvalid.width_zero
        · exact hn
      obtain ⟨d, text, hpos, hd, htext⟩ := numeral_head hn
      refine ⟨digitByte false d, text ++ e :: after, congrArg (· ++ e :: after) htext, ?_⟩
      have hall : ∀ d : Fin 10, 0 < d.val → ∀ x ∈ [chr '0', chr '-', chr '+', chr ' ', chr '#'],
          digitByte false d ≠ x := by decide
      exact hall ⟨d, hd⟩ hpos
    | star arg => exact ⟨chr '*', e :: after, rfl, by decide⟩
  have hflags := @evalFlags_chars Flags.none g next h.flags hflag
  rw [← hnext, ← hafter] at hflags
  rw [hflags, Option.bind_some]
  dsimp only
  rw [hafter, evalWidth_eq _ _ _ hvalid.width hvalid.width_zero hdigit hstar, Option.bind_some, ← hafter]
  dsimp only
  have hscan : ∀ flags : Flags, flags = { h.scan with precision := false } →
      (evalPrecision flags (h.precisionArgs ++ va) (h.precisionText ++ c :: rest)).bind
        (fun prec => k prec.flags h.width.value.natAbs prec.value prec.format prec.va) =
      k h.scan h.width.value.natAbs (h.layout.precision.getD 0) (c :: rest) va := by
    rintro _ rfl
    unfold Head.precisionArgs Head.precisionText Head.scan Head.layout
    cases hprec : h.precision with
    | none =>
      rw [List.nil_append, List.nil_append, evalPrecision_none _ _ (hc.ne (by decide))]
      rfl
    | some f =>
      obtain ⟨hf, hnonneg⟩ := hvalid.precision f hprec
      rw [List.cons_append, evalPrecision_some _ _ f hf hnonneg hc]
      rfl
  refine hscan _ ?_
  simp [Head.scan, Head.layout, Flags.none]

end VijosOS
