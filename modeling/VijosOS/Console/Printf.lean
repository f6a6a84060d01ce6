import VijosOS.Utils
import VijosOS.Library.ByteMemory

/-!
# Formatted output

`printf.c` as the `Makefile` builds it, without floating point and without `long long`. The output
functions act on a state `σ`, and `idx` is passed along with it. A C string is the list of the bytes
from its pointer to the end of the object that holds it; `none` is a read behind that end, an
argument that was not passed or a store behind the end of `buf`.
-/

namespace VijosOS

open Library

/-- A character constant. -/
def chr (c : Char) : Byte := BitVec.ofNat 8 c.toNat

/-- A string literal. -/
def cstr (s : String) : List Byte := s.toList.map chr ++ [0]

abbrev ntoaBufferSize : Nat := 32

/-- The `FLAGS_` bits. -/
structure Flags where
  zeropad : Bool
  left : Bool
  plus : Bool
  space : Bool
  hash : Bool
  uppercase : Bool
  char : Bool
  short : Bool
  long : Bool
  longLong : Bool
  precision : Bool
  deriving DecidableEq

def Flags.none : Flags := ⟨false, false, false, false, false, false, false, false, false, false, false⟩

/-- A slot of the argument area and, where it holds a `char *`, the string it points to. -/
structure VaArg where
  word : BitVec 64
  chars : List Byte

/-! ## Output functions -/

/-- The arguments `character`, `idx` and `maxlen` of an output function. -/
abbrev OutFct (σ : Type) := Byte → Nat → Nat → σ → σ

section Output

variable {σ : Type}

def outBuffer (buffer : Nat) : OutFct Mem := fun character idx maxlen m =>
  if idx < maxlen then Function.update m (buffer + idx) character else m

def outNull : OutFct σ := fun _ _ _ s => s

def outChar (putchar : Byte → σ → σ) : OutFct σ := fun character _ _ s =>
  if character ≠ 0 then putchar character s else s

/-- `fct` and `arg` are the fields of the `out_fct_wrap_type` behind `buffer`. -/
def outFct {α : Type} (fct : Byte → α → σ → σ) (arg : α) : OutFct σ := fun character _ _ s =>
  if character ≠ 0 then fct character arg s else s

end Output

/-! ## Strings -/

/-- The bound `maxsize` counts down. -/
def strnlenS : Nat → List Byte → Option Nat
  | _, [] => none
  | 0, _ :: _ => some 0
  | maxsize + 1, c :: s => if c = 0 then some 0 else (strnlenS maxsize s).map (· + 1)

def isDigit (ch : Byte) : Bool := 0x30 ≤ ch.toNat && ch.toNat ≤ 0x39

def atoi (i : Nat) : List Byte → Option (Nat × List Byte)
  | [] => none
  | c :: s => if isDigit c then atoi ((i * 10 + (c.toNat - 0x30)) % 2 ^ 32) s else some (i, c :: s)

/-! ## Integers -/

-- The first `len` places of `buf`, the last one first: `buf[len++] = c` is `c :: buf`.
abbrev NtoaBuf := List Byte

-- One of the loops `while (len < n && len < PRINTF_NTOA_BUFFER_SIZE)`; there are `free` places left.
def padZeros (n : Nat) : Nat → NtoaBuf → NtoaBuf
  | 0, buf => buf
  | free + 1, buf =>
    if buf.length < n ∧ buf.length < ntoaBufferSize then padZeros n free (chr '0' :: buf) else buf

def storeChar (c : Byte) (buf : NtoaBuf) : Option NtoaBuf :=
  if buf.length < ntoaBufferSize then some (c :: buf) else none

/-- `_ntoa_format` up to the hash: the width and the padded number. -/
def padNumber (buf : NtoaBuf) (negative : Bool) (prec width : Nat) (flags : Flags) : Nat × NtoaBuf :=
  if flags.left then (width, buf)
  else
    let width := if width ≠ 0 ∧ flags.zeropad ∧ (negative ∨ flags.plus ∨ flags.space) then width - 1
      else width
    let buf := padZeros prec (ntoaBufferSize - buf.length) buf
    (width, if flags.zeropad then padZeros width (ntoaBufferSize - buf.length) buf else buf)

-- The zeros that make room for the prefix.
def dropZeros (buf : NtoaBuf) (base prec width : Nat) (flags : Flags) : NtoaBuf :=
  if !flags.precision && buf.length ≠ 0 && (buf.length = prec || buf.length = width) then
    let buf := buf.tail
    if buf.length ≠ 0 ∧ base = 16 then buf.tail else buf
  else buf

def storeBase (buf : NtoaBuf) (base : Nat) (flags : Flags) : Option NtoaBuf :=
  if base = 16 ∧ !flags.uppercase ∧ buf.length < ntoaBufferSize then storeChar (chr 'x') buf
  else if base = 16 ∧ flags.uppercase ∧ buf.length < ntoaBufferSize then storeChar (chr 'X') buf
  else if base = 2 ∧ buf.length < ntoaBufferSize then storeChar (chr 'b') buf
  else some buf

/-- The part of `_ntoa_format` under "handle hash". -/
def hashNumber (buf : NtoaBuf) (base prec width : Nat) (flags : Flags) : Option NtoaBuf :=
  if flags.hash then
    (storeBase (dropZeros buf base prec width flags) base flags).bind fun buf =>
      if buf.length < ntoaBufferSize then storeChar (chr '0') buf else some buf
  else some buf

/-- The sign. -/
def signNumber (buf : NtoaBuf) (negative : Bool) (flags : Flags) : Option NtoaBuf :=
  if buf.length < ntoaBufferSize then
    if negative then storeChar (chr '-') buf
    else if flags.plus then storeChar (chr '+') buf
    else if flags.space then storeChar (chr ' ') buf
    else some buf
  else some buf

-- The loop of `_ntoa_long`; there are `free` places left.
def ntoaDigits (base : Nat) (flags : Flags) : Nat → Nat → NtoaBuf → Option NtoaBuf
  | 0, _, _ => none
  | free + 1, value, buf =>
    let digit := value % base
    let c := if digit < 10 then (chr '0').toNat + digit
      else (if flags.uppercase then (chr 'A').toNat else (chr 'a').toNat) + digit - 10
    let buf := BitVec.ofNat 8 c :: buf
    if value / base ≠ 0 ∧ buf.length < ntoaBufferSize then ntoaDigits base flags free (value / base) buf
    else some buf

-- "write if precision != 0 and value is != 0"
def ntoaNumber (value base : Nat) (flags : Flags) : Option NtoaBuf :=
  if !flags.precision ∨ value ≠ 0 then ntoaDigits base flags ntoaBufferSize value [] else some []

section Formatting

variable {σ : Type} (out : OutFct σ) (maxlen : Nat)

-- `out(c, buffer, idx++, maxlen)`
def put (c : Byte) (p : Nat × σ) : Nat × σ := (p.1 + 1, out c p.1 maxlen p.2)

def putSpaces : Nat → Nat × σ → Nat × σ
  | 0, p => p
  | n + 1, p => putSpaces n (put out maxlen (chr ' ') p)

-- `while (len) out(buf[--len], buffer, idx++, maxlen)`
def putReversed : NtoaBuf → Nat × σ → Nat × σ
  | [], p => p
  | c :: buf, p => putReversed buf (put out maxlen c p)

def outRev (buf : NtoaBuf) (width : Nat) (flags : Flags) (p : Nat × σ) : Nat × σ :=
  let startIdx := p.1
  let p := if !flags.left && !flags.zeropad then putSpaces out maxlen (width - buf.length) p else p
  let p := putReversed out maxlen buf p
  if flags.left then putSpaces out maxlen (width - (p.1 - startIdx)) p else p

def ntoaFormat (buf : NtoaBuf) (negative : Bool) (base prec width : Nat) (flags : Flags)
    (p : Nat × σ) : Option (Nat × σ) :=
  let (width, buf) := padNumber buf negative prec width flags
  (hashNumber buf base prec width flags).bind fun buf =>
    (signNumber buf negative flags).map fun buf => outRev out maxlen buf width flags p

def ntoaLong (value : Nat) (negative : Bool) (base prec width : Nat) (flags : Flags)
    (p : Nat × σ) : Option (Nat × σ) :=
  -- "no hash for 0 values"
  let flags := if value = 0 then { flags with hash := false } else flags
  (ntoaNumber value base flags).bind fun buf =>
    ntoaFormat out maxlen buf negative base prec width flags p

end Formatting

/-! ## The format string -/

/-- `va_arg(va, int)` -/
def vaInt : List VaArg → Option (BitVec 32 × List VaArg)
  | [] => none
  | arg :: va => some (arg.word.setWidth 32, va)

def evalFlags (flags : Flags) : List Byte → Option (Flags × List Byte)
  | [] => none
  | c :: format =>
    if c = chr '0' then evalFlags { flags with zeropad := true } format
    else if c = chr '-' then evalFlags { flags with left := true } format
    else if c = chr '+' then evalFlags { flags with plus := true } format
    else if c = chr ' ' then evalFlags { flags with space := true } format
    else if c = chr '#' then evalFlags { flags with hash := true } format
    else some (flags, c :: format)

/-- The flags, the width or the precision, the rest of the format and the arguments left. -/
structure Field where
  flags : Flags
  value : Nat
  format : List Byte
  va : List VaArg

def evalWidth (flags : Flags) (va : List VaArg) : List Byte → Option Field
  | [] => none
  | c :: format =>
    if isDigit c then (atoi 0 (c :: format)).map fun r => ⟨flags, r.1, r.2, va⟩
    else if c = chr '*' then (vaInt va).map fun r =>
      if r.1.toInt < 0 then ⟨{ flags with left := true }, (-r.1).toNat, format, r.2⟩
      else ⟨flags, r.1.toNat, format, r.2⟩
    else some ⟨flags, 0, c :: format, va⟩

def evalPrecision (flags : Flags) (va : List VaArg) : List Byte → Option Field
  | [] => none
  | [c] => if c = chr '.' then none else some ⟨flags, 0, [c], va⟩
  | c :: d :: format =>
    if c = chr '.' then
      let flags := { flags with precision := true }
      if isDigit d then (atoi 0 (d :: format)).map fun r => ⟨flags, r.1, r.2, va⟩
      else if d = chr '*' then (vaInt va).map fun r =>
        ⟨flags, if 0 < r.1.toInt then r.1.toNat else 0, format, r.2⟩
      else some ⟨flags, 0, d :: format, va⟩
    else some ⟨flags, 0, c :: d :: format, va⟩

-- `ptrdiff_t`, `intmax_t` and `size_t` have the size of `long`.
def evalLength (flags : Flags) : List Byte → Option (Flags × List Byte)
  | [] => none
  | c :: format =>
    if c = chr 'l' then
      match format with
      | [] => none
      | d :: rest => if d = chr 'l' then some ({ flags with long := true, longLong := true }, rest)
        else some ({ flags with long := true }, d :: rest)
    else if c = chr 'h' then
      match format with
      | [] => none
      | d :: rest => if d = chr 'h' then some ({ flags with short := true, char := true }, rest)
        else some ({ flags with short := true }, d :: rest)
    else if c = chr 't' ∨ c = chr 'j' ∨ c = chr 'z' then some ({ flags with long := true }, format)
    else some (flags, c :: format)

def isInteger (c : Byte) : Bool :=
  c = chr 'd' || c = chr 'i' || c = chr 'u' || c = chr 'x' || c = chr 'X' || c = chr 'o' || c = chr 'b'

def isSigned (c : Byte) : Bool := c = chr 'i' || c = chr 'd'

def integerBase (c : Byte) : Nat :=
  if c = chr 'x' ∨ c = chr 'X' then 16 else if c = chr 'o' then 8 else if c = chr 'b' then 2 else 10

def integerFlags (c : Byte) (flags : Flags) : Flags :=
  let flags := if integerBase c = 10 then { flags with hash := false } else flags
  let flags := if c = chr 'X' then { flags with uppercase := true } else flags
  let flags := if isSigned c then flags else { flags with plus := false, space := false }
  if flags.precision then { flags with zeropad := false } else flags

-- `(unsigned)(value > 0 ? value : 0 - value)`
def magnitude {w : Nat} (value : BitVec w) : Nat := if 0 < value.toInt then value.toNat else (0 - value).toNat

/-- The argument of `_ntoa_long` and its sign; plain `char` is unsigned. -/
def integerValue (flags : Flags) (signed : Bool) (word : BitVec 64) : Nat × Bool :=
  if signed then
    if flags.long then (magnitude word, decide (word.toInt < 0))
    else
      let value : BitVec 32 :=
        if flags.char then (word.setWidth 8).setWidth 32
        else if flags.short then (word.setWidth 16).signExtend 32
        else word.setWidth 32
      (magnitude value, decide (value.toInt < 0))
  else if flags.long then (word.toNat, false)
  else if flags.char then ((word.setWidth 8).toNat, false)
  else if flags.short then ((word.setWidth 16).toNat, false)
  else ((word.setWidth 32).toNat, false)

section Formatting

variable {σ : Type} (out : OutFct σ) (maxlen : Nat)

/-- The specifiers `d`, `i`, `u`, `x`, `X`, `o` and `b`. -/
def evalInteger (c : Byte) (flags : Flags) (width precision : Nat) (va : List VaArg) (p : Nat × σ) :
    Option (List VaArg × (Nat × σ)) :=
  let flags := integerFlags c flags
  -- without `long long` there is neither a conversion nor an argument
  if flags.longLong then some (va, p)
  else
    match va with
    | [] => none
    | arg :: va =>
      let (value, negative) := integerValue flags (isSigned c) arg.word
      (ntoaLong out maxlen value negative (integerBase c) precision width flags p).map fun p => (va, p)

def evalChar (flags : Flags) (width : Nat) (va : List VaArg) (p : Nat × σ) :
    Option (List VaArg × (Nat × σ)) :=
  match va with
  | [] => none
  | arg :: va =>
    let p := if flags.left then p else putSpaces out maxlen (width - 1) p
    let p := put out maxlen (arg.word.setWidth 8) p
    some (va, if flags.left then putSpaces out maxlen (width - 1) p else p)

-- `while ((*p != 0) && (!(flags & FLAGS_PRECISION) || precision--))`
def putString (bounded : Bool) : Nat → List Byte → Nat × σ → Option (Nat × σ)
  | _, [], _ => none
  | 0, c :: s, p =>
    if c = 0 ∨ bounded then some p else putString bounded 0 s (put out maxlen c p)
  | precision + 1, c :: s, p =>
    if c = 0 then some p else putString bounded precision s (put out maxlen c p)

def evalString (flags : Flags) (width precision : Nat) (va : List VaArg) (p : Nat × σ) :
    Option (List VaArg × (Nat × σ)) :=
  match va with
  | [] => none
  | arg :: va => do
    let l ← strnlenS (if precision ≠ 0 then precision else 2 ^ 64 - 1) arg.chars
    let l := l % 2 ^ 32
    let l := if flags.precision then (if l < precision then l else precision) else l
    let p := if flags.left then p else putSpaces out maxlen (width - l) p
    let p ← putString out maxlen flags.precision precision arg.chars p
    some (va, if flags.left then putSpaces out maxlen (width - l) p else p)

def evalPointer (flags : Flags) (precision : Nat) (va : List VaArg) (p : Nat × σ) :
    Option (List VaArg × (Nat × σ)) :=
  match va with
  | [] => none
  | arg :: va =>
    (ntoaLong out maxlen arg.word.toNat false 16 precision 16
      { flags with zeropad := true, uppercase := true } p).map fun p => (va, p)

def evalSpecifier (c : Byte) (flags : Flags) (width precision : Nat) (va : List VaArg) (p : Nat × σ) :
    Option (List VaArg × (Nat × σ)) :=
  if isInteger c then evalInteger out maxlen c flags width precision va p
  else if c = chr 'c' then evalChar out maxlen flags width va p
  else if c = chr 's' then evalString out maxlen flags width precision va p
  else if c = chr 'p' then evalPointer out maxlen flags precision va p
  else if c = chr '%' then some (va, put out maxlen (chr '%') p)
  else some (va, put out maxlen c p)

/-- What follows a `%`. -/
def evalDirective (format : List Byte) (va : List VaArg) (p : Nat × σ) :
    Option (List Byte × List VaArg × (Nat × σ)) := do
  let (flags, format) ← evalFlags Flags.none format
  let w ← evalWidth flags va format
  let prec ← evalPrecision w.flags w.va w.format
  let (flags, format) ← evalLength prec.flags prec.format
  match format with
  | [] => none
  | c :: format =>
    (evalSpecifier out maxlen c flags w.value prec.value prec.va p).map fun r => (format, r.1, r.2)

-- The loop `while (*format)`; every iteration reads at least one byte of the `n` that are left.
def vsnprintfLoop : Nat → List Byte → List VaArg → Nat × σ → Option (Nat × σ)
  | 0, _, _, _ => none
  | _ + 1, [], _, _ => none
  | n + 1, c :: format, va, p =>
    if c = 0 then some p
    else if c ≠ chr '%' then vsnprintfLoop n format va (put out maxlen c p)
    else (evalDirective out maxlen format va p).bind fun r => vsnprintfLoop n r.1 r.2.1 r.2.2

end Formatting

/-! ## The interface -/

section Interface

variable {σ : Type}

/-- `out` is applied to `buffer`, unless that is `NULL`. -/
def vsnprintf (out : Nat → OutFct σ) (buffer : Option Nat) (maxlen : BitVec 64) (format : List Byte)
    (va : List VaArg) (s : σ) : Option (Int × σ) :=
  let out := match buffer with
    | none => outNull
    | some a => out a
  (vsnprintfLoop out maxlen.toNat format.length format va (0, s)).map fun p =>
    ((BitVec.ofNat 32 p.1).toInt,
      out 0 (if p.1 < maxlen.toNat then p.1 else (maxlen - 1).toNat) maxlen.toNat p.2)

-- The local `buffer` of `printf_` is not accessed.
def printf_ (putchar : Byte → σ → σ) (format : List Byte) (va : List VaArg) (s : σ) : Option (Int × σ) :=
  vsnprintf (fun _ => outChar putchar) (some 0) (BitVec.allOnes 64) format va s

def sprintf_ (buffer : Option Nat) (format : List Byte) (va : List VaArg) (m : Mem) : Option (Int × Mem) :=
  vsnprintf outBuffer buffer (BitVec.allOnes 64) format va m

def snprintf_ (buffer : Option Nat) (count : BitVec 64) (format : List Byte) (va : List VaArg) (m : Mem) :
    Option (Int × Mem) :=
  vsnprintf outBuffer buffer count format va m

def fctprintf {α : Type} (fct : Byte → α → σ → σ) (arg : α) (format : List Byte) (va : List VaArg) (s : σ) :
    Option (Int × σ) :=
  vsnprintf (fun _ => outFct fct arg) (some 0) (BitVec.allOnes 64) format va s

end Interface

end VijosOS
