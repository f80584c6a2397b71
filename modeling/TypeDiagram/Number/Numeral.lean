import TypeDiagram.Text.Cut

/-!
Numbers written in text. `Numeral.read?` accepts an optional sign before a decimal fraction with an
optional exponent, or before one of the words `inf`, `infinity` and `nan` in any case. Blanks may
surround the number, digits may be of any script, and a single low line may stand between two
digits.
-/

namespace TypeDiagram

/-! ## Decimal digits -/

/-- The code points of the characters of category Nd with value zero, ascending. Unicode 14 has the
ten digits of a script in ascending order. -/
def Text.digitZeros : List Nat := [
  0x30, 0x660, 0x6f0, 0x7c0, 0x966, 0x9e6, 0xa66, 0xae6, 0xb66, 0xbe6, 0xc66, 0xce6, 0xd66, 0xde6,
  0xe50, 0xed0, 0xf20, 0x1040, 0x1090, 0x17e0, 0x1810, 0x1946, 0x19d0, 0x1a80, 0x1a90, 0x1b50,
  0x1bb0, 0x1c40, 0x1c50, 0xa620, 0xa8d0, 0xa900, 0xa9d0, 0xa9f0, 0xaa50, 0xabf0, 0xff10, 0x104a0,
  0x10d30, 0x11066, 0x110f0, 0x11136, 0x111d0, 0x112f0, 0x11450, 0x114d0, 0x11650, 0x116c0,
  0x11730, 0x118e0, 0x11950, 0x11c50, 0x11d50, 0x11da0, 0x16a60, 0x16ac0, 0x16b50, 0x1d7ce,
  0x1d7d8, 0x1d7e2, 0x1d7ec, 0x1d7f6, 0x1e140, 0x1e2f0, 0x1e950, 0x1fbf0]

/-- The value of a decimal digit of any script. -/
def Text.digitValue? (c : Char) : Option Nat :=
  (Text.digitZeros.find? fun first => first ≤ c.toNat && c.toNat < first + 10).map (c.toNat - ·)

namespace Number

/-! ## Numerals -/

inductive Numeral where
  /-- The number `± digits * 10 ^ exponent`. -/
  | finite (negative : Bool) (digits : Nat) (exponent : Int)
  | infinite (negative : Bool)
  | nan
deriving DecidableEq, Repr

namespace Numeral

/-- The blanks that may surround a numeral: the information separators are not among them. -/
def isMargin (c : Char) : Bool :=
  Text.isBlank c && !(0x1C ≤ c.toNat && c.toNat ≤ 0x1F)

/-- The characters with every decimal digit replaced by the ASCII digit of its value. -/
def asciiDigits (cs : List Char) : List Char :=
  cs.map fun c => match Text.digitValue? c with
    | some v => Char.ofNat ('0'.toNat + v)
    | none => c

/-- The characters without low lines, provided that each low line stands between two digits. -/
def joinDigits? (previous : Char) : List Char → Option (List Char)
  | [] => if previous == '_' then none else some []
  | c :: cs =>
    if c == '_' then
      if previous.isDigit then joinDigits? c cs else none
    else if previous == '_' && !c.isDigit then none
    else (joinDigits? c cs).map (c :: ·)

def natOf (cs : List Char) : Nat :=
  cs.foldl (fun n c => 10 * n + (c.toNat - '0'.toNat)) 0

def splitSign : List Char → Bool × List Char
  | '+' :: cs => (false, cs)
  | '-' :: cs => (true, cs)
  | cs => (false, cs)

def exponent? : List Char → Option Int
  | [] => some 0
  | c :: cs =>
    if c == 'e' || c == 'E' then
      let (negative, digits) := splitSign cs
      if digits.isEmpty || !digits.all Char.isDigit then none
      else some (if negative then -(natOf digits : Int) else natOf digits)
    else none

def fraction? (negative : Bool) (cs : List Char) : Option Numeral :=
  let whole := cs.takeWhile Char.isDigit
  let rest := cs.dropWhile Char.isDigit
  let (part, tail) := match rest with
    | '.' :: more => (more.takeWhile Char.isDigit, more.dropWhile Char.isDigit)
    | _ => ([], rest)
  if whole.isEmpty && part.isEmpty then none
  else (exponent? tail).map fun e => finite negative (natOf (whole ++ part)) (e - part.length)

def readBare? (cs : List Char) : Option Numeral :=
  let (negative, body) := splitSign cs
  let word := String.ofList (body.map Char.toLower)
  if word == "inf" || word == "infinity" then some (infinite negative)
  else if word == "nan" then some nan
  else fraction? negative body

def read? (s : String) : Option Numeral := do
  let bare ← joinDigits? ' ' (asciiDigits (Text.trimWhere isMargin s.toList))
  readBare? bare

/-- Beyond these decimal exponents of the leading digit every binary64 value is infinite or zero. -/
def exponentLimit : Int := 400

def toFloat : Numeral → Float
  | finite negative digits exponent =>
    let leading := (Nat.toDigits 10 digits).length + exponent
    let size :=
      if digits == 0 || leading < -exponentLimit then 0.0
      else if exponentLimit < leading then 1.0 / 0.0
      else Float.ofScientific digits (exponent < 0) exponent.natAbs
    if negative then -size else size
  | infinite negative => if negative then -1.0 / 0.0 else 1.0 / 0.0
  | nan => 0.0 / 0.0

def toRat? : Numeral → Option Rat
  | finite negative digits exponent =>
    let size : Rat :=
      if exponent < 0 then (digits : Rat) / (Nat.pow 10 exponent.natAbs : Nat)
      else (digits * Nat.pow 10 exponent.natAbs : Nat)
    some (if negative then -size else size)
  | _ => none

end Numeral

end Number

end TypeDiagram
