/-!
Decimal writing of binary64 numbers. A finite number is decoded into `± m * 2 ^ e` and rounded in
exact arithmetic, a half going to the even neighbour; the writers differ only in how many digits
they keep and when they change to an exponent.
-/

namespace TypeDiagram.Number

inductive Binary where
  /-- The number `± mantissa * 2 ^ exponent`. -/
  | finite (negative : Bool) (mantissa : Nat) (exponent : Int)
  | infinite (negative : Bool)
  | nan
deriving DecidableEq, Repr

def Binary.ofFloat (x : Float) : Binary :=
  let bits := x.toBits.toNat
  let negative := bits / Nat.pow 2 63 == 1
  let biased : Nat := bits / Nat.pow 2 52 % Nat.pow 2 11
  let fraction := bits % Nat.pow 2 52
  if biased == 2047 then if fraction == 0 then .infinite negative else .nan
  else if biased == 0 then .finite negative fraction (-1074)
  else .finite negative (Nat.pow 2 52 + fraction) ((biased : Int) - 1075)

def roundDiv (num den : Nat) : Nat :=
  let q := num / den
  let r := num % den
  if 2 * r < den || (2 * r == den && q % 2 == 0) then q else q + 1

/-- A positive fraction `num / den`. -/
structure Ratio where
  num : Nat
  den : Nat
deriving DecidableEq, Repr

namespace Ratio

def ofBinary (m : Nat) (e : Int) : Ratio :=
  if e < 0 then ⟨m, Nat.pow 2 e.natAbs⟩ else ⟨m * Nat.pow 2 e.natAbs, 1⟩

def scale (r : Ratio) (e : Int) : Ratio :=
  if e < 0 then ⟨r.num, r.den * Nat.pow 10 e.natAbs⟩ else ⟨r.num * Nat.pow 10 e.natAbs, r.den⟩

def round (r : Ratio) : Nat := roundDiv r.num r.den

def leadingZeros : (fuel num den : Nat) → Nat
  | 0, _, _ => 0
  | fuel + 1, num, den => if den ≤ num then 0 else leadingZeros fuel (10 * num) den + 1

/-- The exponent of the leading decimal digit of a positive value not below `10 ^ (-400)`. -/
def leadingExponent (r : Ratio) : Int :=
  if r.den ≤ r.num then (Nat.toDigits 10 (r.num / r.den)).length - 1
  else -(leadingZeros 400 r.num r.den : Int)

end Ratio

/-- A decimal number `digits * 10 ^ exponent`. -/
structure Decimal where
  digits : Nat
  exponent : Int
deriving DecidableEq, Repr

namespace Decimal

/-- A positive value rounded to `count` significant digits; the carry of `9.99…` adds one digit. -/
def round (count : Nat) (r : Ratio) : Decimal :=
  let e := r.leadingExponent - (count - 1 : Nat)
  ⟨(r.scale (-e)).round, e⟩

/-- The two neighbours of a positive value on the grid of `count` significant digits. -/
def neighbours (count : Nat) (r : Ratio) : List Decimal :=
  let e := r.leadingExponent - (count - 1 : Nat)
  let s := r.scale (-e)
  let below := s.num / s.den
  let nearFirst := if s.num % s.den * 2 ≤ s.den then [below, below + 1] else [below + 1, below]
  nearFirst.map fun digits => ⟨digits, e⟩

def dropZeros (d : Decimal) : Decimal :=
  let zeros := ((Nat.toDigits 10 d.digits).reverse.takeWhile (· == '0')).length
  if d.digits == 0 then ⟨0, 0⟩ else ⟨d.digits / Nat.pow 10 zeros, d.exponent + zeros⟩

def leadingExponent (d : Decimal) : Int :=
  (Nat.toDigits 10 d.digits).length - 1 + d.exponent

/-- All digits around a point, at least one before it, and a point only before a digit. -/
def positional (d : Decimal) : String :=
  let ds := Nat.toDigits 10 d.digits
  if 0 ≤ d.exponent then String.ofList (ds ++ List.replicate d.exponent.natAbs '0')
  else
    let places := d.exponent.natAbs
    let padded := List.replicate (places + 1 - ds.length) '0' ++ ds
    let whole := padded.take (padded.length - places)
    String.ofList (whole ++ '.' :: padded.drop (padded.length - places))

/-- One digit before the point, then `e`, a sign and an exponent of at least two digits. -/
def scientific (d : Decimal) : String :=
  let ds := Nat.toDigits 10 d.digits
  let e := d.leadingExponent
  let mark := if e < 0 then ['e', '-'] else ['e', '+']
  let es := Nat.toDigits 10 e.natAbs
  let power := mark ++ List.replicate (2 - es.length) '0' ++ es
  match ds with
  | [] => String.ofList power
  | [c] => String.ofList (c :: power)
  | c :: cs => String.ofList (c :: '.' :: cs ++ power)

end Decimal

def signed (negative : Bool) (s : String) : String :=
  if negative then "-" ++ s else s

/-- At most six significant digits without zeros at the end; positional where the leading digit
stands for at least `10 ^ (-4)` and less than `10 ^ 6`. -/
def general (x : Float) : String :=
  match Binary.ofFloat x with
  | .nan => "nan"
  | .infinite negative => signed negative "inf"
  | .finite negative m e =>
    if m == 0 then signed negative "0"
    else
      let d := (Decimal.round 6 (Ratio.ofBinary m e)).dropZeros
      let leading := d.leadingExponent
      signed negative (if -4 ≤ leading && leading < 6 then d.positional else d.scientific)

/-- The nearest of the decimals with the fewest digits that read back as the same number. -/
def shortestDecimal (x : Float) (r : Ratio) : Decimal :=
  let readsBack (d : Decimal) :=
    Float.ofScientific d.digits (d.exponent < 0) d.exponent.natAbs == x
  let grids := (List.range 17).map fun i => Decimal.neighbours (i + 1) r
  ((grids.flatMap id).find? readsBack |>.getD (Decimal.round 17 r)).dropZeros

/-- The fewest digits that read back as the same number, with at least one place after the point;
positional where the leading digit stands for at least `10 ^ (-4)` and less than `10 ^ 16`. -/
def shortest (x : Float) : String :=
  match Binary.ofFloat x with
  | .nan => "NaN"
  | .infinite negative => signed negative "Infinity"
  | .finite negative m e =>
    if m == 0 then signed negative "0.0"
    else
      let d := shortestDecimal x.abs (Ratio.ofBinary m e)
      let leading := d.leadingExponent
      signed negative <|
        if -4 ≤ leading && leading < 16 then
          if 0 ≤ d.exponent then d.positional ++ ".0" else d.positional
        else d.scientific

/-- The whole multiple of `10 ^ (-places)` nearest to `m * 2 ^ e`. -/
def roundToPlaces (places : Nat) (m : Nat) (e : Int) : Nat :=
  ((Ratio.ofBinary m e).scale places).round

end TypeDiagram.Number
