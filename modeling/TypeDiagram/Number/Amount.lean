import TypeDiagram.Number.Decimal
import TypeDiagram.Number.Numeral

/-!
Amounts: numbers that were counted or measured. A whole number is exact at any size.
-/

namespace TypeDiagram

inductive Amount where
  | whole (n : Int)
  | real (x : Float)

namespace Amount

/-- The exact value of a number; that of a binary number has a finite decimal writing. -/
def toNumeral : Amount → Number.Numeral
  | whole n => .finite (n < 0) n.natAbs 0
  | real x =>
    match Number.Binary.ofFloat x with
    | .nan => .nan
    | .infinite negative => .infinite negative
    | .finite negative m e =>
      if e < 0 then .finite negative (m * Nat.pow 5 e.natAbs) e
      else .finite negative (m * Nat.pow 2 e.natAbs) 0

/-- Is the whole number too large for binary64? Halfway from the greatest finite number to the next
power of two and beyond, rounding goes up. -/
def isTooLarge (n : Int) : Bool := Nat.pow 2 1024 - Nat.pow 2 970 ≤ n.natAbs

def toFloat : Amount → Float
  | whole n => (whole n).toNumeral.toFloat
  | real x => x

def isZero : Amount → Bool
  | whole n => n == 0
  | real x => x == 0

def written : Amount → String
  | whole n => toString n
  | real x => Number.shortest x

def shown : Amount → String
  | whole n => toString n
  | real x =>
    match Number.Binary.ofFloat x with
    | .nan => "nan"
    | .infinite negative => Number.signed negative "inf"
    | .finite .. => Number.shortest x

end Amount

end TypeDiagram
