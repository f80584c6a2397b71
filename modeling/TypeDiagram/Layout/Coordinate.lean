import TypeDiagram.Number.Magnitude

/-!
The arithmetic that drawing needs, and the points and extents of the plane, whose vertical axis
points down. Programs draw with binary64 numbers; statements about geometry that rounding would
spoil are made over the rational numbers, for the same functions.
-/

namespace TypeDiagram

/-- Numbers to draw with. `less` and `same` are tests, so that a number type may hold values that
are not comparable. -/
class Coordinate (α : Type) extends Magnitude α, Add α, Sub α, Mul α, Div α where
  less : α → α → Bool
  same : α → α → Bool
  /-- The number that a numeral writes, if the type has it. -/
  ofNumeral? : Number.Numeral → Option α
  /-- The exact value, if it is finite. -/
  toRat? : α → Option Rat

namespace Coordinate

export Magnitude (ofInt isZero nat)

variable {α : Type} [Coordinate α]

def half : α := (nat 1 : α) / nat 2

/-- The greater number; the first one unless the second is greater. -/
def max (a b : α) : α := if less a b then b else a

/-- The smaller number; the first one unless the second is smaller. -/
def min (a b : α) : α := if less b a then b else a

/-- The first of the greatest numbers of a list. -/
def maximum? : List α → Option α
  | [] => none
  | a :: as => some (as.foldl max a)

def minimum? : List α → Option α
  | [] => none
  | a :: as => some (as.foldl min a)

def sum (as : List α) : α := as.foldl (· + ·) (nat 0)

def mean (as : List α) : α := sum as / nat as.length

end Coordinate

instance : Coordinate Float where
  ofInt := Float.ofInt
  isZero a := a == 0
  less a b := a < b
  same a b := a == b
  ofNumeral? n := some n.toFloat
  toRat? a := (Amount.real a).toNumeral.toRat?

instance : Coordinate Rat where
  ofInt n := n
  isZero a := a == 0
  less a b := a < b
  same a b := a == b
  ofNumeral? := Number.Numeral.toRat?
  toRat? := some

/-! ## The plane -/

structure Position (α : Type) where
  x : α
  y : α
deriving DecidableEq, Repr

structure Size (α : Type) where
  width : α
  height : α
deriving DecidableEq, Repr

variable {α : Type}

/-- Are two extents the same? Values that do not even equal themselves are no numbers, and are
alike. -/
def sameExtent [Coordinate α] (a b : α) : Bool :=
  Coordinate.same a b || (!Coordinate.same a a && !Coordinate.same b b)

def Size.same [Coordinate α] (a b : Size α) : Bool :=
  sameExtent a.width b.width && sameExtent a.height b.height

def sameSize [Coordinate α] : Option (Size α) → Option (Size α) → Bool
  | none, none => true
  | some a, some b => a.same b
  | _, _ => false

def Position.offScreen [Magnitude α] : Position α :=
  ⟨Magnitude.ofInt (-1), Magnitude.ofInt (-1)⟩

end TypeDiagram
