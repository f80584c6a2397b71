import TypeDiagram.Document
import TypeDiagram.Number.Amount

/-!
Values that stand for places and extents. Most are numbers to draw with; documents are such values
too, where places and extents are only handed on.
-/

namespace TypeDiagram

class Magnitude (α : Type) where
  ofInt : Int → α
  /-- Is the value no extent? -/
  isZero : α → Bool

namespace Magnitude

variable {α : Type} [Magnitude α]

def nat (n : Nat) : α := ofInt n

end Magnitude

instance : Magnitude Amount where
  ofInt := .whole
  isZero := Amount.isZero

def Document.isBlank {ν : Type} [Magnitude ν] : Document ν → Bool
  | null => true
  | bool b => !b
  | number n => Magnitude.isZero n
  | string s => s.isEmpty
  | array items => items.isEmpty
  | object members => members.isEmpty

instance {ν : Type} [Magnitude ν] : Magnitude (Document ν) where
  ofInt n := .number (Magnitude.ofInt n)
  isZero := Document.isBlank

end TypeDiagram
