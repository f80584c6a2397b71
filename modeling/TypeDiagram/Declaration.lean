import TypeDiagram.Document.Quoted

/-!
Declarations as the source text states them, before any name is resolved.
-/

namespace TypeDiagram

/-- The syntactic shape of the type of a field, with the texts that a reference can stand in. -/
inductive TypeShape where
  | array (element : String)
  | generic (name : String) (arguments : List String)
  /-- A plain or dotted name, which is the whole type text. -/
  | name
  | other
deriving DecidableEq, Repr

inductive ShapeKind where
  | array
  | generic
  | name
  | other
deriving DecidableEq, Repr

namespace ShapeKind

def title : ShapeKind → String
  | array => "array"
  | generic => "generic"
  | name => "name"
  | other => "other"

def ofTitle? (s : String) : Option ShapeKind :=
  [array, generic, name, other].find? fun k => k.title == s

def named (d : Document Amount) : Except UnknownName ShapeKind := d.named "TypeKind" ofTitle?

end ShapeKind

namespace TypeShape

def kind : TypeShape → ShapeKind
  | array _ => .array
  | generic .. => .generic
  | name => .name
  | other => .other

/-- The shape of a kind with the given parts. An array without an element and a generic type without
a name are nothing in particular. -/
def ofParts (kind : ShapeKind) (element reference : Option String) (arguments : List String) :
    TypeShape :=
  match kind, element, reference with
  | .array, some e, _ => array e
  | .generic, _, some r => if r.isEmpty then other else generic r arguments
  | .name, _, _ => name
  | _, _, _ => other

end TypeShape

structure DeclaredField where
  name : String
  typeText : String
  shape : TypeShape
deriving DecidableEq, Repr

structure Declaration where
  name : String
  fields : List DeclaredField
  /-- The line of the keyword that declares it, counted from one. -/
  line : Nat
deriving DecidableEq, Repr

end TypeDiagram
