import TypeDiagram.Document.Quoted
import TypeDiagram.Layout.Coordinate
import TypeDiagram.OrderedMap

/-!
Layout requests and their answers. A request is a graph of children with handles, and of edges that
run from a handle or a child to a child; numbers may be given as text. What a child or an edge
carries besides is kept as its `attributes`, of any type `κ`, and comes back unchanged.
-/

namespace TypeDiagram.Layout

inductive Quantity (α : Type) where
  | number (v : α)
  | whole (n : Int)
  | text (s : String)
deriving DecidableEq, Repr

/-- What a handle is called and an edge refers to. It is a text as a rule; equal numbers are the
same name. -/
inductive Name where
  | null
  | number (value : Rat)
  | text (s : String)
deriving DecidableEq, Repr

namespace Name

/-- The name that a value is, if it can be one. Truth values count as one and zero. -/
def ofDocument? : Document Amount → Option Name
  | .null => some null
  | .bool b => some (number (if b then 1 else 0))
  | .number n => n.toNumeral.toRat?.map number
  | .string s => some (text s)
  | .array _ | .object _ => none

def text? : Name → Option String
  | text s => some s
  | _ => none

end Name

structure Handle (α : Type) where
  id : Option Name
  /-- Handles stand along their side in ascending order, numbers by their size and texts by the
  alphabet. -/
  order : Quantity α
  side : Option String
deriving DecidableEq, Repr

structure Child (α κ : Type) where
  id : Option String
  /-- A child that comes with both coordinates is a seed: it keeps its place. -/
  x : Option (Quantity α)
  y : Option (Quantity α)
  width : Option (Quantity α)
  height : Option (Quantity α)
  handles : List (Handle α)
  attributes : κ
deriving DecidableEq, Repr

/-- What an edge is called. -/
inductive EdgeLabel where
  | absent
  | text (s : String)
  /-- A value that is no text, as messages show it. -/
  | other (shown : String)
deriving DecidableEq, Repr

namespace EdgeLabel

def ofDocument : Document Amount → EdgeLabel
  | .string s => text s
  | d => other d.quoted

def quoted : EdgeLabel → String
  | absent => Document.quoted .null
  | text s => Text.quoted s
  | other shown => shown

/-- The label as the beginning of another name. -/
def plain : EdgeLabel → String
  | absent => ""
  | text s => s
  | other shown => shown

end EdgeLabel

/-- An edge; of its sources and targets only the first count. -/
structure Link (κ : Type) where
  label : EdgeLabel
  sources : List Name
  targets : List Name
  attributes : κ
deriving DecidableEq, Repr

structure Request (α κ : Type) where
  /-- The options by name. One that is not known counts for nothing. -/
  settings : List (String × Document Amount)
  children : List (Child α κ)
  edges : List (Link κ)

/-- Why a layout fails: a defect of the request, of the answer, or of the service itself. -/
inductive Error where
  | childWithoutId (index : Nat)
  | duplicateChild (id : String)
  | handleWithoutId
  | notANumber (s : String)
  /-- A whole number for which there is no binary64 number. -/
  | numberTooLarge
  | edgeWithoutEnds (label : EdgeLabel)
  | edgeToUnknown (label : EdgeLabel)
  /-- The answer places a child that it does not name. -/
  | answerWithoutId
  /-- The service gives a reason of its own. -/
  | serviceFailed (reason : String)
deriving DecidableEq, Repr

def Error.message : Error → String
  | childWithoutId index => "child #" ++ toString index ++ " has no id"
  | duplicateChild id => "duplicate child id: " ++ id
  | handleWithoutId | answerWithoutId => Text.quoted "id"
  | numberTooLarge => "int too large to convert to float"
  | notANumber s => "could not convert string to float: " ++ Text.quoted s
  | edgeWithoutEnds label => "edge " ++ label.quoted ++ " needs a source and a target"
  | edgeToUnknown label => "edge " ++ label.quoted ++ " references an unknown node"
  | serviceFailed reason => reason

structure Section (α : Type) where
  id : String
  start : Position α
  finish : Position α
  bends : List (Position α)
deriving DecidableEq, Repr

structure PlacedChild (α κ : Type) where
  child : Child α κ
  position : Position α
  size : Size α
deriving DecidableEq, Repr

structure RoutedLink (α κ : Type) where
  link : Link κ
  sections : List (Section α)
deriving DecidableEq, Repr

structure Drawing (α κ : Type) where
  size : Size α
  children : List (PlacedChild α κ)
  edges : List (RoutedLink α κ)
deriving DecidableEq, Repr

end TypeDiagram.Layout
