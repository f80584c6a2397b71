import TypeDiagram.Layout.Request

/-!
The boxes of a request and the routes between them. Reading a request finds its first defect:
children in order, then edges in order.
-/

namespace TypeDiagram.Layout

def dummyPrefix : String := "__dummy_"

def isDummy (id : String) : Bool := dummyPrefix.isPrefixOf id

structure Box (α : Type) where
  size : Size α
  /-- Where the box stood in the request. -/
  index : Nat
  /-- The place that the box came with and keeps. -/
  seed : Option (Position α)
  /-- The handles, as fractions of the side they stand on. -/
  handles : OrderedMap Name α
  position : Position α
deriving DecidableEq, Repr

abbrev Boxes (α : Type) := OrderedMap String (Box α)

structure Route where
  label : EdgeLabel
  source : String
  target : String
  /-- The handle that the edge begins at, if it does not begin at the box itself. -/
  handle : Option Name
deriving DecidableEq, Repr

namespace Route

def isLoop (r : Route) : Bool := r.source == r.target

end Route

variable {α κ : Type} [Coordinate α]

open Coordinate

/-- A whole number as a number to draw with; there is none for one that is too large. -/
def readWhole (n : Int) : Except Error α :=
  if Amount.isTooLarge n then .error .numberTooLarge else .ok (ofInt n)

def Quantity.read : Quantity α → Except Error α
  | .number v => .ok v
  | .whole n => readWhole n
  | .text s =>
    match (Number.Numeral.read? s).bind ofNumeral? with
    | some v => .ok v
    | none => .error (.notANumber s)

/-- The number of an extent; an absent or empty one is zero. -/
def readExtent : Option (Quantity α) → Except Error α
  | none => .ok (nat 0)
  | some (.text "") => .ok (nat 0)
  | some q => q.read

/-- The number that a value writes; a truth value counts as one or zero. -/
def numeralOf? : Document Amount → Option Number.Numeral
  | .number n => some n.toNumeral
  | .bool b => some (.finite false (if b then 1 else 0) 0)
  | .string s => Number.Numeral.read? s
  | .null | .array _ | .object _ => none

/-- The number of an option. One that is absent or holds no number has its default, but a whole
number that is too large is no option at all. -/
def readSetting (settings : List (String × Document Amount)) (key : String) (standard : α) :
    Except Error α :=
  match settings.lookup key with
  | some (.number (.whole n)) => readWhole n
  | found => .ok (((found.bind numeralOf?).bind ofNumeral?).getD standard)

/-- Elements in ascending order of their keys; elements with the same key keep their order. -/
def sortByKey {β : Type} (key : β → α) (xs : List β) : List β :=
  ((xs.map fun x => (key x, x)).mergeSort fun a b => !less b.1 a.1).map (·.2)

/-- Does a quantity come before another? Whole numbers are compared at any size, with other numbers
too. A number and a text have no order. -/
def Quantity.before : Quantity α → Quantity α → Bool
  | .number a, .number b => less a b
  | .whole m, .whole n => m < n
  | .whole m, .number b => (toRat? b).elim (less (nat 0) b) (fun q => (m : Rat) < q)
  | .number a, .whole n => (toRat? a).elim (less a (nat 0)) (fun q => q < (n : Rat))
  | .text s, .text t => s < t
  | _, _ => false

/-- Handles in ascending order; those of the same order stay as they are. -/
def sortHandles (handles : List (Handle α)) : List (Handle α) :=
  handles.mergeSort fun a b => !b.order.before a.order

def readHandles (handles : List (Handle α)) : Except Error (OrderedMap Name α) := do
  let ids ← (sortHandles handles).mapM fun p => p.id.elim (.error .handleWithoutId) .ok
  let fraction (i : Nat) : α := nat (i + 1) / nat (handles.length + 1)
  return .ofList (ids.zipIdx.map fun (id, i) => (id, fraction i))

def readSeed (c : Child α κ) : Except Error (Option (Position α)) :=
  match c.x, c.y with
  | some x, some y => do return some ⟨← x.read, ← y.read⟩
  | _, _ => return none

def readChild (boxes : Boxes α) (c : Child α κ) (index : Nat) :
    Except Error (String × Box α) := do
  let id ← c.id.elim (.error (.childWithoutId index)) .ok
  if boxes.contains id then throw (.duplicateChild id)
  let seed ← readSeed c
  let handles ← readHandles c.handles
  let width ← readExtent c.width
  let height ← readExtent c.height
  return (id, ⟨⟨width, height⟩, index, seed, handles, ⟨nat 0, nat 0⟩⟩)

def readChildren (children : List (Child α κ)) : Except Error (Boxes α) :=
  children.zipIdx.foldlM (fun boxes (c, index) => do
    let (id, box) ← readChild boxes c index
    return boxes.insert id box) .empty

/-- The box that each handle belongs to: the last one that declares it. -/
def handleOwners (boxes : Boxes α) : OrderedMap Name String :=
  .ofList (boxes.entries.flatMap fun (id, box) => box.handles.keys.map fun handle => (handle, id))

/-- The box that a name refers to: that of the handle of this name, or else the box of this id. -/
def boxNamed? (boxes : Boxes α) (owners : OrderedMap Name String) (name : Name) : Option String :=
  (owners.get? name <|> name.text?).filter boxes.contains

def readLink (boxes : Boxes α) (owners : OrderedMap Name String) (l : Link κ) :
    Except Error Route :=
  match l.sources, l.targets with
  | s :: _, t :: _ =>
    match boxNamed? boxes owners s, boxNamed? boxes owners t with
    | some source, some target =>
      .ok ⟨l.label, source, target, if owners.contains s then some s else none⟩
    | _, _ => .error (.edgeToUnknown l.label)
  | _, _ => .error (.edgeWithoutEnds l.label)

def readLinks (boxes : Boxes α) (edges : List (Link κ)) : Except Error (List Route) :=
  edges.mapM (readLink boxes (handleOwners boxes))

/-- How far along its side a box lets a route out; the middle, unless the route has a handle of its
own there. A route without a handle has the name `null`, and begins at a handle that is called so.
-/
def Box.fraction (b : Box α) (handle : Option Name) : α :=
  (b.handles.get? (handle.getD .null)).getD half

end TypeDiagram.Layout
