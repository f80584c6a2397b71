import TypeDiagram.Diagram.Element
import TypeDiagram.Layout.Drawing
import TypeDiagram.Options

/-!
Arranging the elements of a diagram by a layout service. The elements and the options become a
layout request; the answer moves the nodes that are not pinned. An answer may leave nodes and
numbers out: what it leaves out stays as it is.
-/

namespace TypeDiagram.Diagram

open Layout

variable {α : Type}

structure Placement (α : Type) where
  id : Option Name
  x : Option α
  y : Option α
  width : Option α
  height : Option α
deriving DecidableEq, Repr

/-- A layout service; it may fail. -/
abbrev Service (α : Type) := Request α Unit → Except Layout.Error (List (Placement α))

def layeredService [Coordinate α] : Service α := fun request => do
  let drawing ← draw request
  return drawing.children.map fun c =>
    { id := c.child.id.map Name.text
      x := some c.position.x
      y := some c.position.y
      width := some c.size.width
      height := some c.size.height }

section Request

variable [Magnitude α]

def handlesOf (m : Model) (direction : Direction) : List (Handle α) :=
  m.schema.zipIdx.map fun (f, i) =>
    ⟨some (.text (handleId m.id f.name)), .number (Magnitude.nat i), some direction.handleSide⟩

/-- The child that stands for a node. A node without a size takes no room; a pinned one keeps its
place. -/
def childOf (direction : Direction) (pinned : List String) (n : Node α) : Child α Unit :=
  let seed (v : α) : Option (Quantity α) := if pinned.contains n.id then some (.number v) else none
  let extent (f : Size α → α) : Option (Quantity α) :=
    some (.number ((n.size.map f).getD (Magnitude.nat 0)))
  { id := some n.id
    x := seed n.position.x
    y := seed n.position.y
    width := extent Size.width
    height := extent Size.height
    handles := handlesOf { n.model with id := n.id } direction
    attributes := () }

def linkOf (e : Edge) : Link Unit :=
  let source := match e.sourceHandle with
    | some h => if h.isEmpty then e.source else h
    | none => e.source
  ⟨.text e.id, [.text source], [.text e.target], ()⟩

def requestFor (options : LayoutOptions) (nodes : List (Node α)) (edges : List Edge)
    (direction : Direction) (pinned : List String) : Request α Unit :=
  { settings := options.settings direction
    children := nodes.map (childOf direction pinned)
    edges := edges.map linkOf }

/-- The answer by node id; a later placement of an id replaces an earlier one. -/
def placementsById (answer : List (Placement α)) :
    Except Layout.Error (OrderedMap Name (Placement α)) := do
  let named ← answer.mapM fun p => p.id.elim (.error .answerWithoutId) fun id => .ok (id, p)
  return .ofList named

/-- A node where the answer puts it. A pinned node stays; both extents are taken over if neither is
absent or zero. -/
def Node.placedBy (pinned : List String) (n : Node α) (p : Placement α) : Node α :=
  let position :=
    if pinned.contains n.id then n.position
    else ⟨p.x.getD n.position.x, p.y.getD n.position.y⟩
  let size := match p.width, p.height with
    | some w, some h =>
      if Magnitude.isZero w || Magnitude.isZero h then n.size else some ⟨w, h⟩
    | _, _ => n.size
  { n with position, size }

def applyAnswer (nodes : List (Node α)) (answer : List (Placement α)) (pinned : List String) :
    Except Layout.Error (List (Node α)) := do
  let placements ← placementsById answer
  return nodes.map fun n => match placements.get? (.text n.id) with
    | some p => n.placedBy pinned p
    | none => n

def arrange (service : Service α) (options : LayoutOptions) (nodes : List (Node α))
    (edges : List Edge) (direction : Direction) (pinned : List String) :
    Except Layout.Error (List (Node α)) := do
  let answer ← service (requestFor options nodes edges direction pinned)
  applyAnswer nodes answer pinned

end Request

section Document

def quantityDocument : Quantity (Document Amount) → Document Amount
  | .number d => d
  | .whole n => .number (.whole n)
  | .text s => .string s

def presentMembers (members : List (String × Option (Document Amount))) :
    List (String × Document Amount) :=
  members.filterMap fun (key, value) => value.map fun v => (key, v)

def handleDocument (p : Handle (Document Amount)) : Document Amount :=
  .object (presentMembers [("id", (p.id.bind Name.text?).map .string),
    ("order", some (quantityDocument p.order)),
    ("properties", p.side.map fun side => .object [("port.side", .string side)])])

def childDocument (c : Child (Document Amount) Unit) : Document Amount :=
  .object (presentMembers [("id", c.id.map .string), ("width", c.width.map quantityDocument),
    ("height", c.height.map quantityDocument),
    ("ports", some (.array (c.handles.map handleDocument))),
    ("x", c.x.map quantityDocument), ("y", c.y.map quantityDocument)])

def linkDocument (l : Link Unit) : Document Amount :=
  .object [("id", .string l.label.plain), ("sources", .strings (l.sources.filterMap Name.text?)),
    ("targets", .strings (l.targets.filterMap Name.text?))]

/-- The request of a diagram as a document; a diagram names all that it asks about by texts. -/
def requestDocument (r : Request (Document Amount) Unit) : Document Amount :=
  .object [("id", .string "root"), ("layoutOptions", .object r.settings),
    ("children", .array (r.children.map childDocument)),
    ("edges", .array (r.edges.map linkDocument))]

end Document

end TypeDiagram.Diagram
