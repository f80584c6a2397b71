import TypeDiagram.Layout.Ordering

/-!
Coordinates. Layers follow one another along the flow, each as thick as its thickest box; within a
layer the boxes are stacked across the flow, drawn towards the mean of the boxes they are reached
from. The whole drawing is then moved to its padding, and seeded boxes go back to their places.
-/

namespace TypeDiagram.Layout

variable {α : Type} [Coordinate α]

open Coordinate

/-- The room between the drawing and the boxes nearest to its edges. -/
def padding : α := nat 12

structure Spacing (α : Type) where
  horizontal : Bool
  /-- Between the layers. -/
  layerGap : α
  /-- Between the boxes of a layer. -/
  nodeGap : α
deriving DecidableEq, Repr

namespace Spacing

def along (s : Spacing α) (b : Box α) : α := if s.horizontal then b.size.width else b.size.height

def across (s : Spacing α) (b : Box α) : α := if s.horizontal then b.size.height else b.size.width

/-- The position with the given coordinates along and across the flow. -/
def position (s : Spacing α) (primary secondary : α) : Position α :=
  if s.horizontal then ⟨primary, secondary⟩ else ⟨secondary, primary⟩

/-- The room behind a box; a dummy takes half of it. -/
def gapBehind (s : Spacing α) (node : String) : α :=
  if isDummy node then s.nodeGap / nat 2 else s.nodeGap

end Spacing

/-- A node of a layer with its extent across the flow and the centre it is drawn to, if any. -/
structure Slot (α : Type) where
  node : String
  extent : α
  desired : Option α
deriving DecidableEq, Repr

/-- Where the boxes of a layer start across the flow, when nothing may start before `cursor`. -/
def stack (s : Spacing α) : (cursor : Option α) → List (Slot α) → List α
  | _, [] => []
  | cursor, slot :: rest =>
    let wished := match slot.desired, cursor with
      | some centre, _ => centre - slot.extent / nat 2
      | none, some c => max c (nat 0)
      | none, none => nat 0
    let start := match cursor with
      | some c => max wished c
      | none => wished
    start :: stack s (some (start + slot.extent + s.gapBehind slot.node)) rest

def drift? (slots : List (Slot α)) (starts : List α) : Option α :=
  let offsets := (starts.zip slots).filterMap fun (start, slot) =>
    slot.desired.map fun centre => start + slot.extent / nat 2 - centre
  if offsets.isEmpty then none else some (mean offsets)

/-- The starts of a layer, moved so that boxes stand around the centres they are drawn to. -/
def centred (slots : List (Slot α)) (starts : List α) : List α :=
  match drift? slots starts with
  | some d => starts.map (· - d)
  | none => starts

structure Progress (α : Type) where
  boxes : Boxes α
  /-- The centres across the flow of the nodes placed so far. -/
  centres : OrderedMap String α
  /-- Where the next layer begins along the flow. -/
  offset : α

def slotOf (s : Spacing α) (g : Digraph α) (p : Progress α) (node : String) : Slot α :=
  let parents := (g.predecessors node).filterMap p.centres.get?
  let extent := ((p.boxes.get? node).map s.across).getD (nat 0)
  ⟨node, extent, if parents.isEmpty then none else some (mean parents)⟩

def thickness (s : Spacing α) (boxes : Boxes α) (layer : List String) : α :=
  (maximum? (layer.filterMap fun n => (boxes.get? n).map s.along)).getD (nat 0)

def placeLayer (s : Spacing α) (g : Digraph α) (p : Progress α) (layer : List String) :
    Progress α :=
  let thick := thickness s p.boxes layer
  let slots := layer.map (slotOf s g p)
  let starts := centred slots (stack s none slots)
  let place (q : Progress α) : α × Slot α → Progress α := fun (start, slot) =>
    match q.boxes.get? slot.node with
    | none => q
    | some box =>
      let primary := p.offset + (thick - s.along box) / nat 2
      { q with
        boxes := q.boxes.insert slot.node { box with position := s.position primary start }
        centres := q.centres.insert slot.node (start + slot.extent / nat 2) }
  let placed := (starts.zip slots).foldl place p
  { placed with offset := p.offset + (thick + s.layerGap) }

def normalise (boxes : Boxes α) : Boxes α :=
  match minimum? (boxes.values.map fun b => b.position.x),
      minimum? (boxes.values.map fun b => b.position.y) with
  | some x, some y => boxes.mapValues fun _ b =>
      { b with position := ⟨b.position.x + (padding - x), b.position.y + (padding - y)⟩ }
  | _, _ => boxes

def restoreSeeds (boxes : Boxes α) : Boxes α :=
  boxes.mapValues fun _ b => match b.seed with
    | some p => { b with position := p }
    | none => b

/-- The boxes with their final coordinates. -/
def place (s : Spacing α) (l : Layered α) (ordering : Ordering) : Boxes α :=
  restoreSeeds (normalise (ordering.foldl (placeLayer s l.graph) ⟨l.boxes, .empty, nat 0⟩).boxes)

end TypeDiagram.Layout
