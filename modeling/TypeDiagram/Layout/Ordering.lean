import TypeDiagram.Layout.Layering

/-!
The order of the nodes within each layer. Sweeps up and down sort each layer by the mean position
of the neighbours in the layer before; the ordering with the fewest crossings is kept. At the end
the seeded nodes of a layer change places among themselves, so that they stand in the order of
their coordinates.
-/

namespace TypeDiagram.Layout

abbrev Ordering := List (List String)

variable {α : Type} [Coordinate α]

open Coordinate

namespace Ordering

def sweepLimit : Nat := 24

def initial (l : Layered α) : Ordering :=
  let index (n : String) : Nat := ((l.boxes.get? n).map Box.index).getD 0
  let sorted := l.layers.keys.mergeSort fun a b => index a ≤ index b
  (List.range l.layers.count).map fun i => sorted.filter fun n => l.layers.of n == i

def segments (g : Digraph α) (upper lower : List String) : List (α × Int) :=
  upper.zipIdx.flatMap fun (n, i) => (g.arcsFrom n).filterMap fun a =>
    (lower.idxOf? a.target).map fun j => (nat i + a.weight, (j : Int))

def cross (a b : α × Int) : Bool :=
  less ((a.1 - b.1) * ofInt (a.2 - b.2)) (nat 0)

def crossingPairs : List (α × Int) → Nat
  | [] => 0
  | s :: ss => (ss.filter (cross s)).length + crossingPairs ss

def crossings (g : Digraph α) : Ordering → Nat
  | upper :: lower :: rest =>
    crossingPairs (segments g upper lower) + crossings g (lower :: rest)
  | _ => 0

def meanOr (standing : Nat) (positions : List α) : α :=
  if positions.isEmpty then nat standing else mean positions

def positionsAbove (g : Digraph α) (above : List String) (node : String) : List α :=
  (g.arcsInto node).filterMap fun a => (above.idxOf? a.source).map fun i => nat i + a.weight

def positionsBelow (g : Digraph α) (below : List String) (node : String) : List α :=
  (g.arcsFrom node).filterMap fun a => (below.idxOf? a.target).map fun i => nat i

def sortLayer (positions : String → List α) (layer : List String) : List String :=
  sortByKey (fun n => meanOr (layer.idxOf n) (positions n)) layer

def sweepDown (g : Digraph α) : (above : List String) → Ordering → Ordering
  | _, [] => []
  | above, layer :: rest =>
    let sorted := sortLayer (positionsAbove g above) layer
    sorted :: sweepDown g sorted rest

def sweepUp (g : Digraph α) : Ordering → Ordering
  | [] => []
  | layer :: rest =>
    match sweepUp g rest with
    | [] => [layer]
    | below :: others => sortLayer (positionsBelow g below) layer :: below :: others

/-- One sweep down and up again. The first layer has none above and is left as it is. -/
def sweep (g : Digraph α) : Ordering → Ordering
  | [] => []
  | first :: rest => sweepUp g (first :: sweepDown g first rest)

/-- Sweeps as long as the number of crossings falls, at most `fuel` times; the best ordering. -/
def improve (g : Digraph α) : (fuel : Nat) → (best : Ordering) → Ordering
  | 0, best => best
  | fuel + 1, best =>
    let next := sweep g best
    if crossings g next < crossings g best then improve g fuel next else best

/-- Puts the nodes `seeded` one by one into the places of a layer that satisfy `isSeeded`. -/
def fillSlots (isSeeded : String → Bool) : List String → List String → List String
  | [], _ => []
  | n :: layer, seeded =>
    if isSeeded n then
      match seeded with
      | [] => n :: fillSlots isSeeded layer []
      | s :: more => s :: fillSlots isSeeded layer more
    else n :: fillSlots isSeeded layer seeded

/-- The seeded nodes of a layer in the order of their coordinates across the flow, in the places
that seeded nodes stand in. -/
def settleSeeds (boxes : Boxes α) (horizontal : Bool) (layer : List String) : List String :=
  let seed? (n : String) : Option (Position α) := (boxes.get? n).bind Box.seed
  let across (n : String) : α :=
    ((seed? n).map fun p => if horizontal then p.y else p.x).getD (nat 0)
  let isSeeded (n : String) : Bool := (seed? n).isSome
  fillSlots isSeeded layer (sortByKey across (layer.filter isSeeded))

def unsettled (l : Layered α) : Ordering := improve l.graph sweepLimit (initial l)

def of (l : Layered α) (horizontal : Bool) : Ordering :=
  (unsettled l).map (settleSeeds l.boxes horizontal)

end Ordering

end TypeDiagram.Layout
