import TypeDiagram.Layout.Orientation

/-!
Layers. Each node of the oriented graph stands in the layer whose number is the length of the
longest path to it. An arc that spans several layers is replaced by a chain with one dummy box in
each layer between, so that every arc of the layered graph joins neighbouring layers.
-/

namespace TypeDiagram.Layout

abbrev Layers := OrderedMap String Nat

namespace Layers

/-- The layer of a node; zero if it has none. -/
def of (layers : Layers) (node : String) : Nat := (OrderedMap.get? layers node).getD 0

variable {α : Type}

def relax (g : Digraph α) (layers : Layers) (node : String) : Layers :=
  (g.successors node).foldl
    (fun layers s => layers.insert s (Nat.max (layers.of s) (layers.of node + 1))) layers

def assign (g : Digraph α) (order : List String) : Layers :=
  order.foldl (relax g) ⟨g.nodes.map fun n => (n, 0)⟩

def count (layers : Layers) : Nat := (layers.values.map (· + 1)).foldl Nat.max 0

end Layers

structure Layered (α : Type) where
  boxes : Boxes α
  layers : Layers
  /-- The arcs between neighbouring layers. -/
  graph : Digraph α
  /-- The dummies of each oriented arc, from its upper to its lower end. -/
  chains : OrderedMap (String × String) (List String)
deriving DecidableEq, Repr

namespace Layered

variable {α : Type} [Coordinate α]

def dummyId (arc step : Nat) : String :=
  dummyPrefix ++ toString arc ++ "_" ++ toString step

/-- A chain under construction: what it was added to, its dummies so far and the last node. -/
structure Growth (α : Type) where
  layered : Layered α
  chain : List String
  previous : String

/-- The weight of the next arc of a chain: that of the arc it replaces, if it leaves the upper
end. -/
def segmentWeight (a : Arc α) (previous : String) : α :=
  if previous == a.source then a.weight else Coordinate.half

def grow (number : Nat) (a : Arc α) (g : Growth α) (step : Nat) : Growth α :=
  let l := g.layered
  let dummy := dummyId number step
  let zero : α := Coordinate.nat 0
  let box : Box α := ⟨⟨zero, zero⟩, l.boxes.size, none, .empty, ⟨zero, zero⟩⟩
  { layered := { l with
      boxes := l.boxes.insert dummy box
      layers := l.layers.insert dummy (l.layers.of a.source + step)
      graph := l.graph.setArc ⟨g.previous, dummy, segmentWeight a g.previous⟩ }
    chain := g.chain ++ [dummy]
    previous := dummy }

def addChain (l : Layered α) (a : Arc α) (number : Nat) : Layered α :=
  let span := l.layers.of a.target - l.layers.of a.source
  let grown := (List.range' 1 (span - 1)).foldl (grow number a) ⟨l, [], a.source⟩
  { grown.layered with
    graph := grown.layered.graph.setArc
      ⟨grown.previous, a.target, segmentWeight a grown.previous⟩
    chains := grown.layered.chains.insert (a.source, a.target) grown.chain }

def ofGraph (boxes : Boxes α) (g : Digraph α) : Layered α :=
  let layers := Layers.assign g g.topologicalOrder
  g.arcsByNode.zipIdx.foldl (fun l (a, number) => l.addChain a number)
    ⟨boxes, layers, .ofNodes g.nodes, .empty⟩

def chainOf (l : Layered α) (r : OrientedRoute) : List String :=
  if r.route.isLoop then []
  else
    let chain := (l.chains.get? (r.upper, r.lower)).getD []
    if r.turned then chain.reverse else chain

end Layered

end TypeDiagram.Layout
