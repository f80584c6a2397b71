import TypeDiagram.Layout.Box
import TypeDiagram.Layout.Digraph

/-!
Which way each edge counts. The nodes are arranged in a line so that few arcs run backwards: sinks
go to the end and sources to the front as long as there are any, else the node with the greatest
excess of outgoing over incoming arcs goes to the front. An arc that runs backwards is turned, so
the oriented graph has no cycle.
-/

namespace TypeDiagram.Layout

namespace Digraph

variable {α : Type}

def outDegree (g : Digraph α) (among : List String) (node : String) : Nat :=
  ((g.successors node).filter among.contains).length

def inDegree (g : Digraph α) (among : List String) (node : String) : Nat :=
  ((g.predecessors node).filter among.contains).length

def excess (g : Digraph α) (among : List String) (node : String) : Int :=
  g.outDegree among node - g.inDegree among node

def mostOutgoing (g : Digraph α) (among : List String) : List String → String → String
  | [], best => best
  | n :: ns, best =>
    g.mostOutgoing among ns (if g.excess among best < g.excess among n then n else best)

def sinks (g : Digraph α) (active : List String) : List String :=
  active.filter fun n => g.outDegree active n == 0

def sources (g : Digraph α) (active : List String) : List String :=
  active.filter fun n => g.inDegree active n == 0

/-- What is taken next from a list that is not empty: all sinks, else all sources, else the first
node with the greatest excess. -/
def nextTaken (g : Digraph α) (active : List String) : List String :=
  if !(g.sinks active).isEmpty then g.sinks active
  else if !(g.sources active).isEmpty then g.sources active
  else match active with
    | [] => []
    | first :: others => [g.mostOutgoing active others first]

def arrange (g : Digraph α) (active : List String) : List String :=
  let taken := g.nextTaken active
  if (without active taken).length < active.length then
    let others := g.arrange (without active taken)
    if (g.sinks active).isEmpty then taken ++ others else others ++ taken.reverse
  else []
termination_by active.length

/-- Does an arc between the ends run backwards along the line? -/
def isBackward (line : List String) (source target : String) : Bool :=
  line.idxOf target < line.idxOf source

end Digraph

variable {α : Type} [Coordinate α]

structure OrientedRoute where
  route : Route
  /-- Does the route count from its target to its source? -/
  turned : Bool
deriving DecidableEq, Repr

namespace OrientedRoute

def upper (r : OrientedRoute) : String := if r.turned then r.route.target else r.route.source

def lower (r : OrientedRoute) : String := if r.turned then r.route.source else r.route.target

end OrientedRoute

def routeGraph (boxes : Boxes α) (routes : List Route) : Digraph α :=
  (routes.filter fun r => !r.isLoop).foldl
    (fun g r => g.addArc ⟨r.source, r.target, Coordinate.half⟩) (.ofNodes boxes.keys)

def orient (boxes : Boxes α) (routes : List Route) : List OrientedRoute :=
  let line := (routeGraph boxes routes).arrange boxes.keys
  routes.map fun r => ⟨r, !r.isLoop && Digraph.isBackward line r.source r.target⟩

def OrientedRoute.weight (boxes : Boxes α) (r : OrientedRoute) : α :=
  if r.turned then Coordinate.half
  else ((boxes.get? r.route.source).map fun b => b.fraction r.route.handle).getD Coordinate.half

/-- The graph of the oriented routes; the first route between two boxes decides the weight. -/
def orientedGraph (boxes : Boxes α) (routes : List OrientedRoute) : Digraph α :=
  (routes.filter fun r => !r.route.isLoop).foldl
    (fun g r => g.addArc ⟨r.upper, r.lower, r.weight boxes⟩) (.ofNodes boxes.keys)

end TypeDiagram.Layout
