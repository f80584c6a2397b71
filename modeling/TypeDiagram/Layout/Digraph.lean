/-!
Directed graphs over named nodes with weighted arcs. Arcs keep the order in which they were added,
and there is at most one arc from a node to another.
-/

namespace TypeDiagram.Layout

structure Arc (α : Type) where
  source : String
  target : String
  /-- Where along its source the arc begins, as a fraction. -/
  weight : α
deriving DecidableEq, Repr

structure Digraph (α : Type) where
  nodes : List String
  arcs : List (Arc α)
deriving DecidableEq, Repr

namespace Digraph

variable {α : Type}

def ofNodes (nodes : List String) : Digraph α := ⟨nodes, []⟩

def arc? (g : Digraph α) (source target : String) : Option (Arc α) :=
  g.arcs.find? fun a => a.source == source && a.target == target

def arcsFrom (g : Digraph α) (node : String) : List (Arc α) :=
  g.arcs.filter fun a => a.source == node

def arcsInto (g : Digraph α) (node : String) : List (Arc α) :=
  g.arcs.filter fun a => a.target == node

def successors (g : Digraph α) (node : String) : List String := (g.arcsFrom node).map Arc.target

def predecessors (g : Digraph α) (node : String) : List String := (g.arcsInto node).map Arc.source

def setArc (g : Digraph α) (a : Arc α) : Digraph α :=
  if (g.arc? a.source a.target).isSome then
    { g with arcs := g.arcs.map fun b =>
        if b.source == a.source && b.target == a.target then a else b }
  else { g with arcs := g.arcs ++ [a] }

/-- Adds an arc unless there is one between its ends. -/
def addArc (g : Digraph α) (a : Arc α) : Digraph α :=
  if (g.arc? a.source a.target).isSome then g else { g with arcs := g.arcs ++ [a] }

def arcsByNode (g : Digraph α) : List (Arc α) := g.nodes.flatMap g.arcsFrom

def ready (g : Digraph α) (remaining : List String) : List String :=
  remaining.filter fun n => (g.predecessors n).all fun p => !remaining.contains p

def without (nodes taken : List String) : List String :=
  nodes.filter fun n => !taken.contains n

/-- The nodes of a list in topological order: each round takes the nodes that no other remaining
node has an arc to. Nodes on a cycle, and those behind one, are left out. -/
def topologicalOrderOf (g : Digraph α) (remaining : List String) : List String :=
  let now := g.ready remaining
  if (without remaining now).length < remaining.length then
    now ++ topologicalOrderOf g (without remaining now)
  else []
termination_by remaining.length

/-- A topological order of an acyclic graph. -/
def topologicalOrder (g : Digraph α) : List String := g.topologicalOrderOf g.nodes

end Digraph

end TypeDiagram.Layout
