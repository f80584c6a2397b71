import TypeDiagram.Session.Basic
import TypeDiagram.Source.Reading

/-!
Committing a view. Every change of the view goes through `commit`: it decides by the caches whether
the change calls for a new layout, then brings the caches up to date. A new source text rebuilds the
view, and nodes that were there before, at any time, get their metrics back.
-/

namespace TypeDiagram.Session

open Diagram

variable {α : Type} [Coordinate α]

/-- Does the committed view differ from the caches in its number of edges or nodes, or in the size
of a node? -/
def needsLayout (s : Session α) : Bool :=
  s.edges.length != s.edgeCount || s.nodes.length != s.metrics.size ||
    s.nodes.any fun n => match s.metrics.get? n.id with
      | some m => !sameSize m.size n.size
      | none => true

def metricsOf (nodes : List (Node α)) : OrderedMap String (Metrics α) :=
  .ofList (nodes.map fun n => (n.id, Metrics.of n))

/-- The detached metrics once the current ones have taken the place of the last ones: what is gone
is added to them, and what is there is no longer detached. -/
def detach (detached last current : OrderedMap String (Metrics α)) :
    OrderedMap String (Metrics α) :=
  let gone := last.entries.filter fun e => !current.contains e.1
  current.keys.foldl (fun d id => d.erase id) (gone.foldl (fun d e => d.insert e.1 e.2) detached)

/-- Remembers the metrics of the committed nodes, and those of nodes that are gone as detached. -/
def remember (s : Session α) : Session α :=
  { s with
    metrics := metricsOf s.nodes
    detached := detach s.detached s.metrics (metricsOf s.nodes)
    edgeCount := s.edges.length }

def commit (s : Session α) (nodes : List (Node α)) (edges : List Edge) : Session α :=
  let s := { s with nodes, edges }
  let s := s.publish .stateCommitted (.committed nodes.length edges.length) none
  let needed := s.needsLayout
  let s := s.remember
  if needed then s.requestLayout else s

/-- What is remembered of a node, committed or detached. -/
def remembered? (s : Session α) (id : String) : Option (Metrics α) :=
  s.metrics.get? id <|> s.detached.get? id

def restored (s : Session α) (n : Node α) : Node α :=
  match s.remembered? n.id with
  | some m => { n with position := m.position, size := m.size <|> n.size }
  | none => n

def topologyOf (models : List Model) : OrderedMap String Model.TopologyHash :=
  .ofList (models.map fun m => (m.id, m.topologyHash))

def invalidations (last current : OrderedMap String Model.TopologyHash) : List (Event Notice) :=
  let changed := current.entries.filter fun (id, hash) =>
    match last.get? id with
    | some previous => previous != hash
    | none => false
  changed.map fun e => ⟨.connectionsInvalidated, some e.1, .invalidated⟩

/-- Tells for which models the neighbours differ from those in the last source text. -/
def invalidateConnections (s : Session α) (models : List Model) : Session α :=
  let current := topologyOf models
  { s with topology := current, log := s.log ++ invalidations s.topology current }

def setModels (s : Session α) (models : List Model) : Session α :=
  let nodes := (nodesOf models).map s.restored
  let s := { s with models }
  (s.commit nodes (edgesOf models)).invalidateConnections models

def setSource (s : Session α) (source : String) : Session α :=
  s.setModels (Model.ofDeclarations (Source.declarations source))

/-- Changes the nodes with the given id; `false` if there is none. -/
def updateNode (s : Session α) (id : String) (change : Node α → Node α) : Session α × Bool :=
  if s.nodes.any fun n => n.id == id then
    (s.commit (s.nodes.map fun n => if n.id == id then change n else n) s.edges, true)
  else (s, false)

def measure (s : Session α) (id : String) (size : Size α) : Session α × Bool :=
  s.updateNode id fun n => { n with size := some size }

def measureAll (s : Session α) (extent : Node α → Size α) : Session α × List Bool :=
  s.nodes.foldl (fun (s, done) n =>
    let (s, found) := s.measure n.id (extent n)
    (s, done ++ [found])) (s, [])

def move (s : Session α) (id : String) (position : Position α) : Session α × Bool :=
  if (s.node? id).isSome then
    let pinned := if s.pinned.contains id then s.pinned else s.pinned ++ [id]
    { s with pinned }.updateNode id fun n => { n with position }
  else (s, false)

/-- The user moved the view by hand, so it is no longer fitted by itself. -/
def noticeViewport (s : Session α) : Session α :=
  { s with options := { s.options with autoFitView := false } }

def toggleAutoFit (s : Session α) : Session α :=
  { s with options := { s.options with autoFitView := !s.options.autoFitView } }.requestLayout

def toggleDirection (s : Session α) : Session α :=
  { s with options := { s.options with
      direction := s.options.direction.flipped
      autoFitView := true } }.requestLayout

end TypeDiagram.Session
