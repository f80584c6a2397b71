import TypeDiagram.Diagram.Arrangement
import TypeDiagram.Session.EventBus
import TypeDiagram.Session.FrameScheduler

/-!
The state of an open diagram: the view that was committed last, caches that carry positions and
sizes from one source text to the next, and the layout passes that have started and not settled.
Time is counted in frame intervals.
-/

namespace TypeDiagram.Session

open Diagram

inductive Notice where
  | committed (nodes edges : Nat)
  | invalidated
  /-- The view should be fitted, with the given room around it and in the given milliseconds. -/
  | fit (padding : Float) (duration : Nat)
  /-- The pass with the given number was applied. -/
  | applied (token : Nat)
  | postponed (reason : String)

structure Metrics (α : Type) where
  position : Position α
  size : Option (Size α)
deriving DecidableEq, Repr

def Metrics.of {α : Type} (n : Node α) : Metrics α := ⟨n.position, n.size⟩

inductive FrameTask where
  | startLayout
deriving DecidableEq, Repr

structure Pass (α : Type) where
  /-- Passes are numbered from one in the order of their starts. -/
  token : Nat
  nodes : List (Node α)
  edges : List Edge
  direction : Direction
  pinned : List String
deriving DecidableEq, Repr

end Session

structure Session (α : Type) where
  options : ViewOptions
  layoutOptions : LayoutOptions
  /-- The committed view. -/
  models : List Model
  nodes : List (Diagram.Node α)
  edges : List Diagram.Edge
  /-- The nodes that were moved by hand, which no layout moves. -/
  pinned : List String
  /-- The metrics of the committed nodes. -/
  metrics : OrderedMap String (Session.Metrics α)
  /-- The metrics of nodes whose declaration is gone, perhaps only while it is edited. -/
  detached : OrderedMap String (Session.Metrics α)
  /-- The number of committed edges. -/
  edgeCount : Nat
  /-- The neighbours of the models of the last source text. -/
  topology : OrderedMap String Model.TopologyHash
  layoutsApplied : Nat
  /-- The number of passes that were started. -/
  passes : Nat
  /-- The passes that have not settled, oldest first. -/
  inFlight : List (Session.Pass α)
  /-- Was the view fitted before? -/
  fittedOnce : Bool
  scheduler : Session.FrameScheduler Nat Session.FrameTask
  /-- All events that were published, oldest first. -/
  log : List (Session.Event Session.Notice)

namespace Session

inductive State where
  | idle
  | layoutPending
  | layoutInFlight
deriving DecidableEq, Repr

def State.name : State → String
  | idle => "idle"
  | layoutPending => "layout_pending"
  | layoutInFlight => "layout_in_flight"

variable {α : Type}

def create (options : ViewOptions) (layoutOptions : LayoutOptions) : Session α where
  options
  layoutOptions
  models := []
  nodes := []
  edges := []
  pinned := []
  metrics := .empty
  detached := .empty
  edgeCount := 0
  topology := .empty
  layoutsApplied := 0
  passes := 0
  inFlight := []
  fittedOnce := false
  scheduler := .start 1 1 0
  log := []

def state (s : Session α) : State :=
  if s.scheduler.pending then .layoutPending
  else if s.inFlight.isEmpty then .idle
  else .layoutInFlight

def node? (s : Session α) (id : String) : Option (Diagram.Node α) :=
  s.nodes.find? fun n => n.id == id

def history (s : Session α) : History Notice :=
  ⟨some History.standardCapacity, History.lastOf History.standardCapacity s.log⟩

def publish (s : Session α) (kind : EventKind) (data : Notice) (nodeId : Option String) :
    Session α :=
  { s with log := s.log ++ [⟨kind, nodeId, data⟩] }

/-- Asks for a layout pass on the next frame. -/
def requestLayout (s : Session α) : Session α :=
  { s with scheduler := s.scheduler.request .startLayout }

end Session

end TypeDiagram
