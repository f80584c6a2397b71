import TypeDiagram.Session.View

/-!
Layout passes. A pass captures its inputs when it starts, or when it gets to run if that is later,
and settles after that, in any order with other passes and with edits. Only the pass that was
started last can still act: it is merged into the view as it is by then, so edits made meanwhile
survive. Any other pass is forgotten.
-/

namespace TypeDiagram.Session

open Diagram

variable {α : Type} [Coordinate α]

def fitDuration : Nat := 500

def capture (s : Session α) (token : Nat) : Pass α :=
  ⟨token, s.nodes, s.edges, s.options.direction, s.pinned⟩

def startPass (s : Session α) : Session α :=
  let token := s.passes + 1
  { s with passes := token, inFlight := s.inFlight ++ [s.capture token] }

def beginPass (s : Session α) (token : Nat) : Session α :=
  { s with inFlight := s.inFlight.map fun p => if p.token == token then s.capture token else p }

def without (s : Session α) (token : Nat) : Session α :=
  { s with inFlight := s.inFlight.filter fun p => p.token != token }

def frame (s : Session α) : Session α :=
  let (scheduler, ran) := s.scheduler.advance (fun _ => ⟨[], false⟩) s.scheduler.interval
  ran.foldl (fun s _ => s.startPass) { s with scheduler }

/-- Starts a pass at once, in place of the one that the pending frame would start. -/
def layoutNow (s : Session α) : Session α :=
  { s with scheduler := s.scheduler.cancel }.startPass

/-- Gives up the pending frame and all passes that have not settled. -/
def close (s : Session α) : Session α :=
  { s with scheduler := s.scheduler.cancel, inFlight := [] }

def lastNode? (nodes : List (Node α)) (id : String) : Option (Node α) :=
  nodes.reverse.find? fun n => n.id == id

/-- A committed node where a pass puts it. A node that was moved by hand stays, and a size that was
measured after the pass started stays. -/
def merged (s : Session α) (p : Pass α) (placed : List (Node α)) (n : Node α) : Node α :=
  match lastNode? placed n.id with
  | none => n
  | some computed =>
    if s.pinned.contains n.id then n
    else
      let unchanged := match lastNode? p.nodes n.id with
        | some sent => sameSize sent.size n.size
        | none => false
      { n with
        position := computed.position
        size := if unchanged then computed.size <|> n.size else n.size }

def fitView (s : Session α) : Session α :=
  if s.options.autoFitView then
    let duration := if s.fittedOnce then fitDuration else 0
    { s with fittedOnce := true }.publish .fitView
      (.fit s.options.direction.fitPadding duration) none
  else s

def applyPass (s : Session α) (p : Pass α) (placed : List (Node α)) : Session α :=
  let nodes := s.nodes.map (s.merged p placed)
  let s := { s with layoutsApplied := s.layoutsApplied + 1 }
  let s := s.commit nodes s.edges
  (s.publish .layoutApplied (.applied p.token) none).fitView

def Pass.result (p : Pass α) (service : Service α) (options : LayoutOptions) :
    Except Layout.Error (List (Node α)) :=
  arrange service options p.nodes p.edges p.direction p.pinned

def settlePass (s : Session α) (service : Service α) (p : Pass α) : Session α :=
  let s := s.without p.token
  if p.token != s.passes then s
  else match p.result service s.layoutOptions with
    | .ok placed => s.applyPass p placed
    | .error e => s.publish .layoutPostponed (.postponed e.message) none

def settle (s : Session α) (service : Service α) (token : Nat) : Session α :=
  match s.inFlight.find? fun p => p.token == token with
  | some p => s.settlePass service p
  | none => s

/-- Settles all passes in flight, in the order of their starts. -/
def settleAll (s : Session α) (service : Service α) : Session α :=
  (s.inFlight.map Pass.token).foldl (fun s token => s.settle service token) s

/-- How often settled passes may ask for another frame while the diagram is waited for. -/
def idleLimit : Nat := 1000

/-- Lets passes settle and frames run until the diagram is idle, at most `fuel` times. -/
def runUntilIdle (service : Service α) : (fuel : Nat) → Session α → Session α
  | 0, s => s
  | fuel + 1, s =>
    if !s.inFlight.isEmpty then runUntilIdle service fuel (s.settleAll service)
    else if s.scheduler.pending then runUntilIdle service fuel s.frame
    else s

def waitIdle (s : Session α) (service : Service α) : Session α :=
  runUntilIdle service idleLimit s

def frameSettled (s : Session α) (service : Service α) : Session α :=
  s.frame.settleAll service

/-- Starts a pass at once and waits until the diagram is idle. -/
def layoutSettled (s : Session α) (service : Service α) : Session α :=
  s.layoutNow.waitIdle service

def failingService (reason : String) : Service α := fun _ => .error (.serviceFailed reason)

end TypeDiagram.Session
