import TypeDiagram.Session.Passes

/-!
What a diagram shows of itself: its view, its caches and its events, as documents.
-/

namespace TypeDiagram.Session

open Diagram

namespace Notice

def toDocument? : Notice → Option (Document Float)
  | committed nodes edges =>
    some (.object [("nodes", .number nodes.toFloat), ("edges", .number edges.toFloat)])
  | invalidated => none
  | fit padding duration =>
    some (.object [("padding", .number padding), ("duration", .number duration.toFloat)])
  | applied token => some (.object [("token", .number token.toFloat)])
  | postponed reason => some (.object [("reason", .string reason)])

end Notice

def Event.toDocument {δ : Type} (members : δ → List (String × Document Float)) (e : Event δ) :
    Document Float :=
  let nodeId := match e.nodeId with
    | some id => [("node_id", .string id)]
    | none => []
  .object ([("type", .string e.kind.name)] ++ nodeId ++ members e.data)

def eventDocument (e : Event Notice) : Document Float :=
  e.toDocument fun notice => (notice.toDocument?.map fun d => ("data", d)).toList

def sortedPins {α : Type} (s : Session α) : List String := s.pinned.mergeSort fun a b => a ≤ b

def viewMembers (s : Session Float) : List (String × Document Float) :=
  [("state", .string s.state.name), ("direction", .string s.options.direction.name),
    ("auto_fit_view", .bool s.options.autoFitView), ("theme", .string s.options.theme.name),
    ("enable_minimap", .bool s.options.enableMinimap),
    ("nodes", .array (s.nodes.map Node.toDocument)),
    ("edges", .array (s.edges.map Edge.toDocument)),
    ("pinned", .strings (sortedPins s))]

def viewDocument (s : Session Float) : Document Float := .object s.viewMembers

def metricsDocument (id : String) (m : Metrics Float) : Document Float :=
  .array [.string id, .number m.position.x, .number m.position.y,
    match m.size with
    | some size => .array [.number size.width, .number size.height]
    | none => .null]

def cachesDocument (s : Session Float) : Document Float :=
  .object [
    ("metrics", .array (s.metrics.entries.map fun (id, m) => metricsDocument id m)),
    ("edge_count", .number s.edgeCount.toFloat),
    ("topology", .array (s.topology.entries.map fun (id, h) =>
      .array [.string id, .string h.dependants, .string h.dependencies]))]

end TypeDiagram.Session
