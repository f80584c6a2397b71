import TypeDiagram.Layout.Placement

/-!
The drawing of a request: its boxes in layers, and for each edge an orthogonal line from the handle
it begins at, past the dummies of its chain, to the middle of the side it enters.
-/

namespace TypeDiagram.Layout

variable {α κ : Type} [Coordinate α]

open Coordinate

def isHorizontal (settings : List (String × Document Amount)) : Bool :=
  match settings.lookup "elk.direction" with
  | none => true
  | some (.string d) => d == "RIGHT" || d == "LEFT"
  | some _ => false

def readSpacing (settings : List (String × Document Amount)) : Except Error (Spacing α) := do
  let betweenLayers ← readSetting settings "elk.layered.spacing.nodeNodeBetweenLayers" (nat 30)
  let edgeGap ← readSetting settings "elk.layered.spacing.edgeNodeBetweenLayers" (nat 30)
  let nodeGap ← readSetting settings "elk.spacing.nodeNode" (nat 50)
  return ⟨isHorizontal settings, betweenLayers + edgeGap, nodeGap⟩

def exitPoint (horizontal : Bool) (b : Box α) (fraction : α) : Position α :=
  if horizontal then
    ⟨b.position.x + b.size.width, b.position.y + b.size.height * fraction⟩
  else ⟨b.position.x + b.size.width * fraction, b.position.y + b.size.height⟩

/-- Where a route enters a box: in the middle of the side that the flow enters by. -/
def entryPoint (horizontal : Bool) (b : Box α) : Position α :=
  if horizontal then ⟨b.position.x, b.position.y + b.size.height / nat 2⟩
  else ⟨b.position.x + b.size.width / nat 2, b.position.y⟩

/-- The two corners of the way between points, half way along the flow; none if it is straight. -/
def corners (horizontal : Bool) (a b : Position α) : List (Position α) :=
  if horizontal then
    if same a.y b.y then []
    else
      let middle := (a.x + b.x) / nat 2
      [⟨middle, a.y⟩, ⟨middle, b.y⟩]
  else if same a.x b.x then []
  else
    let middle := (a.y + b.y) / nat 2
    [⟨a.x, middle⟩, ⟨b.x, middle⟩]

def bends (horizontal : Bool) : List (Position α) → List (Position α)
  | a :: b :: rest => corners horizontal a b ++ bends horizontal (b :: rest)
  | _ => []

/-- The line of a route, through the given dummies; an edge from a box to itself has none. -/
def sectionsOf (horizontal : Bool) (boxes : Boxes α) (r : Route) (chain : List String) :
    List (Section α) :=
  match boxes.get? r.source, boxes.get? r.target with
  | some source, some target =>
    if r.isLoop then []
    else
      let start := exitPoint horizontal source (source.fraction r.handle)
      let finish := entryPoint horizontal target
      let between := chain.filterMap fun d => (boxes.get? d).map Box.position
      [⟨r.label.plain ++ "_s0", start, finish, bends horizontal (start :: between ++ [finish])⟩]
  | _, _ => []

def extentOf (boxes : Boxes α) : Size α :=
  let real := (boxes.entries.filter fun e => !isDummy e.1).map (·.2)
  let reach (f : Box α → α) : α := (maximum? (real.map f)).getD (nat 0) + padding
  ⟨reach fun b => b.position.x + b.size.width, reach fun b => b.position.y + b.size.height⟩

structure Resolved (α : Type) where
  boxes : Boxes α
  routes : List Route
  spacing : Spacing α
deriving DecidableEq, Repr

def resolveRequest (r : Request α κ) : Except Error (Resolved α) := do
  let spacing ← readSpacing r.settings
  let boxes ← readChildren r.children
  let routes ← readLinks boxes r.edges
  return ⟨boxes, routes, spacing⟩

structure Plan (α : Type) where
  routes : List OrientedRoute
  layered : Layered α
  ordering : Ordering
  boxes : Boxes α

def planOf (r : Resolved α) : Plan α :=
  let routes := orient r.boxes r.routes
  let layered := Layered.ofGraph r.boxes (orientedGraph r.boxes routes)
  let ordering := Ordering.of layered r.spacing.horizontal
  ⟨routes, layered, ordering, place r.spacing layered ordering⟩

def draw (r : Request α κ) : Except Error (Drawing α κ) := do
  let resolved ← resolveRequest r
  let plan := planOf resolved
  let placed (c : Child α κ) : PlacedChild α κ :=
    match c.id.bind plan.boxes.get? with
    | some b => ⟨c, b.position, b.size⟩
    | none => ⟨c, ⟨nat 0, nat 0⟩, ⟨nat 0, nat 0⟩⟩
  let routed : Link κ × OrientedRoute → RoutedLink α κ := fun (link, route) =>
    ⟨link, sectionsOf resolved.spacing.horizontal plan.boxes route.route
      (plan.layered.chainOf route)⟩
  return ⟨extentOf plan.boxes, r.children.map placed, (r.edges.zip plan.routes).map routed⟩

end TypeDiagram.Layout
