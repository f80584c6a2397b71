import TypeDiagram.Layout.Drawing
import TypeDiagram.Proofs.Layout.Box
import TypeDiagram.Proofs.Layout.Ordering
import TypeDiagram.Proofs.Layout.Orientation
import TypeDiagram.Proofs.Layout.Placement

/-! # Drawing finds all that it looks up

A request that is read to its end has routes between its boxes only. Between these and the drawing,
every stage looks up what earlier stages have put down. All of it is there, so that no default is
ever taken: cycles of routes and several routes between two boxes make no difference.
-/

namespace TypeDiagram.Layout

variable {α : Type} [Coordinate α]

structure Plan.Complete (r : Resolved α) (plan : Plan α) : Prop where
  /-- Each box has a rank in the line that decides which routes are turned. -/
  ranked : (boxLine r.boxes r.routes).Perm r.boxes.keys
  /-- No box is left out of the topological order, as it would be on a cycle. -/
  acyclic : (orientedGraph r.boxes plan.routes).topologicalOrder.Perm r.boxes.keys
  routed : ∀ route ∈ plan.routes, route.route.source ∈ r.boxes.keys ∧
    route.route.target ∈ r.boxes.keys
  layered : ∀ id ∈ r.boxes.keys, id ∈ plan.layered.layers.keys
  housed : plan.layered.Housed
  chained : ∀ route ∈ plan.routes, route.route.isLoop = false →
    (route.upper, route.lower) ∈ plan.layered.chains.keys
  ordered : ∀ layer ∈ plan.ordering, ∀ n ∈ layer, n ∈ plan.layered.boxes.keys
  passed : ∀ route ∈ plan.routes, ∀ d ∈ plan.layered.chainOf route, d ∈ plan.boxes.keys
  kept : r.boxes.Keeps plan.boxes

omit [Coordinate α] in
/-- Whichever way it counts, a route that is no loop passes the dummies of its chain. -/
theorem Layered.mem_chainOf_iff {l : Layered α} {route : OrientedRoute} {d : String} :
    d ∈ l.chainOf route ↔ route.route.isLoop = false ∧
      ∃ chain, l.chains.get? (route.upper, route.lower) = some chain ∧ d ∈ chain := by
  unfold Layered.chainOf
  cases route.route.isLoop with
  | true => simp
  | false =>
    cases l.chains.get? (route.upper, route.lower) with
    | none => simp
    | some chain => cases route.turned <;> simp

omit [Coordinate α] in
theorem Layered.Housed.mem_of_mem_chainOf {l : Layered α} (h : l.Housed) {route : OrientedRoute}
    {d : String} (hd : d ∈ l.chainOf route) : d ∈ l.layers.keys := by
  obtain ⟨_, chain, hChain, hIn⟩ := Layered.mem_chainOf_iff.mp hd
  exact h.chained _ chain hChain d hIn

theorem planOf_ordering (r : Resolved α) :
    (planOf r).ordering = Ordering.of (planOf r).layered r.spacing.horizontal := by
  simp only [planOf]

theorem planOf_boxes (r : Resolved α) :
    (planOf r).boxes = place r.spacing (planOf r).layered (planOf r).ordering := by
  simp only [planOf]

theorem complete_planOf {r : Resolved α} (h : WellRouted r.boxes r.routes) :
    (planOf r).Complete r := by
  have hNodes := orientedGraph_nodes r.boxes (orient r.boxes r.routes)
  obtain ⟨hHoused, hKeeps, hLayers, hChains⟩ := Layered.housed_ofGraph
    (g := orientedGraph r.boxes (orient r.boxes r.routes)) (fun n hn => hNodes ▸ hn)
    (fun a ha => hNodes ▸ h.arc_ends ha)
  change (planOf r).layered.Housed at hHoused
  change r.boxes.Keeps (planOf r).layered.boxes at hKeeps
  have hPlaced := place_keeps r.spacing (planOf r).layered (planOf r).ordering
  rw [← planOf_boxes] at hPlaced
  exact {
    ranked := boxLine_perm h
    acyclic := h.topologicalOrder_perm
    routed := fun route hRoute =>
      have hIn := (mem_orient_iff.mp hRoute).1
      ⟨h.source _ hIn, h.target _ hIn⟩
    layered := fun id hId => hLayers id (hNodes ▸ hId)
    housed := hHoused
    chained := fun route hRoute hLoop => by
      obtain ⟨a, ha, hUpper, hLower⟩ := joins_orientedGraph r.boxes hRoute hLoop
      rw [← hUpper, ← hLower]
      exact hChains a ha
    ordered := fun layer hLayer n hn => by
      rw [planOf_ordering] at hLayer
      exact hHoused.boxed n (Ordering.mem_layers_of_mem hLayer hn)
    passed := fun route _ d hd => hPlaced.mem_keys (hHoused.boxed d (hHoused.mem_of_mem_chainOf hd))
    kept := hKeeps.trans hPlaced }

/-! ## Requests -/

variable {κ : Type}

def spacingKeys : List String := [
  "elk.layered.spacing.nodeNodeBetweenLayers", "elk.layered.spacing.edgeNodeBetweenLayers",
  "elk.spacing.nodeNode"]

theorem readSpacing_cases (settings : List (String × Document Amount)) :
    ((∀ key ∈ spacingKeys, ¬ HoldsTooLarge settings key) ∧
        ∃ s : Spacing α, readSpacing settings = .ok s) ∨
      (∃ key ∈ spacingKeys, HoldsTooLarge settings key) ∧
        (readSpacing settings : Except Error (Spacing α)) = .error .numberTooLarge := by
  unfold readSpacing spacingKeys
  rcases readSetting_cases settings "elk.layered.spacing.nodeNodeBetweenLayers"
    (Coordinate.nat 30 : α) with
    ⟨hFits, _, hRead⟩ | ⟨hLarge, hRead⟩ <;> rw [hRead]
  · rcases readSetting_cases settings "elk.layered.spacing.edgeNodeBetweenLayers"
      (Coordinate.nat 30 : α) with
      ⟨hFits', _, hRead⟩ | ⟨hLarge, hRead⟩ <;> rw [hRead]
    · rcases readSetting_cases settings "elk.spacing.nodeNode" (Coordinate.nat 50 : α) with
        ⟨hFits'', _, hRead⟩ | ⟨hLarge, hRead⟩ <;> rw [hRead]
      · exact .inl ⟨by simp [hFits, hFits', hFits''], _, rfl⟩
      · exact .inr ⟨⟨_, by simp, hLarge⟩, rfl⟩
    · exact .inr ⟨⟨_, by simp, hLarge⟩, rfl⟩
  · exact .inr ⟨⟨_, by simp, hLarge⟩, rfl⟩

theorem resolveRequest_eq_ok_iff {request : Request α κ} {r : Resolved α} :
    resolveRequest request = .ok r ↔ readSpacing request.settings = .ok r.spacing ∧
      readChildren request.children = .ok r.boxes ∧
        readLinks r.boxes request.edges = .ok r.routes := by
  constructor
  · intro h
    obtain ⟨spacing, hSpacing, h⟩ := bind_eq_ok_iff.mp h
    obtain ⟨boxes, hChildren, h⟩ := bind_eq_ok_iff.mp h
    obtain ⟨routes, hLinks, h⟩ := bind_eq_ok_iff.mp h
    cases h
    exact ⟨hSpacing, hChildren, hLinks⟩
  · rintro ⟨hSpacing, hChildren, hLinks⟩
    exact bind_eq_ok_iff.mpr ⟨_, hSpacing, bind_eq_ok_iff.mpr ⟨_, hChildren,
      bind_eq_ok_iff.mpr ⟨_, hLinks, rfl⟩⟩⟩

theorem resolveRequest_eq_ok {request : Request α κ} {r : Resolved α}
    (h : resolveRequest request = .ok r) : readChildren request.children = .ok r.boxes ∧
      readLinks r.boxes request.edges = .ok r.routes := (resolveRequest_eq_ok_iff.mp h).2

theorem readSpacing_of_resolveRequest {request : Request α κ} {r : Resolved α}
    (h : resolveRequest request = .ok r) : readSpacing request.settings = .ok r.spacing :=
  (resolveRequest_eq_ok_iff.mp h).1

theorem horizontal_of_readSpacing {settings : List (String × Document Amount)} {s : Spacing α}
    (h : readSpacing settings = .ok s) : s.horizontal = isHorizontal settings := by
  obtain ⟨_, _, h⟩ := bind_eq_ok_iff.mp h
  obtain ⟨_, _, h⟩ := bind_eq_ok_iff.mp h
  obtain ⟨_, _, h⟩ := bind_eq_ok_iff.mp h
  cases h
  rfl

theorem horizontal_of_resolveRequest {request : Request α κ} {r : Resolved α}
    (h : resolveRequest request = .ok r) : r.spacing.horizontal = isHorizontal request.settings :=
  horizontal_of_readSpacing (readSpacing_of_resolveRequest h)

theorem wellRouted_of_resolveRequest {request : Request α κ} {r : Resolved α}
    (h : resolveRequest request = .ok r) : WellRouted r.boxes r.routes := by
  obtain ⟨hChildren, hLinks⟩ := resolveRequest_eq_ok h
  have hEnds : ∀ route ∈ r.routes, route.source ∈ r.boxes.keys ∧ route.target ∈ r.boxes.keys := by
    intro route hRoute
    obtain ⟨l, _, hLink⟩ := exists_of_mapM_eq_ok hLinks hRoute
    exact readLink_ends hLink
  exact ⟨nodup_readChildren hChildren, fun route hRoute => (hEnds route hRoute).1,
    fun route hRoute => (hEnds route hRoute).2⟩

theorem nodup_layers_planOf {request : Request α κ} {r : Resolved α}
    (h : resolveRequest request = .ok r) : (planOf r).layered.layers.keys.Nodup :=
  Layered.nodup_layers_ofGraph _ (by
    rw [orientedGraph_nodes]
    exact (wellRouted_of_resolveRequest h).distinct)

theorem length_routes_planOf {request : Request α κ} {r : Resolved α}
    (h : resolveRequest request = .ok r) : (planOf r).routes.length = request.edges.length := by
  rw [(forall₂_of_mapM_eq_ok (resolveRequest_eq_ok h).2).length_eq]
  exact List.length_map _

def placedChild (boxes : Boxes α) (c : Child α κ) : PlacedChild α κ :=
  match c.id.bind boxes.get? with
  | some b => ⟨c, b.position, b.size⟩
  | none => ⟨c, ⟨Coordinate.nat 0, Coordinate.nat 0⟩, ⟨Coordinate.nat 0, Coordinate.nat 0⟩⟩

theorem placedChild_child (boxes : Boxes α) (c : Child α κ) : (placedChild boxes c).child = c := by
  unfold placedChild
  split <;> rfl

theorem placedChild_of_get? {boxes : Boxes α} {c : Child α κ} {id : String} {b : Box α}
    (hId : c.id = some id) (hBox : boxes.get? id = some b) :
    placedChild boxes c = ⟨c, b.position, b.size⟩ := by
  unfold placedChild
  rw [hId, Option.bind_some, hBox]

/-- What a plan makes of the children and edges of a request. -/
def Plan.drawing (p : Plan α) (horizontal : Bool) (children : List (Child α κ))
    (edges : List (Link κ)) : Drawing α κ :=
  let routed (e : Link κ × OrientedRoute) : RoutedLink α κ :=
    ⟨e.1, sectionsOf horizontal p.boxes e.2.route (p.layered.chainOf e.2)⟩
  ⟨extentOf p.boxes, children.map (placedChild p.boxes), (edges.zip p.routes).map routed⟩

theorem Plan.children_drawing (p : Plan α) (horizontal : Bool) (children : List (Child α κ))
    (edges : List (Link κ)) :
    (p.drawing horizontal children edges).children.map PlacedChild.child = children := by
  rw [Plan.drawing, List.map_map]
  exact (List.map_congr_left fun c _ => placedChild_child p.boxes c).trans (List.map_id _)

theorem draw_eq (request : Request α κ) :
    draw request = (resolveRequest request).map fun r =>
      (planOf r).drawing r.spacing.horizontal request.children request.edges := by
  unfold draw
  cases resolveRequest request <;> rfl

theorem draw_eq_ok_iff {request : Request α κ} {drawing : Drawing α κ} :
    draw request = .ok drawing ↔ ∃ r, resolveRequest request = .ok r ∧
      (planOf r).drawing r.spacing.horizontal request.children request.edges = drawing := by
  rw [draw_eq]
  cases resolveRequest request <;> simp [Except.map]

theorem exists_draw_eq_ok {request : Request α κ} (h : (resolveRequest request).isOk = true) :
    ∃ drawing, draw request = .ok drawing := by
  cases hRead : resolveRequest request with
  | error e =>
    rw [hRead] at h
    cases h
  | ok r => exact ⟨_, draw_eq_ok_iff.mpr ⟨r, hRead, rfl⟩⟩

theorem draw_cases (request : Request α κ) :
    (∃ e, resolveRequest request = .error e ∧ draw request = .error e) ∨
      ∃ r drawing, resolveRequest request = .ok r ∧ draw request = .ok drawing ∧
        drawing.children = request.children.map (placedChild (planOf r).boxes) := by
  unfold draw
  cases hRead : resolveRequest request with
  | error e => exact .inl ⟨e, rfl, rfl⟩
  | ok r => exact .inr ⟨r, _, rfl, rfl, rfl⟩

end TypeDiagram.Layout
