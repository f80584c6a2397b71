import TypeDiagram.Proofs.Layout.Digraph

/-! # The oriented graph has no cycle

The boxes stand in a line, and every route that is no loop counts from the end that comes first in
it to the other one. So the oriented graph, which has an arc for each of them, runs along the line,
and all boxes have a place in its topological order.
-/

namespace TypeDiagram.Layout

variable {α : Type}

/-- The ids of the boxes are distinct, and the routes run between boxes. -/
structure WellRouted (boxes : Boxes α) (routes : List Route) : Prop where
  distinct : boxes.keys.Nodup
  source : ∀ r ∈ routes, r.source ∈ boxes.keys
  target : ∀ r ∈ routes, r.target ∈ boxes.keys

variable {boxes : Boxes α} {routes : List Route}

theorem WellRouted.upper_mem (h : WellRouted boxes routes) {r : OrientedRoute}
    (hr : r.route ∈ routes) : r.upper ∈ boxes.keys := by
  unfold OrientedRoute.upper
  split
  · exact h.target _ hr
  · exact h.source _ hr

theorem WellRouted.lower_mem (h : WellRouted boxes routes) {r : OrientedRoute}
    (hr : r.route ∈ routes) : r.lower ∈ boxes.keys := by
  unfold OrientedRoute.lower
  split
  · exact h.source _ hr
  · exact h.target _ hr

variable [Coordinate α]

def boxLine (boxes : Boxes α) (routes : List Route) : List String :=
  (routeGraph boxes routes).arrange boxes.keys

theorem boxLine_perm (h : WellRouted boxes routes) : (boxLine boxes routes).Perm boxes.keys :=
  Digraph.arrange_perm _ h.distinct

theorem mem_orient_iff {r : OrientedRoute} :
    r ∈ orient boxes routes ↔ r.route ∈ routes ∧ r.turned = (!r.route.isLoop &&
      Digraph.isBackward (boxLine boxes routes) r.route.source r.route.target) := by
  constructor
  · intro hr
    obtain ⟨route, hRoute, rfl⟩ := List.mem_map.mp hr
    exact ⟨hRoute, rfl⟩
  · rintro ⟨hRoute, hTurned⟩
    exact List.mem_map.mpr ⟨r.route, hRoute, by rw [← boxLine, ← hTurned]⟩

theorem WellRouted.upper_before_lower (h : WellRouted boxes routes) {r : OrientedRoute}
    (hr : r ∈ orient boxes routes) (hLoop : r.route.isLoop = false) :
    (boxLine boxes routes).idxOf r.upper < (boxLine boxes routes).idxOf r.lower := by
  obtain ⟨hRoute, hTurned⟩ := mem_orient_iff.mp hr
  rw [hLoop, Bool.not_false, Bool.true_and] at hTurned
  have hSource : r.route.source ∈ boxLine boxes routes :=
    (boxLine_perm h).mem_iff.mpr (h.source _ hRoute)
  have hNe : (boxLine boxes routes).idxOf r.route.source ≠
      (boxLine boxes routes).idxOf r.route.target := by
    intro hSame
    simp [Route.isLoop, (List.idxOf_inj hSource).mp hSame] at hLoop
  unfold OrientedRoute.upper OrientedRoute.lower
  cases hBackward : Digraph.isBackward (boxLine boxes routes) r.route.source r.route.target with
  | true =>
    rw [hTurned, hBackward, if_pos rfl, if_pos rfl]
    exact of_decide_eq_true hBackward
  | false =>
    rw [hTurned, hBackward, if_neg Bool.false_ne_true, if_neg Bool.false_ne_true]
    have := of_decide_eq_false hBackward
    omega

/-! ## The oriented graph -/

theorem orientedGraph_nodes (boxes : Boxes α) (rs : List OrientedRoute) :
    (orientedGraph boxes rs).nodes = boxes.keys := Digraph.nodes_foldl_addArc _ _ _

theorem mem_arcs_orientedGraph {rs : List OrientedRoute} {a : Arc α}
    (h : a ∈ (orientedGraph boxes rs).arcs) :
    ∃ r ∈ rs, r.route.isLoop = false ∧ a = ⟨r.upper, r.lower, r.weight boxes⟩ := by
  rcases Digraph.mem_arcs_foldl_addArc h with hNone | ⟨r, hr, hSame⟩
  · cases hNone
  · obtain ⟨hIn, hLoop⟩ := List.mem_filter.mp hr
    exact ⟨r, hIn, by simpa using hLoop, hSame⟩

theorem joins_orientedGraph (boxes : Boxes α) {rs : List OrientedRoute} {r : OrientedRoute}
    (hr : r ∈ rs) (hLoop : r.route.isLoop = false) :
    (orientedGraph boxes rs).Joins r.upper r.lower := by
  have hIn : r ∈ rs.filter fun r => !r.route.isLoop := List.mem_filter.mpr ⟨hr, by rw [hLoop]; rfl⟩
  let arcOf (r : OrientedRoute) : Arc α := ⟨r.upper, r.lower, r.weight boxes⟩
  exact Digraph.joins_foldl_addArc arcOf (.ofNodes boxes.keys) hIn

variable (h : WellRouted boxes routes)

include h

theorem WellRouted.arc_ends {a : Arc α}
    (ha : a ∈ (orientedGraph boxes (orient boxes routes)).arcs) :
    a.source ∈ boxes.keys ∧ a.target ∈ boxes.keys := by
  obtain ⟨r, hr, _, rfl⟩ := mem_arcs_orientedGraph ha
  have hRoute := (mem_orient_iff.mp hr).1
  exact ⟨h.upper_mem hRoute, h.lower_mem hRoute⟩

theorem WellRouted.arc_along_line {a : Arc α}
    (ha : a ∈ (orientedGraph boxes (orient boxes routes)).arcs) :
    (boxLine boxes routes).idxOf a.source < (boxLine boxes routes).idxOf a.target := by
  obtain ⟨r, hr, hLoop, rfl⟩ := mem_arcs_orientedGraph ha
  exact h.upper_before_lower hr hLoop

theorem WellRouted.not_joins_itself (n : String) :
    ¬ Relation.TransGen (orientedGraph boxes (orient boxes routes)).Joins n n :=
  Digraph.not_transGen_self (boxLine boxes routes).idxOf (fun _ ha => h.arc_along_line ha) n

theorem WellRouted.topologicalOrder_perm :
    (orientedGraph boxes (orient boxes routes)).topologicalOrder.Perm boxes.keys := by
  unfold Digraph.topologicalOrder
  rw [orientedGraph_nodes]
  exact Digraph.topologicalOrderOf_perm (boxLine boxes routes).idxOf
    (fun a ha => h.arc_along_line ha) h.distinct

end TypeDiagram.Layout
