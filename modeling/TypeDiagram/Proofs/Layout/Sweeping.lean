import TypeDiagram.Proofs.Layout.Crossing
import TypeDiagram.Proofs.Layout.Relayout
import TypeDiagram.Proofs.Layout.Route

/-! # Sweeps leave the ordering with the fewest crossings

Sweeping goes on as long as the number of crossings falls, and what a sweep makes worse is dropped.
So the ordering that is kept has no more crossings than the first one and all that the sweeps led
to. Each of them is counted in full, as a place in a layer is wider than all handles of its node.
-/

namespace TypeDiagram.Layout

namespace Ordering

/-! ## Sweeps -/

section Sweeps

variable {α : Type} [Coordinate α] (g : Digraph α)

def swept : (fuel : Nat) → (current : Ordering) → List Ordering
  | 0, _ => []
  | fuel + 1, current =>
    let next := sweep g current
    next :: if crossings g next < crossings g current then swept fuel next else []

/-- What is kept is the first ordering, or one that a sweep led to, with the fewest crossings. -/
theorem improve_spec (fuel : Nat) (o : Ordering) :
    improve g fuel o ∈ o :: swept g fuel o ∧
      ∀ x ∈ o :: swept g fuel o, crossings g (improve g fuel o) ≤ crossings g x := by
  induction fuel generalizing o with
  | zero => simp [improve, swept]
  | succ fuel ih =>
    obtain ⟨hIn, hLeast⟩ := ih (sweep g o)
    rw [improve, swept]
    by_cases hFewer : crossings g (sweep g o) < crossings g o
    · simp only [hFewer, if_true]
      refine ⟨List.mem_cons_of_mem o hIn, List.forall_mem_cons.mpr ⟨?_, hLeast⟩⟩
      exact (hLeast _ List.mem_cons_self).trans hFewer.le
    · simp only [hFewer, if_false, List.mem_cons_self, true_and]
      simpa using Nat.le_of_not_lt hFewer

theorem sameLayers_of_mem_swept {fuel : Nat} {o x : Ordering} (h : x ∈ swept g fuel o) :
    SameLayers x o := by
  induction fuel generalizing o with
  | zero => cases h
  | succ fuel ih =>
    have hNext := sweep_sameLayers g o
    rcases List.mem_cons.mp h with rfl | hLater
    · exact hNext
    · split at hLater
      · exact (ih hLater).trans hNext
      · cases hLater

end Sweeps

theorem initial_sameLayers {α : Type} (l : Layered α) : SameLayers (initial l)
    ((List.range l.layers.count).map fun i =>
      l.layers.keys.filter fun n => l.layers.of n == i) := by
  exact List.forall₂_map_left_iff.mpr (List.forall₂_map_right_iff.mpr
    (List.forall₂_same.mpr fun i _ => (List.mergeSort_perm _ _).filter _))

end Ordering

/-! ## The arcs of a plan -/

namespace Layered

theorem nodup_ends_ofGraph {α : Type} [Coordinate α] (boxes : Boxes α) (g : Digraph α) :
    ((ofGraph boxes g).graph.arcs.map Arc.ends).Nodup :=
  graph_ofGraph_induction boxes (P := fun g' => (g'.arcs.map Arc.ends).Nodup) List.nodup_nil
    fun _ b _ h => Digraph.nodup_ends_setArc h b

theorem half_bounds : 0 ≤ (Coordinate.half : Rat) ∧ (Coordinate.half : Rat) < 1 := by
  decide +kernel

theorem weights_ofGraph (boxes : Boxes Rat) {g : Digraph Rat}
    (h : ∀ a ∈ g.arcs, 0 ≤ a.weight ∧ a.weight < 1) :
    ∀ a ∈ (ofGraph boxes g).graph.arcs, 0 ≤ a.weight ∧ a.weight < 1 := by
  refine graph_ofGraph_induction boxes
    (P := fun g' => ∀ a ∈ g'.arcs, 0 ≤ a.weight ∧ a.weight < 1)
    (fun a ha => absurd ha List.not_mem_nil) fun g' b hWeight ih a ha => ?_
  rcases Digraph.mem_arcs_setArc ha with hOld | rfl
  · exact ih a hOld
  · rcases hWeight with ⟨c, hc, hSame⟩ | hHalf
    · exact hSame ▸ h c hc
    · exact hHalf ▸ half_bounds

end Layered

section Read

variable {κ : Type} {request : Request Rat κ} {r : Resolved Rat}
  (hRead : resolveRequest request = .ok r)

include hRead

theorem weights_orientedGraph (routes : List OrientedRoute) :
    ∀ a ∈ (orientedGraph r.boxes routes).arcs, 0 ≤ a.weight ∧ a.weight < 1 := by
  intro a ha
  obtain ⟨route, _, _, rfl⟩ := mem_arcs_orientedGraph ha
  dsimp only
  unfold OrientedRoute.weight
  split
  · exact Layered.half_bounds
  · cases hBox : r.boxes.get? route.route.source with
    | none => exact Layered.half_bounds
    | some b =>
      obtain ⟨c, _, hOf⟩ := exists_child_of_get? (resolveRequest_eq_ok hRead).1 hBox
      rw [Option.map_some, Option.getD_some, Box.fraction, get?_readHandles hOf.handles]
      cases hFraction : c.fraction? (route.route.handle.getD .null) with
      | none => exact Layered.half_bounds
      | some f => exact (Child.fraction?_bounds hFraction).imp_left le_of_lt

/-- Crossings of a plan are counted as pairs of arcs, however the layers are ordered. -/
theorem crossings_planOf {o : Ordering}
    (h : Ordering.SameLayers o (Ordering.initial (planOf r).layered)) :
    Ordering.crossings (planOf r).layered.graph o =
      (Ordering.crossingArcs (planOf r).layered.graph o).ncard := by
  refine Ordering.crossings_eq_ncard ?_ ?_ ?_
  · exact Layered.nodup_ends_ofGraph _ _
  · exact Layered.weights_ofGraph _ (weights_orientedGraph hRead _)
  · exact h.flatten_perm.nodup_iff.mpr (Ordering.nodup_flatten_initial (nodup_layers_planOf hRead))

end Read

namespace Ordering

/-- Each layer is ordered as it was filled. Without seeds, no ordering that was tried has fewer
crossings; these are counted as pairs of arcs with their ends in opposite orders. -/
theorem sweeps_leave_fewest_crossings {κ : Type} {request : Request Rat κ} {r : Resolved Rat}
    (hRead : resolveRequest request = .ok r) :
    let l := (planOf r).layered
    let o := (planOf r).ordering
    let tried := initial l :: swept l.graph sweepLimit (initial l)
    SameLayers o ((List.range l.layers.count).map fun i =>
        l.layers.keys.filter fun n => l.layers.of n == i) ∧
      ((∀ c ∈ request.children, c.isSeeded = false) →
        o ∈ tried ∧ ∀ x ∈ tried, crossings l.graph o ≤ crossings l.graph x) ∧
      ∀ x ∈ o :: tried, crossings l.graph x = (crossingArcs l.graph x).ncard := by
  intro l o tried
  have hSame : SameLayers o (initial l) := by
    rw [show o = Ordering.of l r.spacing.horizontal from planOf_ordering r]
    exact of_sameLayers l r.spacing.horizontal
  refine ⟨hSame.trans (initial_sameLayers l), fun hFree => ?_, fun x hx => ?_⟩
  · have hKept : o = improve l.graph sweepLimit (initial l) := ordering_of_free hRead hFree
    rw [hKept]
    exact improve_spec l.graph sweepLimit (initial l)
  · refine crossings_planOf hRead ?_
    rcases List.mem_cons.mp hx with hKept | hTried
    · rwa [hKept]
    · rcases List.mem_cons.mp hTried with hFirst | hSwept
      · rw [hFirst]
        exact .refl _
      · exact sameLayers_of_mem_swept l.graph hSwept

/-- The edges from the two handles of a child cross at first, and no more after the first sweep. -/
theorem crossed_handles_are_swept :
    let child (id : String) (handles : List (Handle Rat)) : Child Rat Unit :=
      ⟨some id, none, none, none, none, handles, ()⟩
    let handle (id : String) (order : Rat) : Handle Rat :=
      ⟨some (.text id), .number order, some "EAST"⟩
    let edge (source target : String) : Link Unit := ⟨.absent, [.text source], [.text target], ()⟩
    let request : Request Rat Unit :=
      ⟨[], [child "A" [handle "A-b" 1, handle "A-c" 0], child "B" [], child "C" []],
        [edge "A-b" "B", edge "A-c" "C"]⟩
    ∃ r, resolveRequest request = .ok r ∧
      let l := (planOf r).layered
      let o := (planOf r).ordering
      let tried := initial l :: swept l.graph sweepLimit (initial l)
      SameLayers o ((List.range l.layers.count).map fun i =>
          l.layers.keys.filter fun n => l.layers.of n == i) ∧
        (o ∈ tried ∧ ∀ x ∈ tried, crossings l.graph o ≤ crossings l.graph x) ∧
        (∀ x ∈ o :: tried, crossings l.graph x = (crossingArcs l.graph x).ncard) ∧
        crossings l.graph (initial l) = 1 ∧ crossings l.graph o = 0 ∧
        o = [["A"], ["C", "B"]] := by
  intro child handle edge request
  have hFree : ∀ c ∈ request.children, c.isSeeded = false := by decide +kernel
  have hCounted : (resolveRequest request).toOption.map (fun r =>
      let l := (planOf r).layered
      let o := (planOf r).ordering
      (crossings l.graph (initial l), crossings l.graph o, o)) =
        some (1, 0, [["A"], ["C", "B"]]) := by cbv
  cases hRead : resolveRequest request with
  | error e =>
    rw [hRead] at hCounted
    cases hCounted
  | ok r =>
    obtain ⟨hSame, hFewest, hPairs⟩ := sweeps_leave_fewest_crossings hRead
    rw [hRead] at hCounted
    simp only [Except.toOption, Option.map_some, Option.some.injEq, Prod.mk.injEq] at hCounted
    exact ⟨r, rfl, hSame, hFewest hFree, hPairs, hCounted⟩

end Ordering

end TypeDiagram.Layout
