import TypeDiagram.Proofs.Layout.Layering
import TypeDiagram.Proofs.Layout.Orientation

/-! # Arcs lead to later layers

In a topological order no node comes after one that it has an arc to. So when a node is visited, its
own layer is settled, and from then on its successors stay behind it.
-/

namespace TypeDiagram.Layout

variable {α : Type}

namespace Digraph

theorem mem_successors_iff (g : Digraph α) (source target : String) :
    target ∈ g.successors source ↔ g.Joins source target := by
  simp only [successors, arcsFrom, List.mem_map, List.mem_filter, beq_iff_eq, Joins, and_assoc]

theorem mem_predecessors_iff (g : Digraph α) (source target : String) :
    source ∈ g.predecessors target ↔ g.Joins source target := by
  simp only [predecessors, arcsInto, List.mem_map, List.mem_filter, beq_iff_eq, Joins, and_assoc,
    and_comm]

theorem topologicalOrderOf_subset (g : Digraph α) (remaining : List String) :
    g.topologicalOrderOf remaining ⊆ remaining := by
  rw [topologicalOrderOf]
  split
  · rename_i hLess
    have ih := g.topologicalOrderOf_subset (without remaining (g.ready remaining))
    refine List.append_subset.mpr ⟨List.filter_subset_self _, fun n hn => ?_⟩
    exact List.filter_subset_self _ (ih hn)
  · exact List.nil_subset _
termination_by remaining.length

theorem pairwise_topologicalOrderOf (g : Digraph α) (remaining : List String) :
    (g.topologicalOrderOf remaining).Pairwise fun x y => ¬ g.Joins y x := by
  -- No remaining node has an arc to one that is ready, be it taken in this round or later.
  have hReady : ∀ x ∈ g.ready remaining, ∀ y ∈ remaining, ¬ g.Joins y x := by
    intro x hx y hy hJoins
    have hAll := List.all_eq_true.mp (List.mem_filter.mp hx).2 y
      ((g.mem_predecessors_iff y x).mpr hJoins)
    simp [hy] at hAll
  rw [topologicalOrderOf]
  split
  · rename_i hLess
    have ih := g.pairwise_topologicalOrderOf (without remaining (g.ready remaining))
    refine List.pairwise_append.mpr ⟨?_, ih, ?_⟩
    · refine List.pairwise_of_forall_mem_list fun x hx y hy => ?_
      exact hReady x hx y (List.filter_subset_self _ hy)
    · intro x hx y hy
      exact hReady x hx y (List.filter_subset_self _ (g.topologicalOrderOf_subset _ hy))
  · exact .nil
termination_by remaining.length

end Digraph

namespace Layers

theorem of_relax {g : Digraph α} {node : String} (h : ¬ g.Joins node node) (layers : Layers)
    (n : String) : (relax g layers node).of n =
      if n ∈ g.successors node then Nat.max (layers.of n) (layers.of node + 1)
      else layers.of n := by
  rw [← g.mem_successors_iff] at h
  unfold relax
  generalize g.successors node = ss at h ⊢
  induction ss generalizing layers with
  | nil => rfl
  | cons s ss ih =>
    rw [List.mem_cons, not_or] at h
    have hMoved : ∀ m, of (layers.insert s (Nat.max (layers.of s) (layers.of node + 1))) m =
        if m = s then Nat.max (layers.of s) (layers.of node + 1) else layers.of m := by
      intro m
      unfold of
      rw [OrderedMap.get?_insert]
      split <;> rfl
    rw [List.foldl_cons, ih _ h.2, hMoved n, hMoved node, if_neg h.1]
    by_cases hSame : n = s
    · subst hSame
      simp only [List.mem_cons, true_or, if_true]
      split
      · exact Nat.max_eq_left (Nat.le_max_right _ _)
      · rfl
    · simp [hSame]

def Settled (g : Digraph α) (visited : List String) (layers : Layers) : Prop :=
  ∀ u ∈ visited, ∀ v, g.Joins u v → layers.of u < layers.of v

theorem Settled.relax {g : Digraph α} {visited : List String} {layers : Layers}
    (h : Settled g visited layers) {node : String} (hSelf : ¬ g.Joins node node)
    (hBehind : ∀ u ∈ visited, ¬ g.Joins node u) :
    Settled g (visited ++ [node]) (Layers.relax g layers node) := by
  intro u hu v hJoins
  have hJoined := (g.mem_successors_iff u v).mpr hJoins
  rw [of_relax hSelf, of_relax hSelf]
  rcases List.mem_append.mp hu with hVisited | hNode
  · have hBefore := h u hVisited v hJoins
    rw [if_neg (mt (g.mem_successors_iff node u).mp (hBehind u hVisited))]
    split
    · exact hBefore.trans_le (Nat.le_max_left _ _)
    · exact hBefore
  · rw [List.mem_singleton.mp hNode] at hJoined ⊢
    rw [if_neg (mt (g.mem_successors_iff node node).mp hSelf), if_pos hJoined]
    exact Nat.le_max_right _ _

theorem settled_assign {g : Digraph α} (hSelf : ∀ n, ¬ g.Joins n n) {order : List String}
    (hOrder : order.Pairwise fun x y => ¬ g.Joins y x) : Settled g order (assign g order) := by
  unfold assign
  induction order using List.reverseRecOn with
  | nil => exact fun _ hu => absurd hu List.not_mem_nil
  | append_singleton order node ih =>
    obtain ⟨hEarlier, _, hLast⟩ := List.pairwise_append.mp hOrder
    rw [List.foldl_append]
    exact (ih hEarlier).relax (hSelf node) fun u hu => hLast u hu node (List.mem_singleton_self _)

end Layers

variable [Coordinate α] {boxes : Boxes α} {routes : List Route}

theorem WellRouted.layer_upper_lt_lower (h : WellRouted boxes routes)
    (hPlain : ∀ id ∈ boxes.keys, isDummy id = false) {r : OrientedRoute}
    (hr : r ∈ orient boxes routes) (hLoop : r.route.isLoop = false) :
    (Layered.ofGraph boxes (orientedGraph boxes (orient boxes routes))).layers.of r.upper <
      (Layered.ofGraph boxes (orientedGraph boxes (orient boxes routes))).layers.of r.lower := by
  have hRoute := (mem_orient_iff.mp hr).1
  have hSelf : ∀ n, ¬ (orientedGraph boxes (orient boxes routes)).Joins n n := by
    rintro n ⟨a, ha, rfl, hSame⟩
    have := h.arc_along_line ha
    rw [hSame] at this
    exact absurd this (lt_irrefl _)
  rw [Layered.layer_ofGraph _ _ (hPlain _ (h.upper_mem hRoute)),
    Layered.layer_ofGraph _ _ (hPlain _ (h.lower_mem hRoute))]
  refine Layers.settled_assign hSelf (Digraph.pairwise_topologicalOrderOf _ _) _ ?_ _
    (joins_orientedGraph boxes hr hLoop)
  exact h.topologicalOrder_perm.mem_iff.mpr (h.upper_mem hRoute)

end TypeDiagram.Layout
