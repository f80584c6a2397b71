import TypeDiagram.Proofs.Layout.LongestPath
import Mathlib.Data.Finset.Card
import Mathlib.Data.List.Chain
import Mathlib.Order.Bounds.Basic

/-! # A layer is the length of the longest path to it

Nodes are visited in a topological order, so a node has its final layer when it is visited. Then
every arc leads to a later layer, and a node that is not in the first layer has been moved behind a
node of the layer just before. These two facts determine the layers: paths cannot be longer, and
from node to node before it one of this length is traced back. So no topological order gives other
layers than another one.
-/

namespace TypeDiagram.Layout

variable {α : Type}

namespace Digraph

/-- The nodes follow one another along arcs, and none comes twice. -/
def IsPath (g : Digraph α) (nodes : List String) : Prop := nodes.Nodup ∧ nodes.IsChain g.Joins

def IsDepth (g : Digraph α) (n : String) (depth : Nat) : Prop :=
  IsGreatest {k | ∃ before, g.IsPath (before ++ [n]) ∧ before.length = k} depth

structure IsTopological (g : Digraph α) (order : List String) : Prop where
  nodes : order.Perm g.nodes
  forward : ∀ source target, g.Joins source target → order.idxOf source < order.idxOf target

structure IsProper (g : Digraph α) : Prop where
  nodes : g.nodes.Nodup
  ends : ∀ source target, g.Joins source target → source ∈ g.nodes ∧ target ∈ g.nodes

/-! ## Topological orders -/

theorem IsTopological.pairwise {g : Digraph α} {order : List String} (h : g.IsTopological order)
    (hNodes : g.nodes.Nodup) : order.Pairwise fun x y => ¬ g.Joins y x := by
  have hNodup : order.Nodup := h.nodes.nodup_iff.mpr hNodes
  rw [List.pairwise_iff_getElem]
  intro i j hi hj hLess hJoins
  have hBack := h.forward _ _ hJoins
  rw [hNodup.idxOf_getElem, hNodup.idxOf_getElem] at hBack
  omega

/-- The number of nodes that lead to a node grows along the arcs of a graph without cycles. -/
theorem exists_rank {g : Digraph α} (h : g.IsProper)
    (hAcyclic : ∀ n, ¬ Relation.TransGen g.Joins n n) :
    ∃ rank : String → Nat, ∀ a ∈ g.arcs, rank a.source < rank a.target := by
  classical
  let leading (n : String) : Finset String :=
    g.nodes.toFinset.filter fun m => Relation.TransGen g.Joins m n
  refine ⟨fun n => (leading n).card, fun a ha => Finset.card_lt_card ?_⟩
  have hJoins : g.Joins a.source a.target := ⟨a, ha, rfl, rfl⟩
  rw [Finset.ssubset_iff_of_subset]
  · refine ⟨a.source, ?_, fun hSelf => hAcyclic _ (Finset.mem_filter.mp hSelf).2⟩
    exact Finset.mem_filter.mpr ⟨List.mem_toFinset.mpr (h.ends _ _ hJoins).1, .single hJoins⟩
  · intro m hm
    obtain ⟨hNode, hPath⟩ := Finset.mem_filter.mp hm
    exact Finset.mem_filter.mpr ⟨hNode, hPath.tail hJoins⟩

theorem isTopological_topologicalOrder {g : Digraph α} (h : g.IsProper)
    (hAcyclic : ∀ n, ¬ Relation.TransGen g.Joins n n) : g.IsTopological g.topologicalOrder := by
  obtain ⟨rank, hRank⟩ := exists_rank h hAcyclic
  have hPerm : g.topologicalOrder.Perm g.nodes := topologicalOrderOf_perm rank hRank h.nodes
  refine ⟨hPerm, fun source target hJoins => ?_⟩
  obtain ⟨hSource, hTarget⟩ := h.ends source target hJoins
  have hFirst := List.idxOf_lt_length_of_mem (hPerm.mem_iff.mpr hSource)
  have hSecond := List.idxOf_lt_length_of_mem (hPerm.mem_iff.mpr hTarget)
  -- Were the target not behind the source, it would be the source itself or have an arc back to it.
  rcases lt_trichotomy (g.topologicalOrder.idxOf source) (g.topologicalOrder.idxOf target) with
    hLess | hSame | hMore
  · exact hLess
  · rw [List.idxOf_inj (hPerm.mem_iff.mpr hSource)] at hSame
    exact absurd (.single (hSame ▸ hJoins)) (hAcyclic source)
  · have hOrder : g.topologicalOrder.Pairwise fun x y => ¬ g.Joins y x :=
      g.pairwise_topologicalOrderOf g.nodes
    have hNot := List.pairwise_iff_getElem.mp hOrder _ _ hSecond hFirst hMore
    rw [List.getElem_idxOf, List.getElem_idxOf] at hNot
    exact absurd hJoins hNot

end Digraph

namespace Layers

/-! ## One visit -/

/-- A node behind the first layer has an arc from a visited node in the layer before. -/
def Attained (g : Digraph α) (visited : List String) (layers : Layers) : Prop :=
  ∀ n, layers.of n = 0 ∨ ∃ p ∈ visited, g.Joins p n ∧ layers.of p + 1 = layers.of n

theorem Attained.relax {g : Digraph α} {visited : List String} {layers : Layers}
    (h : Attained g visited layers) {node : String} (hSelf : ¬ g.Joins node node)
    (hBehind : ∀ u ∈ visited, ¬ g.Joins node u) :
    Attained g (visited ++ [node]) (Layers.relax g layers node) := by
  intro n
  have hNode : (Layers.relax g layers node).of node = layers.of node := by
    rw [of_relax hSelf, if_neg (mt (g.mem_successors_iff node node).mp hSelf)]
  have hVisited : ∀ p ∈ visited, (Layers.relax g layers node).of p = layers.of p := by
    intro p hp
    rw [of_relax hSelf, if_neg (mt (g.mem_successors_iff node p).mp (hBehind p hp))]
  have hOld : (Layers.relax g layers node).of n = layers.of n →
      (Layers.relax g layers node).of n = 0 ∨ ∃ p ∈ visited ++ [node],
        g.Joins p n ∧
          (Layers.relax g layers node).of p + 1 = (Layers.relax g layers node).of n := by
    intro hSame
    rw [hSame]
    refine (h n).imp_right fun ⟨p, hp, hJoins, hLayer⟩ => ?_
    exact ⟨p, List.mem_append_left _ hp, hJoins, by rw [hVisited p hp, hLayer]⟩
  rw [of_relax hSelf] at hOld ⊢
  split at hOld
  · rename_i hJoined
    rw [if_pos hJoined]
    rcases Nat.le_total (layers.of node + 1) (layers.of n) with hLess | hMore
    · exact hOld (Nat.max_eq_left hLess)
    · right
      refine ⟨node, by simp, (g.mem_successors_iff node n).mp hJoined, ?_⟩
      rw [hNode]
      exact (Nat.max_eq_right hMore).symm
  · rename_i hNot
    rw [if_neg hNot]
    exact hOld rfl

theorem attained_assign {g : Digraph α} (hSelf : ∀ n, ¬ g.Joins n n) {order : List String}
    (hOrder : order.Pairwise fun x y => ¬ g.Joins y x) : Attained g order (assign g order) := by
  unfold assign
  induction order using List.reverseRecOn with
  | nil =>
    intro n
    left
    rw [List.foldl_nil, of]
    cases hGet : OrderedMap.get? (⟨g.nodes.map fun n => (n, 0)⟩ : Layers) n with
    | none => rfl
    | some layer =>
      obtain ⟨m, _, hSame⟩ := List.mem_map.mp (OrderedMap.mem_entries_of_get? hGet)
      exact (congrArg Prod.snd hSame).symm
  | append_singleton order node ih =>
    obtain ⟨hEarlier, _, hLast⟩ := List.pairwise_append.mp hOrder
    rw [List.foldl_append]
    exact (ih hEarlier).relax (hSelf node) fun u hu => hLast u hu node (List.mem_singleton_self _)

/-! ## Layers that paths determine -/

/-- The layers are the lengths of longest paths. Arcs lead to later layers, a node behind the first
layer has one from the layer just before, and so no layer up to that of a node is empty. -/
structure MeasurePaths (layers : Layers) (g : Digraph α) : Prop where
  depth : ∀ n ∈ g.nodes, g.IsDepth n (layers.of n)
  later : ∀ source target, g.Joins source target → layers.of source < layers.of target
  behind : ∀ n ∈ g.nodes, 0 < layers.of n → ∃ p, g.Joins p n ∧ layers.of p + 1 = layers.of n
  filled : ∀ n ∈ g.nodes, ∀ i ≤ layers.of n, ∃ m ∈ g.nodes, layers.of m = i

section Paths

variable {g : Digraph α} {layers : Layers}

theorem length_le_of_isChain
    (hLater : ∀ source target, g.Joins source target → layers.of source < layers.of target)
    {before : List String} {n : String} (hChain : (before ++ [n]).IsChain g.Joins) :
    before.length ≤ layers.of n := by
  induction before using List.reverseRecOn generalizing n with
  | nil => exact Nat.zero_le _
  | append_singleton before p ih =>
    rw [List.append_assoc, List.singleton_append, List.isChain_append_cons_cons] at hChain
    have hBefore := ih hChain.1
    have hLess := hLater p n hChain.2.1
    rw [List.length_append, List.length_singleton]
    omega

theorem nodup_of_isChain
    (hLater : ∀ source target, g.Joins source target → layers.of source < layers.of target)
    {nodes : List String} (hChain : nodes.IsChain g.Joins) : nodes.Nodup := by
  have hLayers : (nodes.map layers.of).IsChain (· < ·) :=
    List.isChain_map_of_isChain _ hLater hChain
  exact (List.isChain_iff_pairwise.mp hLayers).nodup.of_map

theorem exists_isChain
    (hBehind : ∀ n, layers.of n = 0 ∨ ∃ p, g.Joins p n ∧ layers.of p + 1 = layers.of n)
    (n : String) : ∃ before, (before ++ [n]).IsChain g.Joins ∧ before.length = layers.of n := by
  induction hDepth : layers.of n generalizing n with
  | zero => exact ⟨[], .singleton n, rfl⟩
  | succ depth ih =>
    obtain ⟨p, hJoins, hLayer⟩ := (hBehind n).resolve_left (by omega)
    obtain ⟨before, hChain, hLength⟩ := ih p (by omega)
    refine ⟨before ++ [p], ?_, by rw [List.length_append, hLength]; rfl⟩
    rw [List.append_assoc, List.singleton_append, List.isChain_append_cons_cons]
    exact ⟨hChain, hJoins, .singleton n⟩

theorem measurePaths_of (h : g.IsProper)
    (hLater : ∀ source target, g.Joins source target → layers.of source < layers.of target)
    (hBehind : ∀ n, layers.of n = 0 ∨ ∃ p, g.Joins p n ∧ layers.of p + 1 = layers.of n) :
    layers.MeasurePaths g where
  depth n _ := by
    obtain ⟨before, hChain, hLength⟩ := exists_isChain hBehind n
    refine ⟨⟨before, ⟨nodup_of_isChain hLater hChain, hChain⟩, hLength⟩, ?_⟩
    rintro k ⟨other, hPath, rfl⟩
    exact length_le_of_isChain hLater hPath.2
  later := hLater
  behind n _ hPositive := (hBehind n).resolve_left hPositive.ne'
  filled n hn i hi := by
    obtain ⟨steps, hSteps⟩ := Nat.exists_eq_add_of_le hi
    induction steps generalizing n with
    | zero => exact ⟨n, hn, hSteps⟩
    | succ steps ih =>
      obtain ⟨p, hJoins, hLayer⟩ := (hBehind n).resolve_left (by omega)
      exact ih p (h.ends p n hJoins).1 (by omega) (by omega)

end Paths

theorem measurePaths_assign {g : Digraph α} (h : g.IsProper)
    (hAcyclic : ∀ n, ¬ Relation.TransGen g.Joins n n) {order : List String}
    (hOrder : g.IsTopological order) : (assign g order).MeasurePaths g := by
  have hSelf : ∀ n, ¬ g.Joins n n := fun n hLoop => hAcyclic n (.single hLoop)
  have hForward := hOrder.pairwise h.nodes
  refine measurePaths_of h (fun source target hJoins => ?_) fun n => ?_
  · refine settled_assign hSelf hForward source ?_ target hJoins
    exact hOrder.nodes.mem_iff.mpr (h.ends source target hJoins).1
  · refine (attained_assign hSelf hForward n).imp_right ?_
    rintro ⟨p, _, hBefore⟩
    exact ⟨p, hBefore⟩

theorem keys_assign {g : Digraph α} (h : g.IsProper) (order : List String) :
    (assign g order).keys = g.nodes := by
  have hRelax : ∀ (node : String) (layers : Layers), layers.keys = g.nodes →
      (relax g layers node).keys = g.nodes := by
    intro node layers hKeys
    have hIn : ∀ s ∈ g.successors node, s ∈ g.nodes := fun s hs =>
      (h.ends node s ((g.mem_successors_iff node s).mp hs)).2
    unfold relax
    generalize g.successors node = ss at hIn
    induction ss generalizing layers with
    | nil => exact hKeys
    | cons s ss ih =>
      refine ih _ ?_ fun t ht => hIn t (List.mem_cons_of_mem _ ht)
      rw [OrderedMap.keys_insert, hKeys, if_pos (hIn s List.mem_cons_self)]
  unfold assign
  induction order using List.reverseRecOn with
  | nil =>
    rw [List.foldl_nil, OrderedMap.keys, List.map_map]
    exact List.map_id _
  | append_singleton order node ih =>
    rw [List.foldl_append]
    exact hRelax node _ ih

theorem assign_eq_of_isTopological {g : Digraph α} (h : g.IsProper)
    (hAcyclic : ∀ n, ¬ Relation.TransGen g.Joins n n) {order other : List String}
    (hOrder : g.IsTopological order) (hOther : g.IsTopological other) :
    assign g order = assign g other := by
  have hKeys := keys_assign h order
  have hKeys' := keys_assign h other
  refine OrderedMap.eq_of_get? (hKeys.trans hKeys'.symm) (hKeys ▸ h.nodes) fun n hn => ?_
  obtain ⟨i, hi⟩ := OrderedMap.mem_keys_iff_exists.mp hn
  obtain ⟨j, hj⟩ := OrderedMap.mem_keys_iff_exists.mp (hKeys' ▸ hKeys ▸ hn)
  have hNode : n ∈ g.nodes := hKeys ▸ hn
  have hSame := ((measurePaths_assign h hAcyclic hOrder).depth n hNode).unique
    ((measurePaths_assign h hAcyclic hOther).depth n hNode)
  rw [of, of, hi, hj] at hSame
  rw [hi, hj]
  exact congrArg some hSame

/-- The layers of a graph without cycles are the lengths of longest paths, in whichever topological
order its nodes are visited. -/
theorem layers_are_longest_paths {g : Digraph α} (h : g.IsProper)
    (hAcyclic : ∀ n, ¬ Relation.TransGen g.Joins n n) :
    g.IsTopological g.topologicalOrder ∧ ∀ order, g.IsTopological order →
      (assign g order).keys = g.nodes ∧ (assign g order).MeasurePaths g ∧
        assign g order = assign g g.topologicalOrder := by
  have hStandard := Digraph.isTopological_topologicalOrder h hAcyclic
  refine ⟨hStandard, fun order hOrder => ⟨keys_assign h order, ?_, ?_⟩⟩
  · exact measurePaths_assign h hAcyclic hOrder
  · exact assign_eq_of_isTopological h hAcyclic hOrder hStandard

/-- Two nodes of a diamond have no arc into them, so there are several topological orders; the last
node is as far behind the first one as the longer of the two ways to it. -/
theorem layers_of_diamond_are_longest_paths :
    let g : Digraph Unit := ⟨["A", "B", "C", "D"],
      [⟨"A", "C", ()⟩, ⟨"A", "B", ()⟩, ⟨"D", "C", ()⟩, ⟨"B", "C", ()⟩]⟩
    let order := ["D", "A", "B", "C"]
    g.IsTopological g.topologicalOrder ∧ g.IsTopological order ∧
      (assign g order).keys = g.nodes ∧ (assign g order).MeasurePaths g ∧
        assign g order = assign g g.topologicalOrder := by
  intro g order
  have hRank : ∀ a ∈ g.arcs, order.idxOf a.source < order.idxOf a.target := by decide
  have hEnds : ∀ a ∈ g.arcs, a.source ∈ g.nodes ∧ a.target ∈ g.nodes := by decide
  have hProper : g.IsProper := by
    refine ⟨by decide, ?_⟩
    rintro _ _ ⟨a, ha, rfl, rfl⟩
    exact hEnds a ha
  have hOrder : g.IsTopological order := by
    refine ⟨by decide, ?_⟩
    rintro _ _ ⟨a, ha, rfl, rfl⟩
    exact hRank a ha
  obtain ⟨hStandard, hAll⟩ :=
    layers_are_longest_paths hProper (Digraph.not_transGen_self order.idxOf hRank)
  exact ⟨hStandard, hOrder, hAll order hOrder⟩

end Layers

end TypeDiagram.Layout
