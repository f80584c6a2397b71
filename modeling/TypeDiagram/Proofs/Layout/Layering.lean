import TypeDiagram.Layout.Layering
import TypeDiagram.Proofs.Layout.Digraph
import TypeDiagram.Proofs.OrderedMap

/-! # All that is in a layer has a box

Splitting the arcs of a graph into chains keeps the boxes that were there, unless a box has the id
of a dummy, and adds a box for each dummy. Whatever is looked up later is there: a layer for both
ends of each arc, a box for all that is in a layer, and a chain for each arc of the graph.
-/

namespace TypeDiagram.Layout

variable {α : Type}

/-! ## Layers of a graph -/

namespace Layers

theorem mem_keys_relax (g : Digraph α) (layers : Layers) (node n : String) :
    n ∈ (relax g layers node).keys ↔ n ∈ layers.keys ∨ n ∈ g.successors node := by
  unfold relax
  induction g.successors node generalizing layers with
  | nil => simp
  | cons s ss ih =>
    rw [List.foldl_cons, ih, OrderedMap.mem_keys_insert, List.mem_cons]
    tauto

/-- The nodes of a graph have layers, and nothing else, if its arcs end in nodes. -/
theorem mem_keys_assign {g : Digraph α} (hTargets : ∀ a ∈ g.arcs, a.target ∈ g.nodes)
    (order : List String) (n : String) : n ∈ (assign g order).keys ↔ n ∈ g.nodes := by
  unfold assign
  induction order using List.reverseRecOn with
  | nil => simp [OrderedMap.keys]
  | append_singleton order node ih =>
    rw [List.foldl_append, List.foldl_cons, List.foldl_nil, mem_keys_relax, ih, or_iff_left_iff_imp]
    intro hSuccessor
    obtain ⟨a, ha, rfl⟩ := List.mem_map.mp hSuccessor
    exact hTargets a (List.mem_filter.mp ha).1

end Layers

variable [Coordinate α]

/-! ## Boxes that are kept -/

/-- Every box of the first map is in the second one, perhaps at another position. One with the id of
a dummy may have been replaced by a box that takes no room. -/
def Boxes.Keeps (old new : Boxes α) : Prop :=
  ∀ id b, old.get? id = some b → ∃ b', new.get? id = some b' ∧
    ((∃ position, b' = { b with position }) ∨
      isDummy id = true ∧ b'.size = ⟨Coordinate.nat 0, Coordinate.nat 0⟩)

namespace Boxes.Keeps

variable {first second third : Boxes α}

theorem refl (boxes : Boxes α) : Boxes.Keeps boxes boxes :=
  fun _ b h => ⟨b, h, .inl ⟨b.position, rfl⟩⟩

theorem trans (h : first.Keeps second) (h' : second.Keeps third) : first.Keeps third := by
  intro id b hb
  obtain ⟨c, hc, hFirst⟩ := h id b hb
  obtain ⟨d, hd, hSecond⟩ := h' id c hc
  refine ⟨d, hd, ?_⟩
  rcases hFirst with ⟨_, rfl⟩ | ⟨hDummy, hZero⟩
  · rcases hSecond with ⟨position, rfl⟩ | hReplaced
    · exact .inl ⟨position, rfl⟩
    · exact .inr hReplaced
  · rcases hSecond with ⟨_, rfl⟩ | hReplaced
    · exact .inr ⟨hDummy, hZero⟩
    · exact .inr hReplaced

theorem mem_keys (h : first.Keeps second) {id : String} (hIn : id ∈ first.keys) :
    id ∈ second.keys := by
  obtain ⟨b, hb⟩ := OrderedMap.mem_keys_iff_exists.mp hIn
  obtain ⟨c, hc, _⟩ := h id b hb
  exact OrderedMap.mem_keys_of_get? hc

theorem insert_dummy (boxes : Boxes α) {id : String} (hDummy : isDummy id = true) {b : Box α}
    (hSize : b.size = ⟨Coordinate.nat 0, Coordinate.nat 0⟩) : boxes.Keeps (boxes.insert id b) := by
  intro other c hc
  rw [OrderedMap.get?_insert]
  by_cases hOther : other = id
  · rw [if_pos hOther, hOther]
    exact ⟨b, rfl, .inr ⟨hDummy, hSize⟩⟩
  · rw [if_neg hOther]
    exact ⟨c, hc, .inl ⟨c.position, rfl⟩⟩

end Boxes.Keeps

def dummyBox (index : Nat) : Box α :=
  ⟨⟨Coordinate.nat 0, Coordinate.nat 0⟩, index, none, .empty, ⟨Coordinate.nat 0, Coordinate.nat 0⟩⟩

theorem isDummy_dummyId (arc step : Nat) : isDummy (Layered.dummyId arc step) = true := by
  unfold isDummy Layered.dummyId
  simp [String.isPrefixOf]

/-! ## Chains -/

namespace Layered

/-- All that is looked up in the layers is there: what is in a layer has a box and is known to the
graph, the arcs end in layers, and so do the chains. -/
structure Housed (l : Layered α) : Prop where
  boxed : ∀ n ∈ l.layers.keys, n ∈ l.boxes.keys
  known : ∀ n ∈ l.layers.keys, n ∈ l.graph.nodes ∨ ∃ m, l.graph.Joins m n ∨ l.graph.Joins n m
  ends : ∀ source target, l.graph.Joins source target →
    source ∈ l.layers.keys ∧ target ∈ l.layers.keys
  chained : ∀ ends chain, l.chains.get? ends = some chain → ∀ d ∈ chain, d ∈ l.layers.keys

structure Grows (l l' : Layered α) : Prop where
  boxes : l.boxes.Keeps l'.boxes
  layers : ∀ n ∈ l.layers.keys, n ∈ l'.layers.keys
  chains : ∀ ends ∈ l.chains.keys, ends ∈ l'.chains.keys

theorem Grows.refl (l : Layered α) : l.Grows l :=
  ⟨.refl l.boxes, fun _ h => h, fun _ h => h⟩

theorem Grows.trans {first second third : Layered α} (h : first.Grows second)
    (h' : second.Grows third) : first.Grows third :=
  ⟨h.boxes.trans h'.boxes, fun n hn => h'.layers n (h.layers n hn),
    fun ends hIn => h'.chains ends (h.chains ends hIn)⟩

structure Growth.Rooted (l : Layered α) (g : Growth α) : Prop where
  grows : l.Grows g.layered
  housed : g.layered.Housed
  previous : g.previous ∈ g.layered.layers.keys
  chain : ∀ d ∈ g.chain, d ∈ g.layered.layers.keys

omit [Coordinate α] in
theorem Housed.setArc {l : Layered α} (h : l.Housed) {a : Arc α}
    (hSource : a.source ∈ l.layers.keys) (hTarget : a.target ∈ l.layers.keys) :
    Housed { l with graph := l.graph.setArc a } where
  boxed := h.boxed
  known n hn := by
    rw [Digraph.setArc_nodes]
    rcases h.known n hn with hNode | ⟨m, hInto | hFrom⟩
    · exact .inl hNode
    · exact .inr ⟨m, .inl ((Digraph.joins_setArc_iff _ _ _ _).mpr (.inl hInto))⟩
    · exact .inr ⟨m, .inr ((Digraph.joins_setArc_iff _ _ _ _).mpr (.inl hFrom))⟩
  ends source target hJoins := by
    rcases (Digraph.joins_setArc_iff _ _ _ _).mp hJoins with hOld | ⟨rfl, rfl⟩
    · exact h.ends source target hOld
    · exact ⟨hSource, hTarget⟩
  chained := h.chained

omit [Coordinate α] in
theorem Housed.addDummy {l : Layered α} (h : l.Housed) {previous dummy : String} {b : Box α}
    {layer : Nat} {weight : α} (hPrevious : previous ∈ l.layers.keys) :
    Housed { l with
      boxes := l.boxes.insert dummy b
      layers := l.layers.insert dummy layer
      graph := l.graph.setArc ⟨previous, dummy, weight⟩ } where
  boxed n hn := by
    rw [OrderedMap.mem_keys_insert] at hn ⊢
    exact hn.imp_right (h.boxed n)
  known n hn := by
    rw [Digraph.setArc_nodes]
    simp only [Digraph.joins_setArc_iff]
    rcases (OrderedMap.mem_keys_insert _ _ _ _).mp hn with rfl | hOld
    · exact .inr ⟨previous, .inl (.inr ⟨rfl, rfl⟩)⟩
    · rcases h.known n hOld with hNode | ⟨m, hInto | hFrom⟩
      · exact .inl hNode
      · exact .inr ⟨m, .inl (.inl hInto)⟩
      · exact .inr ⟨m, .inr (.inl hFrom)⟩
  ends source target hJoins := by
    simp only [OrderedMap.mem_keys_insert]
    rcases (Digraph.joins_setArc_iff _ _ _ _).mp hJoins with hOld | ⟨rfl, rfl⟩
    · exact (h.ends source target hOld).imp .inr .inr
    · exact ⟨.inr hPrevious, .inl rfl⟩
  chained ends chain hChain d hd := by
    rw [OrderedMap.mem_keys_insert]
    exact .inr (h.chained ends chain hChain d hd)

theorem Growth.Rooted.grow {l : Layered α} {g : Growth α} (h : g.Rooted l) (number : Nat)
    (a : Arc α) (step : Nat) : (Layered.grow number a g step).Rooted l where
  grows := h.grows.trans ⟨.insert_dummy _ (isDummy_dummyId number step) rfl,
    fun _ hn => (OrderedMap.mem_keys_insert _ _ _ _).mpr (.inr hn), fun _ hIn => hIn⟩
  housed := h.housed.addDummy h.previous
  previous := (OrderedMap.mem_keys_insert _ _ _ _).mpr (.inl rfl)
  chain d hd := by
    rw [Layered.grow, OrderedMap.mem_keys_insert]
    rcases List.mem_append.mp hd with hOld | hNew
    · exact .inr (h.chain d hOld)
    · exact .inl (List.mem_singleton.mp hNew)

/-- The last arc of a chain is set, and the chain is filed under the ends of the arc it replaces. -/
theorem Growth.Rooted.close {l : Layered α} {g : Growth α} (h : g.Rooted l) (ends : String × String)
    {target : String} (hTarget : target ∈ l.layers.keys) (weight : α) :
    let closed : Layered α := { g.layered with
      graph := g.layered.graph.setArc ⟨g.previous, target, weight⟩
      chains := g.layered.chains.insert ends g.chain }
    closed.Housed ∧ l.Grows closed ∧ ends ∈ closed.chains.keys := by
  intro closed
  have hArc := h.housed.setArc (a := ⟨g.previous, target, weight⟩) h.previous
    (h.grows.layers target hTarget)
  refine ⟨⟨hArc.boxed, hArc.known, hArc.ends, ?_⟩, ⟨h.grows.boxes, h.grows.layers, ?_⟩, ?_⟩
  · intro other chain hChain
    rw [OrderedMap.get?_insert] at hChain
    split at hChain
    · rw [← Option.some.inj hChain]
      exact h.chain
    · exact h.housed.chained other chain hChain
  · intro other hIn
    exact (OrderedMap.mem_keys_insert _ _ _ _).mpr (.inr (h.grows.chains other hIn))
  · exact (OrderedMap.mem_keys_insert _ _ _ _).mpr (.inl rfl)

theorem Housed.addChain {l : Layered α} (h : l.Housed) {a : Arc α}
    (hSource : a.source ∈ l.layers.keys) (hTarget : a.target ∈ l.layers.keys) (number : Nat) :
    (l.addChain a number).Housed ∧ l.Grows (l.addChain a number) ∧
      (a.source, a.target) ∈ (l.addChain a number).chains.keys := by
  have hGrown : ∀ steps : List Nat, (steps.foldl (grow number a) ⟨l, [], a.source⟩).Rooted l := by
    intro steps
    induction steps using List.reverseRecOn with
    | nil => exact ⟨.refl l, h, hSource, fun _ hd => absurd hd List.not_mem_nil⟩
    | append_singleton steps step ih =>
      rw [List.foldl_append]
      exact ih.grow number a step
  exact (hGrown _).close (a.source, a.target) hTarget _

theorem Housed.addChains {start : Layered α} (h : start.Housed) {arcs : List (Arc α × Nat)}
    (hEnds : ∀ e ∈ arcs, e.1.source ∈ start.layers.keys ∧ e.1.target ∈ start.layers.keys) :
    let split := arcs.foldl (fun l e => l.addChain e.1 e.2) start
    split.Housed ∧ start.Grows split ∧
      ∀ e ∈ arcs, (e.1.source, e.1.target) ∈ split.chains.keys := by
  induction arcs using List.reverseRecOn with
  | nil => exact ⟨h, .refl start, fun _ he => absurd he List.not_mem_nil⟩
  | append_singleton arcs last ih =>
    obtain ⟨hHoused, hGrows, hChains⟩ := ih fun e he => hEnds e (List.mem_append_left _ he)
    obtain ⟨hSource, hTarget⟩ := hEnds last (by simp)
    obtain ⟨hNext, hMore, hLast⟩ :=
      hHoused.addChain (hGrows.layers _ hSource) (hGrows.layers _ hTarget) last.2
    rw [List.foldl_append]
    refine ⟨hNext, hGrows.trans hMore, fun e he => ?_⟩
    rcases List.mem_append.mp he with hEarlier | hSame
    · exact hMore.chains _ (hChains e hEarlier)
    · rw [List.mem_singleton.mp hSame]
      exact hLast

/-- Splitting all arcs of a graph whose nodes have boxes keeps the boxes, gives each node a layer
and each arc a chain. -/
theorem housed_ofGraph {boxes : Boxes α} {g : Digraph α} (hBoxes : ∀ n ∈ g.nodes, n ∈ boxes.keys)
    (hArcs : ∀ a ∈ g.arcs, a.source ∈ g.nodes ∧ a.target ∈ g.nodes) :
    (ofGraph boxes g).Housed ∧ boxes.Keeps (ofGraph boxes g).boxes ∧
      (∀ n ∈ g.nodes, n ∈ (ofGraph boxes g).layers.keys) ∧
      ∀ a ∈ g.arcs, (a.source, a.target) ∈ (ofGraph boxes g).chains.keys := by
  have hLayers := Layers.mem_keys_assign (fun a ha => (hArcs a ha).2) g.topologicalOrder
  let start : Layered α := ⟨boxes, Layers.assign g g.topologicalOrder, .ofNodes g.nodes, .empty⟩
  have hStart : start.Housed := by
    refine ⟨fun n hn => hBoxes n ((hLayers n).mp hn), fun n hn => .inl ((hLayers n).mp hn), ?_, ?_⟩
    · rintro _ _ ⟨a, ha, _⟩
      cases ha
    · intro ends chain hChain
      cases hChain
  have hListed := Digraph.mem_arcsByNode_iff fun a ha => (hArcs a ha).1
  have hEnds : ∀ e ∈ g.arcsByNode.zipIdx,
      e.1.source ∈ start.layers.keys ∧ e.1.target ∈ start.layers.keys := by
    intro e he
    have hArc := (hListed e.1).mp (List.fst_mem_of_mem_zipIdx he)
    exact (hArcs e.1 hArc).imp (hLayers _).mpr (hLayers _).mpr
  obtain ⟨hHoused, hGrows, hChains⟩ := hStart.addChains hEnds
  refine ⟨hHoused, hGrows.boxes, fun n hn => hGrows.layers n ((hLayers n).mpr hn), fun a ha => ?_⟩
  obtain ⟨number, hNumber⟩ := List.mem_iff_getElem?.mp ((hListed a).mpr ha)
  exact hChains (a, number) (List.mem_zipIdx_iff_getElem?.mpr hNumber)

/-! ## What dummies leave alone -/

/-- What holds of the boxes and layers of a graph, and is kept when a dummy is added, holds once the
arcs are split. -/
theorem ofGraph_induction {P : Boxes α → Layers → Prop} {boxes : Boxes α} {g : Digraph α}
    (start : P boxes (Layers.assign g g.topologicalOrder))
    (dummy : ∀ boxes layers id index layer, isDummy id = true → P boxes layers →
      P (boxes.insert id (dummyBox index)) (layers.insert id layer)) :
    P (ofGraph boxes g).boxes (ofGraph boxes g).layers := by
  have hGrown : ∀ (number : Nat) (a : Arc α) (l : Layered α) (steps : List Nat),
      P l.boxes l.layers →
      P (steps.foldl (grow number a) ⟨l, [], a.source⟩).layered.boxes
        (steps.foldl (grow number a) ⟨l, [], a.source⟩).layered.layers := by
    intro number a l steps hl
    induction steps using List.reverseRecOn with
    | nil => exact hl
    | append_singleton steps step ih =>
      rw [List.foldl_append]
      exact dummy _ _ _ _ _ (isDummy_dummyId number step) ih
  unfold ofGraph
  induction g.arcsByNode.zipIdx using List.reverseRecOn with
  | nil => exact start
  | append_singleton arcs last ih =>
    rw [List.foldl_append]
    exact hGrown last.2 last.1 _ _ ih

end Layered

namespace Layers

omit [Coordinate α]

theorem nodup_keys_assign {g : Digraph α} (h : g.nodes.Nodup) (order : List String) :
    (assign g order).keys.Nodup := by
  have hRelax : ∀ (node : String) (layers : Layers), layers.keys.Nodup →
      (relax g layers node).keys.Nodup := by
    intro node layers hLayers
    unfold relax
    induction g.successors node generalizing layers with
    | nil => exact hLayers
    | cons s ss ih => exact ih _ (OrderedMap.nodup_keys_insert hLayers _ _)
  unfold assign
  induction order using List.reverseRecOn with
  | nil =>
    rw [List.foldl_nil, OrderedMap.keys, List.map_map]
    exact (List.map_id g.nodes).symm ▸ h
  | append_singleton order node ih =>
    rw [List.foldl_append]
    exact hRelax node _ ih

end Layers

namespace Layered

theorem nodup_layers_ofGraph (boxes : Boxes α) {g : Digraph α} (h : g.nodes.Nodup) :
    (ofGraph boxes g).layers.keys.Nodup :=
  ofGraph_induction (P := fun _ layers => layers.keys.Nodup) (Layers.nodup_keys_assign h _)
    fun _ _ id _ layer _ hLayers => OrderedMap.nodup_keys_insert hLayers id layer

theorem layer_ofGraph (boxes : Boxes α) (g : Digraph α) {n : String} (h : isDummy n = false) :
    (ofGraph boxes g).layers.of n = (Layers.assign g g.topologicalOrder).of n := by
  refine ofGraph_induction
    (P := fun _ layers => layers.of n = (Layers.assign g g.topologicalOrder).of n) rfl ?_
  intro _ layers id _ layer hDummy hLayers
  have hOther : n ≠ id := by
    rintro rfl
    rw [h] at hDummy
    cases hDummy
  rw [Layers.of, OrderedMap.get?_insert, if_neg hOther]
  exact hLayers

end Layered

end TypeDiagram.Layout
