import TypeDiagram.Proofs.Layout.Drawing

/-! # What the stages before placement look at

Resolving the edges looks at the ids of boxes and at their handles, and so does layering; the first
order of a layer goes by where the boxes stood in the request. A change made to all boxes alike, one
that leaves these parts as they are, is not noticed before the boxes are placed.
-/

namespace TypeDiagram.Layout

variable {α κ : Type} {f : String → Box α → Box α}

theorem readLinks_mapValues (hHandles : ∀ id b, (f id b).handles = b.handles) (boxes : Boxes α)
    (edges : List (Link κ)) : readLinks (boxes.mapValues f) edges = readLinks boxes edges := by
  have hOwners : handleOwners (boxes.mapValues f) = handleOwners boxes := by
    unfold handleOwners OrderedMap.mapValues
    rw [List.flatMap_map]
    simp only [hHandles]
  have hContains : OrderedMap.contains (boxes.mapValues f) = boxes.contains :=
    funext fun n => OrderedMap.contains_mapValues _ boxes n
  have hLink : readLink (κ := κ) (boxes.mapValues f) (handleOwners boxes) =
      readLink boxes (handleOwners boxes) := by
    funext l
    unfold readLink boxNamed?
    rw [hContains]
  unfold readLinks
  rw [hOwners, hLink]

/-- The layered graph with other boxes in the places of its boxes. -/
def Layered.mapBoxes (f : String → Box α → Box α) (l : Layered α) : Layered α :=
  { l with boxes := l.boxes.mapValues f }

def Layered.Growth.mapBoxes (f : String → Box α → Box α) (g : Layered.Growth α) :
    Layered.Growth α :=
  { g with layered := g.layered.mapBoxes f }

theorem initial_mapBoxes (hIndex : ∀ id b, (f id b).index = b.index) (l : Layered α) :
    Ordering.initial (l.mapBoxes f) = Ordering.initial l := by
  have hSame : ∀ n, ((l.mapBoxes f).boxes.get? n).map Box.index =
      (l.boxes.get? n).map Box.index := by
    intro n
    rw [Layered.mapBoxes, OrderedMap.get?_mapValues, Option.map_map]
    exact congrArg (Option.map · _) (funext (hIndex n))
  unfold Ordering.initial
  simp only [hSame]
  rfl

variable [Coordinate α]

theorem orient_mapValues (f : String → Box α → Box α) (boxes : Boxes α) (routes : List Route) :
    orient (boxes.mapValues f) routes = orient boxes routes := by
  unfold orient routeGraph
  rw [OrderedMap.keys_mapValues]

theorem orientedGraph_mapValues (hHandles : ∀ id b, (f id b).handles = b.handles)
    (boxes : Boxes α) (rs : List OrientedRoute) :
    orientedGraph (boxes.mapValues f) rs = orientedGraph boxes rs := by
  have hFraction : ∀ id (b : Box α) handle, (f id b).fraction handle = b.fraction handle := by
    intro id b handle
    unfold Box.fraction
    rw [hHandles]
  have hWeight : ∀ r : OrientedRoute, r.weight (boxes.mapValues f) = r.weight boxes := by
    intro r
    unfold OrientedRoute.weight
    rw [OrderedMap.get?_mapValues, Option.map_map]
    simp only [Function.comp_def, hFraction]
  unfold orientedGraph
  simp only [OrderedMap.keys_mapValues, hWeight]

/-! ## Dummies -/

section Dummies

variable (hDummy : ∀ id index, isDummy id = true → f id (dummyBox index) = dummyBox index)

include hDummy

theorem grow_mapBoxes (number : Nat) (a : Arc α) (g : Layered.Growth α) (step : Nat) :
    Layered.grow number a (g.mapBoxes f) step = (Layered.grow number a g step).mapBoxes f := by
  have hSize : (g.layered.boxes.mapValues f).size = g.layered.boxes.size := List.length_map _
  have hInsert : (g.layered.boxes.mapValues f).insert (Layered.dummyId number step)
      (dummyBox g.layered.boxes.size) = (g.layered.boxes.insert (Layered.dummyId number step)
        (dummyBox g.layered.boxes.size)).mapValues f := by
    rw [← OrderedMap.insert_mapValues, hDummy _ _ (isDummy_dummyId number step)]
  unfold Layered.grow Layered.Growth.mapBoxes Layered.mapBoxes
  dsimp only
  rw [hSize]
  exact congrArg (fun boxes => Layered.Growth.mk { g.layered with
    boxes := boxes
    layers := _
    graph := _ } _ _) hInsert

theorem addChain_mapBoxes (l : Layered α) (a : Arc α) (number : Nat) :
    (l.mapBoxes f).addChain a number = (l.addChain a number).mapBoxes f := by
  have hGrown : ∀ steps : List Nat,
      steps.foldl (Layered.grow number a) ⟨l.mapBoxes f, [], a.source⟩ =
        (steps.foldl (Layered.grow number a) ⟨l, [], a.source⟩).mapBoxes f := by
    intro steps
    rw [show (⟨l.mapBoxes f, [], a.source⟩ : Layered.Growth α) =
      Layered.Growth.mapBoxes f ⟨l, [], a.source⟩ from rfl]
    exact List.foldl_hom _ fun g step => grow_mapBoxes hDummy number a g step
  unfold Layered.addChain
  dsimp only
  rw [show (l.mapBoxes f).layers = l.layers from rfl, hGrown]
  rfl

theorem ofGraph_mapValues (boxes : Boxes α) (g : Digraph α) :
    Layered.ofGraph (boxes.mapValues f) g = (Layered.ofGraph boxes g).mapBoxes f := by
  unfold Layered.ofGraph
  dsimp only
  rw [show (⟨boxes.mapValues f, Layers.assign g g.topologicalOrder, .ofNodes g.nodes, .empty⟩ :
    Layered α) = Layered.mapBoxes f ⟨boxes, _, _, _⟩ from rfl]
  exact List.foldl_hom _ fun l e => addChain_mapBoxes hDummy l e.1 e.2

end Dummies

end TypeDiagram.Layout
