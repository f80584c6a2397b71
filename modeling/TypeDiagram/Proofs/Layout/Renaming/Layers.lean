import TypeDiagram.Proofs.Layout.Boxwise
import TypeDiagram.Proofs.Layout.Renaming.Graph

/-! # Renamed boxes in their layers

A renaming of boxes and handles leaves dummies their names, and does not make a handle of what is
none. Everything that is decided before boxes are placed, which way the routes count, the layers,
the chains and the order of each layer, goes along with it, for all ties are broken by where things
stand and not by what they are called.
-/

namespace TypeDiagram.Layout

open Coordinate

variable {α : Type}

/-- Other names for boxes and for handles. Two boxes keep different names, and two handles do. -/
structure Renaming where
  box : String → String
  handle : Name → Name
  box_injective : Function.Injective box
  handle_injective : Function.Injective handle
  box_dummy : ∀ id, isDummy id = true → box id = id
  handle_null : handle .null = .null

namespace Renaming

variable (σ : Renaming)

theorem isDummy_box (id : String) : isDummy (σ.box id) = isDummy id := by
  cases hNew : isDummy (σ.box id) with
  | true =>
    rw [σ.box_injective (σ.box_dummy _ hNew)] at hNew
    exact hNew.symm
  | false =>
    cases hOld : isDummy id with
    | true =>
      rw [σ.box_dummy id hOld, hOld] at hNew
      exact hNew.symm
    | false => rfl

theorem box_dummyId (arc step : Nat) :
    σ.box (Layered.dummyId arc step) = Layered.dummyId arc step :=
  σ.box_dummy _ (isDummy_dummyId arc step)

theorem ends_injective : Function.Injective (Prod.map σ.box σ.box) :=
  σ.box_injective.prodMap σ.box_injective

end Renaming

variable {σ : Renaming}

/-! ## Boxes and routes -/

def Box.rename (σ : Renaming) (b : Box α) : Box α :=
  { b with handles := b.handles.rename σ.handle id }

def Boxes.rename (σ : Renaming) (boxes : Boxes α) : Boxes α :=
  OrderedMap.rename σ.box (Box.rename σ) boxes

def Route.rename (σ : Renaming) (r : Route) : Route :=
  ⟨r.label, σ.box r.source, σ.box r.target, r.handle.map σ.handle⟩

def OrientedRoute.rename (σ : Renaming) (r : OrientedRoute) : OrientedRoute :=
  ⟨r.route.rename σ, r.turned⟩

theorem Boxes.get?_rename (boxes : Boxes α) (n : String) :
    (boxes.rename σ).get? (σ.box n) = (boxes.get? n).map (Box.rename σ) :=
  OrderedMap.get?_rename σ.box_injective (Box.rename σ) boxes n

theorem Boxes.insert_rename (boxes : Boxes α) (n : String) (b : Box α) :
    (boxes.rename σ).insert (σ.box n) (b.rename σ) = Boxes.rename σ (boxes.insert n b) :=
  OrderedMap.insert_rename σ.box_injective (Box.rename σ) boxes n b

theorem Boxes.map_get?_rename {β : Type} {f : Box α → β} (hf : ∀ b, f (b.rename σ) = f b)
    (boxes : Boxes α) (n : String) :
    ((boxes.rename σ).get? (σ.box n)).map f = (boxes.get? n).map f := by
  rw [boxes.get?_rename, Option.map_map]
  exact congrArg (Option.map · _) (funext hf)

theorem Boxes.keys_rename (boxes : Boxes α) :
    OrderedMap.keys (boxes.rename σ) = boxes.keys.map σ.box := OrderedMap.keys_rename _ _ boxes

theorem Route.isLoop_rename (r : Route) : (r.rename σ).isLoop = r.isLoop :=
  σ.box_injective.beq_eq

theorem OrientedRoute.upper_rename (r : OrientedRoute) : (r.rename σ).upper = σ.box r.upper := by
  unfold upper
  cases h : r.turned <;> simp [rename, Route.rename, h]

theorem OrientedRoute.lower_rename (r : OrientedRoute) : (r.rename σ).lower = σ.box r.lower := by
  unfold lower
  cases h : r.turned <;> simp [rename, Route.rename, h]

variable [Coordinate α]

theorem Box.fraction_rename (b : Box α) (handle : Option Name) :
    (b.rename σ).fraction (handle.map σ.handle) = b.fraction handle := by
  have hName : (handle.map σ.handle).getD .null = σ.handle (handle.getD .null) := by
    cases handle with
    | none => exact σ.handle_null.symm
    | some name => rfl
  unfold fraction rename
  rw [hName, OrderedMap.get?_rename σ.handle_injective, Option.map_id_apply]

/-! ## Orientation -/

theorem routeGraph_rename (boxes : Boxes α) (routes : List Route) :
    routeGraph (boxes.rename σ) (routes.map (Route.rename σ)) =
      (routeGraph boxes routes).rename σ.box := by
  unfold routeGraph
  rw [List.filter_map, List.foldl_map, boxes.keys_rename, show (Digraph.ofNodes
    (boxes.keys.map σ.box) : Digraph α) = Digraph.rename σ.box (.ofNodes boxes.keys) from rfl]
  simp only [Function.comp_def, Route.isLoop_rename]
  exact List.foldl_hom (Digraph.rename σ.box) fun g r =>
    Digraph.addArc_rename σ.box_injective g ⟨r.source, r.target, half⟩

theorem orient_rename (boxes : Boxes α) (routes : List Route) :
    orient (boxes.rename σ) (routes.map (Route.rename σ)) =
      (orient boxes routes).map (OrientedRoute.rename σ) := by
  unfold orient
  simp only [routeGraph_rename, boxes.keys_rename, Digraph.arrange_rename σ.box_injective,
    List.map_map, Function.comp_def, Route.isLoop_rename]
  simp only [Route.rename, Digraph.isBackward_rename σ.box_injective, OrientedRoute.rename]

theorem OrientedRoute.weight_rename (boxes : Boxes α) (r : OrientedRoute) :
    (r.rename σ).weight (boxes.rename σ) = r.weight boxes := by
  unfold weight
  rw [show (r.rename σ).turned = r.turned from rfl,
    show (r.rename σ).route.source = σ.box r.route.source from rfl, boxes.get?_rename,
    Option.map_map]
  simp only [Function.comp_def]
  exact congrArg (fun f : Box α → α => if r.turned then half
    else ((boxes.get? r.route.source).map f).getD half) (funext fun b => b.fraction_rename _)

theorem orientedGraph_rename (boxes : Boxes α) (routes : List OrientedRoute) :
    orientedGraph (boxes.rename σ) (routes.map (OrientedRoute.rename σ)) =
      (orientedGraph boxes routes).rename σ.box := by
  unfold orientedGraph
  rw [List.filter_map, List.foldl_map, boxes.keys_rename, show (Digraph.ofNodes
    (boxes.keys.map σ.box) : Digraph α) = Digraph.rename σ.box (.ofNodes boxes.keys) from rfl]
  simp only [Function.comp_def, OrientedRoute.upper_rename, OrientedRoute.lower_rename,
    OrientedRoute.weight_rename,
    show ∀ r : OrientedRoute, (r.rename σ).route.isLoop = r.route.isLoop from
      fun r => r.route.isLoop_rename]
  exact List.foldl_hom (Digraph.rename σ.box) fun g r =>
    Digraph.addArc_rename σ.box_injective g ⟨r.upper, r.lower, r.weight boxes⟩

/-! ## Layers -/

namespace Layers

def rename (σ : Renaming) (layers : Layers) : Layers := OrderedMap.rename σ.box id layers

theorem of_rename (layers : Layers) (n : String) :
    (layers.rename σ).of (σ.box n) = layers.of n := by
  unfold of rename
  rw [OrderedMap.get?_rename σ.box_injective, Option.map_id_apply]

theorem insert_rename (layers : Layers) (n : String) (layer : Nat) :
    (layers.rename σ).insert (σ.box n) layer = rename σ (layers.insert n layer) :=
  OrderedMap.insert_rename σ.box_injective id layers n layer

omit [Coordinate α] in
theorem relax_rename (g : Digraph α) (layers : Layers) (n : String) :
    relax (g.rename σ.box) (layers.rename σ) (σ.box n) = (relax g layers n).rename σ := by
  unfold relax
  rw [Digraph.successors_rename σ.box_injective, List.foldl_map]
  refine List.foldl_hom (rename σ) fun current s => ?_
  rw [of_rename, of_rename, insert_rename]

omit [Coordinate α] in
theorem assign_rename (g : Digraph α) (order : List String) :
    assign (g.rename σ.box) (order.map σ.box) = (assign g order).rename σ := by
  have hStart : (⟨(g.rename σ.box).nodes.map fun n => (n, 0)⟩ : Layers) =
      rename σ ⟨g.nodes.map fun n => (n, 0)⟩ := by
    simp [rename, OrderedMap.rename, Digraph.rename]
  unfold assign
  rw [List.foldl_map, hStart]
  exact List.foldl_hom (rename σ) fun layers n => relax_rename g layers n

theorem count_rename (layers : Layers) : (layers.rename σ).count = layers.count := by
  unfold count rename
  rw [OrderedMap.values_rename, List.map_id]

end Layers

/-! ## Chains -/

namespace Layered

def rename (σ : Renaming) (l : Layered α) : Layered α :=
  ⟨l.boxes.rename σ, l.layers.rename σ, l.graph.rename σ.box,
    l.chains.rename (Prod.map σ.box σ.box) (List.map σ.box)⟩

def Growth.rename (σ : Renaming) (g : Growth α) : Growth α :=
  ⟨g.layered.rename σ, g.chain.map σ.box, σ.box g.previous⟩

theorem segmentWeight_rename (a : Arc α) (previous : String) :
    segmentWeight (a.rename σ.box) (σ.box previous) = segmentWeight a previous := by
  unfold segmentWeight
  rw [show (a.rename σ.box).source = σ.box a.source from rfl, σ.box_injective.beq_eq]
  rfl

theorem grow_rename (number : Nat) (a : Arc α) (g : Growth α) (step : Nat) :
    grow number (a.rename σ.box) (g.rename σ) step = (grow number a g step).rename σ := by
  let l := g.layered
  let dummy := dummyId number step
  have hDummy : σ.box dummy = dummy := σ.box_dummyId number step
  have hBoxes : (l.boxes.rename σ).insert dummy (dummyBox (OrderedMap.size (l.boxes.rename σ))) =
      Boxes.rename σ (l.boxes.insert dummy (dummyBox l.boxes.size)) := by
    rw [← Boxes.insert_rename, hDummy, Boxes.rename, OrderedMap.size_rename]
    rfl
  have hLayers : (l.layers.rename σ).insert dummy
      ((l.layers.rename σ).of (σ.box a.source) + step) =
        Layers.rename σ (l.layers.insert dummy (l.layers.of a.source + step)) := by
    rw [Layers.of_rename, ← Layers.insert_rename, hDummy]
  have hGraph : (l.graph.rename σ.box).setArc
      ⟨σ.box g.previous, dummy, segmentWeight (a.rename σ.box) (σ.box g.previous)⟩ =
        (l.graph.setArc ⟨g.previous, dummy, segmentWeight a g.previous⟩).rename σ.box := by
    rw [← Digraph.setArc_rename σ.box_injective, segmentWeight_rename, Arc.rename, hDummy]
  have hChain : g.chain.map σ.box ++ [dummy] = (g.chain ++ [dummy]).map σ.box := by
    rw [List.map_append, List.map_singleton, hDummy]
  unfold grow Growth.rename Layered.rename
  rw [Growth.mk.injEq, Layered.mk.injEq]
  exact ⟨⟨hBoxes, hLayers, hGraph, rfl⟩, hChain, hDummy.symm⟩

theorem addChain_rename (l : Layered α) (a : Arc α) (number : Nat) :
    (l.rename σ).addChain (a.rename σ.box) number = (l.addChain a number).rename σ := by
  have hGrown : ∀ steps : List Nat,
      steps.foldl (grow number (a.rename σ.box)) ⟨l.rename σ, [], σ.box a.source⟩ =
        (steps.foldl (grow number a) ⟨l, [], a.source⟩).rename σ := by
    intro steps
    rw [show (⟨l.rename σ, [], σ.box a.source⟩ : Growth α) =
      Growth.rename σ ⟨l, [], a.source⟩ from rfl]
    exact List.foldl_hom (Growth.rename σ) fun g step => grow_rename number a g step
  unfold addChain
  dsimp only
  rw [show (l.rename σ).layers = l.layers.rename σ from rfl,
    show (a.rename σ.box).source = σ.box a.source from rfl,
    show (a.rename σ.box).target = σ.box a.target from rfl, Layers.of_rename, Layers.of_rename,
    hGrown]
  generalize (List.range' 1 (l.layers.of a.target - l.layers.of a.source - 1)).foldl
    (grow number a) ⟨l, [], a.source⟩ = g
  have hGraph : (g.layered.graph.rename σ.box).setArc
      ⟨σ.box g.previous, σ.box a.target, segmentWeight (a.rename σ.box) (σ.box g.previous)⟩ =
        (g.layered.graph.setArc ⟨g.previous, a.target, segmentWeight a g.previous⟩).rename
          σ.box := by
    rw [← Digraph.setArc_rename σ.box_injective, segmentWeight_rename, Arc.rename]
  have hChains : (g.layered.chains.rename (Prod.map σ.box σ.box) (List.map σ.box)).insert
      (σ.box a.source, σ.box a.target) (g.chain.map σ.box) =
        (g.layered.chains.insert (a.source, a.target) g.chain).rename (Prod.map σ.box σ.box)
          (List.map σ.box) :=
    OrderedMap.insert_rename σ.ends_injective (List.map σ.box) g.layered.chains
      (a.source, a.target) g.chain
  unfold Growth.rename Layered.rename
  rw [Layered.mk.injEq]
  exact ⟨rfl, rfl, hGraph, hChains⟩

theorem ofGraph_rename (boxes : Boxes α) (g : Digraph α) :
    ofGraph (boxes.rename σ) (g.rename σ.box) = (ofGraph boxes g).rename σ := by
  let start : Layered α := ⟨boxes, Layers.assign g g.topologicalOrder, .ofNodes g.nodes, .empty⟩
  have hStart : (⟨boxes.rename σ, Layers.assign (g.rename σ.box) (g.rename σ.box).topologicalOrder,
      .ofNodes (g.rename σ.box).nodes, .empty⟩ : Layered α) = start.rename σ := by
    rw [Digraph.topologicalOrder_rename σ.box_injective, Layers.assign_rename]
    rfl
  unfold ofGraph
  dsimp only
  rw [hStart, Digraph.arcsByNode_rename σ.box_injective, List.zipIdx_map, List.foldl_map]
  exact List.foldl_hom (rename σ) fun l e => addChain_rename l e.1 e.2

omit [Coordinate α] in
theorem chainOf_rename (l : Layered α) (r : OrientedRoute) :
    (l.rename σ).chainOf (r.rename σ) = (l.chainOf r).map σ.box := by
  have hChain : (l.rename σ).chains.get? (σ.box r.upper, σ.box r.lower) =
      (l.chains.get? (r.upper, r.lower)).map (List.map σ.box) :=
    OrderedMap.get?_rename σ.ends_injective (List.map σ.box) l.chains (r.upper, r.lower)
  unfold chainOf
  rw [OrientedRoute.upper_rename, OrientedRoute.lower_rename, hChain,
    show (r.rename σ).route.isLoop = r.route.isLoop from r.route.isLoop_rename,
    show (r.rename σ).turned = r.turned from rfl]
  cases r.route.isLoop with
  | true => rfl
  | false =>
    cases l.chains.get? (r.upper, r.lower) with
    | none => cases r.turned <;> rfl
    | some chain =>
      cases r.turned with
      | false => rfl
      | true => exact List.map_reverse.symm

end Layered

/-! ## The order of each layer -/

theorem sortByKey_map {β γ : Type} {f : β → γ} {key : β → α} {key' : γ → α} {xs : List β}
    (h : ∀ x ∈ xs, key' (f x) = key x) : sortByKey key' (xs.map f) = (sortByKey key xs).map f := by
  have hKeys : ((xs.map f).map fun y => (key' y, y)) =
      (xs.map fun x => (key x, x)).map (Prod.map id f) := by
    rw [List.map_map, List.map_map]
    exact List.map_congr_left fun x hx => by rw [Function.comp_apply, h x hx]; rfl
  unfold sortByKey
  rw [hKeys, ← List.map_mergeSort (r := fun a b => !less b.1 a.1) fun a _ b _ => rfl, List.map_map,
    List.map_map]
  rfl

namespace Ordering

def rename (σ : Renaming) (ordering : Ordering) : Ordering := ordering.map (List.map σ.box)

omit [Coordinate α] in
theorem initial_rename (l : Layered α) : initial (l.rename σ) = (initial l).rename σ := by
  let index (l : Layered α) (n : String) : Nat := ((l.boxes.get? n).map Box.index).getD 0
  have hIndex : ∀ n, index (l.rename σ) (σ.box n) = index l n := fun n =>
    congrArg (Option.getD · 0) (l.boxes.map_get?_rename (fun _ => rfl) n)
  have hSorted : (l.rename σ).layers.keys.mergeSort
      (fun a b => index (l.rename σ) a ≤ index (l.rename σ) b) =
        (l.layers.keys.mergeSort fun a b => index l a ≤ index l b).map σ.box := by
    rw [Layered.rename, Layers.rename, OrderedMap.keys_rename]
    refine (List.map_mergeSort fun a _ b _ => ?_).symm
    rw [← hIndex a, ← hIndex b]
    rfl
  change (List.range (l.rename σ).layers.count).map (fun i => ((l.rename σ).layers.keys.mergeSort
    fun a b => index (l.rename σ) a ≤ index (l.rename σ) b).filter
      fun n => (l.rename σ).layers.of n == i) = _
  rw [hSorted, show (l.rename σ).layers = l.layers.rename σ from rfl, Layers.count_rename]
  simp only [List.filter_map, Function.comp_def, Layers.of_rename]
  exact List.map_map.symm

theorem segments_rename (g : Digraph α) (upper lower : List String) :
    segments (g.rename σ.box) (upper.map σ.box) (lower.map σ.box) = segments g upper lower := by
  unfold segments
  rw [List.zipIdx_map, List.flatMap_map]
  simp only [Prod.map_fst, Prod.map_snd, id, Digraph.arcsFrom_rename σ.box_injective,
    List.filterMap_map, Function.comp_def, Arc.rename, idxOf?_map_injective σ.box_injective]

theorem crossings_rename (g : Digraph α) (ordering : Ordering) :
    crossings (g.rename σ.box) (ordering.rename σ) = crossings g ordering := by
  induction ordering with
  | nil => rfl
  | cons upper rest ih =>
    cases rest with
    | nil => rfl
    | cons lower rest =>
      change crossingPairs (segments (g.rename σ.box) (upper.map σ.box) (lower.map σ.box)) +
        crossings (g.rename σ.box) (rename σ (lower :: rest)) = _
      rw [segments_rename, ih]
      rfl

theorem positionsAbove_rename (g : Digraph α) (above : List String) (n : String) :
    positionsAbove (g.rename σ.box) (above.map σ.box) (σ.box n) = positionsAbove g above n := by
  simp only [positionsAbove, Digraph.arcsInto_rename σ.box_injective, List.filterMap_map,
    Function.comp_def, Arc.rename, idxOf?_map_injective σ.box_injective]

theorem positionsBelow_rename (g : Digraph α) (below : List String) (n : String) :
    positionsBelow (g.rename σ.box) (below.map σ.box) (σ.box n) = positionsBelow g below n := by
  simp only [positionsBelow, Digraph.arcsFrom_rename σ.box_injective, List.filterMap_map,
    Function.comp_def, Arc.rename, idxOf?_map_injective σ.box_injective]

theorem sortLayer_rename {positions positions' : String → List α}
    (h : ∀ n, positions' (σ.box n) = positions n) (layer : List String) :
    sortLayer positions' (layer.map σ.box) = (sortLayer positions layer).map σ.box :=
  sortByKey_map fun n _ => by rw [idxOf_map_injective σ.box_injective, h]

theorem sweepDown_rename (g : Digraph α) (above : List String) (ordering : Ordering) :
    sweepDown (g.rename σ.box) (above.map σ.box) (ordering.rename σ) =
      (sweepDown g above ordering).rename σ := by
  induction ordering generalizing above with
  | nil => rfl
  | cons layer rest ih =>
    have hSorted := sortLayer_rename (positionsAbove_rename (σ := σ) g above) layer
    change sortLayer _ (layer.map σ.box) :: sweepDown (g.rename σ.box)
      (sortLayer _ (layer.map σ.box)) (rename σ rest) = _
    rw [hSorted, ih]
    rfl

theorem sweepUp_rename (g : Digraph α) (ordering : Ordering) :
    sweepUp (g.rename σ.box) (ordering.rename σ) = (sweepUp g ordering).rename σ := by
  induction ordering with
  | nil => rfl
  | cons layer rest ih =>
    change sweepUp (g.rename σ.box) (layer.map σ.box :: rename σ rest) = _
    rw [sweepUp, ih, sweepUp]
    cases sweepUp g rest with
    | nil => rfl
    | cons below others =>
      exact congrArg (· :: rename σ (below :: others))
        (sortLayer_rename (positionsBelow_rename g below) layer)

theorem sweep_rename (g : Digraph α) (ordering : Ordering) :
    sweep (g.rename σ.box) (ordering.rename σ) = (sweep g ordering).rename σ := by
  cases ordering with
  | nil => rfl
  | cons first rest =>
    change sweepUp (g.rename σ.box) (first.map σ.box ::
      sweepDown (g.rename σ.box) (first.map σ.box) (rename σ rest)) = _
    rw [sweepDown_rename]
    exact sweepUp_rename g (first :: sweepDown g first rest)

theorem improve_rename (g : Digraph α) (fuel : Nat) (best : Ordering) :
    improve (g.rename σ.box) fuel (best.rename σ) = (improve g fuel best).rename σ := by
  induction fuel generalizing best with
  | zero => rfl
  | succ fuel ih =>
    simp only [improve]
    rw [sweep_rename, crossings_rename, crossings_rename, ih, apply_ite (rename σ)]

theorem fillSlots_rename {isSeeded isSeeded' : String → Bool}
    (h : ∀ n, isSeeded' (σ.box n) = isSeeded n) (layer seeded : List String) :
    fillSlots isSeeded' (layer.map σ.box) (seeded.map σ.box) =
      (fillSlots isSeeded layer seeded).map σ.box := by
  induction layer generalizing seeded with
  | nil => rfl
  | cons n layer ih =>
    rw [List.map_cons, fillSlots.eq_def, fillSlots.eq_def isSeeded]
    dsimp only
    rw [h]
    split
    · cases seeded with
      | nil => exact congrArg (σ.box n :: ·) (ih [])
      | cons s more => exact congrArg (σ.box s :: ·) (ih more)
    · exact congrArg (σ.box n :: ·) (ih seeded)

theorem settleSeeds_rename (boxes : Boxes α) (horizontal : Bool) (layer : List String) :
    settleSeeds (boxes.rename σ) horizontal (layer.map σ.box) =
      (settleSeeds boxes horizontal layer).map σ.box := by
  have hSeed : ∀ n, ((boxes.rename σ).get? (σ.box n)).bind Box.seed =
      (boxes.get? n).bind Box.seed := by
    intro n
    rw [boxes.get?_rename, Option.bind_map]
    rfl
  unfold settleSeeds
  dsimp only
  simp only [List.filter_map, Function.comp_def, hSeed]
  rw [sortByKey_map fun n _ => by rw [hSeed]]
  exact fillSlots_rename (fun n => congrArg Option.isSome (hSeed n)) layer _

theorem of_rename (l : Layered α) (horizontal : Bool) :
    Ordering.of (l.rename σ) horizontal = (Ordering.of l horizontal).rename σ := by
  have hUnsettled : unsettled (l.rename σ) = (unsettled l).rename σ := by
    unfold unsettled
    rw [initial_rename]
    exact improve_rename l.graph sweepLimit (initial l)
  unfold Ordering.of
  rw [hUnsettled, rename, rename, List.map_map, List.map_map]
  exact List.map_congr_left fun layer _ => settleSeeds_rename l.boxes horizontal layer

end Ordering

end TypeDiagram.Layout
