import TypeDiagram.Proofs.Layout.Drawing

/-! # Drawing divides by positive whole numbers only

Halves, the fractions of handles and the means of lists that are not empty are all that is divided.
So a drawing stays the same with any division that agrees with the given one for positive whole
divisors, whatever it makes of zero.
-/

namespace TypeDiagram

variable {α : Type} [Coordinate α]

@[reducible]
def Coordinate.withDivision (divide : α → α → α) : Coordinate α :=
  { (inferInstance : Coordinate α) with div := divide }

open Coordinate

/-- Positive whole numbers divide as before. -/
def DividesAlike (divide : α → α → α) : Prop :=
  ∀ (a : α) (n : Nat), divide a (nat (n + 1)) = a / nat (n + 1)

variable {divide : α → α → α} (h : DividesAlike divide)

include h

theorem half_withDivision : @half α (withDivision divide) = half := h (nat 1) 1

theorem mean_withDivision {as : List α} (hSome : as.isEmpty = false) :
    @mean α (withDivision divide) as = mean as := by
  cases as with
  | nil => cases hSome
  | cons a rest => exact h _ rest.length

namespace Layout

variable {κ : Type}

/-! ## Reading -/

theorem readHandles_withDivision (handles : List (Handle α)) :
    @readHandles α (withDivision divide) handles = readHandles handles := by
  refine congrArg (bind _) (funext fun ids => ?_)
  refine congrArg (fun fractions => pure (OrderedMap.ofList fractions)) ?_
  exact List.map_congr_left fun entry _ => congrArg (Prod.mk entry.1) (h _ _)

theorem readChild_withDivision (boxes : Boxes α) (c : Child α κ) (index : Nat) :
    @readChild α κ (withDivision divide) boxes c index = readChild boxes c index := by
  unfold readChild
  rw [readHandles_withDivision h]
  rfl

theorem readChildren_withDivision (children : List (Child α κ)) :
    @readChildren α κ (withDivision divide) children = readChildren children := by
  unfold readChildren
  simp only [readChild_withDivision h]

theorem resolveRequest_withDivision (request : Request α κ) :
    @resolveRequest α κ (withDivision divide) request = resolveRequest request := by
  unfold resolveRequest
  rw [readChildren_withDivision h]
  rfl

/-! ## Orientation and layers -/

theorem fraction_withDivision (b : Box α) (handle : Option Name) :
    @Box.fraction α (withDivision divide) b handle = b.fraction handle := by
  unfold Box.fraction
  rw [half_withDivision h]

theorem orient_withDivision (boxes : Boxes α) (routes : List Route) :
    @orient α (withDivision divide) boxes routes = orient boxes routes := by
  unfold orient routeGraph
  rw [half_withDivision h]

theorem orientedGraph_withDivision (boxes : Boxes α) (routes : List OrientedRoute) :
    @orientedGraph α (withDivision divide) boxes routes = orientedGraph boxes routes := by
  unfold orientedGraph OrientedRoute.weight
  simp only [half_withDivision h, fraction_withDivision h]

theorem segmentWeight_withDivision (a : Arc α) (previous : String) :
    @Layered.segmentWeight α (withDivision divide) a previous =
      Layered.segmentWeight a previous := by
  unfold Layered.segmentWeight
  rw [half_withDivision h]

theorem ofGraph_withDivision (boxes : Boxes α) (g : Digraph α) :
    @Layered.ofGraph α (withDivision divide) boxes g = Layered.ofGraph boxes g := by
  have hGrow : ∀ number a, @Layered.grow α (withDivision divide) number a =
      Layered.grow number a := by
    intro number a
    funext growth step
    unfold Layered.grow
    rw [segmentWeight_withDivision h]
  unfold Layered.ofGraph Layered.addChain
  simp only [hGrow, segmentWeight_withDivision h]

/-! ## Ordering -/

theorem sortLayer_withDivision (positions : String → List α) (layer : List String) :
    @Ordering.sortLayer α (withDivision divide) positions layer =
      Ordering.sortLayer positions layer := by
  have hMean : ∀ standing (places : List α),
      @Ordering.meanOr α (withDivision divide) standing places =
        Ordering.meanOr standing places := by
    intro standing places
    unfold Ordering.meanOr
    cases hEmpty : places.isEmpty with
    | true => rfl
    | false => exact mean_withDivision h hEmpty
  unfold Ordering.sortLayer
  simp only [hMean]
  rfl

theorem sweepDown_withDivision (g : Digraph α) (above : List String) (ordering : Ordering) :
    @Ordering.sweepDown α (withDivision divide) g above ordering =
      Ordering.sweepDown g above ordering := by
  induction ordering generalizing above with
  | nil => rfl
  | cons layer rest ih =>
    simp only [Ordering.sweepDown, sortLayer_withDivision h, ih]
    rfl

theorem sweepUp_withDivision (g : Digraph α) (ordering : Ordering) :
    @Ordering.sweepUp α (withDivision divide) g ordering = Ordering.sweepUp g ordering := by
  induction ordering with
  | nil => rfl
  | cons layer rest ih =>
    simp only [Ordering.sweepUp, sortLayer_withDivision h, ih]
    rfl

omit h in
theorem crossingPairs_withDivision (segments : List (α × Int)) :
    @Ordering.crossingPairs α (withDivision divide) segments = Ordering.crossingPairs segments := by
  induction segments with
  | nil => rfl
  | cons segment rest ih =>
    simp only [Ordering.crossingPairs, ih]
    rfl

omit h in
theorem crossings_withDivision (g : Digraph α) : ∀ ordering : Ordering,
    @Ordering.crossings α (withDivision divide) g ordering = Ordering.crossings g ordering
  | [] | [_] => rfl
  | upper :: lower :: rest => by
    simp only [Ordering.crossings, crossings_withDivision g (lower :: rest),
      crossingPairs_withDivision]
    rfl

theorem improve_withDivision (g : Digraph α) (fuel : Nat) (best : Ordering) :
    @Ordering.improve α (withDivision divide) g fuel best = Ordering.improve g fuel best := by
  have hSweep : ∀ ordering, @Ordering.sweep α (withDivision divide) g ordering =
      Ordering.sweep g ordering := by
    intro ordering
    cases ordering with
    | nil => rfl
    | cons first rest =>
      simp only [Ordering.sweep, sweepDown_withDivision h, sweepUp_withDivision h]
  induction fuel generalizing best with
  | zero => rfl
  | succ fuel ih =>
    simp only [Ordering.improve, hSweep, crossings_withDivision, ih]

theorem ordering_withDivision (l : Layered α) (horizontal : Bool) :
    @Ordering.of α (withDivision divide) l horizontal = Ordering.of l horizontal := by
  unfold Ordering.of Ordering.unsettled
  rw [improve_withDivision h]
  rfl

/-! ## Placement -/

theorem halved_withDivision (a : α) :
    @HDiv.hDiv α α α (@instHDiv α (withDivision divide).toDiv) a (nat 2) = a / nat 2 := h a 1

theorem gapBehind_withDivision (s : Spacing α) (node : String) :
    @Spacing.gapBehind α (withDivision divide) s node = s.gapBehind node := by
  unfold Spacing.gapBehind
  rw [halved_withDivision h]

theorem stack_withDivision (s : Spacing α) (cursor : Option α) (slots : List (Slot α)) :
    @stack α (withDivision divide) s cursor slots = stack s cursor slots := by
  induction slots generalizing cursor with
  | nil => rfl
  | cons slot rest ih =>
    simp only [stack, halved_withDivision h, gapBehind_withDivision h, ih]
    rfl

theorem mean?_withDivision (as : List α) :
    (if as.isEmpty then none else some (@mean α (withDivision divide) as)) =
      if as.isEmpty then none else some (mean as) := by
  cases hEmpty : as.isEmpty with
  | true => rfl
  | false => rw [mean_withDivision h hEmpty]

theorem centred_withDivision (slots : List (Slot α)) (starts : List α) :
    @centred α (withDivision divide) slots starts = centred slots starts := by
  have hDrift : @drift? α (withDivision divide) slots starts = drift? slots starts := by
    unfold drift?
    simp only [halved_withDivision h]
    exact mean?_withDivision h _
  unfold centred
  rw [hDrift]

theorem slotOf_withDivision (s : Spacing α) (g : Digraph α) (p : Progress α) (node : String) :
    @slotOf α (withDivision divide) s g p node = slotOf s g p node := by
  unfold slotOf
  exact congrArg (Slot.mk node _) (mean?_withDivision h _)

theorem placeLayer_withDivision (s : Spacing α) (g : Digraph α) (p : Progress α)
    (layer : List String) :
    @placeLayer α (withDivision divide) s g p layer = placeLayer s g p layer := by
  have hSlots : @slotOf α (withDivision divide) s g p = slotOf s g p :=
    funext (slotOf_withDivision h s g p)
  unfold placeLayer
  simp only [hSlots, stack_withDivision h, centred_withDivision h, halved_withDivision h]
  rfl

theorem place_withDivision (s : Spacing α) (l : Layered α) (ordering : Ordering) :
    @place α (withDivision divide) s l ordering = place s l ordering := by
  have hLayer : @placeLayer α (withDivision divide) s l.graph = placeLayer s l.graph :=
    funext₂ (placeLayer_withDivision h s l.graph)
  unfold place
  rw [hLayer]
  rfl

/-! ## Lines -/

theorem corners_withDivision (horizontal : Bool) (a b : Position α) :
    @corners α (withDivision divide) horizontal a b = corners horizontal a b := by
  unfold corners
  simp only [halved_withDivision h]
  rfl

theorem bends_withDivision (horizontal : Bool) : ∀ points : List (Position α),
    @bends α (withDivision divide) horizontal points = bends horizontal points
  | [] | [_] => rfl
  | a :: b :: rest => by
    simp only [bends, corners_withDivision h, bends_withDivision horizontal (b :: rest)]

theorem sectionsOf_withDivision (horizontal : Bool) (boxes : Boxes α) (r : Route)
    (chain : List String) : @sectionsOf α (withDivision divide) horizontal boxes r chain =
      sectionsOf horizontal boxes r chain := by
  unfold sectionsOf entryPoint
  simp only [fraction_withDivision h, bends_withDivision h, halved_withDivision h]
  rfl

theorem planOf_withDivision (r : Resolved α) :
    @planOf α (withDivision divide) r = planOf r := by
  unfold planOf
  simp only [orient_withDivision h, orientedGraph_withDivision h, ofGraph_withDivision h,
    ordering_withDivision h, place_withDivision h]

theorem draw_withDivision (request : Request α κ) :
    @draw α κ (withDivision divide) request = draw request := by
  refine (@draw_eq α (withDivision divide) κ request).trans ?_
  rw [draw_eq request, resolveRequest_withDivision h]
  have hExtent : @extentOf α (withDivision divide) = extentOf := rfl
  have hPlaced : @placedChild α (withDivision divide) κ = placedChild := rfl
  have hDrawing : @Plan.drawing α (withDivision divide) κ = Plan.drawing := by
    funext p horizontal children edges
    unfold Plan.drawing
    simp only [hExtent, hPlaced, sectionsOf_withDivision h]
  simp only [hDrawing, planOf_withDivision h]

end Layout

end TypeDiagram
