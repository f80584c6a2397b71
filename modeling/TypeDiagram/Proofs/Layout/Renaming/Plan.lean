import TypeDiagram.Proofs.Layout.Renaming.Layers

/-! # Renamed boxes in their places

Placing asks of a name whether it is that of a dummy, and else looks up what is filed under it. So
renamed boxes stand where they stood, routes between them have the same lines, and the drawing is as
large as before.
-/

namespace TypeDiagram

theorem OrderedMap.mapValues_rename {κ κ' ν ν' μ μ' : Type} {f : κ → κ'} {g : ν → ν'} {h : μ → μ'}
    {change : κ → ν → μ} {change' : κ' → ν' → μ'}
    (hChange : ∀ k v, change' (f k) (g v) = h (change k v)) (m : OrderedMap κ ν) :
    (m.rename f g).mapValues change' = (m.mapValues change).rename f h := by
  simp only [mapValues, rename, List.map_map, mk.injEq]
  exact List.map_congr_left fun e _ => congrArg (f e.1, ·) (hChange e.1 e.2)

namespace Layout

open Coordinate

variable {α κ : Type} [Coordinate α] {σ : Renaming}

/-! ## One layer -/

def Slot.rename (σ : Renaming) (slot : Slot α) : Slot α := { slot with node := σ.box slot.node }

def Progress.rename (σ : Renaming) (p : Progress α) : Progress α :=
  ⟨p.boxes.rename σ, p.centres.rename σ.box id, p.offset⟩

theorem slotOf_rename (s : Spacing α) (g : Digraph α) (p : Progress α) (n : String) :
    slotOf s (g.rename σ.box) (p.rename σ) (σ.box n) = (slotOf s g p n).rename σ := by
  have hCentre : ∀ m, (p.centres.rename σ.box id).get? (σ.box m) = p.centres.get? m := by
    intro m
    rw [OrderedMap.get?_rename σ.box_injective, Option.map_id_apply]
  have hExtent : ((p.boxes.rename σ).get? (σ.box n)).map s.across =
      (p.boxes.get? n).map s.across := p.boxes.map_get?_rename (fun _ => rfl) n
  unfold slotOf Progress.rename
  dsimp only
  rw [Digraph.predecessors_rename σ.box_injective, List.filterMap_map, hExtent]
  simp only [Function.comp_def, hCentre]
  rfl

theorem gapBehind_rename (s : Spacing α) (n : String) : s.gapBehind (σ.box n) = s.gapBehind n := by
  rw [Spacing.gapBehind, Spacing.gapBehind, σ.isDummy_box]

theorem stack_rename (s : Spacing α) (cursor : Option α) (slots : List (Slot α)) :
    stack s cursor (slots.map (Slot.rename σ)) = stack s cursor slots := by
  induction slots generalizing cursor with
  | nil => rfl
  | cons slot slots ih =>
    simp only [List.map_cons, stack, ih]
    simp only [Slot.rename, gapBehind_rename]

theorem centred_rename (slots : List (Slot α)) (starts : List α) :
    centred (slots.map (Slot.rename σ)) starts = centred slots starts := by
  have hDrift : drift? (slots.map (Slot.rename σ)) starts = drift? slots starts := by
    unfold drift?
    rw [List.zip_map_right, List.filterMap_map]
    rfl
  unfold centred
  rw [hDrift]

theorem stacked_rename (s : Spacing α) (g : Digraph α) (p : Progress α) (layer : List String) :
    stacked s (g.rename σ.box) (p.rename σ) (layer.map σ.box) =
      (stacked s g p layer).map (Prod.map id (Slot.rename σ)) := by
  have hSlots : (layer.map σ.box).map (slotOf s (g.rename σ.box) (p.rename σ)) =
      (layer.map (slotOf s g p)).map (Slot.rename σ) := by
    rw [List.map_map, List.map_map]
    exact List.map_congr_left fun n _ => slotOf_rename s g p n
  unfold stacked
  dsimp only
  rw [hSlots, stack_rename, centred_rename, List.zip_map_right]

theorem placeAt_rename (s : Spacing α) (offset thick : α) (p : Progress α) (e : α × Slot α) :
    placeAt s offset thick (p.rename σ) (Prod.map id (Slot.rename σ) e) =
      (placeAt s offset thick p e).rename σ := by
  unfold placeAt
  rw [show (Prod.map id (Slot.rename σ) e).2.node = σ.box e.2.node from rfl,
    show (p.rename σ).boxes = p.boxes.rename σ from rfl, p.boxes.get?_rename]
  cases p.boxes.get? e.2.node with
  | none => rfl
  | some b =>
    have hBoxes : (p.boxes.rename σ).insert (σ.box e.2.node)
        ((b.rename σ).placed s offset thick e.1) =
          Boxes.rename σ (p.boxes.insert e.2.node (b.placed s offset thick e.1)) :=
      p.boxes.insert_rename e.2.node (b.placed s offset thick e.1)
    have hCentres : (p.centres.rename σ.box id).insert (σ.box e.2.node)
        (e.1 + e.2.extent / nat 2) =
          (p.centres.insert e.2.node (e.1 + e.2.extent / nat 2)).rename σ.box id :=
      OrderedMap.insert_rename σ.box_injective id p.centres _ _
    unfold Progress.rename
    rw [Option.map_some, Progress.mk.injEq]
    exact ⟨hBoxes, hCentres, rfl⟩

theorem placeLayer_rename (s : Spacing α) (g : Digraph α) (p : Progress α) (layer : List String) :
    placeLayer s (g.rename σ.box) (p.rename σ) (layer.map σ.box) =
      (placeLayer s g p layer).rename σ := by
  have hThick : thickness s (p.rename σ).boxes (layer.map σ.box) = thickness s p.boxes layer := by
    unfold thickness
    rw [List.filterMap_map]
    exact congrArg (fun extents => (maximum? extents).getD (nat 0))
      (List.filterMap_congr fun n _ => p.boxes.map_get?_rename (fun _ => rfl) n)
  have hPlaced : ∀ (es : List (α × Slot α)) (thick : α),
      (es.map (Prod.map id (Slot.rename σ))).foldl (placeAt s p.offset thick) (p.rename σ) =
        (es.foldl (placeAt s p.offset thick) p).rename σ := by
    intro es thick
    rw [List.foldl_map]
    exact List.foldl_hom (Progress.rename σ) fun q e => placeAt_rename s p.offset thick q e
  rw [placeLayer_eq, placeLayer_eq, stacked_rename, hThick,
    show (p.rename σ).offset = p.offset from rfl, hPlaced]
  rfl

/-! ## The whole drawing -/

theorem normalise_rename (boxes : Boxes α) :
    normalise (boxes.rename σ) = Boxes.rename σ (normalise boxes) := by
  have hValues : ∀ f : Box α → α, (∀ b, f (b.rename σ) = f b) →
      (OrderedMap.values (boxes.rename σ)).map f = boxes.values.map f := by
    intro f hSame
    rw [Boxes.rename, OrderedMap.values_rename, List.map_map]
    exact List.map_congr_left fun b _ => hSame b
  unfold normalise
  rw [hValues _ fun _ => rfl, hValues _ fun _ => rfl]
  split
  · refine OrderedMap.mapValues_rename (fun _ _ => ?_) boxes
    rfl
  · rfl

omit [Coordinate α] in
theorem restoreSeeds_rename (boxes : Boxes α) :
    restoreSeeds (boxes.rename σ) = Boxes.rename σ (restoreSeeds boxes) := by
  rw [restoreSeeds_eq, restoreSeeds_eq]
  refine OrderedMap.mapValues_rename (fun _ _ => ?_) boxes
  rfl

theorem place_rename (s : Spacing α) (l : Layered α) (ordering : Ordering) :
    place s (l.rename σ) (ordering.rename σ) = Boxes.rename σ (place s l ordering) := by
  have hPlaced : (ordering.rename σ).foldl (placeLayer s (l.graph.rename σ.box))
      (Progress.rename σ ⟨l.boxes, .empty, nat 0⟩) =
        (ordering.foldl (placeLayer s l.graph) ⟨l.boxes, .empty, nat 0⟩).rename σ := by
    rw [Ordering.rename, List.foldl_map]
    exact List.foldl_hom (Progress.rename σ) fun p layer => placeLayer_rename s l.graph p layer
  unfold place
  rw [← restoreSeeds_rename, ← normalise_rename]
  exact congrArg (fun p => restoreSeeds (normalise p.boxes)) hPlaced

theorem sectionsOf_rename (horizontal : Bool) (boxes : Boxes α) (r : Route)
    (chain : List String) :
    sectionsOf horizontal (boxes.rename σ) (r.rename σ) (chain.map σ.box) =
      sectionsOf horizontal boxes r chain := by
  have hStops : (chain.map σ.box).filterMap
      (fun d => ((boxes.rename σ).get? d).map Box.position) =
        chain.filterMap fun d => (boxes.get? d).map Box.position := by
    rw [List.filterMap_map]
    exact List.filterMap_congr fun n _ => boxes.map_get?_rename (fun _ => rfl) n
  unfold sectionsOf
  rw [show (r.rename σ).source = σ.box r.source from rfl,
    show (r.rename σ).target = σ.box r.target from rfl, boxes.get?_rename, boxes.get?_rename,
    r.isLoop_rename, hStops]
  cases boxes.get? r.source with
  | none => rfl
  | some source =>
    cases boxes.get? r.target with
    | none => rfl
    | some target =>
      dsimp only [Option.map_some]
      rw [show (r.rename σ).handle = r.handle.map σ.handle from rfl, source.fraction_rename]
      rfl

theorem extentOf_rename (boxes : Boxes α) : extentOf (boxes.rename σ) = extentOf boxes := by
  have hReal : ∀ f : Box α → α, (∀ b, f (b.rename σ) = f b) →
      (((OrderedMap.entries (boxes.rename σ)).filter fun e => !isDummy e.1).map (·.2)).map f =
        ((boxes.entries.filter fun e => !isDummy e.1).map (·.2)).map f := by
    intro f hSame
    simp only [Boxes.rename, OrderedMap.rename, List.filter_map, List.map_map, Function.comp_def,
      Prod.map_fst, Prod.map_snd, σ.isDummy_box, hSame]
  unfold extentOf
  dsimp only
  rw [hReal _ fun _ => rfl, hReal _ fun _ => rfl]

/-! ## Plans -/

def Resolved.rename (σ : Renaming) (r : Resolved α) : Resolved α :=
  ⟨r.boxes.rename σ, r.routes.map (Route.rename σ), r.spacing⟩

def Plan.rename (σ : Renaming) (p : Plan α) : Plan α :=
  ⟨p.routes.map (OrientedRoute.rename σ), p.layered.rename σ, p.ordering.rename σ,
    p.boxes.rename σ⟩

theorem planOf_rename (r : Resolved α) : planOf (r.rename σ) = (planOf r).rename σ := by
  unfold planOf Resolved.rename
  dsimp only
  rw [orient_rename, orientedGraph_rename, Layered.ofGraph_rename, Ordering.of_rename,
    place_rename]
  rfl

end Layout

end TypeDiagram
