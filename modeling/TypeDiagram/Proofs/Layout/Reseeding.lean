import TypeDiagram.Proofs.Layout.Boxwise
import TypeDiagram.Proofs.Layout.Stack

/-! # What seeds decide

A seed decides which of the places for seeded nodes in a layer its node takes, and where its box is
put in the end. No other stage looks at seeds: as long as each layer settles in the same order,
boxes with other seeds are arranged in the same way, and only then put back to other places.
-/

namespace TypeDiagram.Layout

open Coordinate

variable {α κ : Type}

abbrev Reseeding (α : Type) := String → Option (Position α) → Option (Position α)

def Box.reseed (σ : Reseeding α) (id : String) (b : Box α) : Box α :=
  { b with seed := σ id b.seed }

def Boxes.reseed (boxes : Boxes α) (σ : Reseeding α) : Boxes α := boxes.mapValues (Box.reseed σ)

def Layered.reseed (l : Layered α) (σ : Reseeding α) : Layered α := l.mapBoxes (Box.reseed σ)

def Progress.reseed (p : Progress α) (σ : Reseeding α) : Progress α :=
  { p with boxes := p.boxes.reseed σ }

def Resolved.reseed (r : Resolved α) (σ : Reseeding α) : Resolved α :=
  { r with boxes := r.boxes.reseed σ }

variable {σ : Reseeding α}

theorem Boxes.get?_reseed (boxes : Boxes α) (n : String) :
    (boxes.reseed σ).get? n = (boxes.get? n).map (Box.reseed σ n) :=
  OrderedMap.get?_mapValues _ boxes n

theorem Boxes.seed_reseed (boxes : Boxes α) (n : String) :
    ((boxes.reseed σ).get? n).bind Box.seed = (boxes.get? n).bind fun b => σ n b.seed := by
  rw [boxes.get?_reseed]
  cases boxes.get? n <;> rfl

/-- Does the child come with both coordinates? -/
def Child.isSeeded (c : Child α κ) : Bool := c.x.isSome && c.y.isSome

variable [Coordinate α]

/-! ## Reading -/

def Request.flank (request : Request α κ) (p : Position α) : α :=
  if isHorizontal request.settings then p.y else p.x

theorem flank_of_resolveRequest {request : Request α κ} {r : Resolved α}
    (h : resolveRequest request = .ok r) : r.spacing.flank = request.flank := by
  funext p
  rw [Spacing.flank, Request.flank, horizontal_of_resolveRequest h]

theorem isSome_of_readSeed {c : Child α κ} {seed : Option (Position α)}
    (h : readSeed c = .ok seed) : seed.isSome = c.isSeeded := by
  unfold readSeed at h
  unfold Child.isSeeded
  split at h
  · rename_i hx hy
    obtain ⟨x, _, h⟩ := bind_eq_ok_iff.mp h
    obtain ⟨y, _, h⟩ := bind_eq_ok_iff.mp h
    cases h
    rw [hx, hy]
    rfl
  · rename_i hNot
    cases h
    cases hx : c.x with
    | none => rfl
    | some x =>
      cases hy : c.y with
      | none => rfl
      | some y => exact (hNot x y hx hy).elim

structure Reseeds (σ : Reseeding α) (c c' : Child α κ) : Prop where
  id : c'.id = c.id
  width : readExtent c'.width = readExtent c.width
  height : readExtent c'.height = readExtent c.height
  handles : c'.handles = c.handles
  seed : ∀ id seed, c.id = some id → readSeed c = .ok seed → readSeed c' = .ok (σ id seed)

theorem Reseeds.readChild {c c' : Child α κ} (h : Reseeds σ c c') {boxes : Boxes α} {index : Nat}
    {id : String} {b : Box α} (hRead : readChild boxes c index = .ok (id, b)) :
    Layout.readChild (boxes.reseed σ) c' index = .ok (id, b.reseed σ id) := by
  obtain ⟨hNew, hBox⟩ := boxOf_of_readChild hRead
  have hSame := readChild_eq_ok hBox.id hNew hBox.seed hBox.handles hBox.width hBox.height index
  have hNew' : id ∉ OrderedMap.keys (boxes.reseed σ) := by
    rwa [Boxes.reseed, OrderedMap.keys_mapValues]
  rw [readChild_eq_ok (h.id.trans hBox.id) hNew' (h.seed id b.seed hBox.id hBox.seed)
    (h.handles ▸ hBox.handles) (h.width.trans hBox.width) (h.height.trans hBox.height)]
  rw [hRead] at hSame
  obtain ⟨size, index', seed, handles, position⟩ := b
  cases hSame
  rfl

theorem readChildren_reseed {children children' : List (Child α κ)}
    (h : List.Forall₂ (Reseeds σ) children children') {boxes : Boxes α}
    (hRead : readChildren children = .ok boxes) :
    readChildren children' = .ok (boxes.reseed σ) :=
  readChildren_of_forall₂ (F := (Boxes.reseed · σ)) rfl
    (fun hReseeds hChild => ⟨_, _, hReseeds.readChild hChild, OrderedMap.insert_mapValues _ _ _ _⟩)
    h hRead

/-! ## The order of seeded nodes -/

theorem sortByKey_eq_mergeSort {β : Type} (key : β → α) (xs : List β) :
    sortByKey key xs = xs.mergeSort fun a b => !less (key b) (key a) := by
  rw [sortByKey, List.map_mergeSort (s := fun a b => !less (key b) (key a)), List.map_map]
  · exact congrArg (List.mergeSort · _) (List.map_id xs)
  · intro a ha b hb
    obtain ⟨x, _, rfl⟩ := List.mem_map.mp ha
    obtain ⟨y, _, rfl⟩ := List.mem_map.mp hb
    rfl

theorem sortByKey_congr {β : Type} {key key' : β → α} {xs : List β}
    (h : ∀ x ∈ xs, ∀ y ∈ xs, less (key x) (key y) = less (key' x) (key' y)) :
    sortByKey key xs = sortByKey key' xs := by
  rw [sortByKey_eq_mergeSort, sortByKey_eq_mergeSort, ← List.map_id (List.mergeSort _ _),
    List.map_mergeSort (s := fun a b => !less (key' b) (key' a)), List.map_id]
  intro a ha b hb
  rw [h b hb a ha]
  rfl

theorem Ordering.fillSlots_filter (isSeeded : String → Bool) (layer : List String) :
    fillSlots isSeeded layer (layer.filter isSeeded) = layer := by
  induction layer with
  | nil => rfl
  | cons n layer ih =>
    rw [fillSlots.eq_def]
    by_cases hn : isSeeded n = true
    · simp [hn, ih]
    · simp [hn, ih]

/-! ## Placing -/

theorem placeAt_reseed (s : Spacing α) (offset thick : α) (p : Progress α) (e : α × Slot α) :
    placeAt s offset thick (p.reseed σ) e = (placeAt s offset thick p e).reseed σ := by
  unfold placeAt Progress.reseed
  dsimp only
  rw [Boxes.get?_reseed]
  cases p.boxes.get? e.2.node with
  | none => rfl
  | some b =>
    dsimp only [Option.map_some]
    rw [Boxes.reseed, Boxes.reseed, ← OrderedMap.insert_mapValues]
    rfl

theorem placeLayer_reseed (s : Spacing α) (g : Digraph α) (p : Progress α) (layer : List String) :
    placeLayer s g (p.reseed σ) layer = (placeLayer s g p layer).reseed σ := by
  have hExtent : ∀ (extent : Box α → α), (∀ n b, extent (b.reseed σ n) = extent b) → ∀ n,
      ((p.reseed σ).boxes.get? n).map extent = (p.boxes.get? n).map extent := by
    intro extent hSame n
    rw [Progress.reseed, Boxes.get?_reseed, Option.map_map]
    exact congrArg (Option.map · _) (funext (hSame n))
  have hSlot : slotOf s g (p.reseed σ) = slotOf s g p := by
    funext n
    unfold slotOf
    simp only [hExtent s.across fun _ _ => rfl]
    rfl
  have hStacked : stacked s g (p.reseed σ) layer = stacked s g p layer := by
    unfold stacked
    rw [hSlot]
  have hThick : thickness s (p.reseed σ).boxes layer = thickness s p.boxes layer := by
    unfold thickness
    simp only [hExtent s.along fun _ _ => rfl]
  have hPlaced : ∀ (es : List (α × Slot α)) (thick : α),
      es.foldl (placeAt s p.offset thick) (p.reseed σ) =
        (es.foldl (placeAt s p.offset thick) p).reseed σ :=
    fun es thick => List.foldl_hom (Progress.reseed · σ) fun p' e =>
      placeAt_reseed s p.offset thick p' e
  rw [placeLayer_eq, placeLayer_eq, hStacked, hThick, show (p.reseed σ).offset = p.offset from rfl,
    hPlaced]
  rfl

theorem normalise_reseed (boxes : Boxes α) :
    normalise (boxes.reseed σ) = (normalise boxes).reseed σ := by
  have hValues : ∀ f : Box α → α, (∀ n b, f (b.reseed σ n) = f b) →
      (OrderedMap.values (boxes.reseed σ)).map f = boxes.values.map f := by
    intro f hSame
    simp only [Boxes.reseed, OrderedMap.values, OrderedMap.mapValues, List.map_map]
    exact List.map_congr_left fun e _ => hSame e.1 e.2
  unfold normalise
  rw [hValues _ fun _ _ => rfl, hValues _ fun _ _ => rfl]
  split
  · simp only [Boxes.reseed, OrderedMap.mapValues, List.map_map]
    rfl
  · rfl

theorem arranged_reseed (s : Spacing α) (l : Layered α) (ordering : Ordering) :
    arranged s (l.reseed σ) ordering = (arranged s l ordering).reseed σ := by
  have hPlaced : ordering.foldl (placeLayer s l.graph)
      (Progress.reseed ⟨l.boxes, .empty, nat 0⟩ σ) =
        (ordering.foldl (placeLayer s l.graph) ⟨l.boxes, .empty, nat 0⟩).reseed σ :=
    List.foldl_hom (Progress.reseed · σ) fun p layer => placeLayer_reseed s l.graph p layer
  unfold arranged
  rw [← normalise_reseed]
  exact congrArg (fun p => normalise p.boxes) hPlaced

/-! ## Plans -/

theorem seed_of_layered {r : Resolved α} {n : String} {p : Position α}
    (h : ((planOf r).layered.boxes.get? n).bind Box.seed = some p) :
    (r.boxes.get? n).bind Box.seed = some p := by
  revert h
  refine Layered.ofGraph_induction (P := fun boxes _ => (boxes.get? n).bind Box.seed = some p →
    (r.boxes.get? n).bind Box.seed = some p) id ?_
  intro boxes _ id index _ _ ih hSeed
  rw [OrderedMap.get?_insert] at hSeed
  split at hSeed
  · cases hSeed
  · exact ih hSeed

def arrangedBoxes (r : Resolved α) : Boxes α :=
  arranged r.spacing (planOf r).layered (planOf r).ordering

theorem planOf_boxes_eq (r : Resolved α) : (planOf r).boxes = restoreSeeds (arrangedBoxes r) := by
  rw [planOf_boxes, place_eq]
  rfl

def KeepsOrder (σ : Reseeding α) (r : Resolved α) : Prop :=
  ∀ layer ∈ Ordering.unsettled (planOf r).layered,
    Ordering.settleSeeds ((planOf r).layered.boxes.reseed σ) r.spacing.horizontal layer =
      Ordering.settleSeeds (planOf r).layered.boxes r.spacing.horizontal layer

theorem layered_reseed (hDummy : ∀ id, isDummy id = true → σ id none = none) (r : Resolved α) :
    (planOf (r.reseed σ)).layered = (planOf r).layered.reseed σ := by
  have hRoutes : orient (r.boxes.reseed σ) r.routes = orient r.boxes r.routes :=
    orient_mapValues (Box.reseed σ) r.boxes r.routes
  have hGraph : orientedGraph (r.boxes.reseed σ) (orient r.boxes r.routes) =
      orientedGraph r.boxes (orient r.boxes r.routes) :=
    orientedGraph_mapValues (f := Box.reseed σ) (fun _ _ => rfl) r.boxes _
  simp only [planOf, Resolved.reseed, hRoutes, hGraph]
  refine ofGraph_mapValues (f := Box.reseed σ) (fun id index hIs => ?_) r.boxes _
  unfold Box.reseed dummyBox
  dsimp only
  rw [hDummy id hIs]

theorem unsettled_reseed (l : Layered α) :
    Ordering.unsettled (l.reseed σ) = Ordering.unsettled l := by
  have hInitial : Ordering.initial (l.reseed σ) = Ordering.initial l :=
    initial_mapBoxes (f := Box.reseed σ) (fun _ _ => rfl) l
  unfold Ordering.unsettled
  rw [hInitial]
  rfl

/-- With seeds that keep the order of the layers, all is planned as before, and then put back to
where the seeds are. -/
theorem planOf_reseed {r : Resolved α} (hDummy : ∀ id, isDummy id = true → σ id none = none)
    (h : KeepsOrder σ r) : planOf (r.reseed σ) = { planOf r with
      layered := (planOf r).layered.reseed σ
      boxes := restoreSeeds ((arrangedBoxes r).reseed σ) } := by
  have hRoutes : (planOf (r.reseed σ)).routes = (planOf r).routes := by
    simp only [planOf]
    exact orient_mapValues (Box.reseed σ) r.boxes r.routes
  have hLayered := layered_reseed hDummy r
  have hOrdering : (planOf (r.reseed σ)).ordering = (planOf r).ordering := by
    rw [planOf_ordering, planOf_ordering, hLayered, Ordering.of, Ordering.of, unsettled_reseed]
    exact List.map_congr_left h
  have hBoxes : (planOf (r.reseed σ)).boxes = restoreSeeds ((arrangedBoxes r).reseed σ) := by
    rw [planOf_boxes_eq, arrangedBoxes, hLayered, hOrdering]
    exact congrArg restoreSeeds (arranged_reseed r.spacing (planOf r).layered (planOf r).ordering)
  generalize planOf (r.reseed σ) = plan at *
  cases plan
  subst hRoutes hLayered hOrdering hBoxes
  rfl

/-! ## Drawing -/

theorem placedChild_reseed (boxes : Boxes α) {c c' : Child α κ} (hId : c'.id = c.id) :
    placedChild (boxes.reseed σ) c' = { placedChild boxes c with child := c' } := by
  unfold placedChild
  rw [hId]
  cases c.id with
  | none => rfl
  | some n =>
    rw [Option.bind_some, Option.bind_some, Boxes.get?_reseed]
    cases boxes.get? n <;> rfl

theorem extentOf_reseed (boxes : Boxes α) : extentOf (boxes.reseed σ) = extentOf boxes := by
  have hReal : ∀ f : Box α → α, (∀ n b, f (b.reseed σ n) = f b) →
      (((OrderedMap.entries (boxes.reseed σ)).filter fun e => !isDummy e.1).map (·.2)).map f =
        ((boxes.entries.filter fun e => !isDummy e.1).map (·.2)).map f := by
    intro f hSame
    simp only [Boxes.reseed, OrderedMap.mapValues, List.filter_map, List.map_map]
    exact List.map_congr_left fun e _ => hSame e.1 e.2
  unfold extentOf
  dsimp only
  rw [hReal _ fun _ _ => rfl, hReal _ fun _ _ => rfl]

theorem sectionsOf_reseed (horizontal : Bool) (boxes : Boxes α) (route : Route)
    (chain : List String) :
    sectionsOf horizontal (boxes.reseed σ) route chain =
      sectionsOf horizontal boxes route chain := by
  have hPosition : ∀ n, ((boxes.reseed σ).get? n).map Box.position =
      (boxes.get? n).map Box.position := by
    intro n
    rw [Boxes.get?_reseed, Option.map_map]
    rfl
  unfold sectionsOf
  simp only [hPosition]
  rw [Boxes.get?_reseed, Boxes.get?_reseed]
  cases boxes.get? route.source <;> cases boxes.get? route.target <;> rfl

end TypeDiagram.Layout
