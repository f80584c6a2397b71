import TypeDiagram.Proofs.Layout.Ascent
import TypeDiagram.Proofs.Layout.Reseeding

/-! # Drawing a drawing again changes nothing

A drawing that is handed in as a request has a seed for each child: the place where it was drawn.
Each layer was placed in its order, and so its seeded nodes, sorted by their places, take the slots
that they are in. Then all boxes, those of dummies included, are arranged as before, and the seeds
put no box anywhere else.
-/

namespace TypeDiagram.Layout

open Coordinate

variable {α κ : Type} [Coordinate α]

/-! ## Layers that are settled already -/

theorem sortByKey_of_pairwise {β : Type} {key : β → α} {xs : List β}
    (h : xs.Pairwise fun a b => less (key b) (key a) = false) : sortByKey key xs = xs := by
  have hKeys : (xs.map fun x => (key x, x)).Pairwise fun a b => (!less b.1 a.1) = true := by
    rw [List.pairwise_map]
    exact h.imp fun {a b} hLess => by rw [hLess]; rfl
  rw [sortByKey, List.mergeSort_of_pairwise hKeys, List.map_map]
  exact List.map_id xs

/-- A layer with its seeds in ascending order across the flow stays in this order. -/
theorem settleSeeds_eq_self (s : Spacing α) {boxes : Boxes α} {layer : List String}
    (h : layer.Pairwise fun m n => ∀ p q, (boxes.get? m).bind Box.seed = some p →
      (boxes.get? n).bind Box.seed = some q → less (s.flank q) (s.flank p) = false) :
    Ordering.settleSeeds boxes s.horizontal layer = layer := by
  unfold Ordering.settleSeeds
  dsimp only
  rw [sortByKey_of_pairwise, Ordering.fillSlots_filter]
  refine (h.filter _).imp_of_mem fun {m n} hm hn hLess => ?_
  obtain ⟨p, hp⟩ := Option.isSome_iff_exists.mp (List.mem_filter.mp hm).2
  obtain ⟨q, hq⟩ := Option.isSome_iff_exists.mp (List.mem_filter.mp hn).2
  rw [hp, hq]
  exact hLess p q hp hq

/-! ## Requests without seeds -/

section Free

variable {request : Request α κ} {r : Resolved α} (hRead : resolveRequest request = .ok r)
  (hFree : ∀ c ∈ request.children, c.isSeeded = false)

include hRead hFree

theorem seed_layered_of_free (n : String) :
    ((planOf r).layered.boxes.get? n).bind Box.seed = none := by
  cases hSeed : ((planOf r).layered.boxes.get? n).bind Box.seed with
  | none => rfl
  | some p =>
    obtain ⟨b, hb, hOwn⟩ := Option.bind_eq_some_iff.mp (seed_of_layered hSeed)
    obtain ⟨c, hc, hBox⟩ := exists_child_of_get? (resolveRequest_eq_ok hRead).1 hb
    have hSeeded := isSome_of_readSeed hBox.seed
    rw [hOwn, hFree c hc] at hSeeded
    cases hSeeded

theorem ordering_of_free : (planOf r).ordering = Ordering.unsettled (planOf r).layered := by
  rw [planOf_ordering, Ordering.of]
  refine (List.map_congr_left fun layer _ => ?_).trans (List.map_id _)
  refine settleSeeds_eq_self r.spacing (List.pairwise_of_forall fun m n p q hp => ?_)
  rw [seed_layered_of_free hRead hFree] at hp
  cases hp

end Free

/-! ## Boxes that stay where they are -/

theorem nodup_keys_placeLayer (s : Spacing α) (g : Digraph α) {p : Progress α}
    (h : p.boxes.keys.Nodup) (layer : List String) :
    (placeLayer s g p layer).boxes.keys.Nodup := by
  rw [placeLayer_eq]
  dsimp only
  induction stacked s g p layer using List.reverseRecOn with
  | nil => exact h
  | append_singleton es e ih =>
    rw [List.foldl_append, List.foldl_cons, List.foldl_nil, placeAt]
    split
    · exact ih
    · exact OrderedMap.nodup_keys_insert ih _ _

theorem nodup_keys_arranged (s : Spacing α) {l : Layered α} (h : l.boxes.keys.Nodup)
    (ordering : Ordering) : (arranged s l ordering).keys.Nodup := by
  have hFold : ∀ p : Progress α, p.boxes.keys.Nodup →
      (ordering.foldl (placeLayer s l.graph) p).boxes.keys.Nodup := by
    induction ordering with
    | nil => exact fun p hp => hp
    | cons layer ordering ih => exact fun p hp => ih _ (nodup_keys_placeLayer s l.graph hp layer)
  unfold arranged normalise
  split
  · rw [OrderedMap.keys_mapValues]
    exact hFold _ h
  · exact hFold _ h

omit [Coordinate α] in
theorem restoreSeeds_eq_self {boxes : Boxes α} (h : boxes.keys.Nodup)
    (hSeeds : ∀ n b, boxes.get? n = some b → b.seed.getD b.position = b.position) :
    restoreSeeds boxes = boxes := by
  rw [restoreSeeds_eq]
  refine congrArg OrderedMap.mk ((List.map_congr_left fun e he => ?_).trans (List.map_id _))
  dsimp only
  rw [hSeeds e.1 e.2 (OrderedMap.get?_eq_some_of_mem h he)]
  rfl

/-! ## Drawings as requests -/

def PlacedChild.asChild (p : PlacedChild α κ) : Child α κ :=
  { p.child with
    x := some (.number p.position.x), y := some (.number p.position.y)
    width := some (.number p.size.width), height := some (.number p.size.height) }

def RoutedLink.asLink (note : RoutedLink α κ → κ) (e : RoutedLink α κ) : Link κ :=
  { e.link with attributes := note e }

def Drawing.asRequest (d : Drawing α κ) (settings : List (String × Document Amount))
    (note : RoutedLink α κ → κ) : Request α κ :=
  ⟨settings, d.children.map PlacedChild.asChild, d.edges.map (RoutedLink.asLink note)⟩

omit [Coordinate α] in
theorem readLinks_asLink (note : RoutedLink α κ → κ) (boxes : Boxes α)
    (es : List (RoutedLink α κ)) :
    readLinks boxes (es.map (RoutedLink.asLink note)) =
      readLinks boxes (es.map RoutedLink.link) := by
  unfold readLinks
  rw [List.mapM_map, List.mapM_map]
  rfl

theorem Plan.links_drawing (p : Plan α) (horizontal : Bool) (children : List (Child α κ))
    {edges : List (Link κ)} (h : edges.length ≤ p.routes.length) :
    (p.drawing horizontal children edges).edges.map RoutedLink.link = edges := by
  rw [drawing, List.map_map]
  exact List.map_fst_zip h

theorem Plan.drawing_reseed (p : Plan α) {σ : Reseeding α} (horizontal : Bool)
    (children : List (Child α κ)) (edges : List (Link κ)) (note : RoutedLink α κ → κ) :
    let d := p.drawing horizontal children edges
    { p with layered := p.layered.reseed σ, boxes := p.boxes.reseed σ }.drawing horizontal
      (d.children.map PlacedChild.asChild) (d.edges.map (RoutedLink.asLink note)) = { d with
        children := d.children.map fun c => { c with child := c.asChild }
        edges := d.edges.map fun e => { e with link := e.asLink note } } := by
  have hChild : ∀ c : Child α κ, placedChild (p.boxes.reseed σ) (placedChild p.boxes c).asChild =
      { placedChild p.boxes c with child := (placedChild p.boxes c).asChild } :=
    fun c => placedChild_reseed p.boxes (congrArg Child.id (placedChild_child p.boxes c) : _)
  have hZip : ∀ (f : Link κ × OrientedRoute → Link κ) (routes : List OrientedRoute),
      ((edges.zip routes).map f).zip routes = (edges.zip routes).map fun e => (f e, e.2) := by
    intro f
    induction edges with
    | nil => exact fun _ => rfl
    | cons edge edges ih =>
      intro routes
      cases routes with
      | nil => rfl
      | cons route routes => exact congrArg (_ :: ·) (ih routes)
  intro d
  simp only [d, drawing, extentOf_reseed, sectionsOf_reseed, List.map_map, hZip]
  congr 1
  exact List.map_congr_left fun c _ => hChild c

/-- The request leaves all places to the layout: no child has a place of its own or passes for the
crossing of a layer, no extent is negative, and neither is the room between boxes. -/
structure Request.Unplaced (request : Request α κ) : Prop where
  plain : ∀ c ∈ request.children, ∀ id, c.id = some id → isDummy id = false
  free : ∀ c ∈ request.children, c.isSeeded = false
  width : ∀ c ∈ request.children, ∀ w, readExtent c.width = .ok w → Nonneg w
  height : ∀ c ∈ request.children, ∀ h, readExtent c.height = .ok h → Nonneg h
  nodeGap : ∀ s : Spacing α, readSpacing request.settings = .ok s → Nonneg s.nodeGap

/-- A box has its seed where it was arranged; dummies have none. -/
def settled (r : Resolved α) : Reseeding α := fun id _ =>
  if isDummy id then none else ((arrangedBoxes r).get? id).map Box.position

section Unplaced

variable {request : Request α κ} (h : request.Unplaced) {r : Resolved α}
  (hRead : resolveRequest request = .ok r)

include h hRead

theorem Request.Unplaced.seed_arranged {n : String} {b : Box α}
    (hb : (arrangedBoxes r).get? n = some b) : b.seed = none := by
  obtain ⟨position, hLayered⟩ := (arranged_moved _ _ _).eq_some_of_eq_some hb
  have hSeed := seed_layered_of_free hRead h.free n
  rwa [hLayered] at hSeed

omit h in
theorem nodup_keys_arrangedBoxes : (arrangedBoxes r).keys.Nodup := by
  refine nodup_keys_arranged r.spacing ?_ _
  exact Layered.ofGraph_induction (P := fun boxes _ => boxes.keys.Nodup)
    (nodup_readChildren (resolveRequest_eq_ok hRead).1)
    fun boxes _ id index _ _ hNodup => OrderedMap.nodup_keys_insert hNodup id _

theorem Request.Unplaced.boxes_eq : (planOf r).boxes = arrangedBoxes r := by
  rw [planOf_boxes_eq]
  refine restoreSeeds_eq_self (nodup_keys_arrangedBoxes hRead) fun n b hb => ?_
  rw [h.seed_arranged hRead hb]
  rfl

omit h in
theorem restoreSeeds_settled :
    restoreSeeds ((arrangedBoxes r).reseed (settled r)) = (arrangedBoxes r).reseed (settled r) := by
  have hNodup := nodup_keys_arrangedBoxes hRead
  refine restoreSeeds_eq_self (by rwa [Boxes.reseed, OrderedMap.keys_mapValues]) fun n b hb => ?_
  rw [Boxes.get?_reseed, Option.map_eq_some_iff] at hb
  obtain ⟨old, hOld, rfl⟩ := hb
  unfold Box.reseed settled
  rw [hOld]
  cases isDummy n <;> rfl

variable [Monotone α]

theorem Request.Unplaced.sized_layered : (planOf r).layered.boxes.Sized := by
  refine Layered.ofGraph_induction (P := fun boxes _ => boxes.Sized) ?_ ?_
  · intro id b hb
    obtain ⟨c, hc, hBox⟩ := exists_child_of_get? (resolveRequest_eq_ok hRead).1 hb
    exact ⟨h.width c hc _ hBox.width, h.height c hc _ hBox.height⟩
  · intro boxes _ id index _ _ hSized n b hb
    rw [OrderedMap.get?_insert] at hb
    split at hb
    · cases hb
      exact ⟨nonneg_zero, nonneg_zero⟩
    · exact hSized n b hb

theorem Request.Unplaced.arranged_ascends :
    ∀ layer ∈ (planOf r).ordering, Ascends r.spacing (arrangedBoxes r) layer := by
  have hGap : Nonneg r.spacing.nodeGap := h.nodeGap _ (readSpacing_of_resolveRequest hRead)
  have hNodup : (planOf r).ordering.flatten.Nodup := by
    rw [planOf_ordering]
    exact Ordering.nodup_flatten_of (nodup_layers_planOf hRead) _
  exact Layout.arranged_ascends hGap (h.sized_layered hRead) hNodup

theorem Request.Unplaced.keepsOrder : KeepsOrder (settled r) r := by
  intro layer hLayer
  rw [← ordering_of_free hRead h.free] at hLayer
  have hSettled : ∀ {n : String} {p : Position α},
      (((planOf r).layered.boxes.reseed (settled r)).get? n).bind Box.seed = some p →
        ∃ b, (arrangedBoxes r).get? n = some b ∧ b.position = p := by
    intro n p hp
    rw [Boxes.seed_reseed] at hp
    obtain ⟨b, _, hSeed⟩ := Option.bind_eq_some_iff.mp hp
    unfold settled at hSeed
    split at hSeed
    · cases hSeed
    · exact Option.map_eq_some_iff.mp hSeed
  have hAscends := h.arranged_ascends hRead layer hLayer
  rw [settleSeeds_eq_self r.spacing (hAscends.imp fun {m n} hLess p q hp hq => ?_),
    settleSeeds_eq_self r.spacing (List.pairwise_of_forall fun m n p q hp => ?_)]
  · rw [seed_layered_of_free hRead h.free] at hp
    cases hp
  · obtain ⟨b, hb, rfl⟩ := hSettled hp
    obtain ⟨c, hc, rfl⟩ := hSettled hq
    exact hLess b c hb hc

theorem Request.Unplaced.planOf_settled : planOf (r.reseed (settled r)) = { planOf r with
    layered := (planOf r).layered.reseed (settled r)
    boxes := (planOf r).boxes.reseed (settled r) } := by
  have hDummy : ∀ id, isDummy id = true → settled r id none = none :=
    fun id hIs => if_pos hIs
  rw [planOf_reseed hDummy (h.keepsOrder hRead), restoreSeeds_settled hRead, h.boxes_eq hRead]

end Unplaced

/-! ## The second request -/

section Again

variable {request : Request α κ} (h : request.Unplaced) {r : Resolved α}
  (hRead : resolveRequest request = .ok r)

include h hRead

/-- A child has a box, as large as the child says, and stands where that was arranged. -/
theorem Request.Unplaced.exists_box {c : Child α κ} (hc : c ∈ request.children) :
    ∃ id b, c.id = some id ∧ isDummy id = false ∧ (planOf r).boxes.get? id = some b ∧
      readExtent c.width = .ok b.size.width ∧ readExtent c.height = .ok b.size.height ∧
      placedChild (planOf r).boxes c = ⟨c, b.position, b.size⟩ := by
  obtain ⟨id, old, hOld, hBox⟩ := exists_box_of_mem (resolveRequest_eq_ok hRead).1 hc
  have hPlain := h.plain c hc id hBox.id
  have hComplete := complete_planOf (wellRouted_of_resolveRequest hRead)
  obtain ⟨b, hb, ⟨position, rfl⟩ | ⟨hDummy, _⟩⟩ := hComplete.kept id old hOld
  · exact ⟨id, _, hBox.id, hPlain, hb, hBox.width, hBox.height, placedChild_of_get? hBox.id hb⟩
  · rw [hPlain] at hDummy
    cases hDummy

theorem Request.Unplaced.reseeds {c : Child α κ} (hc : c ∈ request.children) :
    Reseeds (settled r) c (placedChild (planOf r).boxes c).asChild := by
  obtain ⟨id, b, hId, hPlain, hb, hWidth, hHeight, hPlaced⟩ := h.exists_box hRead hc
  rw [hPlaced]
  refine ⟨rfl, hWidth.symm, hHeight.symm, rfl, fun other seed hOther _ => ?_⟩
  rw [hId] at hOther
  cases hOther
  rw [h.boxes_eq hRead] at hb
  unfold settled
  rw [hPlain, hb]
  rfl

theorem Request.Unplaced.resolveRequest_asRequest (note : RoutedLink α κ → κ) :
    let d := (planOf r).drawing r.spacing.horizontal request.children request.edges
    resolveRequest (d.asRequest request.settings note) = .ok (r.reseed (settled r)) := by
  intro d
  obtain ⟨hChildren, hLinks⟩ := resolveRequest_eq_ok hRead
  have hReseeds : List.Forall₂ (Reseeds (settled r)) request.children
      (d.children.map PlacedChild.asChild) := by
    simp only [d, Plan.drawing, List.map_map, List.forall₂_map_right_iff, List.forall₂_same]
    exact fun c hc => h.reseeds hRead hc
  have hEdges : readLinks (r.boxes.reseed (settled r)) (d.edges.map (RoutedLink.asLink note)) =
      .ok r.routes := by
    have hSame : d.edges.map RoutedLink.link = request.edges :=
      (planOf r).links_drawing _ _ (length_routes_planOf hRead).ge
    rw [Boxes.reseed, readLinks_mapValues (f := Box.reseed (settled r)) fun _ _ => rfl,
      readLinks_asLink, hSame, hLinks]
  have hSpacing := readSpacing_of_resolveRequest hRead
  exact resolveRequest_eq_ok_iff.mpr
    ⟨hSpacing, readChildren_reseed hReseeds hChildren, hEdges⟩

end Again

/-- A request that leaves all places to the layout is drawn; the drawing, handed in as a request, is
drawn again with each child in its place, with the same line for each edge and as large. -/
theorem draw_asRequest [Monotone α] {request : Request α κ} (h : request.Unplaced)
    {d : Drawing α κ} (hDraw : draw request = .ok d) (note : RoutedLink α κ → κ) :
    draw (d.asRequest request.settings note) = .ok { d with
      children := d.children.map fun p => { p with child := p.asChild }
      edges := d.edges.map fun e => { e with link := e.asLink note } } := by
  obtain ⟨r, hRead, rfl⟩ := draw_eq_ok_iff.mp hDraw
  refine draw_eq_ok_iff.mpr ⟨_, h.resolveRequest_asRequest hRead note, ?_⟩
  rw [h.planOf_settled hRead]
  exact (planOf r).drawing_reseed r.spacing.horizontal request.children request.edges note

/-- Without room between boxes, and with boxes that take up none, all places of a layer are the same
one. The edge from `A` to `D` passes the layer of `B` and `C` as a dummy. -/
theorem draw_asRequest_of_crowded_layer :
    let child (id : String) (size : Rat) : Child Rat Unit :=
      ⟨some id, none, none, some (.number size), some (.number size), [], ()⟩
    let edge (source target : String) : Link Unit := ⟨.absent, [.text source], [.text target], ()⟩
    let request : Request Rat Unit := ⟨[("elk.spacing.nodeNode", .string "0")],
      [child "A" 20, child "B" 0, child "C" 0, child "D" 30],
      [edge "A" "C", edge "A" "D", edge "A" "B", edge "B" "D"]⟩
    ∃ d, draw request = .ok d ∧ draw (d.asRequest request.settings fun e => e.link.attributes) =
      .ok { d with
        children := d.children.map fun p => { p with child := p.asChild }
        edges := d.edges.map fun e => { e with link := e.asLink fun e => e.link.attributes } } := by
  intro child edge request
  have hResolves : (resolveRequest request).isOk = true := by decide +kernel
  have hChildren : ∀ c ∈ request.children,
      ∃ name size, c = child name size ∧ isDummy name = false ∧ 0 ≤ size := by
    intro c hc
    simp only [request, List.mem_cons, List.not_mem_nil, or_false] at hc
    rcases hc with rfl | rfl | rfl | rfl <;> exact ⟨_, _, rfl, by decide, by decide⟩
  have hUnplaced : request.Unplaced := by
    have hGap : ∀ s ∈ (readSpacing request.settings : Except Error (Spacing Rat)).toOption,
        0 ≤ s.nodeGap := by decide +kernel
    refine ⟨?_, ?_, ?_, ?_, fun s hs => (nonneg_rat_iff _).mpr (hGap s (hs ▸ rfl))⟩ <;>
      intro c hc <;>
      obtain ⟨name, size, rfl, hPlain, hSize⟩ := hChildren c hc
    · rintro id ⟨⟩
      exact hPlain
    · rfl
    · rintro w ⟨⟩
      exact (nonneg_rat_iff _).mpr hSize
    · rintro h ⟨⟩
      exact (nonneg_rat_iff _).mpr hSize
  obtain ⟨d, hDraw⟩ := exists_draw_eq_ok hResolves
  exact ⟨d, hDraw, draw_asRequest hUnplaced hDraw _⟩

end TypeDiagram.Layout
