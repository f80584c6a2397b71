import TypeDiagram.Proofs.Layout.Boxwise

/-! # Horizontal and vertical are mirror images

The transpose of a request swaps the axes of its children and its direction. Every stage of drawing
commutes with it, so the drawing of the transpose is the transpose of the drawing. No law of
arithmetic is used: both directions compute the same numbers in the same order.
-/

namespace TypeDiagram

theorem foldlM_hom {ε σ τ β γ : Type} {step : σ → β → Except ε σ} {step' : τ → γ → Except ε τ}
    {f : σ → τ} {g : β → γ} {xs : List β}
    (h : ∀ s, ∀ x ∈ xs, step' (f s) (g x) = (step s x).map f) (s : σ) :
    (xs.map g).foldlM step' (f s) = (xs.foldlM step s).map f := by
  induction xs generalizing s with
  | nil => rfl
  | cons x xs ih =>
    rw [List.map_cons, List.foldlM_cons, List.foldlM_cons, h s x List.mem_cons_self]
    cases step s x with
    | error e => rfl
    | ok t => exact ih (fun s y hy => h s y (List.mem_cons_of_mem x hy)) t

def Position.transpose {α : Type} (p : Position α) : Position α := ⟨p.y, p.x⟩

def Size.transpose {α : Type} (z : Size α) : Size α := ⟨z.height, z.width⟩

namespace Layout

open Coordinate

variable {α κ : Type}

/-! ## Transposes -/

def Box.transpose (b : Box α) : Box α :=
  ⟨b.size.transpose, b.index, b.seed.map Position.transpose, b.handles, b.position.transpose⟩

def Boxes.transpose (boxes : Boxes α) : Boxes α := boxes.mapValues fun _ => Box.transpose

def Spacing.transpose (s : Spacing α) : Spacing α := { s with horizontal := !s.horizontal }

def Layered.transpose (l : Layered α) : Layered α := l.mapBoxes fun _ => Box.transpose

def Progress.transpose (p : Progress α) : Progress α := { p with boxes := p.boxes.transpose }

def Resolved.transpose (r : Resolved α) : Resolved α :=
  ⟨r.boxes.transpose, r.routes, r.spacing.transpose⟩

def Plan.transpose (p : Plan α) : Plan α :=
  { p with layered := p.layered.transpose, boxes := p.boxes.transpose }

def Child.transpose (c : Child α κ) : Child α κ :=
  { c with x := c.y, y := c.x, width := c.height, height := c.width }

def swapDirection : Document Amount → Document Amount
  | .string "RIGHT" => .string "DOWN"
  | .string "DOWN" => .string "RIGHT"
  | d => d

def swapSetting (e : String × Document Amount) : String × Document Amount :=
  if e.1 = "elk.direction" then (e.1, swapDirection e.2) else e

def Request.transpose (r : Request α κ) : Request α κ :=
  ⟨r.settings.map swapSetting, r.children.map Child.transpose, r.edges⟩

def Section.transpose (s : Section α) : Section α :=
  ⟨s.id, s.start.transpose, s.finish.transpose, s.bends.map Position.transpose⟩

def PlacedChild.transpose (c : PlacedChild α κ) : PlacedChild α κ :=
  ⟨c.child.transpose, c.position.transpose, c.size.transpose⟩

def RoutedLink.transpose (l : RoutedLink α κ) : RoutedLink α κ :=
  ⟨l.link, l.sections.map Section.transpose⟩

def Drawing.transpose (d : Drawing α κ) : Drawing α κ :=
  ⟨d.size.transpose, d.children.map PlacedChild.transpose, d.edges.map RoutedLink.transpose⟩

/-! ## Boxes -/

theorem Boxes.get?_transpose (boxes : Boxes α) (n : String) :
    boxes.transpose.get? n = (boxes.get? n).map Box.transpose := OrderedMap.get?_mapValues _ boxes n

theorem Boxes.insert_transpose (boxes : Boxes α) (n : String) (b : Box α) :
    boxes.transpose.insert n b.transpose = Boxes.transpose (boxes.insert n b) :=
  OrderedMap.insert_mapValues (fun _ => Box.transpose) boxes n b

variable [Coordinate α]

/-! ## Reading -/

def Child.Numeric (c : Child α κ) : Prop :=
  ∀ s, some (.text s) ∉ [c.x, c.y, c.width, c.height]

omit [Coordinate α] in
theorem Child.Numeric.not_text {c : Child α κ} (h : c.Numeric) :
    (∀ s, c.x ≠ some (.text s)) ∧ (∀ s, c.y ≠ some (.text s)) ∧
      (∀ s, c.width ≠ some (.text s)) ∧ ∀ s, c.height ≠ some (.text s) := by
  refine ⟨fun s hText => h s ?_, fun s hText => h s ?_, fun s hText => h s ?_,
    fun s hText => h s ?_⟩ <;> simp [hText]

theorem Child.Numeric.readSeed_transpose {c : Child α κ} (h : c.Numeric) :
    readSeed c.transpose = (readSeed c).map (Option.map Position.transpose) := by
  obtain ⟨hX, hY, _, _⟩ := h.not_text
  unfold readSeed Child.transpose
  dsimp only
  cases hx : c.x with
  | none => cases c.y <;> rfl
  | some x =>
    cases hy : c.y with
    | none => rfl
    | some y =>
      have hxRead := x.read_cases fun s hText => hX s (hText ▸ hx)
      have hyRead := y.read_cases fun s hText => hY s (hText ▸ hy)
      rcases hxRead with ⟨_, a, ha⟩ | ⟨_, ha⟩ <;> rcases hyRead with ⟨_, b, hb⟩ | ⟨_, hb⟩ <;>
        · dsimp only
          rw [ha, hb]
          rfl

theorem readChild_transpose {c : Child α κ} (h : c.Numeric) (boxes : Boxes α) (index : Nat) :
    readChild boxes.transpose c.transpose index =
      (readChild boxes c index).map fun e => (e.1, e.2.transpose) := by
  obtain ⟨_, _, hWidth, hHeight⟩ := h.not_text
  unfold readChild
  rw [h.readSeed_transpose]
  cases hId : c.id with
  | none =>
    rw [show c.transpose.id = none from hId]
    rfl
  | some id =>
    rw [show c.transpose.id = some id from hId]
    change (if boxes.transpose.contains id then _ else _) =
      Except.map _ (if boxes.contains id then _ else _)
    rw [Boxes.transpose, OrderedMap.contains_mapValues]
    split
    · rfl
    · change (Except.map _ (readSeed c) >>= fun _ => readHandles c.handles >>= fun _ =>
          readExtent c.height >>= fun _ => readExtent c.width >>= fun _ => _) =
        Except.map _ (readSeed c >>= fun _ => readHandles c.handles >>= fun _ => _)
      cases readSeed c with
      | error e => rfl
      | ok seed =>
        change (readHandles c.handles >>= fun handles => _) =
          Except.map _ (readHandles c.handles >>= fun handles => _)
        cases readHandles c.handles with
        | error e => rfl
        | ok handles =>
          rcases readExtent_cases hWidth with ⟨_, w, hw⟩ | ⟨_, hw⟩ <;>
            rcases readExtent_cases hHeight with ⟨_, v, hv⟩ | ⟨_, hv⟩ <;>
            · change (readExtent c.height >>= fun height => readExtent c.width >>= fun width => _) =
                Except.map _ (readExtent c.width >>= fun width =>
                  readExtent c.height >>= fun height => _)
              rw [hw, hv]
              rfl

theorem readChildren_transpose {children : List (Child α κ)} (h : ∀ c ∈ children, c.Numeric) :
    readChildren (children.map Child.transpose) =
      (readChildren children).map Boxes.transpose := by
  unfold readChildren
  rw [List.zipIdx_map]
  refine foldlM_hom (f := Boxes.transpose) (s := .empty) fun boxes c hc => ?_
  have hNumeric := h c.1 (List.fst_mem_of_mem_zipIdx hc)
  change (readChild boxes.transpose c.1.transpose c.2 >>= fun e => _) =
    Except.map _ (readChild boxes c.1 c.2 >>= fun e => _)
  rw [readChild_transpose hNumeric]
  cases readChild boxes c.1 c.2 with
  | error e => rfl
  | ok e => exact congrArg Except.ok (Boxes.insert_transpose boxes e.1 e.2)

/-! ## Settings -/

theorem lookup_swapSetting (settings : List (String × Document Amount)) (key : String) :
    (settings.map swapSetting).lookup key =
      (settings.lookup key).map fun d => if key = "elk.direction" then swapDirection d else d := by
  induction settings with
  | nil => rfl
  | cons e settings ih =>
    have hKey : (swapSetting e).1 = e.1 := by
      unfold swapSetting
      split <;> rfl
    rw [List.map_cons, List.lookup_cons, List.lookup_cons, hKey, ih]
    by_cases hSame : key = e.1
    · subst hSame
      rw [beq_self_eq_true]
      by_cases hDirection : e.1 = "elk.direction" <;> simp [swapSetting, hDirection]
    · rw [beq_eq_false_iff_ne.mpr hSame]

theorem readSpacing_transpose {settings : List (String × Document Amount)}
    (h : settings.lookup "elk.direction" = some (.string "RIGHT") ∨
      settings.lookup "elk.direction" = some (.string "DOWN")) :
    (readSpacing (settings.map swapSetting) : Except Error (Spacing α)) =
      (readSpacing settings).map Spacing.transpose := by
  have hOther : ∀ {key : String} (standard : α), key ≠ "elk.direction" →
      readSetting (settings.map swapSetting) key standard = readSetting settings key standard := by
    intro key standard hKey
    unfold readSetting
    simp only [lookup_swapSetting, if_neg hKey, Option.map_id']
  have hDirection : isHorizontal (settings.map swapSetting) = !isHorizontal settings := by
    unfold isHorizontal
    rw [lookup_swapSetting]
    rcases h with hRight | hDown
    · rw [hRight]
      decide
    · rw [hDown]
      decide
  unfold readSpacing
  rw [hOther _ (by decide), hOther _ (by decide), hOther _ (by decide), hDirection]
  cases readSetting settings "elk.layered.spacing.nodeNodeBetweenLayers" (nat 30 : α) with
  | error e => rfl
  | ok betweenLayers =>
    cases readSetting settings "elk.layered.spacing.edgeNodeBetweenLayers" (nat 30 : α) with
    | error e => rfl
    | ok edgeGap => cases readSetting settings "elk.spacing.nodeNode" (nat 50 : α) <;> rfl

/-! ## Layers and their order -/

theorem settleSeeds_transpose (boxes : Boxes α) (horizontal : Bool) (layer : List String) :
    Ordering.settleSeeds boxes.transpose (!horizontal) layer =
      Ordering.settleSeeds boxes horizontal layer := by
  have hSeed : ∀ n, (boxes.transpose.get? n).bind Box.seed =
      ((boxes.get? n).bind Box.seed).map Position.transpose := by
    intro n
    rw [boxes.get?_transpose]
    cases boxes.get? n <;> rfl
  unfold Ordering.settleSeeds
  simp only [hSeed, Option.isSome_map, Option.map_map]
  cases horizontal <;> rfl

theorem ordering_transpose (l : Layered α) (horizontal : Bool) :
    Ordering.of l.transpose (!horizontal) = Ordering.of l horizontal := by
  unfold Ordering.of Ordering.unsettled
  have hInitial : Ordering.initial l.transpose = Ordering.initial l :=
    initial_mapBoxes (f := fun _ => Box.transpose) (fun _ _ => rfl) l
  rw [hInitial]
  exact List.map_congr_left fun layer _ => settleSeeds_transpose l.boxes horizontal layer

/-! ## Coordinates -/

section Spaced

variable (s : Spacing α) (b : Box α)

omit [Coordinate α]

theorem along_transpose : s.transpose.along b.transpose = s.along b := by
  unfold Spacing.along Spacing.transpose
  cases s.horizontal <;> rfl

theorem across_transpose : s.transpose.across b.transpose = s.across b := by
  unfold Spacing.across Spacing.transpose
  cases s.horizontal <;> rfl

theorem position_transpose (primary secondary : α) :
    s.transpose.position primary secondary = (s.position primary secondary).transpose := by
  unfold Spacing.position Spacing.transpose
  cases s.horizontal <;> rfl

end Spaced

theorem stack_transpose (s : Spacing α) (cursor : Option α) (slots : List (Slot α)) :
    stack s.transpose cursor slots = stack s cursor slots := by
  induction slots generalizing cursor with
  | nil => rfl
  | cons slot slots ih => exact congrArg (List.cons _) (ih _)

section Extents

variable (s : Spacing α) (boxes : Boxes α) (n : String)

omit [Coordinate α]

theorem get?_along_transpose :
    (boxes.transpose.get? n).map s.transpose.along = (boxes.get? n).map s.along := by
  rw [boxes.get?_transpose, Option.map_map]
  exact congrArg (Option.map · _) (funext fun b => along_transpose s b)

theorem get?_across_transpose :
    (boxes.transpose.get? n).map s.transpose.across = (boxes.get? n).map s.across := by
  rw [boxes.get?_transpose, Option.map_map]
  exact congrArg (Option.map · _) (funext fun b => across_transpose s b)

end Extents

theorem thickness_transpose (s : Spacing α) (boxes : Boxes α) (layer : List String) :
    thickness s.transpose boxes.transpose layer = thickness s boxes layer := by
  unfold thickness
  simp only [get?_along_transpose]

theorem stacked_transpose (s : Spacing α) (g : Digraph α) (p : Progress α) (layer : List String) :
    stacked s.transpose g p.transpose layer = stacked s g p layer := by
  have hSlot : slotOf s.transpose g p.transpose = slotOf s g p := by
    funext n
    unfold slotOf Progress.transpose
    simp only [get?_across_transpose]
  unfold stacked
  dsimp only
  rw [hSlot, stack_transpose]

theorem placeAt_transpose (s : Spacing α) (offset thick : α) (p : Progress α) (e : α × Slot α) :
    placeAt s.transpose offset thick p.transpose e = (placeAt s offset thick p e).transpose := by
  unfold placeAt Progress.transpose
  dsimp only
  rw [Boxes.get?_transpose]
  cases p.boxes.get? e.2.node with
  | none => rfl
  | some b =>
    have hPlaced : b.transpose.placed s.transpose offset thick e.1 =
        (b.placed s offset thick e.1).transpose := by
      unfold Box.placed
      rw [along_transpose, position_transpose]
      rfl
    dsimp only [Option.map_some]
    rw [hPlaced, Boxes.insert_transpose]

theorem placeLayer_transpose (s : Spacing α) (g : Digraph α) (p : Progress α)
    (layer : List String) :
    placeLayer s.transpose g p.transpose layer = (placeLayer s g p layer).transpose := by
  have hPlaced : ∀ es : List (α × Slot α), ∀ offset thick : α,
      es.foldl (placeAt s.transpose offset thick) p.transpose =
        (es.foldl (placeAt s offset thick) p).transpose :=
    fun es offset thick => List.foldl_hom Progress.transpose fun p e =>
      placeAt_transpose s offset thick p e
  rw [placeLayer_eq, placeLayer_eq, stacked_transpose, hPlaced]
  unfold Progress.transpose
  rw [thickness_transpose]
  rfl

omit [Coordinate α] in
theorem mapValues_transpose (boxes : Boxes α) {f g : Box α → Box α}
    (h : ∀ b, f b.transpose = (g b).transpose) :
    boxes.transpose.mapValues (fun _ => f) = Boxes.transpose (boxes.mapValues fun _ => g) := by
  simp only [Boxes.transpose, OrderedMap.mapValues, List.map_map, OrderedMap.mk.injEq]
  exact List.map_congr_left fun e _ => congrArg (Prod.mk e.1) (h e.2)

omit [Coordinate α] in
theorem map_values_transpose {β : Type} (boxes : Boxes α) (f : Box α → β) :
    (OrderedMap.values boxes.transpose).map f = boxes.values.map fun b => f b.transpose := by
  simp only [Boxes.transpose, OrderedMap.values, OrderedMap.mapValues, List.map_map]
  rfl

theorem normalise_transpose (boxes : Boxes α) :
    normalise boxes.transpose = (normalise boxes).transpose := by
  have hX : (OrderedMap.values boxes.transpose).map (fun b => b.position.x) =
      boxes.values.map fun b => b.position.y := map_values_transpose boxes _
  have hY : (OrderedMap.values boxes.transpose).map (fun b => b.position.y) =
      boxes.values.map fun b => b.position.x := map_values_transpose boxes _
  unfold normalise
  rw [hX, hY]
  cases minimum? (boxes.values.map fun b => b.position.x) with
  | none => cases minimum? (boxes.values.map fun b => b.position.y) <;> rfl
  | some x =>
    cases minimum? (boxes.values.map fun b => b.position.y) with
    | none => rfl
    | some y => exact mapValues_transpose boxes fun b => rfl

omit [Coordinate α] in
theorem restoreSeeds_transpose (boxes : Boxes α) :
    restoreSeeds boxes.transpose = (restoreSeeds boxes).transpose := by
  refine mapValues_transpose boxes fun b => ?_
  cases b with
  | mk size index seed handles position => cases seed <;> rfl

theorem place_transpose (s : Spacing α) (l : Layered α) (ordering : Ordering) :
    place s.transpose l.transpose ordering = (place s l ordering).transpose := by
  have hPlaced : ordering.foldl (placeLayer s.transpose l.graph)
      (Progress.transpose ⟨l.boxes, .empty, nat 0⟩) =
        (ordering.foldl (placeLayer s l.graph) ⟨l.boxes, .empty, nat 0⟩).transpose :=
    List.foldl_hom Progress.transpose fun p layer => placeLayer_transpose s l.graph p layer
  have hBoxes := congrArg Progress.boxes hPlaced
  change restoreSeeds (normalise (ordering.foldl (placeLayer s.transpose l.graph)
    (Progress.transpose ⟨l.boxes, .empty, nat 0⟩)).boxes) = _
  rw [hBoxes]
  exact (congrArg restoreSeeds (normalise_transpose _)).trans (restoreSeeds_transpose _)

/-! ## Lines -/

section Lines

variable (horizontal : Bool)

theorem exitPoint_transpose (b : Box α) (fraction : α) :
    exitPoint (!horizontal) b.transpose fraction = (exitPoint horizontal b fraction).transpose := by
  unfold exitPoint
  cases horizontal <;> rfl

theorem entryPoint_transpose (b : Box α) :
    entryPoint (!horizontal) b.transpose = (entryPoint horizontal b).transpose := by
  unfold entryPoint
  cases horizontal <;> rfl

theorem corners_transpose (a b : Position α) :
    corners (!horizontal) a.transpose b.transpose =
      (corners horizontal a b).map Position.transpose := by
  unfold corners
  cases horizontal with
  | false =>
    change (if same a.x b.x then _ else _) = (if same a.x b.x then _ else _ : List _).map _
    split <;> rfl
  | true =>
    change (if same a.y b.y then _ else _) = (if same a.y b.y then _ else _ : List _).map _
    split <;> rfl

theorem bends_transpose (points : List (Position α)) :
    bends (!horizontal) (points.map Position.transpose) =
      (bends horizontal points).map Position.transpose := by
  induction points with
  | nil => rfl
  | cons a points ih =>
    cases points with
    | nil => rfl
    | cons b points =>
      change corners _ _ _ ++ bends (!horizontal) ((b :: points).map Position.transpose) =
        (corners _ _ _ ++ bends horizontal (b :: points)).map _
      rw [List.map_append, ih, corners_transpose]

theorem sectionsOf_transpose (boxes : Boxes α) (r : Route) (chain : List String) :
    sectionsOf (!horizontal) boxes.transpose r chain =
      (sectionsOf horizontal boxes r chain).map Section.transpose := by
  unfold sectionsOf
  rw [boxes.get?_transpose, boxes.get?_transpose]
  cases boxes.get? r.source with
  | none => rfl
  | some source =>
    cases boxes.get? r.target with
    | none => rfl
    | some target =>
      dsimp only [Option.map_some]
      split
      · rfl
      · have hBetween : (chain.filterMap fun d => (boxes.transpose.get? d).map Box.position) =
            (chain.filterMap fun d => (boxes.get? d).map Box.position).map Position.transpose := by
          rw [List.map_filterMap]
          refine List.filterMap_congr fun d _ => ?_
          rw [boxes.get?_transpose, Option.map_map, Option.map_map]
          rfl
        have hFraction : source.transpose.fraction r.handle = source.fraction r.handle := rfl
        have hPoints : ∀ (first last : Position α) (between : List (Position α)),
            first.transpose :: between.map Position.transpose ++ [last.transpose] =
              (first :: between ++ [last]).map Position.transpose := by
          intro first last between
          rw [List.map_append]
          rfl
        rw [hBetween, hFraction, exitPoint_transpose, entryPoint_transpose, hPoints,
          bends_transpose]
        rfl

end Lines

theorem extentOf_transpose (boxes : Boxes α) :
    extentOf boxes.transpose = (extentOf boxes).transpose := by
  have hReal : ((OrderedMap.entries boxes.transpose).filter fun e => !isDummy e.1).map (·.2) =
      ((boxes.entries.filter fun e => !isDummy e.1).map (·.2)).map Box.transpose := by
    simp only [Boxes.transpose, OrderedMap.mapValues, List.filter_map, List.map_map]
    rfl
  unfold extentOf
  rw [hReal]
  simp only [List.map_map]
  rfl

/-! ## Requests -/

theorem resolveRequest_transpose {request : Request α κ}
    (hNumeric : ∀ c ∈ request.children, c.Numeric)
    (hDirection : request.settings.lookup "elk.direction" = some (.string "RIGHT") ∨
      request.settings.lookup "elk.direction" = some (.string "DOWN")) :
    resolveRequest request.transpose = (resolveRequest request).map Resolved.transpose := by
  unfold resolveRequest Request.transpose
  dsimp only
  rw [readChildren_transpose hNumeric, readSpacing_transpose hDirection]
  cases (readSpacing request.settings : Except Error (Spacing α)) with
  | error e => rfl
  | ok spacing =>
    change (Except.map _ (readChildren request.children) >>= fun boxes => _) =
      Except.map _ (readChildren request.children >>= fun boxes => _)
    cases readChildren request.children with
    | error e => rfl
    | ok boxes =>
      change (readLinks boxes.transpose request.edges >>= fun routes => _) =
        Except.map _ (readLinks boxes request.edges >>= fun routes => _)
      rw [show readLinks boxes.transpose request.edges = readLinks boxes request.edges from
        readLinks_mapValues (f := fun _ => Box.transpose) (fun _ _ => rfl) boxes request.edges]
      cases readLinks boxes request.edges <;> rfl

theorem planOf_transpose (r : Resolved α) :
    planOf r.transpose = (planOf r).transpose := by
  let turn (_ : String) (b : Box α) : Box α := b.transpose
  have hRoutes : orient r.boxes.transpose r.routes = orient r.boxes r.routes :=
    orient_mapValues turn r.boxes r.routes
  have hGraph : orientedGraph r.boxes.transpose (orient r.boxes r.routes) =
      orientedGraph r.boxes (orient r.boxes r.routes) :=
    orientedGraph_mapValues (f := turn) (fun _ _ => rfl) r.boxes _
  have hLayered : ∀ g, Layered.ofGraph r.boxes.transpose g =
      (Layered.ofGraph r.boxes g).transpose :=
    ofGraph_mapValues (f := turn) (fun _ _ _ => rfl) r.boxes
  have hOrdering : ∀ l : Layered α, Ordering.of l.transpose r.spacing.transpose.horizontal =
      Ordering.of l r.spacing.horizontal := fun l => ordering_transpose l r.spacing.horizontal
  unfold planOf Resolved.transpose Plan.transpose
  dsimp only
  rw [hRoutes, hGraph, hLayered, hOrdering, place_transpose]

theorem placedChild_transpose (boxes : Boxes α) (c : Child α κ) :
    placedChild boxes.transpose c.transpose = (placedChild boxes c).transpose := by
  have hGet : c.transpose.id.bind boxes.transpose.get? =
      (c.id.bind boxes.get?).map Box.transpose := by
    rw [Option.map_bind]
    exact congrArg (Option.bind c.id) (funext fun id => boxes.get?_transpose id)
  unfold placedChild
  rw [hGet]
  cases c.id.bind boxes.get? <;> rfl

theorem Plan.drawing_transpose (p : Plan α) (horizontal : Bool) (children : List (Child α κ))
    (edges : List (Link κ)) :
    p.transpose.drawing (!horizontal) (children.map Child.transpose) edges =
      (p.drawing horizontal children edges).transpose := by
  unfold Plan.drawing Drawing.transpose
  simp only [Drawing.mk.injEq, List.map_map]
  refine ⟨extentOf_transpose p.boxes,
    List.map_congr_left fun c _ => placedChild_transpose p.boxes c,
    List.map_congr_left fun e _ => ?_⟩
  exact congrArg (RoutedLink.mk e.1) (sectionsOf_transpose horizontal p.boxes e.2.route _)

/-- The drawing of a transpose is the transpose of the drawing; it fails for the same reason. -/
theorem draw_transpose {request : Request α κ} (hNumeric : ∀ c ∈ request.children, c.Numeric)
    (hDirection : request.settings.lookup "elk.direction" = some (.string "RIGHT") ∨
      request.settings.lookup "elk.direction" = some (.string "DOWN")) :
    draw request.transpose = (draw request).map Drawing.transpose := by
  rw [draw_eq, draw_eq, resolveRequest_transpose hNumeric hDirection]
  cases resolveRequest request with
  | error e => rfl
  | ok r =>
    change Except.ok ((planOf r.transpose).drawing (!r.spacing.horizontal) _ _) = .ok _
    rw [planOf_transpose]
    exact congrArg Except.ok (Plan.drawing_transpose _ _ request.children request.edges)

/-- Two boxes of different sizes, one of which keeps its place. -/
theorem draw_transpose_of_seeded_chain :
    let child (id : String) (place : Option (Quantity Rat)) : Child Rat Unit :=
      ⟨some id, place, place, some (.number 40), some (.number 20), [], ()⟩
    let request : Request Rat Unit := ⟨[("elk.direction", .string "RIGHT")],
      [child "A" none, child "B" (some (.number 7))],
      [⟨.absent, [.text "A"], [.text "B"], ()⟩]⟩
    ∃ drawing, draw request = .ok drawing ∧ draw request.transpose = .ok drawing.transpose := by
  intro child request
  have hResolves : (resolveRequest request).isOk = true := by decide +kernel
  have hNumeric : ∀ c ∈ request.children, c.Numeric := by
    intro c hc s
    simp only [request, List.mem_cons, List.not_mem_nil, or_false] at hc
    rcases hc with rfl | rfl <;> simp [child]
  have hTranspose := draw_transpose hNumeric (.inl rfl)
  obtain ⟨drawing, hDraw⟩ := exists_draw_eq_ok hResolves
  rw [hDraw] at hTranspose
  exact ⟨drawing, hDraw, hTranspose⟩

end Layout

end TypeDiagram
