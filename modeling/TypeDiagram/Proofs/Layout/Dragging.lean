import TypeDiagram.Proofs.Layout.Reseeding

/-! # Dragging a seeded child moves no other one

A child with a place of its own may be dragged elsewhere. As long as it passes no other such child
across the flow, the layers settle in the same order, so all boxes are arranged as before; only what
has a place of its own is then put back to another one.
-/

namespace TypeDiagram.Layout

open Coordinate

variable {α κ : Type}

/-- The child is the same one; if it has a place of its own, that may be another one. -/
def Child.DraggedTo (c c' : Child α κ) : Prop :=
  c' = c ∨ c.isSeeded = true ∧ ∃ x y, c' = { c with x := some x, y := some y }

structure Request.DraggedTo (request request' : Request α κ) : Prop where
  settings : request'.settings = request.settings
  children : List.Forall₂ Child.DraggedTo request.children request'.children
  edges : request'.edges = request.edges

variable [Coordinate α]

/-- Any two seeded children compare in the same way across the flow in both requests. -/
def Request.SameAcross (request request' : Request α κ) : Prop :=
  ∀ c ∈ request.children.zip request'.children, ∀ d ∈ request.children.zip request'.children,
    ∀ p p' q q', readSeed c.1 = .ok (some p) → readSeed c.2 = .ok (some p') →
      readSeed d.1 = .ok (some q) → readSeed d.2 = .ok (some q') →
      less (request.flank p') (request.flank q') = less (request.flank p) (request.flank q)

omit [Coordinate α] in
theorem Child.DraggedTo.isSeeded {c c' : Child α κ} (h : c.DraggedTo c') :
    c'.isSeeded = c.isSeeded := by
  rcases h with rfl | ⟨hSeeded, x, y, rfl⟩
  · rfl
  · exact hSeeded.symm

/-! ## Seeds of layered boxes -/

/-- Seeds that are dragged without passing one another settle a layer in the same order. -/
theorem settleSeeds_dragged (s : Spacing α) {boxes : Boxes α}
    {move : String → Position α → Position α}
    (h : ∀ m p n q, (boxes.get? m).bind Box.seed = some p → (boxes.get? n).bind Box.seed = some q →
      less (s.flank (move m p)) (s.flank (move n q)) = less (s.flank p) (s.flank q))
    (layer : List String) :
    Ordering.settleSeeds (boxes.reseed fun id => Option.map (move id)) s.horizontal layer =
      Ordering.settleSeeds boxes s.horizontal layer := by
  have hSeed : ∀ n, ((boxes.reseed fun id => Option.map (move id)).get? n).bind Box.seed =
      ((boxes.get? n).bind Box.seed).map (move n) := by
    intro n
    rw [Boxes.seed_reseed]
    cases boxes.get? n <;> rfl
  unfold Ordering.settleSeeds
  simp only [hSeed, Option.isSome_map, Option.map_map]
  congr 1
  refine sortByKey_congr fun m hm n hn => ?_
  obtain ⟨p, hp⟩ := Option.isSome_iff_exists.mp (List.mem_filter.mp hm).2
  obtain ⟨q, hq⟩ := Option.isSome_iff_exists.mp (List.mem_filter.mp hn).2
  rw [hp, hq]
  exact h m p n q hp hq

/-! ## The second request -/

section Dragged

variable {request request' : Request α κ} (h : request.DraggedTo request') {r r' : Resolved α}
  (hRead : resolveRequest request = .ok r) (hRead' : resolveRequest request' = .ok r')

def draggedPlace (r' : Resolved α) (id : String) (p : Position α) : Position α :=
  ((r'.boxes.get? id).bind Box.seed).getD p

def draggedTo (r' : Resolved α) : Reseeding α := fun id => Option.map (draggedPlace r' id)

include h hRead'

theorem Request.DraggedTo.reseeds :
    List.Forall₂ (Reseeds (draggedTo r')) request.children request'.children := by
  rw [List.forall₂_iff_zip]
  obtain ⟨hLength, hPairs⟩ := List.forall₂_iff_zip.mp h.children
  refine ⟨hLength, fun {c c'} hIn => ?_⟩
  have hDragged := hPairs hIn
  obtain ⟨id, b', hb', hBox⟩ :=
    exists_box_of_mem (resolveRequest_eq_ok hRead').1 (List.of_mem_zip hIn).2
  have hSeed : ∀ other seed, c.id = some other → readSeed c = .ok seed → c'.id = c.id →
      readSeed c' = .ok (draggedTo r' other seed) := by
    intro other seed hOther hSeed hId
    have hSame : other = id := Option.some.inj (hOther.symm.trans (hId.symm.trans hBox.id))
    have hBoth : b'.seed.isSome = seed.isSome := by
      rw [isSome_of_readSeed hBox.seed, isSome_of_readSeed hSeed, hDragged.isSeeded]
    have hPlace : draggedTo r' other seed = seed.map fun p => b'.seed.getD p := by
      unfold draggedTo draggedPlace
      rw [hSame, hb', Option.bind_some]
    rw [hBox.seed, hPlace]
    cases hNew : b'.seed <;> cases seed <;> simp_all
  rcases hDragged with rfl | ⟨_, x, y, rfl⟩
  · exact ⟨rfl, rfl, rfl, rfl, fun other seed hOther hRead => hSeed other seed hOther hRead rfl⟩
  · exact ⟨rfl, rfl, rfl, rfl, fun other seed hOther hRead => hSeed other seed hOther hRead rfl⟩

include hRead

theorem Request.DraggedTo.resolved_eq : r' = r.reseed (draggedTo r') := by
  obtain ⟨hChildren, hLinks⟩ := resolveRequest_eq_ok hRead
  obtain ⟨hChildren', hLinks'⟩ := resolveRequest_eq_ok hRead'
  have hBoxes : r'.boxes = r.boxes.reseed (draggedTo r') :=
    Except.ok.inj (hChildren'.symm.trans (readChildren_reseed (h.reseeds hRead') hChildren))
  have hRoutes : r'.routes = r.routes := by
    rw [h.edges, hBoxes, Boxes.reseed,
      readLinks_mapValues (f := Box.reseed (draggedTo r')) fun _ _ => rfl, hLinks] at hLinks'
    exact (Except.ok.inj hLinks').symm
  have hSpacing : r'.spacing = r.spacing := by
    have hSame := readSpacing_of_resolveRequest hRead'
    rw [h.settings, readSpacing_of_resolveRequest hRead] at hSame
    exact (Except.ok.inj hSame).symm
  cases r'
  subst hRoutes hSpacing
  exact congrArg (Resolved.mk · _ _) hBoxes

theorem Request.DraggedTo.exists_pair {n : String} {p : Position α}
    (hSeed : (r.boxes.get? n).bind Box.seed = some p) :
    ∃ c ∈ request.children.zip request'.children, readSeed c.1 = .ok (some p) ∧
      readSeed c.2 = .ok (some (draggedPlace r' n p)) := by
  obtain ⟨b, hb, hSome⟩ := Option.bind_eq_some_iff.mp hSeed
  obtain ⟨c, hc, hBox⟩ := exists_child_of_get? (resolveRequest_eq_ok hRead).1 hb
  have hReseeds := h.reseeds hRead'
  obtain ⟨i, hi, rfl⟩ := List.mem_iff_getElem.mp hc
  have hi' : i < request'.children.length := hReseeds.length_eq ▸ hi
  have hPair := hReseeds.get hi hi'
  have hIn : (request.children[i], request'.children[i]) ∈
      request.children.zip request'.children :=
    List.mem_iff_getElem.mpr ⟨i, by simp [hi, hi'], by simp⟩
  have hFirst := hBox.seed
  rw [hSome] at hFirst
  exact ⟨_, hIn, hFirst, hPair.seed n _ hBox.id hFirst⟩

theorem Request.DraggedTo.keepsOrder (hAcross : request.SameAcross request') :
    KeepsOrder (draggedTo r') r := by
  intro layer _
  refine settleSeeds_dragged r.spacing (fun m p n q hp hq => ?_) layer
  obtain ⟨c, hc, hFirst, hSecond⟩ := h.exists_pair hRead hRead' (seed_of_layered hp)
  obtain ⟨d, hd, hFirst', hSecond'⟩ := h.exists_pair hRead hRead' (seed_of_layered hq)
  rw [flank_of_resolveRequest hRead]
  exact hAcross c hc d hd p _ q _ hFirst hSecond hFirst' hSecond'

theorem placedChild_of_unseeded {c : Child α κ} (hc : c ∈ request.children)
    (hUnseeded : c.isSeeded = false) (hAcross : request.SameAcross request') :
    placedChild (planOf r').boxes c = placedChild (planOf r).boxes c := by
  obtain ⟨id, old, hOld, hBox⟩ := exists_box_of_mem (resolveRequest_eq_ok hRead).1 hc
  have hNone : old.seed = none := by
    rw [← Option.not_isSome_iff_eq_none, isSome_of_readSeed hBox.seed, hUnseeded]
    exact Bool.false_ne_true
  have hFree : ∀ b, (arrangedBoxes r).get? id = some b → b.seed = none := by
    intro b hb
    obtain ⟨position, hLayered⟩ := (arranged_moved _ _ _).eq_some_of_eq_some hb
    cases hSeed : b.seed with
    | none => rfl
    | some p =>
      have hOwn : (r.boxes.get? id).bind Box.seed = some p :=
        seed_of_layered (by rw [hLayered]; exact hSeed)
      rw [hOld, Option.bind_some, hNone] at hOwn
      cases hOwn
  have hPlan := congrArg planOf (h.resolved_eq hRead hRead')
  rw [planOf_reseed (fun _ _ => rfl) (h.keepsOrder hRead hRead' hAcross)] at hPlan
  unfold placedChild
  rw [hPlan, planOf_boxes_eq, hBox.id, Option.bind_some, Option.bind_some, restoreSeeds_eq,
    restoreSeeds_eq, OrderedMap.get?_mapValues, OrderedMap.get?_mapValues, Boxes.get?_reseed]
  cases hArranged : (arrangedBoxes r).get? id with
  | none => rfl
  | some b =>
    simp only [Option.map_some, Box.reseed, draggedTo, hFree b hArranged, Option.map_none]

end Dragged

/-- A request in which seeded children were dragged without passing one another has the other
children where they were. -/
theorem unseeded_children_stay {request request' : Request α κ} (h : request.DraggedTo request')
    (hAcross : request.SameAcross request') {d d' : Drawing α κ} (hDraw : draw request = .ok d)
    (hDraw' : draw request' = .ok d') :
    List.Forall₂ (fun p p' => p.child.isSeeded = false → p' = p) d.children d'.children := by
  obtain ⟨r, hRead, rfl⟩ := draw_eq_ok_iff.mp hDraw
  obtain ⟨r', hRead', rfl⟩ := draw_eq_ok_iff.mp hDraw'
  rw [Plan.drawing, Plan.drawing, List.forall₂_map_left_iff, List.forall₂_map_right_iff,
    List.forall₂_iff_zip]
  obtain ⟨hLength, hPairs⟩ := List.forall₂_iff_zip.mp h.children
  refine ⟨hLength, fun {c c'} hIn hUnseeded => ?_⟩
  rw [placedChild_child] at hUnseeded
  rcases hPairs hIn with rfl | ⟨hSeeded, _⟩
  · exact placedChild_of_unseeded h hRead hRead' (List.of_mem_zip hIn).1 hUnseeded hAcross
  · rw [hUnseeded] at hSeeded
    cases hSeeded

/-- Two seeded children behind `A` are dragged along the flow and across it, but not past each
other. -/
theorem unseeded_children_stay_between_seeds :
    let child (id : String) (place : Option (Rat × Rat)) : Child Rat Unit :=
      ⟨some id, place.map fun p => .number p.1, place.map fun p => .number p.2,
        some (.number 40), some (.number 20), [], ()⟩
    let edge (source target : String) : Link Unit := ⟨.absent, [.text source], [.text target], ()⟩
    let request (upper lower : Rat × Rat) : Request Rat Unit :=
      ⟨[("elk.direction", .string "RIGHT")],
        [child "A" none, child "B" (some lower), child "C" none, child "D" (some upper)],
        [edge "A" "B", edge "A" "C", edge "A" "D"]⟩
    ∃ d d', draw (request (100, 10) (100, 50)) = .ok d ∧ draw (request (7, 20) (300, 60)) = .ok d' ∧
      List.Forall₂ (fun p p' => p.child.isSeeded = false → p' = p) d.children d'.children := by
  intro child edge request
  have hResolves : (resolveRequest (request (100, 10) (100, 50))).isOk = true := by decide +kernel
  have hResolves' : (resolveRequest (request (7, 20) (300, 60))).isOk = true := by decide +kernel
  have hDragged : (request (100, 10) (100, 50)).DraggedTo (request (7, 20) (300, 60)) := by
    refine ⟨rfl, ?_, rfl⟩
    exact .cons (.inl rfl) (.cons (.inr ⟨rfl, _, _, rfl⟩)
      (.cons (.inl rfl) (.cons (.inr ⟨rfl, _, _, rfl⟩) .nil)))
  have hAcross : (request (100, 10) (100, 50)).SameAcross (request (7, 20) (300, 60)) := by
    let places : List (Position Rat × Position Rat) :=
      [(⟨100, 50⟩, ⟨300, 60⟩), (⟨100, 10⟩, ⟨7, 20⟩)]
    have hPlaces : ∀ c ∈ (request (100, 10) (100, 50)).children.zip
        (request (7, 20) (300, 60)).children, ∀ p p', readSeed c.1 = .ok (some p) →
          readSeed c.2 = .ok (some p') → (p, p') ∈ places := by
      intro c hc p p' hp hp'
      simp only [request, List.zip_cons_cons, List.zip_nil_right, List.mem_cons, List.not_mem_nil,
        or_false] at hc
      rcases hc with rfl | rfl | rfl | rfl
      · cases hp
      · cases hp
        cases hp'
        exact List.mem_cons_self
      · cases hp
      · cases hp
        cases hp'
        exact List.mem_cons_of_mem _ List.mem_cons_self
    have hSame : ∀ e ∈ places, ∀ e' ∈ places, less e.2.y e'.2.y = less e.1.y e'.1.y := by
      decide +kernel
    intro c hc d hd p p' q q' hp hp' hq hq'
    exact hSame _ (hPlaces c hc p p' hp hp') _ (hPlaces d hd q q' hq hq')
  obtain ⟨d, hDraw⟩ := exists_draw_eq_ok hResolves
  obtain ⟨d', hDraw'⟩ := exists_draw_eq_ok hResolves'
  exact ⟨d, d', hDraw, hDraw', unseeded_children_stay hDragged hAcross hDraw hDraw'⟩

end TypeDiagram.Layout
