import TypeDiagram.Proofs.Layout.Drawing
import TypeDiagram.Proofs.Layout.Stack
import Mathlib.Data.List.Pairwise

/-! # Boxes that the layout places never overlap

Placing the layers one after another keeps three things: the boxes of a layer stand apart across the
flow, layers follow one another along the flow, and all boxes end before the offset of the next
layer. Moving the drawing to its padding moves all boxes by the same, and putting seeds back moves
seeded boxes only. So two children without a seed stand apart.
-/

namespace TypeDiagram.Layout

open Coordinate

/-- A box ends, with the room between layers, before another one begins along the flow. -/
def Ahead (s : Spacing Rat) (boxes : Boxes Rat) (m n : String) : Prop :=
  ∀ b c, boxes.get? m = some b → boxes.get? n = some c →
    s.front b.position + s.along b + s.layerGap ≤ s.front c.position

/-! ## Layer by layer -/

/-- The layers that are placed stand apart. -/
structure Laid (s : Spacing Rat) (done : Ordering) (p : Progress Rat) : Prop where
  within : ∀ layer ∈ done, ∀ n ∈ layer, ∀ b, p.boxes.get? n = some b →
    s.front b.position + s.along b + s.layerGap ≤ p.offset
  beside : ∀ layer ∈ done, layer.Pairwise (Beside s p.boxes)
  ahead : done.Pairwise fun upper lower => ∀ m ∈ upper, ∀ n ∈ lower, Ahead s p.boxes m n

variable {s : Spacing Rat} (hNodeGap : 0 ≤ s.nodeGap) (hLayerGap : 0 ≤ s.layerGap)

include hNodeGap hLayerGap

theorem Laid.placeLayer {done : Ordering} {p : Progress Rat} (h : Laid s done p)
    (hRoomy : p.boxes.Roomy) {layer : List String} (hNodup : layer.Nodup)
    (hNew : ∀ other ∈ done, ∀ n ∈ other, n ∉ layer) (g : Digraph Rat) :
    Laid s (done ++ [layer]) (placeLayer s g p layer) := by
  have hStays : ∀ other ∈ done, ∀ n ∈ other,
      (Layout.placeLayer s g p layer).boxes.get? n = p.boxes.get? n :=
    fun other hOther n hn => get?_placeLayer_of_not_mem (hNew other hOther n hn)
  constructor
  · intro other hOther n hn b hb
    rcases List.mem_append.mp hOther with hDone | hLast
    · rw [hStays other hDone n hn] at hb
      exact (h.within other hDone n hn b hb).trans (placeLayer_offset hRoomy hLayerGap)
    · rw [List.mem_singleton.mp hLast] at hn
      exact (placeLayer_within hNodup hn hb).2
  · intro other hOther
    rcases List.mem_append.mp hOther with hDone | hLast
    · refine (h.beside other hDone).imp_of_mem fun {m n} hm hn hBeside b c hb hc => ?_
      rw [hStays other hDone m hm] at hb
      rw [hStays other hDone n hn] at hc
      exact hBeside b c hb hc
    · rw [List.mem_singleton.mp hLast]
      exact placeLayer_beside hNodeGap hRoomy hNodup
  · rw [List.pairwise_append]
    refine ⟨h.ahead.imp_of_mem ?_, List.pairwise_singleton _ _, ?_⟩
    · intro upper lower hUpper hLower hAhead m hm n hn b c hb hc
      rw [hStays upper hUpper m hm] at hb
      rw [hStays lower hLower n hn] at hc
      exact hAhead m hm n hn b c hb hc
    · intro upper hUpper lower hLast m hm n hn b c hb hc
      rw [List.mem_singleton.mp hLast] at hn
      rw [hStays upper hUpper m hm] at hb
      exact (h.within upper hUpper m hm b hb).trans (placeLayer_within hNodup hn hc).1

theorem laid_foldl_placeLayer {ordering : Ordering} (hNodup : ordering.flatten.Nodup)
    {p : Progress Rat} (hRoomy : p.boxes.Roomy) (g : Digraph Rat) :
    Laid s ordering (ordering.foldl (placeLayer s g) p) ∧
      p.boxes.Moved (ordering.foldl (placeLayer s g) p).boxes := by
  induction ordering using List.reverseRecOn with
  | nil =>
    exact ⟨⟨fun _ hIn => absurd hIn List.not_mem_nil, fun _ hIn => absurd hIn List.not_mem_nil,
      .nil⟩, .refl p.boxes⟩
  | append_singleton done layer ih =>
    rw [List.flatten_append, List.flatten_cons, List.flatten_nil, List.append_nil,
      List.nodup_append] at hNodup
    obtain ⟨hDone, hLayer, hApart⟩ := hNodup
    obtain ⟨hLaid, hMoved⟩ := ih hDone
    rw [List.foldl_append, List.foldl_cons, List.foldl_nil]
    refine ⟨hLaid.placeLayer hNodeGap hLayerGap (hRoomy.moved hMoved) hLayer ?_ g,
      hMoved.trans (placeLayer_moved s g _ layer)⟩
    intro other hOther n hn hIn
    exact hApart n (List.mem_flatten.mpr ⟨other, hOther, hn⟩) n hIn rfl

omit hNodeGap hLayerGap

/-! ## The whole drawing -/

theorem normalise_shift (boxes : Boxes Rat) : ∃ d : Position Rat, ∀ n,
    (normalise boxes).get? n = (boxes.get? n).map fun b =>
      { b with position := ⟨b.position.x + d.x, b.position.y + d.y⟩ } := by
  unfold normalise
  split
  · exact ⟨⟨_, _⟩, fun n => OrderedMap.get?_mapValues _ boxes n⟩
  · exact ⟨⟨0, 0⟩, fun n => by simp⟩

theorem get?_of_get?_restoreSeeds {boxes : Boxes Rat} {n : String} {b : Box Rat}
    (hb : (restoreSeeds boxes).get? n = some b) (hSeed : b.seed = none) :
    boxes.get? n = some b := by
  rw [restoreSeeds, OrderedMap.get?_mapValues, Option.map_eq_some_iff] at hb
  obtain ⟨old, hOld, hSame⟩ := hb
  cases hOldSeed : old.seed with
  | none =>
    rw [hOldSeed] at hSame
    exact hOld.trans (congrArg some hSame)
  | some p =>
    have hStays : b.seed = some p := by
      rw [← hSame, hOldSeed]
    rw [hSeed] at hStays
    cases hStays

def placeLayers (s : Spacing Rat) (l : Layered Rat) (ordering : Ordering) : Boxes Rat :=
  (ordering.foldl (placeLayer s l.graph) ⟨l.boxes, .empty, nat 0⟩).boxes

theorem place_shift (s : Spacing Rat) (l : Layered Rat) (ordering : Ordering) :
    ∃ d : Position Rat, ∀ n b, (place s l ordering).get? n = some b → b.seed = none →
      ∃ old, (placeLayers s l ordering).get? n = some old ∧
        s.along b = s.along old ∧ s.across b = s.across old ∧
        s.front b.position = s.front old.position + s.front d ∧
        s.flank b.position = s.flank old.position + s.flank d := by
  obtain ⟨d, hShift⟩ := normalise_shift (placeLayers s l ordering)
  refine ⟨d, fun n b hb hSeed => ?_⟩
  have hNormal : (normalise (placeLayers s l ordering)).get? n = some b :=
    get?_of_get?_restoreSeeds hb hSeed
  rw [hShift, Option.map_eq_some_iff] at hNormal
  obtain ⟨old, hOld, rfl⟩ := hNormal
  refine ⟨old, hOld, rfl, rfl, ?_, ?_⟩
  · unfold Spacing.front
    split <;> rfl
  · unfold Spacing.flank
    split <;> rfl

/-- Does the box, if there is one, come without a place of its own? -/
def Unseeded (boxes : Boxes Rat) (n : String) : Prop := ∀ b, boxes.get? n = some b → b.seed = none

section Placed

variable {l : Layered Rat} (hRoomy : l.boxes.Roomy) (hKeys : l.layers.keys.Nodup)
  {horizontal : Bool} {m n : String} (hm : m ∈ l.layers.keys) (hn : n ∈ l.layers.keys)
  (hmFree : Unseeded (place s l (Ordering.of l horizontal)) m)
  (hnFree : Unseeded (place s l (Ordering.of l horizontal)) n)

include hNodeGap hLayerGap hRoomy hKeys hm hn hmFree hnFree

theorem place_ahead (hLess : l.layers.of m < l.layers.of n) :
    Ahead s (place s l (Ordering.of l horizontal)) m n := by
  intro b c hb hc
  obtain ⟨d, hShift⟩ := place_shift s l (Ordering.of l horizontal)
  obtain ⟨b', hb', hAlong, _, hFront, _⟩ := hShift m b hb (hmFree b hb)
  obtain ⟨c', hc', _, _, hFront', _⟩ := hShift n c hc (hnFree c hc)
  have hNumbers := Ordering.length_of l horizontal
  have hFirst : l.layers.of m < (Ordering.of l horizontal).length :=
    hNumbers ▸ Layers.of_lt_count hm
  have hSecond : l.layers.of n < (Ordering.of l horizontal).length :=
    hNumbers ▸ Layers.of_lt_count hn
  obtain ⟨hLaid, _⟩ := laid_foldl_placeLayer hNodeGap hLayerGap
    (Ordering.nodup_flatten_of hKeys horizontal) (p := ⟨l.boxes, .empty, nat 0⟩) hRoomy l.graph
  have hAhead := List.pairwise_iff_getElem.mp hLaid.ahead _ _ hFirst hSecond hLess
    m ((Ordering.mem_of_getElem_iff l hFirst m).mpr ⟨hm, rfl⟩)
    n ((Ordering.mem_of_getElem_iff l hSecond n).mpr ⟨hn, rfl⟩) b' c' hb' hc'
  rw [hAlong, hFront, hFront']
  linarith

theorem place_beside (hSame : l.layers.of m = l.layers.of n) (hNe : m ≠ n) :
    Beside s (place s l (Ordering.of l horizontal)) m n ∨
      Beside s (place s l (Ordering.of l horizontal)) n m := by
  obtain ⟨d, hShift⟩ := place_shift s l (Ordering.of l horizontal)
  obtain ⟨hLaid, _⟩ := laid_foldl_placeLayer hNodeGap hLayerGap
    (Ordering.nodup_flatten_of hKeys horizontal) (p := ⟨l.boxes, .empty, nat 0⟩) hRoomy l.graph
  have hShifted : ∀ {i j : String}, Unseeded (place s l (Ordering.of l horizontal)) i →
      Unseeded (place s l (Ordering.of l horizontal)) j →
      Beside s (placeLayers s l (Ordering.of l horizontal)) i j →
      Beside s (place s l (Ordering.of l horizontal)) i j := by
    intro i j hi hj hBeside b c hb hc
    obtain ⟨b', hb', _, hAcross, _, hFlank⟩ := hShift i b hb (hi b hb)
    obtain ⟨c', hc', _, _, _, hFlank'⟩ := hShift j c hc (hj c hc)
    have := hBeside b' c' hb' hc'
    rw [hAcross, hFlank, hFlank']
    linarith
  have hLayer : l.layers.of m < (Ordering.of l horizontal).length :=
    Ordering.length_of l horizontal ▸ Layers.of_lt_count hm
  have hmIn := (Ordering.mem_of_getElem_iff l hLayer m).mpr ⟨hm, rfl⟩
  have hnIn := (Ordering.mem_of_getElem_iff l hLayer n).mpr ⟨hn, hSame.symm⟩
  have hEither : (Ordering.of l horizontal)[l.layers.of m].Pairwise fun i j =>
      Beside s (placeLayers s l (Ordering.of l horizontal)) i j ∨
        Beside s (placeLayers s l (Ordering.of l horizontal)) j i :=
    (hLaid.beside _ (List.getElem_mem hLayer)).imp Or.inl
  have : Std.Symm fun i j => Beside s (placeLayers s l (Ordering.of l horizontal)) i j ∨
      Beside s (placeLayers s l (Ordering.of l horizontal)) j i := ⟨fun _ _ => Or.symm⟩
  rcases hEither.forall hmIn hnIn hNe with hBefore | hBehind
  · exact .inl (hShifted hmFree hnFree hBefore)
  · exact .inr (hShifted hnFree hmFree hBehind)

end Placed

/-! ## Requests -/

variable {κ : Type}

/-- No child passes for the crossing of a layer, no extent is negative, and neither is the room
between boxes. -/
structure Request.Regular (request : Request Rat κ) : Prop where
  plain : ∀ c ∈ request.children, ∀ id, c.id = some id → isDummy id = false
  width : ∀ c ∈ request.children, ∀ w, readExtent c.width = .ok w → 0 ≤ w
  height : ∀ c ∈ request.children, ∀ h, readExtent c.height = .ok h → 0 ≤ h
  nodeGap : ∀ s : Spacing Rat, readSpacing request.settings = .ok s → 0 ≤ s.nodeGap
  layerGap : ∀ s : Spacing Rat, readSpacing request.settings = .ok s → 0 ≤ s.layerGap

theorem Request.regular_iff (request : Request Rat κ) : request.Regular ↔
    (∀ c ∈ request.children, (∀ id ∈ c.id, isDummy id = false) ∧
      (∀ w ∈ (readExtent c.width).toOption, 0 ≤ w) ∧
      ∀ h ∈ (readExtent c.height).toOption, 0 ≤ h) ∧
    ∀ s ∈ (readSpacing request.settings : Except Error (Spacing Rat)).toOption,
      0 ≤ s.nodeGap ∧ 0 ≤ s.layerGap := by
  have hRead {β : Type} (e : Except Error β) (v : β) : v ∈ e.toOption ↔ e = .ok v := by
    cases e <;> simp [Except.toOption]
  simp only [hRead, Option.mem_def]
  constructor
  · intro h
    exact ⟨fun c hc => ⟨h.plain c hc, h.width c hc, h.height c hc⟩,
      fun s hs => ⟨h.nodeGap s hs, h.layerGap s hs⟩⟩
  · rintro ⟨hChildren, hGaps⟩
    exact ⟨fun c hc => (hChildren c hc).1, fun c hc => (hChildren c hc).2.1,
      fun c hc => (hChildren c hc).2.2, fun s hs => (hGaps s hs).1, fun s hs => (hGaps s hs).2⟩

instance (request : Request Rat κ) : Decidable request.Regular :=
  decidable_of_iff' _ request.regular_iff

def Child.Free (c : Child Rat κ) : Prop := c.x = none ∨ c.y = none

instance (c : Child Rat κ) : Decidable c.Free :=
  inferInstanceAs (Decidable (c.x = none ∨ c.y = none))

theorem Child.Free.readSeed {c : Child Rat κ} (h : c.Free) : readSeed c = .ok none := by
  unfold Layout.readSeed
  rcases h with hx | hy
  · rw [hx]
    rfl
  · rw [hy]
    cases c.x <;> rfl

def Plan.layerOf (plan : Plan Rat) (id : String) : Nat := plan.layered.layers.of id

/-- A child ends, with the room between layers, before another one begins along the flow. -/
def PlacedChild.Before (s : Spacing Rat) (a b : PlacedChild Rat κ) : Prop :=
  s.front a.position + s.lengthOf a.size + s.layerGap ≤ s.front b.position

/-- A child ends, with the room between boxes, before another one begins across the flow. -/
def PlacedChild.NextTo (s : Spacing Rat) (a b : PlacedChild Rat κ) : Prop :=
  s.flank a.position + s.breadthOf a.size + s.nodeGap ≤ s.flank b.position

section Regular

variable {request : Request Rat κ} (h : request.Regular) {r : Resolved Rat}
  (hRead : resolveRequest request = .ok r)

include h hRead

theorem Request.Regular.roomy : r.boxes.Roomy := by
  intro id b hb
  obtain ⟨c, hc, hBox⟩ := exists_child_of_get? (resolveRequest_eq_ok hRead).1 hb
  exact ⟨h.width c hc _ hBox.width, h.height c hc _ hBox.height⟩

theorem Request.Regular.roomy_layered : (planOf r).layered.boxes.Roomy := by
  refine Layered.ofGraph_induction (P := fun boxes _ => boxes.Roomy) (h.roomy hRead) ?_
  intro boxes _ id b _ _ hRoomy n c hc
  rw [OrderedMap.get?_insert] at hc
  split at hc
  · cases hc
    exact ⟨le_refl 0, le_refl 0⟩
  · exact hRoomy n c hc

/-- A free child stands in a layer, where the plan puts its box. -/
structure Stands (r : Resolved Rat) (c : Child Rat κ) (n : String) (b : Box Rat) : Prop where
  id : c.id = some n
  plain : isDummy n = false
  layered : n ∈ (planOf r).layered.layers.keys
  box : (planOf r).boxes.get? n = some b
  free : b.seed = none
  placed : placedChild (planOf r).boxes c = ⟨c, b.position, b.size⟩

theorem Request.Regular.stands {c : Child Rat κ} (hc : c ∈ request.children) (hFree : c.Free) :
    ∃ id b, Stands r c id b := by
  obtain ⟨id, old, hOld, hBox⟩ := exists_box_of_mem (resolveRequest_eq_ok hRead).1 hc
  have hComplete := complete_planOf (wellRouted_of_resolveRequest hRead)
  have hIn : id ∈ r.boxes.keys := OrderedMap.mem_keys_of_get? hOld
  have hPlain := h.plain c hc id hBox.id
  have hSeed : old.seed = none := Except.ok.inj (hBox.seed.symm.trans hFree.readSeed)
  obtain ⟨b, hb, ⟨position, rfl⟩ | ⟨hDummy, _⟩⟩ := hComplete.kept id old hOld
  · exact ⟨id, _, hBox.id, hPlain, hComplete.layered id hIn, hb, hSeed,
      placedChild_of_get? hBox.id hb⟩
  · rw [hPlain] at hDummy
    cases hDummy

omit h hRead in
theorem Stands.unseeded {c : Child Rat κ} {id : String} {b : Box Rat} (hc : Stands r c id b) :
    Unseeded (place r.spacing (planOf r).layered
      (Ordering.of (planOf r).layered r.spacing.horizontal)) id := by
  intro other hOther
  rw [← planOf_ordering, ← planOf_boxes, hc.box] at hOther
  exact Option.some.inj hOther ▸ hc.free

theorem Request.Regular.gaps : 0 ≤ r.spacing.nodeGap ∧ 0 ≤ r.spacing.layerGap :=
  have hSpacing := readSpacing_of_resolveRequest hRead
  ⟨h.nodeGap _ hSpacing, h.layerGap _ hSpacing⟩

theorem Request.Regular.before {c d : Child Rat κ} {m n : String} {b b' : Box Rat}
    (hc : Stands r c m b) (hd : Stands r d n b')
    (hLess : (planOf r).layerOf m < (planOf r).layerOf n) :
    (placedChild (planOf r).boxes c).Before r.spacing (placedChild (planOf r).boxes d) := by
  obtain ⟨hNodeGap, hLayerGap⟩ := h.gaps hRead
  have hAhead := place_ahead hNodeGap hLayerGap (h.roomy_layered hRead) (nodup_layers_planOf hRead)
    hc.layered hd.layered hc.unseeded hd.unseeded hLess
  rw [← planOf_ordering, ← planOf_boxes] at hAhead
  rw [hc.placed, hd.placed]
  exact hAhead b b' hc.box hd.box

theorem Request.Regular.nextTo {c d : Child Rat κ} {m n : String} {b b' : Box Rat}
    (hc : Stands r c m b) (hd : Stands r d n b')
    (hSame : (planOf r).layerOf m = (planOf r).layerOf n) (hNe : m ≠ n) :
    (placedChild (planOf r).boxes c).NextTo r.spacing (placedChild (planOf r).boxes d) ∨
      (placedChild (planOf r).boxes d).NextTo r.spacing (placedChild (planOf r).boxes c) := by
  obtain ⟨hNodeGap, hLayerGap⟩ := h.gaps hRead
  have hBeside := place_beside hNodeGap hLayerGap (h.roomy_layered hRead)
    (nodup_layers_planOf hRead) hc.layered hd.layered hc.unseeded hd.unseeded hSame hNe
  rw [← planOf_ordering, ← planOf_boxes] at hBeside
  have hGap : ∀ {id : String}, isDummy id = false → r.spacing.gapBehind id = r.spacing.nodeGap := by
    intro id hPlain
    unfold Spacing.gapBehind
    rw [hPlain]
    rfl
  rw [hc.placed, hd.placed]
  rcases hBeside with hFirst | hSecond
  · have := hFirst b b' hc.box hd.box
    rw [hGap hc.plain] at this
    exact .inl this
  · have := hSecond b' b hd.box hc.box
    rw [hGap hd.plain] at this
    exact .inr this

end Regular

/-- Children stand apart: side by side in one layer, or one before the other in two layers. -/
def Plan.Apart (plan : Plan Rat) (s : Spacing Rat) (a b : PlacedChild Rat κ) : Prop :=
  ∃ m n, a.child.id = some m ∧ b.child.id = some n ∧
    (plan.layerOf m = plan.layerOf n ∧ (a.NextTo s b ∨ b.NextTo s a) ∨
      plan.layerOf m < plan.layerOf n ∧ a.Before s b ∨
      plan.layerOf n < plan.layerOf m ∧ b.Before s a)

/-- All children are drawn, and any two without a seed stand apart, whatever edges the request has
and whichever of its other children are seeds. -/
theorem free_children_stand_apart {request : Request Rat κ} (h : request.Regular)
    {drawing : Drawing Rat κ} (hDraw : draw request = .ok drawing) :
    ∃ r, resolveRequest request = .ok r ∧
      drawing.children.map PlacedChild.child = request.children ∧
      drawing.children.Pairwise fun a b =>
        a.child.Free → b.child.Free → (planOf r).Apart r.spacing a b := by
  obtain ⟨r, hRead, rfl⟩ := draw_eq_ok_iff.mp hDraw
  refine ⟨r, hRead, Plan.children_drawing _ _ _ _, ?_⟩
  have hIds : (request.children.map Child.id).Nodup := by
    rw [ids_of_readChildren (resolveRequest_eq_ok hRead).1]
    exact (wellRouted_of_resolveRequest hRead).distinct.map (Option.some_injective _)
  rw [Plan.drawing, List.pairwise_map]
  refine (List.pairwise_map.mp hIds).imp_of_mem fun {c d} hc hd hNe => ?_
  rw [placedChild_child, placedChild_child]
  intro hcFree hdFree
  obtain ⟨m, b, hm⟩ := h.stands hRead hc hcFree
  obtain ⟨n, b', hn⟩ := h.stands hRead hd hdFree
  have hIdsNe : m ≠ n := by
    rintro rfl
    exact hNe (hm.id.trans hn.id.symm)
  refine ⟨m, n, (congrArg Child.id (placedChild_child _ c)).trans hm.id,
    (congrArg Child.id (placedChild_child _ d)).trans hn.id, ?_⟩
  rcases Nat.lt_trichotomy ((planOf r).layerOf m) ((planOf r).layerOf n) with hLess | hSame | hMore
  · exact .inr (.inl ⟨hLess, h.before hRead hm hn hLess⟩)
  · exact .inl ⟨hSame, h.nextTo hRead hm hn hSame hIdsNe⟩
  · exact .inr (.inr ⟨hMore, h.before hRead hn hm hMore⟩)

/-- A cycle of two children, with a third one that is reached from both and one that keeps its
place. -/
theorem free_children_of_cycle_stand_apart :
    let child (id : String) (place : Option (Quantity Rat)) : Child Rat Unit :=
      ⟨some id, place, place, some (.number 40), some (.text "20"), [], ()⟩
    let edge (source target : String) : Link Unit := ⟨.absent, [.text source], [.text target], ()⟩
    let request : Request Rat Unit := ⟨[("elk.direction", .string "DOWN")],
      [child "A" none, child "B" none, child "C" none, child "D" (some (.number 7))],
      [edge "A" "B", edge "B" "A", edge "A" "C", edge "B" "C", edge "D" "D"]⟩
    ∃ r drawing, resolveRequest request = .ok r ∧ draw request = .ok drawing ∧
      drawing.children.map PlacedChild.child = request.children ∧
      drawing.children.Pairwise fun a b =>
        a.child.Free → b.child.Free → (planOf r).Apart r.spacing a b := by
  intro child edge request
  have hResolves : (resolveRequest request).isOk = true := by decide +kernel
  have hRegular : request.Regular := by decide +kernel
  obtain ⟨drawing, hDraw⟩ := exists_draw_eq_ok hResolves
  obtain ⟨r, hRead, hChildren, hApart⟩ := free_children_stand_apart hRegular hDraw
  exact ⟨r, drawing, hRead, hDraw, hChildren, hApart⟩

end TypeDiagram.Layout
