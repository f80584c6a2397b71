import TypeDiagram.Layout.Placement
import TypeDiagram.Proofs.Layout.Layering

/-! # Placing boxes only moves them

Giving coordinates to layers, moving the drawing to its padding and putting seeded boxes back change
the positions of boxes and nothing else. The boxes of a layer stand at the starts of their slots;
other boxes stay where they are.
-/

namespace TypeDiagram.Layout

variable {α : Type} [Coordinate α]

open Coordinate

/-! ## Boxes that move -/

/-- The boxes of the second map are those of the first one, perhaps at other positions. -/
def Boxes.Moved (old new : Boxes α) : Prop :=
  ∀ n, ∃ move : Box α → Position α,
    new.get? n = (old.get? n).map fun b => { b with position := move b }

namespace Boxes.Moved

variable {first second third : Boxes α}

omit [Coordinate α]

theorem refl (boxes : Boxes α) : Boxes.Moved boxes boxes :=
  fun _ => ⟨Box.position, Option.map_id'.symm⟩

theorem trans (h : first.Moved second) (h' : second.Moved third) : first.Moved third := by
  intro n
  obtain ⟨move, hFirst⟩ := h n
  obtain ⟨move', hSecond⟩ := h' n
  refine ⟨fun b => move' { b with position := move b }, ?_⟩
  rw [hSecond, hFirst, Option.map_map]
  rfl

theorem mapValues (boxes : Boxes α) (move : String → Box α → Position α) :
    boxes.Moved (boxes.mapValues fun n b => { b with position := move n b }) :=
  fun n => ⟨move n, OrderedMap.get?_mapValues _ boxes n⟩

theorem eq_some_of_eq_some (h : first.Moved second) {n : String} {b : Box α}
    (hb : second.get? n = some b) :
    ∃ position, first.get? n = some { b with position } := by
  obtain ⟨move, hMoved⟩ := h n
  rw [hMoved] at hb
  obtain ⟨c, hc, rfl⟩ := Option.map_eq_some_iff.mp hb
  exact ⟨c.position, hc⟩

end Boxes.Moved

theorem Boxes.Moved.keeps {old new : Boxes α} (h : old.Moved new) : old.Keeps new := by
  intro n b hb
  obtain ⟨move, hMoved⟩ := h n
  rw [hb] at hMoved
  exact ⟨_, hMoved, .inl ⟨move b, rfl⟩⟩

/-! ## One layer -/

def stacked (s : Spacing α) (g : Digraph α) (p : Progress α) (layer : List String) :
    List (α × Slot α) :=
  let slots := layer.map (slotOf s g p)
  (centred slots (stack s none slots)).zip slots

def Box.placed (s : Spacing α) (offset thick start : α) (b : Box α) : Box α :=
  { b with position := s.position (offset + (thick - s.along b) / nat 2) start }

def placeAt (s : Spacing α) (offset thick : α) (p : Progress α) (e : α × Slot α) : Progress α :=
  match p.boxes.get? e.2.node with
  | none => p
  | some b =>
    { p with
      boxes := p.boxes.insert e.2.node (b.placed s offset thick e.1)
      centres := p.centres.insert e.2.node (e.1 + e.2.extent / nat 2) }

theorem placeLayer_eq (s : Spacing α) (g : Digraph α) (p : Progress α) (layer : List String) :
    placeLayer s g p layer =
      { (stacked s g p layer).foldl (placeAt s p.offset (thickness s p.boxes layer)) p with
        offset := p.offset + (thickness s p.boxes layer + s.layerGap) } := rfl

section Placed

variable (s : Spacing α) (offset thick : α)

theorem get?_placeAt (p : Progress α) (e : α × Slot α) (n : String) :
    (placeAt s offset thick p e).boxes.get? n =
      if n = e.2.node then (p.boxes.get? n).map (Box.placed s offset thick e.1)
      else p.boxes.get? n := by
  unfold placeAt
  by_cases hSame : n = e.2.node
  · subst hSame
    rw [if_pos rfl]
    split
    · rename_i hNone
      rw [hNone]
      rfl
    · rename_i b hSome
      rw [OrderedMap.get?_insert, if_pos rfl, hSome]
      rfl
  · rw [if_neg hSame]
    split
    · rfl
    · rw [OrderedMap.get?_insert, if_neg hSame]

theorem get?_foldl_placeAt_of_not_mem {es : List (α × Slot α)} {n : String}
    (h : n ∉ es.map (·.2.node)) (p : Progress α) :
    (es.foldl (placeAt s offset thick) p).boxes.get? n = p.boxes.get? n := by
  induction es generalizing p with
  | nil => rfl
  | cons e es ih =>
    rw [List.map_cons, List.mem_cons, not_or] at h
    rw [List.foldl_cons, ih h.2, get?_placeAt, if_neg h.1]

theorem get?_foldl_placeAt_of_mem {es : List (α × Slot α)} (hNodup : (es.map (·.2.node)).Nodup)
    {e : α × Slot α} (he : e ∈ es) (p : Progress α) :
    (es.foldl (placeAt s offset thick) p).boxes.get? e.2.node =
      (p.boxes.get? e.2.node).map (Box.placed s offset thick e.1) := by
  induction es generalizing p with
  | nil => cases he
  | cons first es ih =>
    obtain ⟨hNew, hRest⟩ := List.nodup_cons.mp hNodup
    rw [List.foldl_cons]
    rcases List.mem_cons.mp he with rfl | hLater
    · rw [get?_foldl_placeAt_of_not_mem s offset thick hNew, get?_placeAt, if_pos rfl]
    · have hOther : e.2.node ≠ first.2.node :=
        fun hSame => hNew (List.mem_map.mpr ⟨e, hLater, hSame⟩)
      rw [ih hRest hLater, get?_placeAt, if_neg hOther]

end Placed

theorem length_stack (s : Spacing α) (cursor : Option α) (slots : List (Slot α)) :
    (stack s cursor slots).length = slots.length := by
  induction slots generalizing cursor with
  | nil => rfl
  | cons slot slots ih => exact congrArg (· + 1) (ih _)

theorem length_centred (slots : List (Slot α)) (starts : List α) :
    (centred slots starts).length = starts.length := by
  unfold centred
  split
  · exact List.length_map _
  · rfl

section Layer

variable {s : Spacing α} {g : Digraph α} {p : Progress α} {layer : List String}

theorem map_fst_stacked (s : Spacing α) (g : Digraph α) (p : Progress α) (layer : List String) :
    (stacked s g p layer).map Prod.fst =
      centred (layer.map (slotOf s g p)) (stack s none (layer.map (slotOf s g p))) :=
  List.map_fst_zip (by rw [length_centred, length_stack])

theorem map_node_stacked (s : Spacing α) (g : Digraph α) (p : Progress α) (layer : List String) :
    (stacked s g p layer).map (·.2.node) = layer := by
  calc (stacked s g p layer).map (·.2.node)
      = ((stacked s g p layer).map Prod.snd).map Slot.node := List.map_map.symm
    _ = (layer.map (slotOf s g p)).map Slot.node := by
      rw [stacked, List.map_snd_zip (by rw [length_centred, length_stack])]
    _ = layer := by
      rw [List.map_map]
      exact List.map_id layer

theorem extent_of_mem_stacked {e : α × Slot α} (he : e ∈ stacked s g p layer) {b : Box α}
    (hb : p.boxes.get? e.2.node = some b) : e.2.extent = s.across b := by
  obtain ⟨n, _, hSlot⟩ := List.mem_map.mp (List.of_mem_zip (a := e.1) (b := e.2) he).2
  rw [← hSlot] at hb ⊢
  change p.boxes.get? n = some b at hb
  change ((p.boxes.get? n).map s.across).getD (nat 0) = s.across b
  rw [hb]
  rfl

theorem get?_placeLayer_of_not_mem {n : String} (h : n ∉ layer) :
    (placeLayer s g p layer).boxes.get? n = p.boxes.get? n := by
  rw [placeLayer_eq]
  exact get?_foldl_placeAt_of_not_mem _ _ _ (by rwa [map_node_stacked]) p

theorem get?_foldl_placeLayer_of_not_mem {ordering : Ordering} {n : String}
    (h : n ∉ ordering.flatten) :
    (ordering.foldl (placeLayer s g) p).boxes.get? n = p.boxes.get? n := by
  induction ordering generalizing p with
  | nil => rfl
  | cons first ordering ih =>
    rw [List.flatten_cons, List.mem_append, not_or] at h
    rw [List.foldl_cons, ih h.2, get?_placeLayer_of_not_mem h.1]

theorem get?_placeLayer_of_mem (hNodup : layer.Nodup) {e : α × Slot α}
    (he : e ∈ stacked s g p layer) : (placeLayer s g p layer).boxes.get? e.2.node =
      (p.boxes.get? e.2.node).map (Box.placed s p.offset (thickness s p.boxes layer) e.1) := by
  rw [placeLayer_eq]
  exact get?_foldl_placeAt_of_mem _ _ _ (by rwa [map_node_stacked]) he p

theorem pairwise_placeLayer (hNodup : layer.Nodup) {relates : String → Box α → Box α → Prop}
    (h : (stacked s g p layer).Pairwise fun e f => ∀ b c, p.boxes.get? e.2.node = some b →
      p.boxes.get? f.2.node = some c →
      relates e.2.node (b.placed s p.offset (thickness s p.boxes layer) e.1)
        (c.placed s p.offset (thickness s p.boxes layer) f.1)) :
    layer.Pairwise fun m n => ∀ b c, (placeLayer s g p layer).boxes.get? m = some b →
      (placeLayer s g p layer).boxes.get? n = some c → relates m b c := by
  have hStacked := map_node_stacked s g p layer
  rw [← hStacked, List.pairwise_map, hStacked]
  refine h.imp_of_mem fun {e f} he hf hRelates b c hb hc => ?_
  rw [get?_placeLayer_of_mem hNodup he, Option.map_eq_some_iff] at hb
  rw [get?_placeLayer_of_mem hNodup hf, Option.map_eq_some_iff] at hc
  obtain ⟨oldB, hOldB, rfl⟩ := hb
  obtain ⟨oldC, hOldC, rfl⟩ := hc
  exact hRelates oldB oldC hOldB hOldC

end Layer

theorem placeLayer_moved (s : Spacing α) (g : Digraph α) (p : Progress α) (layer : List String) :
    p.boxes.Moved (placeLayer s g p layer).boxes := by
  rw [placeLayer_eq]
  dsimp only
  induction stacked s g p layer using List.reverseRecOn with
  | nil => exact .refl p.boxes
  | append_singleton es e ih =>
    refine ih.trans fun n => ?_
    rw [List.foldl_append, List.foldl_cons, List.foldl_nil, get?_placeAt]
    split
    · exact ⟨_, rfl⟩
    · exact Boxes.Moved.refl _ n

/-! ## The whole drawing -/

theorem normalise_moved (boxes : Boxes α) : boxes.Moved (normalise boxes) := by
  unfold normalise
  split
  · exact .mapValues boxes _
  · exact .refl boxes

omit [Coordinate α] in
theorem restoreSeeds_eq (boxes : Boxes α) : restoreSeeds boxes =
    boxes.mapValues fun _ b => { b with position := b.seed.getD b.position } := by
  unfold restoreSeeds
  congr 1
  funext _ b
  cases b with
  | mk size index seed handles position => cases seed <;> rfl

omit [Coordinate α] in
theorem restoreSeeds_moved (boxes : Boxes α) : boxes.Moved (restoreSeeds boxes) := by
  rw [restoreSeeds_eq]
  exact .mapValues boxes _

def arranged (s : Spacing α) (l : Layered α) (ordering : Ordering) : Boxes α :=
  normalise (ordering.foldl (placeLayer s l.graph) ⟨l.boxes, .empty, nat 0⟩).boxes

theorem place_eq (s : Spacing α) (l : Layered α) (ordering : Ordering) :
    place s l ordering = restoreSeeds (arranged s l ordering) := rfl

theorem arranged_moved (s : Spacing α) (l : Layered α) (ordering : Ordering) :
    l.boxes.Moved (arranged s l ordering) := by
  have hFold : ∀ p : Progress α, p.boxes.Moved (ordering.foldl (placeLayer s l.graph) p).boxes := by
    induction ordering with
    | nil => exact fun p => .refl p.boxes
    | cons layer ordering ih => exact fun p => (placeLayer_moved s l.graph p layer).trans (ih _)
  exact (hFold ⟨l.boxes, .empty, nat 0⟩).trans (normalise_moved _)

theorem place_moved (s : Spacing α) (l : Layered α) (ordering : Ordering) :
    l.boxes.Moved (place s l ordering) :=
  (arranged_moved s l ordering).trans (restoreSeeds_moved _)

theorem place_keeps (s : Spacing α) (l : Layered α) (ordering : Ordering) :
    l.boxes.Keeps (place s l ordering) := (place_moved s l ordering).keeps

theorem position_of_seed {s : Spacing α} {l : Layered α} {ordering : Ordering} {n : String}
    {b : Box α} (hb : (place s l ordering).get? n = some b) {p : Position α}
    (hSeed : b.seed = some p) : b.position = p := by
  rw [place, restoreSeeds_eq, OrderedMap.get?_mapValues] at hb
  obtain ⟨old, _, rfl⟩ := Option.map_eq_some_iff.mp hb
  change old.seed = some p at hSeed
  rw [hSeed]
  rfl

end TypeDiagram.Layout
