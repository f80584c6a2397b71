import TypeDiagram.Proofs.Diagram.Request
import TypeDiagram.Proofs.Geometry

/-! # What the service that draws in layers does to the nodes

It answers exactly if the request is read to its end, with a place for each node, and the nodes come
back in order. The size of a node comes back as it was sent, and one that was not measured is still
not measured.
-/

namespace TypeDiagram.Diagram

open Layout

variable {α : Type} [Coordinate α]

def placementOf (c : PlacedChild α Unit) : Placement α :=
  ⟨c.child.id.map .text, some c.position.x, some c.position.y, some c.size.width,
    some c.size.height⟩

def Node.arranged (direction : Direction) (pinned : List String) (boxes : Boxes α) (n : Node α) :
    Node α :=
  n.placedBy pinned (placementOf (placedChild boxes (childOf direction pinned n)))

variable (options : LayoutOptions) {nodes : List (Node α)} (edges : List Edge)
  (direction : Direction) (pinned : List String)

theorem arranged_id (boxes : Boxes α) (n : Node α) :
    (n.arranged direction pinned boxes).id = n.id := rfl

theorem arranged_position (boxes : Boxes α) (n : Node α) :
    (n.arranged direction pinned boxes).position =
      if pinned.contains n.id then n.position
      else (placedChild boxes (childOf direction pinned n)).position := rfl

theorem arranged_size (boxes : Boxes α) (n : Node α) :
    (n.arranged direction pinned boxes).size =
      let size := (placedChild boxes (childOf direction pinned n)).size
      if Magnitude.isZero size.width || Magnitude.isZero size.height then n.size
      else some size := rfl

theorem applyAnswer_placements (h : (nodes.map Node.id).Nodup) {place : Node α → Placement α}
    (hPlace : ∀ n ∈ nodes, (place n).id = some (.text n.id)) :
    applyAnswer nodes (nodes.map place) pinned =
      .ok (nodes.map fun n => n.placedBy pinned (place n)) := by
  have hNamed : (nodes.map place).mapM (fun p =>
      p.id.elim (Except.error Layout.Error.answerWithoutId) fun id => .ok (id, p)) =
        .ok (nodes.map fun n => (Name.text n.id, place n)) := by
    rw [List.mapM_map]
    refine mapM_eq_ok fun n hn => ?_
    rw [Function.comp_apply, hPlace n hn]
    rfl
  have hKeys : (nodes.map fun n => (Name.text n.id, place n)).map (·.1) =
      (nodes.map Node.id).map Name.text := by
    rw [List.map_map, List.map_map]
    rfl
  have hNodup : ((nodes.map fun n => (Name.text n.id, place n)).map (·.1)).Nodup := by
    rw [hKeys]
    exact h.map fun _ _ hSame => Name.text.inj hSame
  unfold applyAnswer placementsById
  rw [hNamed]
  refine congrArg Except.ok (List.map_congr_left fun n hn => ?_)
  have hFound : (OrderedMap.ofList (nodes.map fun n => (Name.text n.id, place n))).get?
      (.text n.id) = some (place n) := by
    apply OrderedMap.get?_eq_some_of_mem
    · rwa [OrderedMap.keys_ofList hNodup]
    · rw [OrderedMap.entries_ofList hNodup]
      exact List.mem_map_of_mem hn
  rw [hFound]

theorem applyAnswer_placedChild (h : (nodes.map Node.id).Nodup) (boxes : Boxes α) :
    applyAnswer nodes
        ((nodes.map fun n => placedChild boxes (childOf direction pinned n)).map placementOf)
        pinned =
      .ok (nodes.map (Node.arranged direction pinned boxes)) := by
  rw [List.map_map]
  apply applyAnswer_placements pinned h
  intro n _
  change (placedChild boxes (childOf direction pinned n)).child.id.map Name.text = _
  rw [placedChild_child]
  rfl

/-- Arranging fails where reading the request does, and else puts each node where it is drawn. -/
theorem arrange_layeredService_cases (h : (nodes.map Node.id).Nodup) :
    (∃ e, resolveRequest (requestFor options nodes edges direction pinned) = .error e ∧
      arrange layeredService options nodes edges direction pinned = .error e) ∨
    ∃ r drawing, resolveRequest (requestFor options nodes edges direction pinned) = .ok r ∧
      draw (requestFor options nodes edges direction pinned) = .ok drawing ∧
      drawing.children =
        nodes.map (fun n => placedChild (planOf r).boxes (childOf direction pinned n)) ∧
      arrange layeredService options nodes edges direction pinned =
        .ok (nodes.map (Node.arranged direction pinned (planOf r).boxes)) := by
  unfold arrange layeredService
  rcases draw_cases (requestFor options nodes edges direction pinned) with
    ⟨e, hRead, hDraw⟩ | ⟨r, drawing, hRead, hDraw, hChildren⟩
  · rw [hDraw]
    exact .inl ⟨e, hRead, rfl⟩
  · obtain ⟨boxes, hBoxes⟩ : ∃ boxes, boxes = (planOf r).boxes := ⟨_, rfl⟩
    rw [← hBoxes] at hChildren
    have hEach : drawing.children =
        nodes.map fun n => placedChild boxes (childOf direction pinned n) := by
      rw [hChildren, requestFor, List.map_map]
      rfl
    rw [hDraw]
    refine .inr ⟨r, drawing, hRead, rfl, hBoxes ▸ hEach, ?_⟩
    rw [← hBoxes]
    change applyAnswer nodes (drawing.children.map placementOf) pinned = _
    rw [hEach]
    exact applyAnswer_placedChild direction pinned h boxes

theorem Drawable.arranges {edges : List Edge} (h : Drawable nodes edges) (options : LayoutOptions)
    (direction : Direction) (pinned : List String) :
    ∃ placed, arrange layeredService options nodes edges direction pinned = .ok placed := by
  obtain ⟨r, hRead, _⟩ := h.resolves options direction pinned
  rcases arrange_layeredService_cases options edges direction pinned h.distinct with
    ⟨e, hError, _⟩ | ⟨_, _, _, _, _, hPlaced⟩
  · rw [hRead] at hError
    cases hError
  · exact ⟨_, hPlaced⟩

def Drawn (request : Request α Unit) (id : String) (position : Position α) : Prop :=
  ∃ drawing, draw request = .ok drawing ∧
    ∃ c ∈ drawing.children, c.child.id = some id ∧ c.position = position

variable {options edges direction pinned} {placed : List (Node α)}

theorem drawn_of_arrange (hDistinct : (nodes.map Node.id).Nodup)
    (h : arrange layeredService options nodes edges direction pinned = .ok placed) {n : Node α}
    (hn : n ∈ placed) (hPinned : n.id ∉ pinned) :
    Drawn (requestFor options nodes edges direction pinned) n.id n.position := by
  rcases arrange_layeredService_cases options edges direction pinned hDistinct with
    ⟨e, _, hError⟩ | ⟨r, drawing, _, hDraw, hChildren, hPlaced⟩
  · rw [hError] at h
    cases h
  · rw [hPlaced] at h
    obtain ⟨m, hm, rfl⟩ := List.mem_map.mp (Except.ok.inj h ▸ hn)
    refine ⟨drawing, hDraw, placedChild (planOf r).boxes (childOf direction pinned m), ?_, ?_, ?_⟩
    · rw [hChildren]
      exact List.mem_map_of_mem hm
    · rw [placedChild_child]
      rfl
    · rw [arranged_id] at hPinned
      rw [arranged_position, if_neg (mt List.contains_iff_mem.mp hPinned)]

theorem arrange_ids (hDistinct : (nodes.map Node.id).Nodup)
    (h : arrange layeredService options nodes edges direction pinned = .ok placed) :
    placed.map Node.id = nodes.map Node.id := by
  rcases arrange_layeredService_cases options edges direction pinned hDistinct with
    ⟨e, _, hError⟩ | ⟨r, _, _, _, _, hPlaced⟩
  · rw [hError] at h
    cases h
  · rw [hPlaced] at h
    rw [← Except.ok.inj h, List.map_map]
    exact List.map_congr_left fun n _ => arranged_id direction pinned _ n

/-- The box of a node keeps the size that was sent for it, or the node has the id of a dummy and its
box is replaced by one that takes no room. -/
theorem placedChild_size {r : Resolved α} (hDistinct : (nodes.map Node.id).Nodup)
    (h : resolveRequest (requestFor options nodes edges direction pinned) = .ok r) {n : Node α}
    (hn : n ∈ nodes) :
    (placedChild (planOf r).boxes (childOf direction pinned n)).size =
        n.size.getD ⟨Coordinate.nat 0, Coordinate.nat 0⟩ ∨
      isDummy n.id = true ∧ (placedChild (planOf r).boxes (childOf direction pinned n)).size =
        ⟨Coordinate.nat 0, Coordinate.nat 0⟩ := by
  obtain ⟨boxes, hChildren, _, hBoxes⟩ := readChildren_childOf direction pinned hDistinct
  have hSame : boxes = r.boxes :=
    Except.ok.inj (hChildren.symm.trans (resolveRequest_eq_ok h).1)
  obtain ⟨b, hBox, hFor⟩ := hBoxes n hn
  have hKept := (complete_planOf (wellRouted_of_resolveRequest h)).kept
  obtain ⟨b', hBox', hSize⟩ := hKept n.id b (hSame ▸ hBox)
  rw [placedChild_of_get? rfl hBox', ← hFor.size]
  rcases hSize with ⟨position, rfl⟩ | hDummy
  · exact .inl rfl
  · -- A node with the id of a dummy may have lost its box to that dummy.
    exact .inr hDummy

theorem arrange_sizes [LawfulMagnitude α] (hDistinct : (nodes.map Node.id).Nodup)
    (h : arrange layeredService options nodes edges direction pinned = .ok placed) :
    placed.map (fun n => (n.id, n.size)) = nodes.map fun n => (n.id, n.size) := by
  rcases arrange_layeredService_cases options edges direction pinned hDistinct with
    ⟨e, _, hError⟩ | ⟨r, _, hRead, _, _, hPlaced⟩
  · rw [hError] at h
    cases h
  · rw [hPlaced] at h
    rw [← Except.ok.inj h, List.map_map]
    apply List.map_congr_left
    intro n hn
    rw [Function.comp_apply, arranged_id, arranged_size, Prod.mk_right_inj]
    have hZero : Magnitude.isZero (Coordinate.nat 0 : α) = true := LawfulMagnitude.isZero_nat_zero
    rcases placedChild_size hDistinct hRead hn with hSent | ⟨_, hNone⟩
    · rw [hSent]
      cases n.size with
      | none => exact if_pos (by rw [Option.getD_none, hZero]; rfl)
      | some size => exact ite_self _
    · rw [hNone]
      exact if_pos (by rw [hZero]; rfl)

/-! ## What the answer depends on -/

/-- A layout does not tell the nodes apart: they are the same but for the places of nodes that are
not pinned. -/
structure Node.Alike (pinned pinned' : List String) (n n' : Node α) : Prop where
  id : n.id = n'.id
  model : n.model = n'.model
  size : n.size = n'.size
  held : n.id ∈ pinned ↔ n'.id ∈ pinned'
  place : n.id ∈ pinned → n.position = n'.position

section Alike

variable {pinned' : List String} {n n' : Node α}

omit [Coordinate α] in
theorem Node.Alike.contains_eq (h : n.Alike pinned pinned' n') :
    pinned.contains n.id = pinned'.contains n'.id := by
  rw [Bool.eq_iff_iff, List.contains_iff_mem, List.contains_iff_mem]
  exact h.held

theorem Node.Alike.childOf_eq (h : n.Alike pinned pinned' n') (direction : Direction) :
    childOf direction pinned n = childOf direction pinned' n' := by
  unfold childOf
  rw [h.contains_eq, h.id, h.model, h.size]
  cases hPinned : pinned'.contains n'.id with
  | false => rfl
  | true => rw [h.place (h.held.mpr (List.contains_iff_mem.mp hPinned))]

theorem Node.Alike.arranged_eq (h : n.Alike pinned pinned' n') (direction : Direction)
    (boxes : Boxes α) :
    n.arranged direction pinned boxes = n'.arranged direction pinned' boxes := by
  have hPosition : (n.arranged direction pinned boxes).position =
      (n'.arranged direction pinned' boxes).position := by
    rw [arranged_position, arranged_position, h.contains_eq, h.childOf_eq]
    cases hPinned : pinned'.contains n'.id with
    | false => rfl
    | true => exact h.place (h.held.mpr (List.contains_iff_mem.mp hPinned))
  have hSize : (n.arranged direction pinned boxes).size =
      (n'.arranged direction pinned' boxes).size := by
    rw [arranged_size, arranged_size, h.childOf_eq, h.size]
  exact (Node.mk.injEq ..).mpr ⟨h.id, h.model, hPosition, hSize⟩

variable {nodes' : List (Node α)}

theorem arrange_congr (hDistinct : (nodes.map Node.id).Nodup)
    (h : List.Forall₂ (Node.Alike pinned pinned') nodes nodes') :
    arrange layeredService options nodes edges direction pinned =
      arrange layeredService options nodes' edges direction pinned' := by
  have hMap : ∀ {β : Type} {f g : Node α → β},
      (∀ n n', n.Alike pinned pinned' n' → f n = g n') → nodes.map f = nodes'.map g := by
    intro β f g hEach
    rw [← List.forall₂_eq_eq_eq, List.forall₂_map_left_iff, List.forall₂_map_right_iff]
    exact h.imp fun n n' hAlike => hEach n n' hAlike
  have hRequest : requestFor options nodes edges direction pinned =
      requestFor options nodes' edges direction pinned' := by
    unfold requestFor
    rw [hMap fun n n' hAlike => hAlike.childOf_eq direction]
  have hDistinct' : (nodes'.map Node.id).Nodup := hMap (fun n n' hAlike => hAlike.id) ▸ hDistinct
  rcases arrange_layeredService_cases options edges direction pinned hDistinct with
    ⟨e, hRead, hResult⟩ | ⟨r, _, hRead, _, _, hResult⟩ <;>
  rcases arrange_layeredService_cases options edges direction pinned' hDistinct' with
    ⟨e', hRead', hResult'⟩ | ⟨r', _, hRead', _, _, hResult'⟩ <;>
  rw [hResult, hResult'] <;> rw [hRequest, hRead'] at hRead <;> cases hRead
  · rfl
  · rw [hMap fun n n' hAlike => hAlike.arranged_eq direction _]

/-- The nodes that come back differ from those that were sent in no more than a layout changes. -/
theorem alike_of_arrange [LawfulMagnitude α] (hDistinct : (nodes.map Node.id).Nodup)
    (h : arrange layeredService options nodes edges direction pinned = .ok placed) :
    List.Forall₂ (Node.Alike pinned pinned) nodes placed := by
  have hSizes := arrange_sizes hDistinct h
  rcases arrange_layeredService_cases options edges direction pinned hDistinct with
    ⟨e, _, hError⟩ | ⟨r, _, _, _, _, hPlaced⟩
  · rw [hError] at h
    cases h
  · rw [hPlaced] at h
    rw [← Except.ok.inj h, List.map_map, List.map_inj_left] at hSizes
    rw [← Except.ok.inj h, List.forall₂_map_right_iff, List.forall₂_same]
    intro n hn
    refine ⟨rfl, rfl, (congrArg Prod.snd (hSizes n hn)).symm, Iff.rfl, fun hPinned => ?_⟩
    rw [arranged_position, if_pos (List.contains_iff_mem.mpr hPinned)]

end Alike

end TypeDiagram.Diagram
