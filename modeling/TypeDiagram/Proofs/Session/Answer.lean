import TypeDiagram.Proofs.Diagram.Arrangement
import TypeDiagram.Proofs.Session.Capture
import TypeDiagram.Proofs.Session.Mirror

/-! # What the answer of the layered service does to the view

A pass that the service answers comes back with the nodes that it was started for, in the sizes that
were sent. So it gives positions to nodes that it knows, and no sizes but those that they have.
-/

namespace TypeDiagram.Session

open Diagram Layout

variable {α : Type}

/-- The layout request of a pass. -/
def Pass.request [Coordinate α] (p : Pass α) (options : LayoutOptions) : Request α Unit :=
  requestFor options p.nodes p.edges p.direction p.pinned

/-- A pass that the operation settles gets the answer of the service that draws in layers, or none.
-/
def Operation.Layered [Coordinate α] : Operation α → Prop
  | .settle _ service =>
    ∀ request answer, service request = .ok answer → layeredService request = .ok answer
  | _ => True

theorem lastNode?_eq_none_iff (nodes : List (Node α)) (id : String) :
    lastNode? nodes id = none ↔ id ∉ nodes.map Node.id := by
  simp [lastNode?, List.find?_eq_none, List.mem_map]

theorem lastNode?_mem {nodes : List (Node α)} {id : String} {n : Node α}
    (h : lastNode? nodes id = some n) : n ∈ nodes ∧ n.id = id :=
  ⟨List.mem_reverse.mp (List.mem_of_find?_eq_some h), by simpa using List.find?_some h⟩

variable [Coordinate α] {s : Session α} {p : Pass α} {placed : List (Node α)}

theorem result_layeredService {service : Service α} {options : LayoutOptions}
    (hService : ∀ request answer,
      service request = .ok answer → layeredService request = .ok answer)
    (h : p.result service options = .ok placed) : p.result layeredService options = .ok placed := by
  unfold Pass.result arrange at h ⊢
  cases hAnswer : service (requestFor options p.nodes p.edges p.direction p.pinned) with
  | error e =>
    rw [hAnswer] at h
    cases h
  | ok answer =>
    rw [hAnswer] at h
    rw [hService _ _ hAnswer]
    exact h

theorem Applies.layered {op : Operation α} (h : Applies s op p placed) (hLayered : op.Layered) :
    p.result layeredService s.layoutOptions = .ok placed := by
  obtain ⟨service, rfl, hResult⟩ := h.settles
  exact result_layeredService hLayered hResult

theorem nodup_captured_run (options : ViewOptions) (layoutOptions : LayoutOptions)
    (ops : List (Operation α)) {p : Pass α}
    (hp : p ∈ ((create options layoutOptions).run ops).inFlight) :
    (p.nodes.map Node.id).Nodup := by
  obtain ⟨before, token, _, hSame⟩ := captured_run options layoutOptions ops hp
  rw [hSame]
  exact (mirrors_run options layoutOptions before).nodup_ids

/-- A node that is not pinned moves where the pass puts it, if the pass knows it. -/
theorem merged_position (hIds : placed.map Node.id = p.nodes.map Node.id) {n : Node α}
    (hPinned : n.id ∉ s.pinned) :
    (n.id ∉ p.nodes.map Node.id ∧ s.merged p placed n = n) ∨
      ∃ computed ∈ placed, computed.id = n.id ∧
        (s.merged p placed n).position = computed.position := by
  unfold merged
  cases hComputed : lastNode? placed n.id with
  | none => exact .inl ⟨hIds ▸ (lastNode?_eq_none_iff placed n.id).mp hComputed, rfl⟩
  | some computed =>
    obtain ⟨hIn, hId⟩ := lastNode?_mem hComputed
    refine .inr ⟨computed, hIn, hId, ?_⟩
    simp only [if_neg (mt List.contains_iff_mem.mp hPinned)]

omit [Coordinate α] in
theorem size_eq_of_lastNode? (hDistinct : (p.nodes.map Node.id).Nodup)
    (hSizes : placed.map (fun n => (n.id, n.size)) = p.nodes.map fun n => (n.id, n.size))
    {id : String} {sent computed : Node α} (hSent : lastNode? p.nodes id = some sent)
    (hComputed : lastNode? placed id = some computed) : computed.size = sent.size := by
  obtain ⟨hSentIn, hSentId⟩ := lastNode?_mem hSent
  obtain ⟨hIn, hId⟩ := lastNode?_mem hComputed
  have hPair : (computed.id, computed.size) ∈ p.nodes.map fun n => (n.id, n.size) := by
    rw [← hSizes]
    exact List.mem_map.mpr ⟨computed, hIn, rfl⟩
  obtain ⟨n, hn, hSame⟩ := List.mem_map.mp hPair
  obtain ⟨hSameId, hSameSize⟩ := Prod.mk.inj hSame
  have hNode : n = sent :=
    List.inj_on_of_nodup_map hDistinct hn hSentIn (hSameId.trans (hId.trans hSentId.symm))
  rw [← hSameSize, hNode]

/-- If the sizes that were sent come back, a node keeps its size, or gets one that is the same. -/
theorem merged_size (hDistinct : (p.nodes.map Node.id).Nodup)
    (hSizes : placed.map (fun n => (n.id, n.size)) = p.nodes.map fun n => (n.id, n.size))
    (n : Node α) : sameSize (s.merged p placed n).size n.size = true := by
  unfold merged
  cases hComputed : lastNode? placed n.id with
  | none => exact sameSize_refl n.size
  | some computed =>
    dsimp only
    split
    · exact sameSize_refl n.size
    · cases hSent : lastNode? p.nodes n.id with
      | none => exact sameSize_refl n.size
      | some sent =>
        dsimp only
        rw [size_eq_of_lastNode? hDistinct hSizes hSent hComputed]
        split
        · rename_i hUnchanged
          cases hSize : sent.size with
          | none => exact sameSize_refl n.size
          | some size =>
            rw [hSize] at hUnchanged
            exact hUnchanged
        · exact sameSize_refl n.size

omit [Coordinate α] in
theorem lastNode?_of_mem {nodes : List (Node α)} (h : (nodes.map Node.id).Nodup) {n : Node α}
    (hn : n ∈ nodes) : lastNode? nodes n.id = some n := by
  apply find?_eq_some_of_nodup_map _ (List.mem_reverse.mpr hn)
  rw [List.map_reverse]
  exact List.nodup_reverse.mpr h

/-- A node of which nothing but the place was changed is merged into the view as it came back. -/
theorem merged_of_alike {n computed : Node α} (h : n.Alike s.pinned s.pinned computed)
    (hComputed : lastNode? placed n.id = some computed) (hSent : lastNode? p.nodes n.id = some n) :
    s.merged p placed n = computed := by
  unfold merged
  rw [hComputed, hSent]
  by_cases hPinned : n.id ∈ s.pinned
  · simp only [if_pos (List.contains_iff_mem.mpr hPinned)]
    exact (Node.mk.injEq ..).mpr ⟨h.id, h.model, h.place hPinned, h.size⟩
  · have hSize : (n.size <|> n.size) = n.size := by cases n.size <;> rfl
    simp only [if_neg (mt List.contains_iff_mem.mp hPinned), sameSize_refl, if_true, ← h.size]
    exact (Node.mk.injEq ..).mpr ⟨h.id, h.model, rfl, hSize.trans h.size⟩

/-- A pass that was started for the view as it is puts all nodes where they came back. -/
theorem map_merged_capture [LawfulMagnitude α] (hDistinct : (s.nodes.map Node.id).Nodup)
    {token : Nat} (h : (s.capture token).result layeredService s.layoutOptions = .ok placed) :
    s.nodes.map (s.merged (s.capture token) placed) = placed := by
  have hAlike : List.Forall₂ (Node.Alike s.pinned s.pinned) s.nodes placed :=
    alike_of_arrange hDistinct h
  have hPlaced : (placed.map Node.id).Nodup := (arrange_ids hDistinct h).symm ▸ hDistinct
  obtain ⟨hLength, hZip⟩ := List.forall₂_iff_zip.mp hAlike
  rw [← List.forall₂_eq_eq_eq, List.forall₂_map_left_iff, List.forall₂_iff_zip]
  refine ⟨hLength, fun {n computed} hPair => ?_⟩
  obtain ⟨hn, hComputed⟩ := List.of_mem_zip hPair
  have hSame := hZip hPair
  exact merged_of_alike hSame (hSame.id ▸ lastNode?_of_mem hPlaced hComputed)
    (lastNode?_of_mem hDistinct hn)

end TypeDiagram.Session
