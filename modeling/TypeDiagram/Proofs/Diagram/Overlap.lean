import TypeDiagram.Proofs.Diagram.Arrangement
import TypeDiagram.Proofs.Layout.Separation
import TypeDiagram.Proofs.Number.Sign

/-! # Nodes that the layout draws do not overlap

The room between boxes is written into the request as texts, and what is read back from them is not
negative if the options are not. Children that stand apart by such room have no point inside both.
-/

namespace TypeDiagram

def Inside (position : Position Rat) (size : Size Rat) (p : Position Rat) : Prop :=
  position.x < p.x ∧ p.x < position.x + size.width ∧
    position.y < p.y ∧ p.y < position.y + size.height

section Apart

variable {position position' : Position Rat} {size size' : Size Rat} {p : Position Rat}

theorem Inside.not_of_beside (h : Inside position size p)
    (hBeside : position.x + size.width ≤ position'.x) : ¬ Inside position' size' p := by
  intro h'
  have hLess : position'.x < position.x + size.width := h'.1.trans h.2.1
  exact absurd hBeside (not_le_of_gt hLess)

theorem Inside.not_of_below (h : Inside position size p)
    (hBelow : position.y + size.height ≤ position'.y) : ¬ Inside position' size' p := by
  intro h'
  have hLess : position'.y < position.y + size.height := h'.2.2.1.trans h.2.2.2
  exact absurd hBelow (not_le_of_gt hLess)

end Apart

namespace Layout

variable {κ : Type} {s : Spacing Rat} {a b : PlacedChild Rat κ} {p : Position Rat}

theorem not_inside_of_before (h : a.Before s b) (hGap : 0 ≤ s.layerGap)
    (ha : Inside a.position a.size p) : ¬ Inside b.position b.size p := by
  unfold PlacedChild.Before Spacing.front Spacing.lengthOf at h
  cases hAxis : s.horizontal with
  | true =>
    simp only [hAxis, if_true] at h
    exact ha.not_of_beside (by linarith)
  | false =>
    simp only [hAxis, Bool.false_eq_true, if_false] at h
    exact ha.not_of_below (by linarith)

theorem not_inside_of_nextTo (h : a.NextTo s b) (hGap : 0 ≤ s.nodeGap)
    (ha : Inside a.position a.size p) : ¬ Inside b.position b.size p := by
  unfold PlacedChild.NextTo Spacing.flank Spacing.breadthOf at h
  cases hAxis : s.horizontal with
  | true =>
    simp only [hAxis, if_true] at h
    exact ha.not_of_below (by linarith)
  | false =>
    simp only [hAxis, Bool.false_eq_true, if_false] at h
    exact ha.not_of_beside (by linarith)

theorem Request.Regular.not_inside {request : Request Rat κ} (h : request.Regular)
    {r : Resolved Rat} (hRead : resolveRequest request = .ok r) {c d : Child Rat κ}
    (hc : c ∈ request.children) (hd : d ∈ request.children) (hcFree : c.Free) (hdFree : d.Free)
    (hNe : c.id ≠ d.id) (ha : placedChild (planOf r).boxes c = a)
    (hb : placedChild (planOf r).boxes d = b) (hIn : Inside a.position a.size p) :
    ¬ Inside b.position b.size p := by
  subst ha hb
  obtain ⟨hNodeGap, hLayerGap⟩ := h.gaps hRead
  obtain ⟨m, _, hm⟩ := h.stands hRead hc hcFree
  obtain ⟨n, _, hn⟩ := h.stands hRead hd hdFree
  have hIds : m ≠ n := by
    rintro rfl
    exact hNe (hm.id.trans hn.id.symm)
  rcases Nat.lt_trichotomy ((planOf r).layerOf m) ((planOf r).layerOf n) with hLess | hSame | hMore
  · exact not_inside_of_before (h.before hRead hm hn hLess) hLayerGap hIn
  · rcases h.nextTo hRead hm hn hSame hIds with hFirst | hSecond
    · exact not_inside_of_nextTo hFirst hNodeGap hIn
    · exact fun hAlso => not_inside_of_nextTo hSecond hNodeGap hAlso hIn
  · exact fun hAlso => not_inside_of_before (h.before hRead hn hm hMore) hLayerGap hAlso hIn

end Layout

/-- The room that the options ask for is not negative, and no option replaces them. -/
structure LayoutOptions.Spaced (o : LayoutOptions) : Prop where
  nodeNodeBetweenLayers : 0 ≤ o.nodeNodeBetweenLayers
  edgeNodeBetweenLayers : 0 ≤ o.edgeNodeBetweenLayers
  nodeNode : 0 ≤ o.nodeNode
  extra : o.extra = []

namespace Diagram

open Coordinate Layout

theorem readSetting_nonneg {settings : List (String × Document Amount)} {key : String} {x : Float}
    (hKey : settings.lookup key = some (.string (Number.general x))) (hx : 0 ≤ x) (standard : Nat) :
    ∃ v : Rat, readSetting settings key (Coordinate.nat standard) = .ok v ∧ 0 ≤ v := by
  unfold readSetting
  rw [hKey]
  refine ⟨_, rfl, ?_⟩
  rw [Option.bind_some, numeralOf?]
  cases hRead : (Number.Numeral.read? (Number.general x)).bind
      (Coordinate.ofNumeral? : Number.Numeral → Option Rat) with
  | none =>
    rw [Option.getD_none, nat_rat]
    exact Nat.cast_nonneg standard
  | some q =>
    obtain ⟨n, hNumeral, hValue⟩ := Option.bind_eq_some_iff.mp hRead
    exact Number.nonneg_of_general hx hNumeral hValue

theorem gaps_nonneg {o : LayoutOptions} (h : o.Spaced) (direction : Direction)
    {s : Spacing Rat} (hRead : readSpacing (o.settings direction) = .ok s) :
    0 ≤ s.nodeGap ∧ 0 ≤ s.layerGap := by
  let settings : List (String × Document Amount) :=
    (o.ownSettings direction).map fun option => (option.1, .string option.2)
  have hOwn : o.settings direction = settings := by
    rw [LayoutOptions.settings, h.extra, List.foldl_nil]
  have hBetween : settings.lookup "elk.layered.spacing.nodeNodeBetweenLayers" = _ := rfl
  have hEdge : settings.lookup "elk.layered.spacing.edgeNodeBetweenLayers" = _ := rfl
  have hNode : settings.lookup "elk.spacing.nodeNode" = _ := rfl
  obtain ⟨_, hBetween, hBetweenLayers⟩ := readSetting_nonneg hBetween h.nodeNodeBetweenLayers 30
  obtain ⟨_, hEdge, hEdgeGap⟩ := readSetting_nonneg hEdge h.edgeNodeBetweenLayers 30
  obtain ⟨_, hNode, hNodeGap⟩ := readSetting_nonneg hNode h.nodeNode 50
  rw [hOwn, readSpacing, hBetween, hEdge, hNode] at hRead
  cases hRead
  exact ⟨hNodeGap, add_nonneg hBetweenLayers hEdgeGap⟩

/-- The room that a node takes; none if it was not measured. -/
def Node.extent (n : Node Rat) : Size Rat := n.size.getD ⟨0, 0⟩

theorem extent_eq_of_sameSize {m n : Node Rat} (h : sameSize m.size n.size = true) :
    m.extent = n.extent := congrArg (Option.getD · _) (eq_of_sameSize h)

def Node.Overlaps (m n : Node Rat) : Prop :=
  ∃ p, Inside m.position m.extent p ∧ Inside n.position n.extent p

variable {options : LayoutOptions} {nodes : List (Node Rat)} {edges : List Edge}
  {direction : Direction} {pinned : List String}

theorem regular_requestFor (hSpaced : options.Spaced)
    (hPlain : ∀ n ∈ nodes, isDummy n.id = false)
    (hSizes : ∀ n ∈ nodes, 0 ≤ n.extent.width ∧ 0 ≤ n.extent.height) :
    (requestFor options nodes edges direction pinned).Regular := by
  have hGaps {s : Spacing Rat} := gaps_nonneg (s := s) hSpaced direction
  refine ⟨?_, ?_, ?_, fun s hs => (hGaps hs).1, fun s hs => (hGaps hs).2⟩ <;> intro c hc v hv <;>
    obtain ⟨n, hn, rfl⟩ := List.mem_map.mp hc
  · exact Option.some.inj hv ▸ hPlain n hn
  · have hWidth : v = n.extent.width := by
      rw [← Except.ok.inj hv, Node.extent]
      cases n.size <;> rfl
    exact hWidth ▸ (hSizes n hn).1
  · have hHeight : v = n.extent.height := by
      rw [← Except.ok.inj hv, Node.extent]
      cases n.size <;> rfl
    exact hHeight ▸ (hSizes n hn).2

theorem free_childOf {n : Node Rat} (h : n.id ∉ pinned) : (childOf direction pinned n).Free := by
  left
  unfold childOf
  exact if_neg (mt List.contains_iff_mem.mp h)

theorem Drawn.position_eq {α : Type} [Coordinate α] {nodes : List (Node α)}
    (hDistinct : (nodes.map Node.id).Nodup) {r : Resolved α}
    (hRead : resolveRequest (requestFor options nodes edges direction pinned) = .ok r) {n : Node α}
    (hn : n ∈ nodes) {position : Position α}
    (h : Drawn (requestFor options nodes edges direction pinned) n.id position) :
    position = (placedChild (planOf r).boxes (childOf direction pinned n)).position := by
  obtain ⟨drawing, hDraw, c, hc, hId, rfl⟩ := h
  obtain ⟨r', hRead', rfl⟩ := draw_eq_ok_iff.mp hDraw
  rw [hRead] at hRead'
  cases hRead'
  obtain ⟨child, hChild, rfl⟩ := List.mem_map.mp hc
  obtain ⟨m, hm, rfl⟩ := List.mem_map.mp hChild
  rw [placedChild_child] at hId
  rw [List.inj_on_of_nodup_map hDistinct hm hn (Option.some.inj hId)]

theorem extent_placedChild (hDistinct : (nodes.map Node.id).Nodup) {r : Resolved Rat}
    (hRead : resolveRequest (requestFor options nodes edges direction pinned) = .ok r)
    {n : Node Rat} (hn : n ∈ nodes) (hPlain : isDummy n.id = false) :
    (placedChild (planOf r).boxes (childOf direction pinned n)).size = n.extent := by
  rcases placedChild_size hDistinct hRead hn with hSent | ⟨hDummy, _⟩
  · rw [hSent, nat_rat]
    rfl
  · rw [hPlain] at hDummy
    cases hDummy

/-- Two nodes that one request draws, and that are not pinned, do not overlap where they are drawn.
-/
theorem not_overlaps_of_drawn (hSpaced : options.Spaced) (hDistinct : (nodes.map Node.id).Nodup)
    (hPlain : ∀ n ∈ nodes, isDummy n.id = false)
    (hSizes : ∀ n ∈ nodes, 0 ≤ n.extent.width ∧ 0 ≤ n.extent.height) {m n : Node Rat}
    (hm : m ∈ nodes) (hn : n ∈ nodes) (hNe : m.id ≠ n.id) (hmFree : m.id ∉ pinned)
    (hnFree : n.id ∉ pinned) {position position' : Position Rat}
    (hmDrawn : Drawn (requestFor options nodes edges direction pinned) m.id position)
    (hnDrawn : Drawn (requestFor options nodes edges direction pinned) n.id position')
    {p : Position Rat} (hIn : Inside position m.extent p) : ¬ Inside position' n.extent p := by
  have hRegular : (requestFor options nodes edges direction pinned).Regular :=
    regular_requestFor hSpaced hPlain hSizes
  obtain ⟨_, hDraw, _⟩ := id hmDrawn
  obtain ⟨r, hRead, _⟩ := draw_eq_ok_iff.mp hDraw
  rw [hmDrawn.position_eq hDistinct hRead hm,
    ← extent_placedChild hDistinct hRead hm (hPlain m hm)] at hIn
  rw [hnDrawn.position_eq hDistinct hRead hn,
    ← extent_placedChild hDistinct hRead hn (hPlain n hn)]
  exact hRegular.not_inside hRead (List.mem_map_of_mem hm) (List.mem_map_of_mem hn)
    (free_childOf hmFree) (free_childOf hnFree) (fun hSame => hNe (Option.some.inj hSame)) rfl rfl
    hIn

end Diagram

end TypeDiagram
