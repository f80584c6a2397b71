import Mathlib
import TypeDiagram.Proofs.Layout.Drawing

/-! # What a drawing gives back of its request

A drawing has the children and edges of its request, in their order and with all that they carry.
A child keeps the extents that it gives, and its place if it gives one. There is one exception:
dummies are filed among the boxes under names of their own making, and a child that happens to have
the name of a dummy that a route passes gives way to it.

All of Mathlib is imported, since requests are drawn by evaluation here and in the modules that
build on this one: the equations of strings and lists that this takes are stated in parts of the
library that come by no smaller import.
-/

namespace TypeDiagram.Layout

variable {α : Type} [Coordinate α]

open Coordinate

/-! ## Boxes that dummies replace -/

namespace Layered

def Takes (l : Layered α) (id : String) : Prop :=
  ∃ ends chain, l.chains.get? ends = some chain ∧ id ∈ chain

structure Splits (boxes : Boxes α) (l : Layered α) : Prop where
  spared : ∀ id, ¬ l.Takes id → l.boxes.get? id = boxes.get? id
  taken : ∀ id, l.Takes id → ∃ b, l.boxes.get? id = some b ∧ b.size = ⟨nat 0, nat 0⟩
  dummies : ∀ id, l.Takes id → isDummy id = true

/-- A chain that grows from a layered graph changes the boxes of its own dummies only. -/
structure Growth.Extends (l : Layered α) (g : Growth α) : Prop where
  chains : g.layered.chains = l.chains
  spared : ∀ id, id ∉ g.chain → g.layered.boxes.get? id = l.boxes.get? id
  taken : ∀ id ∈ g.chain, ∃ b, g.layered.boxes.get? id = some b ∧ b.size = ⟨nat 0, nat 0⟩
  dummies : ∀ id ∈ g.chain, isDummy id = true

theorem Growth.Extends.grow {l : Layered α} {g : Growth α} (h : g.Extends l) (number : Nat)
    (a : Arc α) (step : Nat) : (Layered.grow number a g step).Extends l where
  chains := h.chains
  spared id hNot := by
    obtain ⟨hOld, hNew⟩ := not_or.mp (mt List.mem_append.mpr hNot)
    rw [Layered.grow, OrderedMap.get?_insert, if_neg (mt List.mem_singleton.mpr hNew)]
    exact h.spared id hOld
  taken id hIn := by
    rw [Layered.grow, OrderedMap.get?_insert]
    split
    · exact ⟨_, rfl, rfl⟩
    · rename_i hOther
      rcases List.mem_append.mp hIn with hOld | hNew
      · exact h.taken id hOld
      · exact absurd (List.mem_singleton.mp hNew) hOther
  dummies id hIn := by
    rcases List.mem_append.mp hIn with hOld | hNew
    · exact h.dummies id hOld
    · obtain rfl := List.mem_singleton.mp hNew
      exact isDummy_dummyId number step

theorem extends_foldl_grow (number : Nat) (a : Arc α) (l : Layered α) (steps : List Nat) :
    (steps.foldl (grow number a) ⟨l, [], a.source⟩).Extends l := by
  induction steps using List.reverseRecOn with
  | nil =>
    exact ⟨rfl, fun _ _ => rfl, fun _ hIn => absurd hIn List.not_mem_nil,
      fun _ hIn => absurd hIn List.not_mem_nil⟩
  | append_singleton steps step ih =>
    rw [List.foldl_append]
    exact ih.grow number a step

theorem Growth.Extends.close {boxes : Boxes α} {l : Layered α} {g : Growth α} (h : g.Extends l)
    (hl : l.Splits boxes) {ends : String × String} (hNew : ends ∉ l.chains.keys)
    (graph : Digraph α) : Splits boxes { g.layered with
      graph := graph
      chains := g.layered.chains.insert ends g.chain } := by
  have hTakes : ∀ id, Takes { g.layered with
      graph := graph
      chains := g.layered.chains.insert ends g.chain } id ↔ id ∈ g.chain ∨ l.Takes id := by
    intro id
    simp only [Takes, OrderedMap.get?_insert, h.chains]
    constructor
    · rintro ⟨other, chain, hChain, hIn⟩
      split at hChain
      · cases hChain
        exact .inl hIn
      · exact .inr ⟨other, chain, hChain, hIn⟩
    · rintro (hIn | ⟨other, chain, hChain, hIn⟩)
      · exact ⟨ends, g.chain, if_pos rfl, hIn⟩
      · have hOther : other ≠ ends := by
          rintro rfl
          exact hNew (OrderedMap.mem_keys_of_get? hChain)
        exact ⟨other, chain, by rw [if_neg hOther, hChain], hIn⟩
  constructor
  · intro id hNot
    obtain ⟨hChain, hOld⟩ := not_or.mp (mt (hTakes id).mpr hNot)
    exact (h.spared id hChain).trans (hl.spared id hOld)
  · intro id hTaken
    by_cases hChain : id ∈ g.chain
    · exact h.taken id hChain
    · obtain ⟨b, hb, hSize⟩ := hl.taken id (((hTakes id).mp hTaken).resolve_left hChain)
      exact ⟨b, (h.spared id hChain).trans hb, hSize⟩
  · intro id hTaken
    exact ((hTakes id).mp hTaken).elim (h.dummies id) (hl.dummies id)

theorem mem_chains_addChain (l : Layered α) (a : Arc α) (number : Nat) (ends : String × String) :
    ends ∈ (l.addChain a number).chains.keys ↔ ends = a.ends ∨ ends ∈ l.chains.keys := by
  rw [addChain, OrderedMap.mem_keys_insert, (extends_foldl_grow number a l _).chains]
  rfl

/-- Splitting arcs with distinct ends files a chain for each, and for nothing else. -/
theorem splits_foldl_addChain {boxes : Boxes α} {start : Layered α} (h : start.Splits boxes)
    (hNone : start.chains = .empty) {arcs : List (Arc α × Nat)}
    (hNodup : (arcs.map fun e => e.1.ends).Nodup) :
    let split := arcs.foldl (fun l e => l.addChain e.1 e.2) start
    split.Splits boxes ∧ ∀ ends, ends ∈ split.chains.keys ↔ ends ∈ arcs.map fun e => e.1.ends := by
  induction arcs using List.reverseRecOn with
  | nil => exact ⟨h, fun ends => by rw [List.foldl_nil, hNone]; rfl⟩
  | append_singleton arcs last ih =>
    rw [List.map_append, List.map_singleton, List.nodup_append] at hNodup
    obtain ⟨hEarlier, _, hApart⟩ := hNodup
    obtain ⟨hSplits, hFiled⟩ := ih hEarlier
    have hNew : last.1.ends ∉ (arcs.foldl (fun l e => l.addChain e.1 e.2) start).chains.keys :=
      fun hIn => hApart _ ((hFiled _).mp hIn) _ (List.mem_singleton_self _) rfl
    rw [List.foldl_append, List.foldl_cons, List.foldl_nil]
    refine ⟨(extends_foldl_grow last.2 last.1 _ _).close hSplits hNew _, fun ends => ?_⟩
    rw [mem_chains_addChain, hFiled, List.map_append, List.mem_append, List.map_singleton,
      List.mem_singleton, or_comm]

theorem splits_ofGraph (boxes : Boxes α) {g : Digraph α} (hNodes : g.nodes.Nodup)
    (hArcs : (g.arcs.map Arc.ends).Nodup) : (ofGraph boxes g).Splits boxes ∧
      ∀ ends, ends ∈ (ofGraph boxes g).chains.keys ↔ ends ∈ g.arcsByNode.map Arc.ends := by
  have hNumbered : (g.arcsByNode.zipIdx.map fun e => e.1.ends) = g.arcsByNode.map Arc.ends := by
    change g.arcsByNode.zipIdx.map (Arc.ends ∘ Prod.fst) = _
    rw [← List.map_map, List.zipIdx_map_fst]
  have hStart : Splits boxes
      ⟨boxes, Layers.assign g g.topologicalOrder, .ofNodes g.nodes, .empty⟩ :=
    ⟨fun _ _ => rfl, fun _ ⟨_, _, hNone, _⟩ => (by cases hNone),
      fun _ ⟨_, _, hNone, _⟩ => (by cases hNone)⟩
  have hNodup : (g.arcsByNode.zipIdx.map fun e => e.1.ends).Nodup := by
    rw [hNumbered]
    exact Digraph.nodup_ends_arcsByNode hNodes hArcs
  have hSplit := splits_foldl_addChain hStart rfl hNodup
  rw [hNumbered] at hSplit
  exact hSplit

end Layered

/-! ## Boxes of a plan -/

def Plan.Passes (plan : Plan α) (id : String) : Prop :=
  ∃ route ∈ plan.routes, id ∈ plan.layered.chainOf route

section Planned

variable {r : Resolved α} (h : WellRouted r.boxes r.routes)

include h

theorem WellRouted.splits_planOf : (planOf r).layered.Splits r.boxes ∧
    ∀ ends, ends ∈ (planOf r).layered.chains.keys ↔
      ends ∈ (orientedGraph r.boxes (planOf r).routes).arcsByNode.map Arc.ends := by
  refine Layered.splits_ofGraph r.boxes ?_ (Digraph.nodup_ends_foldl_addArc _ _ List.nodup_nil)
  rw [orientedGraph_nodes]
  exact h.distinct

theorem WellRouted.takes_iff_passes (id : String) :
    (planOf r).layered.Takes id ↔ (planOf r).Passes id := by
  constructor
  · rintro ⟨ends, chain, hChain, hIn⟩
    have hFiled := (h.splits_planOf.2 ends).mp (OrderedMap.mem_keys_of_get? hChain)
    obtain ⟨a, ha, rfl⟩ := List.mem_map.mp hFiled
    rw [Digraph.mem_arcsByNode_iff] at ha
    · obtain ⟨route, hRoute, hLoop, rfl⟩ := mem_arcs_orientedGraph ha
      exact ⟨route, hRoute, Layered.mem_chainOf_iff.mpr ⟨hLoop, chain, hChain, hIn⟩⟩
    · intro b hb
      rw [orientedGraph_nodes]
      exact (h.arc_ends hb).1
  · rintro ⟨route, _, hPass⟩
    obtain ⟨_, chain, hChain, hIn⟩ := Layered.mem_chainOf_iff.mp hPass
    exact ⟨_, chain, hChain, hIn⟩

/-- A box that no route passes as a dummy is only moved; one that a route passes takes no room. -/
theorem WellRouted.box_of_planOf {id : String} {old : Box α} (hOld : r.boxes.get? id = some old) :
    ∃ b, (planOf r).boxes.get? id = some b ∧
      (¬ (planOf r).Passes id → b.size = old.size ∧ b.seed = old.seed ∧ b.handles = old.handles) ∧
      ((planOf r).Passes id → b.size = ⟨nat 0, nat 0⟩) := by
  obtain ⟨hSplits, _⟩ := h.splits_planOf
  obtain ⟨move, hMoved⟩ := place_moved r.spacing (planOf r).layered (planOf r).ordering id
  rw [← planOf_boxes] at hMoved
  by_cases hPassed : (planOf r).Passes id
  · obtain ⟨b, hb, hSize⟩ := hSplits.taken id ((h.takes_iff_passes id).mpr hPassed)
    rw [hb] at hMoved
    exact ⟨_, hMoved, fun hNot => absurd hPassed hNot, fun _ => hSize⟩
  · have hSame := hSplits.spared id (mt (h.takes_iff_passes id).mp hPassed)
    rw [hSame, hOld] at hMoved
    exact ⟨_, hMoved, fun _ => ⟨rfl, rfl, rfl⟩, fun hPassed' => absurd hPassed' hPassed⟩

end Planned

/-! ## Drawings -/

variable {κ : Type}

/-- The child has the extents that it came with, and the place if it came with both coordinates. -/
structure PlacedChild.Echoes (p : PlacedChild α κ) : Prop where
  width : readExtent p.child.width = .ok p.size.width
  height : readExtent p.child.height = .ok p.size.height
  place : ∀ x y, p.child.x = some x → p.child.y = some y →
    x.read = .ok p.position.x ∧ y.read = .ok p.position.y

/-- A child that no route passes as a dummy comes back as it is; one that a route passes has lost
its extents. -/
theorem echoes_placedChild {request : Request α κ} {r : Resolved α}
    (hRead : resolveRequest request = .ok r) {c : Child α κ} (hc : c ∈ request.children) :
    ∃ id, c.id = some id ∧ (¬ (planOf r).Passes id → (placedChild (planOf r).boxes c).Echoes) ∧
      ((planOf r).Passes id → (placedChild (planOf r).boxes c).size = ⟨nat 0, nat 0⟩) := by
  obtain ⟨id, old, hOld, hBox⟩ := exists_box_of_mem (resolveRequest_eq_ok hRead).1 hc
  obtain ⟨b, hb, hSpared, hTaken⟩ := (wellRouted_of_resolveRequest hRead).box_of_planOf hOld
  rw [placedChild_of_get? hBox.id hb]
  refine ⟨id, hBox.id, fun hNot => ?_, hTaken⟩
  obtain ⟨hSize, hSeed, _⟩ := hSpared hNot
  refine ⟨hSize ▸ hBox.width, hSize ▸ hBox.height, fun x y hx hy => ?_⟩
  obtain ⟨p, hp, hReadX, hReadY⟩ := seed_of_readSeed hBox.seed hx hy
  rw [planOf_boxes] at hb
  have hPlace : b.position = p := position_of_seed hb (hSeed.trans hp)
  exact hPlace ▸ ⟨hReadX, hReadY⟩

/-- The drawing has the children and edges of the request, and the boxes of the children wherever no
route passes a dummy of the same name. -/
structure EchoedBy (request : Request α κ) (r : Resolved α) (drawing : Drawing α κ) : Prop where
  children : drawing.children.map PlacedChild.child = request.children
  edges : drawing.edges.map RoutedLink.link = request.edges
  boxes : ∀ p ∈ drawing.children, ∃ id, p.child.id = some id ∧
    (¬ (planOf r).Passes id → p.Echoes) ∧ ((planOf r).Passes id → p.size = ⟨nat 0, nat 0⟩)

/-- A drawing echoes its request. Only a child that has the name of a dummy on some route loses its
extents, and such a child takes no room. -/
theorem drawing_echoes_request {request : Request α κ} {drawing : Drawing α κ}
    (hDraw : draw request = .ok drawing) :
    ∃ r, resolveRequest request = .ok r ∧ EchoedBy request r drawing := by
  obtain ⟨r, hRead, rfl⟩ := draw_eq_ok_iff.mp hDraw
  refine ⟨r, hRead, ?_, ?_, fun p hp => ?_⟩
  · rw [Plan.drawing, List.map_map]
    exact (List.map_congr_left fun c _ => placedChild_child _ c).trans (List.map_id _)
  · have hLength : request.edges.length ≤ (planOf r).routes.length := by
      rw [(forall₂_of_mapM_eq_ok (resolveRequest_eq_ok hRead).2).length_eq]
      exact (List.length_map ..).ge
    rw [Plan.drawing, List.map_map]
    exact List.map_fst_zip hLength
  · obtain ⟨c, hc, rfl⟩ := List.mem_map.mp hp
    rw [placedChild_child]
    exact echoes_placedChild hRead hc

/-- The edge from `A` to `C` passes the layer of `B`, as a dummy that has the name of the last
child. -/
def namesakeRequest : Request Rat Unit :=
  let child (id : String) (width height : Rat) (x y : Option Rat) : Child Rat Unit :=
    ⟨some id, x.map .number, y.map .number, some (.number width), some (.number height), [], ()⟩
  let edge (id source target : String) : Link Unit := ⟨.text id, [.text source], [.text target], ()⟩
  ⟨[("elk.direction", .string "RIGHT")],
    [child "A" 10 10 none none, child "B" 10 10 none none, child "C" 10 10 none none,
      child "__dummy_0_1" 40 30 (some 500) (some 600)],
    [edge "1" "A" "C", edge "2" "A" "B", edge "3" "B" "C"]⟩

theorem isOk_resolveRequest_namesakeRequest : (resolveRequest namesakeRequest).isOk = true := by
  decide +kernel

theorem drawing_echoes_namesakes : ∃ r drawing, resolveRequest namesakeRequest = .ok r ∧
    draw namesakeRequest = .ok drawing ∧ EchoedBy namesakeRequest r drawing := by
  obtain ⟨drawing, hDraw⟩ := exists_draw_eq_ok isOk_resolveRequest_namesakeRequest
  obtain ⟨r, hRead, hEchoed⟩ := drawing_echoes_request hDraw
  exact ⟨r, drawing, hRead, hDraw, hEchoed⟩

/-- The last child comes with a width of 40, and comes back with none. -/
theorem child_with_name_of_dummy_is_not_echoed :
    ∃ drawing, draw namesakeRequest = .ok drawing ∧ ¬ ∀ p ∈ drawing.children, p.Echoes := by
  obtain ⟨drawing, hDraw⟩ := exists_draw_eq_ok isOk_resolveRequest_namesakeRequest
  refine ⟨drawing, hDraw, fun hAll => ?_⟩
  have hLast : ((draw namesakeRequest).toOption.bind fun d => d.children.getLast?.map fun p =>
      (p.child.width, p.size.width)) = some (some (.number 40), 0) := by cbv
  rw [hDraw, Except.toOption, Option.bind_some] at hLast
  obtain ⟨p, hp, hWidths⟩ := Option.map_eq_some_iff.mp hLast
  have hGiven : p.child.width = some (.number 40) := congrArg Prod.fst hWidths
  have hDrawn : p.size.width = 0 := congrArg Prod.snd hWidths
  have hEcho := (hAll p (List.mem_of_getLast? hp)).width
  rw [hGiven, hDrawn] at hEcho
  have hSame : (40 : Rat) = 0 := Except.ok.inj hEcho
  exact absurd hSame (by decide)

end TypeDiagram.Layout
