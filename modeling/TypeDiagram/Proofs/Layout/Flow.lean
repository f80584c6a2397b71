import TypeDiagram.Proofs.Layout.FeedbackArcs
import TypeDiagram.Proofs.Layout.Separation
import Mathlib.Data.Finset.Dedup

/-! # Edges flow forward

The arcs that the line of the boxes is made for are the pairs of different boxes that edges run
between, each once. A pair that runs along the line leads to a later layer, one that runs backwards
to an earlier layer. So at most half of the pairs lead to earlier layers, and none if there is no
cycle; the boxes of a pair stand before one another as their layers do.
-/

namespace TypeDiagram.Layout

variable {α : Type}

/-! ## Pairs of ends -/

def Resolved.pairs (r : Resolved α) : Finset (String × String) :=
  ((r.routes.filter fun e => !e.isLoop).map fun e => (e.source, e.target)).toFinset

theorem Resolved.mem_pairs_iff (r : Resolved α) (source target : String) :
    (source, target) ∈ r.pairs ↔
      ∃ e ∈ r.routes, e.isLoop = false ∧ e.source = source ∧ e.target = target := by
  simp only [pairs, List.mem_toFinset, List.mem_map, List.mem_filter, Bool.not_eq_true',
    Prod.mk.injEq, and_assoc]

variable [Coordinate α]

theorem Resolved.joins_routeGraph_iff (r : Resolved α) (source target : String) :
    (routeGraph r.boxes r.routes).Joins source target ↔ (source, target) ∈ r.pairs := by
  rw [r.mem_pairs_iff]
  constructor
  · rintro ⟨a, ha, rfl, rfl⟩
    rcases Digraph.mem_arcs_foldl_addArc ha with hNone | ⟨e, he, rfl⟩
    · cases hNone
    · obtain ⟨hIn, hLoop⟩ := List.mem_filter.mp he
      exact ⟨e, hIn, by simpa using hLoop, rfl, rfl⟩
  · rintro ⟨e, he, hLoop, rfl, rfl⟩
    let arcOf (e : Route) : Arc α := ⟨e.source, e.target, Coordinate.half⟩
    exact Digraph.joins_foldl_addArc arcOf (.ofNodes r.boxes.keys)
      (List.mem_filter.mpr ⟨he, by rw [hLoop]; rfl⟩)

theorem Resolved.card_filter_pairs (r : Resolved α) (p : String × String → Bool) :
    (r.pairs.filter fun pair => p pair = true).card =
      (routeGraph r.boxes r.routes).arcs.countP fun a => p a.ends := by
  have hNodup : ((routeGraph r.boxes r.routes).arcs.map Arc.ends).Nodup :=
    Digraph.nodup_ends_foldl_addArc _ _ List.nodup_nil
  have hPairs : r.pairs = ((routeGraph r.boxes r.routes).arcs.map Arc.ends).toFinset := by
    ext ⟨source, target⟩
    rw [List.mem_toFinset, ← Digraph.joins_iff_mem_ends, r.joins_routeGraph_iff]
  rw [hPairs, ← List.toFinset_filter, List.toFinset_card_of_nodup (hNodup.filter _),
    List.filter_map, List.length_map, List.countP_eq_length_filter]
  rfl

theorem joins_ne {r : Resolved α} {source target : String}
    (h : (routeGraph r.boxes r.routes).Joins source target) : source ≠ target := by
  rintro rfl
  obtain ⟨e, _, hLoop, hSource, hTarget⟩ :=
    (r.mem_pairs_iff source source).mp ((r.joins_routeGraph_iff source source).mp h)
  simp [Route.isLoop, hSource, hTarget] at hLoop

section Routed

variable {r : Resolved α} (h : WellRouted r.boxes r.routes)

include h

theorem WellRouted.inside {a : Arc α} (ha : a ∈ (routeGraph r.boxes r.routes).arcs) :
    Digraph.inside r.boxes.keys a = true := by
  obtain ⟨e, he, _, hSource, hTarget⟩ := (r.mem_pairs_iff a.source a.target).mp
    ((r.joins_routeGraph_iff _ _).mp ⟨a, ha, rfl, rfl⟩)
  exact Digraph.inside_iff.mpr ⟨hSource ▸ h.source e he, hTarget ▸ h.target e he⟩

theorem WellRouted.two_mul_card_backward_le :
    2 * (r.pairs.filter fun p =>
      Digraph.isBackward (boxLine r.boxes r.routes) p.1 p.2 = true).card ≤ r.pairs.card := by
  have hHalf := Digraph.two_mul_backwardAmong_le (g := routeGraph r.boxes r.routes)
    (fun n hLoop => joins_ne hLoop rfl) h.distinct
  have hAll : r.pairs.card = (routeGraph r.boxes r.routes).arcs.countP
      (Digraph.inside r.boxes.keys) := by
    have hCard := r.card_filter_pairs fun _ => true
    rw [Finset.filter_true_of_mem fun _ _ => rfl] at hCard
    rw [hCard]
    exact List.countP_congr fun a ha => by rw [h.inside ha]
  rw [r.card_filter_pairs fun p => Digraph.isBackward (boxLine r.boxes r.routes) p.1 p.2, hAll]
  refine (Nat.mul_le_mul_left 2 (List.countP_mono_left fun a ha hBackward => ?_)).trans hHalf
  rw [h.inside ha, Bool.true_and]
  exact hBackward

theorem WellRouted.not_isBackward
    (hAcyclic : ∀ n, ¬ Relation.TransGen (fun s t => (s, t) ∈ r.pairs) n n) {source target : String}
    (hPair : (source, target) ∈ r.pairs) :
    Digraph.isBackward (boxLine r.boxes r.routes) source target = false := by
  obtain ⟨a, ha, rfl, rfl⟩ := (r.joins_routeGraph_iff source target).mpr hPair
  refine Digraph.not_isBackward_of_acyclic (fun n hCycle => hAcyclic n ?_) h.distinct ha
    (h.inside ha)
  exact Relation.TransGen.mono (fun s t => (r.joins_routeGraph_iff s t).mp) _ _ hCycle

end Routed

/-! ## Layers of a pair -/

variable {κ : Type}

/-- A pair leads to a later layer, or it runs backwards and leads to an earlier layer. -/
theorem layers_of_pair {r : Resolved Rat} (h : WellRouted r.boxes r.routes)
    (hPlain : ∀ id ∈ r.boxes.keys, isDummy id = false) {source target : String}
    (hPair : (source, target) ∈ r.pairs) :
    (Digraph.isBackward (boxLine r.boxes r.routes) source target = false ∧
        (planOf r).layerOf source < (planOf r).layerOf target) ∨
      (Digraph.isBackward (boxLine r.boxes r.routes) source target = true ∧
        (planOf r).layerOf target < (planOf r).layerOf source) := by
  obtain ⟨e, he, hLoop, rfl, rfl⟩ := (r.mem_pairs_iff _ _).mp hPair
  have hMem : ⟨e, Digraph.isBackward (boxLine r.boxes r.routes) e.source e.target⟩ ∈
      orient r.boxes r.routes := mem_orient_iff.mpr ⟨he, by rw [hLoop]; rfl⟩
  have hLess := h.layer_upper_lt_lower hPlain hMem hLoop
  cases hBackward : Digraph.isBackward (boxLine r.boxes r.routes) e.source e.target with
  | false =>
    rw [hBackward] at hLess
    exact .inl ⟨rfl, hLess⟩
  | true =>
    rw [hBackward] at hLess
    exact .inr ⟨rfl, hLess⟩

structure Flows (r : Resolved Rat) (drawing : Drawing Rat κ) : Prop where
  apart : ∀ p ∈ r.pairs, (planOf r).layerOf p.1 ≠ (planOf r).layerOf p.2
  few : 2 * (r.pairs.filter fun p => (planOf r).layerOf p.2 < (planOf r).layerOf p.1).card ≤
    r.pairs.card
  acyclic : (∀ n, ¬ Relation.TransGen (fun s t => (s, t) ∈ r.pairs) n n) →
    ∀ p ∈ r.pairs, (planOf r).layerOf p.1 < (planOf r).layerOf p.2
  drawn : ∀ a ∈ drawing.children, ∀ b ∈ drawing.children, a.child.Free → b.child.Free →
    ∀ p ∈ r.pairs, a.child.id = some p.1 → b.child.id = some p.2 →
      ((planOf r).layerOf p.1 < (planOf r).layerOf p.2 → a.Before r.spacing b) ∧
      ((planOf r).layerOf p.2 < (planOf r).layerOf p.1 → b.Before r.spacing a)

/-- The layers of the two ends of an edge differ; few edges lead to an earlier layer; and children
without a seed stand before one another as their layers do. -/
theorem edges_flow_forward {request : Request Rat κ} (h : request.Regular)
    {drawing : Drawing Rat κ} (hDraw : draw request = .ok drawing) :
    ∃ r, resolveRequest request = .ok r ∧
      drawing.children.map PlacedChild.child = request.children ∧ Flows r drawing := by
  obtain ⟨r, hRead, rfl⟩ := draw_eq_ok_iff.mp hDraw
  have hRouted := wellRouted_of_resolveRequest hRead
  have hPlain : ∀ id ∈ r.boxes.keys, isDummy id = false := by
    intro id hId
    obtain ⟨b, hb⟩ := Option.isSome_iff_exists.mp ((OrderedMap.get?_isSome_iff r.boxes id).mpr hId)
    obtain ⟨c, hc, hBox⟩ := exists_child_of_get? (resolveRequest_eq_ok hRead).1 hb
    exact h.plain c hc id hBox.id
  refine ⟨r, hRead, Plan.children_drawing _ _ _ _, ?_, ?_, ?_, ?_⟩
  · rintro ⟨source, target⟩ hPair
    rcases layers_of_pair hRouted hPlain hPair with ⟨_, hLess⟩ | ⟨_, hMore⟩
    · exact hLess.ne
    · exact hMore.ne'
  · have hTurned : (r.pairs.filter fun p => (planOf r).layerOf p.2 < (planOf r).layerOf p.1) =
        r.pairs.filter fun p =>
          Digraph.isBackward (boxLine r.boxes r.routes) p.1 p.2 = true := by
      refine Finset.filter_congr fun p hPair => ?_
      rcases layers_of_pair hRouted hPlain hPair with ⟨hForward, hLess⟩ | ⟨hBackward, hMore⟩
      · exact iff_of_false hLess.asymm (by rw [hForward]; exact Bool.false_ne_true)
      · exact iff_of_true hMore hBackward
    rw [hTurned]
    exact hRouted.two_mul_card_backward_le
  · rintro hAcyclic ⟨source, target⟩ hPair
    rcases layers_of_pair hRouted hPlain hPair with ⟨_, hLess⟩ | ⟨hBackward, _⟩
    · exact hLess
    · rw [hRouted.not_isBackward hAcyclic hPair] at hBackward
      cases hBackward
  · intro a ha b hb haFree hbFree p _ hSource hTarget
    obtain ⟨c, hc, rfl⟩ := List.mem_map.mp ha
    obtain ⟨d, hd, rfl⟩ := List.mem_map.mp hb
    rw [placedChild_child] at haFree hSource hbFree hTarget
    obtain ⟨m, box, hm⟩ := h.stands hRead hc haFree
    obtain ⟨n, box', hn⟩ := h.stands hRead hd hbFree
    obtain rfl := Option.some.inj (hm.id.symm.trans hSource)
    obtain rfl := Option.some.inj (hn.id.symm.trans hTarget)
    exact ⟨h.before hRead hm hn, h.before hRead hn hm⟩

/-- Of three boxes in a cycle, with an edge each way between two of them. -/
theorem edges_of_cycle_flow_forward :
    let child (id : String) : Child Rat Unit := ⟨some id, none, none, none, none, [], ()⟩
    let edge (source target : String) : Link Unit := ⟨.absent, [.text source], [.text target], ()⟩
    let request : Request Rat Unit := ⟨[], ["A", "B", "C"].map child,
      [edge "A" "B", edge "B" "C", edge "C" "A", edge "B" "A"]⟩
    ∃ r drawing, resolveRequest request = .ok r ∧ draw request = .ok drawing ∧
      drawing.children.map PlacedChild.child = request.children ∧ Flows r drawing := by
  intro child edge request
  have hResolves : (resolveRequest request).isOk = true := by decide +kernel
  have hRegular : request.Regular := by decide +kernel
  obtain ⟨drawing, hDraw⟩ := exists_draw_eq_ok hResolves
  obtain ⟨r, hRead, hChildren, hFlows⟩ := edges_flow_forward hRegular hDraw
  exact ⟨r, drawing, hRead, hDraw, hChildren, hFlows⟩

end TypeDiagram.Layout
