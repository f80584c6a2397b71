import TypeDiagram.Proofs.Layout.Chain
import TypeDiagram.Proofs.Layout.Line
import TypeDiagram.Proofs.Layout.Relayout
import TypeDiagram.Proofs.Layout.Separation

/-! # Edges run one way along the flow

Where no child keeps a place of its own, boxes in later layers stand behind those in earlier ones,
dummies included. A route meets its boxes layer by layer, upwards or downwards, and the points of
its line are abreast of them in this order. So the line never turns back along the flow.
-/

namespace TypeDiagram.Layout

open Coordinate

variable {κ : Type}

/-! ## Requests without places -/

theorem Child.Free.isSeeded {c : Child Rat κ} (h : c.Free) : c.isSeeded = false := by
  rcases h with hx | hy
  · simp [Child.isSeeded, hx]
  · simp [Child.isSeeded, hy]

section Regular

variable {request : Request Rat κ} (h : request.Regular)

include h

theorem Request.Regular.unplaced (hFree : ∀ c ∈ request.children, c.Free) : request.Unplaced where
  plain := h.plain
  free c hc := (hFree c hc).isSeeded
  width c hc w hw := (nonneg_rat_iff w).mpr (h.width c hc w hw)
  height c hc e he := (nonneg_rat_iff e).mpr (h.height c hc e he)
  nodeGap s hs := (nonneg_rat_iff s.nodeGap).mpr (h.nodeGap s hs)

variable {r : Resolved Rat} (hRead : resolveRequest request = .ok r)

include hRead

theorem Request.Regular.plain_keys : ∀ id ∈ r.boxes.keys, isDummy id = false := by
  intro id hId
  obtain ⟨c, hc, hOwn⟩ := exists_child_of_mem_keys (resolveRequest_eq_ok hRead).1 hId
  exact h.plain c hc id hOwn

/-- No box is moved back to a place of its own, so boxes stand as their layers do. -/
theorem Request.Regular.ahead (hFree : ∀ c ∈ request.children, c.Free) {m n : String}
    (hm : m ∈ (planOf r).layered.layers.keys) (hn : n ∈ (planOf r).layered.layers.keys)
    (hLess : (planOf r).layerOf m < (planOf r).layerOf n) :
    Ahead r.spacing (planOf r).boxes m n := by
  have hUnplaced := h.unplaced hFree
  have hUnseeded : ∀ id, Unseeded (place r.spacing (planOf r).layered
      (Ordering.of (planOf r).layered r.spacing.horizontal)) id := by
    intro id b hb
    rw [← planOf_ordering, ← planOf_boxes, hUnplaced.boxes_eq hRead] at hb
    exact hUnplaced.seed_arranged hRead hb
  obtain ⟨hNodeGap, hLayerGap⟩ := h.gaps hRead
  rw [planOf_boxes, planOf_ordering]
  exact place_ahead hNodeGap hLayerGap (h.roomy_layered hRead) (nodup_layers_planOf hRead) hm hn
    (hUnseeded m) (hUnseeded n) hLess

theorem Request.Regular.roomy_planOf : (planOf r).boxes.Roomy := by
  rw [planOf_boxes]
  exact (h.roomy_layered hRead).moved (place_moved _ _ _)

end Regular

/-! ## Points and boxes -/

/-- The point is where the box of the node is along the flow. -/
def Abreast (s : Spacing Rat) (boxes : Boxes Rat) (p : Position Rat) (n : String) : Prop :=
  ∃ b, boxes.get? n = some b ∧
    s.front b.position ≤ s.front p ∧ s.front p ≤ s.front b.position + s.along b

theorem pairwise_of_abreast {s : Spacing Rat} {boxes : Boxes Rat} {T : Rat → Rat → Prop}
    {S : String → String → Prop} {points : List (Position Rat)} {nodes : List String}
    (hAbreast : List.Forall₂ (Abreast s boxes) points nodes) (hNodes : nodes.Pairwise S)
    (hStep : ∀ p q m n, Abreast s boxes p m → Abreast s boxes q n → m ∈ nodes → n ∈ nodes →
      S m n → T (s.front p) (s.front q)) :
    points.Pairwise fun p q => T (s.front p) (s.front q) := by
  rw [List.pairwise_iff_getElem] at hNodes ⊢
  intro i j hi hj hLess
  have hi' := hAbreast.length_eq ▸ hi
  have hj' := hAbreast.length_eq ▸ hj
  exact hStep _ _ _ _ (hAbreast.get hi hi') (hAbreast.get hj hj') (List.getElem_mem hi')
    (List.getElem_mem hj') (hNodes i j hi' hj' hLess)

variable {s : Spacing Rat} {boxes : Boxes Rat}

theorem front_exitPoint (s : Spacing Rat) (b : Box Rat) (fraction : Rat) :
    s.front (exitPoint s.horizontal b fraction) = s.front b.position + s.along b := by
  unfold exitPoint Spacing.front Spacing.along
  cases s.horizontal <;> rfl

theorem front_entryPoint (s : Spacing Rat) (b : Box Rat) :
    s.front (entryPoint s.horizontal b) = s.front b.position := by
  unfold entryPoint Spacing.front
  cases s.horizontal <;> rfl

section Abreast

variable (hRoomy : boxes.Roomy)

include hRoomy

theorem abreast_stops {chain : List String} (hBoxed : ∀ d ∈ chain, d ∈ boxes.keys) :
    List.Forall₂ (Abreast s boxes) (stops boxes chain) chain := by
  induction chain with
  | nil => exact .nil
  | cons d chain ih =>
    obtain ⟨b, hb⟩ := OrderedMap.mem_keys_iff_exists.mp (hBoxed d List.mem_cons_self)
    have hStop : stops boxes (d :: chain) = b.position :: stops boxes chain :=
      List.filterMap_cons_some (by rw [hb]; rfl)
    rw [hStop]
    have hLength := (hRoomy.nonneg s hb).1
    exact .cons ⟨b, hb, le_refl _, by linarith⟩ (ih fun e he => hBoxed e (List.mem_cons_of_mem d he))

/-- The points that a section leads through are abreast of the nodes that its route passes. -/
theorem Section.Leads.abreast {source target : Box Rat} {m n : String} {handle : Option Name}
    {chain : List String} {sec : Section Rat}
    (hLeads : sec.Leads s.horizontal source target handle (stops boxes chain))
    (hSource : boxes.get? m = some source) (hTarget : boxes.get? n = some target)
    (hBoxed : ∀ d ∈ chain, d ∈ boxes.keys) :
    List.Forall₂ (Abreast s boxes) (sec.start :: (stops boxes chain ++ [sec.finish]))
      (m :: (chain ++ [n])) := by
  have hStart := front_exitPoint s source (source.fraction handle)
  have hFinish := front_entryPoint s target
  rw [← hLeads.start] at hStart
  rw [← hLeads.finish] at hFinish
  have hFrom := (hRoomy.nonneg s hSource).1
  have hInto := (hRoomy.nonneg s hTarget).1
  refine .cons ⟨source, hSource, by linarith, hStart.le⟩ ?_
  exact List.rel_append (abreast_stops hRoomy hBoxed)
    (.cons ⟨target, hTarget, hFinish.ge, by linarith⟩ .nil)

end Abreast

/-! ## Drawings -/

/-- The section runs backward along the flow if its route is turned, else forward. -/
def Section.RunsOneWay (s : Spacing Rat) (turned : Bool) (sec : Section Rat) : Prop :=
  if turned then (sec.points.map s.front).Pairwise (· ≥ ·)
  else (sec.points.map s.front).Pairwise (· ≤ ·)

theorem Section.Leads.pairwise_front {R : Rat → Rat → Prop} (hR : Midway R) {source target : Box Rat}
    {handle : Option Name} {between : List (Position Rat)} {sec : Section Rat}
    (hLeads : sec.Leads s.horizontal source target handle between)
    (hPoints : (sec.start :: (between ++ [sec.finish])).Pairwise
      fun p q => R (s.front p) (s.front q)) : (sec.points.map s.front).Pairwise R := by
  have : IsTrans Rat R := ⟨hR.trans⟩
  have hLine := isChain_front_bends hR between sec.finish (hR.refl _) hPoints.isChain
  rw [← hLeads.bends, ← List.isChain_map, List.isChain_iff_pairwise] at hLine
  exact hLine

theorem Plan.forall₂_drawing (p : Plan Rat) (horizontal : Bool) (children : List (Child Rat κ))
    {R : Link κ → OrientedRoute → Prop} {edges : List (Link κ)}
    (hRoutes : List.Forall₂ R edges p.routes) : List.Forall₂ (fun l e => e.link = l ∧
      ∃ route, R l route ∧
        e.sections = sectionsOf horizontal p.boxes route.route (p.layered.chainOf route))
      edges (p.drawing horizontal children edges).edges :=
  forall₂_map_zip hRoutes fun _ route hRoute => ⟨rfl, route, hRoute, rfl⟩

theorem forall₂_routes_planOf {request : Request Rat κ} {r : Resolved Rat}
    (hRead : resolveRequest request = .ok r) : List.Forall₂ (fun l route =>
      route ∈ (planOf r).routes ∧ readLink r.boxes (handleOwners r.boxes) l = .ok route.route)
      request.edges (planOf r).routes := by
  have hRoutes : (planOf r).routes.map OrientedRoute.route = r.routes := by
    change (orient r.boxes r.routes).map OrientedRoute.route = r.routes
    rw [orient, List.map_map]
    exact List.map_id _
  have hLinks := (forall₂_of_mapM_eq_ok (resolveRequest_eq_ok hRead).2).flip
  rw [← hRoutes, List.forall₂_map_left_iff] at hLinks
  exact ((List.forall₂_and_left _ _).mpr ⟨fun _ hRoute => hRoute, hLinks⟩).flip

section Drawn

variable {request : Request Rat κ} (h : request.Regular) (hFree : ∀ c ∈ request.children, c.Free)
  {r : Resolved Rat} (hRead : resolveRequest request = .ok r)

include h hFree hRead

theorem Request.Regular.runsOneWay {route : OrientedRoute} (hRoute : route ∈ (planOf r).routes)
    {sec : Section Rat} (hSec : sec ∈ sectionsOf r.spacing.horizontal (planOf r).boxes route.route
      ((planOf r).layered.chainOf route)) : sec.RunsOneWay r.spacing route.turned := by
  obtain ⟨hLoop, source, target, hSource, hTarget, hLeads⟩ := leads_of_mem_sectionsOf hSec
  have hComplete := complete_planOf (wellRouted_of_resolveRequest hRead)
  have hAbreast := hLeads.abreast (s := r.spacing) (h.roomy_planOf hRead) hSource hTarget
    (hComplete.passed route hRoute)
  have hLayers := (wellRouted_of_resolveRequest hRead).pairwise_route (h.plain_keys hRead) hRoute
    hLoop
  have hPlaced : ∀ n ∈ route.route.source :: ((planOf r).layered.chainOf route ++
      [route.route.target]), n ∈ (planOf r).layered.layers.keys := by
    intro n hn
    rw [List.mem_cons, List.mem_append, List.mem_singleton] at hn
    rcases hn with rfl | hIn | rfl
    · exact hComplete.layered _ (hComplete.routed route hRoute).1
    · exact hComplete.housed.mem_of_mem_chainOf hIn
    · exact hComplete.layered _ (hComplete.routed route hRoute).2
  obtain ⟨_, hGap⟩ := h.gaps hRead
  have hStep : ∀ p q m n, Abreast r.spacing (planOf r).boxes p m →
      Abreast r.spacing (planOf r).boxes q n → m ∈ (planOf r).layered.layers.keys →
      n ∈ (planOf r).layered.layers.keys → (planOf r).layerOf m < (planOf r).layerOf n →
      r.spacing.front p ≤ r.spacing.front q := by
    rintro p q m n ⟨b, hb, _, hp⟩ ⟨c, hc, hq, _⟩ hm hn hLess
    have := h.ahead hRead hFree hm hn hLess b c hb hc
    linarith
  unfold Section.RunsOneWay
  cases hTurned : route.turned with
  | false =>
    rw [hTurned] at hLayers
    refine hLeads.pairwise_front midway_le (pairwise_of_abreast hAbreast hLayers ?_)
    exact fun p q m n hp hq hm hn hLess =>
      hStep p q m n hp hq (hPlaced m hm) (hPlaced n hn) hLess
  | true =>
    rw [hTurned] at hLayers
    refine hLeads.pairwise_front midway_ge (pairwise_of_abreast hAbreast hLayers ?_)
    exact fun p q m n hp hq hm hn hLess =>
      hStep q p n m hq hp (hPlaced n hn) (hPlaced m hm) hLess

end Drawn

/-- Where no child keeps a place of its own, the line of each edge between two children runs one way
along the flow: forward, or backward if the edge was turned for the sake of a cycle. -/
theorem edges_run_one_way {request : Request Rat κ} (h : request.Regular)
    (hFree : ∀ c ∈ request.children, c.Free) {drawing : Drawing Rat κ}
    (hDraw : draw request = .ok drawing) : ∃ r, resolveRequest request = .ok r ∧
      List.Forall₂ (fun l e => e.link = l ∧ ∃ route ∈ (planOf r).routes,
        readLink r.boxes (handleOwners r.boxes) l = .ok route.route ∧
          (route.route.source ≠ route.route.target →
            ∃ sec, e.sections = [sec] ∧ sec.RunsOneWay r.spacing route.turned))
        request.edges drawing.edges := by
  obtain ⟨r, hRead, rfl⟩ := draw_eq_ok_iff.mp hDraw
  have hEdges := (planOf r).forall₂_drawing r.spacing.horizontal request.children
    (forall₂_routes_planOf hRead)
  refine ⟨r, hRead, hEdges.imp ?_⟩
  rintro l e ⟨hSame, route, ⟨hRoute, hLink⟩, hSections⟩
  refine ⟨hSame, route, hRoute, hLink, fun hNoLoop => ?_⟩
  obtain ⟨sec, hSec, _⟩ :=
    (follows_sectionsOf hRead hLink ((planOf r).layered.chainOf route)).2 hNoLoop
  dsimp only at hSec
  refine ⟨sec, hSections.trans hSec, h.runsOneWay hFree hRead hRoute ?_⟩
  rw [hSec]
  exact List.mem_singleton_self sec

/-- Of three boxes in a cycle, one edge is turned and passes the layer of the box between its ends,
which is thicker than its dummy. -/
theorem edges_of_cycle_run_one_way :
    let child (id : String) (size : Rat) : Child Rat Unit :=
      ⟨some id, none, none, some (.number size), some (.number size), [], ()⟩
    let edge (source target : String) : Link Unit := ⟨.absent, [.text source], [.text target], ()⟩
    let request : Request Rat Unit := ⟨[], [child "A" 10, child "B" 40, child "C" 20],
      [edge "A" "B", edge "B" "C", edge "C" "A", edge "B" "A"]⟩
    ∃ r drawing, resolveRequest request = .ok r ∧ draw request = .ok drawing ∧
      List.Forall₂ (fun l e => e.link = l ∧ ∃ route ∈ (planOf r).routes,
        readLink r.boxes (handleOwners r.boxes) l = .ok route.route ∧
          (route.route.source ≠ route.route.target →
            ∃ sec, e.sections = [sec] ∧ sec.RunsOneWay r.spacing route.turned))
        request.edges drawing.edges := by
  intro child edge request
  have hResolves : (resolveRequest request).isOk = true := by decide +kernel
  have hRegular : request.Regular := by decide +kernel
  have hFree : ∀ c ∈ request.children, c.Free := by decide +kernel
  obtain ⟨drawing, hDraw⟩ := exists_draw_eq_ok hResolves
  obtain ⟨r, hRead, hEdges⟩ := edges_run_one_way hRegular hFree hDraw
  exact ⟨r, drawing, hRead, hDraw, hEdges⟩

end TypeDiagram.Layout
