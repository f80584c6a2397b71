import TypeDiagram.Proofs.Layout.Drawing

/-! # Loops and repeated edges leave a drawing as it is

An edge from a box to itself and an edge between ends that an earlier edge already joined add no arc
to either graph: the first route between two boxes decides. So the drawing without them has all
boxes where they were, and the same lines for the edges that are left.
-/

namespace TypeDiagram.Layout

namespace Route

def ends (r : Route) : String × String := (r.source, r.target)

end Route

/-- The elements whose routes are no loops and do not run between ends that were seen before. -/
def essential {β : Type} (routeOf : β → Route) (seen : List (String × String)) : List β → List β
  | [] => []
  | x :: xs =>
    if (routeOf x).isLoop || seen.contains (routeOf x).ends then essential routeOf seen xs
    else x :: essential routeOf ((routeOf x).ends :: seen) xs

/-- Of elements in step with routes, those that the first route between two boxes belongs to. -/
def withoutRepetition {β : Type} (routes : List Route) (xs : List β) : List β :=
  (essential Prod.snd [] (xs.zip routes)).map Prod.fst

section Essential

variable {β γ : Type}

theorem essential_map (routeOf : γ → Route) (f : β → γ) (seen : List (String × String))
    (xs : List β) :
    essential routeOf seen (xs.map f) = (essential (fun x => routeOf (f x)) seen xs).map f := by
  induction xs generalizing seen with
  | nil => rfl
  | cons x xs ih =>
    rw [List.map_cons, essential, essential]
    split
    · exact ih seen
    · rw [List.map_cons, ih]

theorem essential_sublist (routeOf : β → Route) (seen : List (String × String)) (xs : List β) :
    (essential routeOf seen xs).Sublist xs := by
  induction xs generalizing seen with
  | nil => exact .slnil
  | cons x xs ih =>
    rw [essential]
    split
    · exact (ih _).cons x
    · exact (ih _).cons_cons x

theorem not_isLoop_of_mem_essential {routeOf : β → Route} {seen : List (String × String)}
    {xs : List β} {x : β} (h : x ∈ essential routeOf seen xs) : (routeOf x).isLoop = false := by
  induction xs generalizing seen with
  | nil => cases h
  | cons y xs ih =>
    rw [essential] at h
    split at h
    · exact ih h
    · rename_i hKept
      rcases List.mem_cons.mp h with rfl | hLater
      · exact (Bool.or_eq_false_iff.mp (Bool.eq_false_iff.mpr hKept)).1
      · exact ih hLater

/-- Arcs whose ends depend on the ends of their routes are added by the essential elements alone. -/
theorem foldl_addArc_essential {α : Type} (routeOf : β → Route) (arcOf : β → Arc α) {xs : List β}
    (hEnds : ∀ x ∈ xs, ∀ y ∈ xs, (routeOf x).ends = (routeOf y).ends →
      (arcOf x).ends = (arcOf y).ends)
    {seen : List (String × String)} {g : Digraph α}
    (hSeen : ∀ x ∈ xs, (routeOf x).ends ∈ seen → (arcOf x).ends ∈ g.arcs.map Arc.ends) :
    (essential routeOf seen xs).foldl (fun g x => g.addArc (arcOf x)) g =
      (xs.filter fun x => !(routeOf x).isLoop).foldl (fun g x => g.addArc (arcOf x)) g := by
  induction xs generalizing seen g with
  | nil => rfl
  | cons x xs ih =>
    have hLater : ∀ y ∈ xs, y ∈ x :: xs := fun y hy => List.mem_cons_of_mem x hy
    have ih := @ih fun y hy z hz => hEnds y (hLater y hy) z (hLater z hz)
    have hOld := fun y hy => hSeen y (hLater y hy)
    rw [essential]
    cases hLoop : (routeOf x).isLoop with
    | true =>
      rw [List.filter_cons_of_neg (by simp [hLoop])]
      exact ih hOld
    | false =>
      rw [List.filter_cons_of_pos (by simp [hLoop]), List.foldl_cons]
      by_cases hIn : (routeOf x).ends ∈ seen
      · have hJoined := hSeen x List.mem_cons_self hIn
        have hStays : g.addArc (arcOf x) = g := by
          unfold Digraph.addArc
          rw [if_pos]
          exact (g.arc?_isSome_iff _ _).mpr ((g.joins_iff_mem_ends _ _).mpr hJoined)
        rw [hStays, if_pos (by simp [hIn])]
        exact ih hOld
      · rw [if_neg (by simp [hIn]), List.foldl_cons]
        refine ih fun y hy hSeen => ?_
        change (_, _) ∈ _
        rw [← Digraph.joins_iff_mem_ends]
        rcases List.mem_cons.mp hSeen with hSame | hBefore
        · have hArc := hEnds x List.mem_cons_self y (hLater y hy) hSame.symm
          obtain ⟨hSource, hTarget⟩ := Prod.mk.inj hArc
          rw [← hSource, ← hTarget]
          exact g.joins_addArc (arcOf x)
        · exact ((g.joins_iff_mem_ends _ _).mpr (hOld y hy hBefore)).addArc (arcOf x)

end Essential

variable {α : Type} [Coordinate α]

/-! ## The two graphs -/

theorem filter_essential {β : Type} (routeOf : β → Route) (seen : List (String × String))
    (xs : List β) : ((essential routeOf seen xs).filter fun x => !(routeOf x).isLoop) =
      essential routeOf seen xs :=
  List.filter_eq_self.mpr fun _ hx => by rw [not_isLoop_of_mem_essential hx]; rfl

theorem routeGraph_essential (boxes : Boxes α) (routes : List Route) :
    routeGraph boxes (essential id [] routes) = routeGraph boxes routes := by
  unfold routeGraph
  rw [show ((essential id [] routes).filter fun r => !r.isLoop) = essential id [] routes from
    filter_essential id [] routes]
  let arcOf (r : Route) : Arc α := ⟨r.source, r.target, Coordinate.half⟩
  exact foldl_addArc_essential id arcOf (fun _ _ _ _ hSame => hSame) nofun

theorem orient_essential (boxes : Boxes α) (routes : List Route) :
    orient boxes (essential id [] routes) =
      essential OrientedRoute.route [] (orient boxes routes) := by
  unfold orient
  rw [routeGraph_essential, essential_map]
  rfl

theorem orientedGraph_essential (boxes : Boxes α) (routes : List Route) :
    orientedGraph boxes (essential OrientedRoute.route [] (orient boxes routes)) =
      orientedGraph boxes (orient boxes routes) := by
  unfold orientedGraph
  rw [filter_essential]
  refine foldl_addArc_essential _ _ (fun x hx y hy hSame => ?_) nofun
  obtain ⟨_, hx⟩ := mem_orient_iff.mp hx
  obtain ⟨_, hy⟩ := mem_orient_iff.mp hy
  obtain ⟨hSource, hTarget⟩ := Prod.mk.inj hSame
  have hTurned : x.turned = y.turned := by
    rw [hx, hy, hSource, hTarget, Route.isLoop, Route.isLoop, hSource, hTarget]
  simp only [Arc.ends, OrientedRoute.upper, OrientedRoute.lower, hTurned, hSource, hTarget]

theorem planOf_essential (r : Resolved α) :
    planOf { r with routes := essential id [] r.routes } =
      { planOf r with routes := essential OrientedRoute.route [] (planOf r).routes } := by
  unfold planOf
  dsimp only
  rw [orient_essential, orientedGraph_essential]

/-! ## Requests -/

variable {κ : Type}

omit [Coordinate α]

theorem withoutRepetition_map {β γ : Type} (routeOf : γ → Route) (f : γ → β) (zs : List γ) :
    withoutRepetition (zs.map routeOf) (zs.map f) = (essential routeOf [] zs).map f := by
  rw [withoutRepetition, List.zip_map', essential_map, List.map_map]
  rfl

theorem zip_withoutRepetition {β γ : Type} {xs : List β} {ys : List γ} (routeOf : γ → Route)
    (h : xs.length = ys.length) :
    (withoutRepetition (ys.map routeOf) xs).zip (essential routeOf [] ys) =
      essential (fun e => routeOf e.2) [] (xs.zip ys) := by
  obtain ⟨zs, rfl, rfl⟩ : ∃ zs : List (β × γ), xs = zs.map Prod.fst ∧ ys = zs.map Prod.snd :=
    ⟨xs.zip ys, (List.map_fst_zip h.le).symm, (List.map_snd_zip h.ge).symm⟩
  have hSame : (fun z : β × γ => (z.1, z.2)) = id := rfl
  rw [List.map_map, withoutRepetition_map, essential_map]
  change (List.map _ (essential (fun z => routeOf z.2) [] zs)).zip _ = _
  rw [List.zip_map', List.zip_map', hSame, List.map_id, List.map_id]

theorem readLinks_withoutRepetition {boxes : Boxes α} {edges : List (Link κ)} {routes : List Route}
    (h : readLinks boxes edges = .ok routes) :
    readLinks boxes (withoutRepetition routes edges) = .ok (essential id [] routes) := by
  have hRead := forall₂_of_mapM_eq_ok h
  have hKept : ∀ e ∈ essential Prod.snd [] (edges.zip routes),
      readLink boxes (handleOwners boxes) e.1 = .ok e.2 := fun e he =>
    List.forall₂_iff_zip.mp hRead |>.2 ((essential_sublist _ _ _).subset he)
  have hRoutes : essential id [] routes =
      (essential Prod.snd [] (edges.zip routes)).map Prod.snd := by
    conv_lhs => rw [← List.map_snd_zip hRead.length_eq.ge]
    exact essential_map id Prod.snd [] _
  rw [readLinks, withoutRepetition, List.mapM_map, hRoutes]
  exact mapM_eq_ok hKept

variable [Coordinate α]

theorem resolveRequest_withoutRepetition {request : Request α κ} {r : Resolved α}
    (h : resolveRequest request = .ok r) :
    resolveRequest { request with edges := withoutRepetition r.routes request.edges } =
      .ok { r with routes := essential id [] r.routes } := by
  obtain ⟨hChildren, hLinks⟩ := resolveRequest_eq_ok h
  have hSpacing := readSpacing_of_resolveRequest h
  exact resolveRequest_eq_ok_iff.mpr ⟨hSpacing, hChildren, readLinks_withoutRepetition hLinks⟩

theorem Plan.drawing_withoutRepetition (p : Plan α) (horizontal : Bool)
    (children : List (Child α κ)) {edges : List (Link κ)} (h : edges.length = p.routes.length) :
    let routes := p.routes.map OrientedRoute.route
    let d := p.drawing horizontal children edges
    { p with routes := essential OrientedRoute.route [] p.routes }.drawing horizontal children
      (withoutRepetition routes edges) = { d with edges := withoutRepetition routes d.edges } := by
  intro routes d
  have hRoutes : routes = (edges.zip p.routes).map fun e => e.2.route := by
    change _ = (edges.zip p.routes).map (OrientedRoute.route ∘ Prod.snd)
    rw [← List.map_map, List.map_snd_zip h.ge]
  simp only [d, Plan.drawing, routes, zip_withoutRepetition OrientedRoute.route h]
  change Drawing.mk _ _ _ = Drawing.mk _ _ (withoutRepetition routes _)
  rw [hRoutes, withoutRepetition_map]

/-- The drawing of a request without its loops and repeated edges is the drawing of the request
without the lines of these edges. -/
theorem draw_withoutRepetition {request : Request α κ} {d : Drawing α κ}
    (h : draw request = .ok d) : ∃ r, resolveRequest request = .ok r ∧
      draw { request with edges := withoutRepetition r.routes request.edges } =
        .ok { d with edges := withoutRepetition r.routes d.edges } := by
  obtain ⟨r, hRead, rfl⟩ := draw_eq_ok_iff.mp h
  have hRoutes : (planOf r).routes.map OrientedRoute.route = r.routes := by
    change (r.routes.map _).map _ = _
    rw [List.map_map]
    exact List.map_id _
  have hDrawing := (planOf r).drawing_withoutRepetition r.spacing.horizontal request.children
    (length_routes_planOf hRead).symm
  rw [hRoutes, ← planOf_essential] at hDrawing
  exact ⟨r, hRead, draw_eq_ok_iff.mpr ⟨_, resolveRequest_withoutRepetition hRead, hDrawing⟩⟩

/-- Two boxes that lead to each other and to themselves, one of the edges twice and once more from a
handle. -/
theorem draw_withoutRepetition_of_repeated_edges :
    let box (id : String) (handles : List (Handle Rat)) : Child Rat Unit :=
      ⟨some id, none, none, some (.number 40), some (.number 20), handles, ()⟩
    let edge (source target : String) : Link Unit := ⟨.absent, [.text source], [.text target], ()⟩
    let request : Request Rat Unit := ⟨[],
      [box "A" [⟨some (.text "A/1"), .number 0, none⟩], box "B" [], box "C" []],
      [edge "A" "A", edge "A/1" "B", edge "A" "B", edge "B" "A", edge "B" "C", edge "A/1" "C",
        edge "A/1" "B", edge "C" "C"]⟩
    ∃ d r, draw request = .ok d ∧ resolveRequest request = .ok r ∧
      (withoutRepetition r.routes request.edges).length = 4 ∧
      draw { request with edges := withoutRepetition r.routes request.edges } =
        .ok { d with edges := withoutRepetition r.routes d.edges } := by
  intro box edge request
  have hResolves : (resolveRequest request).isOk = true := by decide +kernel
  have hFour : (resolveRequest request).map (fun r =>
      (withoutRepetition r.routes request.edges).length) = .ok 4 := by decide +kernel
  obtain ⟨d, hDraw⟩ := exists_draw_eq_ok hResolves
  obtain ⟨r, hRead, hReduced⟩ := draw_withoutRepetition hDraw
  rw [hRead] at hFour
  exact ⟨d, r, hDraw, hRead, Except.ok.inj hFour, hReduced⟩

end TypeDiagram.Layout
