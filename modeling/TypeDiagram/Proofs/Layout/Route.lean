import TypeDiagram.Proofs.Layout.Echo
import TypeDiagram.Proofs.Layout.Stack
import Mathlib.Algebra.Order.Field.Basic
import Mathlib.Data.List.Chain
import Mathlib.Tactic.NormNum

/-! # Edges are orthogonal lines between the sides of their boxes

The line of an edge goes from point to point with a pair of corners wherever two points are not
level, so the point before always stands level with the point that the line has got to. It leaves
its source by the side that the flow leaves by, at the handle that the edge names, and enters its
target in the middle of the side that the flow enters by. All this is about exact coordinates.
-/

namespace TypeDiagram.Layout

open Coordinate

/-! ## Corners -/

def Aligned (a b : Position Rat) : Prop := a.x = b.x ∨ a.y = b.y

def level (horizontal : Bool) (p : Position Rat) : Rat := if horizontal then p.y else p.x

variable {horizontal : Bool}

theorem aligned_of_level {a b : Position Rat} (h : level horizontal a = level horizontal b) :
    Aligned a b := by
  cases horizontal with
  | true => exact .inr h
  | false => exact .inl h

theorem corners_cases (horizontal : Bool) (a b : Position Rat) :
    corners horizontal a b = [] ∧ level horizontal a = level horizontal b ∨
      ∃ c d, corners horizontal a b = [c, d] ∧ level horizontal c = level horizontal a ∧
        Aligned c d ∧ level horizontal d = level horizontal b := by
  unfold corners
  cases horizontal with
  | true =>
    by_cases hLevel : a.y = b.y
    · exact .inl ⟨if_pos ((same_rat_iff _ _).mpr hLevel), hLevel⟩
    · exact .inr ⟨_, _, if_neg (mt (same_rat_iff _ _).mp hLevel), rfl, .inl rfl, rfl⟩
  | false =>
    by_cases hLevel : a.x = b.x
    · exact .inl ⟨if_pos ((same_rat_iff _ _).mpr hLevel), hLevel⟩
    · exact .inr ⟨_, _, if_neg (mt (same_rat_iff _ _).mp hLevel), rfl, .inr rfl, rfl⟩

/-- From a point level with `a`, the corners between `a` and `b` lead to the level of `b`. -/
theorem isChain_corners {a b q : Position Rat} {rest : List (Position Rat)}
    (hLevel : level horizontal q = level horizontal a)
    (hRest : ∀ p, level horizontal p = level horizontal b → (p :: rest).IsChain Aligned) :
    (q :: (corners horizontal a b ++ rest)).IsChain Aligned := by
  rcases corners_cases horizontal a b with ⟨hNone, hSame⟩ | ⟨c, d, hPair, hFirst, hBeside, hSecond⟩
  · rw [hNone, List.nil_append]
    exact hRest q (hLevel.trans hSame)
  · rw [hPair, List.cons_append, List.cons_append, List.nil_append, List.isChain_cons_cons,
      List.isChain_cons_cons]
    exact ⟨aligned_of_level (hLevel.trans hFirst.symm), hBeside, hRest d hSecond⟩

theorem isChain_bends (between : List (Position Rat)) (finish : Position Rat) {a q : Position Rat}
    (hLevel : level horizontal q = level horizontal a) :
    (q :: (bends horizontal (a :: (between ++ [finish])) ++ [finish])).IsChain Aligned := by
  induction between generalizing a q with
  | nil =>
    change (q :: (corners horizontal a finish ++ [] ++ [finish])).IsChain Aligned
    rw [List.append_nil]
    refine isChain_corners hLevel fun p hp => ?_
    exact List.isChain_pair.mpr (aligned_of_level hp)
  | cons b between ih =>
    rw [List.cons_append, bends, List.append_assoc]
    exact isChain_corners hLevel fun p hp => ih hp

/-! ## Handles -/

variable {κ : Type}

/-- How far along the side of a child the last handle of the given name stands. The handles are at
equal distances, in ascending order. -/
def Child.fraction? (c : Child Rat κ) (name : Name) : Option Rat :=
  (((sortHandles c.handles).map Handle.id).zipIdx.reverse.find? fun e => e.1 == some name).map
    fun e => ((e.2 + 1 : Nat) : Rat) / ((c.handles.length + 1 : Nat) : Rat)

/-- How far along its side a child lets out an edge from the given name: at the handle of this name,
else at a handle without a name, else in the middle. -/
def Child.exitFraction (c : Child Rat κ) (name : Name) : Rat :=
  (c.fraction? name <|> c.fraction? .null).getD (1 / 2)

theorem Child.fraction?_bounds {c : Child Rat κ} {name : Name} {f : Rat}
    (h : c.fraction? name = some f) : 0 < f ∧ f < 1 := by
  obtain ⟨⟨id, i⟩, hFind, rfl⟩ := Option.map_eq_some_iff.mp h
  have hSorted : (sortHandles c.handles).length = c.handles.length :=
    (List.mergeSort_perm _ _).length_eq
  have hLess : i < c.handles.length := by
    have hIndex := List.snd_lt_of_mem_zipIdx (List.mem_reverse.mp (List.mem_of_find?_eq_some hFind))
    rw [List.length_map, hSorted] at hIndex
    exact hIndex
  have hCount : (0 : Rat) < ((c.handles.length + 1 : Nat) : Rat) := by exact_mod_cast Nat.succ_pos _
  refine ⟨div_pos (by exact_mod_cast Nat.succ_pos i) hCount, (div_lt_one hCount).mpr ?_⟩
  exact_mod_cast Nat.succ_lt_succ hLess

theorem Child.exitFraction_bounds (c : Child Rat κ) (name : Name) :
    0 < c.exitFraction name ∧ c.exitFraction name < 1 := by
  unfold exitFraction
  cases hOwn : c.fraction? name with
  | some f => exact fraction?_bounds hOwn
  | none =>
    cases hNull : c.fraction? .null with
    | some f => exact fraction?_bounds hNull
    | none => exact ⟨by norm_num, by norm_num⟩

theorem get?_readHandles {c : Child Rat κ} {fractions : OrderedMap Name Rat}
    (h : readHandles c.handles = .ok fractions) (name : Name) :
    fractions.get? name = c.fraction? name := by
  obtain ⟨ids, hIds, h⟩ := bind_eq_ok_iff.mp h
  cases h
  have hNames : (sortHandles c.handles).map Handle.id = ids.map some := by
    rw [← List.forall₂_eq_eq_eq, List.forall₂_map_left_iff, List.forall₂_map_right_iff]
    refine (forall₂_of_mapM_eq_ok hIds).imp fun p id hp => ?_
    cases hId : p.id with
    | none =>
      rw [hId] at hp
      cases hp
    | some other =>
      rw [hId] at hp
      exact congrArg some (Except.ok.inj hp)
  rw [Child.fraction?, hNames, OrderedMap.get?_ofList, List.zipIdx_map, ← List.map_reverse,
    ← List.map_reverse, List.find?_map, List.find?_map, Option.map_map, Option.map_map]
  rfl

/-! ## Sections -/

/-- The point by which an edge leaves a child, the given fraction along the side that the flow
leaves by. -/
def PlacedChild.exit (horizontal : Bool) (fraction : Rat) (p : PlacedChild Rat κ) : Position Rat :=
  if horizontal then
    ⟨p.position.x + p.size.width, p.position.y + p.size.height * fraction⟩
  else ⟨p.position.x + p.size.width * fraction, p.position.y + p.size.height⟩

def PlacedChild.entry (horizontal : Bool) (p : PlacedChild Rat κ) : Position Rat :=
  if horizontal then ⟨p.position.x, p.position.y + p.size.height / 2⟩
  else ⟨p.position.x + p.size.width / 2, p.position.y⟩

/-- The section is an orthogonal line from the side of one child to that of another. -/
structure Section.Joins (horizontal : Bool) (fraction : Rat) (a b : PlacedChild Rat κ)
    (s : Section Rat) : Prop where
  orthogonal : (s.start :: (s.bends ++ [s.finish])).IsChain Aligned
  inside : 0 < fraction ∧ fraction < 1
  start : s.start = a.exit horizontal fraction
  finish : s.finish = b.entry horizontal

/-- The edge is drawn as its route runs: not at all if it returns to the child it leaves, else by
one section between its children. -/
def RoutedLink.Follows (horizontal : Bool) (children : List (PlacedChild Rat κ)) (route : Route)
    (e : RoutedLink Rat κ) : Prop :=
  (route.source = route.target → e.sections = []) ∧
  (route.source ≠ route.target → ∃ s, e.sections = [s] ∧
    ∃ name, e.link.sources.head? = some name ∧
    ∃ a ∈ children, a.child.id = some route.source ∧
    ∃ b ∈ children, b.child.id = some route.target ∧
      s.Joins horizontal (a.child.exitFraction name) a b)

theorem exitPoint_of_no_extent {b : Box Rat} (h : b.size = ⟨0, 0⟩) (f g : Rat) :
    exitPoint horizontal b f = exitPoint horizontal b g := by
  unfold exitPoint
  rw [h, zero_mul, zero_mul]

section Drawn

variable {request : Request Rat κ} {r : Resolved Rat} (hRead : resolveRequest request = .ok r)

include hRead

theorem exists_placedChild {id : String} (hId : id ∈ r.boxes.keys) :
    ∃ c ∈ request.children, ∃ old b, c.id = some id ∧ BoxOf c id old ∧ r.boxes.get? id = some old ∧
      (planOf r).boxes.get? id = some b ∧
      placedChild (planOf r).boxes c = ⟨c, b.position, b.size⟩ ∧
      (b.handles = old.handles ∨ b.size = ⟨0, 0⟩) := by
  obtain ⟨old, hOld⟩ := OrderedMap.mem_keys_iff_exists.mp hId
  obtain ⟨c, hc, hBox⟩ := exists_child_of_get? (resolveRequest_eq_ok hRead).1 hOld
  obtain ⟨b, hb, hSpared, hTaken⟩ := (wellRouted_of_resolveRequest hRead).box_of_planOf hOld
  refine ⟨c, hc, old, b, hBox.id, hBox, hOld, hb, placedChild_of_get? hBox.id hb, ?_⟩
  by_cases hPassed : (planOf r).Passes id
  · exact .inr (hTaken hPassed)
  · exact .inl (hSpared hPassed).2.2

theorem follows_sectionsOf {l : Link κ} {route : Route}
    (hLink : readLink r.boxes (handleOwners r.boxes) l = .ok route) (chain : List String) :
    RoutedLink.Follows r.spacing.horizontal
      (request.children.map (placedChild (planOf r).boxes)) route
      ⟨l, sectionsOf r.spacing.horizontal (planOf r).boxes route chain⟩ := by
  obtain ⟨hSource, hTarget⟩ := readLink_ends hLink
  obtain ⟨c, hc, old, b, hId, hBox, hOld, hb, hPlaced, hHandles⟩ := exists_placedChild hRead hSource
  obtain ⟨c', hc', _, b', hId', _, _, hb', hPlaced', _⟩ := exists_placedChild hRead hTarget
  unfold sectionsOf
  rw [hb, hb']
  constructor
  · intro hLoop
    exact if_pos (beq_iff_eq.mpr hLoop)
  · intro hNoLoop
    obtain ⟨name, hName, hFraction⟩ :=
      fraction_of_readLink (wellRouted_of_resolveRequest hRead).distinct hLink hOld
    rw [get?_readHandles hBox.handles, get?_readHandles hBox.handles] at hFraction
    refine ⟨_, if_neg (mt beq_iff_eq.mp hNoLoop), name, hName,
      _, List.mem_map_of_mem hc, ?_, _, List.mem_map_of_mem hc', ?_, ?_⟩
    · rw [placedChild_child, hId]
    · rw [placedChild_child, hId']
    rw [hPlaced, hPlaced']
    refine ⟨isChain_bends _ _ rfl, c.exitFraction_bounds name, ?_, rfl⟩
    have hStart : exitPoint r.spacing.horizontal b (b.fraction route.handle) =
        exitPoint r.spacing.horizontal b (c.exitFraction name) := by
      rcases hHandles with hSame | hPoint
      · rw [Box.fraction, hSame]
        exact congrArg _ hFraction
      · exact exitPoint_of_no_extent hPoint _ _
    exact hStart

end Drawn

/-- Each edge of a request is drawn as the route that it is read as runs: its section begins on the
side of its source at the handle that it names, ends in the middle of the side of its target, and is
orthogonal in between, forward or backward and however many layers it passes. -/
theorem edges_join_children {request : Request Rat κ} {drawing : Drawing Rat κ}
    (hDraw : draw request = .ok drawing) : ∃ r, resolveRequest request = .ok r ∧
      List.Forall₂ (fun l e => e.link = l ∧
        ∃ route, readLink r.boxes (handleOwners r.boxes) l = .ok route ∧
          e.Follows (isHorizontal request.settings) drawing.children route)
        request.edges drawing.edges := by
  obtain ⟨r, hRead, rfl⟩ := draw_eq_ok_iff.mp hDraw
  refine ⟨r, hRead, ?_⟩
  rw [← horizontal_of_resolveRequest hRead]
  have hRoutes : (planOf r).routes.map OrientedRoute.route = r.routes := by
    change (orient r.boxes r.routes).map OrientedRoute.route = r.routes
    rw [orient, List.map_map]
    exact List.map_id _
  have hLinks := forall₂_of_mapM_eq_ok (resolveRequest_eq_ok hRead).2
  rw [← hRoutes, List.forall₂_map_right_iff] at hLinks
  exact forall₂_map_zip hLinks fun l route hLink =>
    ⟨rfl, route.route, hLink, follows_sectionsOf hRead hLink _⟩

/-- An edge between two children, from a child whose first handle has the name `null`. -/
def nullHandleRequest : Request Rat Unit :=
  let handle (id : Name) (order : Rat) : Handle Rat := ⟨some id, .number order, none⟩
  ⟨[("elk.direction", .string "RIGHT")],
    [⟨some "A", none, none, some (.number 100), some (.number 60),
        [handle .null 0, handle (.text "A-b") 1], ()⟩,
      ⟨some "B", none, none, some (.number 100), some (.number 40), [], ()⟩],
    [⟨.text "1", [.text "A"], [.text "B"], ()⟩]⟩

theorem isOk_resolveRequest_nullHandleRequest :
    (resolveRequest nullHandleRequest).isOk = true := by
  cbv

theorem edges_join_children_of_null_handle :
    ∃ r drawing, resolveRequest nullHandleRequest = .ok r ∧ draw nullHandleRequest = .ok drawing ∧
      List.Forall₂ (fun l e => e.link = l ∧
        ∃ route, readLink r.boxes (handleOwners r.boxes) l = .ok route ∧
          e.Follows (isHorizontal nullHandleRequest.settings) drawing.children route)
        nullHandleRequest.edges drawing.edges := by
  obtain ⟨drawing, hDraw⟩ := exists_draw_eq_ok isOk_resolveRequest_nullHandleRequest
  obtain ⟨r, hRead, hJoin⟩ := edges_join_children hDraw
  exact ⟨r, drawing, hRead, hDraw, hJoin⟩

/-- An edge that names no handle does not always begin in the middle: here it begins at a third. -/
theorem edge_without_handle_leaves_by_null_handle :
    ∃ drawing, draw nullHandleRequest = .ok drawing ∧
      ∃ a ∈ drawing.children, a.child.id = some "A" ∧ a.child.fraction? (.text "A") = none ∧
        ∃ e ∈ drawing.edges, e.link.sources = [.text "A"] ∧
          ∃ s ∈ e.sections, s.start ≠ a.exit true (1 / 2) := by
  obtain ⟨drawing, hDraw⟩ := exists_draw_eq_ok isOk_resolveRequest_nullHandleRequest
  have hDrawn : ((draw nullHandleRequest).toOption.bind fun d => do
      let a ← d.children.head?
      let e ← d.edges.head?
      let s ← e.sections.head?
      return (a.child.id, a.child.fraction? (.text "A"), e.link.sources, s.start.y,
        (a.exit true (1 / 2)).y)) = some (some "A", none, [.text "A"], 32, 42) := by cbv
  rw [hDraw, Except.toOption, Option.bind_some] at hDrawn
  obtain ⟨a, ha, hDrawn⟩ := Option.bind_eq_some_iff.mp hDrawn
  obtain ⟨e, he, hDrawn⟩ := Option.bind_eq_some_iff.mp hDrawn
  obtain ⟨s, hs, hDrawn⟩ := Option.bind_eq_some_iff.mp hDrawn
  simp only [pure, Option.some.injEq, Prod.mk.injEq] at hDrawn
  obtain ⟨hId, hNone, hSources, hStart, hMiddle⟩ := hDrawn
  refine ⟨drawing, hDraw, a, List.mem_of_mem_head? ha, hId, hNone, e, List.mem_of_mem_head? he,
    hSources, s, List.mem_of_mem_head? hs, fun hSame => ?_⟩
  rw [hSame, hMiddle] at hStart
  exact absurd hStart (by decide)

end TypeDiagram.Layout
