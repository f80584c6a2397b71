import TypeDiagram.Proofs.Layout.Course
import Mathlib.Order.Bounds.Basic

/-! # The frame of a drawing

Where no child keeps a place of its own, the whole drawing, dummies included, is moved so that
nothing stands before the padding. Its extent is the least that leaves the padding behind all
children. Dummies do not count for the extent: along the flow they stand between children, but
across the flow a line may follow one out of the frame.
-/

namespace TypeDiagram

namespace Coordinate

theorem min_le_rat (a b : Rat) : Coordinate.min a b ≤ a ∧ Coordinate.min a b ≤ b := by
  unfold Coordinate.min
  split
  · rename_i hLess
    exact ⟨((less_rat_iff b a).mp hLess).le, le_refl b⟩
  · rename_i hNotLess
    exact ⟨le_refl a, not_lt.mp (mt (less_rat_iff b a).mpr hNotLess)⟩

theorem minimum_le {as : List Rat} {a : Rat} (h : a ∈ as) : ∃ m, minimum? as = some m ∧ m ≤ a := by
  cases as with
  | nil => cases h
  | cons b as =>
    refine ⟨_, rfl, ?_⟩
    obtain ⟨hStart, hRest⟩ := Layout.le_foldl_of_le (β := Ratᵒᵈ) min_le_rat as b
    rcases List.mem_cons.mp h with rfl | hLater
    · exact hStart
    · exact hRest a hLater

theorem max_eq_or_rat (a b : Rat) : Coordinate.max a b = a ∨ Coordinate.max a b = b := by
  unfold Coordinate.max
  split
  · exact .inr rfl
  · exact .inl rfl

theorem maximum_mem {as : List Rat} (h : as ≠ []) (standard : Rat) :
    (maximum? as).getD standard ∈ as := by
  have hFold : ∀ (as : List Rat) (a : Rat), as.foldl Coordinate.max a ∈ a :: as := by
    intro as
    induction as with
    | nil => exact fun a => List.mem_singleton_self a
    | cons b as ih =>
      intro a
      rw [List.foldl_cons]
      rcases List.mem_cons.mp (ih (Coordinate.max a b)) with hFirst | hLater
      · rw [hFirst]
        rcases max_eq_or_rat a b with hSame | hSame <;> rw [hSame] <;> simp
      · exact List.mem_cons_of_mem a (List.mem_cons_of_mem b hLater)
  cases as with
  | nil => exact absurd rfl h
  | cons a as => exact hFold as a

theorem isLeast_maximum_add {as : List Rat} (h : as ≠ []) (standard room : Rat) :
    IsLeast {w | ∀ a ∈ as, a ≤ w - room} ((maximum? as).getD standard + room) := by
  constructor
  · intro a ha
    have := le_maximum ha standard
    linarith
  · intro w hw
    have := hw _ (maximum_mem h standard)
    linarith

end Coordinate

namespace Layout

open Coordinate

variable {κ : Type}

/-! ## Nothing stands before the padding -/

theorem padding_le_normalise {boxes : Boxes Rat} {n : String} {b : Box Rat}
    (hb : (normalise boxes).get? n = some b) :
    padding ≤ b.position.x ∧ padding ≤ b.position.y := by
  obtain ⟨position, hOld⟩ := (normalise_moved boxes).eq_some_of_eq_some hb
  have hIn : { b with position } ∈ boxes.values :=
    List.mem_map.mpr ⟨_, OrderedMap.mem_entries_of_get? hOld, rfl⟩
  obtain ⟨x, hx, hLeft⟩ := minimum_le (List.mem_map_of_mem (f := fun b => b.position.x) hIn)
  obtain ⟨y, hy, hTop⟩ := minimum_le (List.mem_map_of_mem (f := fun b => b.position.y) hIn)
  unfold normalise at hb
  rw [hx, hy] at hb
  dsimp only at hb hLeft hTop
  rw [OrderedMap.get?_mapValues, hOld, Option.map_some, Option.some.injEq] at hb
  rw [← hb]
  dsimp only
  constructor <;> linarith

/-! ## Children and their boxes -/

def Boxes.real (boxes : Boxes Rat) : List (Box Rat) :=
  (boxes.entries.filter fun e => !isDummy e.1).map Prod.snd

theorem Boxes.mem_real_iff {boxes : Boxes Rat} (h : boxes.keys.Nodup) (b : Box Rat) :
    b ∈ boxes.real ↔ ∃ id, isDummy id = false ∧ boxes.get? id = some b := by
  simp only [real, List.mem_map, List.mem_filter, Bool.not_eq_true', Prod.exists]
  constructor
  · rintro ⟨id, _, ⟨hEntry, hPlain⟩, rfl⟩
    exact ⟨id, hPlain, OrderedMap.get?_eq_some_of_mem h hEntry⟩
  · rintro ⟨id, hPlain, hb⟩
    exact ⟨id, b, ⟨OrderedMap.mem_entries_of_get? hb, hPlain⟩, rfl⟩

theorem mem_keys_of_plain {r : Resolved Rat} {id : String} {b : Box Rat}
    (hb : (planOf r).boxes.get? id = some b) (hPlain : isDummy id = false) :
    id ∈ r.boxes.keys := by
  rw [planOf_boxes] at hb
  obtain ⟨_, hLayered⟩ := (place_moved _ _ _).eq_some_of_eq_some hb
  have hKeys : ∀ n ∈ (planOf r).layered.boxes.keys, isDummy n = false → n ∈ r.boxes.keys := by
    refine Layered.ofGraph_induction
      (P := fun boxes _ => ∀ n ∈ boxes.keys, isDummy n = false → n ∈ r.boxes.keys)
      (fun n hn _ => hn) ?_
    intro boxes _ dummy _ _ hDummy ih n hn hReal
    rcases (OrderedMap.mem_keys_insert _ _ _ _).mp hn with rfl | hOld
    · rw [hReal] at hDummy
      cases hDummy
    · exact ih n hOld hReal
  exact hKeys id (OrderedMap.mem_keys_of_get? hLayered) hPlain

section Drawn

variable {request : Request Rat κ} (h : request.Regular) (hFree : ∀ c ∈ request.children, c.Free)
  {r : Resolved Rat} (hRead : resolveRequest request = .ok r)

include h hFree hRead

theorem Request.Regular.mem_map_real_iff (f : Position Rat → Size Rat → Rat) (a : Rat) :
    a ∈ ((planOf r).boxes.real.map fun b => f b.position b.size) ↔
      ∃ c ∈ request.children.map (placedChild (planOf r).boxes), f c.position c.size = a := by
  have hUnplaced := h.unplaced hFree
  have hNodup : (planOf r).boxes.keys.Nodup := by
    rw [hUnplaced.boxes_eq hRead]
    exact nodup_keys_arrangedBoxes hRead
  rw [List.mem_map]
  constructor
  · rintro ⟨b, hReal, rfl⟩
    obtain ⟨id, hPlain, hb⟩ := (Boxes.mem_real_iff hNodup b).mp hReal
    obtain ⟨c, hc, _, b', _, _, _, hb', hPlaced, _⟩ :=
      exists_placedChild hRead (mem_keys_of_plain hb hPlain)
    obtain rfl := Option.some.inj (hb.symm.trans hb')
    exact ⟨_, List.mem_map_of_mem hc, by rw [hPlaced]⟩
  · rintro ⟨_, hPlace, rfl⟩
    obtain ⟨c, hc, rfl⟩ := List.mem_map.mp hPlace
    obtain ⟨id, b, _, hPlain, hb, _, _, hPlaced⟩ := hUnplaced.exists_box hRead hc
    exact ⟨b, (Boxes.mem_real_iff hNodup b).mpr ⟨id, hPlain, hb⟩, by rw [hPlaced]⟩

theorem Request.Regular.isLeast_reach (hSome : request.children ≠ [])
    (f : Position Rat → Size Rat → Rat) :
    IsLeast {w | ∀ c ∈ request.children.map (placedChild (planOf r).boxes),
        f c.position c.size ≤ w - padding}
      ((maximum? ((planOf r).boxes.real.map fun b => f b.position b.size)).getD (nat 0) +
        padding) := by
  have hReal : ((planOf r).boxes.real.map fun b => f b.position b.size) ≠ [] := by
    obtain ⟨c, hc⟩ := List.exists_mem_of_ne_nil _ hSome
    have hPlace := List.mem_map_of_mem (f := placedChild (planOf r).boxes) hc
    exact List.ne_nil_of_mem ((h.mem_map_real_iff hFree hRead f _).mpr ⟨_, hPlace, rfl⟩)
  have hSame : {w : Rat | ∀ c ∈ request.children.map (placedChild (planOf r).boxes),
      f c.position c.size ≤ w - padding} =
        {w | ∀ a ∈ (planOf r).boxes.real.map fun b => f b.position b.size, a ≤ w - padding} := by
    ext w
    constructor
    · intro hw a ha
      obtain ⟨c, hc, rfl⟩ := (h.mem_map_real_iff hFree hRead f a).mp ha
      exact hw c hc
    · exact fun hw c hc => hw _ ((h.mem_map_real_iff hFree hRead f _).mpr ⟨c, hc, rfl⟩)
  rw [hSame]
  exact isLeast_maximum_add hReal _ _

theorem Request.Regular.padding_le_box {n : String} {b : Box Rat}
    (hb : (planOf r).boxes.get? n = some b) :
    padding ≤ b.position.x ∧ padding ≤ b.position.y := by
  rw [(h.unplaced hFree).boxes_eq hRead, arrangedBoxes, arranged] at hb
  exact padding_le_normalise hb

end Drawn

/-! ## Lines and their ends -/

structure PlacedChild.Covers (c : PlacedChild Rat κ) (p : Position Rat) : Prop where
  left : c.position.x ≤ p.x
  right : p.x ≤ c.position.x + c.size.width
  top : c.position.y ≤ p.y
  bottom : p.y ≤ c.position.y + c.size.height

section Covers

variable {c : PlacedChild Rat κ} (hWidth : 0 ≤ c.size.width) (hHeight : 0 ≤ c.size.height)
  (horizontal : Bool)

include hWidth hHeight

theorem PlacedChild.covers_exit {fraction : Rat} (hInside : 0 < fraction ∧ fraction < 1) :
    c.Covers (c.exit horizontal fraction) := by
  have hAcross : ∀ e : Rat, 0 ≤ e → 0 ≤ e * fraction ∧ e * fraction ≤ e := fun e he =>
    ⟨mul_nonneg he hInside.1.le, mul_le_of_le_one_right he hInside.2.le⟩
  have hx := hAcross _ hWidth
  have hy := hAcross _ hHeight
  unfold PlacedChild.exit
  cases horizontal <;> constructor <;> simp <;> linarith

theorem PlacedChild.covers_entry : c.Covers (c.entry horizontal) := by
  unfold PlacedChild.entry
  cases horizontal <;> constructor <;> simp <;> linarith

end Covers

theorem Section.RunsOneWay.between {s : Spacing Rat} {turned : Bool} {sec : Section Rat}
    (h : sec.RunsOneWay s turned) {p : Position Rat} (hp : p ∈ sec.points) :
    (s.front sec.start ≤ s.front p ∧ s.front p ≤ s.front sec.finish) ∨
      (s.front sec.finish ≤ s.front p ∧ s.front p ≤ s.front sec.start) := by
  have hEnds : ∀ {R : Rat → Rat → Prop} (_ : ∀ x, R x x),
      (sec.points.map s.front).Pairwise R →
        R (s.front sec.start) (s.front p) ∧ R (s.front p) (s.front sec.finish) := by
    intro R hRefl hRuns
    rw [List.pairwise_map] at hRuns
    constructor
    · rcases List.mem_cons.mp hp with rfl | hLater
      · exact hRefl _
      · exact (List.pairwise_cons.mp hRuns).1 p hLater
    · unfold Section.points at hp hRuns
      rw [← List.cons_append] at hp hRuns
      rcases List.mem_append.mp hp with hEarlier | hLast
      · exact (List.pairwise_append.mp hRuns).2.2 p hEarlier _ (List.mem_singleton_self _)
      · rw [List.mem_singleton.mp hLast]
        exact hRefl _
  cases turned with
  | false => exact .inl (hEnds (R := (· ≤ ·)) le_refl h)
  | true => exact .inr (hEnds (R := (· ≥ ·)) le_refl h).symm

/-- Across the flow, a line is where its ends and the points are that it leads through. -/
theorem Section.Leads.forall_flank_iff {s : Spacing Rat} {source target : Box Rat}
    {handle : Option Name} {between : List (Position Rat)} {sec : Section Rat}
    (h : sec.Leads s.horizontal source target handle between) {P : Rat → Prop}
    (hStart : P (s.flank sec.start)) (hFinish : P (s.flank sec.finish)) :
    (∀ p ∈ sec.points, P (s.flank p)) ↔ ∀ q ∈ between, P (s.flank q) := by
  constructor
  · intro hLine q hq
    obtain ⟨p, hp, hLevel⟩ := exists_bend_of_mem (s := s) between sec.finish rfl hq
    rw [← hLevel]
    refine hLine p ?_
    rw [← h.bends] at hp
    rw [Section.points, ← List.cons_append]
    exact List.mem_append_left _ hp
  · intro hBetween p hp
    obtain ⟨q, hq, hLevel⟩ : ∃ q ∈ sec.start :: (between ++ [sec.finish]),
        s.flank p = s.flank q := by
      rw [Section.points, List.mem_cons, List.mem_append, List.mem_singleton, h.bends] at hp
      rcases hp with rfl | hp | rfl
      · exact ⟨_, List.mem_cons_self, rfl⟩
      · exact exists_level_of_mem_bends hp
      · exact ⟨_, by simp, rfl⟩
    rw [hLevel]
    rw [List.mem_cons, List.mem_append, List.mem_singleton] at hq
    rcases hq with rfl | hq | rfl
    · exact hStart
    · exact hBetween q hq
    · exact hFinish

/-! ## The padding around children and lines -/

/-- The child is within the extent, with the padding around it. -/
structure PlacedChild.Inside (size : Size Rat) (c : PlacedChild Rat κ) : Prop where
  left : padding ≤ c.position.x
  right : c.position.x + c.size.width ≤ size.width - padding
  top : padding ≤ c.position.y
  bottom : c.position.y + c.size.height ≤ size.height - padding

/-- The coordinates, along and across the flow, of a point on a child that is within the extent. -/
theorem PlacedChild.Inside.bounds {size : Size Rat} {c : PlacedChild Rat κ} (h : c.Inside size)
    (s : Spacing Rat) {p : Position Rat} (hp : c.Covers p) :
    (padding ≤ s.front p ∧ s.front p ≤ s.lengthOf size - padding) ∧
      padding ≤ s.flank p ∧ s.flank p ≤ s.breadthOf size - padding := by
  have hx := And.intro (h.left.trans hp.left) (hp.right.trans h.right)
  have hy := And.intro (h.top.trans hp.top) (hp.bottom.trans h.bottom)
  unfold Spacing.front Spacing.flank Spacing.lengthOf Spacing.breadthOf
  cases s.horizontal with
  | true => exact ⟨hx, hy⟩
  | false => exact ⟨hy, hx⟩

section Framed

variable {request : Request Rat κ} (h : request.Regular) (hFree : ∀ c ∈ request.children, c.Free)
  {r : Resolved Rat} (hRead : resolveRequest request = .ok r)

include h hFree hRead

theorem Request.Regular.inside_extentOf {c : PlacedChild Rat κ}
    (hc : c ∈ request.children.map (placedChild (planOf r).boxes)) :
    c.Inside (extentOf (planOf r).boxes) ∧ 0 ≤ c.size.width ∧ 0 ≤ c.size.height := by
  have hSome : request.children ≠ [] := by
    rintro hNone
    rw [hNone] at hc
    cases hc
  have hRight := (h.isLeast_reach hFree hRead hSome fun p z => p.x + z.width).1 c hc
  have hBottom := (h.isLeast_reach hFree hRead hSome fun p z => p.y + z.height).1 c hc
  obtain ⟨child, hChild, rfl⟩ := List.mem_map.mp hc
  obtain ⟨_, b, _, _, hb, _, _, hPlaced⟩ := (h.unplaced hFree).exists_box hRead hChild
  obtain ⟨hLeft, hTop⟩ := h.padding_le_box hFree hRead hb
  rw [hPlaced] at hRight hBottom ⊢
  exact ⟨⟨hLeft, hRight, hTop, hBottom⟩, h.roomy_planOf hRead _ b hb⟩

theorem Request.Regular.exists_covers {l : Link κ} {route : Route}
    (hLink : readLink r.boxes (handleOwners r.boxes) l = .ok route) {chain : List String}
    {sec : Section Rat}
    (hSec : sec ∈ sectionsOf r.spacing.horizontal (planOf r).boxes route chain) :
    ∃ a b : PlacedChild Rat κ, a.Inside (extentOf (planOf r).boxes) ∧ a.Covers sec.start ∧
      b.Inside (extentOf (planOf r).boxes) ∧ b.Covers sec.finish := by
  have hNoLoop := beq_eq_false_iff_ne.mp (leads_of_mem_sectionsOf hSec).1
  obtain ⟨other, hOnly, name, _, a, ha, _, b, hb, _, hJoins⟩ :=
    (follows_sectionsOf hRead hLink chain).2 hNoLoop
  dsimp only at hOnly
  rw [hOnly, List.mem_singleton] at hSec
  obtain ⟨haInside, haWidth, haHeight⟩ := h.inside_extentOf hFree hRead ha
  obtain ⟨hbInside, hbWidth, hbHeight⟩ := h.inside_extentOf hFree hRead hb
  refine ⟨a, b, haInside, ?_, hbInside, ?_⟩
  · rw [hSec, hJoins.start]
    exact a.covers_exit haWidth haHeight _ hJoins.inside
  · rw [hSec, hJoins.finish]
    exact b.covers_entry hbWidth hbHeight _

variable {l : Link κ} {route : OrientedRoute}
  (hLink : readLink r.boxes (handleOwners r.boxes) l = .ok route.route) {sec : Section Rat}
  (hSec : sec ∈ sectionsOf r.spacing.horizontal (planOf r).boxes route.route
    ((planOf r).layered.chainOf route))

include hLink hSec

theorem Request.Regular.front_bounds (hRoute : route ∈ (planOf r).routes) {p : Position Rat}
    (hp : p ∈ sec.points) :
    padding ≤ r.spacing.front p ∧
      r.spacing.front p ≤ r.spacing.lengthOf (extentOf (planOf r).boxes) - padding := by
  obtain ⟨a, b, haInside, haCovers, hbInside, hbCovers⟩ := h.exists_covers hFree hRead hLink hSec
  obtain ⟨⟨hStartLow, hStartHigh⟩, _⟩ := haInside.bounds r.spacing haCovers
  obtain ⟨⟨hFinishLow, hFinishHigh⟩, _⟩ := hbInside.bounds r.spacing hbCovers
  rcases (h.runsOneWay hFree hRead hRoute hSec).between hp with ⟨hLow, hHigh⟩ | ⟨hLow, hHigh⟩
  · exact ⟨hStartLow.trans hLow, hHigh.trans hFinishHigh⟩
  · exact ⟨hFinishLow.trans hLow, hHigh.trans hStartHigh⟩

/-- Neither children nor dummies stand before the padding, so no line goes there. -/
theorem Request.Regular.padding_le_flank {p : Position Rat} (hp : p ∈ sec.points) :
    padding ≤ r.spacing.flank p := by
  obtain ⟨a, b, haInside, haCovers, hbInside, hbCovers⟩ := h.exists_covers hFree hRead hLink hSec
  obtain ⟨_, source, target, _, _, hLeads⟩ := leads_of_mem_sectionsOf hSec
  refine (hLeads.forall_flank_iff (s := r.spacing) (P := (padding ≤ ·))
    (haInside.bounds r.spacing haCovers).2.1 (hbInside.bounds r.spacing hbCovers).2.1).mpr ?_ p hp
  intro q hq
  obtain ⟨d, _, hStop⟩ := List.mem_filterMap.mp hq
  obtain ⟨box, hb, rfl⟩ := Option.map_eq_some_iff.mp hStop
  obtain ⟨hLeft, hTop⟩ := h.padding_le_box hFree hRead hb
  unfold Spacing.flank
  cases r.spacing.horizontal with
  | true => exact hTop
  | false => exact hLeft

end Framed

/-- The drawing has all children and edges of the request, and the padding is around all children,
before all lines, and no wider than needed. -/
structure Drawing.Framed (d : Drawing Rat κ) (request : Request Rat κ) : Prop where
  placed : d.children.map PlacedChild.child = request.children
  routed : d.edges.map RoutedLink.link = request.edges
  children : ∀ c ∈ d.children, c.Inside d.size
  lines : ∀ e ∈ d.edges, ∀ sec ∈ e.sections, ∀ p ∈ sec.points, padding ≤ p.x ∧ padding ≤ p.y
  width : request.children ≠ [] →
    IsLeast {w | ∀ c ∈ d.children, c.position.x + c.size.width ≤ w - padding} d.size.width
  height : request.children ≠ [] →
    IsLeast {w | ∀ c ∈ d.children, c.position.y + c.size.height ≤ w - padding} d.size.height

theorem Plan.exists_of_mem_drawing (p : Plan Rat) (horizontal : Bool)
    (children : List (Child Rat κ)) {R : Link κ → OrientedRoute → Prop} {edges : List (Link κ)}
    (hRoutes : List.Forall₂ R edges p.routes) {e : RoutedLink Rat κ}
    (he : e ∈ (p.drawing horizontal children edges).edges) : ∃ route, R e.link route ∧
      e.sections = sectionsOf horizontal p.boxes route.route (p.layered.chainOf route) := by
  obtain ⟨⟨l, route⟩, hIn, rfl⟩ := List.mem_map.mp he
  exact ⟨route, (List.forall₂_iff_zip.mp hRoutes).2 hIn, rfl⟩

/-- Where no child keeps a place of its own, the drawing is framed by its padding. -/
theorem drawing_is_framed {request : Request Rat κ} (h : request.Regular)
    (hFree : ∀ c ∈ request.children, c.Free) {drawing : Drawing Rat κ}
    (hDraw : draw request = .ok drawing) : drawing.Framed request := by
  obtain ⟨r, hRead, rfl⟩ := draw_eq_ok_iff.mp hDraw
  refine ⟨(planOf r).children_drawing _ _ _,
    (planOf r).links_drawing _ _ (length_routes_planOf hRead).ge,
    fun c hc => (h.inside_extentOf hFree hRead hc).1, ?_,
    fun hSome => h.isLeast_reach hFree hRead hSome fun p z => p.x + z.width,
    fun hSome => h.isLeast_reach hFree hRead hSome fun p z => p.y + z.height⟩
  intro e he sec hSec p hp
  obtain ⟨route, ⟨hRoute, hLink⟩, hSections⟩ :=
    (planOf r).exists_of_mem_drawing _ _ (forall₂_routes_planOf hRead) he
  rw [hSections] at hSec
  have hFront := (h.front_bounds hFree hRead hLink hSec hRoute hp).1
  have hFlank := h.padding_le_flank hFree hRead hLink hSec hp
  unfold Spacing.front at hFront
  unfold Spacing.flank at hFlank
  cases hAxis : r.spacing.horizontal with
  | true =>
    rw [hAxis] at hFront hFlank
    exact ⟨hFront, hFlank⟩
  | false =>
    rw [hAxis] at hFront hFlank
    exact ⟨hFlank, hFront⟩

/-- Two children below a third one that are drawn towards its handles, so that the second layer
begins before the first one and is wider. -/
theorem drawing_of_fan_is_framed :
    let child (id : String) (width : Rat) (handles : List (Handle Rat)) : Child Rat Unit :=
      ⟨some id, none, none, some (.number width), some (.number 20), handles, ()⟩
    let handle (id : String) (order : Rat) : Handle Rat := ⟨some (.text id), .number order, none⟩
    let edge (source target : String) : Link Unit := ⟨.absent, [.text source], [.text target], ()⟩
    let request : Request Rat Unit := ⟨[("elk.direction", .string "DOWN")],
      [child "A" 30 [handle "A-b" 0, handle "A-c" 1], child "B" 80 [], child "C" 40 []],
      [edge "A-b" "B", edge "A-c" "C"]⟩
    ∃ drawing, draw request = .ok drawing ∧ drawing.Framed request := by
  intro child handle edge request
  have hResolves : (resolveRequest request).isOk = true := by cbv
  have hRegular : request.Regular := by decide +kernel
  have hFree : ∀ c ∈ request.children, c.Free := by decide +kernel
  obtain ⟨drawing, hDraw⟩ := exists_draw_eq_ok hResolves
  exact ⟨drawing, hDraw, drawing_is_framed hRegular hFree hDraw⟩

/-! ## Lines that leave the frame -/

/-- How far a line through the given stops is within the extent: it begins and ends on a child and
stays before the padding along the flow, but across the flow it goes as far as its stops do. -/
structure Section.Fits (s : Spacing Rat) (size : Size Rat) (stops : List (Position Rat))
    (sec : Section Rat) : Prop where
  start : sec.start.x ≤ size.width - padding ∧ sec.start.y ≤ size.height - padding
  finish : sec.finish.x ≤ size.width - padding ∧ sec.finish.y ≤ size.height - padding
  along : ∀ p ∈ sec.points, s.front p ≤ s.lengthOf size - padding
  across : (∀ p ∈ sec.points, s.flank p ≤ s.breadthOf size) ↔
    ∀ q ∈ stops, s.flank q ≤ s.breadthOf size

/-- Where no child keeps a place of its own, the extent encloses the ends of each line and all of
the line along the flow. Across the flow a line is within the extent just if the dummies are that it
passes. -/
theorem lines_fit_as_dummies_do {request : Request Rat κ} (h : request.Regular)
    (hFree : ∀ c ∈ request.children, c.Free) {drawing : Drawing Rat κ}
    (hDraw : draw request = .ok drawing) : ∃ r, resolveRequest request = .ok r ∧
      List.Forall₂ (fun l e => e.link = l ∧ ∃ route ∈ (planOf r).routes,
        readLink r.boxes (handleOwners r.boxes) l = .ok route.route ∧
          ∀ sec ∈ e.sections, sec.Fits r.spacing drawing.size
            (stops (planOf r).boxes ((planOf r).layered.chainOf route)))
        request.edges drawing.edges := by
  obtain ⟨r, hRead, rfl⟩ := draw_eq_ok_iff.mp hDraw
  have hEdges := (planOf r).forall₂_drawing r.spacing.horizontal request.children
    (forall₂_routes_planOf hRead)
  refine ⟨r, hRead, hEdges.imp ?_⟩
  rintro l e ⟨hSame, route, ⟨hRoute, hLink⟩, hSections⟩
  refine ⟨hSame, route, hRoute, hLink, fun sec hSec => ?_⟩
  rw [hSections] at hSec
  obtain ⟨a, b, haInside, haCovers, hbInside, hbCovers⟩ := h.exists_covers hFree hRead hLink hSec
  obtain ⟨_, source, target, _, _, hLeads⟩ := leads_of_mem_sectionsOf hSec
  refine ⟨⟨haCovers.right.trans haInside.right, haCovers.bottom.trans haInside.bottom⟩,
    ⟨hbCovers.right.trans hbInside.right, hbCovers.bottom.trans hbInside.bottom⟩,
    fun p hp => (h.front_bounds hFree hRead hLink hSec hRoute hp).2, ?_⟩
  have hRoom : ∀ e : Rat, e - padding ≤ e := fun e => sub_le_self e (by decide : (0 : Rat) ≤ 12)
  exact hLeads.forall_flank_iff (s := r.spacing) (P := (· ≤ r.spacing.breadthOf _))
    ((haInside.bounds r.spacing haCovers).2.2.trans (hRoom _))
    ((hbInside.bounds r.spacing hbCovers).2.2.trans (hRoom _))

/-- A chain of three children, and an edge from the first to the last one that goes around the
second. -/
def detourRequest : Request Rat Unit :=
  let child (id : String) : Child Rat Unit :=
    ⟨some id, none, none, some (.number 10), some (.number 10), [], ()⟩
  let edge (label source target : String) : Link Unit :=
    ⟨.text label, [.text source], [.text target], ()⟩
  ⟨[("elk.direction", .string "RIGHT")], [child "A", child "B", child "C"],
    [edge "1" "A" "C", edge "2" "A" "B", edge "3" "B" "C"]⟩

theorem isOk_resolveRequest_detourRequest : (resolveRequest detourRequest).isOk = true := by
  decide +kernel

theorem regular_detourRequest : detourRequest.Regular := by
  decide +kernel

theorem free_detourRequest : ∀ c ∈ detourRequest.children, c.Free := by
  decide +kernel

theorem lines_fit_as_dummies_do_on_detour :
    ∃ r drawing, resolveRequest detourRequest = .ok r ∧ draw detourRequest = .ok drawing ∧
      List.Forall₂ (fun l e => e.link = l ∧ ∃ route ∈ (planOf r).routes,
        readLink r.boxes (handleOwners r.boxes) l = .ok route.route ∧
          ∀ sec ∈ e.sections, sec.Fits r.spacing drawing.size
            (stops (planOf r).boxes ((planOf r).layered.chainOf route)))
        detourRequest.edges drawing.edges := by
  obtain ⟨drawing, hDraw⟩ := exists_draw_eq_ok isOk_resolveRequest_detourRequest
  obtain ⟨r, hRead, hFit⟩ :=
    lines_fit_as_dummies_do regular_detourRequest free_detourRequest hDraw
  exact ⟨r, drawing, hRead, hDraw, hFit⟩

/-- The extent does not enclose all lines: the way around the second child leads past it. -/
theorem detour_leaves_frame : detourRequest.Regular ∧ (∀ c ∈ detourRequest.children, c.Free) ∧
    ∃ drawing, draw detourRequest = .ok drawing ∧
      ∃ e ∈ drawing.edges, ∃ sec ∈ e.sections, ∃ p ∈ sec.points, drawing.size.height < p.y := by
  obtain ⟨drawing, hDraw⟩ := exists_draw_eq_ok isOk_resolveRequest_detourRequest
  refine ⟨regular_detourRequest, free_detourRequest, drawing, hDraw, ?_⟩
  have hDrawn : ((draw detourRequest).toOption.bind fun d => do
      let e ← d.edges.head?
      let sec ← e.sections.head?
      let p ← sec.points[2]?
      return (d.size.height, p.y)) = some (123 / 2, 72) := by cbv
  rw [hDraw, Except.toOption, Option.bind_some] at hDrawn
  obtain ⟨e, he, hDrawn⟩ := Option.bind_eq_some_iff.mp hDrawn
  obtain ⟨sec, hSec, hDrawn⟩ := Option.bind_eq_some_iff.mp hDrawn
  obtain ⟨p, hp, hDrawn⟩ := Option.bind_eq_some_iff.mp hDrawn
  simp only [pure, Option.some.injEq, Prod.mk.injEq] at hDrawn
  refine ⟨e, List.mem_of_mem_head? he, sec, List.mem_of_mem_head? hSec, p,
    List.mem_of_getElem? hp, ?_⟩
  rw [hDrawn.1, hDrawn.2]
  norm_num

end Layout

end TypeDiagram
