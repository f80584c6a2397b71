import TypeDiagram.Proofs.Layout.Renaming.Request
import TypeDiagram.Proofs.Layout.Route

/-! # Renamed drawings

Layout depends on how the boxes hang together and not on what they are called. A renaming that keeps
the names of a request apart extends to all names, and then every stage goes along with it: reading,
planning, and drawing what is planned. The one name that counts is `null`, for an edge that leaves
by no handle is looked up under it.
-/

namespace TypeDiagram.Layout

variable {α κ : Type} [Coordinate α] {ρ : Name → Name} {σ : Renaming}

def PlacedChild.rename (ρ : Name → Name) (placed : PlacedChild α κ) : PlacedChild α κ :=
  { placed with child := placed.child.rename ρ }

def RoutedLink.rename (ρ : Name → Name) (routed : RoutedLink α κ) : RoutedLink α κ :=
  { routed with link := routed.link.rename ρ }

def Drawing.rename (ρ : Name → Name) (drawing : Drawing α κ) : Drawing α κ :=
  ⟨drawing.size, drawing.children.map (PlacedChild.rename ρ),
    drawing.edges.map (RoutedLink.rename ρ)⟩

omit [Coordinate α] in
theorem Drawing.sections_rename (drawing : Drawing α κ) :
    (drawing.rename ρ).edges.map RoutedLink.sections =
      drawing.edges.map RoutedLink.sections := by
  rw [Drawing.rename, List.map_map]
  rfl

theorem placedChild_rename (boxes : Boxes α) {c : Child α κ}
    (hBox : ∀ id, c.id = some id → ρ (.text id) = .text (σ.box id)) :
    placedChild (boxes.rename σ) (c.rename ρ) = (placedChild boxes c).rename ρ := by
  have hId : (c.rename ρ).id = c.id.map σ.box := by
    refine Option.map_congr fun id hId => ?_
    rw [renamedId, hBox id hId]
    rfl
  have hFound : (c.rename ρ).id.bind (boxes.rename σ).get? =
      (c.id.bind boxes.get?).map (Box.rename σ) := by
    rw [hId, Option.bind_map, Option.map_bind]
    exact congrArg c.id.bind (funext boxes.get?_rename)
  unfold placedChild
  rw [hFound]
  cases c.id.bind boxes.get? <;> rfl

theorem Plan.drawing_rename (p : Plan α) (horizontal : Bool) {children : List (Child α κ)}
    (hBox : ∀ c ∈ children, ∀ id, c.id = some id → ρ (.text id) = .text (σ.box id))
    (edges : List (Link κ)) :
    (p.rename σ).drawing horizontal (children.map (Child.rename ρ)) (edges.map (Link.rename ρ)) =
      (p.drawing horizontal children edges).rename ρ := by
  unfold Plan.drawing Plan.rename Drawing.rename
  dsimp only
  rw [extentOf_rename, List.map_map, List.map_map, List.zip_map, List.map_map, List.map_map]
  congr 1
  · exact List.map_congr_left fun c hc => placedChild_rename p.boxes (hBox c hc)
  · refine List.map_congr_left fun e _ => ?_
    change RoutedLink.mk _ (sectionsOf horizontal (p.boxes.rename σ) (e.2.route.rename σ)
      ((p.layered.rename σ).chainOf (e.2.rename σ))) = _
    rw [Layered.chainOf_rename, sectionsOf_rename]
    rfl

/-- A renamed request is drawn as it was, under the new names. -/
theorem draw_rename {request : Request α κ} (h : request.KeepsApart ρ)
    {drawing : Drawing α κ} (hDraw : draw request = .ok drawing) :
    draw (request.rename ρ) = .ok (drawing.rename ρ) := by
  obtain ⟨σ, hσ⟩ := h.exists_extends
  obtain ⟨r, hRead, rfl⟩ := draw_eq_ok_iff.mp hDraw
  refine draw_eq_ok_iff.mpr ⟨r.rename σ, hσ.resolveRequest hRead, ?_⟩
  rw [planOf_rename]
  exact (planOf r).drawing_rename r.spacing.horizontal hσ.box request.edges

/-- Exchanges the name of a child with that of another child's handle. -/
def exchange : Equiv.Perm Name := Equiv.swap (.text "B") (.text "A-b")

/-- Gives a name to the handle that is called `null`. -/
def christen : Equiv.Perm Name := Equiv.swap .null (.text "A-a")

theorem keepsApart_exchange : nullHandleRequest.KeepsApart exchange := by
  have hPlain : ∀ c ∈ nullHandleRequest.children, ∀ id ∈ c.id, isDummy id = false := by
    decide +kernel
  have hNew : ∀ c ∈ nullHandleRequest.children, ∀ id ∈ c.id,
      exchange (.text id) = .text (renamedId exchange id) ∧
        isDummy (renamedId exchange id) = false := by decide +kernel
  have hNull : ∀ name ∈ nullHandleRequest.names, exchange name = .null ↔ name = .null := by
    decide +kernel
  exact ⟨exchange.injective.injOn, hPlain, fun c hc id hId => ⟨_, hNew c hc id hId⟩, hNull⟩

theorem draw_rename_exchange : ∃ drawing, draw nullHandleRequest = .ok drawing ∧
    draw (nullHandleRequest.rename exchange) = .ok (drawing.rename exchange) := by
  obtain ⟨drawing, hDraw⟩ := exists_draw_eq_ok isOk_resolveRequest_nullHandleRequest
  exact ⟨drawing, hDraw, draw_rename keepsApart_exchange hDraw⟩

/-- The name `null` is not like others: an edge that names no handle begins at the handle called so,
and in the middle once that handle has another name. -/
theorem draw_rename_fails_on_null :
    (∀ c ∈ nullHandleRequest.children, ∀ id ∈ c.id,
      isDummy id = false ∧ christen (.text id) = .text id) ∧
    ∃ drawing, draw nullHandleRequest = .ok drawing ∧
      draw (nullHandleRequest.rename christen) ≠ .ok (drawing.rename christen) := by
  obtain ⟨drawing, hDraw⟩ := exists_draw_eq_ok isOk_resolveRequest_nullHandleRequest
  refine ⟨by decide +kernel, drawing, hDraw, fun hSame => ?_⟩
  have hOld : (draw nullHandleRequest).toOption.map (fun d => d.edges.map RoutedLink.sections) =
      some [[⟨"1_s0", ⟨112, 32⟩, ⟨172, 42⟩, [⟨142, 32⟩, ⟨142, 42⟩]⟩]] := by cbv
  have hNew : (draw (nullHandleRequest.rename christen)).toOption.map
      (fun d => d.edges.map RoutedLink.sections) =
        some [[⟨"1_s0", ⟨112, 42⟩, ⟨172, 42⟩, []⟩]] := by cbv
  rw [hDraw, Except.toOption, Option.map_some, Option.some.injEq] at hOld
  rw [hSame, Except.toOption, Option.map_some, Option.some.injEq, drawing.sections_rename,
    hOld] at hNew
  simp at hNew

end TypeDiagram.Layout
