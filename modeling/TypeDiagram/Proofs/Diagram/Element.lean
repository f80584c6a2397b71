import TypeDiagram.Diagram.Element

/-! # Handles and edges

Handles and nodes are named in one name space, and a `-` joins the name of a node to that of a
field. If no id of a node has a `-`, no handle is named like a node, and the name of a handle tells
its node, whatever the fields are called. Each edge runs between its model and a model that one of
its fields refers to.
-/

namespace TypeDiagram.Diagram

theorem toList_handleId (id name : String) :
    (handleId id name).toList = id.toList ++ '-' :: name.toList := by
  rw [handleId, String.toList_append, String.toList_append, List.append_assoc]
  rfl

theorem takeWhile_handleId {id : String} (h : '-' ∉ id.toList) (name : String) :
    (handleId id name).toList.takeWhile (· != '-') = id.toList := by
  rw [toList_handleId, List.takeWhile_append_of_pos, List.takeWhile_cons_of_neg, List.append_nil]
  · simp
  · intro c hc
    exact bne_iff_ne.mpr fun hSame => h (hSame ▸ hc)

theorem eq_of_handleId_eq {a b f g : String} (ha : '-' ∉ a.toList) (hb : '-' ∉ b.toList)
    (h : handleId a f = handleId b g) : a = b := by
  rw [← String.toList_inj, ← takeWhile_handleId ha f, h, takeWhile_handleId hb g]

theorem handleId_ne {a b : String} (hb : '-' ∉ b.toList) (f : String) : handleId a f ≠ b := by
  rintro rfl
  apply hb
  rw [toList_handleId]
  simp

def edgeFor (m : Model) (f : Field) (target : ModelRef) (number : Nat) : Edge :=
  let plain := toString number ++ "-" ++ m.id ++ "-" ++ f.name
  ⟨if f.isReference then plain ++ "-" ++ target.id else plain, m.id, target.id,
    some (handleId m.id f.name)⟩

theorem edgesOfArguments_eq (m : Model) (name referenceName : String) (all : List TypeRef)
    (count : Nat) (arguments : List TypeRef) : edgesOfArguments m name count arguments =
      ((arguments.filterMap TypeRef.target?).zipIdx count).map fun (target, number) =>
        edgeFor m (.reference name referenceName all) target number := by
  induction arguments generalizing count with
  | nil => rfl
  | cons argument arguments ih =>
    cases argument with
    | text s => exact ih count
    | model target => exact congrArg (List.cons _) (ih (count + 1))

theorem edgesOfField_eq (m : Model) (count : Nat) (f : Field) : edgesOfField m count f =
    (f.references.zipIdx count).map fun (target, number) => edgeFor m f target number := by
  cases f with
  | primitive | model => rfl
  | array name element => cases element <;> rfl
  | reference name referenceName arguments =>
    exact edgesOfArguments_eq m name referenceName arguments count arguments

/-- An edge runs from its model to one that the field refers to, from the handle of the field. -/
structure Edge.Shows (e : Edge) (m : Model) (f : Field) (target : ModelRef) : Prop where
  field : f ∈ m.schema
  reference : target ∈ f.references
  source : e.source = m.id
  target : e.target = target.id
  handle : e.sourceHandle = some (handleId m.id f.name)

theorem shows_of_mem_edgesOfField {m : Model} {count : Nat} {f : Field} (hf : f ∈ m.schema)
    {e : Edge} (h : e ∈ edgesOfField m count f) : ∃ target, e.Shows m f target := by
  rw [edgesOfField_eq] at h
  obtain ⟨⟨target, number⟩, hTarget, rfl⟩ := List.mem_map.mp h
  exact ⟨target, hf, List.fst_mem_of_mem_zipIdx hTarget, rfl, rfl, rfl⟩

theorem shows_of_mem_edgesOf {models : List Model} {e : Edge} (h : e ∈ edgesOf models) :
    ∃ m ∈ models, ∃ f target, e.Shows m f target := by
  have hFold : ∀ (fields : List (Model × Field)) (edges : List Edge),
      e ∈ fields.foldl
        (fun edges field => edges ++ edgesOfField field.1 (edges.length + 1) field.2) edges →
      e ∈ edges ∨ ∃ field ∈ fields, ∃ count, e ∈ edgesOfField field.1 count field.2 := by
    intro fields
    induction fields with
    | nil => exact fun _ hIn => .inl hIn
    | cons field fields ih =>
      intro edges hIn
      rcases ih _ hIn with hEarlier | ⟨other, hOther, count, hEdge⟩
      · rcases List.mem_append.mp hEarlier with hOld | hNew
        · exact .inl hOld
        · exact .inr ⟨field, List.mem_cons_self, _, hNew⟩
      · exact .inr ⟨other, List.mem_cons_of_mem _ hOther, count, hEdge⟩
  rcases hFold _ [] h with hNone | ⟨⟨m, f⟩, hField, count, hEdge⟩
  · cases hNone
  · obtain ⟨m', hm, hf⟩ := List.mem_flatMap.mp hField
    obtain ⟨f', hf', hSame⟩ := List.mem_map.mp hf
    obtain ⟨rfl, rfl⟩ := Prod.mk.inj hSame
    exact ⟨m', hm, f', shows_of_mem_edgesOfField hf' hEdge⟩

end TypeDiagram.Diagram
