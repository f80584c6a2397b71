import TypeDiagram.Proofs.Source.FieldClass

/-! # The shape of a type

A field takes its shape from the node inside the parentheses and the `readonly` around its type. The
text of this node is that of the field only where the shape is a name; else it is the whole text.
-/

namespace TypeDiagram

def Source.shapeOf (inner : Source.Node) : TypeShape :=
  if inner.label = .category .arrayType then
    (inner.namedChildren.head?.map fun element => .array element.text).getD .other
  else if inner.label = .category .genericType then
    (inner.child? .name).elim .other fun reference => .generic reference.text
      (((inner.child? .typeArguments).map Source.argumentTexts).getD [])
  else if inner.label.isTypeName then .name
  else .other

theorem Source.describe_eq_shapeOf (name : String) (type : Source.Node) :
    Source.describe name type = ⟨name,
      if Source.shapeOf (Source.core type) = .name then (Source.core type).text else type.text,
      Source.shapeOf (Source.core type)⟩ := by
  rw [describe_eq]
  unfold shapeOf
  split
  · cases (Source.core type).namedChildren.head? <;> rfl
  · split
    · cases (Source.core type).child? .name <;> rfl
    · split <;> rfl

/-- What a field refers to hangs on its shape, and on its text only if its shape is a name. -/
theorem sameClass_of_shape {known : List ModelRef} {f f' : DeclaredField}
    (hShape : f'.shape = f.shape) (hText : f.shape = .name → f'.typeText = f.typeText) :
    Field.SameClass (classify known f) (classify known f') := by
  obtain ⟨name, text, shape⟩ := f
  obtain ⟨name', text', shape'⟩ := f'
  dsimp only at hShape hText
  subst hShape
  cases shape' with
  | array element => exact ⟨rfl, rfl⟩
  | generic reference arguments =>
    simp only [classify]
    split <;> exact ⟨rfl, rfl⟩
  | name =>
    rw [hText rfl]
    simp only [classify]
    cases findModel? known text <;> exact ⟨rfl, rfl⟩
  | other => exact Field.sameClass_primitive

end TypeDiagram
