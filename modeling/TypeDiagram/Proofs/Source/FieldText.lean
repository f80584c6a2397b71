import TypeDiagram.Proofs.Source.Cutting

/-! # Texts of fields

What a field says of its type is cut from the source text: the text of the type, and in it the
element of an array, or the name of a generic type with its arguments behind.
-/

namespace TypeDiagram

namespace TypeShape

def element? : TypeShape → Option String
  | array element => some element
  | generic .. | name | other => none

def reference? : TypeShape → Option String
  | generic reference _ => some reference
  | array _ | name | other => none

def arguments : TypeShape → List String
  | generic _ arguments => arguments
  | array _ | name | other => []

theorem kind_eq_array_iff (s : TypeShape) : s.kind = .array ↔ s.element?.isSome = true := by
  cases s with
  | array => exact ⟨fun _ => rfl, fun _ => rfl⟩
  | generic | name | other => exact ⟨nofun, nofun⟩

theorem kind_eq_generic_iff (s : TypeShape) : s.kind = .generic ↔ s.reference?.isSome = true := by
  cases s with
  | generic => exact ⟨fun _ => rfl, fun _ => rfl⟩
  | array | name | other => exact ⟨nofun, nofun⟩

theorem kind_eq_generic_of_arguments {s : TypeShape} (h : s.arguments ≠ []) :
    s.kind = .generic := by
  cases s with
  | generic => rfl
  | array | name | other => exact absurd rfl h

theorem mem_parts_of_element? {s : TypeShape} {element : String} (h : s.element? = some element) :
    element ∈ s.parts := by
  cases s with
  | array => exact List.mem_singleton.mpr (Option.some.inj h).symm
  | generic | name | other => cases h

theorem parts_of_reference? {s : TypeShape} {reference : String}
    (h : s.reference? = some reference) : s.parts = reference :: s.arguments := by
  cases s with
  | generic => rw [← Option.some.inj h]; rfl
  | array | name | other => cases h

end TypeShape

namespace Source

/-! ## Names of generic types -/

namespace Subtree

variable {shownAs? : Option Alias}

theorem isSpliced_of_fitsSymbol {t : Subtree} {x : Symbol} (h : t.FitsSymbol x)
    (hShown : shownAs?.isSome = true ∨ x = .group Category.nestedTypeIdentifier.code) :
    isSpliced shownAs? t.facts = false := by
  rcases hShown with hSome | rfl
  · rw [isSpliced, Option.isNone_eq_false_iff.mpr hSome, Bool.false_and]
  · obtain ⟨y, hOrigin, rfl | ⟨g, hGroup, hHidden⟩⟩ := h
    · rw [isSpliced, hOrigin, Origin.isVisible]
      have hVisible : Production.isVisible Category.nestedTypeIdentifier.code = true := by decide
      rw [hVisible, Bool.not_true, Bool.and_false]
    · cases hGroup
      exact absurd hHidden (by decide)

theorem sublist_of_first {role? : Option Role} {label : Label} {before after : List Node}
    {n name arguments : Node} (hBefore : ∀ m ∈ before, m.role? = none) (hn : n.role? = some .name)
    (hName : (Node.branch role? label (before ++ n :: after)).child? .name = some name)
    (hArguments : (Node.branch role? label (before ++ n :: after)).child? .typeArguments =
      some arguments) : [name, arguments].Sublist (before ++ n :: after) := by
  have hFirst : Frame.IsFirst ⟨role?, label, before, after⟩ .name := fun m hm h => by
    rw [hBefore m hm] at h
    cases h
  have hSame := (Frame.child?_fill hFirst hn).symm.trans hName
  obtain rfl := Option.some.inj hSame
  have hRole : arguments.role? = some .typeArguments := by
    simpa using List.find?_some hArguments
  have hAfter : arguments ∈ after := by
    rcases List.mem_append.mp (child?_mem_children hArguments) with hMem | hMem
    · rw [hBefore _ hMem] at hRole
      cases hRole
    · rcases List.mem_cons.mp hMem with rfl | hMem
      · rw [hn] at hRole
        cases hRole
      · exact hMem
  refine List.Sublist.trans ?_ (List.sublist_append_right before _)
  exact (List.singleton_sublist.mpr hAfter).cons_cons n

theorem nameLeads_cut : HoldsWhereCut NameLeads where
  leaf _ _ _ _ _ _ _ _ hName := by cases hName
  branch {f children cs} h hSpell role? shownAs? line rest := by
    intro hLabel name arguments hName hArguments
    obtain ⟨p, hp, hGroup, hForm, hSteps, hChildren⟩ := h.exists_production hLabel
    obtain ⟨first, second, hPair, hRole, _, hShown⟩ := Production.steps_of_genericType hp hGroup
    rw [hPair] at hSteps
    generalize hBound : bound children = ts at hSteps
    cases hSteps with
    | @cons t _ _ _ hFits _ =>
      have hForm0 : f.form.shownAs? 0 = first.shownAs ∧ f.form.role? 0 = some .name := by
        rw [hForm, Production.form, hPair, ← hRole]
        exact ⟨rfl, rfl⟩
      have hFirst : isSpliced (f.form.shownAs? 0) t.facts = false :=
        isSpliced_of_fitsSymbol hFits (by rwa [hForm0.1])
      obtain ⟨before, line', own, more, line'', later, hSplit, hBefore, _⟩ :=
        cutAll_of_bound hChildren hSpell hBound 0 line rest
      obtain ⟨n, hNode, hn⟩ :=
        exists_node_of_not_isSpliced hFirst (f.form.role? 0) line' (own ++ (more ++ rest))
      rw [hForm0.2] at hn
      rw [hNode, List.singleton_append] at hSplit
      rw [hSplit] at hName hArguments ⊢
      exact sublist_of_first hBefore hn hName hArguments

end Subtree

/-! ## Fields -/

/-- The field is that of a property in the source text, and its texts are cut out of this text. A
property without a type, or with a type that is no named node, may hold anything. -/
structure IsCutFrom (source : String) (property : Node) (f : DeclaredField) : Prop where
  stands : property ∈ Node.nodesOf (topLevel source)
  field : fieldOf? property = some f
  typed : ∀ type ∈ typeOf? property, f.typeText.toList <:+: type.text.toList ∧
    type.text.toList <:+: source.toList
  untyped : typeOf? property = none → f.typeText = "any" ∧ f.shape = .other
  element : ∀ element ∈ f.shape.element?, element.toList <:+: f.typeText.toList
  /-- The arguments of a generic type stand one behind another behind its name. -/
  reference : ∀ reference ∈ f.shape.reference?,
    InOrder (reference :: f.shape.arguments) f.typeText.toList
  isArray : f.shape.kind = .array ↔ f.shape.element?.isSome = true
  isGeneric : f.shape.kind = .generic ↔ f.shape.reference?.isSome = true
  hasArguments : f.shape.arguments ≠ [] → f.shape.kind = .generic

theorem isCutFrom_of_fieldOf? {source : String} {property : Node} {f : DeclaredField}
    (hProperty : property ∈ Node.nodesOf (topLevel source)) (hField : fieldOf? property = some f) :
    IsCutFrom source property f := by
  obtain ⟨name, _, hName⟩ := Option.map_eq_some_iff.mp ((fieldOf?_eq property).symm.trans hField)
  have hCut : (∀ type ∈ typeOf? property, f.typeText.toList <:+: type.text.toList ∧
      type.text.toList <:+: source.toList) ∧
      (typeOf? property = none → f.typeText = "any" ∧ f.shape = .other) ∧
      InOrder f.shape.parts f.typeText.toList := by
    cases hType : typeOf? property with
    | none =>
      rw [hType] at hName
      rw [← hName]
      exact ⟨nofun, fun _ => ⟨rfl, rfl⟩, trivial⟩
    | some type =>
      rw [hType] at hName
      have hNodes (n : Node) (hn : n ∈ type.nodes) : n ∈ Node.nodesOf (topLevel source) := by
        obtain ⟨statement, hStatement, hStands⟩ := mem_nodesOf_iff.mp hProperty
        have hBelow := mem_nodes_trans (typeOf?_mem_nodes hType) hn
        exact mem_nodesOf_iff.mpr ⟨statement, hStatement, mem_nodes_trans hStands hBelow⟩
      obtain ⟨hText, hParts⟩ :=
        describe_slices (fun n hn => holds_of_mem_topLevel Subtree.nameLeads_cut (hNodes n hn)) name
      rw [← hName]
      refine ⟨fun type' hSame => ?_, nofun, hParts⟩
      obtain rfl := Option.some.inj hSame
      exact ⟨hText, text_infix_of_mem_nodesOf (hNodes type (mem_nodes_self type))⟩
  obtain ⟨hTyped, hUntyped, hParts⟩ := hCut
  refine ⟨hProperty, hField, hTyped, hUntyped, fun element hElement => ?_,
    fun reference hReference => ?_, f.shape.kind_eq_array_iff, f.shape.kind_eq_generic_iff,
    TypeShape.kind_eq_generic_of_arguments⟩
  · exact hParts.isInfix (TypeShape.mem_parts_of_element? hElement)
  · rwa [TypeShape.parts_of_reference? hReference] at hParts

def AreCutFrom (source : String) (ds : List Declaration) : Prop :=
  ∀ d ∈ ds, ∀ f ∈ d.fields, ∃ property, IsCutFrom source property f

/-- What the declarations of a source text say of the types of their fields is cut out of it. -/
theorem fields_are_slices (source : String) : AreCutFrom source (declarations source) := by
  intro d hd f hf
  obtain ⟨property, hProperty, hField⟩ := mem_fields_declarations hd hf
  exact ⟨property, isCutFrom_of_fieldOf? hProperty hField⟩

def constA : Node := propertyA.fill (ascriptionOf [mark 1 " " "const"])

def constInA : List Node := (memberBehind [] "").fill constA

/-- In `interface A { a: const }`, the type is a mere keyword, so `a` may hold anything. -/
theorem keyword_is_read_as_any :
    textOf constInA = "interface A { a: const }" ∧
      ∃ f, declared constInA = [⟨"A", [f], 1⟩] ∧ fieldOf? constA = some f ∧
        ¬ (f.typeText.toList <:+: (textOf constInA).toList ∨
          f.typeText = "any" ∧ constA.child? .type = none) := by
  refine ⟨by decide, ⟨"a", "any", .other⟩, by decide, by decide, ?_⟩
  rintro (hSlice | ⟨_, hNone⟩)
  · have hChar : 'y' ∈ (textOf constInA).toList := hSlice.subset (by decide)
    exact absurd hChar (by decide)
  · cases hNone

end Source

end TypeDiagram
