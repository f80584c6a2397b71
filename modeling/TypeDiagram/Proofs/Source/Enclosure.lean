import TypeDiagram.Proofs.Source.Shape

/-! # Types in parentheses

Parentheses around a type, with or without `readonly` in front of each, change neither the shape of
a field nor the models that it refers to, at whatever place of a text the type stands.
-/

namespace TypeDiagram.Source

variable {n n' : Node}

/-! ## One type at two places -/

/-- The nodes have the same texts at every level. The blanks in front of them may differ, and so may
their lines. -/
inductive SpelledAlike : Node → Node → Prop
  | leaf {role? : Option Role} {l l' : Leaf} (hLabel : l'.label = l.label)
      (hText : l'.text = l.text) : SpelledAlike (.leaf role? l) (.leaf role? l')
  | branch {role? : Option Role} {label : Label} {children children' : List Node}
      (hText : (Node.branch role? label children').text = (Node.branch role? label children).text)
      (hChildren : List.Forall₂ SpelledAlike children children') :
      SpelledAlike (.branch role? label children) (.branch role? label children')

namespace SpelledAlike

theorem label_eq (h : SpelledAlike n n') : n'.label = n.label := by
  cases h with
  | leaf hLabel => exact hLabel
  | branch => rfl

theorem role?_eq (h : SpelledAlike n n') : n'.role? = n.role? := by
  cases h <;> rfl

theorem text_eq (h : SpelledAlike n n') : n'.text = n.text := by
  cases h with
  | leaf _ hText => simp only [Node.text, Node.leaves, Node.spelling, hText, List.flatMap_nil]
  | branch hText => exact hText

theorem children (h : SpelledAlike n n') :
    List.Forall₂ SpelledAlike n.children n'.children := by
  cases h with
  | leaf => exact .nil
  | branch _ hChildren => exact hChildren

theorem filter_children (h : SpelledAlike n n') {p : Node → Bool}
    (hSeen : ∀ m m' : Node, m'.label = m.label → m'.role? = m.role? → p m' = p m) :
    List.Forall₂ SpelledAlike (n.children.filter p) (n'.children.filter p) := by
  refine List.rel_filter (fun {m m'} hm => ?_) h.children
  exact Bool.eq_iff_iff.mp (hSeen m m' hm.label_eq hm.role?_eq).symm

theorem namedChildren (h : SpelledAlike n n') :
    List.Forall₂ SpelledAlike n.namedChildren n'.namedChildren :=
  h.filter_children fun _ _ hLabel _ => by rw [hLabel]

theorem head? {ns ns' : List Node} (h : List.Forall₂ SpelledAlike ns ns') :
    Option.Rel SpelledAlike ns.head? ns'.head? := by
  cases h with
  | nil => exact .none
  | cons h _ => exact .some h

theorem child? (h : SpelledAlike n n') (role : Role) :
    Option.Rel SpelledAlike (n.child? role) (n'.child? role) := by
  rw [Node.child?, Node.child?, ← List.head?_filter, ← List.head?_filter]
  exact head? (h.filter_children fun _ _ _ hRole => by rw [hRole])

theorem texts_eq {ns ns' : List Node} (h : List.Forall₂ SpelledAlike ns ns') :
    ns'.map Node.text = ns.map Node.text := by
  induction h with
  | nil => rfl
  | cons hHead _ ih => rw [List.map_cons, List.map_cons, hHead.text_eq, ih]

theorem argumentTexts_eq (h : SpelledAlike n n') : argumentTexts n' = argumentTexts n := by
  rw [argumentTexts, argumentTexts, Node.namedChildren, Node.namedChildren, List.filter_filter,
    List.filter_filter]
  exact texts_eq (h.filter_children fun _ _ hLabel _ => by rw [hLabel])

protected theorem core {n n' : Node} (h : SpelledAlike n n') :
    SpelledAlike (core n) (core n') := by
  have hHead := head? h.namedChildren
  rw [core_eq n, core_eq n', h.label_eq]
  split
  · generalize hType : n.namedChildren.head? = type? at hHead ⊢
    generalize n'.namedChildren.head? = type'? at hHead ⊢
    cases hHead with
    | none => exact h
    | some hAlike =>
      have := sizeOf_child_lt (List.mem_filter.mp (List.mem_of_head? hType)).1
      exact hAlike.core
  · exact h
termination_by n

theorem shapeOf_eq (h : SpelledAlike n n') : shapeOf n' = shapeOf n := by
  have hElement := head? h.namedChildren
  have hReference := h.child? .name
  have hArguments := h.child? .typeArguments
  have hTexts : ((n'.child? .typeArguments).map argumentTexts).getD [] =
      ((n.child? .typeArguments).map argumentTexts).getD [] := by
    generalize n.child? .typeArguments = list? at hArguments ⊢
    generalize n'.child? .typeArguments = list'? at hArguments ⊢
    cases hArguments with
    | none => rfl
    | some hAlike => exact hAlike.argumentTexts_eq
  unfold shapeOf
  rw [h.label_eq, hTexts]
  split
  · generalize n.namedChildren.head? = element? at hElement ⊢
    generalize n'.namedChildren.head? = element'? at hElement ⊢
    cases hElement with
    | none => rfl
    | some hAlike => simp only [Option.map_some, Option.getD_some, hAlike.text_eq]
  · split
    · generalize n.child? .name = reference? at hReference ⊢
      generalize n'.child? .name = reference'? at hReference ⊢
      cases hReference with
      | none => rfl
      | some hAlike => simp only [Option.elim_some, hAlike.text_eq]
    · rfl

end SpelledAlike

/-! ## Parentheses -/

/-- The node is a mark or a keyword, anywhere in a text. -/
def IsMark (spelling : String) (n : Node) : Prop :=
  ∃ leading line, n = .leaf none ⟨.terminal (.literal spelling), leading, spelling.toList, line⟩

/-- The second node is the first one, at some place of a text, in any number of parentheses, each
perhaps with `readonly` in front. -/
inductive Encloses (type : Node) : Node → Prop
  | bare {n : Node} (h : SpelledAlike type n) : Encloses type n
  | parenthesized {opening n closing : Node} (hOpening : IsMark "(" opening)
      (h : Encloses type n) (hClosing : IsMark ")" closing) :
      Encloses type (.branch none (.category .parenthesizedType) [opening, n, closing])
  | readonly {keyword opening n closing : Node} (hKeyword : IsMark "readonly" keyword)
      (hOpening : IsMark "(" opening) (h : Encloses type n) (hClosing : IsMark ")" closing) :
      Encloses type (.branch none (.category .readonlyType)
        [keyword, .branch none (.category .parenthesizedType) [opening, n, closing]])

namespace IsMark

variable {spelling : String}

theorem label_eq (h : IsMark spelling n) : n.label = .terminal (.literal spelling) := by
  obtain ⟨_, _, rfl⟩ := h
  rfl

theorem isNamed_eq (h : IsMark spelling n) :
    n.label.isNamed = Terminal.valueWords.contains spelling := by
  rw [h.label_eq]
  rfl

end IsMark

theorem core_of_head? {m : Node} (hTransparent : n.label.isTransparent = true)
    (hHead : n.namedChildren.head? = some m) : core n = core m := by
  rw [core_eq, if_pos hTransparent, hHead, Option.map_some, Option.getD_some]

/-- Behind a mark, the first node that tells something is the first one of the rest. -/
theorem namedChildren_mark {role? : Option Role} {label : Label} {m : Node} {ms : List Node}
    (hMark : m.label.isNamed = false) :
    (Node.branch role? label (m :: ms)).namedChildren = ms.filter fun n => n.label.isNamed := by
  rw [Node.namedChildren, Node.children, List.filter_cons, hMark, if_neg Bool.false_ne_true]

theorem core_parenthesized {opening closing : Node} (hOpening : IsMark "(" opening)
    (hNamed : n.label.isNamed = true) :
    core (.branch none (.category .parenthesizedType) [opening, n, closing]) = core n := by
  refine core_of_head? rfl ?_
  rw [namedChildren_mark hOpening.isNamed_eq, List.filter_cons, if_pos hNamed, List.head?_cons]

theorem core_parenthesized_mark {opening closing : Node} (hOpening : IsMark "(" opening)
    (hClosing : IsMark ")" closing) (hMark : n.label.isNamed = false) :
    core (.branch none (.category .parenthesizedType) [opening, n, closing]) =
      .branch none (.category .parenthesizedType) [opening, n, closing] := by
  rw [core_eq, namedChildren_mark hOpening.isNamed_eq, List.filter_cons, hMark,
    if_neg Bool.false_ne_true, List.filter_cons, hClosing.isNamed_eq]
  rfl

theorem core_readonly {keyword : Node} (hKeyword : IsMark "readonly" keyword)
    (hNamed : n.label.isNamed = true) :
    core (.branch none (.category .readonlyType) [keyword, n]) = core n := by
  refine core_of_head? rfl ?_
  rw [namedChildren_mark hKeyword.isNamed_eq, List.filter_cons, if_pos hNamed, List.head?_cons]

namespace Encloses

variable {type : Node}

theorem isNamed (h : Encloses type n) (hNamed : type.label.isNamed = true) :
    n.label.isNamed = true := by
  cases h with
  | bare h => rwa [h.label_eq]
  | parenthesized => rfl
  | readonly => rfl

theorem spelledAlike_core (h : Encloses type n) (hNamed : type.label.isNamed = true) :
    SpelledAlike (core type) (core n) := by
  induction h with
  | bare h => exact h.core
  | parenthesized hOpening h _ ih =>
    rwa [core_parenthesized hOpening (h.isNamed hNamed)]
  | readonly hKeyword hOpening h _ ih =>
    rwa [core_readonly hKeyword rfl, core_parenthesized hOpening (h.isNamed hNamed)]

/-- A type that is a mark, such as `const`, has no shape of its own in parentheses. -/
theorem shapeOf_core_of_mark (h : Encloses type n) (hMark : type.label.isNamed = false) :
    SpelledAlike type n ∨ n.label.isNamed = true ∧ shapeOf (core n) = .other := by
  induction h with
  | bare h => exact .inl h
  | parenthesized hOpening h hClosing ih =>
    refine .inr ⟨rfl, ?_⟩
    rcases ih with hAlike | ⟨hNamed, hShape⟩
    · rw [core_parenthesized_mark hOpening hClosing (by rwa [hAlike.label_eq])]
      rfl
    · rwa [core_parenthesized hOpening hNamed]
  | readonly hKeyword hOpening h hClosing ih =>
    refine .inr ⟨rfl, ?_⟩
    rw [core_readonly hKeyword rfl]
    rcases ih with hAlike | ⟨hNamed, hShape⟩
    · rw [core_parenthesized_mark hOpening hClosing (by rwa [hAlike.label_eq])]
      rfl
    · rwa [core_parenthesized hOpening hNamed]

end Encloses

/-! ## A field with a type in parentheses -/

/-- An ascription in which nothing but the type tells something. -/
structure IsAscription (c : Frame) : Prop where
  role : c.role? = some .type
  before : areUnnamed c.before = true
  after : areUnnamed c.after = true

theorem IsAscription.head?_namedChildren {c : Frame} (h : IsAscription c) (type : Node) :
    (c.fill type).namedChildren.head? = if type.label.isNamed then some type else none := by
  have hAfter : c.after.filter (fun n => n.label.isNamed) = [] :=
    List.filter_eq_nil_iff.mpr fun m hm => by simpa using List.all_eq_true.mp h.after m hm
  rw [Node.namedChildren, Frame.fill, Node.children, head?_named_append, if_pos h.before,
    List.filter_cons, hAfter]
  split <;> rfl

/-- Parentheses around the type of a property, with or without `readonly`, leave the shape of its
field, and its text if this is a name. So the field has the same class and refers to the same models
in the same order, whatever models there are. -/
theorem enclosed_type_keeps_class {property property' ascription ascription' : Frame}
    {type type' : Node} (hProperty : IsProperty property) (hProperty' : IsProperty property')
    (hAscription : IsAscription ascription) (hAscription' : IsAscription ascription')
    (h : Encloses type type') :
    ∃ f f', fieldOf? (property.fill (ascription.fill type)) = some f ∧
      fieldOf? (property'.fill (ascription'.fill type')) = some f' ∧
      f'.shape = f.shape ∧ (f.shape = .name → f'.typeText = f.typeText) ∧
      ∀ known, Field.SameClass (classify known f) (classify known f') := by
  obtain ⟨name, hName⟩ := hProperty.exists_name
  obtain ⟨name', hName'⟩ := hProperty'.exists_name
  have hRole : (ascription.fill type).role? = some .type := hAscription.role
  have hRole' : (ascription'.fill type').role? = some .type := hAscription'.role
  have hField := fieldOf?_fill hProperty hRole (hName _ hRole)
  have hField' := fieldOf?_fill hProperty' hRole' (hName' _ hRole')
  rw [hAscription.head?_namedChildren] at hField
  rw [hAscription'.head?_namedChildren] at hField'
  suffices hSame : _ ∧ _ from
    ⟨_, _, hField, hField', hSame.1, hSame.2, fun _ => sameClass_of_shape hSame.1 hSame.2⟩
  cases hNamed : type.label.isNamed with
  | true =>
    have hCore := h.spelledAlike_core hNamed
    rw [if_pos (h.isNamed hNamed), if_pos rfl]
    simp only [annotated, Option.map_some, Option.getD_some, describe_eq_shapeOf]
    refine ⟨hCore.shapeOf_eq, fun hShape => ?_⟩
    rw [if_pos hShape, if_pos (hCore.shapeOf_eq.trans hShape), hCore.text_eq]
  | false =>
    rw [if_neg Bool.false_ne_true]
    rcases h.shapeOf_core_of_mark hNamed with hAlike | ⟨hNamed', hShape⟩
    · rw [hAlike.label_eq, hNamed, if_neg Bool.false_ne_true]
      exact ⟨rfl, fun hShape => by cases hShape⟩
    · rw [if_pos hNamed']
      simp only [annotated, Option.map_some, Option.getD_some, describe_eq_shapeOf]
      exact ⟨hShape, fun hName => by cases hName⟩

def mapToB (leading : String) : Node :=
  .branch none (.category .genericType) [
    token 1 (some .name) (.renamed .typeIdentifier) leading "Map",
    .branch (some .typeArguments) (.category .typeArguments) [mark 1 "" "<",
      token 1 none (.renamed .typeIdentifier) "" "K", mark 1 "" ",",
      token 1 none (.renamed .typeIdentifier) " " "B", mark 1 "" ">"]]

/-- In `(readonly (Map<K, B>))`, a field refers to `B` as it does in `Map<K, B>`. -/
theorem enclosed_map_refers_to_model :
    let ascription : Frame := ⟨some .type, .category .typeAscription, [mark 1 "" ":"], []⟩
    let type' := Node.branch none (.category .parenthesizedType) [mark 1 " " "(",
      .branch none (.category .readonlyType) [mark 1 "" "readonly",
        .branch none (.category .parenthesizedType) [mark 1 " " "(", mapToB "", mark 1 "" ")"]],
      mark 1 "" ")"]
    IsProperty propertyA ∧ IsAscription ascription ∧ Encloses (mapToB " ") type' ∧
      ∃ f f', fieldOf? (propertyA.fill (ascription.fill (mapToB " "))) = some f ∧
        fieldOf? (propertyA.fill (ascription.fill type')) = some f' ∧
        (classify [⟨0, "B"⟩] f').references = [⟨0, "B"⟩] := by
  intro ascription type'
  have hAscription : IsAscription ascription := ⟨rfl, by decide, by decide⟩
  have hAlike : SpelledAlike (mapToB " ") (mapToB "") :=
    .branch (by decide) (.cons (.leaf rfl rfl) (.cons (.branch rfl (.cons (.leaf rfl rfl)
      (.cons (.leaf rfl rfl) (.cons (.leaf rfl rfl) (.cons (.leaf rfl rfl)
      (.cons (.leaf rfl rfl) .nil)))))) .nil))
  have h : Encloses (mapToB " ") type' :=
    .parenthesized ⟨_, _, rfl⟩ (.readonly ⟨_, _, rfl⟩ ⟨_, _, rfl⟩ (.bare hAlike) ⟨_, _, rfl⟩)
      ⟨_, _, rfl⟩
  obtain ⟨f, f', hField, hField', _, _, hSame⟩ := enclosed_type_keeps_class isProperty_propertyA
    isProperty_propertyA hAscription hAscription h
  refine ⟨isProperty_propertyA, hAscription, h, f, f', hField, hField', ?_⟩
  rw [(hSame _).references]
  cases hField
  decide

end TypeDiagram.Source
