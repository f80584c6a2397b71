import TypeDiagram.Proofs.Model.Linking
import TypeDiagram.Proofs.Source.Comment

/-! # Comments and the class of a field

A comment between two tokens of a type ascription leaves the class of the field and the models that
it refers to as they are, unless it comes first of all that is named in the ascription or in the
parentheses and the `readonly` around its type. Such a comment is taken for the type, and the field
becomes a primitive one.
-/

namespace TypeDiagram

inductive FieldClass where
  | primitive
  | array
  | reference
  | model
deriving DecidableEq, Repr

namespace Field

def fieldClass : Field → FieldClass
  | .primitive .. => .primitive
  | .array .. => .array
  | .reference .. => .reference
  | .model .. => .model

/-- The fields have one class and refer to the same models. -/
structure SameClass (f f' : Field) : Prop where
  fieldClass : f'.fieldClass = f.fieldClass
  references : f'.references = f.references

theorem sameClass_primitive {name name' type type' : String} :
    SameClass (.primitive name type) (.primitive name' type') := ⟨rfl, rfl⟩

end Field

structure SameModel (known : List ModelRef) (s t : String) : Prop where
  whole : findModel? known t = findModel? known s
  trimmed : findModel? known (Text.trim t) = findModel? known (Text.trim s)
  isEmpty : t.isEmpty = s.isEmpty

variable {known : List ModelRef}

theorem target?_resolve (known : List ModelRef) (text : String) :
    (resolve known text).target? = findModel? known (Text.trim text) := by
  unfold resolve
  cases findModel? known (Text.trim text) <;> rfl

/-- Texts in the same positions that stand for the same models make fields of one class. -/
theorem sameClass_array {name s t text text' : String} (h : SameModel known s t) :
    Field.SameClass (classify known ⟨name, text, .array s⟩)
      (classify known ⟨name, text', .array t⟩) where
  fieldClass := rfl
  references := by
    change (resolve known t).target?.toList = (resolve known s).target?.toList
    rw [target?_resolve, target?_resolve, h.trimmed]

theorem sameClass_generic {name s t text text' : String} {arguments arguments' : List String}
    (h : SameModel known s t) (hArguments : List.Forall₂ (SameModel known) arguments arguments') :
    Field.SameClass (classify known ⟨name, text, .generic s arguments⟩)
      (classify known ⟨name, text', .generic t arguments'⟩) := by
  simp only [classify, h.isEmpty]
  split
  · exact Field.sameClass_primitive
  · refine ⟨rfl, ?_⟩
    simp only [Field.references, List.filterMap_map, Function.comp_def, target?_resolve]
    induction hArguments with
    | nil => rfl
    | cons hHead _ ih => rw [List.filterMap_cons, List.filterMap_cons, hHead.trimmed, ih]

theorem sameClass_name {name s t : String} (h : SameModel known s t) :
    Field.SameClass (classify known ⟨name, s, .name⟩) (classify known ⟨name, t, .name⟩) := by
  simp only [classify, h.whole]
  cases findModel? known s with
  | none => exact Field.sameClass_primitive
  | some m => exact ⟨rfl, rfl⟩

namespace Source

variable {comment : Leaf} {gap : List Char} {leads : Bool} {n n' : Node}

/-! ## Texts of types -/

theorem findModel?_eq_none (hKnown : ∀ r ∈ known, isWholeWord r.id.toList = true) {s : String}
    (h : isWholeWord s.toList = false) : findModel? known s = none := by
  cases hFind : findModel? known s with
  | none => rfl
  | some r =>
    have hName : r.id = s := by simpa using List.find?_some hFind
    have hDeclarable := hKnown r (Model.findModel?_mem hFind)
    rw [hName, h] at hDeclarable
    cases hDeclarable

/-- All names that the statements declare are words, as those in a source text are. -/
def DeclareWords (statements : List Node) : Prop :=
  ∀ d ∈ declared statements, isWholeWord d.name.toList = true

theorem DeclareWords.references {statements : List Node} (h : DeclareWords statements) :
    ∀ r ∈ Declaration.references (declared statements), isWholeWord r.id.toList = true := by
  intro r hr
  obtain ⟨d, hd, hName⟩ := mem_references_iff.mp hr
  rw [← hName]
  exact h d (List.mem_of_getElem? hd)

theorem not_isWholeWord_of_slash {s : String} (h : '/' ∈ s.toList) :
    isWholeWord s.toList = false ∧ isWholeWord (Text.trim s).toList = false := by
  have hSlash {t : String} (ht : '/' ∈ t.toList) : isWholeWord t.toList = false :=
    Bool.eq_false_iff.mpr fun hName => mark_not_mem_of_isWholeWord (by decide) hName ht
  exact ⟨hSlash h, hSlash (mem_trim h (by decide))⟩

theorem Commented.slash_mem (hComment : IsBlockComment comment)
    (h : Commented comment gap leads n n') : '/' ∈ n'.text.toList := by
  rw [Node.text, String.toList_ofList]
  refine text_subset_spelling h.comment_mem ?_
  exact hComment.opens.subset List.mem_cons_self

section Known

variable (hKnown : ∀ r ∈ known, isWholeWord r.id.toList = true) (hComment : IsBlockComment comment)

include hKnown hComment

/-- Around the place of a comment there is no name, with the comment or without it. -/
theorem sameModel_text (hProper : IsProper n) (h : Kept comment gap n n') :
    SameModel known n.text n'.text := by
  cases h with
  | same => exact ⟨rfl, rfl, rfl⟩
  | spaced =>
    rw [text_spaced]
    exact ⟨rfl, rfl, rfl⟩
  | commented h =>
    have hSpells := hProper.names n (mem_nodes_self n) h.two_le_tokens
    obtain ⟨hText, hTrimmed⟩ := Bool.or_eq_false_iff.mp hSpells
    obtain ⟨hText', hTrimmed'⟩ := not_isWholeWord_of_slash (h.slash_mem hComment)
    obtain ⟨xs, ys, _, hLeaves, _, ⟨l, hl, hNe⟩, _⟩ := h.leaves
    have hNonempty : n.text ≠ "" := text_ne_empty (hLeaves ▸ List.mem_append_left ys hl) hNe
    have hNonempty' : n'.text ≠ "" := by
      intro hEmpty
      have hSlash := h.slash_mem hComment
      rw [hEmpty] at hSlash
      cases hSlash
    refine ⟨?_, ?_, ?_⟩
    · rw [findModel?_eq_none hKnown hText, findModel?_eq_none hKnown hText']
    · rw [findModel?_eq_none hKnown hTrimmed, findModel?_eq_none hKnown hTrimmed']
    · rw [String.isEmpty_eq_false_iff.mpr hNonempty, String.isEmpty_eq_false_iff.mpr hNonempty']

theorem sameModel_argumentTexts (hProper : IsProper n) (h : Kept comment gap n n') :
    List.Forall₂ (SameModel known) (argumentTexts n) (argumentTexts n') := by
  have hKept : List.Forall₂ (Kept comment gap)
      (n.namedChildren.filter fun m => m.label != .terminal .comment)
      (n'.namedChildren.filter fun m => m.label != .terminal .comment) := by
    rw [Node.namedChildren, Node.namedChildren, List.filter_filter, List.filter_filter]
    refine h.filter_children ?_ fun m m' hLabel _ => by rw [hLabel]
    simp [Node.label, hComment.label]
  have hArguments : ∀ m ∈ n.namedChildren.filter fun m => m.label != .terminal .comment,
      IsProper m := fun m hm => hProper.namedChild (List.mem_filter.mp hm).1
  rw [argumentTexts, argumentTexts, List.forall₂_map_left_iff, List.forall₂_map_right_iff]
  exact ((List.forall₂_and_left _ _).mpr ⟨hArguments, hKept⟩).imp fun m m' hm =>
    sameModel_text hKnown hComment hm.1 hm.2

end Known

/-! ## Fields -/

theorem describe_eq (name : String) (type : Node) :
    describe name type =
      if (core type).label = .category .arrayType then
        match (core type).namedChildren.head? with
        | some element => ⟨name, type.text, .array element.text⟩
        | none => ⟨name, type.text, .other⟩
      else if (core type).label = .category .genericType then
        match (core type).child? .name with
        | some reference => ⟨name, type.text, .generic reference.text
            (((core type).child? .typeArguments).map argumentTexts |>.getD [])⟩
        | none => ⟨name, type.text, .other⟩
      else if (core type).label.isTypeName then ⟨name, (core type).text, .name⟩
      else ⟨name, type.text, .other⟩ := by
  unfold describe
  by_cases hArray : (core type).label = .category .arrayType
  · simp only [hArray, if_true, beq_self_eq_true]
    cases (core type).namedChildren.head? with
    | none => rfl
    | some element => rfl
  · simp only [beq_eq_false_iff_ne.mpr hArray, if_neg hArray]
    by_cases hGeneric : (core type).label = .category .genericType
    · simp only [hGeneric, if_true, beq_self_eq_true]
      cases (core type).child? .name with
      | none => rfl
      | some reference => rfl
    · simp only [beq_eq_false_iff_ne.mpr hGeneric, if_neg hGeneric]

section Known

variable (hKnown : ∀ r ∈ known, isWholeWord r.id.toList = true) (hComment : IsBlockComment comment)

include hKnown hComment

theorem sameClass_describe {type type' : Node} (hProper : IsProper type)
    (h : KeptType comment gap type type') (name : String) :
    Field.SameClass (classify known (describe name type))
      (classify known (describe name type')) := by
  have hInner := hProper.core
  rw [describe_eq name type, describe_eq name type', Kept.label_eq h]
  split
  · rename_i hArray
    have hElement := h.head?_namedChildren (hInner.elements _ (mem_nodes_self _) hArray)
    generalize hHead : (core type).namedChildren.head? = element? at hElement ⊢
    generalize (core type').namedChildren.head? = element'? at hElement ⊢
    cases hElement with
    | none => exact Field.sameClass_primitive
    | some hKept =>
      have hProperElement := hInner.namedChild (List.mem_of_head? hHead)
      exact sameClass_array (sameModel_text hKnown hComment hProperElement hKept)
  · split
    · have hReference := h.child? .name
      have hArguments := h.child? .typeArguments
      generalize hName : (core type).child? .name = reference? at hReference ⊢
      generalize (core type').child? .name = reference'? at hReference ⊢
      generalize hList : (core type).child? .typeArguments = list? at hArguments ⊢
      generalize (core type').child? .typeArguments = list'? at hArguments ⊢
      cases hReference with
      | none => exact Field.sameClass_primitive
      | some hKept =>
        have hProperName := hInner.child (List.mem_of_find?_eq_some hName)
        refine sameClass_generic (sameModel_text hKnown hComment hProperName hKept) ?_
        cases hArguments with
        | none => exact .nil
        | some hKeptList =>
          have hProperList := hInner.child (List.mem_of_find?_eq_some hList)
          exact sameModel_argumentTexts hKnown hComment hProperList hKeptList
    · split
      · exact sameClass_name (sameModel_text hKnown hComment hInner h)
      · exact Field.sameClass_primitive

end Known

theorem classify_describe_comment (hComment : IsBlockComment comment) {type : Node}
    (h : core type = .leaf none comment) (known : List ModelRef) (name : String) :
    classify known (describe name type) = .primitive name type.text := by
  rw [describe_eq, h, Node.label, hComment.label]
  rfl

/-! ## Properties -/

structure IsProperty (c : Frame) : Prop where
  label : c.label = .category .propertySignature
  first : c.IsFirst .type
  named : ∃ n ∈ c.before ++ c.after, n.role? = some .name

theorem IsProperty.exists_name {c : Frame} (h : IsProperty c) :
    ∃ name, ∀ ascription : Node, ascription.role? = some .type →
      propertyName? (c.fill ascription) = some name := by
  have hFound (ascription : Node) (hRole : ascription.role? = some .type) :
      (c.fill ascription).child? .name = (c.before ++ c.after).find? fun n =>
        n.role? == some .name := by
    simp only [Node.child?, Frame.fill, Node.children, List.find?_append, List.find?_cons, hRole]
    rfl
  obtain ⟨n, hn, hRole⟩ := h.named
  cases hFind : (c.before ++ c.after).find? fun n => n.role? == some Role.name with
  | none => exact absurd (beq_iff_eq.mpr hRole) (List.find?_eq_none.mp hFind n hn)
  | some name =>
    refine ⟨if name.label == .category .stringLiteral then unquote name.text else name.text,
      fun ascription hAscription => ?_⟩
    rw [propertyName?, hFound ascription hAscription, hFind]
    rfl

/-- An ascription without a type stands for anything. -/
def annotated (name : String) (type? : Option Node) : DeclaredField :=
  (type?.map (describe name)).getD ⟨name, "any", .other⟩

theorem name_annotated (name : String) (type? : Option Node) :
    (annotated name type?).name = name := by
  cases type? with
  | none => rfl
  | some type =>
    change (describe name type).name = name
    rw [describe_eq]
    repeat' split
    all_goals rfl

theorem fieldOf?_fill {c : Frame} {ascription : Node} {name : String} (h : IsProperty c)
    (hRole : ascription.role? = some .type)
    (hName : propertyName? (c.fill ascription) = some name) :
    fieldOf? (c.fill ascription) = some (annotated name ascription.namedChildren.head?) := by
  rw [fieldOf?, hName, Frame.child?_fill h.first hRole]
  cases hNamed : ascription.namedChildren <;> simp [annotated, hNamed]

/-- With a block comment between two tokens of the ascription of a property, what the statements
declare differs in the field of the property only. Its class and the models that it refers to stay
the same, unless the comment leads in the ascription: then the field is a primitive one. The
statements are those of any tree, and so of every source text (`declarations_eq_declared`). -/
theorem comment_keeps_class_unless_it_leads {place : MemberPlace} {property : Frame}
    {ascription ascription' : Node} (hPlace : place.IsDeclared) (hProperty : IsProperty property)
    (hRole : ascription.role? = some .type) (hProper : IsProper ascription)
    (hComment : IsBlockComment comment) (hWords : DeclareWords (place.fill (property.fill ascription)))
    (h : Commented comment gap leads ascription ascription') :
    let ds := declared (place.fill (property.fill ascription))
    let ds' := declared (place.fill (property.fill ascription'))
    ∃ f f', fieldOf? (property.fill ascription) = some f ∧
      fieldOf? (property.fill ascription') = some f' ∧ f'.name = f.name ∧
      List.Forall₂ (DiffersIn f f') ds ds' ∧
      let field := classify (Declaration.references ds) f
      let field' := classify (Declaration.references ds') f'
      if leads then field'.fieldClass = .primitive ∧ field'.references = []
      else field.SameClass field' := by
  intro ds ds'
  obtain ⟨name, hName⟩ := hProperty.exists_name
  have hRole' : ascription'.role? = some .type := h.role?_eq.trans hRole
  have hField := fieldOf?_fill hProperty hRole (hName ascription hRole)
  have hField' := fieldOf?_fill hProperty hRole' (hName ascription' hRole')
  have hDiffer := differIn_declared ((h.alike hComment).fill property) hProperty.label hField
    hField' hPlace
  refine ⟨_, _, hField, hField', ?_, hDiffer, ?_⟩
  · rw [name_annotated, name_annotated]
  · rw [references_eq_of_differIn hDiffer]
    have hType := h.type hComment
    generalize hHead : ascription.namedChildren.head? = type? at hType ⊢
    generalize ascription'.namedChildren.head? = type'? at hType ⊢
    cases leads with
    | true =>
      obtain ⟨type, rfl, hCore⟩ := hType
      have hField : classify (Declaration.references ds) (annotated name (some type)) =
          .primitive name type.text := classify_describe_comment hComment hCore _ name
      dsimp only
      rw [if_pos rfl, hField]
      exact ⟨rfl, rfl⟩
    | false =>
      cases hType with
      | none => exact Field.sameClass_primitive
      | some hKept =>
        have hProperType := hProper.namedChild (List.mem_of_head? hHead)
        exact sameClass_describe hWords.references hComment hProperType hKept name

/-! ### Statements of short texts

The statements below are those that reading gives for the texts that they spell. The states of a
reader of the whole grammar are too many for a proof to build them, so that is not proved here.
-/

/-- The text of some statements. -/
def textOf (statements : List Node) : String :=
  String.ofList (Node.spelling (Node.leavesOf statements))

def token (line : Nat) (role? : Option Role) (label : Label) (leading text : String) : Node :=
  .leaf role? ⟨label, leading.toList, text.toList, line⟩

def mark (line : Nat) (leading spelling : String) : Node :=
  token line none (.terminal (.literal spelling)) leading spelling

def aliasOf (line : Nat) (leading name : String) (value : Node) : Node :=
  .branch none (.category .typeAliasDeclaration) [mark line leading "type",
    token line (some .name) (.renamed .typeIdentifier) " " name, mark line " " "=", value,
    mark line "" ";"]

def objectOf (line : Nat) (members : List Node) : Node :=
  .branch (some .value) (.category .objectType)
    (mark line " " "\x7b" :: members ++ [mark line "" "\x7d"])

def memberBehind (before : List Node) (leading : String) : MemberPlace where
  before
  exporter? := none
  declaration := ⟨none, .category .interfaceDeclaration,
    [mark 1 leading "interface", token 1 (some .name) (.renamed .typeIdentifier) " " "A"], []⟩
  object := ⟨some .body, .renamed .interfaceBody, [mark 1 " " "\x7b"],
    [token 1 none (.terminal .automaticSemicolon) "" "", mark 1 " " "\x7d"]⟩
  after := [token 1 none (.terminal .endOfSource) "" ""]

/-- The place of the member of `A`, behind `B`. -/
def memberOfA : MemberPlace := memberBehind [aliasOf 1 "" "B" (objectOf 1 [])] " "

def propertyA : Frame :=
  ⟨none, .category .propertySignature,
    [token 1 (some .name) (.renamed .propertyIdentifier) " " "a"], []⟩

def ascriptionOf (types : List Node) : Node :=
  .branch (some .type) (.category .typeAscription) (mark 1 "" ":" :: types)

def nameB : Node := token 1 none (.renamed .typeIdentifier) " " "B"

def blockComment : Leaf := ⟨.terminal .comment, [' '], "/* c */".toList, 1⟩

theorem isDeclared_memberOfA : memberOfA.IsDeclared where
  exporter e he := absurd he (Option.not_mem_none e)
  declaration := by decide
  object := rfl
  body := rfl
  first := by decide

theorem isProperty_propertyA : IsProperty propertyA := ⟨rfl, by decide, by decide⟩

theorem isBlockComment_blockComment : IsBlockComment blockComment :=
  ⟨rfl, by decide, by decide, by decide⟩

def enclosed (parts : List Node) : Node :=
  ascriptionOf [.branch none (.category .parenthesizedType) [mark 1 " " "(",
    .branch none (.category .readonlyType) [mark 1 "" "readonly",
      .branch none (.category .arrayType) parts], mark 1 "" ")"]]

/-- With a comment in front of the brackets, `(readonly B[])` is an array of `B` as before. -/
theorem comment_in_front_of_brackets_keeps_class :
    let ascription := enclosed [nameB, mark 1 "" "[", mark 1 "" "]"]
    let ascription' := enclosed [nameB, .leaf none blockComment, mark 1 " " "[", mark 1 "" "]"]
    let ds := declared (memberOfA.fill (propertyA.fill ascription))
    let ds' := declared (memberOfA.fill (propertyA.fill ascription'))
    textOf (memberOfA.fill (propertyA.fill ascription)) =
        "type B = {}; interface A { a: (readonly B[]) }" ∧
      textOf (memberOfA.fill (propertyA.fill ascription')) =
        "type B = {}; interface A { a: (readonly B /* c */ []) }" ∧
      memberOfA.IsDeclared ∧ IsProperty propertyA ∧ ascription.role? = some .type ∧
      IsProper ascription ∧ IsBlockComment blockComment ∧
      DeclareWords (memberOfA.fill (propertyA.fill ascription)) ∧
      Commented blockComment [' '] false ascription ascription' ∧
      ∃ f f', fieldOf? (propertyA.fill ascription) = some f ∧
        fieldOf? (propertyA.fill ascription') = some f' ∧
        classify (Declaration.references ds) f = .array "a" (.model ⟨0, "B"⟩) ∧
        Field.SameClass (classify (Declaration.references ds) f)
          (classify (Declaration.references ds') f') := by
  intro ascription ascription' ds ds'
  have hProper : IsProper ascription := ⟨by decide, by decide⟩
  have hWords : DeclareWords (memberOfA.fill (propertyA.fill ascription)) := by
    unfold DeclareWords
    decide
  have h : Commented blockComment [' '] false ascription ascription' := by
    have hArray : Commented blockComment [' '] false
        (.branch none (.category .arrayType) ([nameB] ++ [mark 1 "" "[", mark 1 "" "]"]))
        (.branch none (.category .arrayType)
          [nameB, .leaf none blockComment, mark 1 " " "[", mark 1 "" "]"]) :=
      .here rfl ⟨_, .head _, by decide⟩ ⟨_, .head _, by decide⟩
    have hReadonly := hArray.inside ⟨none, .category .readonlyType, [mark 1 "" "readonly"], []⟩ rfl
    have hEnclosed := hReadonly.inside
      ⟨none, .category .parenthesizedType, [mark 1 " " "("], [mark 1 "" ")"]⟩ rfl
    exact hEnclosed.inside ⟨some .type, .category .typeAscription, [mark 1 "" ":"], []⟩ rfl
  obtain ⟨f, f', hField, hField', _, _, hSame⟩ := comment_keeps_class_unless_it_leads
    isDeclared_memberOfA isProperty_propertyA rfl hProper isBlockComment_blockComment hWords h
  refine ⟨by decide, by decide, isDeclared_memberOfA, isProperty_propertyA, rfl, hProper,
    isBlockComment_blockComment, hWords, h, f, f', hField, hField', ?_, hSame⟩
  cases hField
  decide

/-- A comment between the colon and `B` hides that `a` refers to `B`. -/
theorem comment_behind_colon_hides_model :
    let ascription := ascriptionOf [nameB]
    let ascription' := ascriptionOf [.leaf none blockComment, nameB]
    let ds := declared (memberOfA.fill (propertyA.fill ascription))
    let ds' := declared (memberOfA.fill (propertyA.fill ascription'))
    textOf (memberOfA.fill (propertyA.fill ascription)) = "type B = {}; interface A { a: B }" ∧
      textOf (memberOfA.fill (propertyA.fill ascription')) =
        "type B = {}; interface A { a: /* c */ B }" ∧
      memberOfA.IsDeclared ∧ IsProperty propertyA ∧ ascription.role? = some .type ∧
      IsProper ascription ∧ IsBlockComment blockComment ∧
      DeclareWords (memberOfA.fill (propertyA.fill ascription)) ∧
      Commented blockComment [' '] true ascription ascription' ∧
      ∃ f f', fieldOf? (propertyA.fill ascription) = some f ∧
        fieldOf? (propertyA.fill ascription') = some f' ∧
        ¬ Field.SameClass (classify (Declaration.references ds) f)
          (classify (Declaration.references ds') f') := by
  intro ascription ascription' ds ds'
  have h : Commented blockComment [' '] true
      (.branch (some .type) (.category .typeAscription) ([mark 1 "" ":"] ++ [nameB])) ascription' :=
    .here rfl ⟨_, .head _, by decide⟩ ⟨_, .head _, by decide⟩
  have hModel : classify (Declaration.references ds) ⟨"a", "B", .name⟩ = .model "a" ⟨0, "B"⟩ := by
    decide
  have hPrimitive : classify (Declaration.references ds') ⟨"a", "/* c */", .other⟩ =
      .primitive "a" "/* c */" := rfl
  refine ⟨by decide, by decide, isDeclared_memberOfA, isProperty_propertyA, rfl,
    ⟨by decide, by decide⟩, isBlockComment_blockComment, by unfold DeclareWords; decide, h,
    ⟨"a", "B", .name⟩, ⟨"a", "/* c */", .other⟩, by decide, by decide, fun hSame => ?_⟩
  have hClass := hSame.fieldClass
  rw [hModel, hPrimitive] at hClass
  cases hClass

end Source

end TypeDiagram
