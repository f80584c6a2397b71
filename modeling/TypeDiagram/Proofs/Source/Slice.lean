import TypeDiagram.Proofs.Source.Shape

/-! # Texts of nodes are slices

The leaves of a tree spell out the text that it was cut from, blanks included. So the text of a node
is a slice of the source text, and the texts of its children stand in it one behind another. The
same holds of the texts that a field takes from its type.
-/

namespace TypeDiagram

def TypeShape.parts : TypeShape → List String
  | array element => [element]
  | generic reference arguments => reference :: arguments
  | name | other => []

namespace Source

/-- The texts stand one behind another in the longer one, with anything between them. -/
def InOrder : List String → List Char → Prop
  | [], _ => True
  | s :: ss, text => ∃ gap rest, text = gap ++ (s.toList ++ rest) ∧ InOrder ss rest

namespace InOrder

variable {s : String} {ss ts : List String} {text rest longer : List Char}

theorem append_left (h : InOrder ss rest) (gap : List Char) : InOrder ss (gap ++ rest) := by
  cases ss with
  | nil => trivial
  | cons s ss =>
    obtain ⟨before, after, rfl, hRest⟩ := h
    exact ⟨gap ++ before, after, (List.append_assoc _ _ _).symm, hRest⟩

theorem append_right (h : InOrder ss text) (rest : List Char) : InOrder ss (text ++ rest) := by
  induction ss generalizing text with
  | nil => trivial
  | cons s ss ih =>
    obtain ⟨gap, after, rfl, hRest⟩ := h
    exact ⟨gap, after ++ rest, by simp only [List.append_assoc], ih hRest⟩

theorem mono (h : InOrder ss text) (hSlice : text <:+: longer) : InOrder ss longer := by
  obtain ⟨before, after, rfl⟩ := hSlice
  exact (h.append_left before).append_right after

theorem append (h : InOrder ss text) (h' : InOrder ts rest) :
    InOrder (ss ++ ts) (text ++ rest) := by
  induction ss generalizing text with
  | nil => exact h'.append_left text
  | cons s ss ih =>
    obtain ⟨gap, after, rfl, hRest⟩ := h
    exact ⟨gap, after ++ rest, by simp only [List.append_assoc], ih hRest⟩

theorem of_cons (h : InOrder (s :: ss) text) : InOrder ss text := by
  obtain ⟨gap, rest, rfl, hRest⟩ := h
  rw [← List.append_assoc]
  exact hRest.append_left _

theorem sublist (h : InOrder ss text) (hSub : ts.Sublist ss) : InOrder ts text := by
  induction hSub generalizing text with
  | slnil => trivial
  | cons _ _ ih => exact ih h.of_cons
  | cons_cons _ _ ih =>
    obtain ⟨gap, rest, hText, hRest⟩ := h
    exact ⟨gap, rest, hText, ih hRest⟩

theorem isInfix (h : InOrder ss text) (hs : s ∈ ss) : s.toList <:+: text := by
  obtain ⟨gap, rest, rfl, _⟩ : InOrder [s] text := h.sublist (List.singleton_sublist.mpr hs)
  exact ⟨gap, rest, List.append_assoc _ _ _⟩

theorem concat (h : InOrder (ss ++ [s]) text) (h' : InOrder ts s.toList) :
    InOrder (ss ++ ts) text := by
  induction ss generalizing text with
  | nil => exact h'.mono (h.isInfix (List.mem_singleton_self s))
  | cons _ ss ih =>
    obtain ⟨gap, rest, hText, hRest⟩ := h
    exact ⟨gap, rest, hText, ih hRest⟩

end InOrder

/-! ## Texts within a tree -/

def span (ls : List Leaf) : List Char := ls.flatMap fun l => l.leading ++ l.text

theorem span_append (ls ms : List Leaf) : span (ls ++ ms) = span ls ++ span ms :=
  List.flatMap_append

theorem spelling_append {ls : List Leaf} (hls : ls ≠ []) (ms : List Leaf) :
    Node.spelling (ls ++ ms) = Node.spelling ls ++ span ms := by
  cases ls with
  | nil => exact absurd rfl hls
  | cons l ls =>
    simp only [List.cons_append, Node.spelling, List.flatMap_append, List.append_assoc, span]

theorem span_eq_append_spelling (ls : List Leaf) : ∃ gap, span ls = gap ++ Node.spelling ls := by
  cases ls with
  | nil => exact ⟨[], rfl⟩
  | cons l ls =>
    refine ⟨l.leading, ?_⟩
    rw [span, List.flatMap_cons, Node.spelling, List.append_assoc]

theorem toList_text (n : Node) : n.text.toList = Node.spelling n.leaves := String.toList_ofList

theorem inOrder_span (ns : List Node) : InOrder (ns.map Node.text) (span (Node.leavesOf ns)) := by
  induction ns with
  | nil => trivial
  | cons n ns ih =>
    rw [Node.leavesOf, span_append]
    have hFirst : InOrder [n.text] (span n.leaves) := by
      obtain ⟨gap, hGap⟩ := span_eq_append_spelling n.leaves
      exact ⟨gap, [], by rw [hGap, toList_text, List.append_nil], trivial⟩
    exact hFirst.append ih

theorem inOrder_spelling (ns : List Node) :
    InOrder (ns.map Node.text) (Node.spelling (Node.leavesOf ns)) := by
  induction ns with
  | nil => trivial
  | cons n ns ih =>
    rw [Node.leavesOf]
    by_cases hNone : n.leaves = []
    · rw [hNone, List.nil_append]
      refine ⟨[], _, ?_, ih⟩
      rw [toList_text, hNone]
      rfl
    · rw [spelling_append hNone]
      exact ⟨[], _, by rw [toList_text, List.nil_append], inOrder_span ns⟩

/-- The texts of the children of a node stand one behind another in the text of the node. -/
theorem inOrder_children (n : Node) : InOrder (n.children.map Node.text) n.text.toList := by
  rw [toList_text]
  cases n with
  | leaf => trivial
  | branch _ _ children => exact inOrder_spelling children

theorem text_infix_of_mem_children {n m : Node} (h : m ∈ n.children) :
    m.text.toList <:+: n.text.toList :=
  (inOrder_children n).isInfix (List.mem_map_of_mem h)

theorem mem_nodesOf_iff {ns : List Node} {m : Node} :
    m ∈ Node.nodesOf ns ↔ ∃ n ∈ ns, m ∈ n.nodes := by
  induction ns with
  | nil => simp [Node.nodesOf]
  | cons n ns ih => simp [Node.nodesOf, ih]

theorem mem_nodes_iff {n m : Node} : m ∈ n.nodes ↔ m = n ∨ ∃ c ∈ n.children, m ∈ c.nodes := by
  cases n with
  | leaf => simp [Node.nodes, Node.children]
  | branch => rw [Node.nodes, List.mem_cons, mem_nodesOf_iff]; rfl

theorem mem_nodes_trans {n m k : Node} (hm : m ∈ n.nodes) (hk : k ∈ m.nodes) : k ∈ n.nodes := by
  rcases mem_nodes_iff.mp hm with rfl | ⟨c, hc, hm⟩
  · exact hk
  · have := sizeOf_child_lt hc
    exact mem_nodes_iff.mpr (.inr ⟨c, hc, mem_nodes_trans hm hk⟩)
termination_by n

theorem mem_nodes_of_mem_children {n m c : Node} (h : c ∈ m.children) (hm : m ∈ n.nodes) :
    c ∈ n.nodes :=
  mem_nodes_trans hm (mem_nodes_iff.mpr (.inr ⟨c, h, mem_nodes_self c⟩))

theorem text_infix_of_mem_nodes {n m : Node} (h : m ∈ n.nodes) :
    m.text.toList <:+: n.text.toList := by
  rcases mem_nodes_iff.mp h with rfl | ⟨c, hc, hm⟩
  · exact List.infix_refl _
  · have := sizeOf_child_lt hc
    exact (text_infix_of_mem_nodes hm).trans (text_infix_of_mem_children hc)
termination_by n

/-! ## Texts within the source -/

mutual
theorem span_cut (role? : Option Role) (shownAs? : Option Alias) (line : Nat) (text : List Char)
    (t : Subtree) :
    text = span (Node.leavesOf (t.cut role? shownAs? line text).1) ++
      (t.cut role? shownAs? line text).2.2 := by
  cases t with
  | node f children =>
    cases children with
    | nil =>
      simp only [Subtree.cut, Node.leavesOf, Node.leaves, span, List.append_nil, List.flatMap_cons,
        List.flatMap_nil, List.append_assoc, List.take_append_drop]
    | cons c cs =>
      rw [Subtree.cut]
      split
      · exact span_cutAll f.form role? 0 line text (c :: cs)
      · have h := span_cutAll f.form none 0 line text (c :: cs)
        rwa [Node.leavesOf, Node.leavesOf, Node.leaves, List.append_nil]
theorem span_cutAll (form : Form) (inherited? : Option Role) (place line : Nat) (text : List Char)
    (ts : List Subtree) :
    text = span (Node.leavesOf (Subtree.cutAll form inherited? place line text ts).1) ++
      (Subtree.cutAll form inherited? place line text ts).2.2 := by
  cases ts with
  | nil => rfl
  | cons c cs =>
    have hHead := span_cut (if c.facts.isExtra then none else form.role? place <|> inherited?)
      (if c.facts.isExtra then none else form.shownAs? place) line text c
    have hTail := span_cutAll form inherited? (if c.facts.isExtra then place else place + 1)
      (c.cut (if c.facts.isExtra then none else form.role? place <|> inherited?)
        (if c.facts.isExtra then none else form.shownAs? place) line text).2.1
      (c.cut (if c.facts.isExtra then none else form.role? place <|> inherited?)
        (if c.facts.isExtra then none else form.shownAs? place) line text).2.2 cs
    rw [Subtree.cutAll, leavesOf_append, span_append, List.append_assoc, ← hTail, ← hHead]
end

theorem topLevel_eq : topLevel = fun source => ((Reader.read? source.toList).map fun t =>
    (t.cut none none 1 source.toList).1.flatMap Node.children).getD [] := by
  delta topLevel
  funext source
  cases Reader.read? source.toList <;> rfl

/-- The top level of a source text is what stands directly below the nodes of its tree. -/
theorem mem_topLevel {source : String} {n : Node} (h : n ∈ topLevel source) :
    ∃ t, Reader.read? source.toList = some t ∧
      ∃ m ∈ (t.cut none none 1 source.toList).1, n ∈ m.children := by
  rw [topLevel_eq] at h
  cases hRead : Reader.read? source.toList with
  | none =>
    simp only [hRead, Option.map_none, Option.getD_none, List.not_mem_nil] at h
  | some t =>
    simp only [hRead, Option.map_some, Option.getD_some, List.mem_flatMap] at h
    exact ⟨t, rfl, h⟩

theorem text_infix_of_mem_topLevel {source : String} {n : Node} (h : n ∈ topLevel source) :
    n.text.toList <:+: source.toList := by
  obtain ⟨t, _, m, hm, hn⟩ := mem_topLevel h
  refine (text_infix_of_mem_children hn).trans ?_
  have hSlice := (inOrder_span (t.cut none none 1 source.toList).1).isInfix (List.mem_map_of_mem hm)
  refine hSlice.trans ⟨[], (t.cut none none 1 source.toList).2.2, ?_⟩
  exact (span_cut none none 1 source.toList t).symm

theorem text_infix_of_mem_nodesOf {source : String} {n : Node}
    (h : n ∈ Node.nodesOf (topLevel source)) : n.text.toList <:+: source.toList := by
  obtain ⟨m, hm, hn⟩ := mem_nodesOf_iff.mp h
  exact (text_infix_of_mem_nodes hn).trans (text_infix_of_mem_topLevel hm)

/-! ## Texts of a type -/

/-- In a generic type, the name stands in front of the arguments. -/
def NameLeads (n : Node) : Prop :=
  n.label = .category .genericType → ∀ name arguments, n.child? .name = some name →
    n.child? .typeArguments = some arguments → [name, arguments].Sublist n.children

theorem core_mem_nodes (n : Node) : core n ∈ n.nodes := by
  rw [core_eq]
  split
  · cases hHead : n.namedChildren.head? with
    | none => exact mem_nodes_self n
    | some type =>
      have hType : type ∈ n.children := (List.mem_filter.mp (List.mem_of_head? hHead)).1
      have := sizeOf_child_lt hType
      exact mem_nodes_iff.mpr (.inr ⟨type, hType, core_mem_nodes type⟩)
  · exact mem_nodes_self n
termination_by n

theorem inOrder_argumentTexts (n : Node) : InOrder (argumentTexts n) n.text.toList := by
  refine (inOrder_children n).sublist (List.Sublist.map _ ?_)
  exact List.filter_sublist.trans List.filter_sublist

theorem inOrder_shapeOf {n : Node} (h : NameLeads n) :
    InOrder (shapeOf n).parts n.text.toList := by
  unfold shapeOf
  split
  · cases hHead : n.namedChildren.head? with
    | none => trivial
    | some element =>
      have hElement : [element].Sublist n.children :=
        List.singleton_sublist.mpr (List.mem_filter.mp (List.mem_of_head? hHead)).1
      exact (inOrder_children n).sublist (hElement.map Node.text)
  · split
    · rename_i hGeneric
      cases hName : n.child? .name with
      | none => trivial
      | some name =>
        cases hArguments : n.child? .typeArguments with
        | none =>
          have hSub : [name].Sublist n.children :=
            List.singleton_sublist.mpr (List.mem_of_find?_eq_some hName)
          exact (inOrder_children n).sublist (hSub.map Node.text)
        | some arguments =>
          have hSub := h hGeneric name arguments hName hArguments
          have hPair : InOrder ([name.text] ++ [arguments.text]) n.text.toList :=
            (inOrder_children n).sublist (hSub.map Node.text)
          exact hPair.concat (inOrder_argumentTexts arguments)
    · split <;> trivial

/-- The text of a field lies in its type, and so do the parts of its shape in this text. -/
theorem describe_slices {type : Node} (h : ∀ n ∈ type.nodes, NameLeads n) (name : String) :
    (describe name type).typeText.toList <:+: type.text.toList ∧
      InOrder (describe name type).shape.parts (describe name type).typeText.toList := by
  have hCore := text_infix_of_mem_nodes (core_mem_nodes type)
  rw [describe_eq_shapeOf]
  by_cases hShape : shapeOf (core type) = .name
  · simp only [hShape]
    exact ⟨hCore, trivial⟩
  · simp only [if_neg hShape]
    exact ⟨List.infix_refl _, (inOrder_shapeOf (h _ (core_mem_nodes type))).mono hCore⟩

/-! ## Fields and their properties -/

def typeOf? (property : Node) : Option Node :=
  (((property.child? .type).map Node.namedChildren).getD []).head?

theorem fieldOf?_eq (property : Node) :
    fieldOf? property =
      (propertyName? property).map fun name => annotated name (typeOf? property) := by
  unfold fieldOf? typeOf?
  cases propertyName? property with
  | none => rfl
  | some name =>
    cases ((property.child? .type).map Node.namedChildren).getD [] <;> rfl

theorem child?_mem_children {n m : Node} {role : Role} (h : n.child? role = some m) :
    m ∈ n.children := List.mem_of_find?_eq_some h

theorem typeOf?_mem_nodes {property type : Node} (h : typeOf? property = some type) :
    type ∈ property.nodes := by
  unfold typeOf? at h
  cases hChild : property.child? .type with
  | none =>
    rw [hChild] at h
    cases h
  | some ascription =>
    rw [hChild] at h
    have hType : type ∈ ascription.children := (List.mem_filter.mp (List.mem_of_head? h)).1
    exact mem_nodes_of_mem_children hType
      (mem_nodes_of_mem_children (child?_mem_children hChild) (mem_nodes_self property))

theorem mem_fieldsOf {object : Node} {f : DeclaredField} (h : f ∈ fieldsOf object) :
    ∃ property ∈ object.nodes, fieldOf? property = some f := by
  obtain ⟨property, hProperty, hField⟩ := List.mem_filterMap.mp h
  have hChild := (List.mem_filter.mp (List.mem_filter.mp hProperty).1).1
  exact ⟨property, mem_nodes_of_mem_children hChild (mem_nodes_self object), hField⟩

theorem mem_fields_declarationOf? {n : Node} {d : Declaration} {f : DeclaredField}
    (h : declarationOf? n = some d) (hf : f ∈ d.fields) :
    ∃ property ∈ n.nodes, fieldOf? property = some f := by
  unfold declarationOf? at h
  obtain ⟨name, _, h⟩ := Option.bind_eq_some_iff.mp h
  obtain rfl := Option.some.inj h
  dsimp only at hf
  generalize hRole : (if n.label == .category .interfaceDeclaration then Role.body else .value) =
    role at hf
  cases hBody : n.child? role with
  | none => rw [hBody] at hf; cases hf
  | some body =>
    rw [hBody, Option.filter] at hf
    split at hf
    · obtain ⟨property, hProperty, hField⟩ := mem_fieldsOf hf
      refine ⟨property, ?_, hField⟩
      exact mem_nodes_iff.mpr (.inr ⟨body, child?_mem_children hBody, hProperty⟩)
    · cases hf

theorem mem_fields_declarations {source : String} {d : Declaration} {f : DeclaredField}
    (hd : d ∈ declarations source) (hf : f ∈ d.fields) :
    ∃ property ∈ Node.nodesOf (topLevel source), fieldOf? property = some f := by
  obtain ⟨n, hn, hDeclaration⟩ := exists_declarationOf?_of_mem_declared hd
  obtain ⟨property, hProperty, hField⟩ := mem_fields_declarationOf? hDeclaration hf
  obtain ⟨statement, hStatement, hExported⟩ := List.mem_filterMap.mp (List.mem_filter.mp hn).1
  refine ⟨property, mem_nodesOf_iff.mpr ⟨statement, hStatement, ?_⟩, hField⟩
  unfold exported? at hExported
  split at hExported
  · exact mem_nodes_iff.mpr (.inr ⟨n, child?_mem_children hExported, hProperty⟩)
  · obtain rfl := Option.some.inj hExported
    exact hProperty

end Source

end TypeDiagram
