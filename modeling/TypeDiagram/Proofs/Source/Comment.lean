import TypeDiagram.Proofs.Source.Member
import TypeDiagram.Proofs.Source.Word

/-! # A comment between two tokens

A block comment between two tokens becomes a child of the innermost node that it stands in. All
that changes besides are the blanks in front of the token behind it. Where types are looked for,
two nodes that differ in a comment only are then told apart in one case: the comment comes first
of all that is named.
-/

namespace TypeDiagram.Source

structure IsBlockComment (l : Leaf) : Prop where
  label : l.label = .terminal .comment
  opens : ['/', '*'] <+: l.text
  whole : commentLength l.text = l.text.length
  oneLine : l.text.any endsLine = false

namespace Node

mutual
def nodes : Node → List Node
  | .leaf role? l => [.leaf role? l]
  | .branch role? label children => .branch role? label children :: nodesOf children
def nodesOf : List Node → List Node
  | [] => []
  | n :: ns => n.nodes ++ nodesOf ns
end

mutual
def spaced (gap : List Char) : Node → Node
  | .leaf role? l => .leaf role? { l with leading := gap }
  | .branch role? label children => .branch role? label (spacedAll gap children)
def spacedAll (gap : List Char) : List Node → List Node
  | [] => []
  | n :: ns => n.spaced gap :: ns
end

def tokens (n : Node) : List Leaf := n.leaves.filter fun l => !l.text.isEmpty

/-- Can the text of the node be declared as a name, with or without the blanks around it? -/
def spellsName (n : Node) : Bool :=
  isWholeWord n.text.toList || isWholeWord (Text.trim n.text).toList

end Node

/-- What holds of the trees of well-formed types: only a single token spells a name, and an array
type begins with the type of its elements. -/
structure IsProper (n : Node) : Prop where
  names : ∀ m ∈ n.nodes, 2 ≤ m.tokens.length → m.spellsName = false
  elements : ∀ m ∈ n.nodes, m.label = .category .arrayType →
    ∀ element ∈ m.children.head?, element.label.isNamed = true

def HoldToken (ns : List Node) : Prop := ∃ l ∈ Node.leavesOf ns, l.text ≠ []

def areUnnamed (ns : List Node) : Bool := ns.all fun n => !n.label.isNamed

/-- The second node is the first one with the comment between two of its tokens and the given blanks
behind the comment. The comment leads if it is the first named node that one meets who opens, from
the node on, the nodes that only enclose another one. -/
inductive Commented (comment : Leaf) (gap : List Char) : (leads : Bool) → Node → Node → Prop
  | here {role? : Option Role} {label : Label} {before after : List Node} {leads : Bool}
      (hLeads : leads = areUnnamed before) (hBefore : HoldToken before) (hAfter : HoldToken after) :
      Commented comment gap leads (.branch role? label (before ++ after))
        (.branch role? label (before ++ .leaf none comment :: Node.spacedAll gap after))
  | inside (c : Frame) {n n' : Node} {within leads : Bool}
      (hLeads : leads = (areUnnamed c.before && n.label.isTransparent && within))
      (h : Commented comment gap within n n') :
      Commented comment gap leads (c.fill n) (c.fill n')

variable {comment : Leaf} {gap : List Char} {leads : Bool} {n n' : Node}

/-! ## Blanks -/

@[simp] theorem label_spaced (n : Node) : (n.spaced gap).label = n.label := by cases n <;> rfl

@[simp] theorem role?_spaced (n : Node) : (n.spaced gap).role? = n.role? := by cases n <;> rfl

mutual
theorem spelling_spaced (gap : List Char) (n : Node) (rest : List Leaf) :
    Node.spelling ((n.spaced gap).leaves ++ rest) = Node.spelling (n.leaves ++ rest) := by
  cases n with
  | leaf role? l => rfl
  | branch role? label children => exact spelling_spacedAll gap children rest
theorem spelling_spacedAll (gap : List Char) (ns : List Node) (rest : List Leaf) :
    Node.spelling (Node.leavesOf (Node.spacedAll gap ns) ++ rest) =
      Node.spelling (Node.leavesOf ns ++ rest) := by
  cases ns with
  | nil => rfl
  | cons n ns =>
    rw [Node.spacedAll, Node.leavesOf, Node.leavesOf, List.append_assoc, List.append_assoc]
    exact spelling_spaced gap n _
end

theorem text_spaced (gap : List Char) (n : Node) : (n.spaced gap).text = n.text := by
  have h := spelling_spaced gap n []
  rw [List.append_nil, List.append_nil] at h
  rw [Node.text, Node.text, h]

mutual
theorem isSound_spaced (gap : List Char) (n : Node) : (n.spaced gap).isSound = n.isSound := by
  cases n with
  | leaf role? l => rfl
  | branch role? label children =>
    exact congrArg (!label.isFault && ·) (areSound_spacedAll gap children)
theorem areSound_spacedAll (gap : List Char) (ns : List Node) :
    Node.areSound (Node.spacedAll gap ns) = Node.areSound ns := by
  cases ns with
  | nil => rfl
  | cons n ns => exact congrArg (· && Node.areSound ns) (isSound_spaced gap n)
end

/-! ## Texts -/

theorem text_subset_spelling {l : Leaf} {ls : List Leaf} (h : l ∈ ls) :
    l.text ⊆ Node.spelling ls := by
  cases ls with
  | nil => cases h
  | cons m ls =>
    rcases List.mem_cons.mp h with rfl | h
    · exact List.subset_append_left _ _
    · refine fun c hc => List.mem_append_right _ (List.mem_flatMap.mpr ⟨l, h, ?_⟩)
      exact List.mem_append_right _ hc

theorem text_ne_empty {l : Leaf} (h : l ∈ n.leaves) (hText : l.text ≠ []) : n.text ≠ "" := by
  intro hEmpty
  obtain ⟨c, hc⟩ := List.exists_mem_of_ne_nil _ hText
  have hSpelling : Node.spelling n.leaves = [] := by
    simpa [Node.text] using congrArg String.toList hEmpty
  exact absurd (text_subset_spelling h hc) (hSpelling ▸ List.not_mem_nil)

theorem mem_dropWhile {p : Char → Bool} {c : Char} {cs : List Char} (h : c ∈ cs)
    (hc : p c = false) : c ∈ cs.dropWhile p := by
  rw [← List.takeWhile_append_dropWhile (p := p) (l := cs)] at h
  rcases List.mem_append.mp h with hTaken | hLeft
  · exact absurd (List.mem_takeWhile_imp hTaken) (hc ▸ Bool.false_ne_true)
  · exact hLeft

theorem mem_trim {c : Char} {s : String} (h : c ∈ s.toList) (hc : Text.isBlank c = false) :
    c ∈ (Text.trim s).toList := by
  rw [Text.trim, String.toList_ofList, Text.trimWhere, List.mem_reverse]
  exact mem_dropWhile (List.mem_reverse.mpr (mem_dropWhile h hc)) hc

namespace Commented

theorem leaves (h : Commented comment gap leads n n') :
    ∃ xs ys ys', n.leaves = xs ++ ys ∧ n'.leaves = xs ++ comment :: ys' ∧
      (∃ l ∈ xs, l.text ≠ []) ∧ ∃ l ∈ ys, l.text ≠ [] := by
  induction h with
  | @here _ _ before after _ _ hBefore hAfter =>
    refine ⟨Node.leavesOf before, Node.leavesOf after, Node.leavesOf (Node.spacedAll gap after),
      leavesOf_append _ _, ?_, hBefore, hAfter⟩
    exact leavesOf_append _ _
  | inside c _ _ ih =>
    obtain ⟨xs, ys, ys', hLeaves, hLeaves', ⟨l, hl, hText⟩, ⟨m, hm, hText'⟩⟩ := ih
    refine ⟨Node.leavesOf c.before ++ xs, ys ++ Node.leavesOf c.after,
      ys' ++ Node.leavesOf c.after, ?_, ?_, ⟨l, List.mem_append_right _ hl, hText⟩,
      ⟨m, List.mem_append_left _ hm, hText'⟩⟩
    · simp only [Frame.fill, Node.leaves, leavesOf_append, Node.leavesOf, hLeaves,
        List.append_assoc]
    · simp only [Frame.fill, Node.leaves, leavesOf_append, Node.leavesOf, hLeaves',
        List.append_assoc, List.cons_append]

theorem two_le_tokens (h : Commented comment gap leads n n') : 2 ≤ n.tokens.length := by
  obtain ⟨xs, ys, _, hLeaves, _, ⟨l, hl, hText⟩, ⟨m, hm, hText'⟩⟩ := h.leaves
  have hCount {zs : List Leaf} {z : Leaf} (hz : z ∈ zs) (hNe : z.text ≠ []) :
      0 < (zs.filter fun l => !l.text.isEmpty).length :=
    List.length_pos_of_mem (List.mem_filter.mpr ⟨hz, by simpa using hNe⟩)
  rw [Node.tokens, hLeaves, List.filter_append, List.length_append]
  have := hCount hl hText
  have := hCount hm hText'
  omega

theorem comment_mem (h : Commented comment gap leads n n') : comment ∈ n'.leaves := by
  obtain ⟨xs, _, ys', _, hLeaves', _⟩ := h.leaves
  rw [hLeaves']
  exact List.mem_append_right xs List.mem_cons_self

theorem label_eq (h : Commented comment gap leads n n') : n'.label = n.label := by
  cases h <;> rfl

theorem role?_eq (h : Commented comment gap leads n n') : n'.role? = n.role? := by
  cases h <;> rfl

theorem isSound_eq (hComment : IsBlockComment comment) (h : Commented comment gap leads n n') :
    n'.isSound = n.isSound := by
  induction h with
  | here =>
    have hSound : comment.label.isFault = false := by rw [hComment.label]; rfl
    simp only [Node.isSound, areSound_append, Node.areSound, hSound, areSound_spacedAll,
      Bool.not_false, Bool.true_and]
  | inside c _ _ ih => simp only [Frame.fill, Node.isSound, areSound_append, Node.areSound, ih]

theorem alike (hComment : IsBlockComment comment) (h : Commented comment gap leads n n') :
    Alike n n' where
  role := h.role?_eq
  label := h.label_eq
  first := by
    obtain ⟨xs, ys, ys', hLeaves, hLeaves', ⟨l, hl, _⟩, _⟩ := h.leaves
    rw [hLeaves, hLeaves']
    cases xs with
    | nil => cases hl
    | cons => rfl
  sound := h.isSound_eq hComment

end Commented

/-! ## What a reader of the tree finds -/

inductive Kept (comment : Leaf) (gap : List Char) : Node → Node → Prop
  | same (n : Node) : Kept comment gap n n
  | spaced (n : Node) : Kept comment gap n (n.spaced gap)
  | commented {leads : Bool} {n n' : Node} (h : Commented comment gap leads n n') :
      Kept comment gap n n'

theorem kept_refl (ns : List Node) : List.Forall₂ (Kept comment gap) ns ns :=
  List.forall₂_same.mpr fun n _ => .same n

theorem kept_spacedAll (ns : List Node) :
    List.Forall₂ (Kept comment gap) ns (Node.spacedAll gap ns) := by
  cases ns with
  | nil => exact .nil
  | cons n ns => exact .cons (.spaced n) (kept_refl ns)

theorem kept_head? {ns ns' : List Node} (h : List.Forall₂ (Kept comment gap) ns ns') :
    Option.Rel (Kept comment gap) ns.head? ns'.head? := by
  cases h with
  | nil => exact .none
  | cons h _ => exact .some h

namespace Kept

theorem label_eq (h : Kept comment gap n n') : n'.label = n.label := by
  cases h with
  | same => rfl
  | spaced => exact label_spaced n
  | commented h => exact h.label_eq

theorem role?_eq (h : Kept comment gap n n') : n'.role? = n.role? := by
  cases h with
  | same => rfl
  | spaced => exact role?_spaced n
  | commented h => exact h.role?_eq

theorem children (h : Kept comment gap n n') :
    ∃ ns, List.Forall₂ (Kept comment gap) n.children ns ∧
      ∀ p : Node → Bool, p (.leaf none comment) = false →
        n'.children.filter p = ns.filter p := by
  cases h with
  | same => exact ⟨n.children, kept_refl _, fun _ _ => rfl⟩
  | spaced =>
    cases n with
    | leaf => exact ⟨[], .nil, fun _ _ => rfl⟩
    | branch _ _ children => exact ⟨_, kept_spacedAll children, fun _ _ => rfl⟩
  | commented h =>
    cases h with
    | @here _ _ before after =>
      refine ⟨before ++ Node.spacedAll gap after,
        List.rel_append (kept_refl _) (kept_spacedAll after), fun p hp => ?_⟩
      have hSkipped : ¬ p (.leaf none comment) = true := hp ▸ Bool.false_ne_true
      rw [Node.children, List.filter_append, List.filter_append, List.filter_cons_of_neg hSkipped]
    | @inside c m m' _ _ _ h =>
      refine ⟨c.before ++ m' :: c.after, ?_, fun _ _ => rfl⟩
      exact List.rel_append (kept_refl _) (.cons (.commented h) (kept_refl _))

/-- A choice of children by what can be seen of them from outside keeps them, if it skips the
comment. -/
theorem filter_children (h : Kept comment gap n n') {p : Node → Bool}
    (hp : p (.leaf none comment) = false)
    (hSeen : ∀ m m', m'.label = m.label → m'.role? = m.role? → p m' = p m) :
    List.Forall₂ (Kept comment gap) (n.children.filter p) (n'.children.filter p) := by
  obtain ⟨ns, hKept, hFilter⟩ := h.children
  rw [hFilter p hp]
  refine List.rel_filter (fun {m m'} hm => ?_) hKept
  exact Bool.eq_iff_iff.mp (hSeen m m' hm.label_eq hm.role?_eq).symm

theorem child? (h : Kept comment gap n n') (role : Role) :
    Option.Rel (Kept comment gap) (n.child? role) (n'.child? role) := by
  rw [Node.child?, Node.child?, ← List.head?_filter, ← List.head?_filter]
  exact kept_head? (h.filter_children rfl fun m m' _ hRole => by rw [hRole])

theorem head?_children (h : Kept comment gap n n') :
    Option.Rel (Kept comment gap) n.children.head? n'.children.head? := by
  cases h with
  | same => exact kept_head? (kept_refl _)
  | spaced =>
    cases n with
    | leaf => exact .none
    | branch _ _ children => exact kept_head? (kept_spacedAll children)
  | commented h =>
    cases h with
    | @here _ _ before after _ _ hBefore =>
      obtain ⟨l, hl, _⟩ := hBefore
      cases before with
      | nil => cases hl
      | cons m before => exact .some (.same m)
    | @inside c m m' _ _ _ h =>
      have hChildren : List.Forall₂ (Kept comment gap) (c.before ++ m :: c.after)
          (c.before ++ m' :: c.after) :=
        List.rel_append (kept_refl _) (.cons (.commented h) (kept_refl _))
      exact kept_head? hChildren

/-- Nor does it come before the first named child where this is the first child of all. -/
theorem head?_namedChildren (h : Kept comment gap n n')
    (hFirst : ∀ m ∈ n.children.head?, m.label.isNamed = true) :
    Option.Rel (Kept comment gap) n.namedChildren.head? n'.namedChildren.head? := by
  have hHead := h.head?_children
  unfold Node.namedChildren
  generalize n.children = ns at hFirst hHead ⊢
  generalize n'.children = ns' at hHead ⊢
  cases ns with
  | nil =>
    cases ns' with
    | nil => exact .none
    | cons => cases hHead
  | cons m ns =>
    cases ns' with
    | nil => cases hHead
    | cons m' ns' =>
      cases hHead with
      | some hKept =>
        have hNamed : m.label.isNamed = true := hFirst m rfl
        have hNamed' : m'.label.isNamed = true := hKept.label_eq ▸ hNamed
        simp only [List.filter_cons, hNamed, hNamed', if_true]
        exact .some hKept

end Kept

/-! ## The type that a reader takes -/

theorem firstCore?_eq (ns : List Node) :
    firstCore? ns = ((ns.filter fun n => n.label.isNamed).head?).map core := by
  induction ns with
  | nil => rfl
  | cons n ns ih =>
    rw [firstCore?, List.filter_cons]
    split
    · rfl
    · exact ih

theorem core_eq (n : Node) :
    core n =
      if n.label.isTransparent then (n.namedChildren.head?.map core).getD n else n := by
  cases n with
  | leaf role? l => exact (ite_self _).symm
  | branch role? label children => rw [core, firstCore?_eq]; rfl

theorem head?_named_append (ns ms : List Node) :
    ((ns ++ ms).filter fun n => n.label.isNamed).head? =
      if areUnnamed ns then (ms.filter fun n => n.label.isNamed).head?
      else (ns.filter fun n => n.label.isNamed).head? := by
  induction ns with
  | nil => rfl
  | cons n ns ih =>
    rw [List.cons_append, List.filter_cons, List.filter_cons, areUnnamed, List.all_cons]
    cases n.label.isNamed with
    | true => rfl
    | false => exact ih

theorem isNamed_of_isTransparent {label : Label} (h : label.isTransparent = true) :
    label.isNamed = true := by
  unfold Label.isTransparent at h
  split at h
  · rfl
  · rfl
  · cases h

/-- The types that a reader takes from the nodes are kept. -/
def KeptType (comment : Leaf) (gap : List Char) (type type' : Node) : Prop :=
  Kept comment gap (core type) (core type')

theorem keptType_refl (type? : Option Node) :
    Option.Rel (KeptType comment gap) type? type? := by
  cases type? with
  | none => exact .none
  | some type => exact .some (.same (core type))

/-- Where the comment leads it is taken for the type, and elsewhere the type stays. The induction
follows the nodes that only enclose others down to the comment: a reader opens just these, so it is
the innermost node around the comment that decides what they hold. -/
theorem Commented.type (hComment : IsBlockComment comment)
    (h : Commented comment gap leads n n') :
    if leads then ∃ type, n'.namedChildren.head? = some type ∧ core type = .leaf none comment
    else Option.Rel (KeptType comment gap) n.namedChildren.head? n'.namedChildren.head? := by
  induction h with
  | @here _ _ before after _ hLeads =>
    have hNamed : (Node.leaf none comment).label.isNamed = true := by
      rw [Node.label, hComment.label]
      rfl
    simp only [Node.namedChildren, Node.children, head?_named_append, List.filter_cons, hNamed,
      if_true, List.head?_cons, hLeads]
    cases areUnnamed before with
    | true => exact ⟨_, rfl, rfl⟩
    | false => exact keptType_refl _
  | @inside c m m' within _ hLeads h ih =>
    simp only [Frame.fill, Node.namedChildren, Node.children, head?_named_append, List.filter_cons,
      h.label_eq, hLeads]
    cases areUnnamed c.before with
    | false => exact keptType_refl _
    | true =>
      have hCore := core_eq m
      have hCore' := core_eq m'
      rw [h.label_eq] at hCore'
      cases hTransparent : m.label.isTransparent with
      | false =>
        rw [hTransparent, if_neg Bool.false_ne_true] at hCore hCore'
        cases m.label.isNamed with
        | true =>
          refine .some ?_
          rw [KeptType, hCore, hCore']
          exact .commented h
        | false => exact keptType_refl _
      | true =>
        rw [hTransparent, if_pos rfl] at hCore hCore'
        rw [isNamed_of_isTransparent hTransparent]
        cases within with
        | true =>
          obtain ⟨type, hHead, hType⟩ := ih
          exact ⟨m', rfl, by rw [hCore', hHead, Option.map_some, Option.getD_some, hType]⟩
        | false =>
          refine .some ?_
          rw [KeptType, hCore, hCore']
          rw [if_neg Bool.false_ne_true] at ih
          generalize m.namedChildren.head? = type? at ih ⊢
          generalize m'.namedChildren.head? = type'? at ih ⊢
          cases ih with
          | none => exact .commented h
          | some hType => exact hType

/-! ## Proper trees -/

theorem nodes_subset_nodesOf {ns : List Node} (h : n ∈ ns) : n.nodes ⊆ Node.nodesOf ns := by
  induction ns with
  | nil => cases h
  | cons m ns ih =>
    rcases List.mem_cons.mp h with rfl | h
    · exact List.subset_append_left _ _
    · exact List.Subset.trans (ih h) (List.subset_append_right _ _)

theorem mem_nodes_self (n : Node) : n ∈ n.nodes := by
  cases n <;> exact List.mem_cons_self

theorem sizeOf_child_lt (h : n' ∈ n.children) : sizeOf n' < sizeOf n := by
  cases n with
  | leaf => cases h
  | branch role? label children =>
    have hList : sizeOf n' < sizeOf children := List.sizeOf_lt_of_mem h
    rw [Node.branch.sizeOf_spec]
    omega

namespace IsProper

theorem child (h : IsProper n) (hn : n' ∈ n.children) : IsProper n' := by
  have hSubset : n'.nodes ⊆ n.nodes := by
    cases n with
    | leaf => cases hn
    | branch => exact List.Subset.trans (nodes_subset_nodesOf hn) (List.subset_cons_self _ _)
  exact ⟨fun m hm => h.names m (hSubset hm), fun m hm => h.elements m (hSubset hm)⟩

theorem namedChild (h : IsProper n) (hn : n' ∈ n.namedChildren) : IsProper n' :=
  h.child (List.mem_filter.mp hn).1

protected theorem core {n : Node} (h : IsProper n) : IsProper (core n) := by
  rw [core_eq]
  split
  · cases hHead : n.namedChildren.head? with
    | none => exact h
    | some type =>
      have hType : type ∈ n.children :=
        (List.mem_filter.mp (List.mem_of_head? hHead)).1
      have := sizeOf_child_lt hType
      exact (h.child hType).core
  · exact h
termination_by n

end IsProper

end TypeDiagram.Source
