import Mathlib.Data.List.Forall2
import TypeDiagram.Model.Graph
import TypeDiagram.Proofs.Source.Register

/-! # A property and its field

A property stands in an object, the object in a declaration, and this among the statements of a
text, on its own or exported. If the property is exchanged for one that looks alike from outside,
then nothing but its field changes in what the statements declare.
-/

namespace TypeDiagram.Source

variable {n n' : Node} {role : Role}

/-- The nodes look alike to one who does not open them. -/
structure Alike (n n' : Node) : Prop where
  role : n'.role? = n.role?
  label : n'.label = n.label
  first : n'.leaves.head? = n.leaves.head?
  sound : n'.isSound = n.isSound

theorem Alike.line (h : Alike n n') : n'.line = n.line := by
  rw [Node.line, Node.line, h.first]

theorem leavesOf_append (ns ms : List Node) :
    Node.leavesOf (ns ++ ms) = Node.leavesOf ns ++ Node.leavesOf ms := by
  induction ns with
  | nil => rfl
  | cons n ns ih => rw [List.cons_append, Node.leavesOf, Node.leavesOf, ih, List.append_assoc]

theorem areSound_append (ns ms : List Node) :
    Node.areSound (ns ++ ms) = (Node.areSound ns && Node.areSound ms) := by
  induction ns with
  | nil => rfl
  | cons n ns ih => rw [List.cons_append, Node.areSound, Node.areSound, ih, Bool.and_assoc]

/-! ## One child of a node -/

structure Frame where
  role? : Option Role
  label : Label
  before : List Node
  after : List Node

namespace Frame

variable {c : Frame}

def fill (c : Frame) (n : Node) : Node := .branch c.role? c.label (c.before ++ n :: c.after)

/-- No child in front of that one has the role. -/
def IsFirst (c : Frame) (role : Role) : Prop := ∀ m ∈ c.before, m.role? ≠ some role

instance (c : Frame) (role : Role) : Decidable (c.IsFirst role) :=
  inferInstanceAs (Decidable (∀ m ∈ c.before, m.role? ≠ some role))

theorem child?_fill (hFirst : c.IsFirst role) (hRole : n.role? = some role) :
    (c.fill n).child? role = some n := by
  have hBefore : c.before.find? (fun m => m.role? == some role) = none :=
    List.find?_eq_none.mpr fun m hm => by simpa using hFirst m hm
  have hFound : (n.role? == some role) = true := beq_iff_eq.mpr hRole
  rw [Node.child?, fill, Node.children, List.find?_append, hBefore, Option.none_or,
    List.find?_cons, hFound]

theorem child?_fill_of_ne (hRole : n.role? ≠ some role) (hRole' : n'.role? ≠ some role) :
    (c.fill n').child? role = (c.fill n).child? role := by
  simp only [Node.child?, fill, Node.children, List.find?_append, List.find?_cons,
    beq_eq_false_iff_ne.mpr hRole, beq_eq_false_iff_ne.mpr hRole']

end Frame

theorem Alike.fill (h : Alike n n') (c : Frame) : Alike (c.fill n) (c.fill n') where
  role := rfl
  label := rfl
  first := by
    simp only [Frame.fill, Node.leaves, leavesOf_append, Node.leavesOf, List.head?_append, h.first]
  sound := by
    simp only [Frame.fill, Node.isSound, areSound_append, Node.areSound, h.sound]

/-! ## One member of a declared object -/

def bodyRole (declaration : Label) : Role :=
  if declaration == .category .interfaceDeclaration then .body else .value

structure MemberPlace where
  before : List Node
  /-- The statement that exports the declaration, if one does. -/
  exporter? : Option Frame
  declaration : Frame
  object : Frame
  after : List Node

namespace MemberPlace

variable {p : MemberPlace}

def declarationWith (p : MemberPlace) (n : Node) : Node := p.declaration.fill (p.object.fill n)

def statementWith (p : MemberPlace) (n : Node) : Node :=
  match p.exporter? with
  | some e => e.fill (p.declarationWith n)
  | none => p.declarationWith n

def fill (p : MemberPlace) (n : Node) : List Node := p.before ++ p.statementWith n :: p.after

structure IsDeclared (p : MemberPlace) : Prop where
  exporter : ∀ e ∈ p.exporter?, e.label = .category .exportStatement ∧ e.IsFirst .declaration ∧
    p.declaration.role? = some .declaration
  declaration : p.declaration.label ∈
    [Label.category .interfaceDeclaration, .category .typeAliasDeclaration]
  object : p.object.label.isObject = true
  body : p.object.role? = some (bodyRole p.declaration.label)
  first : p.declaration.IsFirst (bodyRole p.declaration.label)

theorem exported?_statementWith (h : p.IsDeclared) (n : Node) :
    exported? (p.statementWith n) = some (p.declarationWith n) := by
  unfold exported? statementWith
  cases hExporter : p.exporter? with
  | none =>
    have hLabel : ((p.declarationWith n).label == .category .exportStatement) = false := by
      change (p.declaration.label == _) = false
      rcases List.mem_pair.mp h.declaration with hLabel | hLabel <;> rw [hLabel] <;> rfl
    dsimp only
    rw [hLabel]
    rfl
  | some e =>
    obtain ⟨hLabel, hFirst, hRole⟩ := h.exporter e hExporter
    have hExport : ((e.fill (p.declarationWith n)).label == .category .exportStatement) = true :=
      beq_iff_eq.mpr hLabel
    dsimp only
    rw [hExport, if_pos rfl]
    exact Frame.child?_fill hFirst hRole

end MemberPlace

/-- The second list of fields may hold `f'` where the first one holds `f`; elsewhere they agree. -/
abbrev FieldsDiffer (f f' : DeclaredField) : List DeclaredField → List DeclaredField → Prop :=
  List.Forall₂ fun g g' => g' = g ∨ g = f ∧ g' = f'

structure DiffersIn (f f' : DeclaredField) (d d' : Declaration) : Prop where
  name : d'.name = d.name
  line : d'.line = d.line
  fields : FieldsDiffer f f' d.fields d'.fields

variable {f f' : DeclaredField} {d d' : Declaration} {ds ds' : List Declaration}

theorem FieldsDiffer.refl (fields : List DeclaredField) : FieldsDiffer f f' fields fields :=
  List.forall₂_same.mpr fun _ _ => .inl rfl

theorem DiffersIn.refl (d : Declaration) : DiffersIn f f' d d := ⟨rfl, rfl, .refl _⟩

theorem differsIn_refl (ds : List Declaration) : List.Forall₂ (DiffersIn f f') ds ds :=
  List.forall₂_same.mpr fun d _ => .refl d

theorem names_eq_of_differIn (h : List.Forall₂ (DiffersIn f f') ds ds') :
    ds'.map Declaration.name = ds.map Declaration.name := by
  induction h with
  | nil => rfl
  | cons hHead _ ih => rw [List.map_cons, List.map_cons, hHead.name, ih]

theorem references_eq_of_differIn (h : List.Forall₂ (DiffersIn f f') ds ds') :
    Declaration.references ds' = Declaration.references ds := by
  have hNames (ds : List Declaration) : Declaration.references ds =
      (ds.map Declaration.name).zipIdx.map fun entry => ⟨entry.2, entry.1⟩ := by
    rw [Declaration.references, List.zipIdx_map, List.map_map]
    rfl
  rw [hNames, hNames, names_eq_of_differIn h]

theorem forall₂_addDeclaration (h : List.Forall₂ (DiffersIn f f') ds ds')
    (hd : DiffersIn f f' d d') :
    List.Forall₂ (DiffersIn f f') (addDeclaration ds d) (addDeclaration ds' d') := by
  have hAny (xs : List Declaration) (e : Declaration) :
      (xs.any fun x => x.name == e.name) = (xs.map Declaration.name).any (· == e.name) := by
    rw [List.any_map]
    rfl
  unfold addDeclaration
  rw [hAny, hAny, names_eq_of_differIn h, hd.name]
  split
  · rw [List.forall₂_map_left_iff, List.forall₂_map_right_iff]
    refine h.imp fun e e' he => ?_
    rw [he.name]
    split
    · exact hd
    · exact he
  · exact List.rel_append h (.cons hd .nil)

theorem forall₂_foldl_addDeclaration {acc acc' : List Declaration}
    (h : List.Forall₂ (DiffersIn f f') ds ds')
    (hAcc : List.Forall₂ (DiffersIn f f') acc acc') :
    List.Forall₂ (DiffersIn f f') (ds.foldl addDeclaration acc)
      (ds'.foldl addDeclaration acc') := by
  induction h generalizing acc acc' with
  | nil => exact hAcc
  | cons hHead _ ih => exact ih (forall₂_addDeclaration hAcc hHead)

section Exchange

variable {p : MemberPlace} (hAlike : Alike n n') (hLabel : n.label = .category .propertySignature)
  (hField : fieldOf? n = some f) (hField' : fieldOf? n' = some f')

include hAlike hLabel hField hField'

theorem fieldsOf_fill (c : Frame) :
    FieldsDiffer f f' (fieldsOf (c.fill n)) (fieldsOf (c.fill n')) := by
  have hFill {m : Node} {g : DeclaredField} (hm : m.label = .category .propertySignature)
      (hg : fieldOf? m = some g) : fieldsOf (c.fill m) =
        fieldsOf (.branch none c.label c.before) ++
          g :: fieldsOf (.branch none c.label c.after) := by
    have hNamed : m.label.isNamed = true := by rw [hm]; rfl
    have hProperty : (m.label == .category .propertySignature) = true := beq_iff_eq.mpr hm
    simp only [fieldsOf, Frame.fill, Node.namedChildren, Node.children, List.filter_append,
      List.filter_cons, hNamed, hProperty, if_true, List.filterMap_append, List.filterMap_cons, hg]
  rw [hFill hLabel hField, hFill (hAlike.label.trans hLabel) hField']
  exact List.rel_append (FieldsDiffer.refl _) (.cons (.inr ⟨rfl, rfl⟩) (FieldsDiffer.refl _))

theorem declarationOf?_declarationWith (hPlace : p.IsDeclared) :
    Option.Rel (DiffersIn f f') (declarationOf? (p.declarationWith n))
      (declarationOf? (p.declarationWith n')) := by
  have hName : (p.declarationWith n').child? .name = (p.declarationWith n).child? .name := by
    refine Frame.child?_fill_of_ne ?_ ?_ <;>
      · change p.object.role? ≠ _
        rw [hPlace.body, bodyRole]
        split <;> simp
  have hBody (m : Node) : (p.declarationWith m).child?
      (if (p.declarationWith m).label == .category .interfaceDeclaration then .body else .value) =
        some (p.object.fill m) :=
    Frame.child?_fill hPlace.first hPlace.body
  have hLine : (p.declarationWith n').line = (p.declarationWith n).line :=
    ((hAlike.fill p.object).fill p.declaration).line
  have hObject (m : Node) : (p.object.fill m).label.isObject = true := hPlace.object
  unfold declarationOf?
  rw [hName, hLine, hBody, hBody]
  cases (p.declarationWith n).child? .name with
  | none => exact .none
  | some name =>
    simp only [Option.bind_eq_bind, Option.bind_some, Option.filter, hObject, if_true,
      Option.map_some, Option.getD_some]
    exact .some ⟨rfl, rfl, fieldsOf_fill hAlike hLabel hField hField' p.object⟩

/-- With another member, what the statements declare differs in the field of this member. -/
theorem differIn_declared (hPlace : p.IsDeclared) :
    List.Forall₂ (DiffersIn f f') (declared (p.fill n)) (declared (p.fill n')) := by
  have hDeclaration (m : Node) : (isDeclaration (p.declarationWith m)) = true := by
    change (p.declaration.label == _ || p.declaration.label == _) = true
    rcases List.mem_pair.mp hPlace.declaration with hKind | hKind <;> rw [hKind] <;> rfl
  have hSound : (p.declarationWith n').isSound = (p.declarationWith n).isSound :=
    ((hAlike.fill p.object).fill p.declaration).sound
  have hFill (m : Node) : soundDeclarations (p.fill m) = soundDeclarations p.before ++
      ([p.declarationWith m].filter Node.isSound ++ soundDeclarations p.after) := by
    simp only [soundDeclarations, MemberPlace.fill, List.filterMap_append, List.filterMap_cons,
      MemberPlace.exported?_statementWith hPlace, List.filter_append, List.filter_cons,
      hDeclaration, Bool.true_and, List.filter_nil]
    split <;> rfl
  rw [declared_eq, declared_eq]
  refine forall₂_foldl_addDeclaration ?_ .nil
  rw [stated, stated, hFill, hFill, List.filterMap_append, List.filterMap_append,
    List.filterMap_append, List.filterMap_append]
  refine List.rel_append (differsIn_refl _) (List.rel_append ?_ (differsIn_refl _))
  rw [List.filter_cons, List.filter_cons, hSound]
  split
  · have hRel := declarationOf?_declarationWith hAlike hLabel hField hField' hPlace
    rw [List.filterMap_cons, List.filterMap_cons]
    revert hRel
    cases declarationOf? (p.declarationWith n) <;> cases declarationOf? (p.declarationWith n') <;>
      rintro ⟨⟩
    · exact .nil
    · exact .cons ‹_› .nil
  · exact .nil

end Exchange

end TypeDiagram.Source
