import TypeDiagram.Declaration
import TypeDiagram.OrderedMap
import TypeDiagram.Source.Tree

/-!
Reading declarations off the tree. A field takes its name and its type from the property it stands
in; the shape of the type is that of the first type inside any parentheses and `readonly` around
it. A later declaration of a name replaces an earlier one at the place of the earlier one.
-/

namespace TypeDiagram.Source

namespace Label

def isTransparent : Label → Bool
  | category .parenthesizedType | category .readonlyType => true
  | _ => false

def isTypeName : Label → Bool
  | renamed .typeIdentifier | category .nestedTypeIdentifier => true
  | _ => false

def isObject : Label → Bool
  | category .objectType | renamed .interfaceBody => true
  | _ => false

end Label

mutual
/-- The node inside parentheses and `readonly`: the first named node at every level. -/
def core : Node → Node
  | .leaf role? l => .leaf role? l
  | .branch role? label children =>
    if label.isTransparent then (firstCore? children).getD (.branch role? label children)
    else .branch role? label children
def firstCore? : List Node → Option Node
  | [] => none
  | n :: ns => if n.label.isNamed then some (core n) else firstCore? ns
end

def argumentTexts (arguments : Node) : List String :=
  (arguments.namedChildren.filter fun n => n.label != .terminal .comment).map Node.text

def describe (name : String) (type : Node) : DeclaredField :=
  let inner := core type
  match inner.label == .category .arrayType, inner.namedChildren.head? with
  | true, some element => ⟨name, type.text, .array element.text⟩
  | _, _ =>
    match inner.label == .category .genericType, inner.child? .name with
    | true, some reference =>
      let arguments := ((inner.child? .typeArguments).map argumentTexts).getD []
      ⟨name, type.text, .generic reference.text arguments⟩
    | _, _ =>
      if inner.label.isTypeName then ⟨name, inner.text, .name⟩ else ⟨name, type.text, .other⟩

def unquote (s : String) : String := String.ofList ((s.toList.drop 1).dropLast)

def propertyName? (property : Node) : Option String :=
  (property.child? .name).map fun n =>
    if n.label == .category .stringLiteral then unquote n.text else n.text

/-- The field that a property declares; without a type it may hold anything. -/
def fieldOf? (property : Node) : Option DeclaredField := do
  let name ← propertyName? property
  match ((property.child? .type).map Node.namedChildren).getD [] with
  | type :: _ => some (describe name type)
  | [] => some ⟨name, "any", .other⟩

def fieldsOf (object : Node) : List DeclaredField :=
  (object.namedChildren.filter fun n => n.label == .category .propertySignature).filterMap fieldOf?

/-- The declaration that a node states. Only an object type has fields. -/
def declarationOf? (n : Node) : Option Declaration := do
  let name ← n.child? .name
  let body := n.child? (if n.label == .category .interfaceDeclaration then .body else .value)
  let fields := ((body.filter fun b => b.label.isObject).map fieldsOf).getD []
  return ⟨name.text, fields, n.line⟩

/-- Interfaces and type aliases. -/
def isDeclaration (n : Node) : Bool :=
  n.label == .category .interfaceDeclaration || n.label == .category .typeAliasDeclaration

def exported? (n : Node) : Option Node :=
  if n.label == .category .exportStatement then n.child? .declaration else some n

/-- The interfaces and aliases among some statements that have nothing wrong with them. -/
def soundDeclarations (statements : List Node) : List Node :=
  (statements.filterMap exported?).filter fun n => isDeclaration n && n.isSound

/-- The declarations so far, and the place of each name among them. -/
structure Register where
  declarations : List Declaration
  places : OrderedMap String Nat

namespace Register

def empty : Register := ⟨[], .empty⟩

def file (r : Register) (d : Declaration) : Register :=
  match r.places.get? d.name with
  | some place => { r with declarations := r.declarations.set place d }
  | none => ⟨r.declarations ++ [d], r.places.insert d.name r.declarations.length⟩

end Register

def stated (statements : List Node) : List Declaration :=
  (soundDeclarations statements).filterMap declarationOf?

def declared (statements : List Node) : List Declaration :=
  ((stated statements).foldl Register.file .empty).declarations

def declarations (source : String) : List Declaration := declared (topLevel source)

end TypeDiagram.Source
