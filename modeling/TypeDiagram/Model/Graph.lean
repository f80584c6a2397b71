import TypeDiagram.Declaration
import TypeDiagram.Model.Basic
import TypeDiagram.Text.Cut

/-!
The graph of the models of a list of declarations. Every declaration yields a model of its own. A
name refers to the last declaration of that name, so forward and circular references resolve, and
each reference is recorded at both of its ends.
-/

namespace TypeDiagram

def Declaration.references (ds : List Declaration) : List ModelRef :=
  ds.zipIdx.map fun (d, place) => ⟨place, d.name⟩

def findModel? (known : List ModelRef) (name : String) : Option ModelRef :=
  known.reverse.find? fun m => m.id == name

/-- Looks up a type text without the blanks around it; a text that names no model is kept. -/
def resolve (known : List ModelRef) (text : String) : TypeRef :=
  match findModel? known (Text.trim text) with
  | some m => .model m
  | none => .text text

/-- The most specific field that the shape of a declared field allows. A generic type without a
name, and a name that no model has, leave a primitive field. -/
def classify (known : List ModelRef) (f : DeclaredField) : Field :=
  match f.shape with
  | .array element => .array f.name (resolve known element)
  | .generic name arguments =>
    if name.isEmpty then .primitive f.name f.typeText
    else .reference f.name name (arguments.map (resolve known))
  | .name =>
    match findModel? known f.typeText with
    | some m => .model f.name m
    | none => .primitive f.name f.typeText
  | .other => .primitive f.name f.typeText

namespace Model

/-- A model without neighbours. -/
def ofDeclaration (known : List ModelRef) (d : Declaration) : Model :=
  ⟨d.name, d.fields.map (classify known), [], []⟩

/-- Records a reference at its source and at its target. -/
def link (ms : List Model) (source target : ModelRef) : List Model :=
  (ms.modify source.place fun m => { m with dependencies := m.dependencies ++ [target] }).modify
    target.place fun m => { m with dependants := m.dependants ++ [source] }

def ofDeclarations (ds : List Declaration) : List Model :=
  let known := Declaration.references ds
  let unlinked := ds.map (ofDeclaration known)
  let links := (known.zip unlinked).flatMap fun (source, m) =>
    (m.schema.flatMap Field.references).map fun target => (source, target)
  links.foldl (fun ms (source, target) => link ms source target) unlinked

end Model

end TypeDiagram
