import TypeDiagram.Layout.Coordinate
import TypeDiagram.Model.Graph

/-!
The elements of a diagram: a node for each model and an edge for each reference, drawn from the
handle of the field it comes from.
-/

namespace TypeDiagram.Diagram

/-- A node of a diagram; its id is that of its model. -/
structure Node (α : Type) where
  id : String
  model : Model
  position : Position α
  /-- The rendered size, once it was measured. -/
  size : Option (Size α)
deriving DecidableEq, Repr

structure Edge where
  id : String
  source : String
  target : String
  /-- The handle that the edge leaves its source by. -/
  sourceHandle : Option String
deriving DecidableEq, Repr

def handleId (nodeId fieldName : String) : String := nodeId ++ "-" ++ fieldName

variable {α : Type}

def nodesOf [Magnitude α] (models : List Model) : List (Node α) :=
  models.map fun m => ⟨m.id, m, .offScreen, none⟩

/-- The edges of the arguments of a generic type, the first of which has the number `count`. Several
of them may be models, so the edges are named for their targets too. -/
def edgesOfArguments (m : Model) (name : String) (count : Nat) : List TypeRef → List Edge
  | [] => []
  | .text _ :: arguments => edgesOfArguments m name count arguments
  | .model target :: arguments =>
    ⟨toString count ++ "-" ++ m.id ++ "-" ++ name ++ "-" ++ target.id, m.id, target.id,
      some (handleId m.id name)⟩ :: edgesOfArguments m name (count + 1) arguments

def edgesOfField (m : Model) (count : Nat) : Field → List Edge
  | .model name target | .array name (.model target) =>
    [⟨toString count ++ "-" ++ m.id ++ "-" ++ name, m.id, target.id, some (handleId m.id name)⟩]
  | .reference name _ arguments => edgesOfArguments m name count arguments
  | .array _ (.text _) | .primitive .. => []

/-- An edge for each reference, in the order of models, fields and arguments. Edge ids begin with a
running number, so they are distinct. -/
def edgesOf (models : List Model) : List Edge :=
  (models.flatMap fun m => m.schema.map fun f => (m, f)).foldl
    (fun edges (m, f) => edges ++ edgesOfField m (edges.length + 1) f) []

def Node.measured (n : Node α) : Bool := n.size.isSome

def Node.toDocument (n : Node α) : Document α :=
  let extent := match n.size with
    | some s => [("width", .number s.width), ("height", .number s.height)]
    | none => []
  .object ([("id", .string n.id), ("type", .string "model"),
    ("position", .object [("x", .number n.position.x), ("y", .number n.position.y)]),
    ("model", n.model.toDocument)] ++ extent)

def Edge.toDocument {ν : Type} (e : Edge) : Document ν :=
  let handle := match e.sourceHandle with
    | some h => if h.isEmpty then [] else [("sourceHandle", .string h)]
    | none => []
  .object ([("id", .string e.id), ("source", .string e.source), ("target", .string e.target)] ++
    handle)

end TypeDiagram.Diagram
