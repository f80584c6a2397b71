import TypeDiagram.Document
import TypeDiagram.Text.Quoted

/-!
Models: the declarations of a source as nodes of a graph of references. Models refer to each other
and to themselves, so a reference holds the place of its model in the graph and its id.
-/

namespace TypeDiagram

structure ModelRef where
  place : Nat
  id : String
deriving DecidableEq, Repr

inductive TypeRef where
  | model (target : ModelRef)
  | text (s : String)
deriving DecidableEq, Repr

inductive Field where
  /-- A field whose type is kept as text. -/
  | primitive (name type : String)
  | array (name : String) (element : TypeRef)
  /-- A generic type and its arguments. -/
  | reference (name referenceName : String) (arguments : List TypeRef)
  /-- A field whose whole type is a model. -/
  | model (name : String) (target : ModelRef)
deriving DecidableEq, Repr

structure Model where
  /-- The declared name; the id of the node that shows the model. -/
  id : String
  schema : List Field
  /-- The models that the fields refer to, in field and argument order, with repetitions. -/
  dependencies : List ModelRef
  /-- The models with a field that refers to this one, once for each reference. -/
  dependants : List ModelRef
deriving DecidableEq, Repr

namespace TypeRef

def target? : TypeRef → Option ModelRef
  | .model m => some m
  | .text _ => none

def toDocument {ν : Type} : TypeRef → Document ν
  | .model m => .object [("model", .string m.id)]
  | .text s => .string s

end TypeRef

namespace Field

def name : Field → String
  | .primitive name _ | .array name _ | .reference name _ _ | .model name _ => name

def isArray : Field → Bool
  | .array .. => true
  | _ => false

def isReference : Field → Bool
  | .reference .. => true
  | _ => false

def references : Field → List ModelRef
  | .primitive _ _ => []
  | .array _ element => element.target?.toList
  | .reference _ _ arguments => arguments.filterMap TypeRef.target?
  | .model _ target => [target]

def toDocument {ν : Type} : Field → Document ν
  | .primitive name type => .object [("name", .string name), ("type", .string type)]
  | .array name element =>
    .object [("name", .string name), ("type", .string "array"), ("elementType", element.toDocument)]
  | .reference name referenceName arguments =>
    .object [("name", .string name), ("type", .string "reference"),
      ("referenceName", .string referenceName),
      ("arguments", .array (arguments.map TypeRef.toDocument))]
  | .model name target =>
    .object [("name", .string name), ("type", (TypeRef.model target).toDocument)]

end Field

namespace Model

def dependencyIds (m : Model) : List String := m.dependencies.map ModelRef.id

def dependantIds (m : Model) : List String := m.dependants.map ModelRef.id

structure TopologyHash where
  dependants : String
  dependencies : String
deriving DecidableEq, Repr

def topologyHash (m : Model) : TopologyHash :=
  ⟨":".intercalate m.dependantIds, ":".intercalate m.dependencyIds⟩

def toDocument {ν : Type} (m : Model) : Document ν :=
  .object [("id", .string m.id), ("name", .string m.id),
    ("schema", .array (m.schema.map Field.toDocument)),
    ("dependencies", .strings m.dependencyIds), ("dependants", .strings m.dependantIds)]

def summary (m : Model) : String :=
  "Model(id=" ++ Text.quoted m.id ++ ", fields=" ++ Text.quotedList (m.schema.map Field.name) ++
    ", dependencies=" ++ Text.quotedList m.dependencyIds ++
    ", dependants=" ++ Text.quotedList m.dependantIds ++ ")"

end Model

end TypeDiagram
