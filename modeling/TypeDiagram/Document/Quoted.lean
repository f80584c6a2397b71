import TypeDiagram.Document
import TypeDiagram.Number.Amount
import TypeDiagram.Text.Quoted

/-!
Documents as messages show them: on one line, with quoted texts.
-/

namespace TypeDiagram

namespace Document

mutual

def quoted : Document Amount → String
  | null => "None"
  | bool b => if b then "True" else "False"
  | number n => n.shown
  | string s => Text.quoted s
  | array items => "[" ++ ", ".intercalate (quotedItems items) ++ "]"
  | object members => "\x7b" ++ ", ".intercalate (quotedMembers members) ++ "\x7d"

def quotedItems : List (Document Amount) → List String
  | [] => []
  | d :: ds => quoted d :: quotedItems ds

def quotedMembers : List (String × Document Amount) → List String
  | [] => []
  | (k, d) :: ds => (Text.quoted k ++ ": " ++ quoted d) :: quotedMembers ds

end

end Document

structure UnknownName where
  /-- What the names are names of. -/
  kind : String
  value : Document Amount

namespace UnknownName

def message (e : UnknownName) : String := e.value.quoted ++ " is not a valid " ++ e.kind

end UnknownName

def Document.named {β : Type} (kind : String) (ofName? : String → Option β) (d : Document Amount) :
    Except UnknownName β :=
  match d with
  | .string s => (ofName? s).elim (.error ⟨kind, d⟩) .ok
  | _ => .error ⟨kind, d⟩

end TypeDiagram
