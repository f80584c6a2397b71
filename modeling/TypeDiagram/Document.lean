/-!
Documents: the nested values that the program answers with. `ν` is the type of numbers.
-/

namespace TypeDiagram

inductive Document (ν : Type) where
  | null
  | bool (b : Bool)
  | number (n : ν)
  | string (s : String)
  | array (items : List (Document ν))
  /-- Members in writing order; their keys are distinct. -/
  | object (members : List (String × Document ν))
deriving Inhabited

namespace Document

variable {ν : Type}

def strings (xs : List String) : Document ν := .array (xs.map .string)

variable {μ : Type}

mutual

def replaceNumbers (f : ν → Document μ) : Document ν → Document μ
  | null => null
  | bool b => bool b
  | number n => f n
  | string s => string s
  | array items => array (replaceInItems f items)
  | object members => object (replaceInMembers f members)

def replaceInItems (f : ν → Document μ) : List (Document ν) → List (Document μ)
  | [] => []
  | d :: ds => replaceNumbers f d :: replaceInItems f ds

def replaceInMembers (f : ν → Document μ) :
    List (String × Document ν) → List (String × Document μ)
  | [] => []
  | (k, d) :: ds => (k, replaceNumbers f d) :: replaceInMembers f ds

end

def flatten (d : Document (Document ν)) : Document ν := d.replaceNumbers id

end Document

end TypeDiagram
