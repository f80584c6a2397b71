/-!
Maps that remember the order in which their keys were first inserted.
-/

namespace TypeDiagram

/-- A map as its entries in insertion order; the operations keep the keys distinct. -/
structure OrderedMap (κ ν : Type) where
  entries : List (κ × ν)
deriving DecidableEq, Repr

namespace OrderedMap

variable {κ ν : Type} [DecidableEq κ]

def empty : OrderedMap κ ν := ⟨[]⟩

def keys (m : OrderedMap κ ν) : List κ := m.entries.map (·.1)

def values (m : OrderedMap κ ν) : List ν := m.entries.map (·.2)

def size (m : OrderedMap κ ν) : Nat := m.entries.length

def get? (m : OrderedMap κ ν) (k : κ) : Option ν := (m.entries.find? (·.1 == k)).map (·.2)

def contains (m : OrderedMap κ ν) (k : κ) : Bool := m.entries.any (·.1 == k)

def insert (m : OrderedMap κ ν) (k : κ) (v : ν) : OrderedMap κ ν :=
  if m.contains k then ⟨m.entries.map fun e => if e.1 == k then (k, v) else e⟩
  else ⟨m.entries ++ [(k, v)]⟩

def erase (m : OrderedMap κ ν) (k : κ) : OrderedMap κ ν := ⟨m.entries.filter (·.1 != k)⟩

def ofList (entries : List (κ × ν)) : OrderedMap κ ν :=
  entries.foldl (fun m e => m.insert e.1 e.2) empty

def mapValues {μ : Type} (f : κ → ν → μ) (m : OrderedMap κ ν) : OrderedMap κ μ :=
  ⟨m.entries.map fun e => (e.1, f e.1 e.2)⟩

end OrderedMap

end TypeDiagram
