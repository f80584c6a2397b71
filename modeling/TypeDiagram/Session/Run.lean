import TypeDiagram.Session.Passes

/-!
Runs of a diagram: the operations on it in the order in which they happen. The user, the caller, the
clock and the passes in flight take turns in any order, and each pass may get any answer.
-/

namespace TypeDiagram.Session

structure DeclarationList where
  entries : List Declaration
  distinct : (entries.map Declaration.name).Nodup

inductive Operation (α : Type) where
  | setSource (source : String)
  /-- The view is rebuilt for declarations that no source text gave. -/
  | setDeclarations (ds : DeclarationList)
  | measure (id : String) (size : Size α)
  | move (id : String) (position : Position α)
  | noticeViewport
  | toggleAutoFit
  | toggleDirection
  | requestLayout
  | layoutNow
  | frame
  /-- A pass that has started gets to run. -/
  | begin (token : Nat)
  /-- The service answers a pass, or fails it. -/
  | settle (token : Nat) (service : Diagram.Service α)
  /-- One pass is given up. -/
  | cancel (token : Nat)
  | close

namespace Operation

variable {α : Type}

/-- The models that an operation rebuilds the view for. -/
def models? : Operation α → Option (List Model)
  | setSource source => some (Model.ofDeclarations (Source.declarations source))
  | setDeclarations ds => some (Model.ofDeclarations ds.entries)
  | _ => none

def ends (token : Nat) : Operation α → Bool
  | settle t _ | cancel t => t == token
  | close => true
  | _ => false

def givesUp : Operation α → Bool
  | cancel _ | close => true
  | _ => false

end Operation

variable {α : Type} [Coordinate α]

def step (s : Session α) : Operation α → Session α
  | .setSource source => s.setSource source
  | .setDeclarations ds => s.setModels (Model.ofDeclarations ds.entries)
  | .measure id size => (s.measure id size).1
  | .move id position => (s.move id position).1
  | .noticeViewport => s.noticeViewport
  | .toggleAutoFit => s.toggleAutoFit
  | .toggleDirection => s.toggleDirection
  | .requestLayout => s.requestLayout
  | .layoutNow => s.layoutNow
  | .frame => s.frame
  | .begin token => s.beginPass token
  | .settle token service => s.settle service token
  | .cancel token => s.without token
  | .close => s.close

def run (s : Session α) (ops : List (Operation α)) : Session α := ops.foldl step s

def Throughout (P : Session α → Operation α → Prop) : Session α → List (Operation α) → Prop
  | _, [] => True
  | s, op :: ops => P s op ∧ Throughout P (s.step op) ops

def lastModels (ops : List (Operation α)) : List Model :=
  (ops.reverse.findSome? Operation.models?).getD []

end TypeDiagram.Session
