import TypeDiagram.Source.Category
import TypeDiagram.Source.Terminal

/-!
Phrases: what the rule of a category may say. A phrase lists what stands one behind another, and
tells how the parts are named in a tree, and which of two readings is meant where a text has more
than one.
-/

namespace TypeDiagram.Source

/-- What a part of a node is to that node. -/
inductive Role where
  | alternative | argument | arguments | body | callee | condition | consequence
  | constraint | declaration | decorator | finalizer | flags | function | handler | increment
  | index | indexType | initializer | key | kind | label | left | name | newName | object | operator
  | optionalChain | parameter | parameters | pattern | property | qualifier | returnType | right
  | sign | source | type | typeArguments | typeParameters | value
deriving DecidableEq, Hashable, Repr

/-- What a part is called in a tree where it goes under another name than its own. -/
inductive Alias where
  | callExpression | identifier | instantiationExpression | interfaceBody | memberExpression
  | optionalParameter | parenthesizedExpression | propertyIdentifier | requiredParameter
  | shorthandPropertyIdentifier | shorthandPropertyIdentifierPattern | statementIdentifier
  | stringFragment | subscriptExpression | thisType | typeIdentifier | unaryExpression
  /-- A mark with the given spelling. -/
  | mark (spelling : String)
deriving DecidableEq, Hashable, Repr

namespace Alias

def isNamed : Alias → Bool
  | mark _ => false
  | _ => true

end Alias

/-- How tightly an operator binds its operands. -/
inductive Level where
  | member | templateCall | call | construction | unaryWord | power | times | plus | shift
  | relation | equality | bitAnd | bitXor | bitOr | logicalAnd | logicalOr | ternary | assignment
  | declaring | literal | object | instantiation | unary | binary | extending
deriving DecidableEq, Hashable, Repr

inductive Precedence where
  | unranked
  | number (n : Int)
  | level (l : Level)
deriving DecidableEq, Hashable, Repr

namespace Precedence

def zero : Precedence := number 0

end Precedence

inductive Side where
  | left
  | right
deriving DecidableEq, Hashable, Repr

inductive Phrase where
  | nothing
  | terminal (t : Terminal)
  | category (c : Category)
  | sequence (first second : Phrase)
  | choice (first second : Phrase)
  /-- The phrase once or more. -/
  | repeated (p : Phrase)
  | part (role : Role) (p : Phrase)
  | renamed (a : Alias) (p : Phrase)
  | bound (precedence : Precedence) (side : Option Side) (p : Phrase)
  /-- Among the readings of a text, one that uses the phrase counts by the given weight. -/
  | weighted (weight : Int) (p : Phrase)
deriving DecidableEq, Repr

instance : Coe Terminal Phrase := ⟨.terminal⟩

instance : Coe Category Phrase := ⟨.category⟩

instance : Coe String Phrase := ⟨fun s => .terminal (.literal s)⟩

namespace Phrase

def seq : List Phrase → Phrase
  | [] => nothing
  | [p] => p
  | p :: ps => sequence p (seq ps)

def oneOf : List Phrase → Phrase
  | [] => nothing
  | [p] => p
  | p :: ps => choice p (oneOf ps)

def opt (p : Phrase) : Phrase := choice p nothing

def many (p : Phrase) : Phrase := opt (repeated p)

def commaList (p : Phrase) : Phrase := seq [p, many (seq [",", p])]

def field (role : Role) (p : Phrase) : Phrase := part role p

def named (a : Alias) (p : Phrase) : Phrase := renamed a p

def ranked (precedence : Precedence) (p : Phrase) : Phrase := bound precedence none p

def leftward (precedence : Precedence) (p : Phrase) : Phrase := bound precedence (some .left) p

def rightward (precedence : Precedence) (p : Phrase) : Phrase := bound precedence (some .right) p

end Phrase

end TypeDiagram.Source
