/-!
Places in a text and distances between them. A place holds the characters ahead of it, so that
nothing has to be looked up by number; distances count characters, octets and line breaks.
-/

namespace TypeDiagram.Source

structure Extent where
  chars : Nat
  octets : Nat
  lines : Nat
deriving DecidableEq, Repr

namespace Extent

def none : Extent := ⟨0, 0, 0⟩

instance : Add Extent := ⟨fun a b => ⟨a.chars + b.chars, a.octets + b.octets, a.lines + b.lines⟩⟩

def isEmpty (e : Extent) : Bool := e.octets == 0

def ofPrefix : (n : Nat) → List Char → Extent → Extent
  | n + 1, c :: cs, e =>
    ofPrefix n cs
      ⟨e.chars + 1, e.octets + c.utf8Size, if c == '\n' then e.lines + 1 else e.lines⟩
  | _, _, e => e

end Extent

structure Place where
  /-- What lies between the start of the text and the place. -/
  before : Extent
  ahead : List Char

namespace Place

def start (text : List Char) : Place := ⟨.none, text⟩

def advance (p : Place) (e : Extent) : Place := ⟨p.before + e, p.ahead.drop e.chars⟩

end Place

end TypeDiagram.Source
