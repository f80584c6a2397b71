import TypeDiagram.Document.Reading
import TypeDiagram.Text.Cut

/-!
Reading the members of a request body. A member has a type, and the reading is lenient: a number may
be a truth value or a text that writes it, and a truth value may be one of a few numbers and words.
-/

namespace TypeDiagram.Server

inductive Body where
  | absent
  /-- A body that is no document. -/
  | malformed
  /-- A body that goes beyond what is read. -/
  | excessive
  | document (d : Document Amount)

namespace Body

def ofText (s : String) : Body :=
  let text := if s.toList.head? == some '\uFEFF' then String.ofList (s.toList.drop 1) else s
  if s.isEmpty then absent
  else match Document.read text with
    | .ok d => document d
    | .error .malformed => malformed
    | .error .longNumber | .error .deepNesting => excessive

def isExcessive : Body → Bool
  | excessive => true
  | _ => false

def members? : Body → Option (List (String × Document Amount))
  | document (.object members) => some members
  | _ => none

end Body

/-- Reads the value of a member. -/
abbrev Reader (β : Type) := Document Amount → Option β

/-- The characters without low lines, if no low line stands at either end or beside another. -/
def dropLowLines? (cs : List Char) : Option (List Char) :=
  let isLine (c : Char) : Bool := c == '_'
  let doubled := (cs.zip (cs.drop 1)).any fun (c, d) => isLine c && isLine d
  if (cs.head?.any isLine) || (cs.getLast?.any isLine) || doubled then none
  else some (cs.filter fun c => !isLine c)

def readNumeral? (cs : List Char) : Option Number.Numeral :=
  Number.Numeral.readBare? (Text.trimWhere Number.Numeral.isMargin cs) <|>
    (dropLowLines? cs).bind Number.Numeral.readBare?

namespace Reader

def text : Reader String
  | .string s => some s
  | _ => none

/-- A number, a truth value as one or zero, or a text that writes a number. A whole number that is
beyond all measured ones is none. -/
def number : Reader Float
  | .number (.real x) => some x
  | .number (.whole n) =>
    let x := (Amount.whole n).toFloat
    if x.isInf then none else some x
  | .bool b => some (if b then 1 else 0)
  | .string s => (readNumeral? s.toList).map Number.Numeral.toFloat
  | _ => none

def flagWords : List (Bool × List String) :=
  [(true, ["1", "on", "t", "true", "y", "yes"]), (false, ["0", "off", "f", "false", "n", "no"])]

def flag : Reader Bool
  | .bool b => some b
  | .number n =>
    if n.toFloat == 1 then some true else if n.toFloat == 0 then some false else none
  | .string s => (flagWords.find? fun (_, words) => words.contains s.toLower).map (·.1)
  | _ => none

def named {β : Type} (ofName? : String → Option β) : Reader β
  | .string s => ofName? s
  | _ => none

def nullable {β : Type} (r : Reader β) : Reader (Option β)
  | .null => some none
  | d => (r d).map some

end Reader

def required {β : Type} (r : Reader β) (members : List (String × Document Amount)) (key : String) :
    Option β :=
  (members.lookup key).bind r

def optionalOr {β : Type} (r : Reader β) (standard : β)
    (members : List (String × Document Amount)) (key : String) : Option β :=
  match members.lookup key with
  | some d => r d
  | none => some standard

/-- Drops zeros off the front of a number, and low lines among them, but leaves it one digit; a
number with a minus stays as it is. Nothing but a number is let through. -/
def dropZeros? (cs : List Char) : Option (List Char) :=
  let isZero (c : Char) : Bool := c == '0' || c == '_'
  match cs with
  | '-' :: _ => some cs
  | '0' :: more =>
    let zeros := '0' :: more.takeWhile isZero
    match more.dropWhile isZero with
    | [] => zeros.getLast?.map fun c => [c]
    | '.' :: rest => zeros.getLast?.map fun c => c :: '.' :: rest
    | c :: rest => if c.isDigit then some (c :: rest) else none
  | c :: _ => if c.isDigit then some cs else none
  | [] => none

def dropFraction (cs : List Char) : List Char :=
  match cs.dropWhile (· != '.') with
  | '.' :: fraction => if fraction.all (· == '0') then cs.takeWhile (· != '.') else cs
  | _ => cs

/-- The number that digits write behind the sign: no zero in front of others, and not too many. -/
def readDigits? (negative : Bool) (cs : List Char) : Option Int :=
  let size : Int := Number.Numeral.natOf cs
  if cs.isEmpty || !cs.all Char.isDigit || (1 < cs.length && cs.head? == some '0') ||
      Document.digitLimit < cs.length then none
  else some (if negative then -size else size)

/-- A whole number in a query: digits with single low lines between, perhaps with a sign in front
and a fraction of zeros behind. -/
def readWhole? (s : String) : Option Int := do
  let trimmed := Text.trimWhere Number.Numeral.isMargin s.toList
  let unsigned ← match trimmed with
    | '+' :: '-' :: _ => none
    | '+' :: cs => some cs
    | cs => some cs
  let bare ← dropLowLines? (dropFraction (← dropZeros? unsigned))
  match bare with
  | '-' :: cs => readDigits? true cs
  | cs => readDigits? false cs

end TypeDiagram.Server
