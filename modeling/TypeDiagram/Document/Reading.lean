import TypeDiagram.Document
import TypeDiagram.Number.Amount

/-!
Documents read from text. Blanks may stand between the parts; the words `NaN`, `Infinity` and
`-Infinity` are numbers too. A number with a fraction or an exponent is a measured one and any other
an exact one.
-/

namespace TypeDiagram

namespace Document

inductive Unreadable where
  /-- The text is no document. -/
  | malformed
  /-- A whole number has more digits than are read. -/
  | longNumber
  /-- Lists and objects stand inside each other more deeply than is read. -/
  | deepNesting
deriving DecidableEq, Repr

def dropBlanks (cs : List Char) : List Char :=
  cs.dropWhile fun c => c == ' ' || c == '\t' || c == '\n' || c == '\r'

def digitLimit : Nat := 4300

/-- How many lists and objects may stand inside each other. -/
def nestingLimit : Nat := 950

def hexDigit? (c : Char) : Option Nat :=
  let n := c.toNat
  if c.isDigit then some (n - '0'.toNat)
  else if 'a' ≤ c && c ≤ 'f' then some (n - 'a'.toNat + 10)
  else if 'A' ≤ c && c ≤ 'F' then some (n - 'A'.toNat + 10)
  else none

def unit? : List Char → Option (Nat × List Char)
  | a :: b :: c :: d :: cs => do
    let high := 16 * (← hexDigit? a) + (← hexDigit? b)
    let low := 16 * (← hexDigit? c) + (← hexDigit? d)
    some (256 * high + low, cs)
  | _ => none

/-- The character that the code behind `\u` stands for, if need be with a second code; none if it is
half a character. -/
def coded? (cs : List Char) : Option (Option Char × List Char) := do
  let (first, rest) ← unit? cs
  if 0xD800 ≤ first && first < 0xDC00 then
    match rest with
    | '\\' :: 'u' :: more =>
      let (second, behind) ← unit? more
      if 0xDC00 ≤ second && second < 0xE000 then
        some (some (Char.ofNat (0x10000 + (first - 0xD800) * 0x400 + (second - 0xDC00))), behind)
      else some (none, rest)
    | _ => some (none, rest)
  else if 0xDC00 ≤ first && first < 0xE000 then some (none, rest)
  else some (some (Char.ofNat first), rest)

def escaped? (c : Char) : Option Char :=
  match c with
  | '"' | '\\' | '/' => some c
  | 'b' => some '\x08'
  | 'f' => some '\x0c'
  | 'n' => some '\n'
  | 'r' => some '\r'
  | 't' => some '\t'
  | _ => none

/-- Reads the rest of a text behind its first quote. The result tells whether all its characters are
whole; half a character is replaced. `fuel` bounds the number of characters. -/
def readText : (fuel : Nat) → (whole : Bool) → (before : List Char) → List Char →
    Except Unreadable ((Bool × String) × List Char)
  | 0, _, _, _ => .error .malformed
  | fuel + 1, whole, before, cs =>
    match cs with
    | '"' :: rest => .ok ((whole, String.ofList before.reverse), rest)
    | '\\' :: 'u' :: rest =>
      match coded? rest with
      | some (some c, rest) => readText fuel whole (c :: before) rest
      | some (none, rest) => readText fuel false ('\uFFFD' :: before) rest
      | none => .error .malformed
    | '\\' :: c :: rest =>
      match escaped? c with
      | some c => readText fuel whole (c :: before) rest
      | none => .error .malformed
    | c :: rest =>
      if c == '\\' || c.toNat < 0x20 then .error .malformed
      else readText fuel whole (c :: before) rest
    | [] => .error .malformed

def fractionDigits : List Char → List Char
  | '.' :: cs => cs.takeWhile Char.isDigit
  | _ => []

def exponent? : List Char → Option (Bool × List Char × List Char)
  | c :: cs =>
    let (negative, digits) := Number.Numeral.splitSign cs
    let power := digits.takeWhile Char.isDigit
    if (c == 'e' || c == 'E') && !power.isEmpty then
      some (negative, power, digits.dropWhile Char.isDigit)
    else none
  | [] => none

/-- Reads a number behind its sign. Like all that follow, the result tells what stands behind it. -/
def readNumber (negative : Bool) (cs : List Char) : Except Unreadable (Amount × List Char) :=
  let digits := cs.takeWhile Char.isDigit
  let whole := if digits.head? == some '0' then ['0'] else digits
  let rest := cs.drop whole.length
  let part := fractionDigits rest
  let behind := if part.isEmpty then rest else rest.drop (part.length + 1)
  let size (power : Int) : Float :=
    (Number.Numeral.finite negative (Number.Numeral.natOf (whole ++ part))
      (power - part.length)).toFloat
  if whole.isEmpty then .error .malformed
  else match exponent? behind with
    | some (negativePower, power, behind) =>
      let n : Int := Number.Numeral.natOf power
      .ok (.real (size (if negativePower then -n else n)), behind)
    | none =>
      if !part.isEmpty then .ok (.real (size 0), behind)
      else if digitLimit < whole.length then .error .longNumber
      else
        let n : Int := Number.Numeral.natOf whole
        .ok (.whole (if negative then -n else n), behind)

def words : List (String × Document Amount) :=
  [("null", .null), ("true", .bool true), ("false", .bool false),
    ("NaN", .number (.real (0.0 / 0.0))), ("Infinity", .number (.real (1.0 / 0.0))),
    ("-Infinity", .number (.real (-1.0 / 0.0)))]

def readPlain (cs : List Char) : Except Unreadable (Document Amount × List Char) :=
  match words.find? fun (word, _) => word.toList.isPrefixOf cs with
  | some (word, d) => .ok (d, cs.drop word.length)
  | none =>
    let number := match cs with
      | '-' :: rest => readNumber true rest
      | _ => readNumber false cs
    number.map fun (n, rest) => (.number n, rest)

/-- The members of an object; a later value of a key stands in place of an earlier one. -/
def ofMembers (members : List (String × Document Amount)) : Document Amount :=
  .object (members.foldl
    (fun known (k, d) =>
      if known.any fun e => e.1 == k then known.map fun e => if e.1 == k then (k, d) else e
      else known ++ [(k, d)])
    [])

mutual

/-- Reads a value; `depth` more lists and objects may stand inside each other. A text with half a
character is no text, and an empty list stands for it. -/
def readValue : (fuel depth : Nat) → List Char → Except Unreadable (Document Amount × List Char)
  | 0, _, _ => .error .malformed
  | fuel + 1, depth, cs =>
    match cs with
    | '"' :: rest => do
      let ((whole, s), rest) ← readText (rest.length + 1) true [] rest
      return (if whole then .string s else .array [], rest)
    | '[' :: rest =>
      match depth, dropBlanks rest with
      | 0, _ => .error .deepNesting
      | _, ']' :: rest => .ok (.array [], rest)
      | depth + 1, rest => readItems fuel depth [] rest
    | '\x7b' :: rest =>
      match depth, dropBlanks rest with
      | 0, _ => .error .deepNesting
      | _, '\x7d' :: rest => .ok (.object [], rest)
      | depth + 1, rest => readMembers fuel depth [] rest
    | _ => readPlain cs

def readItems : (fuel depth : Nat) → (before : List (Document Amount)) → List Char →
    Except Unreadable (Document Amount × List Char)
  | 0, _, _, _ => .error .malformed
  | fuel + 1, depth, before, cs => do
    let (d, rest) ← readValue fuel depth cs
    match dropBlanks rest with
    | ']' :: rest => return (.array (d :: before).reverse, rest)
    | ',' :: rest => readItems fuel depth (d :: before) (dropBlanks rest)
    | _ => throw .malformed

def readMembers : (fuel depth : Nat) → (before : List (String × Document Amount)) → List Char →
    Except Unreadable (Document Amount × List Char)
  | 0, _, _, _ => .error .malformed
  | fuel + 1, depth, before, cs =>
    match cs with
    | '"' :: rest => do
      let ((_, key), rest) ← readText (rest.length + 1) true [] rest
      match dropBlanks rest with
      | ':' :: rest =>
        let (d, rest) ← readValue fuel depth (dropBlanks rest)
        match dropBlanks rest with
        | '\x7d' :: rest => return (ofMembers ((key, d) :: before).reverse, rest)
        | ',' :: rest => readMembers fuel depth ((key, d) :: before) (dropBlanks rest)
        | _ => throw .malformed
      | _ => throw .malformed
    | _ => .error .malformed

end

def read (s : String) : Except Unreadable (Document Amount) := do
  let cs := s.toList
  let (d, rest) ← readValue (2 * cs.length + 2) nestingLimit (dropBlanks cs)
  if (dropBlanks rest).isEmpty then return d else throw .malformed

end Document

end TypeDiagram
