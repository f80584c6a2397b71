import TypeDiagram.Source.Character

/-!
How far a lexeme reaches. Each function is given the characters that lie ahead and says how many
of them the lexeme takes, so that none can lose or invent a character; zero stands for no lexeme.
-/

namespace TypeDiagram.Source

/-- The length of the Unicode escape, without its backslash, that the characters begin with. -/
def unicodeEscape : List Char → Nat
  | 'u' :: '\x7b' :: cs =>
    let digits := (cs.takeWhile isHex).length
    if digits != 0 && (cs.drop digits).head? == some '\x7d' then digits + 3 else 0
  | 'u' :: cs => if (cs.take 4).length == 4 && (cs.take 4).all isHex then 5 else 0
  | _ => 0

/-- A word that goes on where another character or escape of it has been read, or begins if
`atStart`; `fuel` bounds its length. -/
def wordFrom (atStart : Bool) : (fuel : Nat) → List Char → Nat
  | fuel + 1, c :: cs =>
    if c == '\\' then
      let n := unicodeEscape cs
      if n == 0 then 0 else wordFrom false fuel (cs.drop n) + n + 1
    else if if atStart then isWordStart c else isWordRest c then wordFrom false fuel cs + 1
    else 0
  | _, _ => 0

def wordLength (cs : List Char) : Nat := wordFrom true cs.length cs

def digitsRest (isDigit : Char → Bool) : List Char → Nat
  | '_' :: c :: cs => if isDigit c then digitsRest isDigit cs + 2 else 0
  | c :: cs => if isDigit c then digitsRest isDigit cs + 1 else 0
  | [] => 0

def digits (isDigit : Char → Bool) : List Char → Nat
  | c :: cs => if isDigit c then digitsRest isDigit cs + 1 else 0
  | [] => 0

def exponent : List Char → Nat
  | c :: cs =>
    let sign := if cs.head? == some '+' || cs.head? == some '-' then 1 else 0
    let n := digits Char.isDigit (cs.drop sign)
    if (c == 'e' || c == 'E') && n != 0 then n + sign + 1 else 0
  | [] => 0

/-- The length of the longest number that continues a whole part of length `n` by a point, a
fraction or an exponent; zero if nothing continues it. -/
def decimalFrom (cs : List Char) (n : Nat) : Nat :=
  let rest := cs.drop n
  let plain := exponent rest
  let pointed := match rest with
    | '.' :: more =>
      let fraction := digits Char.isDigit more
      max (fraction + 1 + exponent (more.drop fraction)) (1 + exponent more)
    | _ => 0
  if max plain pointed == 0 then 0 else n + max plain pointed

def wholeParts (cs : List Char) : List Nat :=
  let nonzero (c : Option Char) : Bool := (c.map fun c => '1' ≤ c && c ≤ '9').getD false
  let single := if cs.head? == some '0' then 1 else 0
  let start := if single == 1 && nonzero cs[1]? then 1 else 0
  let longer :=
    if nonzero cs[start]? then
      let gap := if cs[start + 1]? == some '_' then 1 else 0
      let n := digits Char.isDigit (cs.drop (start + 1 + gap))
      [start + 1, if n == 0 then 0 else start + 1 + gap + n]
    else []
  (single :: longer).filter (· != 0)

def numberLength (cs : List Char) : Nat :=
  let big (n : Nat) : Nat := if n != 0 && cs[n]? == some 'n' then n + 1 else n
  let based : Nat := match cs with
    | '0' :: c :: more =>
      let n :=
        if c == 'x' || c == 'X' then digits isHex more
        else if c == 'b' || c == 'B' then digits isBinary more
        else if c == 'o' || c == 'O' then digits isOctal more
        else 0
      if n == 0 then 0 else big (n + 2)
    | _ => 0
  let whole := big (digits Char.isDigit cs)
  let decimals := (wholeParts cs).map (decimalFrom cs)
  let bare := match cs with
    | '.' :: more =>
      let n := digits Char.isDigit more
      if n == 0 then 0 else n + 1 + exponent (more.drop n)
    | _ => 0
  (based :: bare :: decimals).foldl max whole

def escapeLength : List Char → Nat
  | '\\' :: c :: cs =>
    if isNul c then 0
    else if c == 'x' then if (cs.take 2).length == 2 && (cs.take 2).all isHex then 4 else 0
    else if c == 'u' then
      let n := unicodeEscape (c :: cs)
      if n == 0 then 0 else n + 1
    else if isOctal c then (((c :: cs).take 3).takeWhile isOctal).length + 1
    else if c == '\r' || c == '?' then
      match cs with
      | d :: _ => if endsLine d && d != '\r' then 3 else 2
      | [] => 2
    else 2
  | _ => 0

def lengthUntil (stops : Char → Bool) (cs : List Char) : Nat :=
  (cs.takeWhile fun c => !isNul c && !stops c).length

/-- The rest of a block comment behind its opening mark; zero if it is not closed. -/
def blockRest : List Char → Nat
  | '*' :: '/' :: _ => 2
  | c :: cs =>
    let n := blockRest cs
    if isNul c || n == 0 then 0 else n + 1
  | [] => 0

def commentLength : List Char → Nat
  | '/' :: '/' :: cs => lengthUntil endsLine cs + 2
  | '/' :: '*' :: cs =>
    let n := blockRest cs
    if n == 0 then 0 else n + 2
  | _ => 0

/-- The rest of a character class of a regular expression behind its bracket; zero if it is not
closed on its line. -/
def classRest : (fuel : Nat) → List Char → Nat
  | fuel + 1, c :: cs =>
    if isNul c || c == '\n' then 0
    else if c == ']' then 1
    else
      let taken := if c == '\\' then
          match cs with
          | d :: _ => if isNul d || d == '\n' then 0 else 2
          | [] => 0
        else 1
      let n := classRest fuel (cs.drop (taken - 1))
      if taken == 0 || n == 0 then 0 else n + taken
  | _, _ => 0

def regexLength : (fuel : Nat) → List Char → Nat
  | fuel + 1, c :: cs =>
    if isNul c || c == '/' || c == '\n' then 0
    else
      let taken :=
        if c == '[' then
          let n := classRest cs.length cs
          if n == 0 then 0 else n + 1
        else if c == '\\' then
          match cs with
          | d :: _ => if isNul d || d == '\n' then 0 else 2
          | [] => 0
        else 1
      if taken == 0 then 0 else regexLength fuel (cs.drop (taken - 1)) + taken
  | _, _ => 0

/-- Literal text of a template up to its end, an escape or a hole; zero if none of these follows. -/
def templateLength : List Char → Nat
  | [] => 0
  | c :: cs =>
    let stopsNext : Bool := match cs with
      | d :: more => d == '\x60' || d == '\\' || (d == '$' && more.head? == some '\x7b')
      | [] => false
    let stopsHere := c == '\x60' || c == '\\' || (c == '$' && cs.head? == some '\x7b')
    if isNul c || stopsHere then 0
    else if stopsNext then 1
    else
      let n := templateLength cs
      if n == 0 then 0 else n + 1

end TypeDiagram.Source
