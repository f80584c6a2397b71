import TypeDiagram.Source.LineBreak
import TypeDiagram.Source.Terminal

/-!
The next terminal of a text. Which one it is depends on the terminals that are expected: of those
the longest lexeme is taken, and a word is a keyword only where that keyword is expected.
-/

namespace TypeDiagram.Source

structure Sighting where
  terminal : Nat
  gap : Nat
  length : Nat
deriving DecidableEq, Repr

namespace Scanner

structure Codes where
  identifier : Nat
  privateName : Nat
  number : Nat
  comment : Nat
  hashBang : Nat
  doubleText : Nat
  singleText : Nat
  escape : Nat
  regexBody : Nat
  regexEnd : Nat
  regexFlags : Nat
  automaticSemicolon : Nat
  signatureSemicolon : Nat
  templateText : Nat
  ternaryMark : Nat
  htmlComment : Nat
  endOfSource : Nat
  alternation : Nat

def codes : Codes where
  identifier := Terminal.identifier.code
  privateName := Terminal.privateName.code
  number := Terminal.number.code
  comment := Terminal.comment.code
  hashBang := Terminal.hashBang.code
  doubleText := Terminal.doubleText.code
  singleText := Terminal.singleText.code
  escape := Terminal.escape.code
  regexBody := Terminal.regexBody.code
  regexEnd := Terminal.regexEnd.code
  regexFlags := Terminal.regexFlags.code
  automaticSemicolon := Terminal.automaticSemicolon.code
  signatureSemicolon := Terminal.signatureSemicolon.code
  templateText := Terminal.templateText.code
  ternaryMark := Terminal.ternaryMark.code
  htmlComment := Terminal.htmlComment.code
  endOfSource := Terminal.endOfSource.code
  alternation := (Terminal.literal "||").code

def literals : List (String × Nat) :=
  Terminal.all.toList.zipIdx.filterMap fun (t, n) => t.spelling?.map fun s => (s, n)

def isWord (s : String) : Bool := (s.toList.head?.map Char.isAlpha).getD false

def keywords : Std.HashMap String Nat :=
  Std.HashMap.ofList (literals.filter fun (s, _) => isWord s)

def keywordSet : TokenSet := keywords.fold (fun set _ n => set ||| .single n) 0

def punctuation : List (List Char × Nat) :=
  (literals.filter fun (s, _) => !isWord s).map fun (s, n) => (s.toList, n)

/-- The longer of two lexemes, the first one if they are equally long. -/
def longer (a b : Nat × Nat) : Nat × Nat := if a.2 < b.2 then b else a

/-- The rest of a ternary mark behind blanks: a question mark that begins no other operator and
is not followed by what ends a type or a list. -/
def ternaryMark? (cs : List Char) : Option Sighting :=
  let rest := cs.dropWhile isBreakable
  match rest with
  | '?' :: more =>
    let next := more.dropWhile isBreakable
    let ends : Bool := match next with
      | ':' :: _ | ')' :: _ | ',' :: _ => true
      | '.' :: d :: _ => !d.isDigit
      | '.' :: [] => true
      | _ => false
    if more.head? == some '?' || more.head? == some '.' || ends then none
    else some ⟨codes.ternaryMark, cs.length - rest.length, 1⟩
  | _ => none

def htmlComment? (cs : List Char) : Option Sighting :=
  let isBlank (c : Char) : Bool := isBreakable c
  let rest := cs.dropWhile isBlank
  let marks := ["<!--".toList, "-->".toList]
  if marks.any (·.isPrefixOf rest) then
    some ⟨codes.htmlComment, (cs.takeWhile isBlank).length,
      lengthUntil (fun c => endsLine c && c != '\r') rest⟩
  else none

/-- The terminals that are told by what surrounds them rather than by their spelling. -/
def contextual? (expected : TokenSet) (cs : List Char) : Option Sighting :=
  let has := expected.has
  let inExpression := has codes.alternation
  if has codes.templateText then
    let n := templateLength cs
    if has codes.automaticSemicolon || n == 0 then none else some ⟨codes.templateText, 0, n⟩
  else if has codes.automaticSemicolon || has codes.signatureSemicolon then
    match searchBreak ⟨inExpression, has codes.signatureSemicolon⟩ cs with
    | .ends => some ⟨codes.automaticSemicolon, 0, 0⟩
    | .goesOn stop passedComment =>
      if !passedComment && has codes.ternaryMark && stop.head? == some '?' then
        (ternaryMark? stop).map fun s => { s with gap := s.gap + (cs.length - stop.length) }
      else none
  else if has codes.ternaryMark then ternaryMark? cs
  else if has codes.htmlComment && !inExpression && !has codes.escape && !has codes.regexBody then
    htmlComment? cs
  else none

def stringText? (expected : TokenSet) (cs : List Char) : Option Sighting :=
  let text (code : Nat) (quote : Char) : Option Sighting :=
    let n := lengthUntil (fun c => c == quote || c == '\\' || c == '\r' || c == '\n') cs
    if n == 0 then none else some ⟨code, 0, n⟩
  if expected.has codes.doubleText then text codes.doubleText '"'
  else if expected.has codes.singleText then text codes.singleText '\''
  else none

/-- The lexemes that may begin with the characters, in the order in which they are preferred;
`adjacent` if no blank stands in front. -/
def candidates (expected : TokenSet) (adjacent : Bool) (cs : List Char) : List (Nat × Nat) :=
  let has := expected.has
  let only (code : Nat) (n : Nat) : List (Nat × Nat) := if has code then [(code, n)] else []
  let onlyAdjacent (code : Nat) (n : Nat) : List (Nat × Nat) :=
    if adjacent && has code then [(code, n)] else []
  let word :=
    if has codes.identifier || expected &&& keywordSet != 0
    then [(codes.identifier, wordLength cs)] else []
  let flags := onlyAdjacent codes.regexFlags (cs.takeWhile fun c => 'a' ≤ c && c ≤ 'z').length
  let marks := punctuation.filterMap fun (mark, code) =>
    if has code && mark.isPrefixOf cs then some (code, mark.length) else none
  let bang := match cs with
    | '#' :: '!' :: _ => only codes.hashBang (lengthUntil (· == '\n') cs)
    | _ => []
  let privateNames := match cs with
    | '#' :: more =>
      let n := wordLength more
      if n == 0 then [] else only codes.privateName (n + 1)
    | _ => []
  word ++ flags ++ only codes.number (numberLength cs) ++ marks ++
    onlyAdjacent codes.escape (escapeLength cs) ++ only codes.comment (commentLength cs) ++ bang ++
    privateNames

def spelled? (expected : TokenSet) (cs : List Char) : Option Sighting :=
  match stringText? expected cs with
  | some s => some s
  | none =>
    let gap := (cs.takeWhile isGap).length
    let rest := cs.drop gap
    let adjacent := gap == 0
    let regex := if adjacent && expected.has codes.regexBody && commentLength rest == 0
      then regexLength rest.length rest else 0
    if rest.isEmpty then
      if expected.has codes.endOfSource then some ⟨codes.endOfSource, gap, 0⟩ else none
    else if regex != 0 then some ⟨codes.regexBody, gap, regex⟩
    else
      let (code, n) := (candidates expected adjacent rest).foldl longer (0, 0)
      let slash := adjacent && expected.has codes.regexEnd && rest.head? == some '/'
      if slash && n ≤ 1 then some ⟨codes.regexEnd, gap, 1⟩
      else if n == 0 then none
      else some ⟨code, gap, n⟩

def keyword? (expected : TokenSet) (word : List Char) : Option Nat :=
  (keywords[String.ofList word]?).filter expected.has

/-- How many characters lie in front of the next terminal or the end of the text, as far as a
character among them begins no terminal that is expected; `fuel` bounds their number. -/
def strayLength (expected : TokenSet) : (fuel : Nat) → List Char → Nat
  | 0, _ => 0
  | fuel + 1, cs =>
    let gap := (cs.takeWhile isGap).length
    match spelled? expected cs, cs.drop gap with
    | none, _ :: rest => gap + 1 + strayLength expected fuel rest
    | _, _ => 0

end Scanner

end TypeDiagram.Source
