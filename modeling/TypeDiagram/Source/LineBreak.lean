import TypeDiagram.Source.Lexeme

/-!
Line breaks that end a statement or a member. A line break does so unless the text goes on with a
character that no statement begins with; the end of the source and a closing brace do so too.
-/

namespace TypeDiagram.Source

structure BreakContext where
  /-- May a binary operator follow? Then a bracket on a new line goes on with an operand. -/
  inExpression : Bool
  /-- May the signature of a function end here, rather than a body begin? -/
  afterSignature : Bool

def startsAfresh (context : BreakContext) (cs : List Char) : Bool :=
  match cs with
  | [] => true
  | c :: more =>
    let joining := ['\x60', ',', '.', ';', '*', '%', '>', '<', '=', '?', '^', '|', '&', '/', ':']
    let endsWord (rest : List Char) : Bool := !(rest.head?.map isLetter).getD false
    if joining.contains c then false
    else if c == '\x7b' then !context.afterSignature
    else if c == '(' || c == '[' then !context.inExpression
    else if c == '+' then more.head? == some '+'
    else if c == '-' then more.head? == some '-'
    else if c == '!' then more.head? != some '='
    else if c == 'i' && more.head? == some 'n' then
      let rest := more.drop 1
      let word := "stanceof".toList
      !endsWord rest && !(rest.take word.length == word && endsWord (rest.drop word.length))
    else true

/-- Whether something ends in front of the text without a mark that ends it; if not, where the
search stopped and whether it passed a comment there. -/
inductive BreakSearch where
  | ends
  | goesOn (stop : List Char) (passedComment : Bool)

/-- Passes blanks and comments behind a line break; `fuel` bounds their number. -/
def searchBehind (context : BreakContext) : (fuel : Nat) → (passed : Bool) → List Char → BreakSearch
  | 0, passed, cs => .goesOn cs passed
  | fuel + 1, passed, cs =>
    match cs.dropWhile isBreakable with
    | '/' :: '/' :: more =>
      searchBehind context fuel true (more.drop (lengthUntil (· == '\n') more))
    | '/' :: '*' :: more =>
      let n := blockRest more
      searchBehind context fuel passed (if n == 0 then more.dropWhile (!isNul ·) else more.drop n)
    | '/' :: more => .goesOn more passed
    | rest =>
      if startsAfresh context (rest.takeWhile (!isNul ·)) then .ends else .goesOn rest passed

/-- Looks for a line break, a closing brace or the end of the text ahead, behind blanks only. -/
def searchBreak (context : BreakContext) : List Char → BreakSearch
  | [] => .ends
  | c :: cs =>
    if isNul c then .ends
    else if c == '\x7d' then
      if (cs.dropWhile isBreakable).head? == some ':' && !context.inExpression then
        .goesOn cs false
      else .ends
    else if !isBreakable c then .goesOn (c :: cs) false
    else if c == '\n' then searchBehind context (cs.length + 1) false cs
    else searchBreak context cs

end TypeDiagram.Source
