import Std.Data.HashMap

/-!
The terminals of declaration source text: keywords and marks, which have one spelling each, and
classes of lexemes. Terminals are numbered, and a set of terminals is a number whose bits tell
which terminals it holds.
-/

namespace TypeDiagram.Source

inductive Terminal where
  /-- A keyword or a mark. -/
  | literal (spelling : String)
  | identifier
  /-- An identifier behind a number sign. -/
  | privateName
  | number
  | comment
  /-- A first line that names an interpreter. -/
  | hashBang
  /-- Literal text between double quotes. -/
  | doubleText
  /-- Literal text between single quotes. -/
  | singleText
  /-- A backslash and what it escapes. -/
  | escape
  /-- A regular expression between its slashes. -/
  | regexBody
  /-- The slash that ends a regular expression. -/
  | regexEnd
  | regexFlags
  /-- The place where a line break ends a statement or a member. -/
  | automaticSemicolon
  /-- The place where a line break ends the signature of a function. -/
  | signatureSemicolon
  /-- Literal text of a template. -/
  | templateText
  /-- The mark behind the condition of a conditional expression. -/
  | ternaryMark
  /-- A comment that runs from an opening or a closing comment mark of a page to its line's end. -/
  | htmlComment
  | endOfSource
deriving DecidableEq, Hashable, Repr

instance : Coe String Terminal := ⟨.literal⟩

namespace Terminal

/-- All terminals in the order of their numbers. Where a terminal is missing from a text, those
with small numbers are tried first. -/
def all : Array Terminal :=
  let first : List String :=
    ["export", "*", "default", "type", "import", "=", "as", "namespace", "\x7b", ",", "\x7d",
      "typeof", "from", "with", "assert", "var", "let", "const", "!", "else", "if", "switch", "for",
      "(", ";", ")", "await", "in", "of", "while", "do", "try", "break", "continue", "debugger",
      "return", "throw", ":", "case", "catch", "finally", "yield", "[", "]", "class", "async",
      "function", "=>", "?.", "new", ".", "using", "+=", "-=", "*=", "/=", "%=", "^=", "&=", "|="]
  let second : List String :=
    [">>=", ">>>=", "<<=", "**=", "&&=", "||=", "??=", "...", "&&", "||", ">>", ">>>", "<<", "&",
      "^", "|", "+", "-", "/", "%", "**", "<", "<=", "==", "===", "!=", "!==", ">=", ">", "??",
      "instanceof", "~", "void", "delete", "++", "--", "\"", "'"]
  let third : List String :=
    ["target", "meta", "this", "super", "true", "false", "null", "undefined", "@", "static",
      "readonly", "get", "set", "?", "declare", "public", "private", "protected", "override",
      "module", "any", "number", "boolean", "string", "symbol", "object", "abstract", "accessor",
      "satisfies", "require", "extends", "implements", "global", "interface", "enum", "-?:", "+?:",
      "?:", "asserts", "infer", "is", "keyof", "unique", "unknown", "never", "\x7b|", "|\x7d"]
  ([identifier, hashBang] ++ first.map literal ++ second.map literal ++
    [doubleText, singleText, escape, comment, literal "\x60", literal "$\x7b", regexEnd, regexBody,
      regexFlags, number, privateName] ++ third.map literal ++
    [automaticSemicolon, templateText, ternaryMark, htmlComment, signatureSemicolon,
      endOfSource]).toArray

def codes : Std.HashMap Terminal Nat :=
  Std.HashMap.ofList (all.toList.zipIdx)

def code (t : Terminal) : Nat := (codes[t]?).getD 0

def ofCode (n : Nat) : Terminal := (all[n]?).getD .endOfSource

def count : Nat := all.size

def isHidden : Terminal → Bool
  | automaticSemicolon | signatureSemicolon | templateText | ternaryMark | endOfSource => true
  | _ => false

def valueWords : List String := ["this", "super", "true", "false", "null", "undefined"]

/-- Do the nodes of the terminal tell a reader something that the grammar around them does not? -/
def isNamed (t : Terminal) : Bool :=
  match t with
  | literal s => valueWords.contains s
  | regexEnd => false
  | _ => !t.isHidden

def spelling? : Terminal → Option String
  | literal s => some s
  | _ => none

end Terminal

/-- A set of terminals: bit `n` tells whether it holds the terminal with the number `n`. -/
abbrev TokenSet := Nat

namespace TokenSet

def single (n : Nat) : TokenSet := 1 <<< n

def ofList (ts : List Terminal) : TokenSet := ts.foldl (fun s t => s ||| single t.code) 0

def has (s : TokenSet) (n : Nat) : Bool := s.testBit n

end TokenSet

end TypeDiagram.Source
