import TypeDiagram.Document
import TypeDiagram.Number.Amount
import TypeDiagram.Text.Quoted

/-!
Documents as lines of text. Every item and member has a line of its own, two blanks further in than
what holds it. Texts are written in ASCII.
-/

namespace TypeDiagram

namespace Document

def unitCode (n : Nat) : List Char := '\\' :: 'u' :: Text.hexDigits 4 n

/-- How a character is written between double quotes. What is not printable ASCII is written by its
code, and by two codes if it needs more than sixteen bits. -/
def charCode (c : Char) : List Char :=
  let n := c.toNat
  match c with
  | '"' => ['\\', '"']
  | '\\' => ['\\', '\\']
  | '\n' => ['\\', 'n']
  | '\r' => ['\\', 'r']
  | '\t' => ['\\', 't']
  | '\x08' => ['\\', 'b']
  | '\x0c' => ['\\', 'f']
  | _ =>
    if 0x20 ≤ n && n ≤ 0x7E then [c]
    else if n < 0x10000 then unitCode n
    else unitCode (0xD800 + (n - 0x10000) / 0x400) ++ unitCode (0xDC00 + (n - 0x10000) % 0x400)

def textCode (s : String) : String :=
  String.ofList ('"' :: s.toList.flatMap charCode ++ ['"'])

/-- The entries between brackets, each on a line of its own; the brackets stand at `depth`. -/
def bracketed (opening closing : String) (depth : Nat) (entries : List String) : String :=
  let line (d : Nat) := "\n" ++ String.ofList (List.replicate (2 * d) ' ')
  if entries.isEmpty then opening ++ closing
  else opening ++ line (depth + 1) ++ ("," ++ line (depth + 1)).intercalate entries ++ line depth ++
    closing

mutual

def indentedAt (depth : Nat) : Document Amount → String
  | null => "null"
  | bool b => if b then "true" else "false"
  | number n => n.written
  | string s => textCode s
  | array items => bracketed "[" "]" depth (itemLines (depth + 1) items)
  | object members => bracketed "\x7b" "\x7d" depth (memberLines (depth + 1) members)

def itemLines (depth : Nat) : List (Document Amount) → List String
  | [] => []
  | d :: ds => indentedAt depth d :: itemLines depth ds

def memberLines (depth : Nat) : List (String × Document Amount) → List String
  | [] => []
  | (k, d) :: ds => (textCode k ++ ": " ++ indentedAt depth d) :: memberLines depth ds

end

def indented (d : Document Amount) : String := indentedAt 0 d

end Document

end TypeDiagram
