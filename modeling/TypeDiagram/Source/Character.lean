/-!
Character classes of declaration source text. Blanks separate tokens. Among them the *breakable*
blanks are those a line break is looked for behind: a no-break space or a byte order mark hides
the line break that follows it.
-/

namespace TypeDiagram.Source

def isGap (c : Char) : Bool :=
  let n := c.toNat
  (0x09 ≤ n && n ≤ 0x0D) || n == 0x20 || n == 0xA0 || n == 0x1680 ||
    (0x2000 ≤ n && n ≤ 0x200B) || n == 0x2028 || n == 0x2029 || n == 0x202F || n == 0x205F ||
    n == 0x2060 || n == 0x3000 || n == 0xFEFF

def isBreakable (c : Char) : Bool :=
  let n := c.toNat
  isGap c && n != 0xA0 && n != 0x2007 && n != 0x200B && n != 0x202F && n != 0x2060 && n != 0xFEFF

def marks : List Char :=
  [':', ';', '\x60', '"', '\'', '@', '#', '.', ',', '|', '^', '&', '<', '=', '>', '+', '-', '*',
    '/', '\\', '%', '?', '!', '~', '(', ')', '[', ']', '\x7b', '\x7d']

def isWordRest (c : Char) : Bool :=
  0x20 ≤ c.toNat && !isGap c && !marks.contains c

def isWordStart (c : Char) : Bool :=
  isWordRest c && !c.isDigit

def isLetter (c : Char) : Bool :=
  c.isAlpha || (0xAA ≤ c.toNat && !isGap c && c != '«' && c != '¬' && c != '×' && c != '÷')

def endsLine (c : Char) : Bool :=
  c == '\n' || c == '\r' || c.toNat == 0x2028 || c.toNat == 0x2029

def isNul (c : Char) : Bool := c.toNat == 0

def isHex (c : Char) : Bool :=
  c.isDigit || ('a' ≤ c && c ≤ 'f') || ('A' ≤ c && c ≤ 'F')

def isOctal (c : Char) : Bool :=
  '0' ≤ c && c ≤ '7'

def isBinary (c : Char) : Bool :=
  c == '0' || c == '1'

end TypeDiagram.Source
