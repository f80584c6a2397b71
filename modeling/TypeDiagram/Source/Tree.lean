import TypeDiagram.Source.Reader

/-!
The tree of a source text. Every leaf keeps its text and the blanks in front of it, so the leaves
in order spell out the source, and the text of a node is a slice of the source.
-/

namespace TypeDiagram.Source

inductive Label where
  | category (c : Category)
  | terminal (t : Terminal)
  /-- A node that goes under another name than its own. -/
  | renamed (a : Alias)
  /-- Text that fits nowhere. -/
  | error
  /-- A terminal that the text lacks. -/
  | missing
  /-- What groups other nodes. -/
  | group
deriving DecidableEq, Repr

namespace Label

/-- Named nodes tell what the text means; all others only hold it together. -/
def isNamed : Label → Bool
  | category c => !c.isHidden
  | terminal t => t.isNamed
  | renamed a => a.isNamed
  | error => true
  | missing | group => false

def isFault : Label → Bool
  | error | missing => true
  | _ => false

end Label

structure Leaf where
  label : Label
  /-- The blanks between the previous leaf and this one. -/
  leading : List Char
  text : List Char
  /-- The line on which the text begins, counted from one. -/
  line : Nat
deriving DecidableEq, Repr

inductive Node where
  | leaf (role? : Option Role) (l : Leaf)
  | branch (role? : Option Role) (label : Label) (children : List Node)
deriving Repr

namespace Node

mutual
def leaves : Node → List Leaf
  | .leaf _ l => [l]
  | .branch _ _ children => leavesOf children
def leavesOf : List Node → List Leaf
  | [] => []
  | n :: ns => n.leaves ++ leavesOf ns
end

def spelling : List Leaf → List Char
  | [] => []
  | l :: ls => l.text ++ ls.flatMap fun m => m.leading ++ m.text

def text (n : Node) : String := String.ofList (spelling n.leaves)

def label : Node → Label
  | .leaf _ l => l.label
  | .branch _ label _ => label

def role? : Node → Option Role
  | .leaf role? _ => role?
  | .branch role? _ _ => role?

def children : Node → List Node
  | .leaf _ _ => []
  | .branch _ _ children => children

def namedChildren (n : Node) : List Node := n.children.filter fun c => c.label.isNamed

def child? (role : Role) (n : Node) : Option Node :=
  n.children.find? fun c => c.role? == some role

def line (n : Node) : Nat := (n.leaves.head?.map Leaf.line).getD 1

mutual
def isSound : Node → Bool
  | .leaf _ l => !l.label.isFault
  | .branch _ label children => !label.isFault && areSound children
def areSound : List Node → Bool
  | [] => true
  | n :: ns => n.isSound && areSound ns
end

end Node

namespace Subtree

def label (shownAs? : Option Alias) (f : Facts) : Label :=
  match shownAs?, f.origin with
  | some a, _ => .renamed a
  | none, .symbol (.terminal t) => if f.isMissing then .missing else .terminal (.ofCode t)
  | none, .symbol (.group g) => ((Category.ofCode? g).map Label.category).getD .group
  | none, .error => .error
  | none, .errorRun => .group

def isSpliced (shownAs? : Option Alias) (f : Facts) : Bool :=
  shownAs?.isNone && !f.origin.isVisible

mutual
/-- Cuts the text of a tree off the front of a text that begins on the given line. The result are
the nodes that the tree shows, and the text behind them with its line. -/
def cut (role? : Option Role) (shownAs? : Option Alias) (line : Nat) (text : List Char) :
    Subtree → List Node × Nat × List Char
  | .node f [] =>
    let leading := text.take f.padding.chars
    let rest := text.drop f.padding.chars
    let own := rest.take f.size.chars
    let start := line + leading.count '\n'
    ([.leaf role? ⟨if f.isMissing then .missing else label shownAs? f, leading, own, start⟩],
      start + own.count '\n', rest.drop f.size.chars)
  | .node f (c :: cs) =>
    if isSpliced shownAs? f then cutAll f.form role? 0 line text (c :: cs)
    else
      let (nodes, after) := cutAll f.form none 0 line text (c :: cs)
      ([.branch role? (label shownAs? f) nodes], after)
/-- Cuts the text of some trees off the front of a text, one behind the other. The form says how
they are named; one without a role takes over the given one. -/
def cutAll (form : Form) (inherited? : Option Role) (place line : Nat) (text : List Char) :
    List Subtree → List Node × Nat × List Char
  | [] => ([], line, text)
  | c :: cs =>
    let isExtra := c.facts.isExtra
    let role? := if isExtra then none else form.role? place <|> inherited?
    let shownAs? := if isExtra then none else form.shownAs? place
    let (nodes, line, rest) := cut role? shownAs? line text c
    let (more, after) :=
      cutAll form inherited? (if isExtra then place else place + 1) line rest cs
    (nodes ++ more, after)
end

end Subtree

def topLevel (source : String) : List Node :=
  match Reader.read? source.toList with
  | some t => ((Subtree.cut none none 1 source.toList t).1.flatMap Node.children)
  | none => []

end TypeDiagram.Source
