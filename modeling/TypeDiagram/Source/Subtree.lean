import TypeDiagram.Source.Automaton
import TypeDiagram.Source.Place

/-!
Trees while a text is read. A tree knows how far it reaches and what it costs: skipped text and
terminals that were added make it costly, and of several readings of a text the cheapest is kept.
-/

namespace TypeDiagram.Source

inductive Origin where
  | symbol (x : Symbol)
  /-- Parts that were skipped. -/
  | error
  /-- Parts that were skipped, with more to come. -/
  | errorRun
deriving DecidableEq, Repr

namespace Origin

def isVisible : Origin → Bool
  | symbol (.terminal t) => !(Terminal.ofCode t).isHidden
  | symbol (.group g) => Production.isVisible g
  | error => true
  | errorRun => false

def isError : Origin → Bool
  | error | errorRun => true
  | symbol _ => false

def rank : Origin → Nat
  | symbol (.terminal t) => if Terminal.ofCode t == .endOfSource then 0 else t + 1
  | symbol (.group g) => Terminal.count + 1 + g
  | error => Terminal.count + 1 + Production.groupCount
  | errorRun => Terminal.count + 2 + Production.groupCount

end Origin

structure Subtree.Facts where
  origin : Origin
  form : Form
  /-- Between the end of the previous node and the node. -/
  padding : Extent
  size : Extent
  /-- May the node stand anywhere? -/
  isExtra : Bool
  /-- Was the node added where the text lacks it? -/
  isMissing : Bool
  /-- Is the node a keyword that could be an identifier? -/
  isKeyword : Bool
  /-- The cost of the skipped parts in the node. -/
  skipCost : Nat
  weight : Int
  /-- How many children the node shows, those of hidden children included. -/
  shown : Nat
  /-- How many nodes below the node are shown. -/
  shownBelow : Nat

inductive Subtree where
  | node (facts : Subtree.Facts) (children : List Subtree)

namespace Subtree

def facts : Subtree → Facts
  | node f _ => f

def children : Subtree → List Subtree
  | node _ cs => cs

/-- The cost of stopping at a place where nothing fits. -/
def stopCost : Nat := 500

def additionCost : Nat := 110

def nodeCost : Nat := 100

def textCost (e : Extent) : Nat := e.octets + 30 * e.lines

def cost (t : Subtree) : Nat :=
  if t.facts.isMissing then additionCost + stopCost else t.facts.skipCost

def extent (t : Subtree) : Extent := t.facts.padding + t.facts.size

def isVisible (t : Subtree) : Bool := t.facts.origin.isVisible

def shownCount (t : Subtree) : Nat :=
  t.facts.shownBelow + (if t.isVisible then 1 else 0) +
    (if t.facts.origin == .errorRun then 1 else 0)

def leaf (origin : Origin) (padding size : Extent) : Subtree :=
  node ⟨origin, .plain, padding, size, false, false, false, 0, 0, 0, 0⟩ []

def missing (terminal : Nat) : Subtree :=
  node ⟨.symbol (.terminal terminal), .plain, .none, .none, false, true, false, 0, 0, 0, 0⟩ []

def asExtra : Subtree → Subtree
  | node f cs => node { f with isExtra := true } cs

def addWeight (w : Int) : Subtree → Subtree
  | node f cs => node { f with weight := f.weight + w } cs

/-- Adds what is known of a child to what is known of its parent; `place` is the place of the child
among the children that are no extras, and `isFirst` tells whether it is the first of all. -/
def Facts.addChild (f : Facts) (isFirst : Bool) (place : Nat) (c : Subtree) : Facts :=
  let d := c.facts
  let skipped :=
    if f.origin.isError && !d.isExtra && !(d.origin == .error && c.children.isEmpty) then
      if c.isVisible then nodeCost
      else if c.children.isEmpty then 0 else nodeCost * d.shown
    else 0
  let isShown := c.isVisible || (!d.isExtra && (f.form.shownAs? place).isSome)
  let below := if c.children.isEmpty then 0 else d.shown
  { f with
    padding := if isFirst then d.padding else f.padding
    size := if isFirst then d.size else f.size + c.extent
    skipCost := f.skipCost + (if d.origin == .errorRun then 0 else c.cost) + skipped
    weight := f.weight + d.weight
    shown := f.shown + if isShown then 1 else below
    shownBelow := f.shownBelow + d.shownBelow + if isShown then 1 else 0 }

def Facts.addChildren (f : Facts) (isFirst : Bool) (place : Nat) : List Subtree → Facts
  | [] => f
  | c :: cs =>
    (f.addChild isFirst place c).addChildren false (if c.facts.isExtra then place else place + 1) cs

def make (origin : Origin) (form : Form) (children : List Subtree) : Subtree :=
  let bare : Facts := ⟨origin, form, .none, .none, false, false, false, 0, 0, 0, 0⟩
  let f := bare.addChildren true 0 children
  let skipped := if origin.isError then stopCost + textCost f.size else 0
  node { f with skipCost := f.skipCost + skipped } children

mutual
def order : Subtree → Subtree → Ordering
  | node f cs, node g ds =>
    (compare f.origin.rank g.origin.rank).then
      ((compare cs.length ds.length).then (orderAll cs ds))
def orderAll : List Subtree → List Subtree → Ordering
  | c :: cs, d :: ds => (order c d).then (orderAll cs ds)
  | _, _ => .eq
end

def prefers (kept candidate : Subtree) : Bool :=
  if candidate.cost != kept.cost then candidate.cost < kept.cost
  else if candidate.facts.weight != kept.facts.weight then
    kept.facts.weight < candidate.facts.weight
  else kept.cost != 0 || order kept candidate == .gt

def isAlike (a b : Subtree) : Bool :=
  a.facts.origin == b.facts.origin &&
    ((a.cost != 0 && b.cost != 0) ||
      (a.facts.padding.octets == b.facts.padding.octets &&
        a.facts.size.octets == b.facts.size.octets &&
        a.children.length == b.children.length && a.facts.isExtra == b.facts.isExtra))

def splitExtras (ts : List Subtree) : List Subtree × List Subtree :=
  let kept := (ts.reverse.dropWhile fun t => t.facts.isExtra).length
  (ts.take kept, ts.drop kept)

end Subtree

end TypeDiagram.Source
