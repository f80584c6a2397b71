import TypeDiagram.Source.Subtree

/-!
A stack with several heads. Readings of a text that differ for a while share what they have in
common: a layer of the stack may lie on several others, and several heads may end in one layer.
-/

namespace TypeDiagram.Source

/-- What a layer of the stack lies on: a lower layer, and the tree between the two; no tree where
reading stopped because nothing fitted. -/
structure Link where
  layer : Nat
  tree? : Option Subtree

/-- A layer of the stack: a state of the automaton and what has been read up to it. -/
structure Layer where
  state : Nat
  place : Place
  links : List Link
  /-- What is wrong with the trees below. -/
  cost : Nat
  /-- How many nodes the trees below show. -/
  shown : Nat
  weight : Int

inductive HeadStatus where
  | active
  /-- Nothing fits what comes next. -/
  | paused
  | halted
deriving DecidableEq, Repr

structure Resort where
  before : Extent
  /-- How many trees lie above it. -/
  depth : Nat
  state : Nat

structure Head where
  layer : Nat
  status : HeadStatus
  /-- The nodes that were shown when nothing fitted last. -/
  shownAtError : Nat
  resorts : Option (List Resort)
  /-- The tree that did not fit. -/
  ahead? : Option Subtree

structure Stack where
  layers : Array Layer
  heads : Array Head

namespace Stack

def start (text : List Char) : Stack :=
  ⟨#[⟨Automaton.initial, .start text, [], 0, 0, 0⟩], #[⟨0, .active, 0, none, none⟩]⟩

def emptyLayer : Layer := ⟨Automaton.skipping, .start [], [], 0, 0, 0⟩

def layer (s : Stack) (n : Nat) : Layer := (s.layers[n]?).getD emptyLayer

def emptyHead : Head := ⟨0, .halted, 0, none, none⟩

def head (s : Stack) (v : Nat) : Head := (s.heads[v]?).getD emptyHead

def top (s : Stack) (v : Nat) : Layer := s.layer (s.head v).layer

def modifyHead (s : Stack) (v : Nat) (f : Head → Head) : Stack :=
  { s with heads := s.heads.modify v f }

def halt (s : Stack) (v : Nat) : Stack := s.modifyHead v ({ · with status := .halted })

def removeHead (s : Stack) (v : Nat) : Stack := { s with heads := s.heads.eraseIdxIfInBounds v }

def layerOn (s : Stack) (below : Nat) (tree? : Option Subtree) (state : Nat) : Layer :=
  let b := s.layer below
  let link : Link := ⟨below, tree?⟩
  match tree? with
  | none => { b with state, links := [link] }
  | some t =>
    { state
      place := b.place.advance t.extent
      links := [link]
      cost := b.cost + t.cost
      shown := b.shown + t.shownCount
      weight := b.weight + t.facts.weight }

/-- Puts a tree, or a mark that nothing fitted, on top of a head. What did not fit before does not
matter there. -/
def push (s : Stack) (v : Nat) (tree? : Option Subtree) (state : Nat) : Stack :=
  let layer := s.layerOn (s.head v).layer tree? state
  let n := s.layers.size
  let s := { s with layers := s.layers.push layer }
  s.modifyHead v fun h =>
    { h with
      layer := n
      shownAtError := if tree?.isNone then layer.shown else h.shownAtError
      ahead? := none }

/-- Adds a head that ends in a layer, as a variant of another head; it is the last one. -/
def addHead (s : Stack) (variantOf layer : Nat) : Stack :=
  { s with heads := s.heads.push ⟨layer, .active, (s.head variantOf).shownAtError, none, none⟩ }

/-- Adds a copy of a head; it is the last one. -/
def copyHead (s : Stack) (v : Nat) : Stack :=
  { s with heads := s.heads.push { s.head v with resorts := none } }

def replaceHead (s : Stack) (new old : Nat) : Stack :=
  if new == old then s
  else
    let h := s.head new
    let resorts := h.resorts <|> (s.head old).resorts
    (s.modifyHead old fun _ => { h with resorts }).removeHead new

def swapHeads (s : Stack) (a b : Nat) : Stack :=
  let x := s.head a
  let y := s.head b
  (s.modifyHead a fun _ => y).modifyHead b fun _ => x

def areAlike : Option Subtree → Option Subtree → Bool
  | none, none => true
  | some a, some b => a.isAlike b
  | _, _ => false

def weightOf (tree? : Option Subtree) : Int := (tree?.map fun t => t.facts.weight).getD 0

/-- The first link of a list that is a reading of the same text as the new one, from the same layer
or from one that can be joined with the new one's; the result tells which, and its place. -/
def rival? (s : Stack) (new : Link) (links : List Link) : Option (Nat × Link) :=
  links.zipIdx.findSome? fun (old, i) =>
    if areAlike old.tree? new.tree? then
      let a := s.layer old.layer
      let b := s.layer new.layer
      if old.layer == new.layer || (a.state == b.state && a.cost == b.cost &&
          a.place.before.octets == b.place.before.octets) then some (i, old)
      else none
    else none

/-- Lets a layer lie on another one as well. A reading that is alike is joined with the new one: the
heavier one is kept, and layers that are alike are joined in depth, at most `fuel` times. -/
def addLink : (fuel : Nat) → (s : Stack) → (layer : Nat) → Link → Stack
  | 0, s, _, _ => s
  | fuel + 1, s, n, new =>
    let modifyLayer (s : Stack) (f : Layer → Layer) : Stack :=
      { s with layers := s.layers.modify n f }
    if new.layer == n then s
    else match s.rival? new (s.layer n).links with
      | some (i, old) =>
        let weight := (s.layer new.layer).weight + weightOf new.tree?
        if old.layer == new.layer then
          if new.tree?.isSome && weightOf old.tree? < weightOf new.tree? then
            modifyLayer s fun l => { l with links := l.links.set i new, weight }
          else s
        else
          let s := (s.layer new.layer).links.foldl (fun s link => addLink fuel s old.layer link) s
          modifyLayer s fun l => { l with weight := max l.weight weight }
      | none =>
        if 8 ≤ (s.layer n).links.length then s
        else
          let b := s.layer new.layer
          let shown := b.shown + (new.tree?.map Subtree.shownCount).getD 0
          let weight := b.weight + weightOf new.tree?
          modifyLayer s fun l =>
            { l with
              links := l.links ++ [new]
              shown := max l.shown shown
              weight := max l.weight weight }

def canMerge (s : Stack) (a b : Nat) : Bool :=
  let x := s.top a
  let y := s.top b
  (s.head a).status == .active && (s.head b).status == .active && x.state == y.state &&
    x.place.before.octets == y.place.before.octets && x.cost == y.cost

def merge? (s : Stack) (a b : Nat) : Option Stack :=
  if s.canMerge a b then
    let n := (s.head a).layer
    let s := (s.top b).links.foldl (fun s link => addLink s.layers.size s n link) s
    let s := if (s.layer n).state == Automaton.skipping
      then s.modifyHead a ({ · with shownAtError := (s.layer n).shown }) else s
    some (s.removeHead b)
  else none

def mergeInto? (s : Stack) (v : Nat) : List Nat → Option Stack
  | [] => none
  | w :: ws => match s.merge? w v with
    | some s => some s
    | none => s.mergeInto? v ws

/-- A way down the stack: the layer that it has reached, the trees passed in the order of the text,
and how many of them are no extras. -/
structure Path where
  layer : Nat
  trees : List Subtree
  count : Nat

namespace Path

def down (p : Path) (l : Link) : Path :=
  match l.tree? with
  | some t => ⟨l.layer, t :: p.trees, if t.facts.isExtra then p.count else p.count + 1⟩
  | none => ⟨l.layer, p.trees, p.count + 1⟩

end Path

structure Verdict where
  /-- Is the way one of those that were looked for? -/
  take : Bool
  /-- Does the way end here? -/
  stop : Bool

structure Walk (σ : Type) where
  memory : σ
  /-- The ways that go on, last one first. -/
  pending : List Path
  /-- Further ways, which begin where the stack divides, last one first. -/
  branches : List Path
  /-- The ways that were looked for, last one first. -/
  taken : List Path

/-- Takes each of some ways one layer down; at most 64 ways are followed at a time. -/
def walkRound {σ : Type} (s : Stack) (visit : σ → Path → σ × Verdict) :
    List Path → Walk σ → Walk σ
  | [], w => w
  | p :: ps, w =>
    let (memory, verdict) := visit w.memory p
    let taken := if verdict.take then p :: w.taken else w.taken
    match (s.layer p.layer).links with
    | [] => walkRound s visit ps { w with memory, taken }
    | first :: others =>
      if verdict.stop then walkRound s visit ps { w with memory, taken }
      else
        let room := 64 - (w.pending.length + 1 + ps.length + w.branches.length)
        let branches := ((others.take room).map p.down).reverse ++ w.branches
        walkRound s visit ps ⟨memory, p.down first :: w.pending, branches, taken⟩

def walkUpTo {σ : Type} (s : Stack) (visit : σ → Path → σ × Verdict) :
    (fuel : Nat) → List Path → σ → List Path → σ × List Path
  | 0, _, memory, taken => (memory, taken.reverse)
  | _, [], memory, taken => (memory, taken.reverse)
  | fuel + 1, ps, memory, taken =>
    let w := walkRound s visit ps ⟨memory, [], [], taken⟩
    walkUpTo s visit fuel (w.pending.reverse ++ w.branches.reverse) w.memory w.taken

/-- Walks down from a head; the result are the ways that were looked for, in the order in which
they were found. -/
def walk {σ : Type} (s : Stack) (v : Nat) (memory : σ) (visit : σ → Path → σ × Verdict) :
    σ × List Path :=
  s.walkUpTo visit (s.layers.size + 1) [⟨(s.head v).layer, [], 0⟩] memory []

/-- The readings of what lies above a layer, with the head that ends in that layer. -/
structure Slice where
  head : Nat
  /-- The trees of each reading. -/
  readings : List (List Subtree)

/-- Adds a head for each layer that some ways have reached, and groups the ways by these heads. -/
def slices (s : Stack) (v : Nat) (paths : List Path) : Stack × List Slice :=
  let (s, slices) := paths.foldl
    (fun (s, slices) p =>
      match slices.findIdx? fun slice : Slice => (s.head slice.head).layer == p.layer with
      | some i => (s, slices.modify i fun slice : Slice =>
          { slice with readings := slice.readings ++ [p.trees] })
      | none => (s.addHead v p.layer, slices ++ [⟨s.heads.size, [p.trees]⟩]))
    (s, ([] : List Slice))
  (s, slices)

def pop (s : Stack) (v count : Nat) : Stack × List Slice :=
  let (_, paths) := s.walk v () fun _ p => ((), ⟨p.count == count, p.count == count⟩)
  s.slices v paths

def popAll (s : Stack) (v : Nat) : Stack × List Slice :=
  let (_, paths) := s.walk v () fun _ p => ((), ⟨(s.layer p.layer).links.isEmpty, false⟩)
  s.slices v paths

def popError (s : Stack) (v : Nat) : Stack × List Slice :=
  let isError (t : Subtree) : Bool := t.facts.origin == .error
  if (s.top v).links.any fun l => (l.tree?.map isError).getD false then
    let (_, paths) := s.walk v false fun found p =>
      match p.trees with
      | [] => (found, ⟨false, false⟩)
      | t :: _ =>
        if !found && isError t then (true, ⟨true, true⟩) else (found, ⟨false, true⟩)
    s.slices v paths
  else (s, [])

/-- The layers from which reading could go on, down to a depth: of the layers of one depth, each
state once. -/
def resortsOf (s : Stack) (v maxDepth : Nat) : List Resort :=
  let (found, _) := s.walk v ([] : List Resort) fun found p =>
    let l := s.layer p.layer
    if maxDepth < p.count then (found, ⟨false, true⟩)
    else if (found.takeWhile fun r => p.count ≤ r.depth).any fun r =>
        r.depth == p.count && r.state == l.state then
      (found, ⟨false, false⟩)
    else (⟨l.place.before, p.count, l.state⟩ :: found, ⟨false, false⟩)
  found.reverse

end Stack

end TypeDiagram.Source
