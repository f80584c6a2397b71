import TypeDiagram.Source.Production

/-!
Items: productions that have been read up to some place. Items that differ only in what has been
read, and not in what may follow or in the node that results, are one item. Items are numbered,
and tables tell how a text may go on from each.
-/

namespace TypeDiagram.Source

structure Form where
  shownAs : List (Option Alias)
  roles : List (Option Role)
deriving DecidableEq, Repr

namespace Form

def plain : Form := ⟨[], []⟩

def shownAs? (f : Form) (i : Nat) : Option Alias := (f.shownAs[i]?).join

def role? (f : Form) (i : Nat) : Option Role := (f.roles[i]?).join

end Form

structure Item where
  group : Nat
  /-- How many steps the production has. -/
  length : Nat
  /-- How many of its steps have been read. -/
  dot : Nat
  weight : Int
  /-- What the step in front of the place says about ambiguity. -/
  precedence : Precedence
  side : Option Side
  /-- The symbol that comes next, if the production is not at its end. -/
  next? : Option Symbol
  /-- The symbol behind the next one. -/
  following? : Option Symbol
  /-- The item behind the next symbol. -/
  after : Nat
  form : Form
  /-- Does the production leave its parts without names and roles? -/
  isPlain : Bool
deriving Repr

namespace Item

def isDone (i : Item) : Bool := i.next?.isNone

end Item

/-- What tells one item from another. -/
structure ItemKey where
  group : Nat
  length : Nat
  weight : Int
  precedence : Precedence
  side : Option Side
  before : List (Option Alias × Option Role × Option Symbol)
  rest : List Step
deriving DecidableEq, Hashable

/-- From a group one gets to the first steps of another: with the given terminals behind it, and
with those behind the first group too if `inherits`. -/
structure Reach where
  group : Nat
  behind : TokenSet
  inherits : Bool

structure Tables where
  items : Array Item
  /-- The items in front of the productions of each group. -/
  openings : Array (List Nat)
  /-- The terminals that a group may begin with. -/
  first : Array TokenSet
  /-- The terminals that are the first steps of a group's productions. -/
  starts : Array TokenSet
  /-- For each group, the groups that may begin where it begins. -/
  reach : Array (List Reach)
  /-- For each terminal, the groups with a production that begins with it, and the item behind. -/
  terminalOpeners : Array (List (Nat × Nat))
  /-- For each group, the groups with a production that begins with it, and the item behind. -/
  groupOpeners : Array (List (Nat × Nat))
  /-- The productions without steps: their groups and their items. -/
  empty : List (Nat × Nat)
  /-- The groups that go under another name somewhere. -/
  renamed : List Nat

namespace Tables

open Production

def saturate {α : Type} (step : α → α × Bool) : (fuel : Nat) → α → α
  | 0, a => a
  | fuel + 1, a =>
    let (b, changed) := step a
    if changed then saturate step fuel b else b

def roleGroups (productions : List Production) : Array Bool :=
  let hasRole (known : Array Bool) (s : Step) : Bool :=
    s.role.isSome || match s.symbol with
      | .group g => !isVisible g && (known[g]?).getD false
      | .terminal _ => false
  let round (known : Array Bool) : Array Bool × Bool :=
    productions.foldl
      (fun (known, changed) p =>
        if !(known[p.group]?).getD true && p.steps.any (hasRole known) then
          (known.setIfInBounds p.group true, true)
        else (known, changed))
      (known, false)
  saturate round groupCount (Array.replicate groupCount false)

def firstSets (productions : List Production) : Array TokenSet :=
  let heads := (productions.filterMap fun p => p.steps.head?.map fun s => (p.group, s.symbol))
  let pairs := (Std.HashSet.ofList heads).toList
  let round (first : Array TokenSet) : Array TokenSet × Bool :=
    pairs.foldl
      (fun (first, changed) (g, s) =>
        let old := (first[g]?).getD 0
        let new := old ||| match s with
          | .terminal t => .single t
          | .group h => (first[h]?).getD 0
        if new == old then (first, changed) else (first.setIfInBounds g new, true))
      (first, false)
  saturate round groupCount (Array.replicate groupCount 0)

def inheritsRoles (roleGroups : Array Bool) : Symbol → Bool
  | .group g => !isVisible g && (roleGroups[g]?).getD false
  | .terminal _ => false

/-- The key of a production that has been read up to the step with the number `dot`. -/
def keyOf (roleGroups : Array Bool) (p : Production) (dot : Nat) : ItemKey :=
  let before := p.steps.take dot
  let inherits := before.any fun s => inheritsRoles roleGroups s.symbol
  let last := before.getLast?
  { group := p.group
    length := p.steps.length
    weight := p.weight
    precedence := (last.map Step.precedence).getD .unranked
    side := last.bind Step.side
    before := before.map fun s => (s.shownAs, s.role, if inherits then some s.symbol else none)
    rest := p.steps.drop dot }

/-- The item of a production that has been read up to the step with the number `dot`. -/
def itemOf (roleGroups : Array Bool) (p : Production) (dot after : Nat) : Item :=
  let key := keyOf roleGroups p dot
  { group := p.group
    length := p.steps.length
    dot
    weight := p.weight
    precedence := key.precedence
    side := key.side
    next? := key.rest.head?.map Step.symbol
    following? := (key.rest.drop 1).head?.map Step.symbol
    after
    form := ⟨p.steps.map Step.shownAs, p.steps.map Step.role⟩
    isPlain := p.steps.all fun s =>
      s.shownAs.isNone && s.role.isNone && !inheritsRoles roleGroups s.symbol }

/-- Items by number, the numbers of their keys, and the items in front of productions. -/
structure Numbering where
  items : Array Item
  codes : Std.HashMap ItemKey Nat
  openings : Array (List Nat)

/-- Numbers the items of a production that have `dot` or more steps in front, last ones first; the
result is the number of the first one. -/
def Numbering.addFrom (roleGroups : Array Bool) (p : Production) :
    (dot : Nat) → (after : Nat) → Numbering → Nat × Numbering
  | dot, after, n =>
    let key := keyOf roleGroups p dot
    let (code, n) := match n.codes[key]? with
      | some code => (code, n)
      | none =>
        let code := n.items.size
        (code,
          { n with
            items := n.items.push (itemOf roleGroups p dot after)
            codes := n.codes.insert key code })
    match dot with
    | 0 => (code, n)
    | dot + 1 => addFrom roleGroups p dot code n

def Numbering.add (roleGroups : Array Bool) (n : Numbering) (p : Production) : Numbering :=
  let (code, n) := n.addFrom roleGroups p p.steps.length 0
  let known := (n.openings[p.group]?).getD []
  if known.contains code then n
  else { n with openings := n.openings.modify p.group (code :: ·) }

def Numbering.ofProductions (roleGroups : Array Bool) (ps : List Production) : Numbering :=
  ps.foldl (Numbering.add roleGroups) ⟨#[], {}, Array.replicate groupCount []⟩

def firstOf (first : Array TokenSet) : Symbol → TokenSet
  | .terminal t => .single t
  | .group g => (first[g]?).getD 0

def stepsInto (items : Array Item) (first : Array TokenSet) (openings : List Nat) : List Reach :=
  let found := openings.filterMap fun code => do
    let item ← items[code]?
    match item.next? with
    | some (.group g) =>
      match item.following? with
      | some s => some (g, firstOf first s, false)
      | none => some (g, 0, true)
    | _ => none
  (Std.HashSet.ofList found).toList.map fun (g, behind, inherits) => ⟨g, behind, inherits⟩

/-- Follows the steps that are still open: what is known of each group grows until no step adds to
it. -/
def follow (into : Array (List Reach)) :
    (fuel : Nat) → List Reach → Std.HashMap Nat (TokenSet × Bool) →
      Std.HashMap Nat (TokenSet × Bool)
  | 0, _, known => known
  | _, [], known => known
  | fuel + 1, r :: pending, known =>
    let old := known[r.group]?
    let (behind, inherits) := old.getD (0, false)
    let new := (behind ||| r.behind, inherits || r.inherits)
    if old == some new then follow into fuel pending known
    else
      let more := ((into[r.group]?).getD []).map fun s : Reach =>
        if s.inherits then ⟨s.group, new.1, new.2⟩ else s
      follow into fuel (more ++ pending) (known.insert r.group new)

def reachOf (into : Array (List Reach)) (g : Nat) : List Reach :=
  (follow into 1000000 [⟨g, 0, true⟩] {}).toList.map fun (g, behind, inherits) =>
    ⟨g, behind, inherits⟩

def openers (items : Array Item) (openings : Array (List Nat)) :
    Array (List (Nat × Nat)) × Array (List (Nat × Nat)) :=
  (openings.toList.zipIdx.flatMap fun (codes, g) => codes.map fun code => (g, code)).foldl
    (fun (terminals, groups) (g, code) =>
      match items[code]? with
      | none => (terminals, groups)
      | some item => match item.next? with
        | some (.terminal t) => (terminals.modify t ((g, item.after) :: ·), groups)
        | some (.group h) => (terminals, groups.modify h ((g, item.after) :: ·))
        | none => (terminals, groups))
    (Array.replicate Terminal.count [], Array.replicate groupCount [])

def ofProductions (ps : List Production) : Tables :=
  let roles := roleGroups ps
  let first := firstSets ps
  let numbering := Numbering.ofProductions roles ps
  let items := numbering.items
  let openings := numbering.openings
  let into := openings.map (stepsInto items first)
  let (terminalOpeners, groupOpeners) := openers items openings
  let starts := openings.map fun codes => codes.foldl
    (fun set code => match (items[code]?).bind Item.next? with
      | some (.terminal t) => set ||| .single t
      | _ => set)
    0
  { items, openings, first, starts
    reach := ((List.range groupCount).map (reachOf into)).toArray
    terminalOpeners, groupOpeners
    empty := openings.toList.zipIdx.flatMap fun (codes, g) => codes.filterMap fun code =>
      if ((items[code]?).map Item.isDone).getD false then some (g, code) else none
    renamed := (ps.flatMap fun p => p.steps.filterMap fun s => match s.symbol, s.shownAs with
      | .group g, some _ => some g
      | _, _ => none).eraseDups }

end Tables

def tables : Tables := Tables.ofProductions Production.all

end TypeDiagram.Source
