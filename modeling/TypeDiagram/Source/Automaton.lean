import TypeDiagram.Source.Item

/-!
The states of a reader of the grammar, and what it may do in each. A state is a set of items, each
with the terminals that may stand behind its production. States are built when they are needed and
kept for later: a text uses few of the many states of a grammar.
-/

namespace TypeDiagram.Source

/-- The items that a state begins with, in the order of their numbers, and the terminals that may
stand behind each. -/
structure Kernel where
  entries : List (Nat × TokenSet)
deriving DecidableEq

namespace Kernel

def mixNat (h : UInt64) : (fuel : Nat) → Nat → UInt64
  | 0, _ => h
  | fuel + 1, n => if n == 0 then h else mixNat (mixHash h n.toUInt64) fuel (n >>> 64)

instance : Hashable Kernel where
  hash k := k.entries.foldl (fun h (code, set) => mixNat (mixHash h code.toUInt64) 8 set) 7

def merge : List (Nat × TokenSet) → List (Nat × TokenSet)
  | (a, s) :: (b, t) :: rest =>
    if a == b then merge ((a, s ||| t) :: rest) else (a, s) :: merge ((b, t) :: rest)
  | short => short
termination_by entries => entries.length

def ofList (entries : List (Nat × TokenSet)) : Kernel :=
  ⟨merge (entries.mergeSort fun x y => x.1 ≤ y.1)⟩

end Kernel

structure State where
  kernel : Kernel
  /-- For each group, the terminals that may stand behind it if it begins here; none if it cannot
  begin here. -/
  behind : Array TokenSet
  /-- The productions that may end here, and the terminals that may stand behind each. -/
  done : List (Nat × TokenSet)
  /-- The terminals with which the text may go on. -/
  expected : TokenSet

inductive Action where
  /-- Read the terminal; `repeats` if this only begins another run of a repetition. -/
  | shift (state : Nat) (repeats : Bool)
  /-- Read the terminal and stay. -/
  | skip
  /-- Make a node of the production of an item. -/
  | reduce (item : Nat)
  | accept
  | recover
deriving DecidableEq, Repr

structure Automaton where
  states : Array State
  codes : Std.HashMap Kernel Nat
  knownMoves : Std.HashMap (Nat × Symbol) Nat
  knownActions : Std.HashMap (Nat × Nat) (List Action)

namespace Automaton

/-- The terminals that may stand anywhere. -/
def extras : TokenSet := .ofList [.comment, .htmlComment]

/-- The terminals that are looked for while text is skipped: all but those that would swallow text
which others begin. -/
def landmarks : TokenSet :=
  let none : List Terminal :=
    ["/=", "?:", .doubleText, .singleText, .regexBody, .regexFlags]
  .ofList (Terminal.all.toList.filter fun t => !none.contains t)

/-- The number of the state in which text is skipped. -/
def skipping : Nat := 0

def initial : Nat := 1

def skippingState : State := ⟨⟨[]⟩, #[], [], landmarks⟩

def item? (code : Nat) : Option Item := tables.items[code]?

def behindOf (k : Kernel) : Array TokenSet :=
  k.entries.foldl
    (fun behind (code, set) => match item? code with
      | some i => match i.next? with
        | some (.group g) =>
          let follow := match i.following? with
            | some s => Tables.firstOf tables.first s
            | none => set
          ((tables.reach[g]?).getD []).foldl
            (fun behind r => behind.modify r.group fun old =>
              old ||| r.behind ||| (if r.inherits then follow else 0))
            behind
        | _ => behind
      | none => behind)
    (Array.replicate Production.groupCount 0)

def endsBefore (a b : Nat × TokenSet) : Bool :=
  match item? a.1, item? b.1 with
  | some i, some j =>
    i.length < j.length || (i.length == j.length && (i.group < j.group ||
      (i.group == j.group && i.weight ≤ j.weight)))
  | _, _ => true

def stateOf (k : Kernel) : State :=
  let behind := behindOf k
  let ended := k.entries.filter fun (code, _) => ((item? code).map Item.isDone).getD false
  let empty := tables.empty.filterMap fun (g, code) =>
    let set := (behind[g]?).getD 0
    if set == 0 then none else some (code, set)
  let done := (ended ++ empty).mergeSort endsBefore
  let read := k.entries.foldl
    (fun set (code, _) => match (item? code).bind Item.next? with
      | some (.terminal t) => set ||| .single t
      | _ => set)
    extras
  let begun := (List.range behind.size).foldl
    (fun set g =>
      if (behind[g]?).getD 0 == 0 then set else set ||| (tables.starts[g]?).getD 0)
    read
  ⟨k, behind, done, done.foldl (fun set (_, behind) => set ||| behind) begun⟩

def initialKernel : Kernel :=
  ⟨((tables.openings[Production.sourceCode]?).getD []).map fun code =>
    (code, .single Terminal.endOfSource.code)⟩

def start : Automaton :=
  ⟨#[skippingState, stateOf initialKernel], Std.HashMap.ofList [(initialKernel, initial)], {}, {}⟩

abbrev Run := StateM Automaton

def state (s : Nat) : Run State := do
  return ((← get).states[s]?).getD skippingState

def kernelBehind (s : State) (x : Symbol) : Kernel :=
  let read := s.kernel.entries.filterMap fun (code, set) =>
    match item? code with
    | some i => if i.next? == some x then some (i.after, set) else none
    | none => none
  let openers := match x with
    | .terminal t => (tables.terminalOpeners[t]?).getD []
    | .group g => (tables.groupOpeners[g]?).getD []
  let begun := openers.filterMap fun (g, code) =>
    let set := (s.behind[g]?).getD 0
    if set == 0 then none else some (code, set)
  .ofList (read ++ begun)

def codeOf (k : Kernel) : Run Nat := do
  let a ← get
  match a.codes[k]? with
  | some code => return code
  | none =>
    let code := a.states.size
    set { a with states := a.states.push (stateOf k), codes := a.codes.insert k code }
    return code

/-- The hidden group that a state can do nothing but make a node of, from a single part to which
the node adds nothing. -/
def relabelled? (s : State) : Option Nat := do
  let items := s.kernel.entries.filterMap fun (code, _) => item? code
  let first ← items.head?
  let isUnion := ((Category.ofCode? first.group).map Category.isUnion).getD false
  if items.all (fun i => i.isDone && i.length == 1 && i.isPlain && i.weight == 0 &&
      i.group == first.group) && !isUnion && !Production.isVisible first.group &&
      first.group != Production.sourceCode && !tables.renamed.contains first.group
  then some first.group else none

/-- The state behind a symbol, if it may stand there. States that only relabel what they are
reached with are passed through, at most `fuel` of them. -/
def moveUpTo : (fuel : Nat) → (s : Nat) → (x : Symbol) → Run (Option Nat)
  | 0, _, _ => return none
  | fuel + 1, s, x => do
    match (← get).knownMoves[(s, x)]? with
    | some target => return if target == skipping then none else some target
    | none =>
      let kernel := kernelBehind (← state s) x
      if kernel.entries.isEmpty then
        modify fun a => { a with knownMoves := a.knownMoves.insert (s, x) skipping }
        return none
      else
        let mut target ← codeOf kernel
        if let some g := relabelled? (← state target) then
          if let some further ← moveUpTo fuel s (.group g) then
            target := further
        let found := target
        modify fun a => { a with knownMoves := a.knownMoves.insert (s, x) found }
        return some found

def move (s : Nat) (x : Symbol) : Run (Option Nat) := moveUpTo 16 s x

structure Contender where
  precedence : Precedence
  groups : List Nat

/-- Does a rank name the contender? -/
def Contender.has (c : Contender) : Category.Rank → Bool
  | .level l => c.precedence == .level l
  | .category k => c.groups.contains k.code

def orderIn (a b : Contender) (seenA seenB : Bool) : List Category.Rank → Option Ordering
  | [] => none
  | r :: rest =>
    if a.has r then if seenB then some .lt else orderIn a b true seenB rest
    else if b.has r then if seenA then some .gt else orderIn a b seenA true rest
    else orderIn a b seenA seenB rest

/-- Which of two contenders is the stronger one. Numbers count if one is not zero, and else the
first list of ranks that names both. -/
def Contender.compare (a b : Contender) : Ordering :=
  let byRank := (Category.rankings.findSome? (orderIn a b false false)).getD .eq
  match a.precedence, b.precedence with
  | .number m, .number n => if m != 0 || n != 0 then Ord.compare m n else byRank
  | .number m, .unranked => if m != 0 then Ord.compare m 0 else byRank
  | .unranked, .number n => if n != 0 then Ord.compare 0 n else byRank
  | _, _ => byRank

/-- The productions that end at a terminal, as far as no stronger one does, and what they say. -/
structure Endings where
  items : List Nat
  contender : Contender
  toLeft : Bool
  toRight : Bool
  toNeither : Bool

def Endings.add (e : Endings) (code : Nat) (i : Item) : Endings :=
  let mark (e : Endings) : Endings :=
    let groups := e.contender.groups
    { e with
      contender := ⟨i.precedence,
        if groups.contains i.group then groups else groups ++ [i.group]⟩
      toLeft := e.toLeft || i.side == some .left
      toRight := e.toRight || i.side == some .right
      toNeither := e.toNeither || i.side.isNone }
  if e.items.isEmpty then mark { e with items := [code] }
  else match Contender.compare ⟨i.precedence, [i.group]⟩ e.contender with
    | .gt => mark ⟨[code], ⟨.unranked, []⟩, false, false, false⟩
    | .eq => mark { e with items := e.items ++ [code] }
    | .lt => e

def endings (s : State) (t : Nat) : Endings :=
  s.done.foldl
    (fun e (code, set) =>
      if set.has t then match item? code with
        | some i => e.add code i
        | none => e
      else e)
    ⟨[], ⟨.unranked, []⟩, false, false, false⟩

def ongoing (s : State) (t : Nat) : List Item :=
  s.kernel.entries.filterMap fun (code, _) => do
    let i ← item? code
    let x ← i.next?
    if i.dot != 0 && (Tables.firstOf tables.first x).has t then some i else none

/-- What to do where productions end and another one may go on by reading a terminal. -/
def settle (s : State) (t target : Nat) (e : Endings) : List Action :=
  let reductions := e.items.map fun code =>
    if ((item? code).map Item.group) == some Production.sourceCode then .accept else .reduce code
  let reading := ongoing s t
  let groups := (reading.map Item.group ++ (s.done.filter fun (_, set) => set.has t).filterMap
    fun (code, _) => (item? code).map Item.group).filter (· != Production.sourceCode)
  let orders := reading.map fun i => Contender.compare ⟨i.precedence, [i.group]⟩ e.contender
  let stronger := orders.contains .gt
  let weaker := orders.contains .lt
  if reductions.isEmpty then [.shift target false]
  else if groups.eraseDups.length == 1 && groups.all Production.isRepetition then
    reductions ++ [.shift target true]
  else if stronger && !weaker then [.shift target false]
  else if weaker && !stronger then reductions
  else if stronger then reductions ++ [.shift target false]
  else if e.toLeft && !e.toRight && !e.toNeither then reductions
  else if e.toRight && !e.toLeft && !e.toNeither then [.shift target false]
  else reductions ++ [.shift target false]

/-- What may be done in a state at a terminal: productions that end first, reading last. -/
def actions (s t : Nat) : Run (List Action) := do
  match (← get).knownActions[(s, t)]? with
  | some found => return found
  | none =>
    let found ←
      if s == skipping then
        pure (if extras.has t then [.skip] else if landmarks.has t then [.recover] else [])
      else do
        let here ← state s
        let e := endings here t
        match ← move s (.terminal t) with
        | some target => pure (settle here t target e)
        | none =>
          let reductions := e.items.map fun code =>
            if ((item? code).map Item.group) == some Production.sourceCode then Action.accept
            else .reduce code
          pure (if reductions.isEmpty && extras.has t then [.skip] else reductions)
    modify fun a => { a with knownActions := a.knownActions.insert (s, t) found }
    return found

/-- The state in which the reader stands behind a symbol; the skipping one if the symbol cannot
stand there. -/
def behind (s : Nat) : Symbol → Run Nat
  | .group g => do return (← move s (.group g)).getD skipping
  | .terminal t => do
    match (← actions s t).getLast? with
    | some (.shift target _) => return target
    | some .skip => return s
    | _ => return skipping

end Automaton

end TypeDiagram.Source
