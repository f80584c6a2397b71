import TypeDiagram.Source.Scanner
import TypeDiagram.Source.Stack

/-!
Reading a text. All readings that the grammar allows are pursued side by side. Where nothing fits,
reading goes on after terminals have been added, or after parts have been skipped; what this costs
decides between readings, and those that cost too much are given up.
-/

namespace TypeDiagram.Source

structure Progress where
  stack : Stack
  /-- The best reading of the whole text. -/
  finished? : Option Subtree
  /-- How many readings of the whole text were found. -/
  accepted : Nat

abbrev Reader := StateT Progress Automaton.Run

namespace Reader

/-- How many readings are pursued. -/
def maxHeads : Nat := 6

/-- By how much a reading may cost more than another one, times the nodes that the other one has
read since its error, before it is given up. -/
def maxDifference : Nat := 2100

def getStack : Reader Stack := do return (← get).stack

def modifyStack (f : Stack → Stack) : Reader Unit :=
  modify fun p => { p with stack := f p.stack }

def onStack {α : Type} (f : Stack → Stack × α) : Reader α :=
  modifyGet fun p =>
    let (stack, a) := f p.stack
    (a, { p with stack })

def headCount : Reader Nat := do return (← get).stack.heads.size

def top (v : Nat) : Reader Layer := do return (← get).stack.top v

def statusOf (v : Nat) : Reader HeadStatus := do return ((← get).stack.head v).status

def mergeInto (v : Nat) (heads : List Nat) : Reader Bool :=
  onStack fun s => match s.mergeInto? v heads with
    | some s => (s, true)
    | none => (s, false)

def actionsAt (state : Nat) (o : Origin) : Reader (List Action) :=
  match o with
  | .symbol (.terminal t) => Automaton.actions state t
  | _ => return []

def stateBehind (state : Nat) (o : Origin) : Reader Nat :=
  match o with
  | .symbol x => Automaton.behind state x
  | _ => return Automaton.skipping

/-! ### Comparing readings -/

/-- How well a reading does. -/
structure Standing where
  cost : Nat
  /-- The nodes read since the last error. -/
  progress : Nat
  weight : Int
  inError : Bool

/-- What is known of two readings: one is better, by so much that the other one is given up if
`clear` holds. -/
inductive Preference where
  | first (clear : Bool)
  | neither
  | second (clear : Bool)
deriving DecidableEq, Repr

def Standing.compare (a b : Standing) : Preference :=
  if !a.inError && b.inError then .first (a.cost < b.cost)
  else if a.inError && !b.inError then .second (b.cost < a.cost)
  else if a.cost < b.cost then
    .first (maxDifference < (b.cost - a.cost) * (1 + a.progress))
  else if b.cost < a.cost then
    .second (maxDifference < (a.cost - b.cost) * (1 + b.progress))
  else if b.weight < a.weight then .first false
  else if a.weight < b.weight then .second false
  else .neither

def progressOf (v : Nat) : Reader Nat :=
  onStack fun s =>
    let shown := (s.top v).shown
    let s := s.modifyHead v fun h => { h with shownAtError := min h.shownAtError shown }
    let before := (s.head v).shownAtError
    (s, shown - before)

def costOf (v : Nat) : Reader Nat := do
  let s ← getStack
  let l := s.top v
  let stopped := l.state == Automaton.skipping &&
    ((l.links.head?).map fun link => link.tree?.isNone).getD false
  return if (s.head v).status == .paused || stopped then l.cost + Subtree.stopCost else l.cost

def standingOf (v : Nat) : Reader Standing := do
  let cost ← costOf v
  let progress ← progressOf v
  let s ← getStack
  let paused := (s.head v).status == .paused
  let l := s.top v
  return ⟨if paused then cost + Subtree.nodeCost else cost, progress, l.weight,
    paused || l.state == Automaton.skipping⟩

/-- Is one of the given heads, or a finished reading, so good that a reading of a head at the given
cost need not be pursued? -/
def isOutdoneBy (v cost : Nat) (mine : Standing) : List Nat → Reader Bool
  | [] => return false
  | w :: ws => do
    let s ← getStack
    if w == v || (s.head w).status != .active ||
        (s.top w).place.before.octets < (s.top v).place.before.octets then
      isOutdoneBy v cost mine ws
    else match mine.compare (← standingOf w) with
      | .second true => return true
      | .second false =>
        if s.canMerge w v then return true else isOutdoneBy v cost mine ws
      | _ => isOutdoneBy v cost mine ws

/-- Would a reading of a head at the given cost be given up? -/
def isOutdone (v cost : Nat) : Reader Bool := do
  match (← get).finished? with
  | some t => if t.cost ≤ cost then return true
  | none => pure ()
  let progress ← progressOf v
  let mine : Standing := ⟨cost, progress, (← top v).weight, false⟩
  isOutdoneBy v cost mine (List.range (← headCount))

/-! ### Making nodes -/

/-- The node of a production and the extras behind it, from the best of some readings. -/
def bestNode (i : Item) : List (List Subtree) → Option (Subtree × List Subtree)
  | [] => none
  | first :: rest =>
    let nodeOf (trees : List Subtree) : Subtree × List Subtree :=
      let (children, extras) := Subtree.splitExtras trees
      (.make (.symbol (.group i.group)) i.form children, extras)
    some (rest.foldl
      (fun best trees =>
        let candidate := nodeOf trees
        if best.1.prefers candidate.1 then candidate else best)
      (nodeOf first))

/-- Puts the node of a production on each of some heads, which are dropped if there are too many or
joined with others if they are alike. `removed` counts the heads that are gone already. -/
def reduceSlices (v : Nat) (i : Item) (halted : Nat) :
    (removed : Nat) → List Stack.Slice → Reader Unit
  | _, [] => return ()
  | removed, slice :: rest => do
    let w := slice.head - removed
    if maxHeads + 4 + halted < w then
      modifyStack (·.removeHead w)
      reduceSlices v i halted (removed + 1) rest
    else match bestNode i slice.readings with
      | none => reduceSlices v i halted removed rest
      | some (node, extras) =>
        let state ← stateBehind (← top w).state node.facts.origin
        modifyStack fun s =>
          extras.foldl (fun s e => s.push w (some e) state)
            (s.push w (some (node.addWeight i.weight)) state)
        let merged ← mergeInto w ((List.range w).filter (· != v))
        reduceSlices v i halted (if merged then removed + 1 else removed) rest

/-- Makes a node of the production of an item in each reading of a head. The head itself stays; the
result is the first of the heads that are added, if there are any. -/
def reduce (v item : Nat) : Reader (Option Nat) := do
  match Automaton.item? item with
  | none => return none
  | some i =>
    let before ← headCount
    let slices ← onStack (·.pop v i.length)
    let halted := ((← getStack).heads.filter fun h => h.status == .halted).size
    reduceSlices v i halted 0 slices
    return if before < (← headCount) then some before else none

/-- Ends a reading: the children of its only node that is no extra become those of the whole, with
the extras around. -/
def rootOf (trees : List Subtree) : Option Subtree :=
  let after := (trees.reverse.takeWhile fun t => t.facts.isExtra).reverse
  let rest := trees.take (trees.length - after.length)
  rest.getLast?.map fun t =>
    .make t.facts.origin t.facts.form (rest.dropLast ++ t.children ++ after)

/-- Takes a head as a reading of the whole text. -/
def accept (v : Nat) (ahead : Subtree) : Reader Unit := do
  modifyStack (·.push v (some ahead) Automaton.initial)
  let slices ← onStack (·.popAll v)
  for trees in slices.flatMap Stack.Slice.readings do
    modify fun p =>
      let root? := rootOf trees
      let best := match p.finished?, root? with
        | some kept, some root => if kept.prefers root then some root else some kept
        | none, root? => root?
        | kept?, none => kept?
      { p with finished? := best, accepted := p.accepted + 1 }
  match slices with
  | [] => pure ()
  | slice :: _ => modifyStack (·.removeHead slice.head)
  modifyStack (·.halt v)

/-! ### Going on where nothing fits -/

/-- The productions that may end in a state, one of each group and length, and whether something
may be read; at the given terminal, or at any. -/
def endingsAt (state : Nat) (terminals : List Nat) : Reader (List Nat × Bool) := do
  let mut items : List Nat := []
  let mut reads := false
  for t in terminals do
    for a in ← Automaton.actions state t do
      match a with
      | .shift _ repeats => if !repeats then reads := true
      | .recover => reads := true
      | .reduce item =>
        match Automaton.item? item with
        | some i =>
          let known := items.any fun other => match Automaton.item? other with
            | some j => i.group == j.group && i.length == j.length
            | none => false
          if i.length != 0 && !known then items := items ++ [item]
        | none => pure ()
      | _ => pure ()
  return (items, reads)

/-- Makes all nodes that may be made from a head, and from the heads that come of it. With a
terminal, only nodes in front of it are made, and readings in which it cannot be read in the end
are dropped. The result tells whether it can be read in one. -/
def reduceAllUpTo (start first : Nat) (terminal? : Option (Option Nat)) :
    (fuel : Nat) → (round v : Nat) → (canRead : Bool) → Reader Bool
  | 0, _, _, canRead => return canRead
  | fuel + 1, round, v, canRead => do
    let count ← headCount
    if count ≤ v then return canRead
    else if ← mergeInto v ((List.range v).drop first) then
      reduceAllUpTo start first terminal? fuel (round + 1) v canRead
    else do
      let terminals := match terminal? with
        | none => List.range Terminal.count
        | some t? => t?.toList
      let (items, reads) ← endingsAt (← top v).state terminals
      let mut last : Option Nat := none
      for item in items do
        last ← reduce v item
      let next := if v == start then count else v + 1
      if reads then reduceAllUpTo start first terminal? fuel (round + 1) next true
      else match last with
        | some new =>
          if round < maxHeads then
            modifyStack (·.replaceHead new v)
            reduceAllUpTo start first terminal? fuel (round + 1) v canRead
          else
            if terminal?.isSome then modifyStack (·.removeHead v)
            reduceAllUpTo start first terminal? fuel (round + 1) next canRead
        | none =>
          if terminal?.isSome then modifyStack (·.removeHead v)
          reduceAllUpTo start first terminal? fuel (round + 1) next canRead

/-- Makes all nodes that may be made from a head: in front of any terminal, or of a given one, which
is none for skipped text. -/
def reduceAll (v : Nat) (terminal? : Option (Option Nat)) : Reader Bool := do
  reduceAllUpTo v (← headCount) terminal? 1000 0 v false

def terminalOf? (t : Subtree) : Option Nat :=
  match t.facts.origin with
  | .symbol (.terminal n) => some n
  | _ => none

def canReduce (state : Nat) (ahead : Subtree) : Reader Bool := do
  match (← actionsAt state ahead.facts.origin).head? with
  | some (.reduce _) => return true
  | _ => return false

def addMissing (v : Nat) (ahead : Subtree) : List Nat → Reader Bool
  | [] => return false
  | t :: ts => do
    let state := (← top v).state
    let next ← Automaton.behind state (.terminal t)
    if next == Automaton.skipping || next == state then addMissing v ahead ts
    else if ← canReduce next ahead then
      let new ← headCount
      modifyStack fun s => (s.copyHead v).push new (some (.missing t)) next
      if ← reduceAll new (some (terminalOf? ahead)) then return true
      else addMissing v ahead ts
    else addMissing v ahead ts

/-- Marks on each of some heads that nothing fits; before, a missing terminal is added to the first
of them that allows it. -/
def markStopped (ahead : Subtree) : (done : Bool) → List Nat → Reader Unit
  | _, [] => return ()
  | done, v :: vs => do
    let done ← if done then pure true else addMissing v ahead (List.range Terminal.count)
    modifyStack (·.push v none Automaton.skipping)
    markStopped ahead done vs

def resumeSlices (goal : Nat) : (found : Bool) → List Stack.Slice → Reader Bool
  | found, [] => return found
  | found, slice :: rest => do
    let w := slice.head
    if (← top w).state != goal then
      modifyStack (·.halt w)
      resumeSlices goal found rest
    else
      let errors ← onStack (·.popError w)
      let earlier ← match errors with
        | [] => pure []
        | e :: _ =>
          modifyStack (·.replaceHead e.head w)
          pure (((e.readings.head?.bind List.head?).map Subtree.children).getD [])
      let trees := earlier ++ (slice.readings.head?).getD []
      let (skipped, extras) := Subtree.splitExtras trees
      modifyStack fun s =>
        let s := if skipped.isEmpty then s
          else s.push w (some (Subtree.make .error .plain skipped).asExtra) goal
        extras.foldl (fun s e => s.push w (some e) goal) s
      resumeSlices goal true rest

/-- Goes on from the first of some layers further down in which the tree ahead can be read. -/
def resume (v count cost progress : Nat) (here : Extent) (ahead : Subtree) :
    List Resort → Reader Bool
  | [] => return false
  | r :: rest => do
    let depth := if progress == 0 then r.depth else r.depth + 1
    if r.state == Automaton.skipping || r.before.octets == here.octets then
      resume v count cost progress here ahead rest
    else
      let s ← getStack
      let merges := (List.range count).any fun w =>
        (s.top w).state == r.state && (s.top w).place.before.octets == here.octets
      if merges then resume v count cost progress here ahead rest
      else
        let text : Extent :=
          ⟨here.chars - r.before.chars, here.octets - r.before.octets, here.lines - r.before.lines⟩
        let skipped := Subtree.nodeCost * r.depth + Subtree.textCost text
        if ← isOutdone v (cost + skipped) then return false
        else if (← actionsAt r.state ahead.facts.origin).isEmpty then
          resume v count cost progress here ahead rest
        else
          let slices ← onStack (·.pop v depth)
          if ← resumeSlices r.state false slices then return true
          else resume v count cost progress here ahead rest

def dropInactive (start : Nat) : Reader Unit :=
  modifyStack fun s =>
    { s with heads := s.heads.take start ++ (s.heads.drop start).filter (·.status == .active) }

def skip (v progress : Nat) (ahead : Subtree) : Reader Unit := do
  let isExtra := (← actionsAt Automaton.initial ahead.facts.origin).getLast? == some .skip
  let run := Subtree.make .errorRun .plain [if isExtra then ahead.asExtra else ahead]
  let mut grown := run
  if progress != 0 then
    match ← onStack (·.pop v 1) with
    | [] => pure ()
    | slice :: _ =>
      modifyStack fun s =>
        ({ s with heads := s.heads.take (slice.head + 1) } : Stack).replaceHead slice.head v
      grown := Subtree.make .errorRun .plain ((slice.readings.head?).getD [] ++ [run])
  let tree := grown
  modifyStack (·.push v (some tree) Automaton.skipping)

/-- Goes on where a tree does not fit: from a layer further down, or behind the tree. -/
def recover (v : Nat) (ahead : Subtree) : Reader Unit := do
  let count ← headCount
  let here := (← top v).place.before
  let resorts := (((← getStack).head v).resorts).getD []
  let progress ← progressOf v
  let cost ← costOf v
  let resumed ←
    if ahead.facts.origin == .error then pure false
    else resume v count cost progress here ahead resorts
  dropInactive count
  if resumed && maxHeads < (← headCount) then modifyStack (·.halt v)
  else if terminalOf? ahead == some Scanner.codes.endOfSource then
    modifyStack (·.push v (some (.make .error .plain [])) Automaton.initial)
    accept v ahead
  else if ← isOutdone v (cost + Subtree.nodeCost + Subtree.textCost ahead.extent) then
    modifyStack (·.halt v)
  else skip v progress ahead

def handleError (v : Nat) (ahead : Subtree) : Reader Unit := do
  let before ← headCount
  let _ ← reduceAll v none
  let count ← headCount
  markStopped ahead false (v :: (List.range count).drop before)
  for _ in List.range (count - before) do
    let _ ← mergeInto before [v]
  modifyStack fun s => s.modifyHead v fun h => { h with resorts := some (s.resortsOf v 16) }
  recover v ahead

/-! ### Reading on -/

/-- Has any text been read since the last error? Trees that were read without error are passed, at
most `fuel` of them. -/
def hasAdvanced (s : Stack) (shownAtError : Nat) : (fuel : Nat) → (layer : Nat) → Bool
  | 0, _ => false
  | fuel + 1, n =>
    let l := s.layer n
    match l.links with
    | ⟨below, some t⟩ :: _ =>
      if !t.extent.isEmpty then true
      else if shownAtError < l.shown && t.cost == 0 then hasAdvanced s shownAtError fuel below
      else false
    | _ => false

/-- The tree that lies ahead of a head. -/
def lookAhead (v : Nat) : Reader Subtree := do
  let s ← getStack
  let l := s.top v
  let cs := l.place.ahead
  let expected := (← Automaton.state l.state).expected
  let leafOf (terminal gap length : Nat) : Subtree :=
    .leaf (.symbol (.terminal terminal)) (.ofPrefix gap cs .none)
      (.ofPrefix length (cs.drop gap) .none)
  let spelled (w : Sighting) : Subtree :=
    let word := (cs.drop w.gap).take w.length
    let keyword? :=
      if w.terminal == Scanner.codes.identifier then Scanner.keyword? expected word else none
    match keyword? with
    | some k => match leafOf k w.gap w.length with
      | .node f ts => .node { f with isKeyword := true } ts
    | none =>
      let t := leafOf w.terminal w.gap w.length
      if w.terminal == Scanner.codes.endOfSource then t.asExtra else t
  let contextual? ←
    if l.state == Automaton.skipping then pure none
    else match Scanner.contextual? expected cs with
      | some w =>
        if w.gap + w.length == 0 then
          let stays := (← Automaton.behind l.state (.terminal w.terminal)) == l.state
          let advanced :=
            l.cost == 0 || hasAdvanced s (s.head v).shownAtError s.layers.size (s.head v).layer
          pure (if stays || !advanced then none else some w)
        else pure (some w)
      | none => pure none
  match contextual? with
  | some w => return leafOf w.terminal w.gap w.length
  | none =>
    let landmark? (_ : Unit) : Subtree :=
      let stray := Scanner.strayLength Automaton.landmarks (cs.length + 1) cs
      if stray == 0 then
        match Scanner.spelled? Automaton.landmarks cs with
        | some w => spelled w
        | none => .leaf .error .none .none
      else
        let gap := (cs.takeWhile isGap).length
        .leaf .error (.ofPrefix gap cs .none) (.ofPrefix (stray - gap) (cs.drop gap) .none)
    match Scanner.spelled? expected cs with
    | some w => return spelled w
    | none => return landmark? ()

/-- Carries out the actions for a tree ahead: the result is whether reading has gone on, and the
last of the heads that were added by making nodes, and whether any node was made. -/
def act (v : Nat) (ahead : Subtree) :
    (last : Option Nat) → (reduced : Bool) → List Action → Reader (Bool × Option Nat × Bool)
  | last, reduced, [] => return (false, last, reduced)
  | last, reduced, a :: rest => do
    match a with
    | .shift target repeats =>
      if repeats then act v ahead last reduced rest
      else
        modifyStack (·.push v (some ahead) target)
        return (true, last, reduced)
    | .skip =>
      let state := (← top v).state
      modifyStack (·.push v (some ahead.asExtra) state)
      return (true, last, reduced)
    | .reduce item =>
      let new ← reduce v item
      act v ahead (new <|> last) true rest
    | .accept =>
      accept v ahead
      return (true, last, reduced)
    | .recover =>
      recover v ahead
      return (true, last, reduced)

def asIdentifier? (t : Subtree) : Option Subtree :=
  match t with
  | .node f cs =>
    if f.isKeyword then
      some (.node
        { f with
          origin := .symbol (.terminal Scanner.codes.identifier)
          isKeyword := false } cs)
    else none

def readAhead (v : Nat) : (fuel : Nat) → (ahead : Subtree) → Reader Unit
  | 0, _ => modifyStack (·.halt v)
  | fuel + 1, ahead => do
    let state := (← top v).state
    let actions ← actionsAt state ahead.facts.origin
    let (gone, last, reduced) ← act v ahead none false actions
    if gone then return ()
    else match last with
      | some new =>
        modifyStack (·.replaceHead new v)
        readAhead v fuel ahead
      | none =>
        if reduced then modifyStack (·.halt v)
        else
          let identifier? ← match asIdentifier? ahead with
            | some t => do
              let fits := !(← actionsAt state t.facts.origin).isEmpty
              pure (if fits then some t else none)
            | none => pure none
          match identifier? with
          | some t => readAhead v fuel t
          | none =>
            if state == Automaton.skipping then recover v ahead
            else
              modifyStack fun s =>
                let shown := (s.top v).shown
                s.modifyHead v fun h =>
                  { h with status := .paused, ahead? := some ahead, shownAtError := shown }

def advance (v : Nat) : Reader Unit := do
  readAhead v 10000 (← lookAhead v)

/-! ### Keeping the best readings -/

/-- Compares a head with those before it: the result is the number of the next head to look at. -/
def condenseHead (standing : Standing) : (fuel : Nat) → (i j : Nat) → Reader Nat
  | 0, i, _ => return i + 1
  | fuel + 1, i, j => do
    if i ≤ j then return i + 1
    else match (← standingOf j).compare standing with
      | .first true =>
        modifyStack (·.removeHead i)
        return i
      | .first false | .neither =>
        if ← mergeInto i [j] then return i else condenseHead standing fuel i (j + 1)
      | .second false =>
        if ← mergeInto i [j] then return i
        else
          modifyStack (·.swapHeads i j)
          condenseHead standing fuel i (j + 1)
      | .second true =>
        modifyStack (·.removeHead j)
        condenseHead standing fuel (i - 1) j

/-- Compares all heads from the given one on with those before them. The result is the least cost of
a reading without an open error. -/
def condenseFrom : (fuel : Nat) → (i : Nat) → (least : Option Nat) → Reader (Option Nat)
  | 0, _, least => return least
  | fuel + 1, i, least => do
    if (← headCount) ≤ i then return least
    else if (← statusOf i) == .halted then
      modifyStack (·.removeHead i)
      condenseFrom fuel i least
    else
      let standing ← standingOf i
      let least := if standing.inError then least
        else some ((least.map (min standing.cost)).getD standing.cost)
      let next ← condenseHead standing (i * i + 2 * i + 2) i 0
      condenseFrom fuel next least

/-- Goes on with the first paused head, unless an active one is before it, and drops the other
paused ones. -/
def resumePaused : (fuel : Nat) → (i : Nat) → (goesOn : Bool) → (least : Option Nat) →
    Reader (Option Nat)
  | 0, _, _, least => return least
  | fuel + 1, i, goesOn, least => do
    if (← headCount) ≤ i then return least
    else
      let h := (← getStack).head i
      match h.status, h.ahead? with
      | .paused, some ahead =>
        if !goesOn && (← get).accepted < maxHeads then
          let cost ← costOf i
          modifyStack fun s => s.modifyHead i ({ · with status := .active, ahead? := none })
          handleError i ahead
          resumePaused fuel (i + 1) true (some cost)
        else
          modifyStack (·.removeHead i)
          resumePaused fuel i goesOn least
      | _, _ => resumePaused fuel (i + 1) true least

/-- Gives up the readings that are worse than others by far, and goes on where nothing fits. -/
def condense : Reader (Option Nat) := do
  let count ← headCount
  let least ← condenseFrom (2 * count + 1) 0 none
  modifyStack fun s => { s with heads := s.heads.take maxHeads }
  resumePaused (2 * maxHeads + 64) 0 false least

def advanceBeyond (v : Nat) : (fuel : Nat) → (reached : Nat) → Reader Nat
  | 0, reached => return reached
  | fuel + 1, reached => do
    if (← headCount) ≤ v || (← statusOf v) != .active then return reached
    else
      advance v
      let s ← getStack
      let octets := if v < s.heads.size then (s.top v).place.before.octets else 0
      if reached < octets || (v != 0 && octets == reached) then return octets
      else advanceBeyond v fuel reached

def advanceFrom : (fuel : Nat) → (v reached : Nat) → Reader Nat
  | 0, _, reached => return reached
  | fuel + 1, v, reached => do
    if (← headCount) ≤ v then return reached
    else
      let reached ← advanceBeyond v 10000 reached
      advanceFrom fuel (v + 1) reached

/-- Reads until no head is left, or until no head can do better than a finished reading. -/
def readAll : (fuel : Nat) → (reached : Nat) → Reader Unit
  | 0, _ => return ()
  | fuel + 1, reached => do
    let reached ← advanceFrom 1000 0 reached
    let least ← condense
    let isBest := match (← get).finished?, least with
      | some t, some n => t.cost < n
      | some _, none => true
      | none, _ => false
    if isBest || (← headCount) == 0 then return ()
    else readAll fuel reached

def read? (text : List Char) : Option Subtree :=
  let fuel := 16 * text.length + 1000
  let nothing : Progress := ⟨.start text, none, 0⟩
  let result := StateT.run (StateT.run (readAll fuel 0) nothing) Automaton.start
  result.1.2.finished?

end Reader

end TypeDiagram.Source
