import TypeDiagram.Source.Grammar

/-!
Productions: the rules of the grammar without choices. A group is what a production spells out: a
category, a repetition of a phrase, or the whole source. Each way to make the choices of a rule is
a production of its own.
-/

namespace TypeDiagram.Source

inductive Symbol where
  | terminal (code : Nat)
  | group (code : Nat)
deriving DecidableEq, Hashable, Repr

structure Step where
  symbol : Symbol
  precedence : Precedence
  side : Option Side
  shownAs : Option Alias
  role : Option Role
deriving DecidableEq, Hashable, Repr

structure Production where
  group : Nat
  weight : Int
  steps : List Step
deriving DecidableEq, Hashable, Repr

namespace Phrase

def repeats : Phrase → List Phrase
  | nothing | terminal _ | category _ => []
  | sequence a b | choice a b => a.repeats ++ b.repeats
  | repeated p => p.repeats ++ [p]
  | part _ p | renamed _ p | bound _ _ p | weighted _ p => p.repeats

end Phrase

namespace Production

def repetitions : List Phrase :=
  ((List.range Category.count).flatMap fun n =>
    ((Category.ofCode? n).map fun c => c.rule.repeats).getD []).eraseDups

def repetitionCode (p : Phrase) : Nat := Category.count + repetitions.idxOf p

def sourceCode : Nat := Category.count + repetitions.length

def groupCount : Nat := sourceCode + 1

def isRepetition (group : Nat) : Bool := Category.count ≤ group && group < sourceCode

/-- Does the group leave a node of its own in a tree? -/
def isVisible (group : Nat) : Bool :=
  ((Category.ofCode? group).map fun c => !c.isHidden).getD false

structure Context where
  precedence : Precedence
  side : Option Side
  shownAs : Option Alias
  role : Option Role

def Context.plain : Context := ⟨.unranked, none, none, none⟩

def Context.step (c : Context) (s : Symbol) : Step := ⟨s, c.precedence, c.side, c.shownAs, c.role⟩

def heavier (a b : Int) : Int := if a.natAbs < b.natAbs then b else a

def mapLast (f : Step → Step) : List Step → List Step
  | [] => []
  | [s] => [f s]
  | s :: t :: rest => s :: mapLast f (t :: rest)

/-- All ways to spell out a phrase, with their weights. A precedence holds up to the last step of
the phrase that it is given to; that step itself has it only where a production ends, since it
tells what may follow. -/
def expand (context : Context) (atEnd : Bool) : Phrase → List (List Step × Int)
  | .nothing => [([], 0)]
  | .terminal t => [([context.step (.terminal t.code)], 0)]
  | .category c => [([context.step (.group c.code)], 0)]
  | .repeated p => [([context.step (.group (repetitionCode p))], 0)]
  | .sequence a b =>
    (expand context false a).flatMap fun (xs, v) =>
      (expand context atEnd b).map fun (ys, w) => (xs ++ ys, heavier v w)
  | .choice a b => expand context atEnd a ++ expand context atEnd b
  | .part role p => expand { context with role := some role } atEnd p
  | .renamed shownAs p => expand { context with shownAs := some shownAs } atEnd p
  | .bound precedence side p =>
    let inner := { context with precedence, side := side <|> context.side }
    let reset (s : Step) : Step :=
      { s with
        precedence := context.precedence
        side := if side.isSome then context.side else s.side }
    (expand inner atEnd p).map fun (steps, w) =>
      (if atEnd then steps else mapLast reset steps, w)
  | .weighted weight p => (expand context atEnd p).map fun (steps, w) => (steps, heavier weight w)

def ofPhrase (group : Nat) (p : Phrase) : List Production :=
  (expand .plain true p).map fun (steps, weight) => ⟨group, weight, steps⟩

def ofRepetition (p : Phrase) : List Production :=
  let itself := Context.plain.step (.group (repetitionCode p))
  ⟨repetitionCode p, 0, [itself, itself]⟩ :: ofPhrase (repetitionCode p) p

def all : List Production :=
  ((List.range Category.count).flatMap fun n =>
    ((Category.ofCode? n).map fun c => ofPhrase n c.rule).getD []) ++
  repetitions.flatMap ofRepetition ++
  ofPhrase sourceCode (.category .program)

end Production

end TypeDiagram.Source
