import TypeDiagram.CommandLine.Command
import TypeDiagram.CommandLine.Problem
import TypeDiagram.Text.Cut
import TypeDiagram.Text.Resemblance

/-!
The words of a command line. A word that begins with a dash is an option, one of two dashes alone
ends the options, and every other word is an operand. An option with a value takes it from behind
`=` in its word, from behind its letter, or from the next word.
-/

namespace TypeDiagram.CommandLine

/-- An option that was given, under its long name, and its value; that of a flag is empty. -/
structure Given where
  option : String
  value : String
deriving DecidableEq, Repr

structure Words where
  given : List Given
  operands : List String
deriving DecidableEq, Repr

def isOption (word : String) : Bool :=
  match word.toList with
  | '-' :: _ :: _ => true
  | _ => false

def similarNames (known : List String) (name : String) : List String :=
  known.filter fun k => Text.resembles k name

abbrev Taken := Except Problem (List Given × List String)

def takeNext (rule : OptionRule) (name : String) : List String → Taken
  | [] => .error (.valueNeeded name)
  | value :: rest => .ok ([⟨rule.long, value⟩], rest)

/-- Reads a word with two dashes; `rest` are the words behind it. -/
def readLong (rules : List OptionRule) (word : List Char) (rest : List String) : Taken :=
  let name := String.ofList (Text.before '=' word)
  match rules.find? fun r => r.long == name with
  | none => .error (.noSuchOption name (similarNames (rules.map OptionRule.long) name))
  | some rule =>
    match rule.value, Text.after? '=' word with
    | some _, some value => .ok ([⟨rule.long, String.ofList value⟩], rest)
    | some _, none => takeNext rule name rest
    | none, some _ => .error (.valueRefused name)
    | none, none => .ok ([⟨rule.long, ""⟩], rest)

def readLetters (rules : List OptionRule) : List Char → List String → Taken
  | [], rest => .ok ([], rest)
  | c :: cs, rest =>
    let name := String.ofList ['-', c]
    match rules.find? fun r => r.short == some c with
    | none => .error (.noSuchOption name [])
    | some rule =>
      match rule.value with
      | some _ =>
        if cs.isEmpty then takeNext rule name rest
        else .ok ([⟨rule.long, String.ofList cs⟩], rest)
      | none => do
        let (given, rest) ← readLetters rules cs rest
        .ok (⟨rule.long, ""⟩ :: given, rest)

def readOptions (rules : List OptionRule) (word : String) (rest : List String) : Taken :=
  match word.toList with
  | '-' :: '-' :: cs => readLong rules ('-' :: '-' :: cs) rest
  | cs => readLetters rules cs.tail rest

theorem takeNext_length {rule : OptionRule} {name : String} {rest : List String}
    {given : List Given} {left : List String} (h : takeNext rule name rest = .ok (given, left)) :
    left.length ≤ rest.length := by
  cases rest with
  | nil => cases h
  | cons value rest =>
    cases h
    exact Nat.le_succ _

theorem readLong_length {rules : List OptionRule} {word : List Char} {rest : List String}
    {given : List Given} {left : List String} (h : readLong rules word rest = .ok (given, left)) :
    left.length ≤ rest.length := by
  simp only [readLong] at h
  split at h
  · cases h
  · split at h
    · cases h
      exact Nat.le_refl _
    · exact takeNext_length h
    · cases h
    · cases h
      exact Nat.le_refl _

theorem readLetters_length {rules : List OptionRule} {cs : List Char} {rest : List String}
    {given : List Given} {left : List String} (h : readLetters rules cs rest = .ok (given, left)) :
    left.length ≤ rest.length := by
  induction cs generalizing given left with
  | nil =>
    cases h
    exact Nat.le_refl _
  | cons c cs ih =>
    unfold readLetters at h
    split at h
    · cases h
    · split at h
      · split at h
        · exact takeNext_length h
        · cases h
          exact Nat.le_refl _
      · cases hr : readLetters rules cs rest with
        | error e => rw [hr] at h; cases h
        | ok read =>
          rw [hr] at h
          cases h
          exact ih hr

theorem readOptions_length {rules : List OptionRule} {word : String} {rest : List String}
    {given : List Given} {left : List String}
    (h : readOptions rules word rest = .ok (given, left)) : left.length ≤ rest.length := by
  unfold readOptions at h
  split at h
  · exact readLong_length h
  · exact readLetters_length h

/-- Tells the words of a command line apart. Unless options may stand between operands, the first
operand ends them. -/
def readWords (rules : List OptionRule) (mixed : Bool) : List String → Except Problem Words
  | [] => .ok ⟨[], []⟩
  | word :: rest =>
    if word == "--" then .ok ⟨[], rest⟩
    else if isOption word then
      match h : readOptions rules word rest with
      | .error e => .error e
      | .ok (given, left) => do
        have := readOptions_length h
        let words ← readWords rules mixed left
        .ok ⟨given ++ words.given, words.operands⟩
    else if mixed then do
      let words ← readWords rules mixed rest
      .ok ⟨words.given, word :: words.operands⟩
    else .ok ⟨[], word :: rest⟩
termination_by words => words.length
decreasing_by
  · exact Nat.lt_succ_of_le this
  · exact Nat.lt_succ_self _

end TypeDiagram.CommandLine
