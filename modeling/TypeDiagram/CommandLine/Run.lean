import TypeDiagram.CommandLine.Help
import TypeDiagram.CommandLine.Words
import TypeDiagram.Document.Indented
import TypeDiagram.Number.Numeral
import TypeDiagram.Session.Passes
import TypeDiagram.Text.Cut

/-!
Running a command line. Help and version are shown whatever else the words say, as long as they can
be told apart. Then the options are checked in the order in which they were first given, after them
the operand, and last the number of operands; only then is the file read and the command run.
-/

namespace TypeDiagram.CommandLine

open Diagram

inductive Entry where
  | missing
  | directory
  | unreadable
  | file (bytes : List UInt8)

inductive Outcome where
  | report (document : Document Amount)
  | text (s : String)
  /-- Nothing that could be run was asked for. The help is shown, and the program fails. -/
  | nothingAsked
  /-- A command failed, or the program before any command. -/
  | failed (command : Option Command) (problem : Problem)

structure LayoutChoices where
  direction : Option Direction
  pins : OrderedMap String (Position Float)

/-- Reads a pin: an id, the first `=`, and two numbers with the first `,` between. -/
def readPin (text : String) : Except Problem (String × Position Float) :=
  let id := String.ofList (Text.before '=' text.toList)
  let refuse (d : PinDefect) : Except Problem (String × Position Float) := .error (.badPin text d)
  match Text.after? '=' text.toList with
  | none => refuse .form
  | some coordinates =>
    match Text.after? ',' coordinates with
    | none => refuse .form
    | some y =>
      if id.isEmpty then refuse .form
      else
        let x := Number.Numeral.read? (String.ofList (Text.before ',' coordinates))
        match x, Number.Numeral.read? (String.ofList y) with
        | some x, some y => .ok (id, ⟨x.toFloat, y.toFloat⟩)
        | _, _ => refuse .coordinates

/-- Reads the values of an option, of which all count for pins and the last one otherwise. -/
def choose (given : List Given) (choices : LayoutChoices) (option : String) :
    Except Problem LayoutChoices := do
  let values := (given.filter fun g => g.option == option).map Given.value
  if option == OptionRule.direction.long then
    match values.getLast? with
    | none => return choices
    | some name =>
      match Direction.ofName? name with
      | some d => return { choices with direction := some d }
      | none => throw (.unknownDirection name)
  else if option == OptionRule.pin.long then
    return { choices with pins := .ofList (← values.mapM readPin) }
  else return choices

def layoutChoices (given : List Given) : Except Problem LayoutChoices :=
  (given.map Given.option).eraseDups.foldlM (choose given) ⟨none, .empty⟩

def plainPath (path : String) : String :=
  let slashes := path.toList.takeWhile (· == '/')
  let root := if slashes.length = 2 then "//" else if slashes.isEmpty then "" else "/"
  let parts := (path.splitOn "/").filter fun part => !part.isEmpty && part != "."
  if root.isEmpty && parts.isEmpty then "." else root ++ "/".intercalate parts

def readText (path : String) (bytes : List UInt8) : Except Problem String :=
  match Text.Utf8.decode bytes with
  | .ok cs => .ok (String.ofList (Text.unifyLineEnds cs))
  | .error e => .error (.noText (plainPath path) e)

def readOperand (look : String → Entry) : List String → Except Problem (List UInt8)
  | [] => .error .noOperand
  | path :: _ =>
    match look path with
    | .missing => .error (.fileMissing path)
    | .directory => .error (.fileIsDirectory path)
    | .unreadable => .error (.fileUnreadable path)
    | .file bytes => .ok bytes

def refuseMore (count : Nat) (operands : List String) : Except Problem Unit :=
  match operands.drop count with
  | [] => .ok ()
  | more => .error (.moreOperands more)

/-- The width that a node is given which nothing has rendered. -/
def nodeWidth : Nat := 220

def nodeHeight (m : Model) : Nat := 40 + 24 * m.schema.length

def nodeExtent (n : Node Float) : Size Float := ⟨nodeWidth.toFloat, (nodeHeight n.model).toFloat⟩

def placePin (s : Session Float) (pin : String × Position Float) :
    Except Problem (Session Float) :=
  match s.move pin.1 pin.2 with
  | (s, true) => .ok s
  | (_, false) => .error (.unknownModel pin.1)

def postponedFor? (s : Session Float) : Option String :=
  ((s.history.ofKind .layoutPostponed).filterMap fun e =>
    match e.data with
    | .postponed reason => some reason
    | _ => none).getLast?

def refusePostponed (s : Session Float) : Except Problem (Session Float) :=
  match postponedFor? s with
  | some reason => .error (.layoutFailed reason)
  | none => .ok s

def arranged (env : Environment) (source : String) (choices : LayoutChoices) :
    Except Problem (Session Float) := do
  let options := env.viewOptions choices.direction true "" true
  let s := ((Session.create options .standard).setSource source).measureAll nodeExtent |>.1
  let s ← choices.pins.entries.foldlM placePin s
  refusePostponed (s.layoutSettled layeredService)

/-- A node as the layout shows it. The extent of a pinned node is still the counted one. -/
def nodeReport (pinned : List String) (n : Node Float) : Document Amount :=
  let extent (counted : Nat) (x : Float) : Document Amount :=
    .number (if pinned.contains n.id then .whole counted else .real x)
  let size := match n.size with
    | some s =>
      [("width", extent nodeWidth s.width), ("height", extent (nodeHeight n.model) s.height)]
    | none => []
  .object ([("id", .string n.id), ("x", .number (.real n.position.x)),
    ("y", .number (.real n.position.y))] ++ size)

def layoutReport (s : Session Float) : Document Amount :=
  .object [("direction", .string s.options.direction.name),
    ("nodes", .array (s.nodes.map (nodeReport s.pinned))),
    ("edges", .array (s.edges.map Edge.toDocument))]

def modelsReport (source : String) : Document Amount :=
  .array ((Model.ofDeclarations (Source.declarations source)).map Model.toDocument)

/-- Runs a command on the words behind its name. -/
def runCommand (env : Environment) (look : String → Entry) (words : Words) :
    Command → Except Problem (Document Amount)
  | .serve => do
    refuseMore 0 words.operands
    throw .noNetwork
  | .models => do
    let bytes ← readOperand look words.operands
    refuseMore 1 words.operands
    return modelsReport (← readText (words.operands.headD "") bytes)
  | .layout => do
    let choices ← layoutChoices words.given
    let bytes ← readOperand look words.operands
    refuseMore 1 words.operands
    let source ← readText (words.operands.headD "") bytes
    return layoutReport (← arranged env source choices)

def runNamed (env : Environment) (look : String → Entry) (command : Command)
    (args : List String) : Outcome :=
  match readWords command.options true args with
  | .error p => .failed (some command) p
  | .ok words =>
    if words.given.any fun g => g.option == OptionRule.helpFlag.long then
      .text (help (some command))
    else match runCommand env look words command with
      | .ok document => .report document
      | .error p => .failed (some command) p

def versionText : String := programName ++ ", version " ++ programVersion

def shownInstead? (given : List Given) : Option String :=
  (given.find? fun g => g.option != OptionRule.verbose.long).map fun g =>
    if g.option == OptionRule.versionFlag.long then versionText else help none

/-- What the words lead to that begin with the name of no command. They may be options that stand
behind the end of the options, which are heeded even there. -/
def runUnknown (name : String) (rest : List String) : Outcome :=
  match readWords programOptions false (name :: rest) with
  | .error p => .failed none p
  | .ok words =>
    match shownInstead? words.given with
    | some s => .text s
    | none => .failed none (.noSuchCommand name (similarNames (Command.all.map Command.name) name))

def run (env : Environment) (look : String → Entry) (args : List String) : Outcome :=
  if args.isEmpty then .nothingAsked
  else match readWords programOptions false args with
  | .error p => .failed none p
  | .ok words =>
    match shownInstead? words.given with
    | some s => .text s
    | none =>
      match words.operands with
      | [] => .failed none .noCommand
      | name :: rest =>
        match Command.ofName? name with
        | some command => runNamed env look command rest
        | none => runUnknown name rest

def operandOf? (args : List String) : Option String := do
  let words ← (readWords programOptions false args).toOption
  let command ← words.operands.head? >>= Command.ofName?
  let operands ← (readWords command.options true words.operands.tail).toOption
  operands.operands.head?

def Outcome.shown : Outcome → String
  | report document => document.indented
  | text s => s
  | nothingAsked => help none
  | failed command problem =>
    let advice := if problem.ofUsage then
        let path := " ".intercalate (programName :: (command.map Command.name).toList)
        "Usage: " ++ usage command ++ "\nTry " ++ Text.quoted (path ++ " --help") ++
          " for help.\n\n"
      else ""
    advice ++ "Error: " ++ problem.message

def Outcome.exitCode : Outcome → Nat
  | report _ | text _ => 0
  | nothingAsked => 2
  | failed _ problem => problem.exitCode

end TypeDiagram.CommandLine
