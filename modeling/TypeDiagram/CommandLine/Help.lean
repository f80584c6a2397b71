import TypeDiagram.CommandLine.Command

/-!
The help of the program and of its commands: how they are called, what they do, and a table of
options and commands. A name that is wider than its column has its text on a line of its own.
-/

namespace TypeDiagram.CommandLine

def usage : Option Command → String
  | none => programName ++ " [OPTIONS] COMMAND [ARGS]..."
  | some c => " ".intercalate ([programName, c.name, "[OPTIONS]"] ++ c.operand?.toList)

def OptionRule.names (o : OptionRule) : String :=
  let short := match o.short with
    | some c => String.ofList ['-', c, ',', ' ']
    | none => ""
  let value := match o.value with
    | some v => " " ++ v
    | none => ""
  short ++ o.long ++ value

def nameColumn : Nat := 30

def blanks (n : Nat) : String := String.ofList (List.replicate n ' ')

def tableLines (rows : List (String × String)) : List String :=
  let width := min nameColumn ((rows.map fun r => r.1.length).foldl max 0) + 2
  rows.flatMap fun (name, text) =>
    if name.length + 2 ≤ width then ["  " ++ name ++ blanks (width - name.length) ++ text]
    else ["  " ++ name, blanks (width + 2) ++ text]

def optionRows (rules : List OptionRule) : List (String × String) :=
  rules.map fun o => (o.names, o.help)

def summary : Option Command → String
  | none => programSummary
  | some c => c.summary

def tables : Option Command → List String
  | none => ["Options:"] ++ tableLines (optionRows programOptions) ++
      ["", "Commands:"] ++ tableLines (Command.all.map fun c => (c.name, c.summary))
  | some c => ["Options:"] ++ tableLines (optionRows c.options)

def help (command : Option Command) : String :=
  "\n".intercalate
    (["Usage: " ++ usage command, "", "  " ++ summary command, ""] ++ tables command)

end TypeDiagram.CommandLine
