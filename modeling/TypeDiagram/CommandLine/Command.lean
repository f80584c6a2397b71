/-!
The commands of the program and the words that each of them takes.
-/

namespace TypeDiagram.CommandLine

structure OptionRule where
  long : String
  /-- The letter of its short name. -/
  short : Option Char
  /-- What its value is called in the help; a flag has none. -/
  value : Option String
  help : String
deriving DecidableEq, Repr

namespace OptionRule

def helpFlag : OptionRule := ⟨"--help", none, none, "Show this message and exit."⟩

def versionFlag : OptionRule := ⟨"--version", none, none, "Show the version and exit."⟩

def verbose : OptionRule := ⟨"--verbose", some 'v', none, "Enable debug logging"⟩

def direction : OptionRule :=
  ⟨"--direction", some 'd', some "[horizontal|vertical]", "Layout direction"⟩

def pin : OptionRule := ⟨"--pin", none, some "TEXT", "Keep a node fixed: ID=X,Y"⟩

def listening : OptionRule := ⟨"--port", some 'p', some "INTEGER", "Port number"⟩

def host : OptionRule := ⟨"--host", none, some "TEXT", "Host address"⟩

end OptionRule

inductive Command where
  /-- Shows the layout of a file. -/
  | layout
  /-- Shows the models of a file. -/
  | models
  /-- Answers requests over the network. -/
  | serve
deriving DecidableEq, Repr

namespace Command

def all : List Command := [layout, models, serve]

def name : Command → String
  | layout => "layout"
  | models => "models"
  | serve => "serve"

def summary : Command → String
  | layout => "Run one layout pass over FILE and print nodes and edges as JSON."
  | models => "Parse FILE and print its models as JSON."
  | serve => "Start the diagram web API."

def ofName? (s : String) : Option Command := all.find? fun c => c.name == s

def options : Command → List OptionRule
  | layout => [.direction, .pin, .helpFlag]
  | models => [.helpFlag]
  | serve => [.listening, .host, .helpFlag]

def operand? : Command → Option String
  | layout | models => some "FILE"
  | serve => none

end Command

def programName : String := "cli"

def programSummary : String :=
  "model-diagram: Turn type declarations into a laid-out model diagram."

def programVersion : String := "0.1.0"

def programOptions : List OptionRule := [.versionFlag, .verbose, .helpFlag]

end TypeDiagram.CommandLine
