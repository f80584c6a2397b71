import TypeDiagram.Options
import TypeDiagram.Text.Utf8

/-!
What can be wrong with a command line or with the file that it names.
-/

namespace TypeDiagram.CommandLine

inductive PinDefect where
  /-- It does not have the form of an id, `=` and two texts with `,` between. -/
  | form
  | coordinates
deriving DecidableEq, Repr

inductive Problem where
  /-- There is no such option; others resemble it. -/
  | noSuchOption (name : String) (similar : List String)
  | valueNeeded (option : String)
  | valueRefused (option : String)
  | noCommand
  /-- There is no such command; others resemble it. -/
  | noSuchCommand (name : String) (similar : List String)
  | noOperand
  | moreOperands (operands : List String)
  | unknownDirection (name : String)
  | badPin (text : String) (defect : PinDefect)
  | fileMissing (path : String)
  | fileIsDirectory (path : String)
  | fileUnreadable (path : String)
  | noText (path : String) (error : Text.Utf8.Error)
  | unknownModel (id : String)
  | layoutFailed (reason : String)
  /-- There is no network to answer requests from. -/
  | noNetwork
deriving DecidableEq, Repr

namespace Problem

def ofUsage : Problem → Bool
  | noText .. | unknownModel _ | layoutFailed _ | noNetwork => false
  | _ => true

def exitCode (p : Problem) : Nat := if p.ofUsage then 2 else 1

/-- The names that resemble an unknown one, in ascending order. -/
def suggestion (similar : List String) : String :=
  match (similar.mergeSort fun a b => a ≤ b).map Text.quoted with
  | [] => ""
  | [one] => " Did you mean " ++ one ++ "?"
  | several => " (Did you mean one of: " ++ ", ".intercalate several ++ "?)"

/-- There is no such thing with the given name; others resemble it. -/
def noSuch (thing name : String) (similar : List String) : String :=
  "No such " ++ thing ++ " " ++ Text.quoted name ++ "." ++ suggestion similar

def invalidFile (what : String) : String := "Invalid value for 'FILE': File " ++ what

def message : Problem → String
  | noSuchOption name similar => noSuch "option" name similar
  | valueNeeded option => "Option " ++ Text.quoted option ++ " requires an argument."
  | valueRefused option => "Option " ++ Text.quoted option ++ " does not take a value."
  | noCommand => "Missing command."
  | noSuchCommand name similar => noSuch "command" name similar
  | noOperand => "Missing argument 'FILE'."
  | moreOperands operands =>
    "Got unexpected extra argument" ++ (if operands.length = 1 then "" else "s") ++ " (" ++
      " ".intercalate operands ++ ")"
  | unknownDirection name =>
    "Invalid value for '--direction' / '-d': " ++ Text.quoted name ++ " is not one of " ++
      ", ".intercalate ([Direction.horizontal, .vertical].map fun d => Text.quoted d.name) ++ "."
  | badPin text .form => "Invalid value for '--pin': expected ID=X,Y, got " ++ Text.quoted text
  | badPin text .coordinates =>
    "Invalid value for '--pin': coordinates must be numbers: " ++ Text.quoted text
  | fileMissing path => invalidFile (Text.quoted path ++ " does not exist.")
  | fileIsDirectory path => invalidFile (Text.quoted path ++ " is a directory.")
  | fileUnreadable path => invalidFile (Text.quoted path ++ " is not readable.")
  | noText path error => "Cannot read " ++ path ++ ": " ++ error.message
  | unknownModel id => "Unknown model for --pin: " ++ id
  | layoutFailed reason => "Layout failed: " ++ reason
  | noNetwork => "There is no network to serve."

end Problem

end TypeDiagram.CommandLine
