import TypeDiagram.CommandLine.Run

/-!
The program: it looks up the file that the command line names, runs the command line, and shows the
outcome.
-/

namespace TypeDiagram.CommandLine

def lookUp (path : String) : IO Entry := do
  try
    return .file (← IO.FS.readBinFile path).toList
  catch
    | .noFileOrDirectory .. | .noSuchThing .. => return .missing
    | .inappropriateType .. | .illegalOperation .. => return .directory
    | _ => return .unreadable

end TypeDiagram.CommandLine

open TypeDiagram CommandLine in
def main (args : List String) : IO UInt32 := do
  let env : Environment :=
    ⟨← IO.getEnv "MODEL_DIAGRAM_DIRECTION", ← IO.getEnv "MODEL_DIAGRAM_THEME"⟩
  let found ← match operandOf? args with
    | some path => pure (some (path, ← lookUp path))
    | none => pure none
  let outcome := run env (fun path => (found.filter fun f => f.1 == path).elim .missing (·.2)) args
  if outcome.exitCode = 0 then IO.println outcome.shown else IO.eprintln outcome.shown
  return outcome.exitCode.toUInt32
