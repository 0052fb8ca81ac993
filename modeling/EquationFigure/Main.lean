import EquationFigure.Command.Run

/-!
# The program

Reads the document, runs the command line and writes what the outcome says.
-/

set_option autoImplicit false

namespace EquationFigure

/-- The document that a command line names. -/
def inputPath? (args : List Text) : Option Text :=
  match Args.parse args with
  | .ok ⟨.render input _ _, _⟩ => some input
  | _ => none

/-- The text of a file, if it can be read. -/
def readFile? (path : Text) : IO (Option Text) := do
  try return some (← IO.FS.readFile (String.ofList path)).toList
  catch _ => return none

/-- What a run sees of the files: the document, and every file as one that can be written. -/
def visibleFiles (args : List Text) : IO Files := do
  match inputPath? args with
  | none => return ⟨fun _ => none, some⟩
  | some input =>
    let content? ← readFile? input
    return ⟨fun path => if path = input then content? else none, some⟩

/-- Writes what the outcome says and gives its exit code, or another one if the file cannot be
written. -/
def Outcome.perform (o : Outcome) : IO UInt32 := do
  IO.eprint (String.ofList o.stderr)
  match o.written? with
  | none =>
    IO.print (String.ofList o.stdout)
    return UInt32.ofNat o.exitCode
  | some (path, content) =>
    try
      IO.FS.writeFile (String.ofList path) (String.ofList content)
      return UInt32.ofNat o.exitCode
    catch _ =>
      IO.eprintln ("error: failed to write " ++ String.ofList path)
      return 1

end EquationFigure

/-- Runs the program on the arguments of the command line. -/
def main (args : List String) : IO UInt32 := do
  let args := args.map String.toList
  (EquationFigure.run args (← EquationFigure.visibleFiles args)).perform
