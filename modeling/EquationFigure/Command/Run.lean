import EquationFigure.Command.Args
import EquationFigure.Command.Files
import EquationFigure.Figure.Rendering

/-!
# Running the program

A run depends on its arguments and on the files that it may read and write, and it is over once it
has written something.  So it is a function to an `Outcome`, which says what is written where.

* `Outcome` — what a run leaves behind.
* `run` — the outcome of a run.
-/

set_option autoImplicit false

namespace EquationFigure

/-! ## Outcomes -/

/-- What a run leaves behind. -/
structure Outcome where
  /-- The exit code, zero for success. -/
  exitCode : Nat := 0
  /-- What is written to standard output. -/
  stdout : Text := []
  /-- What is written to standard error. -/
  stderr : Text := []
  /-- The name of the file that is written, with its text. -/
  written? : Option (Text × Text) := none

namespace Outcome

/-- A line of text. -/
def line (s : String) : Text := s.toList ++ ['\n']

/-- A run that fails: it writes nothing but what went before on standard error and the reason. -/
def failure (before : Text) (message : String) : Outcome where
  exitCode := 1
  stderr := before ++ line ("error: " ++ message)

end Outcome

/-- The event in one line. -/
def Event.text (event : Event) : String :=
  " ".intercalate (event.fields.map fun field =>
    if field.1 = "message" then String.ofList field.2
    else field.1 ++ "=" ++ String.ofList field.2)

/-- The events, one a line, if they are to be shown.  They are given with the newest first. -/
def eventLines (trace : Bool) (events : List Event) : Text :=
  if trace then events.reverse.flatMap fun event => Outcome.line event.text else []

/-- The warnings of a rendering, one a line. -/
def warningLines (messages : List String) : Text :=
  messages.flatMap fun message => Outcome.line ("warning: " ++ message)

/-! ## Runs -/

/-- The outcome of evaluating an equation. -/
def runEvaluation (equation : Text) (vars : Variables) (trace : Bool) : Outcome :=
  match (evaluate vars { trace } [] equation).run {} with
  | (.ok x, s) =>
    { stdout := numberText x ++ ['\n'], stderr := eventLines trace s.events }
  | (.error e, s) => .failure (eventLines trace s.events) e.message

/-- The outcome of putting a figure where it should go. -/
def Files.deliver (files : Files) (output? : Option Text) (before markup : Text) : Outcome :=
  match output? with
  | none => { stdout := markup ++ ['\n'], stderr := before }
  | some path =>
    match files.target? path with
    | none => .failure before ("failed to write " ++ String.ofList path)
    | some name => { stderr := before, written? := some (name, markup) }

/-- The outcome of rendering the document of a file. -/
def Files.runRendering (files : Files) (input : Text) (output? : Option Text)
    (strict trace : Bool) : Outcome :=
  match files.content? input with
  | none => .failure [] ("failed to read " ++ String.ofList input)
  | some source =>
    match renderText source { eval := { trace }, strict, indent? := some 2 } with
    | (.error e, events) => .failure (eventLines trace events) e.message
    | (.ok rendered, events) =>
      let warnings := warningLines (Diagnostic.messages rendered.diagnostics)
      files.deliver output? (eventLines trace events ++ warnings) rendered.markup

/-- The outcome of a command line. -/
def Files.runArgs (files : Files) (args : Args) : Outcome :=
  match args.command with
  | .help => { stdout := Outcome.line usage }
  | .evaluate equation vars => runEvaluation equation vars args.trace
  | .render input output? strict => files.runRendering input output? strict args.trace

/-- The outcome of a run of the program. -/
def run (args : List Text) (files : Files) : Outcome :=
  match Args.parse args with
  | .error e => .failure [] e.message
  | .ok args => files.runArgs args

end EquationFigure
