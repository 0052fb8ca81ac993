import EquationFigure.Equation.Variable

/-!
# Command lines

A command line asks for help, for the rendering of a document or for the value of an equation.
Flags may stand anywhere.

* `Command` — what is asked for; `Args` — with whether the steps taken are to be shown.
* `Args.parse` — what a command line asks for, or what is wrong with it.
-/

set_option autoImplicit false

namespace EquationFigure

/-- What a command line asks for. -/
inductive Command where
  /-- How the program is used. -/
  | help
  /-- The figure of the document in the file `input`, put into the file `output?` if it is given;
  with `strict`, only if no attribute has to be left out. -/
  | render (input : Text) (output? : Option Text) (strict : Bool)
  /-- The value of an equation over variables. -/
  | evaluate (equation : Text) (vars : Variables)

/-- A command line. -/
structure Args where
  /-- What it asks for. -/
  command : Command
  /-- Whether the steps taken are to be shown. -/
  trace : Bool

/-- How the program is used. -/
def usage : String :=
  "usage:\n  svgeq <document.json> [-o <out.svg>] [--strict] [--trace]\n" ++
  "  svgeq eval <equation> [name=value ...] [--trace]"

/-- What is wrong with a command line. -/
inductive UsageError where
  /-- There is no equation to evaluate. -/
  | noEquation
  /-- The argument gives no value to a variable. -/
  | noAssignment (argument : Text)
  /-- The option comes last and so has no value. -/
  | noValue (option : Text)
  /-- The number of documents is not one. -/
  | notOneDocument
deriving DecidableEq, Repr

/-- The message for the user. -/
def UsageError.message : UsageError → String
  | noEquation => "`eval` needs an equation"
  | noAssignment argument => "expected name=value, got `" ++ String.ofList argument ++ "`"
  | noValue option => "`" ++ String.ofList option ++ "` needs a value"
  | notOneDocument => "expected exactly one input document\n" ++ usage

namespace Args

/-! ## The words with a meaning -/

/-- The flag that shows the steps taken. -/
def traceFlag : Text := ['-', '-', 't', 'r', 'a', 'c', 'e']

/-- The flag that asks for help. -/
def helpFlag : Text := ['-', '-', 'h', 'e', 'l', 'p']

/-- The short flag that asks for help. -/
def shortHelpFlag : Text := ['-', 'h']

/-- The flag that leaves no attribute out. -/
def strictFlag : Text := ['-', '-', 's', 't', 'r', 'i', 'c', 't']

/-- The option for the file that the figure is put into. -/
def outputOption : Text := ['-', 'o']

/-- The word that asks for the value of an equation. -/
def evaluateWord : Text := ['e', 'v', 'a', 'l']

/-! ## Parsing -/

/-- The arguments that are not the flag. -/
def without (flag : Text) (args : List Text) : List Text := args.filter (· ≠ flag)

/-- The value of the first occurrence of the option, and the arguments but these two. -/
def takeOption (option : Text) : List Text → Except UsageError (Option Text × List Text)
  | [] => .ok (none, [])
  | [a] => if a = option then .error (.noValue option) else .ok (none, [a])
  | a :: b :: rest =>
    if a = option then .ok (some b, rest)
    else do
      let (value?, rest) ← takeOption option (b :: rest)
      return (value?, a :: rest)

theorem takeOption_of_not_mem {option : Text} {args : List Text} (h : option ∉ args) :
    takeOption option args = .ok (none, args) := by
  fun_induction takeOption option args with
  | case1 => rfl
  | case2 => simp_all
  | case3 a ha => simp_all
  | case4 => simp_all
  | case5 a b rest ha ih =>
    simp only [List.mem_cons, not_or] at h
    rw [ih (by simp [h])]
    rfl

theorem takeOption_append {option : Text} {before : List Text} (h : option ∉ before)
    (value : Text) (after : List Text) :
    takeOption option (before ++ option :: value :: after) = .ok (some value, before ++ after) := by
  induction before with
  | nil => simp [takeOption]
  | cons a before ih =>
    simp only [List.mem_cons, not_or] at h
    have ih := ih h.2
    cases before with
    | nil => simp [takeOption, Ne.symm h.1, bind, Except.bind, pure, Except.pure]
    | cons b before =>
      simp only [List.cons_append] at ih ⊢
      simp [takeOption, Ne.symm h.1, ih, bind, Except.bind, pure, Except.pure]

/-- The name and the equation of a variable; the first equals sign stands between them. -/
def assignment (argument : Text) : Except UsageError (Text × Variable) :=
  match argument.span (· ≠ '=') with
  | (_, []) => .error (.noAssignment argument)
  | (name, _ :: equation) => .ok (Text.trim name, .ofFormula (Text.trim equation))

/-- What the arguments behind the word `eval` ask for. -/
def evaluation : List Text → Except UsageError Command
  | [] => .error .noEquation
  | equation :: rest => do
    let entries ← rest.mapM assignment
    return .evaluate equation (.ofList entries)

/-- What the arguments ask for that name a document. -/
def rendering (args : List Text) : Except UsageError Command := do
  match ← takeOption outputOption (without strictFlag args) with
  | (output?, [input]) => return .render input output? (args.contains strictFlag)
  | _ => .error .notOneDocument

/-- What the arguments ask for, which do not include the flag that shows the steps. -/
def commandOf (args : List Text) : Except UsageError Command :=
  if args = [] ∨ helpFlag ∈ args ∨ shortHelpFlag ∈ args then .ok .help
  else
    match args with
    | first :: rest => if first = evaluateWord then evaluation rest else rendering args
    | [] => .ok .help

/-- What the arguments ask for. -/
def parse (args : List Text) : Except UsageError Args := do
  let command ← commandOf (without traceFlag args)
  return ⟨command, args.contains traceFlag⟩

end Args

end EquationFigure
