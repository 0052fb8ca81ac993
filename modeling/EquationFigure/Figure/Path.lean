import EquationFigure.Figure.Quantity

/-!
# Paths

The outline of a path is a list of segments, each a command letter with as many numbers as the
command takes.  In a document the letter is a text and the numbers are quantities.

* `commandArity?` — how many numbers a letter takes, if it is a command.
* `Segment.letter` — the command letter of a segment, or what is wrong with the segment.
* `outlineText` — the segments in a row, as the attribute `d` has them.
-/

set_option autoImplicit false

namespace EquationFigure

/-- What is wrong with a segment of a path. -/
inductive SegmentError where
  /-- The command is not one of the letters known. -/
  | unknownCommand (command : Text)
  /-- The command takes another number of arguments. -/
  | arity (letter : Char) (expected found : Nat)
deriving DecidableEq, Repr

namespace SegmentError

/-- The cause in one word, as it ends the diagnostic code. -/
def kind : SegmentError → String
  | unknownCommand _ => "unknown_command"
  | arity .. => "arity"

/-- The diagnostic code. -/
def code (e : SegmentError) : String := "svgeq::path::" ++ e.kind

/-- The message for the author of the document. -/
def message : SegmentError → String
  | unknownCommand command => "unknown path command `" ++ String.ofList command ++ "`"
  | arity letter expected found =>
    "path command `" ++ letter.toString ++ "` takes " ++ toString expected ++
      " arguments, got " ++ toString found

/-- What to do about it, where there is something to say. -/
def help? : SegmentError → Option String
  | unknownCommand _ => some "use one of M L H V C S Q T A Z, in either case"
  | arity .. => none

end SegmentError

/-- How many numbers follow a command letter, which may be of either case. -/
def commandArity? (letter : Char) : Option Nat :=
  match letter.toUpper with
  | 'M' | 'L' | 'T' => some 2
  | 'H' | 'V' => some 1
  | 'C' => some 6
  | 'S' | 'Q' => some 4
  | 'A' => some 7
  | 'Z' => some 0
  | _ => none

/-- A segment of a path, as the document gives it. -/
structure Segment where
  /-- The command, which should be a single letter. -/
  command : Text
  /-- The arguments of the command. -/
  arguments : List Quantity := []

/-- The command letter of a segment whose command is `command`, with blanks around it, and has
`found` arguments. -/
def commandLetter (command : Text) (found : Nat) : Except SegmentError Char :=
  match Text.trim command with
  | [letter] =>
    match commandArity? letter with
    | none => .error (.unknownCommand command)
    | some expected =>
      if found = expected then .ok letter else .error (.arity letter expected found)
  | _ => .error (.unknownCommand command)

/-- The command letter of the segment. -/
def Segment.letter (s : Segment) : Except SegmentError Char :=
  commandLetter s.command s.arguments.length

/-- A letter is accepted only with as many arguments as it takes. -/
theorem commandArity?_eq_of_commandLetter {command : Text} {found : Nat} {letter : Char}
    (h : commandLetter command found = .ok letter) : commandArity? letter = some found := by
  unfold commandLetter at h
  split at h
  · split at h
    · simp at h
    · split at h
      · simp_all
      · simp at h
  · simp at h

/-- A segment with its numbers worked out. -/
structure DrawnSegment where
  /-- The command letter. -/
  letter : Char
  /-- The numbers that follow it. -/
  numbers : List Float

/-- The words of a segment. -/
def DrawnSegment.words (s : DrawnSegment) : List Text := [s.letter] :: s.numbers.map numberText

/-- The segments in a row, all their words separated by single spaces. -/
def outlineText (segments : List DrawnSegment) : Text :=
  Text.joinWith [' '] (segments.map fun s => Text.joinWith [' '] s.words)

end EquationFigure
