import EquationFigure.Json.Reader

/-!
# Reading over values

A value that nobody asks for is read over.  It must be JSON, but how deep it is nested, how great
its numbers are and what its escapes stand for is of no account.
-/

set_option autoImplicit false

namespace EquationFigure.Json.Reader

/-- Reads over a word, a number or a string that begins with the character. -/
def skipSimple : Char → Reader Unit
  | 'n' => scanned (scanWord ['n', 'u', 'l', 'l'])
  | 't' => scanned (scanWord ['t', 'r', 'u', 'e'])
  | 'f' => scanned (scanWord ['f', 'a', 'l', 's', 'e'])
  | '"' => do
    advance
    scanned skipQuoted
  | c => if c = '-' ∨ c.isDigit then scanned skipNumber else stop .noValue 1

/-- Reads over the items of a list and its closing bracket, in at most so many steps. -/
def skipItems (item : Reader Unit) (first : Bool) : (steps : Nat) → Reader Unit
  | 0 => stop .endInList 1
  | steps + 1 => do
    match first, ← next? with
    | _, none => stop .endInList 1
    | _, some ']' => advance
    | true, some _ =>
      item
      skipItems item false steps
    | false, some ',' =>
      advance
      item
      skipItems item false steps
    | false, some _ => stop .noListEnd 1

/-- Reads over a key and the value behind it. -/
def skipField (value : Reader Unit) : Reader Unit := do
  match ← next? with
  | none => stop .endInObject 1
  | some '"' =>
    advance
    scanned skipQuoted
    afterColon value
  | some _ => stop .noKey 1

/-- Reads over the fields of an object and its closing bracket, in at most so many steps. -/
def skipFields (value : Reader Unit) (first : Bool) : (steps : Nat) → Reader Unit
  | 0 => stop .endInObject 1
  | steps + 1 => do
    match first, ← next? with
    | _, none => stop .endInObject 1
    | _, some '}' => advance
    | true, some _ =>
      skipField value
      skipFields value false steps
    | false, some ',' =>
      advance
      skipField value
      skipFields value false steps
    | false, some _ => stop .noObjectEnd 1

/-- Reads over a value in which lists and objects are nested less than so deep. -/
def skipWithin : (levels : Nat) → Reader Unit
  | 0 => stop .endInValue 1
  | levels + 1 => do
    match ← next? with
    | none => stop .endInValue 1
    | some '[' =>
      advance
      skipItems (skipWithin levels) true (← steps)
    | some '{' =>
      advance
      skipFields (skipWithin levels) true (← steps)
    | some c => skipSimple c

/-- Reads over the value that comes next.  A text is nested less deep than it is long, so the depth
sets no limit. -/
def skip : Reader Unit := do skipWithin (← steps)

end EquationFigure.Json.Reader
