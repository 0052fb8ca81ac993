import EquationFigure.Json.Value
import EquationFigure.Text.Quoted

/-!
# What can be wrong with a document's text

A text is refused for one of two reasons.  A `Flaw` is a place where the text stops being JSON; a
`Mismatch` is JSON that does not say what a document says.

* `Flaw.message`, `Flaw.isEnd` — a flaw in words, and whether it is that the text ends too early.
* `Mismatch.message` — a mismatch in words.
* `Place` — a line and a column; `Place.after` counts them.
* `Stop` — a flaw with what is left of the text where it shows; `Stop.place` is where that is.
* `ReadError` — either of the two.
-/

set_option autoImplicit false

namespace EquationFigure.Json

/-! ## Flaws -/

/-- Why a text is no JSON. -/
inductive Flaw where
  /-- The text ends in a list. -/
  | endInList
  /-- The text ends in an object. -/
  | endInObject
  /-- The text ends in a string. -/
  | endInString
  /-- The text ends where a value goes on or should begin. -/
  | endInValue
  /-- A key is not followed by a colon. -/
  | noColon
  /-- An item is not followed by a comma or the end of the list. -/
  | noListEnd
  /-- A field is not followed by a comma or the end of the object. -/
  | noObjectEnd
  /-- A word is not one of the three that are values. -/
  | noWord
  /-- Something other than a value begins. -/
  | noValue
  /-- An escape is not known. -/
  | badEscape
  /-- A number has a missing or a superfluous digit. -/
  | badNumber
  /-- A number is beyond the greatest double. -/
  | hugeNumber
  /-- A control character stands in a string. -/
  | controlCharacter
  /-- A key is not a string. -/
  | noKey
  /-- The second half of a pair of escapes stands alone, or the first is followed by another escape
  than the second. -/
  | loneSurrogate
  /-- The first half of a pair of escapes is not followed by an escape. -/
  | noSurrogate
  /-- A comma stands before the end of a list or an object. -/
  | trailingComma
  /-- More text follows. -/
  | trailingText
  /-- Lists and objects are nested too deep. -/
  | tooDeep
deriving DecidableEq, Repr

namespace Flaw

/-- The flaw in words. -/
def message : Flaw → String
  | endInList => "EOF while parsing a list"
  | endInObject => "EOF while parsing an object"
  | endInString => "EOF while parsing a string"
  | endInValue => "EOF while parsing a value"
  | noColon => "expected `:`"
  | noListEnd => "expected `,` or `]`"
  | noObjectEnd => "expected `,` or `\x7d`"
  | noWord => "expected ident"
  | noValue => "expected value"
  | badEscape => "invalid escape"
  | badNumber => "invalid number"
  | hugeNumber => "number out of range"
  | controlCharacter =>
    "control character (\\u0000-\\u001F) found while parsing a string"
  | noKey => "key must be a string"
  | loneSurrogate => "lone leading surrogate in hex escape"
  | noSurrogate => "unexpected end of hex escape"
  | trailingComma => "trailing comma"
  | trailingText => "trailing characters"
  | tooDeep => "recursion limit exceeded"

/-- Whether the flaw is that the text ends too early. -/
def isEnd : Flaw → Bool
  | endInList | endInObject | endInString | endInValue => true
  | _ => false

end Flaw

/-! ## Places -/

/-- A place in a text.  Columns count the bytes of the text's encoding. -/
structure Place where
  /-- The number of the line, from one. -/
  line : Nat := 1
  /-- The number of bytes before the place on its line. -/
  column : Nat := 0
deriving DecidableEq, Repr

namespace Place

/-- For each byte of the text whether it ends a line. -/
def lineEnds (t : Text) : List Bool :=
  t.flatMap fun c => if c = '\n' then [true] else List.replicate c.utf8Size false

/-- The place behind the bytes. -/
def after (bytes : List Bool) : Place :=
  bytes.foldl (fun place isEnd =>
    if isEnd then ⟨place.line + 1, 0⟩ else ⟨place.line, place.column + 1⟩) {}

end Place

/-- A flaw in a text, as it is met while reading. -/
structure Stop where
  /-- The flaw. -/
  flaw : Flaw
  /-- What is left of the text. -/
  rest : Text
  /-- How many bytes of what is left have been looked at, of those that there are. -/
  ahead : Nat
deriving DecidableEq, Repr

/-- The place of the stop in the text being read. -/
def Stop.place (stop : Stop) (source : Text) : Place :=
  let bytes := Place.lineEnds source
  .after (bytes.take (bytes.length - (Place.lineEnds stop.rest).length + stop.ahead))

/-! ## Mismatches -/

/-- Why a JSON value does not say what it should. -/
inductive Mismatch where
  /-- The value is of another kind than expected. -/
  | wrongKind (found : Value) (expected : String)
  /-- The value is of the right kind, and still not one of those expected. -/
  | wrongValue (found : Value) (expected : String)
  /-- The list has another length than expected. -/
  | wrongLength (found : Nat) (expected : String)
  /-- The object has no field of the name. -/
  | missingField (name : String)
  /-- The object has two fields of the name. -/
  | duplicateField (name : String)
  /-- The word is none of those known. -/
  | unknownWord (word : Text) (known : List String)
  /-- The value is none of the kinds that the named type allows. -/
  | noAlternative (type : String)

namespace Mismatch

/-- What a value is, in words. -/
def describe : Value → String
  | .null => "null"
  | .bool b => "boolean `" ++ (if b then "true" else "false") ++ "`"
  | .integer n => "integer `" ++ toString n ++ "`"
  | .float x => "floating point `" ++ String.ofList (floatText x) ++ "`"
  | .string t => "string " ++ String.ofList (Text.quoted t)
  | .array _ => "sequence"
  | .object _ => "map"

/-- The mismatch in words. -/
def message : Mismatch → String
  | wrongKind found expected => "invalid type: " ++ describe found ++ ", expected " ++ expected
  | wrongValue found expected => "invalid value: " ++ describe found ++ ", expected " ++ expected
  | wrongLength found expected =>
    "invalid length " ++ toString found ++ ", expected " ++ expected
  | missingField name => "missing field `" ++ name ++ "`"
  | duplicateField name => "duplicate field `" ++ name ++ "`"
  | unknownWord word known =>
    "unknown variant `" ++ String.ofList word ++ "`, expected one of " ++
      ", ".intercalate (known.map fun name => "`" ++ name ++ "`")
  | noAlternative type => "data did not match any variant of untagged enum " ++ type

end Mismatch

/-! ## Errors -/

/-- Why a text is refused. -/
inductive ReadError where
  /-- The text is no JSON; the place is where that shows. -/
  | flaw (flaw : Flaw) (place : Place)
  /-- The JSON does not say what it should. -/
  | mismatch (mismatch : Mismatch)

/-- The reason in words, without the place. -/
def ReadError.message : ReadError → String
  | flaw f _ => f.message
  | mismatch m => m.message

end EquationFigure.Json
