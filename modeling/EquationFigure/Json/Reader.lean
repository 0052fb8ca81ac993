import EquationFigure.Attempt
import EquationFigure.Json.Number
import EquationFigure.Json.Quoted

/-!
# Reading JSON

A `Reader` takes what it reads off the front of a text.  A list or an object is read from its
opening bracket on by a reader for what is inside; so what a document says is worked out while its
text is being read, and the first thing wrong with it is found first.

* `Reader.list`, `Reader.object` — a list of things, and an object taken up field by field.
* `Reader.value` — a value of any kind, read whole, with lists and objects nested at most as deep as
  said.
* `Reader.byKind` — a reader chosen by the kind of the value that comes next; `Reader.unexpected`
  refuses every kind.
* `Reader.complete` — reads a text that holds one thing and nothing else.
-/

set_option autoImplicit false

namespace EquationFigure.Json

/-- Why reading ends before its end. -/
inductive ReadFault where
  /-- The text is no JSON. -/
  | stop (stop : Stop)
  /-- The JSON does not say what it should. -/
  | mismatch (mismatch : Mismatch)

/-- Reading from a text: the state is what is left of it. -/
abbrev Reader := Attempt Text ReadFault

/-- How deep lists and objects may be nested. -/
def nestingLimit : Nat := 127

namespace Reader

variable {α σ : Type}

/-! ## Steps -/

/-- Ends because of a flaw that shows `ahead` bytes into what is left. -/
def stop (flaw : Flaw) (ahead : Nat) : Reader α :=
  ⟨fun t => (.error (.stop ⟨flaw, t, ahead⟩), t)⟩

/-- Reads what the scan finds at the front of the text. -/
def scanned (scan : Text → Except Stop (α × Text)) : Reader α :=
  ⟨fun t =>
    match scan t with
    | .ok (a, rest) => (.ok a, rest)
    | .error stop => (.error (.stop stop), t)⟩

/-- What a value read says, or why it says nothing. -/
def interpreted : Except Mismatch α → Reader α
  | .ok a => pure a
  | .error m => .fail (.mismatch m)

/-- Takes the next character. -/
def advance : Reader Unit := .update List.tail

/-- Takes the white space and looks at the character behind it. -/
def next? : Reader (Option Char) :=
  ⟨fun t => let rest := t.dropWhile Char.isWhitespace; (.ok rest.head?, rest)⟩

/-- How many steps are enough for whatever takes a character with every step. -/
def steps : Reader Nat := .read fun t => t.length + 1

/-! ## Values that are neither lists nor objects -/

/-- Splits a word off the front of the text. -/
def scanWord : (word t : Text) → Except Stop (Unit × Text)
  | [], t => .ok ((), t)
  | _ :: _, [] => .error ⟨.endInValue, [], 0⟩
  | c :: word, d :: t => if c = d then scanWord word t else .error ⟨.noWord, d :: t, 1⟩

theorem scanWord_eq_ok_iff {word t rest : Text} :
    scanWord word t = .ok ((), rest) ↔ t = word ++ rest := by
  fun_induction scanWord word t <;> simp_all [eq_comm]

/-- Reads the word, which stands for a value. -/
def word (t : Text) (v : Value) : Reader Value := do
  scanned (scanWord t)
  return v

/-- Reads a string, of which the opening quote comes next. -/
def quoted : Reader Text := do
  advance
  scanned scanQuoted

/-- The reader for a value that begins with the character, unless it is a list or an object. -/
def simple? : Char → Option (Reader Value)
  | 'n' => some (word ['n', 'u', 'l', 'l'] .null)
  | 't' => some (word ['t', 'r', 'u', 'e'] (.bool true))
  | 'f' => some (word ['f', 'a', 'l', 's', 'e'] (.bool false))
  | '"' => some (.string <$> quoted)
  | c => if c = '-' ∨ c.isDigit then some (scanned scanNumber) else none

/-! ## Lists -/

/-- Whether another item of a list follows.  The comma before it is taken. -/
def hasItem (first : Bool) : Reader Bool := do
  match first, ← next? with
  | _, none => stop .endInList 1
  | _, some ']' => return false
  | true, some _ => return true
  | false, some ',' =>
    advance
    match ← next? with
    | none => stop .endInValue 1
    | some ']' => stop .trailingComma 1
    | some _ => return true
  | false, some _ => stop .noListEnd 1

/-- Reads the items of a list up to the closing bracket, in at most so many steps. -/
def itemsWithin (item : Reader α) (first : Bool) : (steps : Nat) → Reader (List α)
  | 0 => stop .endInList 1
  | steps + 1 => do
    if ← hasItem first then
      let a ← item
      return a :: (← itemsWithin item false steps)
    else return []

/-- Reads a list whose opening bracket comes next. -/
def list (item : Reader α) : Reader (List α) := do
  advance
  let l ← itemsWithin item true (← steps)
  advance
  return l

/-- Takes the closing bracket of a list that may have more items than were asked for. -/
def closeList : Reader Unit := do
  match ← next? with
  | none => stop .endInList 1
  | some ']' => advance
  | some ',' =>
    advance
    match ← next? with
    | some ']' => stop .trailingComma 1
    | _ => stop .trailingText 1
  | some _ => stop .trailingText 1

/-! ## Objects -/

/-- Whether another field of an object follows.  The comma before it is taken. -/
def hasField (first : Bool) : Reader Bool := do
  match first, ← next? with
  | _, none => stop .endInObject 1
  | _, some '}' => return false
  | true, some '"' => return true
  | true, some _ => stop .noKey 1
  | false, some ',' =>
    advance
    match ← next? with
    | none => stop .endInValue 1
    | some '"' => return true
    | some '}' => stop .trailingComma 1
    | some _ => stop .noKey 1
  | false, some _ => stop .noObjectEnd 1

/-- Takes the colon between a key and its value, and reads the value. -/
def afterColon (value : Reader α) : Reader α := do
  match ← next? with
  | none => stop .endInObject 1
  | some ':' =>
    advance
    value
  | some _ => stop .noColon 1

/-- Reads the fields of an object up to the closing bracket, in at most so many steps. -/
def fieldsWithin (field : σ → Text → Reader σ) (first : Bool) : (steps : Nat) → σ → Reader σ
  | 0, _ => stop .endInObject 1
  | steps + 1, s => do
    if ← hasField first then
      let key ← quoted
      let s ← field s key
      fieldsWithin field false steps s
    else return s

/-- Reads an object whose opening bracket comes next.  `field` takes up the next field, of which the
key has been read, into what the fields before have given. -/
def object (field : σ → Text → Reader σ) (s : σ) : Reader σ := do
  advance
  let s ← fieldsWithin field true (← steps) s
  advance
  return s

/-! ## Values of any kind -/

/-- Reads what comes next as its kind says: a list or an object by the given readers, of which the
opening bracket is left to them, and any other value whole. -/
def byKind (list object : Reader α) (simple : Value → Reader α) : Reader α := do
  match ← next? with
  | none => stop .endInValue 1
  | some '[' => list
  | some '{' => object
  | some c =>
    let v ← (simple? c).getD (stop .noValue 1)
    simple v

/-- Refuses a value because another kind is expected. -/
def refuse (expected : String) (found : Value) : Reader α :=
  .fail (.mismatch (.wrongKind found expected))

/-- Refuses the value that comes next.  A list or an object is refused at its opening bracket. -/
def unexpected (expected : String) : Reader α :=
  byKind (refuse expected (.array [])) (refuse expected (.object [])) (refuse expected)

/-- Takes up a field with the value that `value` reads. -/
def keep (value : Reader Value) (fields : List (Text × Value)) (key : Text) :
    Reader (List (Text × Value)) := do
  return fields ++ [(key, ← afterColon value)]

/-- Reads a value of any kind whose lists and objects are nested at most so deep. -/
def value : (levels : Nat) → Reader Value
  | 0 => byKind (stop .tooDeep 1) (stop .tooDeep 1) pure
  | levels + 1 =>
    byKind (.array <$> list (value levels)) (.object <$> object (keep (value levels)) []) pure

/-! ## Whole texts -/

/-- Reads a text that holds one thing, with white space around it. -/
def complete (thing : Reader α) (source : Text) : Except ReadError α :=
  let whole : Reader α := do
    let a ← thing
    match ← next? with
    | none => return a
    | some _ => stop .trailingText 1
  match (whole.run source).1 with
  | .ok a => .ok a
  | .error (.stop stop) => .error (.flaw stop.flaw (stop.place source))
  | .error (.mismatch m) => .error (.mismatch m)

end Reader

end EquationFigure.Json
