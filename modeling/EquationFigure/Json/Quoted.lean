import EquationFigure.Json.Error

/-!
# Strings in JSON

A string is written between quotes.  In it, a backslash begins an escape, which stands for a
character; a character beyond the first `2 ^ 16` is escaped by a pair of surrogates.

* `scanEscape` — the character of an escape and how many characters the escape takes.
* `scanQuoted` — the string up to the closing quote.
* `skipQuoted` — reads over a string without working out what its escapes stand for.
-/

set_option autoImplicit false

namespace EquationFigure.Json

/-! ## Escapes -/

/-- The character that a one-letter escape stands for. -/
def letterEscape? : Char → Option Char
  | '"' => some '"'
  | '\\' => some '\\'
  | '/' => some '/'
  | 'b' => some '\x08'
  | 'f' => some '\x0C'
  | 'n' => some '\n'
  | 'r' => some '\r'
  | 't' => some '\t'
  | _ => none

/-- The value of a hexadecimal digit. -/
def hexValue? (c : Char) : Option Nat :=
  if c.isDigit then some (c.toNat - '0'.toNat)
  else if 'a' ≤ c ∧ c ≤ 'f' then some (c.toNat - 'a'.toNat + 10)
  else if 'A' ≤ c ∧ c ≤ 'F' then some (c.toNat - 'A'.toNat + 10)
  else none

/-- The number that hexadecimal digits behind those of `n` make. -/
def hexNumber? (n : Nat) : Text → Option Nat
  | [] => some n
  | c :: t => (hexValue? c).bind fun d => hexNumber? (16 * n + d) t

/-- The number that the four hexadecimal digits at the start of the text make. -/
def scanHex (t : Text) : Except Stop Nat :=
  let digits := t.take 4
  if (Place.lineEnds digits).length < 4 then .error ⟨.endInString, [], 0⟩
  else
    match digits.length, hexNumber? 0 digits with
    | 4, some n => .ok n
    | _, _ => .error ⟨.badEscape, t, 4⟩

/-- Whether the number is the first half of a pair of surrogates. -/
def isHighSurrogate (n : Nat) : Bool := 0xD800 ≤ n && n < 0xDC00

/-- Whether the number is the second half of a pair of surrogates. -/
def isLowSurrogate (n : Nat) : Bool := 0xDC00 ≤ n && n < 0xE000

/-- Reads the escape of the second half of a pair of surrogates. -/
def scanLowSurrogate : Text → Except Stop Nat
  | [] | ['\\'] => .error ⟨.endInString, [], 0⟩
  | '\\' :: 'u' :: t => do
    let low ← scanHex t
    if isLowSurrogate low then .ok low else .error ⟨.loneSurrogate, t.drop 4, 0⟩
  | '\\' :: t => .error ⟨.noSurrogate, t, 1⟩
  | t => .error ⟨.noSurrogate, t, 1⟩

/-- Reads an escape by number behind its letter `u`: the character and how many characters stand for
it from the letter on. -/
def scanNumberEscape (t : Text) : Except Stop (Char × Nat) := do
  let n ← scanHex t
  if isLowSurrogate n then .error ⟨.loneSurrogate, t.drop 4, 0⟩
  else if isHighSurrogate n then do
    let low ← scanLowSurrogate (t.drop 4)
    return (Char.ofNat (0x10000 + (n - 0xD800) * 0x400 + (low - 0xDC00)), 11)
  else return (Char.ofNat n, 5)

/-- Reads an escape behind its backslash: the character and how many characters stand for it. -/
def scanEscape : Text → Except Stop (Char × Nat)
  | [] => .error ⟨.endInString, [], 0⟩
  | 'u' :: t => scanNumberEscape t
  | c :: t =>
    match letterEscape? c with
    | some d => .ok (d, 1)
    | none => .error ⟨.badEscape, c :: t, 1⟩

/-! ## Strings -/

/-- Reads a string up to its closing quote, without the first `n` characters, which belong to an
escape read before. -/
def scanQuotedAfter : (n : Nat) → Text → Except Stop (Text × Text)
  | _, [] => .error ⟨.endInString, [], 0⟩
  | n + 1, _ :: t => scanQuotedAfter n t
  | 0, '"' :: t => .ok ([], t)
  | 0, '\\' :: t => do
    let (c, n) ← scanEscape t
    let (s, rest) ← scanQuotedAfter n t
    return (c :: s, rest)
  | 0, c :: t =>
    if c < ' ' then .error ⟨.controlCharacter, c :: t, 1⟩
    else do
      let (s, rest) ← scanQuotedAfter 0 t
      return (c :: s, rest)

theorem scanQuotedAfter_eq_drop {n : Nat} {t : Text} (h : n ≤ t.length) :
    scanQuotedAfter n t = scanQuotedAfter 0 (t.drop n) := by
  induction n generalizing t with
  | zero => rfl
  | succ n ih =>
    cases t with
    | nil => simp at h
    | cons c t => simpa [scanQuotedAfter] using ih (Nat.le_of_succ_le_succ h)

/-- Reads a string behind its opening quote. -/
def scanQuoted (t : Text) : Except Stop (Text × Text) := scanQuotedAfter 0 t

/-- How many characters the escape takes that follows a backslash.  Half a pair of surrogates is as
good as any other number. -/
def skipEscape : Text → Except Stop Nat
  | [] => .error ⟨.endInString, [], 0⟩
  | 'u' :: t => do
    let _ ← scanHex t
    return 5
  | c :: t => if (letterEscape? c).isSome then .ok 1 else .error ⟨.badEscape, c :: t, 1⟩

/-- Reads over a string up to its closing quote, without the first `n` characters. -/
def skipQuotedAfter : (n : Nat) → Text → Except Stop (Unit × Text)
  | _, [] => .error ⟨.endInString, [], 0⟩
  | n + 1, _ :: t => skipQuotedAfter n t
  | 0, '"' :: t => .ok ((), t)
  | 0, '\\' :: t => do
    let n ← skipEscape t
    skipQuotedAfter n t
  | 0, c :: t =>
    if c < ' ' then .error ⟨.controlCharacter, c :: t, 0⟩ else skipQuotedAfter 0 t

/-- Reads over a string behind its opening quote. -/
def skipQuoted (t : Text) : Except Stop (Unit × Text) := skipQuotedAfter 0 t

end EquationFigure.Json
