import EquationFigure.Json.Number

/-!
# Writing JSON

How a JSON text may be written, said without any reader: with white space between any two tokens,
characters of strings escaped or not, and numbers with a point, zeros and an exponent as one likes.

* `Tree` — a JSON text without white space and escapes, in which numbers are still digits.
* `Number.Spells`, `Quotes` — how a number and a string may be written.
* `Tree.Writes` — how a tree may be written.
* `Tree.value` — the value that a tree is read as; `Tree.depth` — how deep it is nested.
-/

set_option autoImplicit false

namespace EquationFigure.Json

/-- What a JSON text says, with its numbers as they are written. -/
inductive Tree where
  /-- The word `null`. -/
  | null
  /-- One of the words `true` and `false`. -/
  | bool (b : Bool)
  /-- A number. -/
  | number (n : Number)
  /-- A string. -/
  | string (t : Text)
  /-- A list. -/
  | array (items : List Tree)
  /-- An object: names with what stands behind them. -/
  | object (fields : List (Text × Tree))

/-- White space between tokens. -/
def IsGap (s : Text) : Prop := ∀ c ∈ s, c = ' ' ∨ c = '\t' ∨ c = '\n' ∨ c = '\r'

/-! ## Numbers -/

/-- The text consists of digits. -/
def AreDigits (t : Text) : Prop := ∀ c ∈ t, c.isDigit = true

/-- The digits before the point: a zero alone, or digits that begin with another one. -/
inductive IsWhole : Text → Prop
  | zero : IsWhole ['0']
  | positive {c : Char} {t : Text} : c ≠ '0' → AreDigits (c :: t) → IsWhole (c :: t)

theorem IsWhole.areDigits {t : Text} (h : IsWhole t) : AreDigits t := by
  cases h with
  | zero => exact List.forall_mem_singleton.2 rfl
  | positive _ ht => exact ht

/-- The text is the sign of an exponent. -/
inductive IsSign : (negative : Bool) → Text → Prop
  | minus : IsSign true ['-']
  | plus : IsSign false ['+']
  | none : IsSign false []

/-- The text is the exponent of a number, or nothing if there is none. -/
inductive SpellsExponent : Option Exponent → Text → Prop
  | none : SpellsExponent none []
  | some {e : Exponent} {letter : Char} {sign : Text} : letter = 'e' ∨ letter = 'E' →
    IsSign e.negative sign → e.digits ≠ [] → AreDigits e.digits →
    SpellsExponent (some e) (letter :: (sign ++ e.digits))

/-- The number is written as the text. -/
inductive Number.Spells : Number → Text → Prop
  | mk {n : Number} {exponent : Text} : IsWhole n.whole → AreDigits n.fraction →
    SpellsExponent n.exponent? exponent →
    Number.Spells n ((if n.negative then ['-'] else []) ++
      (n.whole ++ ((if n.fraction = [] then [] else '.' :: n.fraction) ++ exponent)))

/-! ## Strings -/

/-- The letters that stand for a character behind a backslash, with the characters. -/
def escapeLetters : List (Char × Char) :=
  [('"', '"'), ('\\', '\\'), ('/', '/'), ('b', '\x08'), ('f', '\x0C'), ('n', '\n'), ('r', '\r'),
    ('t', '\t')]

/-- The character is a digit to the base sixteen, in either case. -/
def IsHexDigit (n : Nat) (c : Char) : Prop :=
  n < 16 ∧ (c = n.digitChar ∨ c = n.digitChar.toUpper)

instance (n : Nat) (c : Char) : Decidable (IsHexDigit n c) :=
  inferInstanceAs (Decidable (_ ∧ (_ ∨ _)))

/-- The text has four digits to the base sixteen and is the number. -/
inductive IsHex : Nat → Text → Prop
  | mk {n : Nat} {c₃ c₂ c₁ c₀ : Char} : IsHexDigit (n / 0x1000) c₃ →
    IsHexDigit (n / 0x100 % 16) c₂ → IsHexDigit (n / 16 % 16) c₁ → IsHexDigit (n % 16) c₀ →
    IsHex n [c₃, c₂, c₁, c₀]

/-- The string may be written as the second text between quotes.  A character is written as it is,
or by a letter, or by its number, or if that has more than four digits, as a pair of surrogates. -/
inductive Quotes : Text → Text → Prop
  | nil : Quotes [] []
  | plain {c : Char} {s t : Text} : ' ' ≤ c → c ≠ '"' → c ≠ '\\' → Quotes s t →
    Quotes (c :: s) (c :: t)
  | letter {letter c : Char} {s t : Text} : (letter, c) ∈ escapeLetters → Quotes s t →
    Quotes (c :: s) ('\\' :: letter :: t)
  | number {c : Char} {digits s t : Text} : IsHex c.toNat digits → Quotes s t →
    Quotes (c :: s) ('\\' :: 'u' :: (digits ++ t))
  | pair {c : Char} {high low s t : Text} : 0x10000 ≤ c.toNat →
    IsHex (0xD800 + (c.toNat - 0x10000) / 0x400) high →
    IsHex (0xDC00 + (c.toNat - 0x10000) % 0x400) low → Quotes s t →
    Quotes (c :: s) ('\\' :: 'u' :: (high ++ '\\' :: 'u' :: (low ++ t)))

/-! ## Trees -/

/-- What stands between an item and the one before it, if there is one. -/
def separator (first : Bool) : Text := if first then [] else [',']

mutual

/-- The tree may be written as the text. -/
inductive Tree.Writes : Tree → Text → Prop
  | null : Tree.Writes .null ['n', 'u', 'l', 'l']
  | yes : Tree.Writes (.bool true) ['t', 'r', 'u', 'e']
  | no : Tree.Writes (.bool false) ['f', 'a', 'l', 's', 'e']
  | number {n : Number} {t : Text} : n.Spells t → Tree.Writes (.number n) t
  | string {s t : Text} : Quotes s t → Tree.Writes (.string s) ('"' :: (t ++ ['"']))
  | array {items : List Tree} {t : Text} : WritesItems true items t →
    Tree.Writes (.array items) ('[' :: (t ++ [']']))
  | object {fields : List (Text × Tree)} {t : Text} : WritesFields true fields t →
    Tree.Writes (.object fields) ('{' :: (t ++ ['}']))

/-- The items may be written as the text, up to the closing bracket. -/
inductive WritesItems : (first : Bool) → List Tree → Text → Prop
  | nil {first : Bool} {gap : Text} : IsGap gap → WritesItems first [] gap
  | cons {first : Bool} {v : Tree} {items : List Tree} {gap gap' t rest : Text} :
    IsGap gap → IsGap gap' → v.Writes t → WritesItems false items rest →
    WritesItems first (v :: items) (gap ++ (separator first ++ (gap' ++ (t ++ rest))))

/-- The fields may be written as the text, up to the closing bracket. -/
inductive WritesFields : (first : Bool) → List (Text × Tree) → Text → Prop
  | nil {first : Bool} {gap : Text} : IsGap gap → WritesFields first [] gap
  | cons {first : Bool} {key : Text} {v : Tree} {fields : List (Text × Tree)}
    {gap gap' quoted gap₁ gap₂ t rest : Text} :
    IsGap gap → IsGap gap' → Quotes key quoted → IsGap gap₁ → IsGap gap₂ → v.Writes t →
    WritesFields false fields rest →
    WritesFields first ((key, v) :: fields) (gap ++ (separator first ++ (gap' ++
      ('"' :: (quoted ++ ('"' :: (gap₁ ++ (':' :: (gap₂ ++ (t ++ rest))))))))))

end

mutual

/-- The value that the tree is read as. -/
def Tree.value : Tree → Value
  | .null => .null
  | .bool b => .bool b
  | .number n => n.value
  | .string t => .string t
  | .array items => .array (valuesOfItems items)
  | .object fields => .object (valuesOfFields fields)

/-- The values that the items are read as. -/
def valuesOfItems : List Tree → List Value
  | [] => []
  | v :: items => v.value :: valuesOfItems items

/-- The values that the fields are read as, with their names. -/
def valuesOfFields : List (Text × Tree) → List (Text × Value)
  | [] => []
  | (key, v) :: fields => (key, v.value) :: valuesOfFields fields

end

mutual

/-- How deep lists and objects are nested in the tree. -/
def Tree.depth : Tree → Nat
  | .array items => depthOfItems items + 1
  | .object fields => depthOfFields fields + 1
  | _ => 0

/-- The greatest depth of the items. -/
def depthOfItems : List Tree → Nat
  | [] => 0
  | v :: items => max v.depth (depthOfItems items)

/-- The greatest depth of what the fields hold. -/
def depthOfFields : List (Text × Tree) → Nat
  | [] => 0
  | (_, v) :: fields => max v.depth (depthOfFields fields)

end

theorem valuesOfItems_eq_map (items : List Tree) : valuesOfItems items = items.map Tree.value := by
  induction items with
  | nil => rfl
  | cons v items ih => rw [valuesOfItems, ih, List.map_cons]

/-- A field as it is read. -/
def valueOfField (field : Text × Tree) : Text × Value := (field.1, field.2.value)

theorem valuesOfFields_eq_map (fields : List (Text × Tree)) :
    valuesOfFields fields = fields.map valueOfField := by
  induction fields with
  | nil => rfl
  | cons field fields ih => rw [valuesOfFields, ih, List.map_cons, valueOfField]

theorem depth_le_of_mem_items {items : List Tree} {v : Tree} (h : v ∈ items) :
    v.depth ≤ depthOfItems items := by
  induction items with
  | nil => cases h
  | cons w items ih =>
    rw [depthOfItems]
    rcases List.mem_cons.1 h with rfl | h
    · exact Nat.le_max_left _ _
    · exact Nat.le_trans (ih h) (Nat.le_max_right _ _)

theorem depth_le_of_mem_fields {fields : List (Text × Tree)} {field : Text × Tree}
    (h : field ∈ fields) : field.2.depth ≤ depthOfFields fields := by
  induction fields with
  | nil => cases h
  | cons other fields ih =>
    rw [depthOfFields]
    rcases List.mem_cons.1 h with rfl | h
    · exact Nat.le_max_left _ _
    · exact Nat.le_trans (ih h) (Nat.le_max_right _ _)

end EquationFigure.Json
