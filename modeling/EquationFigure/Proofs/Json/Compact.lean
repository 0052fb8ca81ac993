import EquationFigure.Proofs.Json.Writing
import Mathlib.Data.List.Forall2

/-!
# One way of writing

Of all ways in which a tree may be written, the one without white space, put together from what is
written within.  Every string can be written, whatever characters it has.

* `quotedText`, `arrayText`, `objectText` — a string, a list and an object written.
* `writes_array`, `writes_object` — a list and an object are written so.
* `quotes_self`, `exists_quotes` — how strings are written.
-/

set_option autoImplicit false

namespace EquationFigure.Json

/-! ## Texts -/

/-- A string between its quotes. -/
def quotedText (t : Text) : Text := '"' :: (t ++ ['"'])

/-- Items one after the other. -/
def itemsText : (first : Bool) → List Text → Text
  | _, [] => []
  | first, t :: items => separator first ++ (t ++ itemsText false items)

/-- A list. -/
def arrayText (items : List Text) : Text := '[' :: (itemsText true items ++ [']'])

/-- Fields one after the other, each a key without its quotes and a value. -/
def fieldsText : (first : Bool) → List (Text × Text) → Text
  | _, [] => []
  | first, (key, t) :: fields =>
    separator first ++ ('"' :: (key ++ ('"' :: ':' :: (t ++ fieldsText false fields))))

/-- An object. -/
def objectText (fields : List (Text × Text)) : Text :=
  '\x7b' :: (fieldsText true fields ++ ['\x7d'])

/-! ## Lists and objects -/

theorem isGap_nil : IsGap [] := List.forall_mem_nil _

theorem writes_array {items : List Tree} {texts : List Text}
    (h : List.Forall₂ Tree.Writes items texts) : (Tree.array items).Writes (arrayText texts) := by
  have hitems : ∀ first, WritesItems first items (itemsText first texts) := by
    induction h with
    | nil => exact fun first => .nil isGap_nil
    | cons ht _ ih => exact fun first => .cons isGap_nil isGap_nil ht (ih false)
  exact .array (hitems true)

/-- A field is written as its key and its value. -/
inductive WritesField : Text × Tree → Text × Text → Prop
  | mk {key quoted t : Text} {v : Tree} : Quotes key quoted → v.Writes t →
    WritesField (key, v) (quoted, t)

theorem writes_object {fields : List (Text × Tree)} {texts : List (Text × Text)}
    (h : List.Forall₂ WritesField fields texts) :
    (Tree.object fields).Writes (objectText texts) := by
  have hfields : ∀ first, WritesFields first fields (fieldsText first texts) := by
    induction h with
    | nil => exact fun first => .nil isGap_nil
    | cons hfield _ ih =>
      obtain ⟨hkey, ht⟩ := hfield
      exact fun first => .cons isGap_nil isGap_nil hkey isGap_nil isGap_nil ht (ih false)
  exact .object (hfields true)

/-! ## Strings -/

/-- A string without quotes, backslashes and control characters may be written as it is. -/
theorem quotes_self {s : Text} (h : ∀ c ∈ s, ' ' ≤ c ∧ c ≠ '"' ∧ c ≠ '\\') : Quotes s s := by
  induction s with
  | nil => exact .nil
  | cons c s ih =>
    obtain ⟨⟨hspace, hquote, hslash⟩, hs⟩ := List.forall_mem_cons.1 h
    exact .plain hspace hquote hslash (ih hs)

/-- A number of at most four digits to the base sixteen. -/
theorem isHex_digits {n : Nat} (h : n < 0x10000) :
    IsHex n [(n / 0x1000).digitChar, (n / 0x100 % 16).digitChar, (n / 16 % 16).digitChar,
      (n % 16).digitChar] :=
  .mk ⟨by omega, .inl rfl⟩ ⟨by omega, .inl rfl⟩ ⟨by omega, .inl rfl⟩ ⟨by omega, .inl rfl⟩

/-- **Every string can be written.** -/
theorem exists_quotes (s : Text) : ∃ t, Quotes s t := by
  induction s with
  | nil => exact ⟨[], .nil⟩
  | cons c s ih =>
    obtain ⟨t, ht⟩ := ih
    by_cases hspace : ' ' ≤ c
    · by_cases hplain : c ≠ '"' ∧ c ≠ '\\'
      · exact ⟨_, .plain hspace hplain.1 hplain.2 ht⟩
      · have hletter : (c, c) ∈ escapeLetters := by
          rw [not_and_or, not_not, not_not] at hplain
          rcases hplain with rfl | rfl <;> simp [escapeLetters]
        exact ⟨_, .letter hletter ht⟩
    · have hcontrol : c.toNat < ' '.toNat := Char.not_le.1 hspace
      exact ⟨_, .number (isHex_digits (Nat.lt_trans hcontrol (by decide))) ht⟩

end EquationFigure.Json
