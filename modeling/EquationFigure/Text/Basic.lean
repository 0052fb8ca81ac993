/-!
# Texts

Equations, names and attribute values are kept as lists of characters.  Everything here is built
by cutting a text at a place and splicing something back in, and on a list both are the standard
operations, with the standard lemmas.

* `Text.isBlank` — the Unicode property White_Space, the widest of the two notions of white space
  in use: it decides what is trimmed.  The narrower one, which separates the tokens of an
  equation, is core's `Char.isWhitespace`; `isBlank_of_isWhitespace` says that it is narrower.
* `Text.trimStart`, `Text.trimEnd`, `Text.trim` — a text without the blanks at its ends.
* `Text.sameIgnoringCase` — equality up to the case of the letters `A` to `Z`.
* `Text.dropStart?` — cuts off a given start.
* `Text.joinWith` — texts one after the other with a separator between them.
-/

set_option autoImplicit false

namespace EquationFigure

/-- A text is the list of its characters. -/
abbrev Text := List Char

namespace Text

/-! ## White space -/

/-- The code points with the Unicode property White_Space, as closed ranges in ascending order. -/
def blankRanges : List (Nat × Nat) :=
  [(0x09, 0x0D), (0x20, 0x20), (0x85, 0x85), (0xA0, 0xA0), (0x1680, 0x1680), (0x2000, 0x200A),
   (0x2028, 0x2029), (0x202F, 0x202F), (0x205F, 0x205F), (0x3000, 0x3000)]

/-- Whether the character has the Unicode property White_Space. -/
def isBlank (c : Char) : Bool :=
  blankRanges.any fun r => r.1 ≤ c.toNat && c.toNat ≤ r.2

theorem isBlank_of_isWhitespace {c : Char} (h : c.isWhitespace = true) : isBlank c = true := by
  simp only [Char.isWhitespace, Bool.or_eq_true, decide_eq_true_eq] at h
  rcases h with ((rfl | rfl) | rfl) | rfl
  all_goals decide

-- A zero width space is no blank, though it prints as nothing.
example : isBlank '\u200b' = false := by decide

/-! ## Trimming -/

/-- The text without its leading blanks. -/
def trimStart (t : Text) : Text := t.dropWhile isBlank

/-- The text without its trailing blanks. -/
def trimEnd (t : Text) : Text := (t.reverse.dropWhile isBlank).reverse

/-- The text without the blanks at either end. -/
def trim (t : Text) : Text := trimEnd (trimStart t)

@[simp] theorem trimStart_nil : trimStart [] = [] := rfl

theorem trimStart_cons_of_blank {c : Char} {t : Text} (h : isBlank c = true) :
    trimStart (c :: t) = trimStart t := by
  simp [trimStart, h]

theorem trimStart_cons_of_not_blank {c : Char} {t : Text} (h : isBlank c = false) :
    trimStart (c :: t) = c :: t := by
  simp [trimStart, h]

/-! ## Comparing, cutting and joining -/

/-- Whether two texts differ at most in the case of the letters `A` to `Z`. -/
def sameIgnoringCase (s t : Text) : Bool := s.map Char.toLower == t.map Char.toLower

/-- What follows `start` in the text, if the text starts with it. -/
def dropStart? : (start t : Text) → Option Text
  | [], t => some t
  | _ :: _, [] => none
  | c :: start, d :: t => if c = d then dropStart? start t else none

theorem dropStart?_eq_some_iff {start t rest : Text} :
    dropStart? start t = some rest ↔ t = start ++ rest := by
  fun_induction dropStart? start t <;> simp_all [eq_comm]

/-- The texts one after the other, with `separator` between each two neighbours. -/
def joinWith (separator : Text) (texts : List Text) : Text := separator.intercalate texts

end Text

end EquationFigure
