import EquationFigure.Text.Hidden

/-!
# Quoted texts

Messages show a text that they found in double quotes, on one line, with an escape for each
character that would not show.
-/

set_option autoImplicit false

namespace EquationFigure.Text

/-- The code of a character in lower-case hexadecimal digits. -/
def hexCode (c : Char) : Text := Nat.toDigits 16 c.toNat

/-- The character as it stands between double quotes.  A character that does not show by itself is
escaped, most of them by their code. -/
def quotedChar (c : Char) : Text :=
  match c with
  | '"' => ['\\', '"']
  | '\\' => ['\\', '\\']
  | '\n' => ['\\', 'n']
  | '\r' => ['\\', 'r']
  | '\t' => ['\\', 't']
  | '\x00' => ['\\', '0']
  | c =>
    if isHidden c then '\\' :: 'u' :: '\x7b' :: hexCode c ++ ['\x7d'] else [c]

/-- The text in double quotes. -/
def quoted (t : Text) : Text := '"' :: t.flatMap quotedChar ++ ['"']

end EquationFigure.Text
