import EquationFigure.Text.Basic

/-!
# Characters that markup cannot hold as they are

Five characters have a meaning of their own in markup.  `escape` writes each of them as an entity,
in attribute values and in text alike, so that nothing in a value can end it; `unescape?` reads the
entities back.
-/

set_option autoImplicit false

namespace EquationFigure.Svg

/-- The entity of a character that cannot stand for itself. -/
def entity? : Char → Option Text
  | '<' => some ['&', 'l', 't', ';']
  | '>' => some ['&', 'g', 't', ';']
  | '&' => some ['&', 'a', 'm', 'p', ';']
  | '\'' => some ['&', 'a', 'p', 'o', 's', ';']
  | '"' => some ['&', 'q', 'u', 'o', 't', ';']
  | _ => none

/-- The character as it is written. -/
def escapeChar (c : Char) : Text := (entity? c).getD [c]

/-- The text as it is written. -/
def escape (t : Text) : Text := t.flatMap escapeChar

/-- The text that was written like this.  A lone ampersand is not read. -/
def unescape? : Text → Option Text
  | [] => some []
  | '&' :: 'l' :: 't' :: ';' :: t => (unescape? t).map ('<' :: ·)
  | '&' :: 'g' :: 't' :: ';' :: t => (unescape? t).map ('>' :: ·)
  | '&' :: 'a' :: 'm' :: 'p' :: ';' :: t => (unescape? t).map ('&' :: ·)
  | '&' :: 'a' :: 'p' :: 'o' :: 's' :: ';' :: t => (unescape? t).map ('\'' :: ·)
  | '&' :: 'q' :: 'u' :: 'o' :: 't' :: ';' :: t => (unescape? t).map ('"' :: ·)
  | c :: t => if c = '&' then none else (unescape? t).map (c :: ·)

theorem escape_cons (c : Char) (t : Text) : escape (c :: t) = escapeChar c ++ escape t := rfl

theorem ne_ampersand_of_entity?_eq_none {c : Char} (h : entity? c = none) : c ≠ '&' := by
  rintro rfl
  simp [entity?] at h

/-- Reading what was written gives the text. -/
theorem unescape?_escape (t : Text) : unescape? (escape t) = some t := by
  induction t with
  | nil => rfl
  | cons c t ih =>
    rw [escape_cons, escapeChar]
    cases hc : entity? c with
    | none =>
      have hne := ne_ampersand_of_entity?_eq_none hc
      simp only [Option.getD_none, List.singleton_append]
      unfold unescape?
      split <;> simp_all
    | some e =>
      unfold entity? at hc
      split at hc <;> simp_all <;> subst hc <;> simp [unescape?, ih]

/-- What is written holds no character that could end a value or open a tag. -/
theorem not_mem_escape (t : Text) {c : Char} (h : c = '<' ∨ c = '>' ∨ c = '"') :
    c ∉ escape t := by
  intro hmem
  obtain ⟨d, -, hd⟩ := List.mem_flatMap.1 hmem
  unfold escapeChar at hd
  cases hentity : entity? d with
  | none =>
    rw [hentity] at hd
    simp only [Option.getD_none, List.mem_singleton] at hd
    subst hd
    rcases h with h | h | h <;> subst h <;> simp [entity?] at hentity
  | some e =>
    rw [hentity] at hd
    simp only [Option.getD_some] at hd
    unfold entity? at hentity
    split at hentity <;> simp_all <;> subst hentity <;> rcases h with h | h | h <;> subst h <;>
      simp at hd

end EquationFigure.Svg
