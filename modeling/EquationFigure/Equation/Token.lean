import EquationFigure.Equation.Operator
import EquationFigure.Decimal.Numeral

/-!
# The tokens of an equation

An equation is never parsed into a tree: it is searched for the next place where something can be
done, and the result is spliced back in.  What can stand at such a place is one of the shapes of
this module.  Each is read greedily at the start of a text, and each reader hands back what is left.

* `firstName?` — the leftmost name of a text, as long as it can be.
* `Operation` — two numerals with an operator between them and white space around it;
  `Operation.scan op` reads one.
* `literal?` — a text that is one number and nothing else but white space.

White space between tokens is core's: space, tab, carriage return and line feed.  `scan_eq_some` and
`firstName?_eq_some` say that a reader loses nothing.
-/

set_option autoImplicit false

namespace EquationFigure

/-! ## Names -/

/-- Whether a name may start with the character. -/
def isNameStart (c : Char) : Bool := c.isAlpha || c == '_'

/-- Whether a name may go on with the character. -/
def isNamePart (c : Char) : Bool := c.isAlphanum || c == '_'

/-- The name at the start of the text and what follows it. -/
def scanName : Text → Option (Text × Text)
  | [] => none
  | c :: t =>
    if isNameStart c then some (c :: t.takeWhile isNamePart, t.dropWhile isNamePart) else none

/-- The leftmost name of the text, with what stands before it and what follows it.  A name may start
right behind a digit. -/
def firstName? : Text → Option (Text × Text × Text)
  | [] => none
  | c :: t =>
    match scanName (c :: t) with
    | some (name, after) => some ([], name, after)
    | none => (firstName? t).map fun (before, name, after) => (c :: before, name, after)

theorem scanName_eq_some {t name after : Text} (h : scanName t = some (name, after)) :
    t = name ++ after := by
  unfold scanName at h
  split at h
  · simp at h
  · split at h
    · simp only [Option.some.injEq, Prod.mk.injEq] at h
      obtain ⟨rfl, rfl⟩ := h
      simp
    · simp at h

theorem firstName?_eq_some {t before name after : Text}
    (h : firstName? t = some (before, name, after)) : t = before ++ (name ++ after) := by
  induction t generalizing before with
  | nil => simp [firstName?] at h
  | cons c t ih =>
    unfold firstName? at h
    split at h
    · rename_i hscan
      simp only [Option.some.injEq, Prod.mk.injEq] at h
      obtain ⟨rfl, rfl, rfl⟩ := h
      simpa using scanName_eq_some hscan
    · simp only [Option.map_eq_some_iff, Prod.exists] at h
      obtain ⟨before', name', after', h', heq⟩ := h
      simp only [Prod.mk.injEq] at heq
      obtain ⟨rfl, rfl, rfl⟩ := heq
      simp [ih h']

/-! ## White space -/

/-- The white space at the start of the text. -/
def leadingSpace (t : Text) : Text := t.takeWhile Char.isWhitespace

/-- The text without the white space at its start. -/
def dropSpace (t : Text) : Text := t.dropWhile Char.isWhitespace

theorem leadingSpace_append_dropSpace (t : Text) : leadingSpace t ++ dropSpace t = t :=
  List.takeWhile_append_dropWhile

/-! ## Operations -/

/-- Two numerals with an operator between them, as they are written. -/
structure Operation where
  /-- The left operand. -/
  lhs : Numeral
  /-- The white space before the operator. -/
  spaceBefore : Text
  /-- The operator. -/
  operator : Operator
  /-- The white space behind the operator. -/
  spaceAfter : Text
  /-- The right operand. -/
  rhs : Numeral
deriving DecidableEq, Repr

namespace Operation

/-- The operation as it is written. -/
def text (o : Operation) : Text :=
  o.lhs.text ++ o.spaceBefore ++ o.operator.symbol ++ o.spaceAfter ++ o.rhs.text

/-- Reads an operation with the given operator at the start of the text. -/
def scan (op : Operator) (t : Text) : Option (Operation × Text) :=
  match Numeral.scan t with
  | none => none
  | some (lhs, t₁) =>
    match Text.dropStart? op.symbol (dropSpace t₁) with
    | none => none
    | some t₂ =>
      match Numeral.scan (dropSpace t₂) with
      | none => none
      | some (rhs, rest) => some (⟨lhs, leadingSpace t₁, op, leadingSpace t₂, rhs⟩, rest)

/-- What was read and what is left make up the text. -/
theorem scan_eq_some {op : Operator} {t rest : Text} {o : Operation}
    (h : scan op t = some (o, rest)) : t = o.text ++ rest := by
  unfold scan at h
  split at h
  · simp at h
  · rename_i lhs t₁ hlhs
    split at h
    · simp at h
    · rename_i t₂ hop
      split at h
      · simp at h
      · rename_i rhs rest' hrhs
        simp only [Option.some.injEq, Prod.mk.injEq] at h
        obtain ⟨rfl, rfl⟩ := h
        have h₁ := leadingSpace_append_dropSpace t₁
        have h₂ := leadingSpace_append_dropSpace t₂
        rw [Numeral.scan_eq_some hrhs] at h₂
        rw [Text.dropStart?_eq_some_iff.1 hop, ← h₂] at h₁
        rw [Numeral.scan_eq_some hlhs]
        simpa [text] using h₁.symm

/-- The value of the operation. -/
def value (o : Operation) : Except EvalError Float :=
  o.operator.apply o.lhs.value o.rhs.value o.text

end Operation

/-! ## Single numbers -/

/-- The numeral that the text consists of, with at most white space around it and a plus sign in
front. -/
def literal? (t : Text) : Option Numeral :=
  let unsigned := match dropSpace t with
    | '+' :: rest => rest
    | rest => rest
  match Numeral.scan unsigned with
  | some (n, rest) => if rest.all Char.isWhitespace then some n else none
  | none => none

/-- The number that the text consists of. -/
def readValue (t : Text) : Except EvalError Float :=
  let trimmed := Text.trim t
  if trimmed = [] then .error .emptyExpression
  else
    match literal? t with
    | some n => .ok n.value
    | none => .error (.parseFailure trimmed)

end EquationFigure
