import EquationFigure.Equation.Reduction

/-!
# Resolving parentheses

Groups are resolved in the order in which they open.  What follows the first `(` is resolved as a
text of its own, one level deeper; that goes on until it meets a `)` that it did not open, replaces
all before it by its value, and hands the result back to take the place of the `(` and what followed
it.

* `Resolved` — how far resolving a text gets: to its end, or to a `)` of an enclosing group.
* `resolveGroups limit levels` — resolves a text when `levels` more levels of nesting are allowed.
-/

set_option autoImplicit false

namespace EquationFigure

/-- What became of a text whose groups were resolved. -/
inductive Resolved where
  /-- The text had the given value. -/
  | value (x : Float)
  /-- The text had a closing parenthesis without an opening one; the value of what stands before it
  and what follows it make up `rest`. -/
  | closed (rest : Text)

/-- Whether the character is a parenthesis. -/
def isParen (c : Char) : Bool := c == '(' || c == ')'

/-- The first parenthesis of the text, with what stands before it and what follows it. -/
def firstParen? : Text → Option (Text × Char × Text)
  | [] => none
  | c :: t =>
    if isParen c then some ([], c, t)
    else (firstParen? t).map fun (before, paren, after) => (c :: before, paren, after)

theorem firstParen?_eq_some {t before after : Text} {paren : Char}
    (h : firstParen? t = some (before, paren, after)) : t = before ++ paren :: after := by
  induction t generalizing before with
  | nil => simp [firstParen?] at h
  | cons c t ih =>
    unfold firstParen? at h
    split at h
    · simp only [Option.some.injEq, Prod.mk.injEq] at h
      obtain ⟨rfl, rfl, rfl⟩ := h
      rfl
    · simp only [Option.map_eq_some_iff, Prod.exists] at h
      obtain ⟨before', paren', after', h', heq⟩ := h
      simp only [Prod.mk.injEq] at heq
      obtain ⟨rfl, rfl, rfl⟩ := heq
      simp [ih h']

/-- Evaluates what stands before a closing parenthesis. -/
def closeGroup (depth : Nat) (before after : Text) : EvalM Resolved := do
  let value ← reduce before
  let rest := numberText value ++ after
  EvalM.record (.closedGroup value depth rest)
  return .closed rest

/-- Resolves at most `groups` groups of the text one after the other; `nested` resolves what follows
an opening parenthesis. -/
def resolveEach (nested : Text → EvalM Resolved) (depth groups : Nat) (t : Text) :
    EvalM Resolved :=
  match firstParen? t with
  | none => do return .value (← reduce t)
  | some (before, paren, after) =>
    if paren = ')' then closeGroup depth before after
    else if ')' ∉ after then .fail (.parenthesisMismatch t)
    else
      match groups with
      | 0 => .fail (.parenthesisMismatch t)
      | groups + 1 => do
        match ← nested after with
        | .value _ => .fail (.parenthesisMismatch t)
        | .closed rest =>
          let rewritten := before ++ rest
          EvalM.record (.resolvedGroup depth rewritten)
          resolveEach nested depth groups rewritten

/-- Resolves the groups of a text, when `levels` of the `limit + 1` levels of nesting are left.
Each group that is resolved takes a `(` away, so there are at most as many of them. -/
def resolveGroups (limit : Nat) : (levels : Nat) → Text → EvalM Resolved
  | 0, _ => .fail (.depthExceeded limit)
  | levels + 1, t =>
    resolveEach (resolveGroups limit levels) (limit - levels) (t.count '(') t

end EquationFigure
