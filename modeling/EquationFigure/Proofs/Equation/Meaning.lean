import EquationFigure.Proofs.Equation.Grammar
import EquationFigure.Proofs.Equation.LookUp

/-!
# What equations mean

The value of a syntax tree is worked out bottom up: every operation is applied to the values of its
operands, and a name has the value of what is declared under it.  Wherever a value is written down
and read again, a negative zero loses its sign.

* `Denotes vars e x` — the tree has the value; `Fails vars e err` — an operation in it fails.
* `Agrees vars e r` — the outcome `r` is what the tree says.
* `Simplifies vars e e'` — the second tree means the same as the first and can take its place.
* `Reaches`, `Ready` — the trees that a tree refers to, and the conditions under which the tree can
  be evaluated.
-/

set_option autoImplicit false

namespace EquationFigure

namespace Expr

/-- The names in the tree, from left to right. -/
def names : Expr → List Text
  | literal _ => []
  | name t => [t]
  | group _ e _ => e.names
  | operation l _ _ _ r => l.names ++ r.names

/-- How deep groups are nested in the tree. -/
def nesting : Expr → Nat
  | literal _ | name _ => 0
  | group _ e _ => e.nesting + 1
  | operation l _ _ _ r => max l.nesting r.nesting

/-- The numerals in the tree are not too great for a double. -/
def InRange : Expr → Prop
  | literal n => n.InRange
  | name _ => True
  | group _ e _ => e.InRange
  | operation l _ _ _ r => l.InRange ∧ r.InRange

end Expr

open EquationFigure.Expr

/-! ## Values and failures -/

/-- The value of a tree over a table of variables. -/
inductive Denotes (vars : Variables) : Expr → Float → Prop
  /-- A numeral stands for itself. -/
  | literal (n : Numeral) : Denotes vars (.literal n) n.value
  /-- A name may stand for a number. -/
  | number {t : Text} {x : Float} : vars.value t = .ok (.number x) →
    Denotes vars (.name t) (unsignedZero x)
  /-- A name may stand for the value of a formula. -/
  | formula {t f : Text} {e : Expr} {x : Float} : vars.value t = .ok (.formula f) →
    e.Spells f → Denotes vars e x → Denotes vars (.name t) (unsignedZero x)
  /-- A group has the value of what is in it. -/
  | group {s s' : Text} {e : Expr} {x : Float} : Denotes vars e x →
    Denotes vars (.group s e s') (unsignedZero x)
  /-- An operation is applied to the values of its operands. -/
  | operation {l r : Expr} {s s' : Text} {op : Operator} {x y z : Float} : Denotes vars l x →
    Denotes vars r y → op.apply x y (Expr.operation l s op s' r).text = .ok z →
    Denotes vars (.operation l s op s' r) (unsignedZero z)

/-- Some operation of the tree fails like this, or one of a formula that it refers to.  How the
operands were written when it failed is left open. -/
inductive Fails (vars : Variables) : Expr → EvalError → Prop
  /-- An operation in a formula fails. -/
  | formula {t f : Text} {e : Expr} {err : EvalError} : vars.value t = .ok (.formula f) →
    e.Spells f → Fails vars e err → Fails vars (.name t) err
  /-- An operation in a group fails. -/
  | group {s s' : Text} {e : Expr} {err : EvalError} : Fails vars e err →
    Fails vars (.group s e s') err
  /-- An operation in the left operand fails. -/
  | lhs {l r : Expr} {s s' : Text} {op : Operator} {err : EvalError} : Fails vars l err →
    Fails vars (.operation l s op s' r) err
  /-- An operation in the right operand fails. -/
  | rhs {l r : Expr} {s s' : Text} {op : Operator} {err : EvalError} : Fails vars r err →
    Fails vars (.operation l s op s' r) err
  /-- The operands have values, but the operation itself fails. -/
  | operation {l r : Expr} {s s' t : Text} {op : Operator} {x y : Float} {err : EvalError} :
    Denotes vars l x → Denotes vars r y → op.apply x y t = .error err →
    Fails vars (.operation l s op s' r) err

/-- The outcome is what the tree says: its only value, if nothing in it fails, and otherwise one of
its failures. -/
def Agrees (vars : Variables) (e : Expr) : Except EvalError Float → Prop
  | .ok x => (∀ y, Denotes vars e y ↔ y = x) ∧ ∀ err, ¬ Fails vars e err
  | .error err => (∀ y, ¬ Denotes vars e y) ∧ Fails vars e err

/-- How the operands are written makes no difference to whether there is a value. -/
theorem Operator.apply_eq_ok_congr {op : Operator} {x y z : Float} {t t' : Text}
    (h : op.apply x y t = .ok z) : op.apply x y t' = .ok z := by
  rw [apply] at h ⊢
  split at h
  · cases h
  · rename_i hdiv
    rw [if_neg hdiv]
    dsimp only at h ⊢
    split at h
    · rename_i hfin
      rw [if_pos hfin, ← h]
    · cases h

section Inversion

variable {vars : Variables} {l r e : Expr} {s s' : Text} {op : Operator} {v : Float}
  {err : EvalError}

theorem denotes_literal_iff {n : Numeral} : Denotes vars (.literal n) v ↔ v = n.value := by
  constructor
  · rintro ⟨⟩
    rfl
  · rintro rfl
    exact .literal n

theorem denotes_group_iff :
    Denotes vars (.group s e s') v ↔ ∃ x, Denotes vars e x ∧ v = unsignedZero x := by
  constructor
  · intro h
    cases h with
    | group h => exact ⟨_, h, rfl⟩
  · rintro ⟨x, hx, rfl⟩
    exact .group hx

theorem denotes_operation_iff (t : Text) :
    Denotes vars (.operation l s op s' r) v ↔
      ∃ x y z, Denotes vars l x ∧ Denotes vars r y ∧ op.apply x y t = .ok z ∧
        v = unsignedZero z := by
  constructor
  · intro h
    cases h with
    | operation hx hy hz => exact ⟨_, _, _, hx, hy, Operator.apply_eq_ok_congr hz, rfl⟩
  · rintro ⟨x, y, z, hx, hy, hz, rfl⟩
    exact .operation hx hy (Operator.apply_eq_ok_congr hz)

theorem fails_group_iff : Fails vars (.group s e s') err ↔ Fails vars e err := by
  constructor
  · intro h
    cases h with
    | group h => exact h
  · exact .group

theorem not_fails_literal {n : Numeral} : ¬ Fails vars (.literal n) err := nofun

end Inversion

/-! ## Trees that mean the same -/

/-- The second tree means the same as the first, and can take its place in any well-formed tree. -/
structure Simplifies (vars : Variables) (e e' : Expr) : Prop where
  /-- It has the same values. -/
  denotes : ∀ x, Denotes vars e' x ↔ Denotes vars e x
  /-- It fails only like the first one. -/
  fails : ∀ err, Fails vars e' err → Fails vars e err
  /-- It fails if the first one does. -/
  fails_of : ∀ err, Fails vars e err → ∃ err', Fails vars e' err'
  /-- It binds at least as tightly. -/
  rank : e'.rank ≤ e.rank
  /-- It is well-formed. -/
  wellFormed : e'.WellFormed
  /-- Its numerals are in range. -/
  inRange : e'.InRange

section Simplifies

variable {vars : Variables} {e e' l l' r r' : Expr} {s s' : Text} {op : Operator}

theorem Simplifies.refl (he : e.WellFormed) (hrange : e.InRange) : Simplifies vars e e :=
  ⟨fun _ => .rfl, fun _ h => h, fun err h => ⟨err, h⟩, Nat.le_refl _, he, hrange⟩

theorem Simplifies.group (h : Simplifies vars e e') (hs : IsSpace s) (hs' : IsSpace s') :
    Simplifies vars (.group s e s') (.group s e' s') := by
  refine ⟨fun x => ?_, fun err herr => ?_, fun err herr => ?_, Nat.le_refl _,
    .group hs h.wellFormed hs', h.inRange⟩
  · rw [denotes_group_iff, denotes_group_iff]
    simp only [h.denotes]
  · exact .group (h.fails err (fails_group_iff.1 herr))
  · obtain ⟨err', herr'⟩ := h.fails_of err (fails_group_iff.1 herr)
    exact ⟨err', .group herr'⟩

theorem Simplifies.operation (hl : Simplifies vars l l') (hr : Simplifies vars r r')
    (h : (Expr.operation l s op s' r).WellFormed) :
    Simplifies vars (.operation l s op s' r) (.operation l' s op s' r') := by
  cases h with
  | operation _ hs hs' _ hlop hrop =>
    refine ⟨fun x => ?_, fun err herr => ?_, fun err herr => ?_, Nat.le_refl _,
      .operation hl.wellFormed hs hs' hr.wellFormed (hl.rank.trans hlop)
        (Nat.lt_of_le_of_lt hr.rank hrop), hl.inRange, hr.inRange⟩
    · rw [denotes_operation_iff [], denotes_operation_iff []]
      simp only [hl.denotes, hr.denotes]
    · cases herr with
      | lhs h => exact .lhs (hl.fails err h)
      | rhs h => exact .rhs (hr.fails err h)
      | operation hx hy h =>
        exact .operation ((hl.denotes _).1 hx) ((hr.denotes _).1 hy) h
    · cases herr with
      | lhs h =>
        obtain ⟨err', h'⟩ := hl.fails_of err h
        exact ⟨err', .lhs h'⟩
      | rhs h =>
        obtain ⟨err', h'⟩ := hr.fails_of err h
        exact ⟨err', .rhs h'⟩
      | operation hx hy h =>
        exact ⟨err, .operation ((hl.denotes _).2 hx) ((hr.denotes _).2 hy) h⟩

/-- **A tree with a value can be replaced by the numeral of that value.** -/
theorem simplifies_literal {x : Float} (hx : x.isFinite = true)
    (hvalue : ∀ y, Denotes vars e y ↔ y = unsignedZero x) (hfails : ∀ err, ¬ Fails vars e err) :
    Simplifies vars e (.literal (Numeral.ofFloat x)) := by
  have hwf := Numeral.wellFormed_ofFloat x
  have hof := Numeral.value_ofFloat hx
  refine ⟨fun y => ?_, fun err herr => absurd herr not_fails_literal,
    fun err herr => absurd herr (hfails err), Nat.zero_le _, .literal hwf, ?_⟩
  · rw [denotes_literal_iff, hof, hvalue]
  · refine (Numeral.isFinite_value_iff hwf).1 ?_
    rw [hof, unsignedZero]
    split
    · decide +kernel
    · exact hx

theorem Agrees.of_simplifies {outcome : Except EvalError Float} (h : Simplifies vars e e')
    (h' : Agrees vars e' outcome) : Agrees vars e outcome := by
  cases outcome with
  | error err => exact ⟨fun y hy => h'.1 y ((h.denotes y).2 hy), h.fails err h'.2⟩
  | ok x =>
    refine ⟨fun y => (h.denotes y).symm.trans (h'.1 y), fun err herr => ?_⟩
    obtain ⟨err', herr'⟩ := h.fails_of err herr
    exact h'.2 err' herr'

end Simplifies

/-- What fails in a part of a tree fails in the tree. -/
theorem Agrees.group_error {vars : Variables} {e : Expr} {s s' : Text} {err : EvalError}
    (h : Agrees vars e (.error err)) : Agrees vars (.group s e s') (.error err) := by
  refine ⟨fun y hy => ?_, .group h.2⟩
  obtain ⟨x, hx, -⟩ := denotes_group_iff.1 hy
  exact h.1 x hx

theorem Agrees.lhs_error {vars : Variables} {l r : Expr} {s s' : Text} {op : Operator}
    {err : EvalError} (h : Agrees vars l (.error err)) :
    Agrees vars (.operation l s op s' r) (.error err) := by
  refine ⟨fun y hy => ?_, .lhs h.2⟩
  obtain ⟨x, _, _, hx, -⟩ := (denotes_operation_iff []).1 hy
  exact h.1 x hx

theorem Agrees.rhs_error {vars : Variables} {l r : Expr} {s s' : Text} {op : Operator}
    {err : EvalError} (h : Agrees vars r (.error err)) :
    Agrees vars (.operation l s op s' r) (.error err) := by
  refine ⟨fun y hy => ?_, .rhs h.2⟩
  obtain ⟨_, x, _, -, hx, -⟩ := (denotes_operation_iff []).1 hy
  exact h.1 x hx

/-! ## What can be evaluated -/

/-- The second tree is that of a formula which the first one refers to through a chain of this many
formulas. -/
inductive Reaches (vars : Variables) : Nat → Expr → Expr → Prop
  | refl (e : Expr) : Reaches vars 0 e e
  | step {depth : Nat} {e e' e'' : Expr} {t f : Text} : Reaches vars depth e e' → t ∈ e'.names →
    vars.value t = .ok (.formula f) → e''.Spells f → Reaches vars (depth + 1) e e''

/-- The tree can be evaluated with this many levels of nesting.  Since a cycle would make chains of
any length, the bound on their length excludes cycles. -/
structure Ready (vars : Variables) (maxDepth : Nat) (e : Expr) : Prop where
  /-- All names are declared and switched on, and they stand for numbers or for formulas. -/
  declared : ∀ depth e', Reaches vars depth e e' → ∀ t ∈ e'.names,
    (∃ x, vars.value t = .ok (.number x) ∧ x.isFinite = true) ∨
      ∃ f, vars.value t = .ok (.formula f) ∧ IsFormula f
  /-- All numerals are in range. -/
  inRange : ∀ depth e', Reaches vars depth e e' → e'.InRange
  /-- Chains of formulas and groups together are not nested too deep. -/
  nesting : ∀ depth e', Reaches vars depth e e' → depth + e'.nesting ≤ maxDepth

section Reaches

variable {vars : Variables} {e e' e'' : Expr} {depth depth' maxDepth : Nat} {t f : Text}

theorem Reaches.trans (h : Reaches vars depth e e') (h' : Reaches vars depth' e' e'') :
    Reaches vars (depth + depth') e e'' := by
  induction h' with
  | refl => exact h
  | step _ ht hf hspells ih => exact .step (ih h) ht hf hspells

theorem Reaches.single (ht : t ∈ e.names) (hf : vars.value t = .ok (.formula f))
    (he : e'.Spells f) : Reaches vars 1 e e' :=
  .step (.refl e) ht hf he

/-- What a tree refers to can be evaluated with one level less. -/
theorem Ready.formula (h : Ready vars maxDepth e) (ht : t ∈ e.names)
    (hf : vars.value t = .ok (.formula f)) (he : e'.Spells f) :
    0 < maxDepth ∧ Ready vars (maxDepth - 1) e' := by
  have hfirst := Reaches.single ht hf he
  have hpos := h.nesting _ _ hfirst
  refine ⟨by omega, fun depth e'' h' => h.declared _ _ (hfirst.trans h'),
    fun depth e'' h' => h.inRange _ _ (hfirst.trans h'), fun depth e'' h' => ?_⟩
  have := h.nesting _ _ (hfirst.trans h')
  omega

/-- A cycle can be gone through any number of times. -/
theorem Reaches.iterate (h : Reaches vars (depth + 1) e e) (times : Nat) :
    ∃ depth', times ≤ depth' ∧ Reaches vars depth' e e := by
  induction times with
  | zero => exact ⟨0, Nat.le_refl 0, .refl e⟩
  | succ times ih =>
    obtain ⟨depth', hle, h'⟩ := ih
    exact ⟨depth' + (depth + 1), by omega, h'.trans h⟩

/-- **No formula refers to its own name.** -/
theorem Ready.not_mem_names (h : Ready vars maxDepth e) (ht : t ∈ e.names)
    (hf : vars.value t = .ok (.formula f)) (he : e'.Spells f) (h' : Reaches vars depth e' e'') :
    t ∉ e''.names := by
  intro ht'
  obtain ⟨depth', hle, hcycle⟩ := (Reaches.step h' ht' hf he).iterate (maxDepth + 1)
  have := h.nesting _ _ ((Reaches.single ht hf he).trans hcycle)
  omega

end Reaches

end EquationFigure
