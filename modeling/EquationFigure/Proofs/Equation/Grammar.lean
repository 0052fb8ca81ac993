import EquationFigure.Proofs.Equation.Names
import EquationFigure.Proofs.Equation.Tokens

/-!
# The grammar of equations

Equations are never parsed, but they have a grammar: operands with operators between them, where an
operand is a numeral, a name or an equation in parentheses.  What an equation means is said over a
syntax tree, in which the powers bind tightest and the sums loosest, and operators that bind alike
are taken from left to right.

* `IsEquation t` — the grammar, as a property of texts.
* `Expr` — syntax trees that keep the white space, so that `Expr.text` is the text parsed.
* `Expr.WellFormed` — numerals, names and white space are what they should be, and operands bind
  more tightly than the operation they belong to.
* `IsEquation.exists_expr` — every equation has a well-formed syntax tree.
-/

set_option autoImplicit false

namespace EquationFigure

open Text

/-! ## Texts -/

mutual

/-- The text is an operand: a numeral, a name, or an equation in parentheses. -/
inductive IsOperand : Text → Prop
  | numeral {n : Numeral} : n.WellFormed → IsOperand n.text
  | name {t : Text} : IsName t → IsOperand t
  | group {s t s' : Text} : IsSpace s → IsEquation t → IsSpace s' →
    IsOperand ('(' :: (s ++ t ++ s' ++ [')']))

/-- The text is an equation: an operand, and any number of operators with an operand behind each. -/
inductive IsEquation : Text → Prop
  | operand {t : Text} : IsOperand t → IsEquation t
  | operation {t s s' u : Text} (op : Operator) : IsEquation t → IsSpace s → IsSpace s' →
    IsOperand u → IsEquation (t ++ (s ++ op.symbol ++ s') ++ u)

end

/-! ## Trees -/

/-- How loosely the operator binds: powers before products, and products before sums. -/
def Operator.rank : Operator → Nat
  | power => 1
  | multiply | floorDivide | divide | modulo => 2
  | add | subtract => 3

theorem Operator.rank_pos (op : Operator) : 0 < op.rank := by
  cases op <;> decide

/-- The syntax tree of an equation. -/
inductive Expr where
  /-- A numeral. -/
  | literal (n : Numeral)
  /-- A name. -/
  | name (t : Text)
  /-- An equation in parentheses, with white space inside them. -/
  | group (before : Text) (inner : Expr) (after : Text)
  /-- An operation, with white space around the operator. -/
  | operation (lhs : Expr) (before : Text) (op : Operator) (after : Text) (rhs : Expr)

namespace Expr

/-- The tree as it is written. -/
def text : Expr → Text
  | literal n => n.text
  | name t => t
  | group s e s' => '(' :: (s ++ e.text ++ s' ++ [')'])
  | operation l s op s' r => l.text ++ (s ++ op.symbol ++ s') ++ r.text

/-- How loosely the tree binds; an operand binds tightest. -/
def rank : Expr → Nat
  | operation _ _ op _ _ => op.rank
  | _ => 0

/-- The tree is one of an equation: the left operand of an operation may bind as loosely as the
operation does, the right operand may not. -/
inductive WellFormed : Expr → Prop
  | literal {n : Numeral} : n.WellFormed → WellFormed (.literal n)
  | name {t : Text} : IsName t → WellFormed (.name t)
  | group {s s' : Text} {e : Expr} : IsSpace s → WellFormed e → IsSpace s' →
    WellFormed (.group s e s')
  | operation {l r : Expr} {s s' : Text} {op : Operator} : WellFormed l → IsSpace s →
    IsSpace s' → WellFormed r → l.rank ≤ op.rank → r.rank < op.rank →
    WellFormed (.operation l s op s' r)

/-- A tree starts with a digit, a minus sign, a letter or a parenthesis. -/
theorem WellFormed.headNot_text {e : Expr} (he : e.WellFormed) {p : Char → Bool}
    (hdigit : ∀ c, c.isDigit = true → p c = false) (hname : ∀ c, isNameStart c = true → p c = false)
    (hminus : p '-' = false) (hparen : p '(' = false) (t : Text) : HeadNot p (e.text ++ t) := by
  induction he generalizing t with
  | literal hn => exact Numeral.headNot_text hn hdigit hminus t
  | name ht =>
    obtain ⟨c, rest, rfl, hc, -⟩ := ht
    exact headNot_cons.2 (hname c hc)
  | group => exact headNot_cons.2 hparen
  | operation _ _ _ _ _ _ ihl _ =>
    rw [text, List.append_assoc, List.append_assoc]
    exact ihl _

/-- The text is that of a well-formed tree, with white space around it. -/
def Spells (e : Expr) (t : Text) : Prop :=
  e.WellFormed ∧ ∃ s s', IsSpace s ∧ IsSpace s' ∧ t = s ++ e.text ++ s'

/-! ## Every equation has a tree -/

/-- The tree with an operator and an operand added at its end. -/
def extend (e : Expr) (s : Text) (op : Operator) (s' : Text) (operand : Expr) : Expr :=
  match e with
  | operation l t op' t' r =>
    if op.rank < op'.rank then operation l t op' t' (r.extend s op s' operand)
    else operation (operation l t op' t' r) s op s' operand
  | e => operation e s op s' operand

section Extend

variable {s s' : Text} {op : Operator} {operand : Expr}

theorem text_extend (e : Expr) :
    (e.extend s op s' operand).text = e.text ++ (s ++ op.symbol ++ s') ++ operand.text := by
  induction e with
  | literal n => rfl
  | name t => rfl
  | group t e t' => rfl
  | operation l t op' t' r _ ihr =>
    rw [extend]
    split
    · rw [text, ihr, text]
      simp only [List.append_assoc]
    · rfl

theorem rank_extend (e : Expr) : (e.extend s op s' operand).rank = max e.rank op.rank := by
  cases e with
  | literal n => exact (Nat.zero_max _).symm
  | name t => exact (Nat.zero_max _).symm
  | group t e t' => exact (Nat.zero_max _).symm
  | operation l t op' t' r =>
    rw [extend]
    split
    · rename_i hlt
      exact (Nat.max_eq_left hlt.le).symm
    · rename_i hle
      exact (Nat.max_eq_right (Nat.le_of_not_lt hle)).symm

theorem WellFormed.extend {e : Expr} (he : e.WellFormed) (hs : IsSpace s) (hs' : IsSpace s')
    (hoperand : operand.WellFormed) (hrank : operand.rank = 0) :
    (e.extend s op s' operand).WellFormed := by
  have hlt : operand.rank < op.rank := hrank ▸ op.rank_pos
  induction he with
  | literal hn => exact .operation (.literal hn) hs hs' hoperand (Nat.zero_le _) hlt
  | name ht => exact .operation (.name ht) hs hs' hoperand (Nat.zero_le _) hlt
  | group ht he ht' => exact .operation (.group ht he ht') hs hs' hoperand (Nat.zero_le _) hlt
  | @operation l r t t' op' hl ht ht' hr hlop hrop _ ihr =>
    rw [Expr.extend]
    split
    · rename_i hop
      exact .operation hl ht ht' ihr hlop (by rw [rank_extend]; omega)
    · rename_i hop
      exact .operation (.operation hl ht ht' hr hlop hrop) hs hs' hoperand (Nat.le_of_not_lt hop)
        hlt

end Extend

end Expr

/-- **Every equation has a well-formed syntax tree**, and every operand one that is an operand. -/
theorem IsEquation.exists_expr {t : Text} (h : IsEquation t) :
    ∃ e : Expr, e.WellFormed ∧ e.text = t := by
  refine @IsEquation.rec (fun t _ => ∃ e : Expr, e.WellFormed ∧ e.rank = 0 ∧ e.text = t)
    (fun t _ => ∃ e : Expr, e.WellFormed ∧ e.text = t) ?_ ?_ ?_ ?_ ?_ t h
  · exact fun hn => ⟨_, .literal hn, rfl, rfl⟩
  · exact fun ht => ⟨_, .name ht, rfl, rfl⟩
  · rintro s _ s' hs - hs' ⟨e, he, rfl⟩
    exact ⟨_, .group hs he hs', rfl, rfl⟩
  · rintro _ - ⟨e, he, -, rfl⟩
    exact ⟨e, he, rfl⟩
  · rintro _ s s' _ op - hs hs' - ⟨e, he, rfl⟩ ⟨operand, hoperand, hrank, rfl⟩
    exact ⟨_, he.extend hs hs' hoperand hrank, Expr.text_extend e⟩

/-- Two equations with an operator between them are an equation. -/
theorem IsEquation.append {t s s' u : Text} (ht : IsEquation t) (op : Operator) (hs : IsSpace s)
    (hs' : IsSpace s') (hu : IsEquation u) : IsEquation (t ++ (s ++ op.symbol ++ s') ++ u) := by
  refine @IsEquation.rec (fun _ _ => True)
    (fun u _ => IsEquation (t ++ (s ++ op.symbol ++ s') ++ u)) ?_ ?_ ?_ ?_ ?_ u hu
  · exact fun _ => trivial
  · exact fun _ => trivial
  · exact fun _ _ _ _ => trivial
  · exact fun hu _ => .operation op ht hs hs' hu
  · intro u r r' v op' _ hr hr' hv ih _
    have hsplit : t ++ (s ++ op.symbol ++ s') ++ (u ++ (r ++ op'.symbol ++ r') ++ v) =
        t ++ (s ++ op.symbol ++ s') ++ u ++ (r ++ op'.symbol ++ r') ++ v := by
      simp only [List.append_assoc]
    rw [hsplit]
    exact ih.operation op' hr hr' hv

/-- **The equations are the texts of the well-formed trees.** -/
theorem isEquation_iff {t : Text} : IsEquation t ↔ ∃ e : Expr, e.WellFormed ∧ e.text = t := by
  refine ⟨IsEquation.exists_expr, ?_⟩
  rintro ⟨e, he, rfl⟩
  induction he with
  | literal hn => exact .operand (.numeral hn)
  | name ht => exact .operand (.name ht)
  | group hs _ hs' ih => exact .operand (.group hs ih hs')
  | operation _ hs hs' _ _ _ ihl ihr => exact ihl.append _ hs hs' ihr

/-- The text is an equation with white space around it. -/
def IsFormula (t : Text) : Prop :=
  ∃ s u s', IsSpace s ∧ IsEquation u ∧ IsSpace s' ∧ t = s ++ u ++ s'

theorem IsFormula.exists_spells {t : Text} (h : IsFormula t) : ∃ e : Expr, e.Spells t := by
  obtain ⟨s, u, s', hs, hu, hs', rfl⟩ := h
  obtain ⟨e, he, rfl⟩ := hu.exists_expr
  exact ⟨e, he, s, s', hs, hs', rfl⟩

end EquationFigure
