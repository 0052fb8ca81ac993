import EquationFigure.Equation.Token
import EquationFigure.Proofs.Decimal.Scanning

/-!
# Reading operations where they stand

`Operation.scan` reads two numerals with an operator between them.  The operators are told apart
by their texts, so at any place at most one of them is read.

* `Operation.WellFormed` — two well-formed numerals and white space.
* `Operation.scan_eq_some_iff` — exactly a well-formed operation is read, in front of a text that
  cannot go on with its right operand.
-/

set_option autoImplicit false

namespace EquationFigure

open Text

/-! ## White space -/

/-- The text is white space. -/
def IsSpace (t : Text) : Prop := ∀ c ∈ t, c.isWhitespace = true

theorem isSpace_nil : IsSpace [] := nofun

theorem isSpace_append {s t : Text} : IsSpace (s ++ t) ↔ IsSpace s ∧ IsSpace t :=
  List.forall_mem_append

theorem isSpace_leadingSpace (t : Text) : IsSpace (leadingSpace t) :=
  fun _ hc => of_mem_takeWhile hc

theorem leadingSpace_append {s t : Text} (hs : IsSpace s) (ht : HeadNot Char.isWhitespace t) :
    leadingSpace (s ++ t) = s :=
  takeWhile_append_of_headNot hs ht

theorem dropSpace_append {s t : Text} (hs : IsSpace s) (ht : HeadNot Char.isWhitespace t) :
    dropSpace (s ++ t) = t :=
  dropWhile_append_of_headNot hs ht

theorem isDigit_of_isWhitespace {c : Char} (h : c.isWhitespace = true) : c.isDigit = false := by
  simp only [Char.isWhitespace, Bool.or_eq_true, decide_eq_true_eq] at h
  rcases h with ((rfl | rfl) | rfl) | rfl
  all_goals decide

theorem isNumeralPart_of_isWhitespace {c : Char} (h : c.isWhitespace = true) :
    Numeral.isNumeralPart c = false := by
  simp only [Char.isWhitespace, Bool.or_eq_true, decide_eq_true_eq] at h
  rcases h with ((rfl | rfl) | rfl) | rfl
  all_goals decide

theorem isWhitespace_of_isDigit {c : Char} (h : c.isDigit = true) : c.isWhitespace = false := by
  cases hw : c.isWhitespace with
  | false => rfl
  | true =>
    rw [isDigit_of_isWhitespace hw] at h
    cases h

theorem headNot_of_isSpace {p : Char → Bool} (hp : ∀ c, c.isWhitespace = true → p c = false)
    {s t : Text} (hs : IsSpace s) (ht : HeadNot p t) : HeadNot p (s ++ t) :=
  headNot_append (headNot_of_forall fun c hc => hp c (hs c hc)) ht

/-! ## The ends of numerals and operators -/

theorem Numeral.headNot_text {n : Numeral} (hn : n.WellFormed) {p : Char → Bool}
    (hdigit : ∀ c, c.isDigit = true → p c = false) (hminus : p '-' = false) (t : Text) :
    HeadNot p (n.text ++ t) := by
  rw [Numeral.text_eq]
  cases n.negative with
  | true => exact headNot_cons.2 hminus
  | false => exact Numeral.headNot_unsignedText hn hdigit

theorem Numeral.headNot_isWhitespace_text {n : Numeral} (hn : n.WellFormed) (t : Text) :
    HeadNot Char.isWhitespace (n.text ++ t) :=
  n.headNot_text hn (fun _ hc => isWhitespace_of_isDigit hc) (by decide) t

/-- What holds of none of the characters of operators holds of none in a symbol. -/
theorem Operator.eq_false_of_mem_symbol (op : Operator) {p : Char → Bool}
    (h : ['^', '*', '/', '%', '+', '-'].any p = false) {c : Char} (hc : c ∈ op.symbol) :
    p c = false := by
  have hsubset : op.symbol ⊆ ['^', '*', '/', '%', '+', '-'] := by
    cases op <;> decide
  exact Bool.eq_false_iff.2 (List.any_eq_false.1 h c (hsubset hc))

theorem Operator.headNot_symbol (op : Operator) {p : Char → Bool}
    (h : ['^', '*', '/', '%', '+', '-'].any p = false) (t : Text) :
    HeadNot p (op.symbol ++ t) := by
  have hsymbol : ∀ c ∈ op.symbol, p c = false := fun c => op.eq_false_of_mem_symbol h
  cases op <;> exact headNot_cons.2 (hsymbol _ List.mem_cons_self)

theorem Operator.headNot_isWhitespace_symbol (op : Operator) (t : Text) :
    HeadNot Char.isWhitespace (op.symbol ++ t) :=
  op.headNot_symbol (by decide) t

theorem Operator.headNot_isNumeralPart_symbol (op : Operator) (t : Text) :
    HeadNot Numeral.isNumeralPart (op.symbol ++ t) :=
  op.headNot_symbol (by decide) t

theorem dropStart?_symbol_of_ne {op op' : Operator} (h : op ≠ op') (t : Text) :
    dropStart? op.symbol (op'.symbol ++ t) = none ∨
      (op = .divide ∧ op' = .floorDivide) ∨ op = .floorDivide ∧ op' = .divide := by
  cases op <;> cases op' <;> first
    | exact absurd rfl h
    | exact .inr (.inl ⟨rfl, rfl⟩)
    | exact .inr (.inr ⟨rfl, rfl⟩)
    | exact .inl rfl

/-! ## Operations -/

namespace Operation

/-- The operation is written as equations write it. -/
structure WellFormed (o : Operation) : Prop where
  /-- The left operand is a numeral. -/
  lhs : o.lhs.WellFormed
  /-- White space stands before the operator. -/
  spaceBefore : IsSpace o.spaceBefore
  /-- White space stands behind the operator. -/
  spaceAfter : IsSpace o.spaceAfter
  /-- The right operand is a numeral. -/
  rhs : o.rhs.WellFormed

/-- **Exactly the well-formed operations are read, where their right operand stops.** -/
theorem scan_eq_some_iff {op : Operator} {t rest : Text} {o : Operation} :
    scan op t = some (o, rest) ↔
      o.operator = op ∧ o.WellFormed ∧ o.rhs.StopsAt rest ∧ t = o.text ++ rest := by
  constructor
  · intro h
    have htext := scan_eq_some h
    rw [scan] at h
    split at h
    · cases h
    · rename_i lhs t₁ hlhs
      split at h
      · cases h
      · split at h
        · cases h
        · rename_i rhs after hrhs
          cases h
          obtain ⟨hlhs, -, -⟩ := Numeral.scan_eq_some_iff.1 hlhs
          obtain ⟨hrhs, hafter, -⟩ := Numeral.scan_eq_some_iff.1 hrhs
          exact ⟨rfl, ⟨hlhs, isSpace_leadingSpace _, isSpace_leadingSpace _, hrhs⟩, hafter, htext⟩
  · rintro ⟨rfl, ho, hrest, rfl⟩
    obtain ⟨lhs, s, op, s', rhs⟩ := o
    have htext : text ⟨lhs, s, op, s', rhs⟩ ++ rest =
        lhs.text ++ (s ++ (op.symbol ++ (s' ++ (rhs.text ++ rest)))) := by
      simp [text]
    have hsymbol := op.headNot_isWhitespace_symbol (s' ++ (rhs.text ++ rest))
    have hrhs := Numeral.headNot_isWhitespace_text ho.rhs rest
    have hlhs : lhs.StopsAt (s ++ (op.symbol ++ (s' ++ (rhs.text ++ rest)))) :=
      Numeral.stopsAt_of_headNot (headNot_of_isSpace (fun _ => isNumeralPart_of_isWhitespace)
        ho.spaceBefore (op.headNot_isNumeralPart_symbol _))
    rw [htext, scan, Numeral.scan_eq_some_iff.2 ⟨ho.lhs, hlhs, rfl⟩]
    simp only [dropSpace_append ho.spaceBefore hsymbol, leadingSpace_append ho.spaceBefore hsymbol,
      dropStart?_eq_some_iff.2 rfl, dropSpace_append ho.spaceAfter hrhs,
      leadingSpace_append ho.spaceAfter hrhs,
      Numeral.scan_eq_some_iff.2 ⟨ho.rhs, hrest, rfl⟩]

end Operation

/-! ## Single numbers -/

/-- The numeral that the text consists of, with at most white space behind it. -/
def numeralAlone? (t : Text) : Option Numeral :=
  match Numeral.scan t with
  | some (n, rest) => if rest.all Char.isWhitespace then some n else none
  | none => none

theorem literal?_of_plus {t rest : Text} (h : dropSpace t = '+' :: rest) :
    literal? t = numeralAlone? rest := by
  rw [literal?, h]
  rfl

theorem match_of_not_plus (t : Text) :
    (∀ rest, t ≠ '+' :: rest) → (match t with
      | '+' :: rest => rest
      | rest => rest) = t := by
  intro h
  split
  · exact absurd rfl (h _)
  · rfl

theorem literal?_of_not_plus {t : Text} (h : HeadNot (· == '+') (dropSpace t)) :
    literal? t = numeralAlone? (dropSpace t) := by
  refine congrArg numeralAlone? (match_of_not_plus _ fun rest heq => ?_)
  rw [heq] at h
  exact absurd (headNot_cons.1 h) (by decide)

/-- A text that is read as one number consists of a numeral, white space around it, and at most a
plus sign in front. -/
theorem exists_of_literal? {t : Text} {n : Numeral} (h : literal? t = some n) :
    n.WellFormed ∧ ∃ s plus s', IsSpace s ∧ (plus = [] ∨ plus = ['+']) ∧ IsSpace s' ∧
      t = s ++ plus ++ n.text ++ s' := by
  obtain ⟨plus, unsigned, hplus, hdrop, hscan⟩ : ∃ plus unsigned, (plus = [] ∨ plus = ['+']) ∧
      dropSpace t = plus ++ unsigned ∧ numeralAlone? unsigned = some n := by
    by_cases hplus : HeadNot (· == '+') (dropSpace t)
    · exact ⟨[], _, .inl rfl, rfl, literal?_of_not_plus hplus ▸ h⟩
    · cases hdrop : dropSpace t with
      | nil =>
        rw [hdrop] at hplus
        exact absurd headNot_nil hplus
      | cons c rest =>
        rw [hdrop, headNot_cons, Bool.not_eq_false, beq_iff_eq] at hplus
        subst hplus
        exact ⟨['+'], rest, .inr rfl, rfl, literal?_of_plus hdrop ▸ h⟩
  rw [numeralAlone?] at hscan
  cases hn : Numeral.scan unsigned with
  | none =>
    rw [hn] at hscan
    cases hscan
  | some p =>
    obtain ⟨m, rest⟩ := p
    rw [hn] at hscan
    dsimp only at hscan
    split at hscan
    · rename_i hall
      cases hscan
      obtain ⟨hwf, -, rfl⟩ := Numeral.scan_eq_some_iff.1 hn
      refine ⟨hwf, leadingSpace t, plus, rest, isSpace_leadingSpace t, hplus,
        List.all_eq_true.1 hall, ?_⟩
      have ht := leadingSpace_append_dropSpace t
      rw [hdrop] at ht
      simpa using ht.symm
    · cases hscan

/-- Before the digits of a text that is read as one number no other digits stand, and behind them
white space. -/
theorem literal?_spec {t : Text} {n : Numeral} (h : literal? t = some n) :
    n.WellFormed ∧ ∃ sign after, t = sign ++ n.unsignedText ++ after ∧
      (∀ c ∈ sign, c.isDigit = false) ∧ IsSpace after := by
  obtain ⟨hn, s, plus, s', hs, hplus, hs', rfl⟩ := exists_of_literal? h
  refine ⟨hn, s ++ plus ++ (if n.negative then ['-'] else []), s', ?_, fun c hc => ?_, hs'⟩
  · rw [Numeral.text_eq]
    simp only [List.append_assoc]
  · rw [List.mem_append, List.mem_append] at hc
    rcases hc with (hc | hc) | hc
    · exact isDigit_of_isWhitespace (hs c hc)
    · rcases hplus with rfl | rfl
      · cases hc
      · rw [List.mem_singleton.1 hc]
        decide
    · split at hc
      · rw [List.mem_singleton.1 hc]
        decide
      · cases hc

theorem numeralAlone?_append {n : Numeral} (hn : n.WellFormed) {s : Text} (hs : IsSpace s) :
    numeralAlone? (n.text ++ s) = some n := by
  have hstops : n.StopsAt s := Numeral.stopsAt_of_headNot
    (headNot_of_forall fun c hc => isNumeralPart_of_isWhitespace (hs c hc))
  rw [numeralAlone?, Numeral.scan_eq_some_iff.2 ⟨hn, hstops, rfl⟩]
  exact if_pos (List.all_eq_true.2 hs)

/-- A numeral with white space around it is read as one number. -/
theorem literal?_append {n : Numeral} (hn : n.WellFormed) {s s' : Text} (hs : IsSpace s)
    (hs' : IsSpace s') : literal? (s ++ n.text ++ s') = some n := by
  have hdrop := dropSpace_append hs (Numeral.headNot_isWhitespace_text hn s')
  have hplus : HeadNot (· == '+') (n.text ++ s') :=
    n.headNot_text hn (fun _ hc => beq_of_kind hc (by decide)) (by decide) s'
  rw [List.append_assoc, literal?_of_not_plus (by rwa [hdrop]), hdrop]
  exact numeralAlone?_append hn hs'

/-- So is one with a plus sign in front. -/
theorem literal?_plus_append {n : Numeral} (hn : n.WellFormed) {s s' : Text} (hs : IsSpace s)
    (hs' : IsSpace s') : literal? (s ++ '+' :: (n.text ++ s')) = some n := by
  have hhead : HeadNot Char.isWhitespace ('+' :: (n.text ++ s')) := headNot_cons.2 (by decide)
  rw [literal?_of_plus (dropSpace_append hs hhead)]
  exact numeralAlone?_append hn hs'

/-- A text is read as one number exactly if it consists of a numeral, white space around it, and at
most a plus sign in front. -/
theorem literal?_eq_some_iff {t : Text} {n : Numeral} :
    literal? t = some n ↔ n.WellFormed ∧ ∃ s plus s', IsSpace s ∧ (plus = [] ∨ plus = ['+']) ∧
      IsSpace s' ∧ t = s ++ plus ++ n.text ++ s' := by
  refine ⟨exists_of_literal?, ?_⟩
  rintro ⟨hn, s, plus, s', hs, rfl | rfl, hs', rfl⟩
  · rw [List.append_nil]
    exact literal?_append hn hs hs'
  · simpa using literal?_plus_append hn hs hs'

end EquationFigure
