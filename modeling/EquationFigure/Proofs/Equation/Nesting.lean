import EquationFigure.Proofs.Equation.Flattening
import EquationFigure.Proofs.Equation.Precedence

/-!
# Resolving the groups of an equation

Groups are resolved from left to right, those in a group before the group itself.  Each of them is
replaced by the numeral of its value, so what is left in the end is a chain with the meaning of the
equation.

* `IsChain.parenFree`, `count_paren_text` — parentheses in the text of a tree come from its groups,
  and they are paired.
* `BecomesChain`, `becomesChain` — the groups of a tree are resolved as if it were a chain.
* `agrees_resolveGroups` — resolving the groups of an equation ends as its tree says.
-/

set_option autoImplicit false

namespace EquationFigure

open EquationFigure.Expr EvalM

/-! ## Parentheses -/

theorem parenFree_of_isSpace {s : Text} (hs : IsSpace s) : ParenFree s := by
  intro c hc
  have hspace := hs c hc
  by_contra hparen
  rw [Bool.not_eq_false, isParen, Bool.or_eq_true, beq_iff_eq, beq_iff_eq] at hparen
  rcases hparen with rfl | rfl <;> revert hspace <;> decide

theorem Operator.parenFree_symbol (op : Operator) : ParenFree op.symbol := by
  exact fun _ hc => op.eq_false_of_mem_symbol rfl hc

theorem Numeral.WellFormed.parenFree {n : Numeral} (hn : n.WellFormed) : ParenFree n.text := by
  intro c hc
  have hpart := hn.isNumberPart c hc
  by_contra hparen
  rw [Bool.not_eq_false, isParen, Bool.or_eq_true, beq_iff_eq, beq_iff_eq] at hparen
  rcases hparen with rfl | rfl <;> revert hpart <;> decide

theorem parenFree_of_isName {t : Text} (h : IsName t) : ParenFree t := by
  have hpart : ∀ c, isNamePart c = true → isParen c = false := by
    intro c hc
    by_contra hparen
    rw [Bool.not_eq_false, isParen, Bool.or_eq_true, beq_iff_eq, beq_iff_eq] at hparen
    rcases hparen with rfl | rfl <;> revert hc <;> decide
  obtain ⟨c, rest, rfl, hc, hrest⟩ := h
  exact List.forall_mem_cons.2
    ⟨hpart c (isNamePart_of_isNameStart hc), fun d hd => hpart d (hrest d hd)⟩

theorem parenFree_separator {s s' : Text} (op : Operator) (hs : IsSpace s) (hs' : IsSpace s') :
    ParenFree (s ++ op.symbol ++ s') :=
  parenFree_append.2 ⟨parenFree_append.2 ⟨parenFree_of_isSpace hs, op.parenFree_symbol⟩,
    parenFree_of_isSpace hs'⟩

/-- A chain has no parentheses. -/
theorem IsChain.parenFree {e : Expr} {n : Numeral} {links : List Link} (h : IsChain e n links)
    (he : e.WellFormed) : ParenFree e.text := by
  induction h with
  | literal n =>
    cases he with
    | literal hn => exact hn.parenFree
  | operation _ _ ihl ihr =>
    cases he with
    | operation hl hs hs' hr =>
      exact parenFree_append.2 ⟨parenFree_append.2 ⟨ihl hl, parenFree_separator _ hs hs'⟩, ihr hr⟩

theorem count_paren_of_parenFree {t : Text} (h : ParenFree t) {paren : Char}
    (hparen : isParen paren = true) : t.count paren = 0 :=
  List.count_eq_zero.2 fun hmem => by
    rw [h paren hmem] at hparen
    cases hparen

/-- The parentheses of an equation without names are paired. -/
theorem count_paren_text {e : Expr} (he : e.WellFormed) (hnames : e.names = []) :
    e.text.count '(' = e.text.count ')' := by
  have hfree : ∀ {t : Text}, ParenFree t → t.count '(' = 0 ∧ t.count ')' = 0 := fun h =>
    ⟨count_paren_of_parenFree h (by decide), count_paren_of_parenFree h (by decide)⟩
  induction he with
  | literal hn =>
    have h := hfree hn.parenFree
    rw [Expr.text, h.1, h.2]
  | name => cases hnames
  | group hs _ hs' ih =>
    have h := hfree (parenFree_of_isSpace hs)
    have h' := hfree (parenFree_of_isSpace hs')
    have hinner := ih hnames
    simp [Expr.text, h, h', hinner]
  | @operation l r s s' op _ hs hs' _ _ _ ihl ihr =>
    obtain ⟨hnl, hnr⟩ := List.append_eq_nil_iff.1 hnames
    have h := hfree (parenFree_separator op hs hs')
    rw [Expr.text, List.count_append, List.count_append, h.1, ihl hnl, ihr hnr, List.count_append,
      List.count_append, h.2]

/-! ## Groups -/

/-- Resolving the groups of the equation, which stands between two texts, comes to resolving those
of a chain of the same meaning, or ends with an error of the equation. -/
def BecomesChain (vars : Variables) (limit levels : Nat) (before : Text) (e : Expr) (after : Text) :
    Prop :=
  (∃ e' n links, Simplifies vars e e' ∧ IsChain e' n links ∧
    (resolveGroups limit levels (before ++ e.text ++ after)).outcome =
      (resolveGroups limit levels (before ++ e'.text ++ after)).outcome) ∨
  ∃ err, Agrees vars e (.error err) ∧
    (resolveGroups limit levels (before ++ e.text ++ after)).outcome = .error err

section BecomesChain

variable {vars : Variables} {limit levels : Nat} {before after s s' : Text} {e l r : Expr}
  {op : Operator}

/-- A group whose content has a value means the numeral of that value. -/
theorem simplifies_group_of_agrees {x : Float} (hfin : x.isFinite = true)
    (h : Agrees vars e (.ok x)) :
    Simplifies vars (.group s e s') (.literal (Numeral.ofFloat x)) := by
  refine simplifies_literal hfin (fun y => ?_) fun err herr => h.2 err (fails_group_iff.1 herr)
  rw [denotes_group_iff]
  simp only [h.1, exists_eq_left]

/-- A group is resolved one level further down, and its value takes its place. -/
theorem BecomesChain.group (hbefore : ParenFree before) (hs : IsSpace s) (hs' : IsSpace s')
    (h : BecomesChain vars limit (levels + 1) s e (s' ++ ')' :: after)) :
    BecomesChain vars limit (levels + 2) before (.group s e s') after := by
  have hsplit : before ++ (Expr.group s e s').text ++ after =
      before ++ '(' :: (s ++ e.text ++ (s' ++ ')' :: after)) := by
    simp [Expr.text]
  have hclose : ')' ∈ s ++ e.text ++ (s' ++ ')' :: after) := by simp
  rw [BecomesChain, hsplit, outcome_resolveGroups_of_open hbefore hclose]
  rcases h with ⟨e', n, links, hsimp, hchain, hout⟩ | ⟨err, herr, hout⟩
  · have hfree : ParenFree (s ++ e'.text ++ s') := parenFree_append.2
      ⟨parenFree_append.2 ⟨parenFree_of_isSpace hs, hchain.parenFree hsimp.wellFormed⟩,
        parenFree_of_isSpace hs'⟩
    have hinner := agrees_reduce vars hchain hsimp.wellFormed hsimp.inRange hs hs'
    rw [hout, ← List.append_assoc, outcome_resolveGroups_of_close hfree]
    cases hx : (reduce (s ++ e'.text ++ s')).outcome with
    | error err =>
      rw [hx] at hinner
      exact .inr ⟨err, (hinner.of_simplifies hsimp).group_error, rfl⟩
    | ok x =>
      rw [hx] at hinner
      have hfin := hchain.isFinite hsimp.wellFormed hsimp.inRange ((hinner.1 x).2 rfl)
      refine .inl ⟨_, _, [], simplifies_group_of_agrees hfin (hinner.of_simplifies hsimp),
        .literal _, ?_⟩
      rw [Expr.text, ← numberText_eq_text hfin, List.append_assoc before]
  · rw [hout]
    exact .inr ⟨err, herr.group_error, rfl⟩

/-- The groups of an operation are those of its first operand, and then, behind what this has
become, those of its second one. -/
theorem BecomesChain.operation (hall : (Expr.operation l s op s' r).WellFormed)
    (hl : BecomesChain vars limit levels before l (s ++ op.symbol ++ s' ++ r.text ++ after))
    (hr : ∀ l' : Expr, ParenFree l'.text →
      BecomesChain vars limit levels (before ++ l'.text ++ (s ++ op.symbol ++ s')) r after) :
    BecomesChain vars limit levels before (.operation l s op s' r) after := by
  have hsplit : ∀ l : Expr, before ++ (Expr.operation l s op s' r).text ++ after =
      before ++ l.text ++ (s ++ op.symbol ++ s' ++ r.text ++ after) := by
    simp [Expr.text]
  rcases hl with ⟨l', n, links, hsimpl, hchainl, houtl⟩ | ⟨err, herr, hout⟩
  · have hmiddle : before ++ l'.text ++ (s ++ op.symbol ++ s' ++ r.text ++ after) =
        before ++ l'.text ++ (s ++ op.symbol ++ s') ++ r.text ++ after := by
      simp
    rw [BecomesChain, hsplit, houtl, hmiddle]
    rcases hr l' (hchainl.parenFree hsimpl.wellFormed) with
      ⟨r', m, links', hsimpr, hchainr, houtr⟩ | ⟨err, herr, hout⟩
    · refine .inl ⟨_, _, _, hsimpl.operation hsimpr hall, .operation hchainl hchainr, ?_⟩
      rw [houtr]
      simp [Expr.text]
    · exact .inr ⟨err, herr.rhs_error, hout⟩
  · rw [BecomesChain, hsplit]
    exact .inr ⟨err, herr.lhs_error, hout⟩

end BecomesChain

/-- **The groups of an equation are resolved as if it were a chain of the same meaning**, unless one
of them fails. -/
theorem becomesChain (vars : Variables) (limit : Nat) {e : Expr} (he : e.WellFormed)
    (hrange : e.InRange) (hnames : e.names = []) {levels : Nat} (hlevels : e.nesting ≤ levels)
    {before : Text} (hbefore : ParenFree before) (after : Text) :
    BecomesChain vars limit (levels + 1) before e after := by
  induction he generalizing levels before after with
  | @literal n hn => exact .inl ⟨.literal n, n, [], .refl (.literal hn) hrange, .literal n, rfl⟩
  | name => cases hnames
  | @group s s' e hs he hs' ih =>
    obtain ⟨levels, rfl⟩ : ∃ k, levels = k + 1 :=
      Nat.exists_eq_succ_of_ne_zero (by rw [Expr.nesting] at hlevels; omega)
    exact .group hbefore hs hs' (ih hrange hnames (Nat.le_of_succ_le_succ hlevels)
      (parenFree_of_isSpace hs) (s' ++ ')' :: after))
  | @operation l r s s' op hl hs hs' hr hlop hrop ihl ihr =>
    obtain ⟨hnl, hnr⟩ := List.append_eq_nil_iff.1 hnames
    refine .operation (.operation hl hs hs' hr hlop hrop) ?_ fun l' hl' => ?_
    · exact ihl hrange.1 hnl ((Nat.le_max_left _ _).trans hlevels) hbefore _
    · refine ihr hrange.2 hnr ((Nat.le_max_right _ _).trans hlevels) ?_ after
      exact parenFree_append.2
        ⟨parenFree_append.2 ⟨hbefore, hl'⟩, parenFree_separator op hs hs'⟩

/-- **Resolving the groups of an equation ends as its tree says.** -/
theorem agrees_resolveGroups (vars : Variables) (limit : Nat) {e : Expr} (he : e.WellFormed)
    (hrange : e.InRange) (hnames : e.names = []) {levels : Nat} (hlevels : e.nesting ≤ levels)
    {s : Text} (hs : IsSpace s) :
    ∃ outcome, Agrees vars e outcome ∧ (∀ x, outcome = .ok x → x.isFinite = true) ∧
      (resolveGroups limit (levels + 1) (e.text ++ s)).outcome = outcome.map .value := by
  rcases becomesChain vars limit he hrange hnames hlevels parenFree_nil s with
    ⟨e', n, links, hsimp, hchain, hout⟩ | ⟨err, herr, hout⟩
  · have hfree := parenFree_append.2 ⟨hchain.parenFree hsimp.wellFormed, parenFree_of_isSpace hs⟩
    have hagrees := agrees_reduce vars hchain hsimp.wellFormed hsimp.inRange isSpace_nil hs
    rw [List.nil_append] at hout hagrees
    rw [List.nil_append, outcome_resolveGroups_of_parenFree hfree] at hout
    refine ⟨_, hagrees.of_simplifies hsimp, fun x hx => ?_, hout.trans ?_⟩
    · rw [hx] at hagrees
      exact hchain.isFinite hsimp.wellFormed hsimp.inRange ((hagrees.1 x).2 rfl)
    · cases (reduce (e'.text ++ s)).outcome <;> rfl
  · exact ⟨.error err, herr, fun _ h => (by cases h), hout⟩

end EquationFigure
