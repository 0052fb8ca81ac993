import EquationFigure.Proofs.Equation.Progress

/-!
# Groups, one after the other

The first parenthesis of a text decides what is done next.  If it opens a group, the group is
replaced by its value and the text is looked at again.  Each time there is one `(` less, so the
limit on the number of groups is never reached.

* `firstParen?_eq_some_iff` — where the first parenthesis stands.
* `resolveEach_induction` — induction along the groups of a text.
* `resolveGroups_of_open` — resolving the groups of a text, without a limit on their number.
-/

set_option autoImplicit false

namespace EquationFigure

open EvalM

/-! ## The first parenthesis -/

/-- The text has no parentheses. -/
def ParenFree (t : Text) : Prop := ∀ c ∈ t, isParen c = false

theorem parenFree_nil : ParenFree [] := nofun

theorem parenFree_append {s t : Text} : ParenFree (s ++ t) ↔ ParenFree s ∧ ParenFree t := by
  simp only [ParenFree, List.mem_append, or_imp, forall_and]

theorem firstParen?_eq_none_iff {t : Text} : firstParen? t = none ↔ ParenFree t := by
  induction t with
  | nil => exact iff_of_true rfl parenFree_nil
  | cons c t ih =>
    rw [firstParen?, ParenFree, List.forall_mem_cons]
    cases hparen : isParen c with
    | true => simp
    | false =>
      simp only [Bool.false_eq_true, if_false, Option.map_eq_none_iff, ih, true_and]
      rfl

theorem firstParen?_append_cons {before : Text} {paren : Char} (hbefore : ParenFree before)
    (hparen : isParen paren = true) (after : Text) :
    firstParen? (before ++ paren :: after) = some (before, paren, after) := by
  induction before with
  | nil => exact if_pos hparen
  | cons c before ih =>
    obtain ⟨hc, hbefore⟩ := List.forall_mem_cons.1 hbefore
    rw [List.cons_append, firstParen?, if_neg (by simp [hc]), ih hbefore]
    rfl

theorem parenFree_of_firstParen? {t before after : Text} {paren : Char}
    (h : firstParen? t = some (before, paren, after)) :
    ParenFree before ∧ isParen paren = true := by
  induction t generalizing before with
  | nil => cases h
  | cons c t ih =>
    rw [firstParen?] at h
    cases hparen : isParen c with
    | true =>
      rw [if_pos hparen] at h
      cases h
      exact ⟨parenFree_nil, hparen⟩
    | false =>
      rw [if_neg (by simp [hparen]), Option.map_eq_some_iff] at h
      obtain ⟨⟨b, p, a⟩, hfirst, heq⟩ := h
      cases heq
      obtain ⟨hb, hp⟩ := ih hfirst
      exact ⟨List.forall_mem_cons.2 ⟨hparen, hb⟩, hp⟩

/-- **The first parenthesis stands behind a text without one.** -/
theorem firstParen?_eq_some_iff {t before after : Text} {paren : Char} :
    firstParen? t = some (before, paren, after) ↔
      t = before ++ paren :: after ∧ ParenFree before ∧ isParen paren = true := by
  refine ⟨fun h => ⟨firstParen?_eq_some h, parenFree_of_firstParen? h⟩, ?_⟩
  rintro ⟨rfl, hbefore, hparen⟩
  exact firstParen?_append_cons hbefore hparen after

/-- A text has no parenthesis, or a first one, which closes or opens a group. -/
theorem paren_cases (t : Text) :
    ParenFree t ∨ (∃ before after, ParenFree before ∧ t = before ++ ')' :: after) ∨
      ∃ before after, ParenFree before ∧ t = before ++ '(' :: after := by
  cases hfirst : firstParen? t with
  | none => exact .inl (firstParen?_eq_none_iff.1 hfirst)
  | some p =>
    obtain ⟨before, paren, after⟩ := p
    obtain ⟨ht, hbefore, hparen⟩ := firstParen?_eq_some_iff.1 hfirst
    rw [isParen, Bool.or_eq_true, beq_iff_eq, beq_iff_eq] at hparen
    rcases hparen with rfl | rfl
    · exact .inr (.inr ⟨before, after, hbefore, ht⟩)
    · exact .inr (.inl ⟨before, after, hbefore, ht⟩)

/-- A parenthesis is not in a part of the text that has none, but behind it. -/
theorem exists_of_append_eq_paren {before rest inner after : Text} {c : Char}
    (h : ParenFree before) (hc : isParen c = true) (heq : before ++ rest = inner ++ c :: after) :
    ∃ u, inner = before ++ u ∧ rest = u ++ c :: after := by
  rcases List.append_eq_append_iff.1 heq with ⟨u, rfl, hrest⟩ | ⟨u, rfl, hu⟩
  · exact ⟨u, rfl, hrest⟩
  · cases u with
    | nil => exact ⟨[], by simp, by simpa using hu.symm⟩
    | cons c u =>
      cases hu
      rw [h c (by simp)] at hc
      cases hc

theorem count_eq_zero_of_parenFree {t : Text} (h : ParenFree t) : t.count '(' = 0 :=
  List.count_eq_zero.2 fun hmem => by
    have := h _ hmem
    revert this
    decide

/-- The text of a double has no parentheses. -/
theorem parenFree_numberText (x : Float) : ParenFree (numberText x) := by
  by_cases hfin : x.isFinite = true
  · intro c hc
    have hpart := isNumberPart_numberText hfin c hc
    by_contra hparen
    rw [Bool.not_eq_false, isParen, Bool.or_eq_true, beq_iff_eq, beq_iff_eq] at hparen
    rcases hparen with rfl | rfl <;> revert hpart <;> decide
  · have hwords : ∀ w ∈ [['N', 'a', 'N'], infName, '-' :: infName], firstParen? w = none := by
      decide
    have hword := numberText_of_not_isFinite (Bool.not_eq_true _ ▸ hfin)
    exact firstParen?_eq_none_iff.1 (hwords _ hword)

/-! ## What resolving does -/

section ResolveEach

variable {nested : Text → EvalM Resolved} {depth groups : Nat} {t before after : Text}

theorem resolveEach_of_parenFree (h : ParenFree t) :
    resolveEach nested depth groups t = (do return .value (← reduce t)) := by
  rw [resolveEach.eq_def, firstParen?_eq_none_iff.2 h]

theorem resolveEach_of_close (h : ParenFree before) :
    resolveEach nested depth groups (before ++ ')' :: after) = closeGroup depth before after := by
  rw [resolveEach.eq_def, firstParen?_eq_some_iff.2 ⟨rfl, h, by decide⟩]
  exact if_pos rfl

theorem resolveEach_of_open_alone (h : ParenFree before) (hafter : ')' ∉ after) :
    resolveEach nested depth groups (before ++ '(' :: after) =
      .fail (.parenthesisMismatch (before ++ '(' :: after)) := by
  rw [resolveEach.eq_def, firstParen?_eq_some_iff.2 ⟨rfl, h, by decide⟩]
  dsimp only
  rw [if_neg (by decide), if_pos hafter]

theorem resolveEach_zero_of_open (h : ParenFree before) :
    resolveEach nested depth 0 (before ++ '(' :: after) =
      .fail (.parenthesisMismatch (before ++ '(' :: after)) := by
  rw [resolveEach.eq_def, firstParen?_eq_some_iff.2 ⟨rfl, h, by decide⟩]
  dsimp only
  rw [if_neg (by decide), ite_self]

theorem resolveEach_of_open (h : ParenFree before) (hafter : ')' ∈ after) :
    resolveEach nested depth (groups + 1) (before ++ '(' :: after) = (nested after >>= fun
      | .value _ => .fail (.parenthesisMismatch (before ++ '(' :: after))
      | .closed rest => do
        EvalM.record (.resolvedGroup depth (before ++ rest))
        resolveEach nested depth groups (before ++ rest)) := by
  rw [resolveEach.eq_def, firstParen?_eq_some_iff.2 ⟨rfl, h, by decide⟩]
  dsimp only
  rw [if_neg (by decide)]
  exact if_neg (not_not_intro hafter)

/-- **Induction along the groups of a text.**  A text with a group comes back to that with something
else in the place of the group. -/
@[elab_as_elim]
theorem resolveEach_induction {motive : Text → EvalM Resolved → Prop}
    (value : ∀ t, ParenFree t → motive t (do return .value (← reduce t)))
    (close : ∀ before after, ParenFree before →
      motive (before ++ ')' :: after) (closeGroup depth before after))
    (refused : ∀ before after, ParenFree before →
      motive (before ++ '(' :: after) (.fail (.parenthesisMismatch (before ++ '(' :: after))))
    (group : ∀ groups before after, ParenFree before → ')' ∈ after →
      (∀ rest, motive (before ++ rest) (resolveEach nested depth groups (before ++ rest))) →
      motive (before ++ '(' :: after) (nested after >>= fun
        | .value _ => .fail (.parenthesisMismatch (before ++ '(' :: after))
        | .closed rest => do
          EvalM.record (.resolvedGroup depth (before ++ rest))
          resolveEach nested depth groups (before ++ rest)))
    (groups : Nat) (t : Text) : motive t (resolveEach nested depth groups t) := by
  induction groups generalizing t with
  | zero =>
    rcases paren_cases t with ht | ⟨before, after, hbefore, rfl⟩ | ⟨before, after, hbefore, rfl⟩
    · rw [resolveEach_of_parenFree ht]
      exact value t ht
    · rw [resolveEach_of_close hbefore]
      exact close before after hbefore
    · rw [resolveEach_zero_of_open hbefore]
      exact refused before after hbefore
  | succ groups ih =>
    rcases paren_cases t with ht | ⟨before, after, hbefore, rfl⟩ | ⟨before, after, hbefore, rfl⟩
    · rw [resolveEach_of_parenFree ht]
      exact value t ht
    · rw [resolveEach_of_close hbefore]
      exact close before after hbefore
    · by_cases hafter : ')' ∈ after
      · rw [resolveEach_of_open hbefore hafter]
        exact group groups before after hbefore hafter fun rest => ih (before ++ rest)
      · rw [resolveEach_of_open_alone hbefore hafter]
        exact refused before after hbefore

end ResolveEach

/-! ## Without a limit -/

/-- The text handed back by a group has no more `(` than the text behind its `(`. -/
def KeepsOpen (nested : Text → EvalM Resolved) : Prop :=
  ∀ t rest, (nested t).outcome = .ok (.closed rest) → rest.count '(' ≤ t.count '('

theorem outcome_closeGroup {depth : Nat} {before after rest : Text}
    (h : (closeGroup depth before after).outcome = .ok (.closed rest)) :
    ∃ x, rest = numberText x ++ after := by
  rw [closeGroup, outcome_bind (quiet_reduce before)
    fun _ => (quiet_record _).bind fun _ => quiet_pure _] at h
  cases hout : (reduce before).outcome with
  | error e =>
    rw [hout] at h
    cases h
  | ok x =>
    rw [hout] at h
    cases h
    exact ⟨x, rfl⟩

theorem count_append_of_parenFree {before : Text} (h : ParenFree before) (t : Text) :
    (before ++ t).count '(' = t.count '(' := by
  rw [List.count_append, count_eq_zero_of_parenFree h, Nat.zero_add]

theorem quiet_afterGroup {nested : Text → EvalM Resolved} (hquiet : ∀ t, Quiet (nested t))
    (depth groups : Nat) (t before : Text) (resolved : Resolved) :
    Quiet (match resolved with
      | .value _ => .fail (.parenthesisMismatch t)
      | .closed rest => do
        EvalM.record (.resolvedGroup depth (before ++ rest))
        resolveEach nested depth groups (before ++ rest)) := by
  cases resolved with
  | value x => exact quiet_fail _
  | closed rest => exact (quiet_record _).bind fun _ => quiet_resolveEach hquiet _ _ _

theorem keepsOpen_resolveEach {nested : Text → EvalM Resolved} (hquiet : ∀ t, Quiet (nested t))
    (h : KeepsOpen nested) (depth groups : Nat) : KeepsOpen (resolveEach nested depth groups) := by
  intro t
  refine resolveEach_induction ?value ?close ?refused ?group groups t
  case value =>
    intro t _ rest hout
    rw [outcome_bind (quiet_reduce t) fun _ => quiet_pure _] at hout
    split at hout <;> cases hout
  case close =>
    -- What stands before the `)` becomes a numeral, so no parenthesis is opened.
    intro before after hbefore rest hout
    obtain ⟨x, rfl⟩ := outcome_closeGroup hout
    rw [count_append_of_parenFree hbefore, count_append_of_parenFree (parenFree_numberText x),
      List.count_cons]
    exact Nat.le_add_right _ _
  case refused => exact fun _ _ _ _ hout => by cases hout
  case group =>
    intro groups before after hbefore _ ih rest hout
    rw [outcome_bind (hquiet after) (quiet_afterGroup hquiet _ _ _ _)] at hout
    cases hnested : (nested after).outcome with
    | error e =>
      rw [hnested] at hout
      cases hout
    | ok resolved =>
      rw [hnested] at hout
      cases resolved with
      | value x => cases hout
      | closed r =>
        dsimp only at hout
        rw [outcome_record_bind (quiet_resolveEach hquiet _ _ _)] at hout
        have hr := h after r hnested
        have hrest := ih r rest hout
        rw [count_append_of_parenFree hbefore] at hrest ⊢
        rw [List.count_cons_self]
        omega

theorem keepsOpen_resolveGroups (limit levels : Nat) : KeepsOpen (resolveGroups limit levels) := by
  induction levels with
  | zero => exact fun _ _ hout => by cases hout
  | succ levels ih =>
    exact fun t => keepsOpen_resolveEach (quiet_resolveGroups _ _) ih _ _ t

/-- Any limit that is not below the number of `(` does. -/
theorem resolveEach_congr {nested : Text → EvalM Resolved} (hquiet : ∀ t, Quiet (nested t))
    (h : KeepsOpen nested) (depth : Nat) {groups groups' : Nat} {t : Text}
    (hle : t.count '(' ≤ groups) (hle' : t.count '(' ≤ groups') :
    resolveEach nested depth groups t = resolveEach nested depth groups' t := by
  induction groups generalizing groups' t with
  | zero =>
    rcases paren_cases t with ht | ⟨before, after, hbefore, rfl⟩ | ⟨before, after, hbefore, rfl⟩
    · rw [resolveEach_of_parenFree ht, resolveEach_of_parenFree ht]
    · rw [resolveEach_of_close hbefore, resolveEach_of_close hbefore]
    · rw [count_append_of_parenFree hbefore, List.count_cons_self] at hle
      omega
  | succ groups ih =>
    rcases paren_cases t with ht | ⟨before, after, hbefore, rfl⟩ | ⟨before, after, hbefore, rfl⟩
    · rw [resolveEach_of_parenFree ht, resolveEach_of_parenFree ht]
    · rw [resolveEach_of_close hbefore, resolveEach_of_close hbefore]
    · rw [count_append_of_parenFree hbefore, List.count_cons_self] at hle hle'
      obtain ⟨groups', rfl⟩ : ∃ k, groups' = k + 1 := Nat.exists_eq_succ_of_ne_zero (by omega)
      by_cases hafter : ')' ∈ after
      · rw [resolveEach_of_open hbefore hafter, resolveEach_of_open hbefore hafter]
        refine (hquiet after).bind_congr fun resolved hout => ?_
        cases resolved with
        | value x => rfl
        | closed rest =>
          have hrest := h after rest hout
          have heq : resolveEach nested depth groups (before ++ rest) =
              resolveEach nested depth groups' (before ++ rest) :=
            ih (by rw [count_append_of_parenFree hbefore]; omega)
              (by rw [count_append_of_parenFree hbefore]; omega)
          simp only [heq]
      · rw [resolveEach_of_open_alone hbefore hafter, resolveEach_of_open_alone hbefore hafter]

/-- **The groups of a text are resolved one after the other.**  The limit on their number is never
reached. -/
theorem resolveGroups_of_open {limit levels : Nat} {before after : Text} (h : ParenFree before)
    (hafter : ')' ∈ after) :
    resolveGroups limit (levels + 1) (before ++ '(' :: after) =
      (resolveGroups limit levels after >>= fun
        | .value _ => .fail (.parenthesisMismatch (before ++ '(' :: after))
        | .closed rest => do
          EvalM.record (.resolvedGroup (limit - levels) (before ++ rest))
          resolveGroups limit (levels + 1) (before ++ rest)) := by
  rw [resolveGroups, count_append_of_parenFree h, List.count_cons_self,
    resolveEach_of_open h hafter]
  refine (quiet_resolveGroups _ _ _).bind_congr fun resolved hout => ?_
  cases resolved with
  | value x => rfl
  | closed rest =>
    have hrest := keepsOpen_resolveGroups limit levels after rest hout
    rw [← count_append_of_parenFree h] at hrest
    have heq := resolveEach_congr (quiet_resolveGroups limit levels)
      (keepsOpen_resolveGroups limit levels) (limit - levels) hrest (Nat.le_refl _)
    simp only [heq, resolveGroups]

theorem resolveGroups_of_open_alone {limit levels : Nat} {before after : Text}
    (h : ParenFree before) (hafter : ')' ∉ after) :
    resolveGroups limit (levels + 1) (before ++ '(' :: after) =
      .fail (.parenthesisMismatch (before ++ '(' :: after)) :=
  resolveEach_of_open_alone h hafter

theorem resolveGroups_of_close {limit levels : Nat} {before after : Text} (h : ParenFree before) :
    resolveGroups limit (levels + 1) (before ++ ')' :: after) =
      closeGroup (limit - levels) before after :=
  resolveEach_of_close h

theorem resolveGroups_of_parenFree {limit levels : Nat} {t : Text} (h : ParenFree t) :
    resolveGroups limit (levels + 1) t = (do return .value (← reduce t)) :=
  resolveEach_of_parenFree h

end EquationFigure
