import EquationFigure.Proofs.Equation.Values
import Mathlib.Logic.Relation

/-!
# Matching parentheses

Parentheses are paired by rewriting: a group is replaced by its value and whatever follows its `)`.
Reading the parentheses of a text from left to right, one only has to keep the number of groups that
are open, and this number goes through a rewrite unchanged.

* `ProperlyNested t` — every `)` closes a group, and every group is closed.
* `openAfter groups t` — how many groups are open behind the text, when `groups` are open before it;
  `openAfter_eq_some_iff` says what that means in terms of the starts of the text.
* `HandsBack.openAfter_succ`, `Resolves.openAfter_eq` — resolving groups keeps that number.
* `ResolvesNext` — the texts that resolving one text goes through, here and in nested calls;
  `GuardFails` — it gives up at one of them for want of a parenthesis.
* `parentheses_matched` — which texts without names are refused for their parentheses.
-/

set_option autoImplicit false

namespace EquationFigure

open Text EvalM

/-! ## Counting open groups -/

/-- No start of the text has more `)` than `(`, and all of it has as many. -/
def ProperlyNested (t : Text) : Prop :=
  (∀ s u, t = s ++ u → s.count ')' ≤ s.count '(') ∧ t.count '(' = t.count ')'

/-- How many groups are open behind the text, when `groups` are open before it and the text never
closes one more than are open. -/
def openAfter (groups : Nat) : Text → Option Nat
  | [] => some groups
  | c :: t =>
    if c = '(' then openAfter (groups + 1) t
    else if c = ')' then
      match groups with
      | 0 => none
      | groups + 1 => openAfter groups t
    else openAfter groups t

section OpenAfter

variable {groups left : Nat} {s t : Text}

@[simp] theorem openAfter_open (groups : Nat) (t : Text) :
    openAfter groups ('(' :: t) = openAfter (groups + 1) t := by
  rw [openAfter.eq_def]
  exact if_pos rfl

@[simp] theorem openAfter_close (groups : Nat) (t : Text) :
    openAfter (groups + 1) (')' :: t) = openAfter groups t := by
  rw [openAfter.eq_def]
  exact (if_neg (by decide)).trans (if_pos rfl)

@[simp] theorem openAfter_zero_close (t : Text) : openAfter 0 (')' :: t) = none := by
  rw [openAfter.eq_def]
  exact (if_neg (by decide)).trans (if_pos rfl)

theorem openAfter_cons_of_not_paren {c : Char} (hc : isParen c = false) (groups : Nat) (t : Text) :
    openAfter groups (c :: t) = openAfter groups t := by
  rw [isParen, Bool.or_eq_false_iff, beq_eq_false_iff_ne, beq_eq_false_iff_ne] at hc
  rw [openAfter.eq_def]
  exact (if_neg hc.1).trans (if_neg hc.2)

/-- What has no parentheses opens and closes nothing. -/
theorem openAfter_append_of_parenFree (hs : ParenFree s) (groups : Nat) (t : Text) :
    openAfter groups (s ++ t) = openAfter groups t := by
  induction s with
  | nil => rfl
  | cons c s ih =>
    obtain ⟨hc, hs⟩ := List.forall_mem_cons.1 hs
    rw [List.cons_append, openAfter_cons_of_not_paren hc, ih hs]

theorem openAfter_of_parenFree (ht : ParenFree t) (groups : Nat) :
    openAfter groups t = some groups := by
  have h := openAfter_append_of_parenFree ht groups []
  rwa [List.append_nil] at h

/-- **The number of open groups, in terms of the starts of the text.** -/
theorem openAfter_eq_some_iff :
    openAfter groups t = some left ↔
      (∀ s u, t = s ++ u → s.count ')' ≤ s.count '(' + groups) ∧
        t.count ')' + left = t.count '(' + groups := by
  induction t generalizing groups with
  | nil =>
    have hstart : ∀ s u : Text, [] = s ++ u → s.count ')' ≤ s.count '(' + groups := by
      intro s u h
      rw [(List.append_eq_nil_iff.1 h.symm).1]
      exact Nat.zero_le _
    rw [openAfter, Option.some.injEq, and_iff_right hstart]
    simp [eq_comm]
  | cons c t ih =>
    -- A start of the text is empty, or it is the first character and a start of the rest.
    have hstarts : ∀ bound : Nat, (∀ s u, c :: t = s ++ u → s.count ')' ≤ s.count '(' + bound) ↔
        ∀ s u, t = s ++ u → (c :: s).count ')' ≤ (c :: s).count '(' + bound := by
      intro bound
      refine ⟨fun h s u hsu => h (c :: s) u (by rw [hsu, List.cons_append]), fun h s u hsu => ?_⟩
      cases s with
      | nil => exact Nat.zero_le _
      | cons d s =>
        obtain ⟨rfl, hsu'⟩ := List.cons.inj hsu
        exact h s u hsu'
    rw [hstarts]
    by_cases hopen : c = '('
    · subst hopen
      rw [openAfter_open, ih]
      simp only [List.count_cons_self, List.count_cons_of_ne (by decide : '(' ≠ ')')]
      refine and_congr (forall₃_congr fun s u _ => ?_) ?_ <;> omega
    by_cases hclose : c = ')'
    · subst hclose
      simp only [List.count_cons_self, List.count_cons_of_ne (by decide : ')' ≠ '(')]
      cases groups with
      | zero =>
        rw [openAfter_zero_close]
        refine iff_of_false nofun fun h => ?_
        have := h.1 [] t rfl
        simp at this
      | succ groups =>
        rw [openAfter_close, ih]
        refine and_congr (forall₃_congr fun s u _ => ?_) ?_ <;> omega
    · have hparen : isParen c = false := by simp [isParen, hopen, hclose]
      rw [openAfter_cons_of_not_paren hparen, ih]
      simp only [List.count_cons_of_ne hopen, List.count_cons_of_ne hclose]

theorem properlyNested_iff : ProperlyNested t ↔ openAfter 0 t = some 0 := by
  rw [openAfter_eq_some_iff, ProperlyNested]
  simp only [Nat.add_zero, eq_comm]

end OpenAfter

/-! ## What resolving does to open groups -/

section Resolves

variable {t rest u : Text}

/-- **A group that hands something back is closed**, and behind it as many groups are open as behind
what it hands back. -/
theorem HandsBack.openAfter_succ (h : HandsBack t rest) (groups : Nat) :
    openAfter (groups + 1) t = openAfter groups rest := by
  induction h generalizing groups with
  | close hbefore _ =>
    rw [openAfter_append_of_parenFree hbefore, openAfter_close,
      openAfter_append_of_parenFree (parenFree_numberText _)]
  | group hbefore _ _ ih ih' =>
    rw [openAfter_append_of_parenFree hbefore, openAfter_open, ih, ← ih',
      openAfter_append_of_parenFree hbefore]

/-- The `)` of the group is one too many for a text of its own. -/
theorem HandsBack.openAfter_zero (h : HandsBack t rest) : openAfter 0 t = none := by
  induction h with
  | close hbefore _ => rw [openAfter_append_of_parenFree hbefore, openAfter_zero_close]
  | group hbefore hafter _ _ ih' =>
    rw [openAfter_append_of_parenFree hbefore, openAfter_open, hafter.openAfter_succ,
      ← openAfter_append_of_parenFree hbefore, ih']

/-- **What can be resolved leaves as many groups open as it finds.** -/
theorem Resolves.openAfter_eq (h : Resolves t u) (groups : Nat) :
    openAfter groups t = some groups := by
  induction h with
  | flat ht => exact openAfter_of_parenFree ht groups
  | group hbefore hafter _ ih =>
    rw [openAfter_append_of_parenFree hbefore, openAfter_open, hafter.openAfter_succ,
      ← openAfter_append_of_parenFree hbefore, ih]

end Resolves

/-! ## The texts that resolving goes through -/

section ResolvesNext

variable {limit levels levels' groups : Nat} {before after rest t u : Text}

/-- When the groups of the first text are resolved with so many levels left, those of the second one
are next: what follows the first `(` is a text of its own, one level deeper, and what it hands back
takes its place. -/
inductive ResolvesNext (limit : Nat) : Nat × Text → Nat × Text → Prop
  | nested {levels : Nat} {before after : Text} : ParenFree before → ')' ∈ after →
    ResolvesNext limit (levels + 1, before ++ '(' :: after) (levels, after)
  | again {levels : Nat} {before after rest : Text} : ParenFree before → ')' ∈ after →
    (resolveGroups limit levels after).outcome = .ok (.closed rest) →
    ResolvesNext limit (levels + 1, before ++ '(' :: after) (levels + 1, before ++ rest)

/-- A group of the text is given up: there is no `)` behind its `(`, or no `)` was met when its
contents were resolved, or putting its value in its place left the text as it was. -/
def GuardFails (limit levels : Nat) (t : Text) : Prop :=
  ∃ before after, ParenFree before ∧ t = before ++ '(' :: after ∧
    (')' ∉ after ∨
      (∃ x, (resolveGroups limit (levels - 1) after).outcome = .ok (.value x)) ∨
      ∃ rest, (resolveGroups limit (levels - 1) after).outcome = .ok (.closed rest) ∧
        before ++ rest = t)

/-- **Each next text closes all groups that are open in front of it**, if the one before does. -/
theorem ResolvesNext.exists_open {a b : Nat × Text} (h : ResolvesNext limit a b)
    (ha : ∃ groups, openAfter groups a.2 = some 0) : ∃ groups, openAfter groups b.2 = some 0 := by
  obtain ⟨groups, ha⟩ := ha
  cases h with
  | nested hbefore _ =>
    rw [openAfter_append_of_parenFree hbefore, openAfter_open] at ha
    exact ⟨groups + 1, ha⟩
  | again hbefore _ hout =>
    rw [openAfter_append_of_parenFree hbefore, openAfter_open,
      (HandsBack.of_resolveGroups hout).openAfter_succ] at ha
    exact ⟨groups, (openAfter_append_of_parenFree hbefore _ _).trans ha⟩

/-- So no group of such a text is given up. -/
theorem not_guardFails (h : openAfter groups t = some 0) : ¬ GuardFails limit levels t := by
  rintro ⟨before, after, hbefore, rfl, hguard⟩
  rw [openAfter_append_of_parenFree hbefore, openAfter_open] at h
  rcases hguard with hopen | ⟨x, hvalue⟩ | ⟨rest, hout, hsame⟩
  · have hcount := (openAfter_eq_some_iff.1 h).2
    rw [List.count_eq_zero.2 hopen] at hcount
    omega
  · cases hlevels : levels - 1 with
    | zero =>
      rw [hlevels] at hvalue
      cases hvalue
    | succ k =>
      rw [hlevels, resolveGroups_eq_value_iff] at hvalue
      obtain ⟨u, hu, -⟩ := hvalue
      rw [(Resolves.of_flattens hu).openAfter_eq] at h
      cases h
  · have hle := keepsOpen_resolveGroups _ _ _ _ hout
    rw [List.append_cancel_left hsame, List.count_cons_self] at hle
    omega

/-- **Only a group that is given up makes the parentheses of a text be refused.** -/
theorem exists_guardFails {w : Text}
    (h : (resolveGroups limit levels t).outcome = .error (.parenthesisMismatch w)) :
    ∃ levels' u, Relation.ReflTransGen (ResolvesNext limit) (levels, t) (levels', u) ∧
      GuardFails limit levels' u := by
  revert h
  refine resolveGroups_induction ?exhausted ?flat ?close ?stuck ?refused ?fails ?group levels t
  case exhausted => exact fun _ h => by cases h
  case flat => exact fun _ _ _ _ _ h => by cases h
  case close => exact fun _ _ _ _ _ _ h => by cases h
  case stuck =>
    intro _ _ e he h
    cases h
    exact he.elim
  case refused => exact fun levels before after hbefore hwhy _ =>
    ⟨_, _, .refl, before, after, hbefore, rfl, hwhy.imp_right .inl⟩
  case fails =>
    intro levels before after e hbefore hafter ih h
    obtain ⟨levels', u, hreach, hguard⟩ := ih h
    exact ⟨levels', u, .head (.nested hbefore hafter) hreach, hguard⟩
  case group =>
    intro levels before after rest hbefore hafter hout _ ih h
    obtain ⟨levels', u, hreach, hguard⟩ := ih h
    exact ⟨levels', u, .head (.again hbefore hafter hout) hreach, hguard⟩

/-- **No group is given up on the way from a properly nested text.** -/
theorem not_guardFails_of_reaches (ht : openAfter 0 t = some 0)
    (h : Relation.ReflTransGen (ResolvesNext limit) (levels, t) (levels', u)) :
    ¬ GuardFails limit levels' u := by
  have hopen : ∀ b, Relation.ReflTransGen (ResolvesNext limit) (levels, t) b →
      ∃ groups, openAfter groups b.2 = some 0 := by
    intro b hb
    induction hb with
    | refl => exact ⟨0, ht⟩
    | tail _ hstep ih => exact hstep.exists_open ih
  obtain ⟨groups, hgroups⟩ := hopen _ h
  exact not_guardFails hgroups

end ResolvesNext

/-! ## Equations without names -/

section Evaluate

variable {vars : Variables} {limit levels : Nat} {pending : List Text} {t : Text}

theorem nameless_equationBody (ht : Nameless t) : Nameless (equationBody t) := by
  obtain ⟨s, -, hsplit⟩ := exists_equationBody t
  rw [hsplit, nameless_append] at ht
  exact ht.2

theorem evaluateAt_of_nameless (ht : Nameless t) :
    evaluateAt vars limit (levels + 1) pending t = resolve limit levels (equationBody t) := by
  rw [evaluateAt_succ, evaluateUsing, substitute, substituteWithin.eq_def,
    firstName?_eq_none_iff.2 (nameless_equationBody ht)]
  rfl

/-- Before the body of an equation no group is opened or closed. -/
theorem exists_parenFree_beforeBody (t : Text) : ∃ s, ParenFree s ∧ t = s ++ equationBody t := by
  obtain ⟨s, hs, ht⟩ := exists_beforeBody t
  refine ⟨s, fun c hc => ?_, ht⟩
  by_contra hparen
  rw [Bool.not_eq_false, isParen, Bool.or_eq_true, beq_iff_eq, beq_iff_eq] at hparen
  rcases hparen with rfl | rfl <;> rcases hs _ hc with h | h <;> revert h <;> decide

theorem openAfter_equationBody (groups : Nat) (t : Text) :
    openAfter groups (equationBody t) = openAfter groups t := by
  obtain ⟨s, hs, ht⟩ := exists_parenFree_beforeBody t
  conv_rhs => rw [ht]
  exact (openAfter_append_of_parenFree hs _ _).symm

theorem count_equationBody_iff (t : Text) :
    (equationBody t).count '(' = (equationBody t).count ')' ↔ t.count '(' = t.count ')' := by
  obtain ⟨s, hs, ht⟩ := exists_parenFree_beforeBody t
  have hcount := count_eq_of_parenFree hs
  conv_rhs => rw [ht, List.count_append, List.count_append, hcount]
  omega

/-- A text that can be worked out is properly nested. -/
theorem openAfter_of_resolve {x : Float} (h : (resolve limit levels t).outcome = .ok x) :
    openAfter 0 t = some 0 := by
  obtain ⟨-, u, hu, -⟩ := resolve_eq_ok_iff.1 h
  exact (Resolves.of_flattens hu).openAfter_eq 0

/-- A properly nested text is not refused for its parentheses. -/
theorem resolve_ne_mismatch (ht : openAfter 0 t = some 0) (w : Text) :
    (resolve limit levels t).outcome ≠ .error (.parenthesisMismatch w) := by
  intro h
  rw [resolve, if_pos (properlyNested_iff.2 ht).2, outcome, Attempt.run_bind,
    run_eq_of_quiet (quiet_resolveGroups _ _ _)] at h
  cases hout : (resolveGroups limit (levels + 1) t).outcome with
  | error e =>
    rw [hout] at h
    cases h
    obtain ⟨levels', u, hreach, hguard⟩ := exists_guardFails hout
    exact not_guardFails_of_reaches ht hreach hguard
  | ok resolved =>
    rw [hout] at h
    cases resolved with
    | value x => cases h
    | closed rest =>
      rw [(HandsBack.of_resolveGroups hout).openAfter_zero] at ht
      cases ht

/-- **Parentheses are matched exactly.**  An equation without names that has not as many `(` as `)`
is refused for that, whatever else is wrong with it.  If it has a value, its parentheses are
properly nested.  And if they are, it is not refused for its parentheses, and nowhere on the way is
a group given up. -/
theorem parentheses_matched (vars : Variables) (options : EvalOptions) (pending : List Text)
    (t : Text) (ht : Nameless t) (s : Session) :
    (t.count '(' ≠ t.count ')' → ((evaluate vars options pending t).run s).1 =
        .error (.parenthesisMismatch (equationBody t))) ∧
      (∀ x, ((evaluate vars options pending t).run s).1 = .ok x → ProperlyNested t) ∧
      (ProperlyNested t →
        (∀ w, ((evaluate vars options pending t).run s).1 ≠ .error (.parenthesisMismatch w)) ∧
        ∀ levels u, Relation.ReflTransGen (ResolvesNext options.maxDepth)
            (options.maxDepth + 1, equationBody t) (levels, u) →
          ¬ GuardFails options.maxDepth levels u) := by
  have hrun : ((evaluate vars options pending t).run s).1 =
      (resolve options.maxDepth options.maxDepth (equationBody t)).outcome := by
    rw [evaluate, evaluateAt_of_nameless ht]
    exact (quiet_resolve _ _ _).outcome s
  rw [hrun]
  refine ⟨fun hcount => ?_, fun x hx => ?_, fun hnested => ?_⟩
  · rw [resolve, if_neg (mt (count_equationBody_iff t).1 hcount)]
    rfl
  · exact properlyNested_iff.2 ((openAfter_equationBody 0 t).symm.trans (openAfter_of_resolve hx))
  · have hbody : openAfter 0 (equationBody t) = some 0 :=
      (openAfter_equationBody 0 t).trans (properlyNested_iff.1 hnested)
    exact ⟨resolve_ne_mismatch hbody, fun levels u => not_guardFails_of_reaches hbody⟩

end Evaluate

/-- A `)` too few, a `)` that closes nothing though the counts agree, and groups side by side and
inside each other, each evaluated at any depth. -/
theorem parentheses_matched_by_shape :
    Nameless "=(2+3".toList ∧ Nameless "2)+(3".toList ∧ Nameless "(1)-((2)/0)".toList ∧
      ∀ options : EvalOptions,
        evaluateFresh ∅ options "=(2+3".toList = .error (.parenthesisMismatch "(2+3".toList) ∧
        (∀ x, evaluateFresh ∅ options "2)+(3".toList ≠ .ok x) ∧
        ∀ w, evaluateFresh ∅ options "(1)-((2)/0)".toList ≠ .error (.parenthesisMismatch w) := by
  have hopen : Nameless "=(2+3".toList := firstName?_eq_none_iff.1 (by decide)
  have hclosed : Nameless "2)+(3".toList := firstName?_eq_none_iff.1 (by decide)
  have hnested : Nameless "(1)-((2)/0)".toList := firstName?_eq_none_iff.1 (by decide)
  refine ⟨hopen, hclosed, hnested, fun options => ⟨?_, fun x hx => ?_, ?_⟩⟩
  · exact (parentheses_matched ∅ options [] _ hopen {}).1 (by decide)
  · have h := (parentheses_matched ∅ options [] _ hclosed {}).2.1 x hx
    rw [properlyNested_iff] at h
    revert h
    decide
  · exact ((parentheses_matched ∅ options [] _ hnested {}).2.2
      (properlyNested_iff.2 (by decide))).1

end EquationFigure
