import EquationFigure.Proofs.Equation.Adequacy
import EquationFigure.Proofs.Equation.Termination

/-!
# Writing a formula in place of its name

A formula in parentheses may stand wherever its name may.  The name is replaced by its value before
any group is resolved, and the group only later, in the middle of a text in which other groups have
been resolved by then.  In the end both have been replaced by the same number, and the order in
which groups are resolved makes no difference.

* `inlineFormula name f t` — the text with `(f)` in the place of every token `name`.
* `Inlined x u s t` — `t` is `s` with the group of `u`, whose value is `x`, in place of some of the
  places where `x` is written; `Inlined.computes_iff` says that both have the same value.
* `hasValue_inlineFormula_iff` — the equation has the value that it has with the formula in it.
* `evaluateFresh_inlineFormula_iff` — so evaluation finds the same, exactly if the value of the
  formula is finite.
-/

set_option autoImplicit false

namespace EquationFigure

open Text EvalM

/-! ## The text with the formula in it -/

/-- The text with the formula, in parentheses, in the place of every token that is the name. -/
def inlineFormula (name f : Text) (t : Text) : Text :=
  match _h : firstName? t with
  | none => t
  | some (before, token, after) =>
    before ++ (if token = name then '(' :: (f ++ [')']) else token) ++ inlineFormula name f after
termination_by t.length
decreasing_by exact length_lt_of_firstName? _h

section InlineFormula

variable {name f t before token after : Text}

theorem inlineFormula_of_nameless (h : Nameless t) : inlineFormula name f t = t := by
  rw [inlineFormula]
  split
  · rfl
  · rename_i hfirst
    rw [firstName?_eq_none_iff.2 h] at hfirst
    cases hfirst

theorem inlineFormula_of_firstName? (h : firstName? t = some (before, token, after)) :
    inlineFormula name f t =
      before ++ (if token = name then '(' :: (f ++ [')']) else token) ++
        inlineFormula name f after := by
  rw [inlineFormula]
  split
  · rename_i hnone
    rw [h] at hnone
    cases hnone
  · rename_i hsome
    rw [h] at hsome
    cases hsome
    rfl

theorem inlineFormula_append_left {s : Text} (hs : Nameless s) (t : Text) :
    inlineFormula name f (s ++ t) = s ++ inlineFormula name f t := by
  cases hfirst : firstName? t with
  | none =>
    have ht := firstName?_eq_none_iff.1 hfirst
    rw [inlineFormula_of_nameless (nameless_append.2 ⟨hs, ht⟩), inlineFormula_of_nameless ht]
  | some p =>
    obtain ⟨before, token, after⟩ := p
    rw [inlineFormula_of_firstName? hfirst,
      inlineFormula_of_firstName? (firstName?_append_of_nameless hs hfirst)]
    simp only [List.append_assoc]

/-- A text with the formula in it starts as the text does, or with the parenthesis of the formula
in the place of a name. -/
theorem headNot_inlineFormula {p : Char → Bool} (hparen : p '(' = false) (ht : HeadNot p t) :
    HeadNot p (inlineFormula name f t) := by
  cases hfirst : firstName? t with
  | none => rwa [inlineFormula_of_nameless (firstName?_eq_none_iff.1 hfirst)]
  | some q =>
    obtain ⟨before, token, after⟩ := q
    obtain ⟨rfl, -, ⟨c, rest, rfl, -⟩, -⟩ := firstName?_eq_some_iff.1 hfirst
    rw [inlineFormula_of_firstName? hfirst]
    cases before with
    | cons d before => exact headNot_cons.2 (headNot_cons.1 ht)
    | nil =>
      split
      · exact headNot_cons.2 hparen
      · exact headNot_cons.2 (headNot_cons.1 ht)

/-- What comes before the body of an equation has no names. -/
theorem equationBody_inlineFormula :
    equationBody (inlineFormula name f t) = inlineFormula name f (equationBody t) := by
  have hblanks : ∀ c ∈ t.takeWhile isBlank, isBlank c = true := fun c hc => of_mem_takeWhile hc
  have hrest := headNot_dropWhile isBlank t
  rw [← List.takeWhile_append_dropWhile (p := isBlank) (l := t),
    inlineFormula_append_left fun c hc => isNameStart_of_isBlank (hblanks c hc),
    equationBody_append_left hblanks, equationBody_append_left hblanks]
  by_cases hequals : HeadNot (· == '=') (t.dropWhile isBlank)
  · rw [equationBody_of_headNot hrest hequals, equationBody_of_headNot
      (headNot_inlineFormula (by decide) hrest) (headNot_inlineFormula (by decide) hequals)]
  · cases htext : t.dropWhile isBlank with
    | nil =>
      rw [htext] at hequals
      exact absurd headNot_nil hequals
    | cons c rest =>
      rw [htext, headNot_cons, Bool.not_eq_false, beq_iff_eq] at hequals
      subst hequals
      have hsplit : inlineFormula name f ('=' :: rest) = '=' :: inlineFormula name f rest :=
        inlineFormula_append_left (List.forall_mem_singleton.2 (by decide)) rest
      rw [hsplit, equationBody_equals, equationBody_equals]

/-- Only names are replaced. -/
theorem inlineFormula_of_not_isName (h : ¬ IsName name) : inlineFormula name f t = t := by
  induction hlen : t.length using Nat.strong_induction_on generalizing t with
  | h n ih =>
    cases hfirst : firstName? t with
    | none => exact inlineFormula_of_nameless (firstName?_eq_none_iff.1 hfirst)
    | some p =>
      obtain ⟨before, token, after⟩ := p
      have hlt := length_lt_of_firstName? hfirst
      obtain ⟨htext, -, htoken, -⟩ := firstName?_eq_some_iff.1 hfirst
      have hne : token ≠ name := fun heq => h (heq ▸ htoken)
      rw [inlineFormula_of_firstName? hfirst, if_neg hne, ih _ (hlen ▸ hlt) rfl, ← htext]

theorem firstName?_of_isName (h : IsName name) : firstName? name = some ([], name, []) :=
  firstName?_eq_some_iff.2 ⟨(List.append_nil name).symm, nameless_nil, h, headNot_nil⟩

theorem inlineFormula_self (h : IsName name) : inlineFormula name f name = '(' :: (f ++ [')']) := by
  rw [inlineFormula_of_firstName? (firstName?_of_isName h), if_pos rfl,
    inlineFormula_of_nameless nameless_nil, List.append_nil, List.nil_append]

theorem equationBody_of_isName (h : IsName name) : equationBody name = name := by
  obtain ⟨c, rest, rfl, hc, -⟩ := h
  exact equationBody_of_headNot (headNot_cons.2 (isBlank_of_isNameStart hc))
    (headNot_cons.2 (beq_of_kind hc (by decide)))

end InlineFormula

/-! ## Groups in the place of their values -/

/-- The second text is the first one with the group of `u` in place of some of the places where `x`
is written. -/
inductive Inlined (x : Float) (u : Text) : Text → Text → Prop
  | nil : Inlined x u [] []
  | cons (c : Char) {s t : Text} : Inlined x u s t → Inlined x u (c :: s) (c :: t)
  | group {s t : Text} : Inlined x u s t →
    Inlined x u (numberText x ++ s) ('(' :: (u ++ ')' :: t))

section Inlined

variable {x y : Float} {u s t s' t' p r w : Text}

theorem Inlined.refl (s : Text) : Inlined x u s s := by
  induction s with
  | nil => exact .nil
  | cons c s ih => exact .cons c ih

theorem Inlined.append (h : Inlined x u s t) (h' : Inlined x u s' t') :
    Inlined x u (s ++ s') (t ++ t') := by
  induction h with
  | nil => exact h'
  | cons c _ ih => exact .cons c ih
  | group _ ih =>
    rw [List.append_assoc, List.cons_append, List.append_assoc, List.cons_append]
    exact .group ih

/-- Without parentheses there is no group in the place of anything. -/
theorem Inlined.eq_of_parenFree (h : Inlined x u s t) (ht : ParenFree t) : s = t := by
  induction h with
  | nil => rfl
  | cons c _ ih => rw [ih fun d hd => ht d (List.mem_cons_of_mem c hd)]
  | group => exact absurd (ht '(' List.mem_cons_self) (by decide)

/-- The parentheses of the first text are in the second one. -/
theorem Inlined.exists_of_left {c : Char} (hc : isParen c = true)
    (h : Inlined x u (p ++ c :: s) w) :
    ∃ p' s', w = p' ++ c :: s' ∧ Inlined x u p p' ∧ Inlined x u s s' := by
  generalize htext : p ++ c :: s = v at h
  induction h generalizing p with
  | nil => simp at htext
  | @cons d v w h ih =>
    cases p with
    | nil =>
      cases htext
      exact ⟨[], w, rfl, .nil, h⟩
    | cons e p =>
      cases htext
      obtain ⟨p', s', rfl, hp, hs⟩ := ih rfl
      exact ⟨d :: p', s', rfl, .cons d hp, hs⟩
  | group _ ih =>
    obtain ⟨q, rfl, hq⟩ := exists_of_append_eq_paren (parenFree_numberText x) hc htext.symm
    obtain ⟨p', s', rfl, hp, hs⟩ := ih hq.symm
    exact ⟨'(' :: (u ++ ')' :: p'), s', by simp, .group hp, hs⟩

/-- The first parenthesis of the second text is one of the first text, or that of a group which
stands there in place of its value. -/
theorem Inlined.exists_of_right {c : Char} (hp : ParenFree p) (h : Inlined x u w (p ++ c :: t)) :
    (∃ s, w = p ++ c :: s ∧ Inlined x u s t) ∨
      c = '(' ∧ ∃ s t', w = p ++ (numberText x ++ s) ∧ t = u ++ ')' :: t' ∧ Inlined x u s t' := by
  generalize htext : p ++ c :: t = v at h
  induction h generalizing p with
  | nil => simp at htext
  | @cons d s v h ih =>
    cases p with
    | nil =>
      cases htext
      exact .inl ⟨s, rfl, h⟩
    | cons e p =>
      cases htext
      rcases ih (fun d hd => hp d (List.mem_cons_of_mem _ hd)) rfl with
        ⟨s', rfl, hs⟩ | ⟨hc, s', t', rfl, rfl, hs⟩
      · exact .inl ⟨s', rfl, hs⟩
      · exact .inr ⟨hc, s', t', rfl, rfl, hs⟩
  | @group s t' h _ =>
    cases p with
    | nil =>
      cases htext
      exact .inr ⟨rfl, s, t', rfl, rfl, h⟩
    | cons e p =>
      obtain ⟨rfl, -⟩ := List.cons.inj htext
      exact absurd (hp '(' List.mem_cons_self) (by decide)

variable (hu : Computes u x)
include hu

/-- What can be said of a text when its groups have been resolved one after the other can be said of
it when groups have been put in place of their values. -/
theorem Inlined.absorb {P : Text → Prop}
    (hP : ∀ p q r, ParenFree p → HandsBack q r → P (p ++ r) → P (p ++ '(' :: q))
    (h : Inlined x u s t) (hs : ParenFree s) (hp : ParenFree p) (hrest : P (p ++ (s ++ r))) :
    P (p ++ (t ++ r)) := by
  induction h generalizing p with
  | nil => exact hrest
  | cons c _ ih =>
    have hc : ParenFree [c] := fun d hd => hs d (by simp_all)
    have hstep := ih (fun d hd => hs d (List.mem_cons_of_mem c hd)) (parenFree_append.2 ⟨hp, hc⟩)
      (by simpa using hrest)
    simpa using hstep
  | @group s t _ ih =>
    have hx := parenFree_numberText x
    have hstep := ih (parenFree_append.1 hs).2 (parenFree_append.2 ⟨hp, hx⟩)
      (by simpa only [List.append_assoc] using hrest)
    have hgroup := hP p _ _ hp (hu.handsBack (t ++ r))
      (by simpa only [List.append_assoc] using hstep)
    simpa only [List.append_assoc, List.cons_append] using hgroup

/-- A text without parentheses is what is left of it when groups have been put in. -/
theorem Inlined.resolves (h : Inlined x u s t) (hs : ParenFree s) : Resolves t s := by
  have hall := h.absorb (r := []) hu (P := fun t => Resolves t s)
    (fun p q r hp hq hr => .group hp hq hr) hs parenFree_nil (by simpa using Resolves.flat hs)
  simpa using hall

/-! ## From the text with values to that with groups, and back -/

theorem HandsBack.inlined (h : HandsBack s r) (hst : Inlined x u s t) :
    ∃ r', HandsBack t r' ∧ Inlined x u r r' := by
  induction h generalizing t with
  | @close before after y hbefore hy =>
    obtain ⟨before', after', rfl, hb, ha⟩ := hst.exists_of_left rfl
    exact ⟨_, Computes.handsBack ⟨before, hb.resolves hu hbefore, hy⟩ after',
      (Inlined.refl _).append ha⟩
  | @group before after rest rest' hbefore _ _ ih ih' =>
    obtain ⟨before', after', rfl, hb, ha⟩ := hst.exists_of_left rfl
    obtain ⟨r, hr, hrest⟩ := ih ha
    obtain ⟨r', hr', hrest'⟩ := ih' ((Inlined.refl before).append hrest)
    refine ⟨r', ?_, hrest'⟩
    exact hb.absorb hu (P := fun t => HandsBack t r') (fun p q r hp hq hr => .group hp hq hr)
      hbefore parenFree_nil (.group hbefore hr hr')

theorem Resolves.inlined (h : Resolves s w) (hst : Inlined x u s t) : Resolves t w := by
  induction h generalizing t with
  | flat hs => exact hst.resolves hu hs
  | @group before after rest w hbefore hafter _ ih =>
    obtain ⟨before', after', rfl, hb, ha⟩ := hst.exists_of_left rfl
    obtain ⟨r, hr, hrest⟩ := hafter.inlined hu ha
    have hw := ih ((Inlined.refl before).append hrest)
    exact hb.absorb hu (P := fun t => Resolves t w) (fun p q r hp hq hr => .group hp hq hr) hbefore
      parenFree_nil (.group hbefore hr hw)

theorem HandsBack.of_inlined (h : HandsBack t r) (hst : Inlined x u s t) :
    ∃ r', HandsBack s r' ∧ Inlined x u r' r := by
  induction h generalizing s with
  | @close before after y hbefore hy =>
    rcases hst.exists_of_right hbefore with ⟨s', rfl, hs⟩ | ⟨hc, -⟩
    · exact ⟨_, .close hbefore hy, (Inlined.refl _).append hs⟩
    · exact absurd hc (by decide)
  | @group before after rest rest' hbefore hafter _ ih ih' =>
    rcases hst.exists_of_right hbefore with ⟨s', rfl, hs⟩ | ⟨-, s', t', rfl, rfl, hs⟩
    · obtain ⟨r', hr', hrest⟩ := ih hs
      obtain ⟨r'', hr'', hrest'⟩ := ih' ((Inlined.refl before).append hrest)
      exact ⟨r'', .group hbefore hr' hr'', hrest'⟩
    · rw [hafter.unique (hu.handsBack t')] at ih'
      exact ih' ((Inlined.refl before).append ((Inlined.refl _).append hs))

theorem Resolves.of_inlined (h : Resolves t w) (hst : Inlined x u s t) : Resolves s w := by
  induction h generalizing s with
  | flat ht =>
    rw [hst.eq_of_parenFree ht]
    exact .flat ht
  | @group before after rest w hbefore hafter _ ih =>
    rcases hst.exists_of_right hbefore with ⟨s', rfl, hs⟩ | ⟨-, s', t', rfl, rfl, hs⟩
    · obtain ⟨r', hr', hrest⟩ := hafter.of_inlined hu hs
      exact .group hbefore hr' (ih ((Inlined.refl before).append hrest))
    · rw [hafter.unique (hu.handsBack t')] at ih
      exact ih ((Inlined.refl before).append ((Inlined.refl _).append hs))

/-- **A text has the same value with the group of a value in its place.** -/
theorem Inlined.computes_iff (h : Inlined x u s t) : Computes s y ↔ Computes t y :=
  exists_congr fun _ => and_congr_left fun _ =>
    ⟨fun hw => hw.inlined hu h, fun hw => hw.of_inlined hu h⟩

end Inlined

/-! ## Values of equations with the formula in them -/

section Values

variable {vars : Variables} {name f t u r : Text} {x y : Float}

/-- What is left of an equation with the formula in it: what is left of the formula, in parentheses,
stands where otherwise its value does. -/
theorem Fills.inlined (h : Fills (ValueOf vars) t r) (hx : ValueOf vars name x)
    (hfin : x.isFinite = true) (hu : Fills (ValueOf vars) f u) :
    ∃ r', Fills (ValueOf vars) (inlineFormula name f t) r' ∧ Inlined x u r r' := by
  induction h with
  | nameless ht =>
    rw [inlineFormula_of_nameless ht]
    exact ⟨_, .nameless ht, .refl _⟩
  | @name t before token after s r hfirst hs _ ih =>
    obtain ⟨r', hr', hinlined⟩ := ih
    obtain ⟨-, hbefore, htoken, hafter⟩ := firstName?_eq_some_iff.1 hfirst
    rw [inlineFormula_of_firstName? hfirst]
    split
    · rename_i heq
      subst heq
      rw [hs.unique (fun _ _ _ hy hz => hy.unique hz) (.number hx hfin)]
      refine ⟨before ++ '(' :: (u ++ ')' :: r'), ?_, ?_⟩
      · have hclose : Fills (ValueOf vars) (')' :: inlineFormula token f after)
            (')' :: r') := hr'.append_left (List.forall_mem_singleton.2 (by decide))
        have hgroup := (hu.append (headNot_cons.2 (by decide)) hclose).append_left
          (s := before ++ ['('])
          (nameless_append.2 ⟨hbefore, List.forall_mem_singleton.2 (by decide)⟩)
        simpa only [List.append_assoc, List.cons_append, List.nil_append] using hgroup
      · rw [List.append_assoc]
        exact (Inlined.refl before).append (.group hinlined)
    · refine ⟨before ++ s ++ r', .name (firstName?_eq_some_iff.2 ⟨rfl, hbefore, htoken,
        headNot_inlineFormula (by decide) hafter⟩) hs hr', ?_⟩
      exact (Inlined.refl (before ++ s)).append hinlined

theorem Fills.of_inlined
    (h : Fills (ValueOf vars) (inlineFormula name f t) r) (hx : ValueOf vars name x)
    (hfin : x.isFinite = true) (hu : Fills (ValueOf vars) f u) :
    ∃ r', Fills (ValueOf vars) t r' ∧ Inlined x u r' r := by
  induction hlen : t.length using Nat.strong_induction_on generalizing t r with
  | h n ih =>
    cases hfirst : firstName? t with
    | none =>
      have ht := firstName?_eq_none_iff.1 hfirst
      rw [inlineFormula_of_nameless ht] at h
      exact ⟨r, h, .refl r⟩
    | some p =>
      obtain ⟨before, token, after⟩ := p
      have hlt := length_lt_of_firstName? hfirst
      obtain ⟨-, hbefore, htoken, hafter⟩ := firstName?_eq_some_iff.1 hfirst
      rw [inlineFormula_of_firstName? hfirst] at h
      split at h
      · rename_i heq
        subst heq
        have hsplit : before ++ '(' :: (f ++ [')']) ++ inlineFormula token f after =
            (before ++ ['(']) ++ (f ++ ([')'] ++ inlineFormula token f after)) := by
          simp
        rw [hsplit] at h
        obtain ⟨r₁, rfl, hr₁⟩ := h.exists_append_left
          (nameless_append.2 ⟨hbefore, List.forall_mem_singleton.2 (by decide)⟩)
        obtain ⟨u', r₂, rfl, hu', hr₂⟩ := hr₁.exists_append (headNot_cons.2 (by decide))
        obtain ⟨r₃, rfl, hr₃⟩ := hr₂.exists_append_left (List.forall_mem_singleton.2 (by decide))
        obtain rfl := hu.unique (fun _ _ _ hy hz => hy.unique hz) hu'
        obtain ⟨r', hr', hinlined⟩ := ih _ (hlen ▸ hlt) hr₃ rfl
        refine ⟨before ++ numberText x ++ r', .name hfirst (.number hx hfin) hr', ?_⟩
        rw [List.append_assoc, List.append_assoc]
        exact (Inlined.refl before).append (.group hinlined)
      · obtain ⟨s, r₁, rfl, hs, hr₁⟩ := h.of_firstName? (firstName?_eq_some_iff.2
          ⟨rfl, hbefore, htoken, headNot_inlineFormula (by decide) hafter⟩)
        obtain ⟨r', hr', hinlined⟩ := ih _ (hlen ▸ hlt) hr₁ rfl
        exact ⟨before ++ s ++ r', .name hfirst hs hr', (Inlined.refl (before ++ s)).append hinlined⟩

/-- **An equation has the value that it has with the formula in the place of its name.** -/
theorem hasValue_inlineFormula_iff (hf : vars.value name = .ok (.formula f))
    (hbody : equationBody f = f) (hx : ValueOf vars name x) (hfin : x.isFinite = true) :
    HasValue (ValueOf vars) t y ↔ HasValue (ValueOf vars) (inlineFormula name f t) y := by
  obtain ⟨u, hu, hcomputes⟩ := (valueOf_formula_iff hf).1 hx
  rw [hbody] at hu
  constructor
  · rintro ⟨r, hr, hy⟩
    obtain ⟨r', hr', hinlined⟩ := hr.inlined hx hfin hu
    exact ⟨r', equationBody_inlineFormula ▸ hr', (hinlined.computes_iff hcomputes).1 hy⟩
  · rintro ⟨r, hr, hy⟩
    rw [equationBody_inlineFormula] at hr
    obtain ⟨r', hr', hinlined⟩ := hr.of_inlined hx hfin hu
    exact ⟨r', hr', (hinlined.computes_iff hcomputes).2 hy⟩

end Values

/-! ## What evaluation finds -/

/-- Evaluation finds the same values for both equations: with so many levels that it does not run
out of them for either, and whenever there are levels enough. -/
def SameValues (vars : Variables) (t t' : Text) : Prop :=
  (∀ options : EvalOptions,
    evaluateFresh vars options t ≠ .error (.depthExceeded options.maxDepth) →
    evaluateFresh vars options t' ≠ .error (.depthExceeded options.maxDepth) →
    ∀ x, evaluateFresh vars options t = .ok x ↔ evaluateFresh vars options t' = .ok x) ∧
  ∃ enough, ∀ options : EvalOptions, enough ≤ options.maxDepth →
    ∀ x, evaluateFresh vars options t = .ok x ↔ evaluateFresh vars options t' = .ok x

section Evaluation

variable {vars : Variables} {name f t t' : Text} {x y : Float} {options : EvalOptions}

theorem sameValues_of_hasValue_iff
    (h : ∀ x, HasValue (ValueOf vars) t x ↔ HasValue (ValueOf vars) t' x) :
    SameValues vars t t' := by
  refine ⟨fun options ht ht' x => ⟨fun hx => ?_, fun hx => ?_⟩, ?_⟩
  · exact ((h x).1 (hasValue_of_evaluateFresh hx)).evaluateFresh_eq ht'
  · exact ((h x).2 (hasValue_of_evaluateFresh hx)).evaluateFresh_eq ht
  · by_cases hvalue : ∃ x, HasValue (ValueOf vars) t x
    · obtain ⟨x, hx⟩ := hvalue
      obtain ⟨enough, henough⟩ := hx.exists_enough
      obtain ⟨enough', henough'⟩ := ((h x).1 hx).exists_enough
      refine ⟨max enough enough', fun options hle y => ?_⟩
      rw [henough options (by omega), henough' options (by omega)]
    · refine ⟨0, fun options _ x => iff_of_false (fun hx => ?_) fun hx => ?_⟩
      · exact hvalue ⟨x, hasValue_of_evaluateFresh hx⟩
      · exact hvalue ⟨x, (h x).2 (hasValue_of_evaluateFresh hx)⟩

/-- What is written for an infinity is no number, so an infinity is lost in a group. -/
theorem isFinite_of_computes_group (h : Computes t y) (hgroup : Computes ('(' :: (t ++ [')'])) x) :
    y.isFinite = true := by
  obtain ⟨u, hu, hx⟩ := hgroup
  obtain ⟨rest, hrest, hu⟩ := Resolves.of_open parenFree_nil hu
  rw [hrest.unique (h.handsBack []), List.append_nil] at hu
  rw [hu.eq_of_parenFree (parenFree_numberText y)] at hx
  by_contra hfin
  have hwords : ∀ w ∈ [['N', 'a', 'N'], infName, '-' :: infName],
      (reduce w).outcome.toOption.isNone = true := by
    decide +kernel
  have hnone := hwords _ (numberText_of_not_isFinite (Bool.not_eq_true _ ▸ hfin))
  rw [hx] at hnone
  cases hnone

/-- **A formula can be written in place of its name exactly if it has a finite value.**  The name
is a variable with this formula, which starts with neither a blank nor an equals sign, and the name
has a value.  If that of the formula is an infinity, it is written with the name `inf`: as the value
of a name it is replaced by what `inf` stands for, and as the value of a group it is no number. -/
theorem evaluateFresh_inlineFormula_iff (hf : vars.value name = .ok (.formula f))
    (hblank : HeadNot isBlank f) (hequals : HeadNot (· == '=') f)
    (hname : evaluateFresh vars options name = .ok x) :
    (∀ t, SameValues vars t (inlineFormula name f t)) ↔
      (IsName name → ∃ options y, evaluateFresh vars options f = .ok y ∧ y.isFinite = true) := by
  have hbody := equationBody_of_headNot hblank hequals
  constructor
  · intro h hisName
    have hx := hasValue_of_evaluateFresh hname
    -- The formula has a value, as its name has.
    obtain ⟨y, hy⟩ : ∃ y, ValueOf vars name y := by
      obtain ⟨r, hr, -⟩ := hx
      rw [equationBody_of_isName hisName] at hr
      refine hr.exists_value ?_
      rw [names_of_some (firstName?_of_isName hisName)]
      exact List.mem_cons_self
    have hfy := (valueOf_formula_iff hf).1 hy
    obtain ⟨enough, henough⟩ := hfy.exists_enough
    refine ⟨⟨enough, false⟩, y, henough _ (Nat.le_refl _), ?_⟩
    -- With levels enough the formula in parentheses has a value, too.
    obtain ⟨-, enough', hsame⟩ := h name
    obtain ⟨enough'', hfound⟩ := hx.exists_enough
    have hgroup := (hsame ⟨max enough' enough'', false⟩ (Nat.le_max_left _ _) x).1
      (hfound _ (Nat.le_max_right _ _))
    rw [inlineFormula_self hisName] at hgroup
    obtain ⟨r, hr, hcomputes⟩ := hasValue_of_evaluateFresh hgroup
    obtain ⟨u, hu, huy⟩ := hfy
    rw [hbody] at hu
    have hfill : Fills (ValueOf vars) (['('] ++ (f ++ [')'])) (['('] ++ (u ++ [')'])) :=
      (hu.append (headNot_cons.2 (by decide)) (.nameless (List.forall_mem_singleton.2 (by decide))))
        |>.append_left (List.forall_mem_singleton.2 (by decide))
    rw [equationBody_of_headNot (headNot_cons.2 (by decide)) (headNot_cons.2 (by decide))] at hr
    rw [hr.unique (fun _ _ _ hy hz => hy.unique hz) hfill] at hcomputes
    exact isFinite_of_computes_group huy hcomputes
  · intro h t
    by_cases hisName : IsName name
    · obtain ⟨options, y, hy, hfin⟩ := h hisName
      have hvalue := (valueOf_formula_iff hf).2 (hasValue_of_evaluateFresh hy)
      exact sameValues_of_hasValue_iff fun _ => hasValue_inlineFormula_iff hf hbody hvalue hfin
    · rw [inlineFormula_of_not_isName hisName]
      exact sameValues_of_hasValue_iff fun _ => Iff.rfl

end Evaluation

/-- The table in which `x` has the formula `2+3`. -/
def sumTable : Variables := .ofList [(['x'], .ofFormula ['2', '+', '3'])]

/-- So `x` and `(2+3)` are the same in every equation. -/
theorem sameValues_sumTable :
    evaluateFresh sumTable {} ['x'] = .ok 5 ∧
      ∀ t, SameValues sumTable t (inlineFormula ['x'] ['2', '+', '3'] t) := by
  have hx : evaluateFresh sumTable {} ['x'] = .ok 5 := Binary.eq_ok_of_toBits (by decide +kernel)
  have hf : evaluateFresh sumTable {} ['2', '+', '3'] = .ok 5 :=
    Binary.eq_ok_of_toBits (by decide +kernel)
  refine ⟨hx, (evaluateFresh_inlineFormula_iff rfl (headNot_cons.2 (by decide))
    (headNot_cons.2 (by decide)) hx).2 fun _ => ⟨{}, 5, hf, by decide +kernel⟩⟩

/-- **The formula of `x` cannot be written in its place**: it reads as an infinity, which is lost in
a group, though `inf` stands for five. -/
theorem infinityTable_not_inlined :
    evaluateFresh infinityTable {} ['x'] = .ok 5 ∧
      evaluateFresh infinityTable {} (inlineFormula ['x'] hugeNumber ['x']) =
        .error (.parseFailure infName) := by
  refine ⟨Binary.eq_ok_of_toBits (by decide +kernel), ?_⟩
  rw [inlineFormula_self ⟨'x', [], rfl, by decide, List.forall_mem_nil _⟩]
  decide +kernel

end EquationFigure
