import EquationFigure.Proofs.Equation.Separation
import EquationFigure.Proofs.Equation.Values
import Mathlib.Logic.Relation

/-!
# Whether an equation is accepted

Numbers decide whether an equation in which a value may grow together with its surroundings has a
value at all.  If its operands stand apart, and those of the formulas that it uses, they do not: two
evaluations over tables that differ in numbers only go through the same steps, on texts of the same
shape, so that both have a value or both fail for the same reason, unless an operation has no finite
value in one of them.

* `SameVerdict` — two outcomes that do not tell the tables apart.
* `SameShape.findOperation`, `SameShape.reduce` — operations are carried out in the same places.
* `SameShape.resolveGroups`, `SameShape.substituteWithin` — so are groups and names.
* `SameButNumbers`, `evaluateFresh_sameVerdict` — evaluation over two tables.
-/

set_option autoImplicit false

namespace EquationFigure

open Text EvalM

/-! ## Verdicts -/

/-- The error says that an operation or a variable has no finite value. -/
def EvalError.isArithmetic : EvalError → Bool
  | divisionByZero .. | nonFinite .. => true
  | _ => false

/-- The outcomes are values that belong together or errors of the same kind, unless one of them is
that something has no finite value. -/
abbrev SameVerdict {α : Type} (good : α → α → Prop) :
    Except EvalError α → Except EvalError α → Prop :=
  Attempt.Agree good (fun e e' => e.kind = e'.kind) fun e => e.isArithmetic = true

/-- Both numbers are finite. -/
def BothFinite (x y : Float) : Prop := x.isFinite = true ∧ y.isFinite = true

theorem Operator.isArithmetic_of_apply {op : Operator} {lhs rhs : Float} {expression : Text}
    {e : EvalError} (h : op.apply lhs rhs expression = .error e) : e.isArithmetic = true := by
  rw [apply] at h
  split at h
  · cases h
    rfl
  · dsimp only at h
    split at h <;> cases h
    rfl

/-! ## The next operation -/

/-- What is behind a text, read backwards, where the search for an operation has got to: an operand
ends there, or none does. -/
def Stands : Side → Text → Prop
  | .operand, left => followsOperand left '-' = true
  | .free, left | .signed, left => Fresh left

theorem stands_nil : Stands .free [] := fun c => by rw [followsOperand, trimStart_nil, ite_self]

/-- What was found in two texts of the same shape from such a place on: nothing, or operations that
may be replaced by any numbers. -/
inductive SameStep (side : Side) (left left' : Text) :
    Option Occurrence → Option Occurrence → Prop
  | none : SameStep side left left' none none
  | some {before before' after after' : Text} (o o' : Operation) :
    (∀ n m : Numeral, n.Sound → m.Sound →
      SameShape side (before ++ n.text ++ after) (before' ++ m.text ++ after')) →
    SameStep side left left' (some ⟨left.reverse ++ before, o, after⟩)
      (some ⟨left'.reverse ++ before', o', after'⟩)

section Search

variable {side side' : Side} {c : Char} {t u left left' : Text} {operators : List Operator}

theorem fresh_cons (hblank : isBlank c = false) (hpart : Numeral.isNumeralPart c = false) :
    Fresh (c :: left) := by
  intro d
  rw [followsOperand, trimStart_cons_of_not_blank hblank, ite_self]
  exact hpart

theorem fresh_cons_of_blank (hblank : isBlank c = true) (h : Fresh left) : Fresh (c :: left) := by
  intro d
  by_cases hd : d = '-'
  · have hleft := h d
    rw [followsOperand, if_pos hd] at hleft
    rw [followsOperand, if_pos hd, trimStart_cons_of_blank hblank]
    exact hleft
  · rw [followsOperand, if_neg hd]
    exact not_isNumeralPart_of_isBlank hblank

theorem followsOperand_cons (hblank : isBlank c = false) (hpart : Numeral.isNumeralPart c = true) :
    followsOperand (c :: left) '-' = true := by
  rw [followsOperand, if_pos rfl, trimStart_cons_of_not_blank hblank]
  exact hpart

theorem Stands.fresh (h : Stands side left) (hside : side ≠ .operand) : Fresh left := by
  cases side with
  | operand => exact absurd rfl hside
  | _ => exact h

/-- Reading a character that is no parenthesis. -/
theorem Stands.cons (hnext : side.next c = some side') (hparen : isParen c = false)
    (h : Stands side left) : Stands side' (c :: left) := by
  obtain ⟨hdigit, hstart⟩ := Side.not_start_of_next hnext
  rw [Side.next, hdigit, hstart, if_neg (by decide)] at hnext
  by_cases hblank : isBlank c = true
  · rw [if_pos hblank] at hnext
    cases hnext
    split
    · rename_i hside
      subst hside
      rw [Stands, followsOperand, if_pos rfl, trimStart_cons_of_blank hblank]
      rw [Stands, followsOperand, if_pos rfl] at h
      exact h
    · exact fresh_cons_of_blank hblank (h.fresh ‹_›)
  rw [if_neg hblank] at hnext
  rw [Bool.not_eq_true] at hblank
  rw [isParen, Bool.or_eq_false_iff, beq_eq_false_iff_ne, beq_eq_false_iff_ne] at hparen
  by_cases hpoint : c = '.'
  · subst hpoint
    rw [if_neg (by decide), if_neg (by decide), if_neg (by decide), if_pos rfl] at hnext
    split at hnext <;> cases hnext
    exact followsOperand_cons hblank (by decide)
  have hfresh : Fresh (c :: left) := by
    refine fresh_cons hblank ?_
    rw [Numeral.isNumeralPart, hdigit, Bool.false_or, beq_eq_false_iff_ne]
    exact hpoint
  rw [if_neg hparen.2, if_neg hparen.1, if_neg hpoint] at hnext
  split at hnext
  · cases hnext
    split <;> exact hfresh
  · cases hnext
    exact hfresh

theorem Stands.numeral {n : Numeral} (hn : n.WellFormed) (left : Text) :
    Stands .operand (n.text.reverse ++ left) := by
  obtain ⟨d, run, hrun, hd⟩ := hn.exists_end
  rw [hrun, List.cons_append]
  exact followsOperand_cons (isBlank_of_isNumeralPart hd) hd

/-- The search passes over what is no part of a numeral and no name. -/
theorem findOperation_of_next (hnext : side.next c = some side') (h : SameShape side' t u)
    (hleft : Stands side left) :
    findOperation operators left (c :: t) = findOperation operators (c :: left) t := by
  refine findOperation_cons_of_none fun hc hfollows => ?_
  rw [(Side.not_start_of_next hnext).1, Bool.false_or, beq_iff_eq] at hc
  subst hc
  -- Behind an operand a minus sign is an operator, and elsewhere no digit follows it.
  by_cases hside : side = .operand
  · subst hside
    rw [Stands, hfollows] at hleft
    cases hleft
  have hdigit : HeadNot Char.isDigit t := by
    refine h.headNot_isDigit ?_
    rintro rfl
    rw [Side.next, if_neg (by decide), if_neg (by decide), if_pos rfl, if_neg hside] at hnext
    cases hnext
  rw [Option.eq_none_iff_forall_ne_some]
  rintro ⟨o, rest⟩ hscan
  obtain ⟨op, -, hscan⟩ := List.exists_of_findSome?_eq_some hscan
  obtain ⟨-, ho, -, htext⟩ := Operation.scan_eq_some_iff.1 hscan
  rw [Operation.text, List.append_assoc, List.append_assoc, List.append_assoc, List.append_assoc]
    at htext
  exact ho.lhs.text_append_ne hdigit htext.symm

theorem SameStep.of_append (s s' : Text) {r r' : Option Occurrence}
    (h : SameStep side' (s.reverse ++ left) (s'.reverse ++ left') r r')
    (hplug : ∀ v v', SameShape side' v v' → SameShape side (s ++ v) (s' ++ v')) :
    SameStep side left left' r r' := by
  cases h with
  | none => exact .none
  | @some before before' after after' o o' hsame =>
    have hstep : SameStep side left left' (Option.some ⟨left.reverse ++ (s ++ before), o, after⟩)
        (Option.some ⟨left'.reverse ++ (s' ++ before'), o', after'⟩) := by
      refine .some o o' fun n m hn hm => ?_
      simpa only [List.append_assoc] using hplug _ _ (hsame n m hn hm)
    simpa only [List.reverse_append, List.reverse_reverse, List.append_assoc] using hstep

/-- **In texts of the same shape, operations are found in the same places.** -/
theorem SameShape.findOperation (h : SameShape side t u) (hnames : Nameless t)
    (hparens : ParenFree t) (hleft : Stands side left) (hleft' : Stands side left')
    (operators : List Operator) :
    SameStep side left left' (findOperation operators left t)
      (findOperation operators left' u) := by
  induction h generalizing left left' with
  | nil => exact .none
  | @char side side' c t u hnext h ih =>
    obtain ⟨hparen, hparens⟩ := List.forall_mem_cons.1 hparens
    rw [findOperation_of_next hnext h hleft, findOperation_of_next hnext h.symm hleft']
    have hstep := ih (List.forall_mem_cons.1 hnames).2 hparens (hleft.cons hnext hparen)
      (hleft'.cons hnext hparen)
    exact SameStep.of_append [c] [c] hstep fun v v' hv => .char hnext hv
  | @numeral n m t u hn hm h ih =>
    rcases h.scanAny_cases operators with hnone | ⟨l, l', rest, rest', hrest, hsome⟩
    · rw [findOperation_numeral hn.wellFormed fun k hk => (hnone k hk).1,
        findOperation_numeral hm.wellFormed fun k hk => (hnone k hk).2]
      have hstep := ih (nameless_append.1 hnames).2 (parenFree_append.1 hparens).2
        (.numeral hn.wellFormed left) (.numeral hm.wellFormed left')
      exact hstep.of_append n.text m.text fun v v' hv => .numeral hn hm hv
    · have hfind : ∀ {k : Numeral} {v left o rest}, k.WellFormed → Stands .free left →
          scanAny operators (k.text ++ v) = some (o, rest) →
          EquationFigure.findOperation operators left (k.text ++ v) =
            some ⟨left.reverse ++ [], o, rest⟩ := by
        intro k v left o rest hk hleft hscan
        obtain ⟨d, run, hrun, hd⟩ := hk.exists_start
        rw [hrun, List.cons_append] at hscan ⊢
        rw [findOperation_cons_of_some hd (hleft d) hscan, List.append_nil]
      rw [hfind hn.wellFormed hleft (hsome n hn.wellFormed).1,
        hfind hm.wellFormed hleft' (hsome m hm.wellFormed).2]
      exact .some _ _ fun p q hp hq => .numeral hp hq hrest
  | name hname =>
    obtain ⟨d, rest, rfl, hd⟩ := hname.exists_start
    rw [hnames d List.mem_cons_self] at hd
    cases hd

theorem SameShape.nextOperation (h : SameShape .free t u) (hnames : Nameless t)
    (hparens : ParenFree t) (tiers : List (List Operator)) :
    SameStep .free [] [] (nextOperation tiers t) (nextOperation tiers u) := by
  induction tiers with
  | nil => exact .none
  | cons operators tiers ih =>
    have hfind := h.findOperation hnames hparens stands_nil stands_nil operators
    rw [EquationFigure.nextOperation, EquationFigure.nextOperation, List.findSome?_cons,
      List.findSome?_cons]
    revert hfind
    generalize EquationFigure.findOperation operators [] t = r
    generalize EquationFigure.findOperation operators [] u = r'
    rintro (_ | ⟨o, o', hsame⟩)
    · exact ih
    · exact .some o o' hsame

end Search

/-! ## Texts without names -/

section Resolving

variable {t u : Text}

theorem SameShape.readValue (h : SameShape .free t u) :
    SameVerdict BothFinite (readValue t) (readValue u) := by
  rw [EquationFigure.readValue, EquationFigure.readValue]
  by_cases ht : trim t = []
  · obtain rfl := h.eq_of_blank (isBlank_of_trim_eq_nil ht)
    rw [if_pos ht]
    exact .error rfl
  by_cases hu : trim u = []
  · obtain rfl := h.symm.eq_of_blank (isBlank_of_trim_eq_nil hu)
    exact absurd hu ht
  rw [if_neg ht, if_neg hu]
  cases hn : literal? t with
  | some n =>
    obtain ⟨hsound, m, hm, hliteral⟩ := h.exists_literal hn
    rw [hliteral]
    exact .ok ⟨hsound.isFinite, hm.isFinite⟩
  | none =>
    cases hm : literal? u with
    | some m =>
      obtain ⟨-, n, -, hliteral⟩ := h.symm.exists_literal hm
      rw [hn] at hliteral
      cases hliteral
    | none => exact .error rfl

/-- **Texts of the same shape are reduced to numbers, or neither is.** -/
theorem SameShape.reduce (h : SameShape .free t u) (hnames : Nameless t) (hparens : ParenFree t) :
    SameVerdict BothFinite (reduce t).outcome (reduce u).outcome := by
  induction hcount : operandCount t using Nat.strong_induction_on generalizing t u with
  | h count ih =>
    have hstep := h.nextOperation hnames hparens Operator.tiers
    generalize hnext : EquationFigure.nextOperation Operator.tiers t = r at hstep
    generalize hnext' : EquationFigure.nextOperation Operator.tiers u = r' at hstep
    cases hstep with
    | none =>
      rw [outcome_reduce_of_none hnext, outcome_reduce_of_none hnext']
      exact h.readValue
    | @some before before' after after' o o' hsame =>
      have hin := nextOperation_spec hnext
      rw [outcome_reduce_of_some hnext, outcome_reduce_of_some hnext']
      simp only [List.reverse_nil, List.nil_append]
      cases hvalue : o.value with
      | error e => exact .left (Operator.isArithmetic_of_apply hvalue)
      | ok x =>
        cases hvalue' : o'.value with
        | error e => exact .right (Operator.isArithmetic_of_apply hvalue')
        | ok y =>
          have hx := Operator.isFinite_of_apply_eq_ok hvalue
          have hy := Operator.isFinite_of_apply_eq_ok hvalue'
          have hlt : operandCount t = operandCount (before ++ numberText x ++ after) + 1 :=
            operandCount_step hin hx
          have htext : t = before ++ o.text ++ after := hin.text
          rw [htext, nameless_append, nameless_append] at hnames
          rw [htext, parenFree_append, parenFree_append] at hparens
          refine ih _ (by omega) ?_ ?_ ?_ rfl
          · rw [numberText_eq_text hx, numberText_eq_text hy]
            exact hsame _ _ (Numeral.sound_ofFloat hx) (Numeral.sound_ofFloat hy)
          · exact nameless_append.2
              ⟨nameless_append.2 ⟨hnames.1.1, nameless_numberText hx⟩, hnames.2⟩
          · exact parenFree_append.2
              ⟨parenFree_append.2 ⟨hparens.1.1, parenFree_numberText x⟩, hparens.2⟩

end Resolving

/-! ## Evaluation step by step -/

/-- The caches have values for the same names, and all of them are finite. -/
def SameCached (cache cache' : Cache) : Prop :=
  ∀ name, Option.Rel BothFinite (cache.get? name) (cache'.get? name)

/-- From sessions with such caches, both pieces of work have the same verdict, and if they end with
values, they leave such caches. -/
abbrev SameCourse {α : Type} (good : α → α → Prop) (x y : EvalM α) : Prop :=
  Attempt.Pairs (OnCaches SameCached) good (fun e e' => e.kind = e'.kind)
    (fun e => e.isArithmetic = true) x y

section Course

variable {α : Type} {good : α → α → Prop} {t u : Text}

theorem SameCached.insert {cache cache' : Cache} (h : SameCached cache cache') (name : Text)
    {x y : Float} (hxy : BothFinite x y) :
    SameCached (cache.insert name x) (cache'.insert name y) := by
  intro other
  rw [Table.get?_insert_eq, Table.get?_insert_eq]
  split
  · exact .some hxy
  · exact h other

theorem EvalM.Quiet.sameCourse {x y : EvalM α} (hx : Quiet x) (hy : Quiet y)
    (h : SameVerdict good x.outcome y.outcome) : SameCourse good x y := by
  refine fun s₀ s₁ hs => ⟨?_, fun _ _ _ _ => ?_⟩
  · rw [hx.outcome, hy.outcome]
    exact h
  · rw [OnCaches, hx.cache, hy.cache]
    exact hs

theorem sameCourse_record (event event' : Event) :
    SameCourse (fun _ _ => True) (record event) (record event') :=
  Attempt.pairs_update fun _ _ hs => hs

theorem SameShape.sameCourse_reduce (h : SameShape .free t u) (hnames : Nameless t)
    (hparens : ParenFree t) :
    SameCourse BothFinite (EquationFigure.reduce t) (EquationFigure.reduce u) :=
  (quiet_reduce t).sameCourse (quiet_reduce u) (h.reduce hnames hparens)

/-! ## Groups -/

/-- Two ends of resolving groups that belong together. -/
inductive SameResolved : Resolved → Resolved → Prop
  | value {x y : Float} : BothFinite x y → SameResolved (.value x) (.value y)
  | closed {rest rest' : Text} : SameShape .free rest rest' → Nameless rest →
    SameResolved (.closed rest) (.closed rest')

theorem SameShape.closeGroup {before before' after after' : Text} (depth : Nat)
    (h : SameShape .free before before') (hafter : SameShape .operand after after')
    (hnames : Nameless (before ++ ')' :: after)) (hbefore : ParenFree before) :
    SameCourse SameResolved (closeGroup depth before after) (closeGroup depth before' after') := by
  obtain ⟨hnames, hnames'⟩ := nameless_append.1 hnames
  refine (h.sameCourse_reduce hnames hbefore).bind fun x y hxy => ?_
  refine (sameCourse_record _ _).bind fun _ _ _ => Attempt.pairs_pure (.closed ?_ ?_)
  · rw [numberText_eq_text hxy.1, numberText_eq_text hxy.2]
    exact .numeral (Numeral.sound_ofFloat hxy.1) (Numeral.sound_ofFloat hxy.2) hafter
  · exact nameless_append.2 ⟨nameless_numberText hxy.1, (List.forall_mem_cons.1 hnames').2⟩

/-- **One after the other, the groups of texts of the same shape are resolved in the same way**, if
that is so for what stands in a group. -/
theorem SameShape.resolveEach {nested : Text → EvalM Resolved}
    (hnested : ∀ {t u}, SameShape .free t u → Nameless t →
      SameCourse SameResolved (nested t) (nested u))
    (depth groups : Nat) (h : SameShape .free t u) (hnames : Nameless t) :
    SameCourse SameResolved (resolveEach nested depth groups t)
      (resolveEach nested depth groups u) := by
  induction groups using Nat.strong_induction_on generalizing t u with
  | h groups ih =>
    cases h.sameParen with
    | parenFree ht hu =>
      rw [resolveEach_of_parenFree ht, resolveEach_of_parenFree hu]
      exact (h.sameCourse_reduce hnames ht).bind fun x y hxy => Attempt.pairs_pure (.value hxy)
    | close hbefore hbefore' hin hafter =>
      rw [resolveEach_of_close hbefore, resolveEach_of_close hbefore']
      exact hin.closeGroup depth hafter hnames hbefore
    | @opening before before' after after' hbefore hbefore' hafter hplug =>
      obtain ⟨hnames, hnames'⟩ := nameless_append.1 hnames
      have hclose : ')' ∈ after ↔ ')' ∈ after' := by
        rw [← List.count_pos_iff, ← List.count_pos_iff, hafter.count_eq (by decide)]
      by_cases hmem : ')' ∈ after
      · cases groups with
        | zero =>
          rw [resolveEach_zero_of_open hbefore, resolveEach_zero_of_open hbefore']
          exact Attempt.pairs_fail rfl
        | succ groups =>
          rw [resolveEach_of_open hbefore hmem, resolveEach_of_open hbefore' (hclose.1 hmem)]
          refine (hnested hafter (List.forall_mem_cons.1 hnames').2).bind fun _ _ hresolved => ?_
          cases hresolved with
          | value => exact Attempt.pairs_fail rfl
          | closed hrest hrestnames =>
            refine (sameCourse_record _ _).bind fun _ _ _ => ?_
            exact ih groups (Nat.lt_succ_self groups) (hplug _ _ hrest)
              (nameless_append.2 ⟨hnames, hrestnames⟩)
      · rw [resolveEach_of_open_alone hbefore hmem,
          resolveEach_of_open_alone hbefore' fun hmem' => hmem (hclose.2 hmem')]
        exact Attempt.pairs_fail rfl

theorem SameShape.resolveGroups (limit levels : Nat) (h : SameShape .free t u)
    (hnames : Nameless t) :
    SameCourse SameResolved (resolveGroups limit levels t) (resolveGroups limit levels u) := by
  induction levels generalizing t u with
  | zero => exact Attempt.pairs_fail rfl
  | succ levels ih =>
    rw [EquationFigure.resolveGroups, EquationFigure.resolveGroups, ← h.count_eq (by decide)]
    exact h.resolveEach ih _ _ hnames

theorem SameShape.resolve (limit levels : Nat) (h : SameShape .free t u) (hnames : Nameless t) :
    SameCourse BothFinite (resolve limit levels t) (resolve limit levels u) := by
  rw [EquationFigure.resolve, EquationFigure.resolve, ← h.count_eq (c := '(') (by decide),
    ← h.count_eq (c := ')') (by decide)]
  split
  · refine (h.resolveGroups limit (levels + 1) hnames).bind fun _ _ hresolved => ?_
    cases hresolved with
    | value hxy => exact Attempt.pairs_pure hxy
    | closed => exact Attempt.pairs_fail rfl
  · exact Attempt.pairs_fail rfl

/-! ## Names -/

/-- **The names of texts of the same shape are replaced in the same way**, if looking them up is. -/
theorem SameShape.substituteWithin {vars vars' : Variables} {value value' : Text → EvalM Float}
    (depth times : Nat) (h : SameShape .free t u)
    (hvalue : ∀ name ∈ names t, SameCourse BothFinite (value name) (value' name)) :
    SameCourse (fun v v' => SameShape .free v v' ∧ Nameless v)
      (substituteWithin vars value depth times t)
      (substituteWithin vars' value' depth times u) := by
  induction times using Nat.strong_induction_on generalizing t u with
  | h times ih =>
    rw [substituteWithin.eq_def, substituteWithin.eq_def vars']
    cases hfirst : firstName? t with
    | none =>
      have hnames := firstName?_eq_none_iff.1 hfirst
      rw [firstName?_eq_none_iff.2 (h.nameless hnames)]
      exact Attempt.pairs_pure ⟨h, hnames⟩
    | some p =>
      obtain ⟨before, name, after⟩ := p
      obtain ⟨before', after', hfirst', hsplice⟩ := h.exists_name hfirst
      rw [hfirst']
      cases times with
      | zero => exact Attempt.pairs_fail rfl
      | succ times =>
        rw [names_of_some hfirst] at hvalue
        refine (hvalue name List.mem_cons_self).bind fun x y hxy => ?_
        dsimp only
        rw [if_neg (splice_numberText_ne hfirst hxy.1), if_neg (splice_numberText_ne hfirst' hxy.2)]
        refine (sameCourse_record _ _).bind fun _ _ _ =>
          ih times (Nat.lt_succ_self times) ?_ fun other hother => ?_
        · rw [numberText_eq_text hxy.1, numberText_eq_text hxy.2]
          exact hsplice _ _ (Numeral.sound_ofFloat hxy.1) (Numeral.sound_ofFloat hxy.2)
        · rw [names_splice hfirst hxy.1] at hother
          exact hvalue other (List.mem_cons_of_mem name hother)

end Course

/-! ## Two tables -/

/-- The values are the same, or finite numbers. -/
inductive VariableValue.SameButNumber : VariableValue → VariableValue → Prop
  | same (value : VariableValue) : SameButNumber value value
  | number {x y : Float} : BothFinite x y → SameButNumber (.number x) (.number y)

/-- The variables are both switched on or off, and they differ in a finite number at most. -/
structure Variable.SameButNumber (entry entry' : Variable) : Prop where
  /-- Both have a value or none, and the values differ in a finite number at most. -/
  value? : Option.Rel VariableValue.SameButNumber entry.value? entry'.value?
  /-- Both are switched on, or both are switched off. -/
  disabled : entry.disabled = entry'.disabled

/-- The tables have the same names, and what they have under them differs in finite numbers at
most. -/
def Variables.SameButNumbers (vars vars' : Variables) : Prop :=
  ∀ name, Option.Rel Variable.SameButNumber (vars.get? name) (vars'.get? name)

/-- The equation refers to a name that stands for the formula. -/
def UsesFormula (vars : Variables) (t formula : Text) : Prop :=
  ∃ name ∈ names t, vars.value name = .ok (.formula formula)

/-- The operands of the equation stand apart, and so do those of the formulas that it uses, and of
those that they use, and so on. -/
def WhollySeparated (vars : Variables) (t : Text) : Prop :=
  ∀ formula, Relation.ReflTransGen (UsesFormula vars) t formula →
    Separated .free (equationBody formula)

section Tables

variable {vars vars' : Variables} {options : EvalOptions} {t formula : Text}

theorem WhollySeparated.of_usesFormula (h : WhollySeparated vars t)
    (hformula : UsesFormula vars t formula) : WhollySeparated vars formula :=
  fun _ hreach => h _ (.head hformula hreach)

/-- What is declared under a name differs in a finite number at most, or there are errors of the
same kind. -/
theorem Variables.SameButNumbers.value_cases (h : vars.SameButNumbers vars') (name : Text) :
    (∃ e e', vars.value name = .error e ∧ vars'.value name = .error e' ∧ e.kind = e'.kind) ∨
      ∃ value value', vars.value name = .ok value ∧ vars'.value name = .ok value' ∧
        value.SameButNumber value' := by
  have hname := h name
  rw [Variables.value, Variables.value]
  revert hname
  generalize vars.get? name = r
  generalize vars'.get? name = r'
  rintro (@⟨⟨value?, disabled, _⟩, ⟨value?', _, _⟩, hvalue, hdisabled⟩ | -)
  · cases hdisabled
    cases hvalue with
    | none => exact .inl ⟨_, _, rfl, rfl, rfl⟩
    | some hsame =>
      cases disabled with
      | true => exact .inl ⟨_, _, rfl, rfl, rfl⟩
      | false => exact .inr ⟨_, _, rfl, rfl, hsame⟩
  · exact .inl ⟨_, _, rfl, rfl, rfl⟩

section LookUp

variable {evaluate evaluate' : List Text → Text → EvalM Float}

theorem sameCourse_supply {value value' : VariableValue} (hsame : value.SameButNumber value')
    (pending : List Text) (depth : Nat) (name : Text)
    (hevaluate : ∀ formula, value = .formula formula →
      SameCourse BothFinite (evaluate (pending ++ [name]) formula)
        (evaluate' (pending ++ [name]) formula)) :
    SameCourse BothFinite (supply evaluate pending depth name value)
      (supply evaluate' pending depth name value') := by
  have hcached : SameCourse (Option.Rel BothFinite) (cached? name) (cached? name) :=
    Attempt.pairs_read fun _ _ hs => hs name
  refine hcached.bind fun r r' hr => ?_
  cases hr with
  | some hxy => exact Attempt.pairs_pure hxy
  | none =>
    cases hsame with
    | number hxy =>
      simp only [hxy.1, hxy.2, if_true]
      exact Attempt.pairs_pure hxy
    | same =>
      cases value with
      | number x =>
        by_cases hx : x.isFinite = true
        · simp only [hx, if_true]
          exact Attempt.pairs_pure ⟨hx, hx⟩
        · simp only [hx]
          exact Attempt.pairs_fail rfl
      | formula f =>
        refine (hevaluate f rfl).bind fun x y hxy => ?_
        refine (sameCourse_record _ _).bind fun _ _ _ => ?_
        have hremember : SameCourse (fun _ _ => True) (remember name x) (remember name y) :=
          Attempt.pairs_update fun _ _ hs => hs.insert name hxy
        exact hremember.bind fun _ _ _ => Attempt.pairs_pure hxy

theorem sameCourse_lookUp (hvars : vars.SameButNumbers vars') (pending : List Text) (depth : Nat)
    (name : Text)
    (hevaluate : ∀ formula, vars.value name = .ok (.formula formula) →
      SameCourse BothFinite (evaluate (pending ++ [name]) formula)
        (evaluate' (pending ++ [name]) formula)) :
    SameCourse BothFinite (lookUp vars evaluate pending depth name)
      (lookUp vars' evaluate' pending depth name) := by
  rw [lookUp_eq, lookUp_eq]
  rcases hvars.value_cases name with ⟨e, e', he, he', hkind⟩ | ⟨value, value', hok, hok', hsame⟩
  · rw [he, he']
    exact Attempt.pairs_fail hkind
  · rw [hok, hok']
    dsimp only
    split
    · exact Attempt.pairs_fail rfl
    · exact sameCourse_supply hsame pending depth name fun formula hformula =>
        hevaluate formula (hformula ▸ hok)

end LookUp

theorem sameCourse_evaluateAt (hvars : vars.SameButNumbers vars') (limit levels : Nat)
    (pending : List Text) (h : WhollySeparated vars t) :
    SameCourse BothFinite (evaluateAt vars limit levels pending t)
      (evaluateAt vars' limit levels pending t) := by
  induction levels generalizing pending t with
  | zero => exact Attempt.pairs_fail rfl
  | succ levels ih =>
    have hshape := (h t .refl).sameShape
    rw [evaluateAt_succ, evaluateAt_succ, evaluateUsing, evaluateUsing]
    refine (hshape.substituteWithin _ _ fun name hname => ?_).bind fun u u' hu =>
      hu.1.resolve limit levels hu.2
    rw [names_equationBody] at hname
    exact sameCourse_lookUp hvars _ _ _ fun formula hformula =>
      ih _ (h.of_usesFormula ⟨name, hname, hformula⟩)

/-- **Numbers do not decide whether an equation is accepted, if its operands stand apart**, and
those of the formulas that it uses.  Over tables that differ in finite numbers only, either both
evaluations have a value or both fail with the same kind of error, unless one of them is stopped
because something has no finite value. -/
theorem evaluateFresh_sameVerdict (hvars : vars.SameButNumbers vars') (h : WhollySeparated vars t)
    (hstop : ∀ e, evaluateFresh vars options t = .error e → e.isArithmetic = false)
    (hstop' : ∀ e, evaluateFresh vars' options t = .error e → e.isArithmetic = false) :
    (∃ x y, evaluateFresh vars options t = .ok x ∧ evaluateFresh vars' options t = .ok y) ∨
      ∃ e e', evaluateFresh vars options t = .error e ∧ evaluateFresh vars' options t = .error e' ∧
        e.kind = e'.kind := by
  have hempty : OnCaches SameCached {} {} := fun _ => .none
  have hrun := (sameCourse_evaluateAt hvars options.maxDepth (options.maxDepth + 1) [] h {} {}
    hempty).1
  change SameVerdict BothFinite (evaluateFresh vars options t) (evaluateFresh vars' options t)
    at hrun
  revert hrun hstop hstop'
  generalize evaluateFresh vars options t = r
  generalize evaluateFresh vars' options t = r'
  rintro hstop hstop' (hxy | hkind | he | he)
  · exact .inl ⟨_, _, rfl, rfl⟩
  · exact .inr ⟨_, _, rfl, rfl, hkind⟩
  · rw [hstop _ rfl] at he
    cases he
  · rw [hstop' _ rfl] at he
    cases he

end Tables

/-- The table in which `x` is a number. -/
def numberTable (x : Float) : Variables := .ofList [(['x'], .ofNumber x)]

theorem get?_numberTable (x : Float) (name : Text) :
    (numberTable x).get? name = if ['x'] = name then some (.ofNumber x) else none := rfl

theorem sameButNumbers_numberTable {x y : Float} (hx : x.isFinite = true) (hy : y.isFinite = true) :
    (numberTable x).SameButNumbers (numberTable y) := by
  intro name
  rw [get?_numberTable, get?_numberTable]
  split
  · exact .some ⟨.some (.number ⟨hx, hy⟩), rfl⟩
  · exact .none

/-- No equation over such a table uses a formula. -/
theorem whollySeparated_numberTable (x : Float) {t : Text} (h : Separated .free (equationBody t)) :
    WhollySeparated (numberTable x) t := by
  intro formula hreach
  cases hreach.cases_head with
  | inl heq => exact heq ▸ h
  | inr hstep =>
    obtain ⟨f, ⟨name, -, hvalue⟩, -⟩ := hstep
    rw [Variables.value, get?_numberTable] at hvalue
    by_cases hname : ['x'] = name
    · rw [if_pos hname] at hvalue
      cases hvalue
    · rw [if_neg hname] at hvalue
      cases hvalue

/-- The equation `2*(x-1)`. -/
def doubledDifference : Text := ['2', '*', '(', 'x', '-', '1', ')']

/-- So `2*(x-1)` is accepted whatever the sign of `x` is. -/
theorem accepted_doubledDifference :
    Separated .free doubledDifference ∧
      ∃ x y, evaluateFresh (numberTable 3) {} doubledDifference = .ok x ∧
        evaluateFresh (numberTable (-3)) {} doubledDifference = .ok y := by
  have hseparated : Separated .free (Numeral.text ⟨false, ['2'], []⟩ ++ '*' :: '(' :: (['x'] ++
      '-' :: (Numeral.text ⟨false, ['1'], []⟩ ++ [')']))) :=
    .numeral (Numeral.sound_digit rfl) <| .char rfl <| .char rfl <|
      .name ⟨'x', [], rfl, rfl, List.forall_mem_nil _⟩ <| .char rfl <|
        .numeral (Numeral.sound_digit rfl) <| .char rfl .nil
  have hplus : evaluateFresh (numberTable 3) {} doubledDifference = .ok 4 :=
    Binary.eq_ok_of_toBits (by decide +kernel)
  have hminus : evaluateFresh (numberTable (-3)) {} doubledDifference = .ok (-8) :=
    Binary.eq_ok_of_toBits (by decide +kernel)
  have hvars : (numberTable 3).SameButNumbers (numberTable (-3)) :=
    sameButNumbers_numberTable (by decide +kernel) (by decide +kernel)
  have hwhole : WhollySeparated (numberTable 3) doubledDifference :=
    whollySeparated_numberTable 3 hseparated
  refine ⟨hseparated, ?_⟩
  rcases evaluateFresh_sameVerdict hvars hwhole (fun e he => by cases hplus.symm.trans he)
    (fun e he => by cases hminus.symm.trans he) with haccepted | ⟨e, -, he, -⟩
  · exact haccepted
  · cases hplus.symm.trans he

/-- **The sign of a number decides whether `-x` is accepted**: the number is spliced in behind the
minus sign, and two of them are not read. -/
theorem loose_minus_decides :
    (numberTable 3).SameButNumbers (numberTable (-3)) ∧
      evaluateFresh (numberTable 3) {} ['-', 'x'] = .ok (-3) ∧
      evaluateFresh (numberTable (-3)) {} ['-', 'x'] = .error (.parseFailure ['-', '-', '3']) :=
  ⟨sameButNumbers_numberTable (by decide +kernel) (by decide +kernel),
    Binary.eq_ok_of_toBits (by decide +kernel), by decide +kernel⟩

end EquationFigure
