import EquationFigure.Proofs.Equation.Tokens
import EquationFigure.Proofs.Equation.Stages
import EquationFigure.Proofs.Decimal.NumberText

/-!
# Every step makes one operand of two

The number of steps in which a text is reduced is limited by `operandCount`, and so is the number
of groups that are resolved by the number of parentheses.  The limits are there to make the
recursion structural; none of them is ever reached.

* `nextOperation_spec` — where the next operation stands.
* `operandCount_step` — carrying it out lowers `operandCount` by one.
* `reduce_eq` — reducing a text, without a limit.
-/

set_option autoImplicit false

namespace EquationFigure

open Text

/-! ## Where operations are found -/

theorem not_isNumeralPart_of_isBlank {c : Char} (h : isBlank c = true) :
    Numeral.isNumeralPart c = false := by
  rw [← Bool.not_eq_true]
  intro hpart
  rw [Numeral.isNumeralPart, Bool.or_eq_true, beq_iff_eq] at hpart
  rcases hpart with hdigit | rfl
  · have hrange : 48 ≤ c.toNat ∧ c.toNat ≤ 57 := by
      simpa [Char.isDigit, UInt32.le_iff_toNat_le] using hdigit
    simp [isBlank, blankRanges] at h
    omega
  · revert h
    decide

theorem isBlank_of_isNumeralPart {c : Char} (h : Numeral.isNumeralPart c = true) :
    isBlank c = false := by
  rw [← Bool.not_eq_true]
  intro hblank
  rw [not_isNumeralPart_of_isBlank hblank] at h
  cases h

theorem isBlank_of_isDigit {c : Char} (h : c.isDigit = true) : isBlank c = false :=
  isBlank_of_isNumeralPart (by rw [Numeral.isNumeralPart, h, Bool.true_or])

/-- Where an operand may start, no operand ends right before. -/
theorem headNot_of_followsOperand {left : Text} {c : Char} (h : followsOperand left c = false) :
    HeadNot Numeral.isNumeralPart left := by
  cases left with
  | nil => exact headNot_nil
  | cons d left =>
    refine headNot_cons.2 ?_
    cases hblank : isBlank d with
    | true => exact not_isNumeralPart_of_isBlank hblank
    | false =>
      rw [followsOperand, trimStart_cons_of_not_blank hblank, ite_self] at h
      exact h

/-- The operation stands in the text, between what is before and what is after it. -/
structure Occurrence.In (occ : Occurrence) (t : Text) : Prop where
  /-- The three make up the text. -/
  text : t = occ.before ++ occ.operation.text ++ occ.after
  /-- The operation is written as equations write it. -/
  wellFormed : occ.operation.WellFormed
  /-- The right operand does not go on behind the operation. -/
  stops : occ.operation.rhs.StopsAt occ.after
  /-- The left operand does not go on before the operation. -/
  starts : HeadNot Numeral.isNumeralPart occ.before.reverse

theorem findOperation_spec {operators : List Operator} {left t : Text} {occ : Occurrence}
    (h : findOperation operators left t = some occ) :
    occ.In (left.reverse ++ t) ∧ occ.operation.operator ∈ operators := by
  induction t generalizing left with
  | nil => cases h
  | cons c t ih =>
    rw [findOperation] at h
    split at h
    · rename_i operation after hhere
      cases h
      split at hhere
      · rename_i hcond
        rw [Bool.and_eq_true, Bool.not_eq_true'] at hcond
        obtain ⟨op, hop, hscan⟩ := List.exists_of_findSome?_eq_some hhere
        obtain ⟨rfl, hwf, hstops, htext⟩ := Operation.scan_eq_some_iff.1 hscan
        refine ⟨⟨?_, hwf, hstops, ?_⟩, hop⟩
        · rw [List.append_assoc, ← htext]
        · rw [List.reverse_reverse]
          exact headNot_of_followsOperand hcond.2
      · cases hhere
    · have := ih h
      rwa [List.reverse_cons, List.append_assoc] at this

/-- **Where the next operation stands.** -/
theorem nextOperation_spec {tiers : List (List Operator)} {t : Text} {occ : Occurrence}
    (h : nextOperation tiers t = some occ) : occ.In t := by
  obtain ⟨operators, -, hfind⟩ := List.exists_of_findSome?_eq_some h
  exact (findOperation_spec hfind).1

/-! ## Counting operands -/

theorem getLastD_append (s t : Text) (previous : Char) :
    (s ++ t).getLastD previous = t.getLastD (s.getLastD previous) := by
  induction s generalizing previous with
  | nil => rfl
  | cons c s ih => rw [List.cons_append, List.getLastD_cons, List.getLastD_cons, ih]

theorem operandCountAfter_append (previous : Char) (s t : Text) :
    operandCountAfter previous (s ++ t) =
      operandCountAfter previous s + operandCountAfter (s.getLastD previous) t := by
  induction s generalizing previous with
  | nil => simp [operandCountAfter]
  | cons c s ih =>
    rw [List.cons_append, operandCountAfter, operandCountAfter, ih, List.getLastD_cons]
    omega

/-- A text in which no operand starts. -/
theorem operandCountAfter_eq_zero {previous : Char} {t : Text}
    (h : ∀ c ∈ t, c.isDigit = false) : operandCountAfter previous t = 0 := by
  induction t generalizing previous with
  | nil => rfl
  | cons c t ih =>
    rw [operandCountAfter, h c List.mem_cons_self, ih fun d hd => h d (List.mem_cons_of_mem c hd)]
    rfl

/-- Digits behind a digit or a point belong to the same operand. -/
theorem operandCountAfter_digits {previous : Char} {t : Text}
    (hp : Numeral.isNumeralPart previous = true) (h : ∀ c ∈ t, c.isDigit = true) :
    operandCountAfter previous t = 0 := by
  induction t generalizing previous with
  | nil => rfl
  | cons c t ih =>
    have hpart : Numeral.isNumeralPart c = true := by
      rw [Numeral.isNumeralPart, h c List.mem_cons_self, Bool.true_or]
    rw [operandCountAfter, ih hpart fun d hd => h d (List.mem_cons_of_mem c hd)]
    rw [Numeral.isNumeralPart, Bool.or_eq_true, beq_iff_eq] at hp
    rcases hp with hp | rfl
    · simp [hp]
    · simp

/-- Only whether the character before is a digit matters. -/
theorem operandCountAfter_congr {c d : Char} (hc : c.isDigit = true) (hd : d.isDigit = true)
    (t : Text) : operandCountAfter c t = operandCountAfter d t := by
  cases t with
  | nil => rfl
  | cons e t => simp [operandCountAfter, hc, hd]

theorem getLastD_of_forall {p : Char → Prop} {previous : Char} {t : Text} (ht : t ≠ [])
    (h : ∀ c ∈ t, p c) : p (t.getLastD previous) := by
  rw [List.getLastD_eq_getLast?, List.getLast?_eq_some_getLast ht]
  exact h _ (List.getLast_mem ht)

/-- A numeral ends with a digit. -/
theorem Numeral.isDigit_getLastD_text {n : Numeral} (hn : n.WellFormed) (previous : Char) :
    (n.text.getLastD previous).isDigit = true := by
  have hwhole : ∀ c, (n.whole.getLastD c).isDigit = true := fun c =>
    getLastD_of_forall (p := fun c => c.isDigit = true) hn.whole_ne_nil hn.isDigit_whole
  rw [Numeral.text]
  by_cases hf : n.fraction = []
  · rw [if_pos hf, List.append_nil, getLastD_append]
    exact hwhole _
  · rw [if_neg hf, getLastD_append, List.getLastD_cons]
    exact getLastD_of_forall (p := fun c => c.isDigit = true) hf hn.isDigit_fraction

/-- A numeral is one operand, if it does not go on with one. -/
theorem Numeral.operandCountAfter_text {n : Numeral} (hn : n.WellFormed) {previous : Char}
    (hp : Numeral.isNumeralPart previous = false) : operandCountAfter previous n.text = 1 := by
  have hwhole : ∀ c, isNumeralPart c = false → operandCountAfter c n.whole = 1 := by
    intro c hc
    obtain ⟨d, whole, hd⟩ := List.exists_cons_of_ne_nil hn.whole_ne_nil
    have hdigits := hn.isDigit_whole
    rw [hd] at hdigits ⊢
    have hdigit := hdigits d List.mem_cons_self
    rw [operandCountAfter, operandCountAfter_digits (by rw [isNumeralPart, hdigit, Bool.true_or])
      fun e he => hdigits e (List.mem_cons_of_mem d he)]
    rw [isNumeralPart, Bool.or_eq_false_iff, beq_eq_false_iff_ne] at hc
    simp [hdigit, hc.1, hc.2]
  have hfraction : ∀ c,
      operandCountAfter c (if n.fraction = [] then [] else '.' :: n.fraction) = 0 := by
    intro c
    split
    · rfl
    · rw [operandCountAfter, operandCountAfter_digits (by decide) hn.isDigit_fraction]
      rfl
  rw [Numeral.text, operandCountAfter_append, operandCountAfter_append, hfraction]
  cases n.negative with
  | true =>
    have hminus := hwhole '-' (by decide)
    simpa [operandCountAfter] using hminus
  | false => simpa [operandCountAfter] using hwhole previous hp

/-- Operators and white space hold no operands, and end none. -/
theorem IsSpace.operandCountAfter {s : Text} (hs : IsSpace s) (previous : Char) :
    operandCountAfter previous s = 0 :=
  operandCountAfter_eq_zero fun c hc => isDigit_of_isWhitespace (hs c hc)

theorem Operator.operandCountAfter_symbol (op : Operator) (previous : Char) :
    operandCountAfter previous op.symbol = 0 := by
  cases op <;> rfl

theorem Operator.getLastD_symbol_append (op : Operator) {s : Text} (hs : IsSpace s)
    (previous : Char) : Numeral.isNumeralPart ((op.symbol ++ s).getLastD previous) = false := by
  refine getLastD_of_forall (p := fun c => Numeral.isNumeralPart c = false) ?_ ?_
  · cases op <;> exact List.cons_ne_nil _ _
  · intro c hc
    rcases List.mem_append.1 hc with hmem | hmem
    · exact op.eq_false_of_mem_symbol rfl hmem
    · exact isNumeralPart_of_isWhitespace (hs c hmem)

/-- An operation is two operands. -/
theorem Operation.operandCountAfter_text {o : Operation} (ho : o.WellFormed) {previous : Char}
    (hp : Numeral.isNumeralPart previous = false) : operandCountAfter previous o.text = 2 := by
  have htext : o.text = o.lhs.text ++ (o.spaceBefore ++ (o.operator.symbol ++ o.spaceAfter)) ++
      o.rhs.text := by
    simp [Operation.text]
  have hlink : ∀ c,
      operandCountAfter c (o.spaceBefore ++ (o.operator.symbol ++ o.spaceAfter)) = 0 := by
    intro c
    rw [operandCountAfter_append, operandCountAfter_append, ho.spaceBefore.operandCountAfter,
      o.operator.operandCountAfter_symbol, ho.spaceAfter.operandCountAfter]
  rw [htext, operandCountAfter_append, operandCountAfter_append, hlink,
    Numeral.operandCountAfter_text ho.lhs hp, getLastD_append, getLastD_append,
    Numeral.operandCountAfter_text ho.rhs (o.operator.getLastD_symbol_append ho.spaceAfter _)]

theorem Operation.isDigit_getLastD_text {o : Operation} (ho : o.WellFormed) (previous : Char) :
    (o.text.getLastD previous).isDigit = true := by
  rw [Operation.text, getLastD_append]
  exact Numeral.isDigit_getLastD_text ho.rhs _

/-- The operation does not go on with an operand that starts before it. -/
theorem Occurrence.In.isNumeralPart_getLastD {t : Text} {occ : Occurrence} (h : occ.In t) :
    Numeral.isNumeralPart (occ.before.getLastD ' ') = false := by
  rw [List.getLastD_eq_getLast?]
  cases hlast : occ.before.getLast? with
  | none => decide
  | some c => exact h.starts c (by rw [List.head?_reverse, hlast]; rfl)

/-- A text with an operation has two operands or more. -/
theorem Occurrence.In.two_le_operandCount {t : Text} {occ : Occurrence} (h : occ.In t) :
    2 ≤ operandCount t := by
  rw [operandCount, h.text, operandCountAfter_append, operandCountAfter_append,
    Operation.operandCountAfter_text h.wellFormed h.isNumeralPart_getLastD]
  omega

/-- **Carrying out an operation makes one operand of two.** -/
theorem operandCount_step {t : Text} {occ : Occurrence} (h : occ.In t) {x : Float}
    (hx : x.isFinite = true) :
    operandCount t = operandCount (occ.before ++ numberText x ++ occ.after) + 1 := by
  have hbefore := h.isNumeralPart_getLastD
  have hn := Numeral.wellFormed_ofFloat x
  rw [numberText_eq_text hx, operandCount, operandCount, h.text, operandCountAfter_append,
    operandCountAfter_append, operandCountAfter_append, operandCountAfter_append,
    Operation.operandCountAfter_text h.wellFormed hbefore,
    Numeral.operandCountAfter_text hn hbefore, getLastD_append, getLastD_append,
    operandCountAfter_congr (Operation.isDigit_getLastD_text h.wellFormed _)
      (Numeral.isDigit_getLastD_text hn (occ.before.getLastD ' '))]
  omega

/-- **Carrying out an operation changes the text.** -/
theorem step_ne {t : Text} {occ : Occurrence} (h : occ.In t) {x : Float}
    (hx : x.isFinite = true) : occ.before ++ numberText x ++ occ.after ≠ t := by
  intro heq
  have hcount := operandCount_step h hx
  rw [heq] at hcount
  omega

/-! ## Without limits -/

/-- No step leaves the text as it is. -/
theorem reduceWithin_succ (tiers : List (List Operator)) (steps : Nat) (t : Text) :
    reduceWithin tiers (steps + 1) t =
      match nextOperation tiers t with
      | none => .ofExcept (readValue t)
      | some ⟨before, operation, after⟩ => (do
        let value ← .ofExcept operation.value
        let rewritten := before ++ numberText value ++ after
        EvalM.record (.reduced operation.operator value rewritten)
        reduceWithin tiers steps rewritten) := by
  rw [reduceWithin.eq_def]
  cases hnext : nextOperation tiers t with
  | none => rfl
  | some occ =>
    have hin := nextOperation_spec hnext
    obtain ⟨before, operation, after⟩ := occ
    dsimp only
    cases hvalue : operation.value with
    | error e => rfl
    | ok x =>
      change (if before ++ numberText x ++ after = t then _ else _ : EvalM Float) = _
      rw [if_neg (step_ne hin (Operator.isFinite_of_apply_eq_ok hvalue))]
      rfl

/-- Any limit does that is not below the number of operands. -/
theorem reduceWithin_of_le {tiers : List (List Operator)} {steps : Nat} {t : Text}
    (h : operandCount t ≤ steps) :
    reduceWithin tiers steps t = reduceWithin tiers (operandCount t) t := by
  induction steps generalizing t with
  | zero => rw [Nat.le_zero.1 h]
  | succ steps ih =>
    cases hnext : nextOperation tiers t with
    | none => rw [reduceWithin.eq_def, reduceWithin.eq_def _ (operandCount t), hnext]
    | some occ =>
      have hstep := fun x => operandCount_step (x := x) (nextOperation_spec hnext)
      rw [hstep 0 (by decide +kernel), reduceWithin_succ, reduceWithin_succ, hnext]
      obtain ⟨before, operation, after⟩ := occ
      dsimp only at hstep ⊢
      refine Attempt.bind_congr_of_ok fun _ _ x hx => ?_
      have hcount := hstep x (Operator.isFinite_of_apply_eq_ok (Prod.mk.inj hx).1)
      have hcount' := hstep 0 (by decide +kernel)
      rw [ih (by omega), show operandCount (before ++ numberText 0 ++ after) =
        operandCount (before ++ numberText x ++ after) by omega]

/-- **A text is reduced by carrying out the next operation and reducing what is left.**  The limit
on the number of steps is never reached, and no step leaves the text as it is. -/
theorem reduceWithin_operandCount (tiers : List (List Operator)) (t : Text) :
    reduceWithin tiers (operandCount t) t =
      match nextOperation tiers t with
      | none => .ofExcept (readValue t)
      | some ⟨before, operation, after⟩ => (do
        let value ← .ofExcept operation.value
        let rewritten := before ++ numberText value ++ after
        EvalM.record (.reduced operation.operator value rewritten)
        reduceWithin tiers (operandCount rewritten) rewritten) := by
  rw [← reduceWithin_of_le (Nat.le_succ (operandCount t)), reduceWithin_succ]
  cases hnext : nextOperation tiers t with
  | none => rfl
  | some occ =>
    have hstep := fun x => operandCount_step (x := x) (nextOperation_spec hnext)
    obtain ⟨before, operation, after⟩ := occ
    dsimp only at hstep ⊢
    refine Attempt.bind_congr_of_ok fun _ _ x hx => ?_
    have hcount := hstep x (Operator.isFinite_of_apply_eq_ok (Prod.mk.inj hx).1)
    rw [reduceWithin_of_le (by omega)]

theorem reduce_eq (t : Text) :
    reduce t = match nextOperation Operator.tiers t with
      | none => .ofExcept (readValue t)
      | some ⟨before, operation, after⟩ => (do
        let value ← .ofExcept operation.value
        let rewritten := before ++ numberText value ++ after
        EvalM.record (.reduced operation.operator value rewritten)
        reduce rewritten) :=
  reduceWithin_operandCount Operator.tiers t

end EquationFigure
