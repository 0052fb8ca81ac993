import EquationFigure.Proofs.Equation.Acceptance
import EquationFigure.Proofs.Equation.Nesting

/-!
# The grammar of what is accepted

Texts that have a value need not be equations, but they have a grammar, too.  It differs from that
of equations in what an operand is: any number of minus signs, and behind them any number of words
and groups side by side, with at most white space or one point between them.

* `StrictEquation` — operands with operators between them.
* `LooseEquation` — operands that may be such a row, with operators between them.
* `Follows` — what may stand behind a place, with groups as a whole; `follows_of_reads`.
* `Follows.rest`, `looseEquation_of_evaluate` — what has a value is a loose equation.
-/

set_option autoImplicit false

namespace EquationFigure

open Text EvalM

/-! ## Grammars -/

mutual

/-- The text is an equation in which operands never touch: white space, at most a plus sign, and
operands with operators between them. -/
inductive StrictEquation : Text → Prop
  | mk {s plus t s' : Text} : IsSpace s → (plus = [] ∨ plus = ['+']) → StrictChain t → IsSpace s' →
    StrictEquation (s ++ plus ++ t ++ s')

/-- Operands with operators between them. -/
inductive StrictChain : Text → Prop
  | operand {t : Text} : StrictOperand t → StrictChain t
  | operation {t s s' u : Text} (op : Operator) : StrictOperand t → IsSpace s → IsSpace s' →
    StrictChain u → StrictChain (t ++ (s ++ op.symbol ++ s') ++ u)

/-- A numeral, a name or a group, with at most a minus sign in front. -/
inductive StrictOperand : Text → Prop
  | numeral {n : Numeral} : n.WellFormed → StrictOperand n.text
  | name {minus t : Text} : (minus = [] ∨ minus = ['-']) → IsName t → StrictOperand (minus ++ t)
  | group {minus t : Text} : (minus = [] ∨ minus = ['-']) → StrictEquation t →
    StrictOperand (minus ++ '(' :: (t ++ [')']))

end

mutual

/-- The text is an equation in which operands may touch: white space, at most a plus sign, and
operands with operators between them. -/
inductive LooseEquation : Text → Prop
  | mk {s plus t s' : Text} : IsSpace s → (plus = [] ∨ plus = ['+']) → LooseChain t → IsSpace s' →
    LooseEquation (s ++ plus ++ t ++ s')

/-- Operands with operators between them. -/
inductive LooseChain : Text → Prop
  | operand {t : Text} : LooseOperand t → LooseChain t
  | operation {t s s' u : Text} (op : Operator) : LooseOperand t → IsSpace s → IsSpace s' →
    LooseChain u → LooseChain (t ++ (s ++ op.symbol ++ s') ++ u)

/-- Any number of minus signs, and a row of parts behind them. -/
inductive LooseOperand : Text → Prop
  | row {t : Text} : LooseRow t → LooseOperand t
  | minus {t : Text} : LooseOperand t → LooseOperand ('-' :: t)

/-- Parts side by side, or with white space or one point between them. -/
inductive LooseRow : Text → Prop
  | part {t : Text} : LoosePart t → LooseRow t
  | joint {t joint u : Text} : LoosePart t → (IsSpace joint ∨ joint = ['.']) → LooseRow u →
    LooseRow (t ++ joint ++ u)

/-- A letter, a digit or an underscore, or a group. -/
inductive LoosePart : Text → Prop
  | word {c : Char} : isNamePart c = true → LoosePart [c]
  | group {t : Text} : LooseEquation t → LoosePart ('(' :: (t ++ [')']))

end

/-! ## Groups as a whole -/

/-- The text may follow where the reader is, up to the end of the equation or group. -/
inductive Follows : Place → Text → Prop
  | nil {p : Place} : p.ends = true → Follows p []
  | char {p p' : Place} {c : Char} {t : Text} : p.next (charKind c) = some p' → Follows p' t →
    Follows p (c :: t)
  | group {p : Place} {t u : Text} : Follows .start t → Follows .operand u →
    Follows p ('(' :: (t ++ ')' :: u))

/-- A text that is read to its end follows, up to the parenthesis that closes the innermost of the
open groups, if there is one. -/
theorem follows_of_reads {p p' : Place} {depth : Nat} {t : Text}
    (h : reads p depth t = some (p', 0)) (hends : p'.ends = true) :
    match depth with
    | 0 => Follows p t
    | depth + 1 => ∃ u rest, t = u ++ ')' :: rest ∧ Follows p u ∧
      reads .operand depth rest = some (p', 0) := by
  induction hlen : t.length using Nat.strong_induction_on generalizing p depth t with
  | h n ih =>
    cases t with
    | nil =>
      cases h
      exact .nil hends
    | cons c t =>
      rw [List.length_cons] at hlen
      rw [reads, Option.bind_eq_some_iff] at h
      obtain ⟨⟨q, d⟩, hread, ht⟩ := h
      by_cases hopen : charKind c = .opening
      · obtain rfl := eq_of_charKind.2.2.2.2.1 hopen
        rw [hopen] at hread
        cases hread
        obtain ⟨u, rest, rfl, hu, hrest⟩ := ih t.length (by omega) ht rfl
        rw [List.length_append, List.length_cons] at hlen
        have hih := ih rest.length (by omega) hrest rfl
        cases depth with
        | zero => exact .group hu hih
        | succ depth =>
          obtain ⟨v, last, rfl, hv, hlast⟩ := hih
          exact ⟨'(' :: (u ++ ')' :: v), last, by simp, .group hu hv, hlast⟩
      by_cases hclose : charKind c = .closing
      · obtain rfl := eq_of_charKind.2.2.2.2.2 hclose
        rw [hclose] at hread
        cases depth with
        | zero => cases hread
        | succ depth =>
          rw [readKind] at hread
          split at hread
          · cases hread
            exact ⟨[], t, rfl, .nil ‹_›, ht⟩
          · cases hread
      rw [readKind_eq hopen hclose, Option.map_eq_some_iff] at hread
      obtain ⟨q', hnext, heq⟩ := hread
      cases heq
      have hih := ih t.length (by omega) ht rfl
      cases depth with
      | zero => exact .char hnext hih
      | succ depth =>
        obtain ⟨u, rest, rfl, hu, hrest⟩ := hih
        exact ⟨c :: u, rest, rfl, .char hnext hu, hrest⟩

theorem Accepts.follows {t : Text} (h : Accepts t) : Follows .start t := by
  obtain ⟨p, hp, hends⟩ := h
  exact follows_of_reads hp hends

/-! ## What follows, by the grammar -/

/-- What may stand behind the row of an operand: white space, or an operator and a chain. -/
inductive LooseTail : Text → Prop
  | space {t : Text} : IsSpace t → LooseTail t
  | operation {s s' u s'' : Text} (op : Operator) : IsSpace s → IsSpace s' → LooseChain u →
    IsSpace s'' → LooseTail (s ++ op.symbol ++ s' ++ u ++ s'')

/-- What may follow, by the grammar of loose equations. -/
def Rest : Place → Text → Prop
  | .start, t => LooseEquation t
  | .sign, t => ∃ u s, LooseChain u ∧ IsSpace s ∧ t = u ++ s
  | .operator, t => ∃ s u s', IsSpace s ∧ LooseChain u ∧ IsSpace s' ∧ t = s ++ u ++ s'
  | .slash, t => ∃ slash s u s', (slash = [] ∨ slash = ['/']) ∧ IsSpace s ∧ LooseChain u ∧
    IsSpace s' ∧ t = slash ++ (s ++ u ++ s')
  | .operand, t => LooseTail t ∨ ∃ joint u tail, (IsSpace joint ∨ joint = ['.']) ∧ LooseRow u ∧
    LooseTail tail ∧ t = joint ++ u ++ tail
  | .point, t => ∃ u tail, LooseRow u ∧ LooseTail tail ∧ t = u ++ tail
  | .apart, t => LooseTail t ∨ ∃ s u tail, IsSpace s ∧ LooseRow u ∧ LooseTail tail ∧
    t = s ++ u ++ tail

section Rest

variable {p p' : Place} {c : Char} {s t u : Text}

theorem isSpace_cons (hc : c.isWhitespace = true) (hs : IsSpace s) : IsSpace (c :: s) :=
  List.forall_mem_cons.2 ⟨hc, hs⟩

/-- A part and what follows it are a row and its tail. -/
theorem LoosePart.rest (h : LoosePart t) (hu : Rest .operand u) : Rest .point (t ++ u) := by
  rcases hu with hu | ⟨joint, v, tail, hjoint, hv, htail, rfl⟩
  · exact ⟨t, u, .part h, hu, rfl⟩
  · exact ⟨t ++ joint ++ v, tail, .joint h hjoint hv, htail, by simp⟩

theorem Rest.sign_of_point (h : Rest .point t) : Rest .sign t := by
  obtain ⟨u, tail, hu, htail, rfl⟩ := h
  cases htail with
  | space htail => exact ⟨u, tail, .operand (.row hu), htail, rfl⟩
  | @operation s s' v s'' op hs hs' hv hs'' =>
    exact ⟨u ++ (s ++ op.symbol ++ s') ++ v, s'', .operation op (.row hu) hs hs' hv, hs'', by simp⟩

theorem Rest.minus (h : Rest .sign t) : Rest .sign ('-' :: t) := by
  obtain ⟨u, s, hu, hs, rfl⟩ := h
  cases hu with
  | operand hu => exact ⟨'-' :: u, s, .operand hu.minus, hs, rfl⟩
  | @operation u r r' v op hu hr hr' hv =>
    exact ⟨'-' :: u ++ (r ++ op.symbol ++ r') ++ v, s, .operation op hu.minus hr hr' hv, hs, rfl⟩

theorem Rest.operator_of_sign (h : Rest .sign t) : Rest .operator t := by
  obtain ⟨u, s, hu, hs, rfl⟩ := h
  exact ⟨[], u, s, isSpace_nil, hu, hs, rfl⟩

theorem Rest.slash_of_operator (h : Rest .operator t) {slash : Text}
    (hslash : slash = [] ∨ slash = ['/']) : Rest .slash (slash ++ t) := by
  obtain ⟨s, u, s', hs, hu, hs', rfl⟩ := h
  exact ⟨slash, s, u, s', hslash, hs, hu, hs', rfl⟩

theorem Rest.start_of_sign (h : Rest .sign t) {plus : Text} (hplus : plus = [] ∨ plus = ['+']) :
    Rest .start (plus ++ t) := by
  obtain ⟨u, s, hu, hs, rfl⟩ := h
  have h := LooseEquation.mk isSpace_nil hplus hu hs
  rw [List.nil_append, List.append_assoc] at h
  exact h

/-- A row may follow everywhere. -/
theorem Rest.of_point (h : Rest .point t) (p : Place) : Rest p t := by
  have hsign := h.sign_of_point
  cases p with
  | start => exact hsign.start_of_sign (.inl rfl)
  | sign => exact hsign
  | operator => exact hsign.operator_of_sign
  | slash => exact hsign.operator_of_sign.slash_of_operator (.inl rfl)
  | point => exact h
  | operand =>
    obtain ⟨u, tail, hu, htail, rfl⟩ := h
    exact .inr ⟨[], u, tail, .inl isSpace_nil, hu, htail, rfl⟩
  | apart =>
    obtain ⟨u, tail, hu, htail, rfl⟩ := h
    exact .inr ⟨[], u, tail, isSpace_nil, hu, htail, rfl⟩

theorem LooseTail.of_operator (op : Operator) (h : Rest .operator t) :
    LooseTail (op.symbol ++ t) := by
  obtain ⟨s, u, s', hs, hu, hs', rfl⟩ := h
  have h := LooseTail.operation op isSpace_nil hs hu hs'
  simpa only [List.nil_append, List.append_assoc] using h

theorem LooseTail.of_slash (h : Rest .slash t) : LooseTail ('/' :: t) := by
  obtain ⟨slash, s, u, s', rfl | rfl, hs, hu, hs', rfl⟩ := h
  · exact .of_operator .divide ⟨s, u, s', hs, hu, hs', rfl⟩
  · exact .of_operator .floorDivide ⟨s, u, s', hs, hu, hs', rfl⟩

theorem LooseTail.space_cons (hc : c.isWhitespace = true) (h : LooseTail t) :
    LooseTail (c :: t) := by
  cases h with
  | space ht => exact .space (isSpace_cons hc ht)
  | operation op hs hs' hu hs'' => exact .operation op (isSpace_cons hc hs) hs' hu hs''

theorem Rest.operator_space (hc : c.isWhitespace = true) (h : Rest .operator t) :
    Rest .operator (c :: t) := by
  obtain ⟨s, u, s', hs, hu, hs', rfl⟩ := h
  exact ⟨c :: s, u, s', isSpace_cons hc hs, hu, hs', rfl⟩

theorem Rest.apart_space (hc : c.isWhitespace = true) (h : Rest .apart t) :
    Rest .apart (c :: t) := by
  rcases h with h | ⟨s, u, tail, hs, hu, htail, rfl⟩
  · exact .inl (h.space_cons hc)
  · exact .inr ⟨c :: s, u, tail, isSpace_cons hc hs, hu, htail, rfl⟩

theorem Rest.operand_of_apart (h : Rest .apart t) : Rest .operand t := by
  rcases h with h | ⟨s, u, tail, hs, hu, htail, rfl⟩
  · exact .inl h
  · exact .inr ⟨s, u, tail, .inl hs, hu, htail, rfl⟩

theorem Rest.start_space (hc : c.isWhitespace = true) (h : Rest .start t) :
    Rest .start (c :: t) := by
  cases h with
  | mk hs hplus ht hs' => exact .mk (isSpace_cons hc hs) hplus ht hs'

/-! ## What is accepted is a loose equation -/

theorem isWhitespace_of_charKind (h : charKind c = .space) : c.isWhitespace = true := by
  rw [charKind] at h
  split_ifs at h
  assumption

theorem isNamePart_of_charKind (h : charKind c = .word) : isNamePart c = true := by
  rw [charKind] at h
  split_ifs at h
  assumption

theorem exists_operator_of_charKind (h : charKind c = .times) :
    ∃ op : Operator, op.symbol = [c] := by
  have hmem : c ∈ ['^', '*', '%'] := by
    rw [charKind] at h
    split_ifs at h
    assumption
  simp only [List.mem_cons, List.not_mem_nil, or_false] at hmem
  rcases hmem with rfl | rfl | rfl
  · exact ⟨.power, rfl⟩
  · exact ⟨.multiply, rfl⟩
  · exact ⟨.modulo, rfl⟩

/-- A character and what follows it. -/
theorem Rest.char {p p' : Place} (h : p.next (charKind c) = some p') (ht : Rest p' t) :
    Rest p (c :: t) := by
  cases hkind : charKind c with
  | word =>
    rw [hkind] at h
    obtain rfl : p' = .operand := by cases p <;> cases h <;> rfl
    exact ((LoosePart.word (isNamePart_of_charKind hkind)).rest ht).of_point p
  | space =>
    have hc := isWhitespace_of_charKind hkind
    rw [hkind] at h
    cases p <;> cases h
    · exact ht.start_space hc
    · exact ht.operator_space hc
    · exact (ht.operator_space hc).slash_of_operator (.inl rfl)
    · exact (ht.apart_space hc).operand_of_apart
    · exact ht.apart_space hc
  | plus =>
    obtain rfl := eq_of_charKind.1 hkind
    rw [hkind] at h
    cases p <;> cases h
    · exact ht.start_of_sign (.inr rfl)
    · exact .inl (.of_operator .add ht)
    · exact .inl (.of_operator .add ht)
  | minus =>
    obtain rfl := eq_of_charKind.2.1 hkind
    rw [hkind] at h
    cases p <;> cases h
    · exact ht.minus.start_of_sign (.inl rfl)
    · exact ht.minus
    · exact ht.minus.operator_of_sign
    · exact ht.minus.operator_of_sign.slash_of_operator (.inl rfl)
    · exact .inl (.of_operator .subtract ht)
    · exact .inl (.of_operator .subtract ht)
  | slash =>
    obtain rfl := eq_of_charKind.2.2.1 hkind
    rw [hkind] at h
    cases p <;> cases h
    · exact ht.slash_of_operator (.inr rfl)
    · exact .inl (.of_slash ht)
    · exact .inl (.of_slash ht)
  | times =>
    obtain ⟨op, hop⟩ := exists_operator_of_charKind hkind
    have htail : p' = .operator → LooseTail (c :: t) := by
      rintro rfl
      have htail := LooseTail.of_operator op ht
      rwa [hop] at htail
    rw [hkind] at h
    cases p <;> cases h
    · exact .inl (htail rfl)
    · exact .inl (htail rfl)
  | point =>
    obtain rfl := eq_of_charKind.2.2.2.1 hkind
    rw [hkind] at h
    cases p <;> cases h
    obtain ⟨u, tail, hu, htail, rfl⟩ := ht
    exact .inr ⟨['.'], u, tail, .inr rfl, hu, htail, rfl⟩
  | opening =>
    rw [hkind, next_opening] at h
    cases h
  | closing =>
    rw [hkind, next_closing] at h
    cases h
  | foreign =>
    rw [hkind] at h
    cases p <;> cases h

end Rest

/-- **What follows a place follows it by the grammar.** -/
theorem Follows.rest {p : Place} {t : Text} (h : Follows p t) : Rest p t := by
  induction h with
  | @nil p hp =>
    cases p with
    | operand => exact .inl (.space isSpace_nil)
    | apart => exact .inl (.space isSpace_nil)
    | _ => cases hp
  | char hnext _ ih => exact ih.char hnext
  | @group p t u _ _ hin hout =>
    have h := ((LoosePart.group hin).rest hout).of_point p
    rwa [List.cons_append, List.append_assoc] at h

/-- **What has a value is a loose equation**, whatever the variables are and whatever has been
evaluated before. -/
theorem looseEquation_of_evaluate {vars : Variables} {options : EvalOptions} {pending : List Text}
    {t : Text} {s : Session} {x : Float}
    (h : ((evaluate vars options pending t).run s).1 = .ok x) : LooseEquation (equationBody t) :=
  (accepts_of_evaluate h).follows.rest

/-- The text `--2+7` has a value, so it is a loose equation. -/
theorem looseEquation_twoSigns :
    evaluateFresh ∅ {} ['-', '-', '2', '+', '7'] = .ok (-5) ∧
      LooseEquation ['-', '-', '2', '+', '7'] := by
  have h : evaluateFresh ∅ {} ['-', '-', '2', '+', '7'] = .ok (-5) :=
    Binary.eq_ok_of_toBits (by decide +kernel)
  exact ⟨h, looseEquation_of_evaluate h⟩

/-! ## What is accepted need not be a strict equation -/

/-- The characters may stand side by side in a strict equation, as far as groups are concerned:
neither part of a word stands directly behind a group. -/
def Untouched (c d : Char) : Prop := c = ')' → isNamePart d = false

section Untouched

variable {s t u : Text}

theorem isChain_untouched_of_parenFree (h : ParenFree t) : t.IsChain Untouched := by
  induction t with
  | nil => exact .nil
  | cons c t ih =>
    obtain ⟨hc, ht⟩ := List.forall_mem_cons.1 h
    refine (ih ht).cons fun d _ hclose => ?_
    subst hclose
    cases hc

/-- Behind a text without parentheses anything may stand. -/
theorem isChain_untouched_append_left (hs : ParenFree s) (ht : t.IsChain Untouched) :
    (s ++ t).IsChain Untouched := by
  refine List.isChain_append.2 ⟨isChain_untouched_of_parenFree hs, ht, fun c hc d _ hclose => ?_⟩
  have hparen := hs c (List.mem_of_getLast? hc)
  subst hclose
  cases hparen

theorem isChain_untouched_append (ht : t.IsChain Untouched) (hu : u.IsChain Untouched)
    (hhead : HeadNot isNamePart u) : (t ++ u).IsChain Untouched := by
  refine List.isChain_append.2 ⟨ht, hu, fun c _ d hd _ => ?_⟩
  cases u with
  | nil => cases hd
  | cons e u =>
    cases hd
    exact headNot_cons.1 hhead

theorem parenFree_of_sign {sign : Text} {c : Char} (hc : isParen c = false)
    (h : sign = [] ∨ sign = [c]) : ParenFree sign := by
  rcases h with rfl | rfl
  · exact parenFree_nil
  · exact List.forall_mem_singleton.2 hc

end Untouched

mutual

theorem StrictEquation.isChain {t : Text} : StrictEquation t → t.IsChain Untouched
  | .mk hs hplus ht hs' => by
    have hfree := parenFree_append.2 ⟨parenFree_of_isSpace hs, parenFree_of_sign (by decide) hplus⟩
    have hhead := headNot_isNamePart_of_isSpace hs' headNot_nil
    rw [List.append_nil] at hhead
    exact isChain_untouched_append (isChain_untouched_append_left hfree ht.isChain)
      (isChain_untouched_of_parenFree (parenFree_of_isSpace hs')) hhead

theorem StrictChain.isChain {t : Text} : StrictChain t → t.IsChain Untouched
  | .operand ht => ht.isChain
  | .operation op ht hs hs' hu => by
    have hfree := parenFree_separator op hs hs'
    rw [List.append_assoc]
    refine isChain_untouched_append ht.isChain (isChain_untouched_append_left hfree hu.isChain) ?_
    rw [List.append_assoc, List.append_assoc]
    exact headNot_isNamePart_of_isSpace hs (op.headNot_symbol (by decide) _)

theorem StrictOperand.isChain {t : Text} : StrictOperand t → t.IsChain Untouched
  | .numeral hn => isChain_untouched_of_parenFree hn.parenFree
  | .name hminus ht =>
    isChain_untouched_append_left (parenFree_of_sign (by decide) hminus)
      (isChain_untouched_of_parenFree (parenFree_of_isName ht))
  | .group hminus ht => by
    refine isChain_untouched_append_left (parenFree_of_sign (by decide) hminus) ?_
    have hinner := isChain_untouched_append ht.isChain (.singleton ')') (headNot_cons.2 (by decide))
    exact hinner.cons fun d _ hclose => absurd hclose (by decide)

end

/-- **Operands that touch are accepted**: `(1)2` is twelve, since the value of the group is spliced
in next to a digit.  But it is no strict equation. -/
theorem touching_not_strictEquation :
    evaluateFresh ∅ {} ['(', '1', ')', '2'] = .ok 12 ∧
      ¬ StrictEquation (equationBody ['(', '1', ')', '2']) := by
  refine ⟨Binary.eq_ok_of_toBits (by decide +kernel), fun h => ?_⟩
  have hchain : ['(', '1', ')', '2'].IsChain Untouched := h.isChain
  have htouch := hchain.tail.tail.rel
  exact absurd (htouch rfl) (by decide)

end EquationFigure
