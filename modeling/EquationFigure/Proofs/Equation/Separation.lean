import EquationFigure.Proofs.Equation.Chains
import EquationFigure.Proofs.Equation.Nesting

/-!
# Texts whose operands stand apart

A value is spliced in as text, so what stands beside it may become part of it: a digit, a point, or
a minus sign that is no operator.  In a text in which no operand stands right behind another one or
behind such a minus sign, nothing of the kind happens, and which numbers its numerals are makes no
difference to how it is read.

* `Side`, `Side.next` — what stands before a place of a text, as far as operands are concerned.
* `Separated` — the operands of a text stand apart.
* `SameShape` — two texts whose operands stand apart and which differ in their numerals only.
* `SameShape.exists_link`, `SameShape.exists_literal` — what is read in the one text is read in the
  other one.
* `SameShape.exists_name`, `SameShape.sameParen` — names and parentheses stand in the same places.
-/

set_option autoImplicit false

namespace EquationFigure

open Text

/-! ## Numerals that are numbers -/

/-- The numeral is written as equations write it, and it is no infinity. -/
structure Numeral.Sound (n : Numeral) : Prop where
  /-- It is written as equations write it. -/
  wellFormed : n.WellFormed
  /-- It reads as a number. -/
  inRange : n.InRange

theorem Numeral.Sound.isFinite {n : Numeral} (hn : n.Sound) : n.value.isFinite = true :=
  (Numeral.isFinite_value_iff hn.wellFormed).2 hn.inRange

theorem Numeral.sound_ofFloat {x : Float} (hx : x.isFinite = true) : (Numeral.ofFloat x).Sound :=
  ⟨Numeral.wellFormed_ofFloat x, Numeral.inRange_ofFloat hx⟩

theorem Numeral.sound_digit {c : Char} (hc : c.isDigit = true) : Sound ⟨false, [c], []⟩ :=
  ⟨wellFormed_digit hc, inRange_digit hc⟩

/-! ## Operands that stand apart -/

/-- What stands before a place of a text. -/
inductive Side where
  /-- Nothing that an operand may not stand behind. -/
  | free
  /-- A minus sign that is not behind an operand, so that it is no operator. -/
  | signed
  /-- An operand, with or without blanks behind it. -/
  | operand
deriving DecidableEq

/-- What stands behind a character that is part of no numeral and no name.  A group is an operand,
and so is a point on its own; neither may stand where no operand may. -/
def Side.next (side : Side) (c : Char) : Option Side :=
  if c.isDigit || isNameStart c then none
  else if isBlank c then some (if side = operand then operand else free)
  else if c = '-' then some (if side = operand then free else signed)
  else if c = ')' then some operand
  else if c = '(' then (if side = free then some free else none)
  else if c = '.' then (if side = free then some operand else none)
  else some free

/-- In the text, behind what stands before it, operands stand apart: none of them is right behind
another one, or behind a minus sign that is no operator.  Nothing else is asked of the text. -/
inductive Separated : Side → Text → Prop
  | nil {side : Side} : Separated side []
  | char {side side' : Side} {c : Char} {t : Text} : side.next c = some side' → Separated side' t →
    Separated side (c :: t)
  | numeral {n : Numeral} {t : Text} :
    n.Sound → Separated .operand t → Separated .free (n.text ++ t)
  | name {name t : Text} : IsName name → Separated .operand t → Separated .free (name ++ t)

/-- The operands of both texts stand apart, and the texts differ in their numerals only. -/
inductive SameShape : Side → Text → Text → Prop
  | nil {side : Side} : SameShape side [] []
  | char {side side' : Side} {c : Char} {t u : Text} : side.next c = some side' →
    SameShape side' t u → SameShape side (c :: t) (c :: u)
  | numeral {n m : Numeral} {t u : Text} : n.Sound → m.Sound → SameShape .operand t u →
    SameShape .free (n.text ++ t) (m.text ++ u)
  | name {name t u : Text} : IsName name → SameShape .operand t u →
    SameShape .free (name ++ t) (name ++ u)

section SameShape

variable {side side' : Side} {c : Char} {s t u : Text}

theorem Separated.sameShape (h : Separated side t) : SameShape side t t := by
  induction h with
  | nil => exact .nil
  | char hnext _ ih => exact .char hnext ih
  | numeral hn _ ih => exact .numeral hn hn ih
  | name hname _ ih => exact .name hname ih

theorem SameShape.symm (h : SameShape side t u) : SameShape side u t := by
  induction h with
  | nil => exact .nil
  | char hnext _ ih => exact .char hnext ih
  | numeral hn hm _ ih => exact .numeral hm hn ih
  | name hname _ ih => exact .name hname ih

/-! ## Single characters -/

theorem Side.not_start_of_next (h : side.next c = some side') :
    c.isDigit = false ∧ isNameStart c = false := by
  rw [next] at h
  split at h
  · cases h
  · rename_i hstart
    rwa [Bool.not_eq_true, Bool.or_eq_false_iff] at hstart

theorem Side.ne_point_of_next (h : operand.next c = some side') : c ≠ '.' := by
  rintro rfl
  cases h

theorem isNumeralPart_of_next (h : Side.operand.next c = some side') :
    Numeral.isNumeralPart c = false := by
  rw [Numeral.isNumeralPart, (Side.not_start_of_next h).1, Bool.false_or, beq_eq_false_iff_ne]
  exact Side.ne_point_of_next h

theorem isNamePart_of_next (h : side.next c = some side') : isNamePart c = false := by
  obtain ⟨hdigit, hstart⟩ := Side.not_start_of_next h
  rw [isNameStart, Bool.or_eq_false_iff] at hstart
  rw [isNamePart, Char.isAlphanum, hstart.1, hdigit, hstart.2]
  rfl

/-- Neither a numeral nor a name goes on with what stands behind an operand. -/
theorem SameShape.headNot (h : SameShape .operand t u) :
    HeadNot Numeral.isNumeralPart t ∧ HeadNot isNamePart t := by
  cases h with
  | nil => exact ⟨headNot_nil, headNot_nil⟩
  | char hnext _ =>
    exact ⟨headNot_cons.2 (isNumeralPart_of_next hnext), headNot_cons.2 (isNamePart_of_next hnext)⟩

/-- A character with which no operand starts, or at a place where none may, stands in both texts. -/
theorem SameShape.exists_cons (h : SameShape side (c :: t) u)
    (hc : side ≠ .free ∨ (c.isDigit || c == '-') = false ∧ isNameStart c = false) :
    ∃ side' u', side.next c = some side' ∧ u = c :: u' ∧ SameShape side' t u' := by
  generalize htext : c :: t = w at h
  cases h with
  | nil => cases htext
  | char hnext h =>
    cases htext
    exact ⟨_, _, hnext, rfl, h⟩
  | numeral hn =>
    obtain ⟨d, run, hrun, hd⟩ := hn.wellFormed.exists_start
    rw [hrun] at htext
    cases htext
    rcases hc with hc | ⟨hc, -⟩
    · exact absurd rfl hc
    · rw [hc] at hd
      cases hd
  | name hname =>
    obtain ⟨d, rest, rfl, hd⟩ := hname.exists_start
    cases htext
    rcases hc with hc | ⟨-, hc⟩
    · exact absurd rfl hc
    · rw [hc] at hd
      cases hd

theorem SameShape.eq_nil (h : SameShape side [] u) : u = [] := by
  generalize htext : ([] : Text) = w at h
  cases h with
  | nil => rfl
  | char => cases htext
  | numeral hn =>
    obtain ⟨d, run, hrun, -⟩ := hn.wellFormed.exists_start
    rw [hrun] at htext
    cases htext
  | name hname =>
    obtain ⟨d, rest, rfl, -⟩ := hname.exists_start
    cases htext

/-! ## White space and signs -/

theorem Side.next_isWhitespace (hc : c.isWhitespace = true) (hside : side ≠ .signed) :
    side.next c = some side := by
  have hblank := isBlank_of_isWhitespace hc
  have hstart : (c.isDigit || isNameStart c) = false := by
    rw [isDigit_of_isWhitespace hc, Bool.false_or, ← Bool.not_eq_true]
    intro hstart
    rw [isBlank_of_isNameStart hstart] at hblank
    cases hblank
  rw [next, hstart, if_neg Bool.false_ne_true, if_pos hblank]
  cases side with
  | signed => exact absurd rfl hside
  | _ => rfl

theorem SameShape.exists_space (h : SameShape side (s ++ t) u) (hs : IsSpace s)
    (hside : side ≠ .signed) : ∃ u', u = s ++ u' ∧ SameShape side t u' := by
  induction s generalizing u with
  | nil => exact ⟨u, rfl, h⟩
  | cons c s ih =>
    obtain ⟨hc, hs⟩ := List.forall_mem_cons.1 hs
    have hnext := Side.next_isWhitespace hc hside
    obtain ⟨side', u, hnext', rfl, h⟩ := h.exists_cons
      (.inr ⟨no_start_of_isWhitespace hc, (Side.not_start_of_next hnext).2⟩)
    rw [hnext] at hnext'
    cases hnext'
    obtain ⟨u', rfl, h'⟩ := ih h hs
    exact ⟨u', rfl, h'⟩

/-- Behind the sign of an operator an operand may stand. -/
theorem SameShape.exists_symbol {op : Operator} (h : SameShape .operand (op.symbol ++ t) u) :
    ∃ u', u = op.symbol ++ u' ∧ SameShape .free t u' := by
  have hfirst : ∀ {c t u}, SameShape .operand (c :: t) u → Side.operand.next c = some .free →
      ∃ u', u = c :: u' ∧ SameShape .free t u' := by
    intro c t u h hc
    obtain ⟨side', u', hnext, rfl, h'⟩ := h.exists_cons (.inl (by decide))
    rw [hc] at hnext
    cases hnext
    exact ⟨u', rfl, h'⟩
  cases op with
  | floorDivide =>
    obtain ⟨v, rfl, hv⟩ := hfirst h rfl
    obtain ⟨side', u', hnext, rfl, h'⟩ := hv.exists_cons (.inr ⟨by decide, by decide⟩)
    cases hnext
    exact ⟨u', rfl, h'⟩
  | _ => exact hfirst h rfl

/-! ## Numerals and operations -/

/-- No numeral starts behind a sign. -/
theorem SameShape.headNot_isDigit (h : SameShape side t u) (hside : side ≠ .free) :
    HeadNot Char.isDigit t := by
  cases h with
  | nil => exact headNot_nil
  | char hnext _ => exact headNot_cons.2 (Side.not_start_of_next hnext).1
  | _ => exact absurd rfl hside

/-- A minus sign is the start of a numeral only if a digit follows. -/
theorem Numeral.WellFormed.text_append_ne {n : Numeral} (hn : n.WellFormed) {t rest : Text}
    (ht : HeadNot Char.isDigit t) : n.text ++ rest ≠ '-' :: t := by
  intro htext
  obtain ⟨c, whole, hc⟩ := List.exists_cons_of_ne_nil hn.whole_ne_nil
  have hdigit := hn.isDigit_whole c (hc ▸ List.mem_cons_self)
  rw [Numeral.text_eq, Numeral.unsignedText, hc] at htext
  cases hneg : n.negative with
  | false =>
    rw [hneg] at htext
    cases htext
    cases hdigit
  | true =>
    rw [hneg] at htext
    cases htext
    rw [headNot_cons.1 ht] at hdigit
    cases hdigit

/-- The numeral at the start of the one text is one of its numerals, so the other text has another
one in its place. -/
theorem SameShape.exists_numeral {n : Numeral} (h : SameShape .free (n.text ++ t) u)
    (hn : n.WellFormed) (hstops : n.StopsAt t) :
    n.Sound ∧ ∃ (m : Numeral) (u' : Text),
      m.Sound ∧ u = m.text ++ u' ∧ SameShape .operand t u' := by
  generalize htext : n.text ++ t = w at h
  cases h with
  | nil =>
    obtain ⟨d, run, hrun, -⟩ := hn.exists_start
    rw [hrun] at htext
    cases htext
  | @char _ side' c v _ hnext h =>
    -- A numeral starts with a digit, or with a minus sign and a digit behind it.
    obtain ⟨d, run, hrun, hd⟩ := hn.exists_start
    have htext' := htext
    rw [hrun] at htext'
    cases htext'
    rw [(Side.not_start_of_next hnext).1, Bool.false_or, beq_iff_eq] at hd
    subst hd
    cases hnext
    exact absurd htext (hn.text_append_ne (h.headNot_isDigit (by decide)))
  | @numeral n' m t' u' hn' hm h =>
    have hscan := Numeral.scan_eq_some_iff.2 ⟨hn'.wellFormed,
      Numeral.stopsAt_of_headNot h.headNot.1, rfl⟩
    rw [← htext, Numeral.scan_eq_some_iff.2 ⟨hn, hstops, rfl⟩] at hscan
    cases hscan
    exact ⟨hn', m, u', hm, rfl, h⟩
  | name hname =>
    obtain ⟨d, rest, rfl, hd⟩ := hname.exists_start
    have hhead := Numeral.headNot_text hn (p := isNameStart)
      (fun c => isNameStart_of_isDigit) (by decide) t
    rw [htext, List.cons_append, headNot_cons, hd] at hhead
    cases hhead

/-- **The link behind an operand of the one text has its like in the other one.** -/
theorem SameShape.exists_link {l : Link} (hl : l.WellFormed) {rest : Text}
    (hrest : l.operand.StopsAt rest)
    (h : SameShape .operand (l.separator ++ l.operand.text ++ rest) u) :
    l.operand.Sound ∧ ∃ (l' : Link) (rest' : Text),
      l'.WellFormed ∧ l'.operator = l.operator ∧ l'.operand.Sound ∧
      u = l'.separator ++ l'.operand.text ++ rest' ∧ SameShape .operand rest rest' := by
  obtain ⟨s, op, s', n⟩ := l
  have hsplit : Link.separator ⟨s, op, s', n⟩ ++ n.text ++ rest =
      s ++ (op.symbol ++ (s' ++ (n.text ++ rest))) := by
    simp [Link.separator]
  rw [hsplit] at h
  obtain ⟨u, rfl, hsymbol⟩ := h.exists_space hl.spaceBefore (by decide)
  obtain ⟨u, rfl, hafter⟩ := hsymbol.exists_symbol
  obtain ⟨u, rfl, hnumeral⟩ := hafter.exists_space hl.spaceAfter (by decide)
  obtain ⟨hn, m, rest', hm, rfl, hrest'⟩ := hnumeral.exists_numeral hl.operand hrest
  refine ⟨hn, ⟨s, op, s', m⟩, rest', ⟨hl.spaceBefore, hl.spaceAfter, hm.wellFormed⟩, rfl, hm, ?_,
    hrest'⟩
  simp [Link.separator]

theorem Link.headNot_separator {l : Link} (hl : l.WellFormed) (t : Text) :
    HeadNot Numeral.isNumeralPart (l.separator ++ t) := by
  rw [Link.separator, List.append_assoc, List.append_assoc]
  exact headNot_of_isSpace (fun _ => isNumeralPart_of_isWhitespace) hl.spaceBefore
    (l.operator.headNot_isNumeralPart_symbol _)

/-- Where an operation is read, a link stands behind its left operand. -/
theorem exists_link_of_scanAny {operators : List Operator} {n : Numeral} (hn : n.WellFormed)
    (ht : HeadNot Numeral.isNumeralPart t) {o : Operation} {rest : Text}
    (h : scanAny operators (n.text ++ t) = some (o, rest)) :
    ∃ l : Link, l.WellFormed ∧ l.operator ∈ operators ∧ l.operand.StopsAt rest ∧
      t = l.separator ++ l.operand.text ++ rest := by
  obtain ⟨op, hop, hscan⟩ := List.exists_of_findSome?_eq_some h
  obtain ⟨rfl, ho, hrest, htext⟩ := Operation.scan_eq_some_iff.1 hscan
  let l : Link := ⟨o.spaceBefore, o.operator, o.spaceAfter, o.rhs⟩
  have hl : l.WellFormed := ⟨ho.spaceBefore, ho.spaceAfter, ho.rhs⟩
  have hsplit : n.text ++ t = o.lhs.text ++ (l.separator ++ (l.operand.text ++ rest)) := by
    rw [htext]
    simp [l, Operation.text, Link.separator]
  -- Both numerals end where nothing can go on with them, so they are the same.
  have hlhs := Numeral.scan_eq_some_iff.2
    ⟨ho.lhs, Numeral.stopsAt_of_headNot (Link.headNot_separator hl _), hsplit⟩
  rw [Numeral.scan_eq_some_iff.2 ⟨hn, Numeral.stopsAt_of_headNot ht, rfl⟩] at hlhs
  cases hlhs
  exact ⟨l, hl, hop, hrest, by rw [List.append_assoc]⟩

/-- If an operation is read behind the one operand, then also behind the other one, and whatever
numerals the operands are. -/
theorem SameShape.exists_scanAny {operators : List Operator} {n : Numeral} {r : Operation × Text}
    (h : SameShape .operand t u) (hn : n.WellFormed)
    (hscan : scanAny operators (n.text ++ t) = some r) :
    ∃ (l l' : Link) (rest rest' : Text), SameShape .operand rest rest' ∧
      ∀ n : Numeral, n.WellFormed → scanAny operators (n.text ++ t) = some (l.operation n, rest) ∧
        scanAny operators (n.text ++ u) = some (l'.operation n, rest') := by
  obtain ⟨l, hl, hop, hrest, rfl⟩ := exists_link_of_scanAny hn h.headNot.1 hscan
  obtain ⟨-, l', rest', hl', hop', -, rfl, hsame⟩ := h.exists_link hl hrest
  refine ⟨l, l', _, rest', hsame, fun n hn => ⟨?_, ?_⟩⟩
  · rw [scanAny_link hn hl hrest, if_pos hop]
  · rw [scanAny_link hn hl' (Numeral.stopsAt_of_headNot hsame.symm.headNot.1), hop', if_pos hop]

/-- **Behind operands of the same shape, an operation is read in both texts or in none.** -/
theorem SameShape.scanAny_cases (h : SameShape .operand t u) (operators : List Operator) :
    (∀ n : Numeral, n.WellFormed → scanAny operators (n.text ++ t) = none ∧
      scanAny operators (n.text ++ u) = none) ∨
    ∃ (l l' : Link) (rest rest' : Text), SameShape .operand rest rest' ∧
      ∀ n : Numeral, n.WellFormed → scanAny operators (n.text ++ t) = some (l.operation n, rest) ∧
        scanAny operators (n.text ++ u) = some (l'.operation n, rest') := by
  by_cases hnone : ∀ n : Numeral, n.WellFormed → scanAny operators (n.text ++ t) = none ∧
      scanAny operators (n.text ++ u) = none
  · exact .inl hnone
  simp only [not_forall, not_and_or] at hnone
  obtain ⟨n, hn, hsome | hsome⟩ := hnone
  · obtain ⟨r, hscan⟩ := Option.ne_none_iff_exists'.1 hsome
    exact .inr (h.exists_scanAny hn hscan)
  · obtain ⟨r, hscan⟩ := Option.ne_none_iff_exists'.1 hsome
    obtain ⟨l, l', rest, rest', hsame, hboth⟩ := h.symm.exists_scanAny hn hscan
    exact .inr ⟨l', l, rest', rest, hsame.symm, fun n hn => (hboth n hn).symm⟩

/-- **If the one text is a number, so is the other one.** -/
theorem SameShape.exists_literal {n : Numeral} (h : SameShape .free t u)
    (hn : literal? t = some n) : n.Sound ∧ ∃ m : Numeral, m.Sound ∧ literal? u = some m := by
  obtain ⟨hwf, s, plus, s', hs, hplus, hs', rfl⟩ := exists_of_literal? hn
  have hstops : n.StopsAt s' := Numeral.stopsAt_of_headNot
    (headNot_of_forall fun c hc => isNumeralPart_of_isWhitespace (hs' c hc))
  have hrest : ∀ {u}, SameShape .free (n.text ++ s') u →
      n.Sound ∧ ∃ m : Numeral, m.Sound ∧ u = m.text ++ s' := by
    intro u h
    obtain ⟨hsound, m, u', hm, rfl, hspace⟩ := h.exists_numeral hwf hstops
    rw [← List.append_nil s'] at hspace
    obtain ⟨u', rfl, hnil⟩ := hspace.exists_space hs' (by decide)
    rw [hnil.eq_nil, List.append_nil]
    exact ⟨hsound, m, hm, rfl⟩
  rw [List.append_assoc, List.append_assoc] at h
  obtain ⟨u, rfl, hplain⟩ := h.exists_space hs (by decide)
  rcases hplus with rfl | rfl
  · obtain ⟨hsound, m, hm, rfl⟩ := hrest hplain
    refine ⟨hsound, m, hm, ?_⟩
    rw [← List.append_assoc]
    exact literal?_append hm.wellFormed hs hs'
  · obtain ⟨side', u, hnext, rfl, hbehind⟩ := hplain.exists_cons (.inr ⟨by decide, by decide⟩)
    cases hnext
    obtain ⟨hsound, m, hm, rfl⟩ := hrest hbehind
    exact ⟨hsound, m, hm, literal?_plus_append hm.wellFormed hs hs'⟩

/-- A text of blanks has no other of the same shape. -/
theorem SameShape.eq_of_blank (h : SameShape side t u) (ht : ∀ c ∈ t, isBlank c = true) :
    u = t := by
  induction h with
  | nil => rfl
  | char _ _ ih => rw [ih fun d hd => ht d (List.mem_cons_of_mem _ hd)]
  | numeral hn =>
    obtain ⟨d, run, hrun, hd⟩ := hn.wellFormed.exists_start
    have hblank := ht d (by rw [hrun]; exact List.mem_cons_self)
    rw [Bool.or_eq_true, beq_iff_eq] at hd
    rcases hd with hd | rfl
    · rw [isBlank_of_isDigit hd] at hblank
      cases hblank
    · exact absurd hblank (by decide)
  | name hname =>
    obtain ⟨d, rest, rfl, hd⟩ := hname.exists_start
    have hblank := ht d List.mem_cons_self
    rw [isBlank_of_isNameStart hd] at hblank
    cases hblank

/-! ## Names -/

/-- **The leftmost name of the one text is that of the other one**, and numbers may be put in its
place. -/
theorem SameShape.exists_name {before name after : Text} (h : SameShape side t u)
    (hfirst : firstName? t = some (before, name, after)) :
    ∃ before' after', firstName? u = some (before', name, after') ∧
      ∀ n m : Numeral, n.Sound → m.Sound →
        SameShape side (before ++ n.text ++ after) (before' ++ m.text ++ after') := by
  induction h generalizing before with
  | nil => cases hfirst
  | @char side side' c t u hnext h ih =>
    have hc : Nameless [c] := List.forall_mem_singleton.2 (Side.not_start_of_next hnext).2
    rw [← List.singleton_append, firstName?_append hc, Option.map_eq_some_iff] at hfirst
    obtain ⟨⟨b, n, a⟩, hb, heq⟩ := hfirst
    cases heq
    obtain ⟨b', a', hu, hsame⟩ := ih hb
    exact ⟨c :: b', a', firstName?_append_of_nameless hc hu,
      fun n m hn hm => .char hnext (hsame n m hn hm)⟩
  | @numeral n m t u hn hm h ih =>
    rw [firstName?_append hn.wellFormed.nameless, Option.map_eq_some_iff] at hfirst
    obtain ⟨⟨b, _, a⟩, hb, heq⟩ := hfirst
    cases heq
    obtain ⟨b', a', hu, hsame⟩ := ih hb
    refine ⟨m.text ++ b', a', firstName?_append_of_nameless hm.wellFormed.nameless hu,
      fun p q hp hq => ?_⟩
    have hrest := SameShape.numeral hn hm (hsame p q hp hq)
    simpa only [List.append_assoc] using hrest
  | @name word t u hname h ih =>
    have hself : ∀ v, HeadNot isNamePart v → firstName? (word ++ v) = some ([], word, v) :=
      fun v hv => firstName?_eq_some_iff.2 ⟨rfl, nameless_nil, hname, hv⟩
    rw [hself t h.headNot.2] at hfirst
    cases hfirst
    exact ⟨[], u, hself u h.symm.headNot.2, fun n m hn hm => .numeral hn hm h⟩

theorem SameShape.nameless (h : SameShape side t u) (ht : Nameless t) : Nameless u := by
  rw [← firstName?_eq_none_iff] at ht ⊢
  cases hu : firstName? u with
  | none => rfl
  | some p =>
    obtain ⟨before, name, after⟩ := p
    obtain ⟨before', after', hfirst, -⟩ := h.symm.exists_name hu
    rw [ht] at hfirst
    cases hfirst

/-! ## Parentheses -/

/-- The texts have the same parentheses. -/
theorem SameShape.count_eq (h : SameShape side t u) (hc : isParen c = true) :
    t.count c = u.count c := by
  induction h with
  | nil => rfl
  | char _ _ ih => rw [List.count_cons, List.count_cons, ih]
  | numeral hn hm _ ih =>
    rw [List.count_append, List.count_append, ih,
      count_paren_of_parenFree hn.wellFormed.parenFree hc,
      count_paren_of_parenFree hm.wellFormed.parenFree hc]
  | name _ _ ih => rw [List.count_append, List.count_append, ih]

/-- **The first parenthesis of the one text is that of the other one**, and texts of the same shape
may be put in its place and that of what follows it. -/
theorem SameShape.exists_paren {before after : Text} (h : SameShape side (before ++ c :: after) u)
    (hbefore : ParenFree before) (hc : isParen c = true) :
    ∃ before' after' mid last, u = before' ++ c :: after' ∧ ParenFree before' ∧
      Side.next mid c = some last ∧ SameShape last after after' ∧
      ∀ v v', SameShape mid v v' → SameShape side (before ++ v) (before' ++ v') := by
  generalize htext : before ++ c :: after = t at h
  induction h generalizing before with
  | nil => simp at htext
  | @char side side' d t u hnext h ih =>
    cases before with
    | nil =>
      cases htext
      exact ⟨[], u, side, side', rfl, parenFree_nil, hnext, h, fun v v' hv => hv⟩
    | cons e before =>
      obtain ⟨rfl, htail⟩ := List.cons.inj htext
      obtain ⟨he, hbefore⟩ := List.forall_mem_cons.1 hbefore
      obtain ⟨before', after', mid, last, rfl, hbefore', hmid, hlast, hplug⟩ := ih hbefore htail
      exact ⟨e :: before', after', mid, last, rfl, List.forall_mem_cons.2 ⟨he, hbefore'⟩, hmid,
        hlast, fun v v' hv => .char hnext (hplug v v' hv)⟩
  | @numeral n m t u hn hm h ih =>
    obtain ⟨before, rfl, rfl⟩ := exists_of_append_eq_paren hn.wellFormed.parenFree hc htext.symm
    obtain ⟨before', after', mid, last, rfl, hbefore', hmid, hlast, hplug⟩ :=
      ih (parenFree_append.1 hbefore).2 rfl
    refine ⟨m.text ++ before', after', mid, last, by rw [List.append_assoc],
      parenFree_append.2 ⟨hm.wellFormed.parenFree, hbefore'⟩, hmid, hlast, fun v v' hv => ?_⟩
    rw [List.append_assoc, List.append_assoc]
    exact .numeral hn hm (hplug v v' hv)
  | @name name t u hname h ih =>
    have hfree := parenFree_of_isName hname
    obtain ⟨before, rfl, rfl⟩ := exists_of_append_eq_paren hfree hc htext.symm
    obtain ⟨before', after', mid, last, rfl, hbefore', hmid, hlast, hplug⟩ :=
      ih (parenFree_append.1 hbefore).2 rfl
    refine ⟨name ++ before', after', mid, last, by rw [List.append_assoc],
      parenFree_append.2 ⟨hfree, hbefore'⟩, hmid, hlast, fun v v' hv => ?_⟩
    rw [List.append_assoc, List.append_assoc]
    exact .name hname (hplug v v' hv)

theorem SameShape.parenFree (h : SameShape side t u) (ht : ParenFree t) : ParenFree u := by
  rw [← firstParen?_eq_none_iff] at ht ⊢
  cases hu : firstParen? u with
  | none => rfl
  | some p =>
    obtain ⟨before, paren, after⟩ := p
    obtain ⟨rfl, hbefore, hparen⟩ := firstParen?_eq_some_iff.1 hu
    obtain ⟨before', after', mid, last, rfl, hbefore', -⟩ := h.symm.exists_paren hbefore hparen
    rw [firstParen?_eq_some_iff.2 ⟨rfl, hbefore', hparen⟩] at ht
    cases ht

/-- The first parentheses of two texts: neither has one, or both close a group, or both open one,
and then texts of the same shape may be put in the place of the parenthesis and what follows it. -/
inductive SameParen : Text → Text → Prop
  | parenFree {t u : Text} : ParenFree t → ParenFree u → SameParen t u
  | close {before before' after after' : Text} : ParenFree before → ParenFree before' →
    SameShape .free before before' → SameShape .operand after after' →
    SameParen (before ++ ')' :: after) (before' ++ ')' :: after')
  | opening {before before' after after' : Text} : ParenFree before → ParenFree before' →
    SameShape .free after after' →
    (∀ v v', SameShape .free v v' → SameShape .free (before ++ v) (before' ++ v')) →
    SameParen (before ++ '(' :: after) (before' ++ '(' :: after')

theorem SameShape.sameParen (h : SameShape .free t u) : SameParen t u := by
  rcases paren_cases t with ht | ⟨before, after, hbefore, rfl⟩ | ⟨before, after, hbefore, rfl⟩
  · exact .parenFree ht (h.parenFree ht)
  · obtain ⟨before', after', mid, last, rfl, hbefore', hmid, hafter, hplug⟩ :=
      h.exists_paren hbefore (by decide)
    cases hmid
    have hin : SameShape .free before before' := by
      simpa only [List.append_nil] using hplug [] [] .nil
    exact .close hbefore hbefore' hin hafter
  · obtain ⟨before', after', mid, last, rfl, hbefore', hmid, hafter, hplug⟩ :=
      h.exists_paren hbefore (by decide)
    -- A group opens only where an operand may stand.
    cases mid <;> cases hmid
    exact .opening hbefore hbefore' hafter hplug

end SameShape

end EquationFigure
