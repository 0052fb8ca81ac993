import EquationFigure.Proofs.Equation.Resolving
import EquationFigure.Proofs.Equation.Names

/-!
# Which texts are accepted

Nothing checks an equation before it is evaluated: it is accepted if what is left of it in the end
is a number.  A value is spliced in as text, so it may grow together with what stands beside it, and
a minus sign that is left over may become the sign of a number.  Even so, not every text is
accepted.  A reader that goes through a text from left to right and knows only where in an equation
it is can tell the texts that no rewriting makes a number of, because a value takes it from any
place to the same place as what the value stands for.

* `Place`, `reads` — the reader, which counts the open parentheses.
* `reads_numberText`, `reads_isName`, `reads_operation` — where values, names and operations take
  it.
* `accepts_of_evaluate` — an equation that has a value is read to its end.
-/

set_option autoImplicit false

namespace EquationFigure

open Text EvalM

/-! ## Reading from left to right -/

/-- What the reader makes of a character. -/
inductive CharKind where
  /-- A letter, a digit or an underscore: numerals and names are made of them. -/
  | word
  /-- White space. -/
  | space
  /-- The plus sign. -/
  | plus
  /-- The minus sign. -/
  | minus
  /-- The slash, of which one or two are an operator. -/
  | slash
  /-- The sign of another operator. -/
  | times
  /-- The decimal point. -/
  | point
  /-- The parenthesis that opens a group. -/
  | opening
  /-- The parenthesis that closes a group. -/
  | closing
  /-- A character that no equation has. -/
  | foreign
deriving DecidableEq

/-- What the reader makes of the character. -/
def charKind (c : Char) : CharKind :=
  if isNamePart c then .word
  else if c.isWhitespace then .space
  else if c = '+' then .plus
  else if c = '-' then .minus
  else if c = '/' then .slash
  else if c ∈ ['^', '*', '%'] then .times
  else if c = '.' then .point
  else if c = '(' then .opening
  else if c = ')' then .closing
  else .foreign

/-- Where in an equation the reader is. -/
inductive Place where
  /-- At the start of an equation or of a group, where a plus sign may stand. -/
  | start
  /-- Behind a sign, where an operand has to follow. -/
  | sign
  /-- Behind an operator. -/
  | operator
  /-- Behind one slash. -/
  | slash
  /-- Behind a part of an operand. -/
  | operand
  /-- Behind a point. -/
  | point
  /-- Behind the white space that follows an operand. -/
  | apart
deriving DecidableEq

namespace Place

/-- Where a character other than a parenthesis takes the reader.  What numerals and names are made
of may stand anywhere. -/
def next : Place → CharKind → Option Place
  | _, .word => some operand
  | start, .space => some start
  | start, .plus | start, .minus | sign, .minus | operator, .minus | slash, .minus => some sign
  | operator, .space | slash, .space | slash, .slash => some operator
  | operand, .space | apart, .space => some apart
  | operand, .plus | operand, .minus | operand, .times => some operator
  | apart, .plus | apart, .minus | apart, .times => some operator
  | operand, .slash | apart, .slash => some slash
  | operand, .point => some point
  | _, _ => none

/-- Whether an equation or a group may end here. -/
def ends : Place → Bool
  | operand | apart => true
  | start | sign | operator | slash | point => false

end Place

/-- Where a character takes a reader that knows the number of open parentheses, too. -/
def readKind (p : Place) (depth : Nat) : CharKind → Option (Place × Nat)
  | .opening => some (.start, depth + 1)
  | .closing =>
    match depth with
    | 0 => none
    | depth + 1 => if p.ends then some (.operand, depth) else none
  | kind => (p.next kind).map fun p => (p, depth)

/-- Where a text takes the reader. -/
def reads (p : Place) (depth : Nat) : Text → Option (Place × Nat)
  | [] => some (p, depth)
  | c :: t => (readKind p depth (charKind c)).bind fun q => reads q.1 q.2 t

/-- The text is read to its end, where no parenthesis is open and an equation may end. -/
def Accepts (t : Text) : Prop := ∃ p, reads .start 0 t = some (p, 0) ∧ p.ends = true

section Reads

variable {p p' : Place} {depth : Nat} {c : Char} {s t : Text} {q : Place × Nat}

theorem charKind_of_isNamePart (h : isNamePart c = true) : charKind c = .word := if_pos h

theorem charKind_of_isWhitespace (h : c.isWhitespace = true) : charKind c = .space := by
  rw [charKind, isNamePart_of_isWhitespace h, if_neg Bool.false_ne_true, if_pos h]

theorem readKind_eq {kind : CharKind} (hopen : kind ≠ .opening) (hclose : kind ≠ .closing) :
    readKind p depth kind = (p.next kind).map fun p => (p, depth) := by
  cases kind with
  | opening => exact absurd rfl hopen
  | closing => exact absurd rfl hclose
  | _ => rfl

theorem next_opening (p : Place) : p.next .opening = none := by cases p <;> rfl

theorem next_closing (p : Place) : p.next .closing = none := by cases p <;> rfl

theorem reads_cons_of_next {kind : CharKind} (hkind : charKind c = kind)
    (hnext : p.next kind = some p') : reads p depth (c :: t) = reads p' depth t := by
  have hopen : kind ≠ .opening := by
    rintro rfl
    rw [next_opening] at hnext
    cases hnext
  have hclose : kind ≠ .closing := by
    rintro rfl
    rw [next_closing] at hnext
    cases hnext
  rw [reads, hkind, readKind_eq hopen hclose, hnext]
  rfl

theorem reads_append : reads p depth (s ++ t) =
    (reads p depth s).bind fun q => reads q.1 q.2 t := by
  induction s generalizing p depth with
  | nil => rfl
  | cons c s ih =>
    rw [List.cons_append, reads, reads, Option.bind_assoc]
    exact congrArg _ (funext fun q => ih)

theorem reads_append_of_some (h : reads p depth s = some q) :
    reads p depth (s ++ t) = reads q.1 q.2 t := by
  rw [reads_append, h]
  rfl

/-- More open parentheses make no difference. -/
theorem readKind_add {kind : CharKind} (h : readKind p depth kind = some q) (extra : Nat) :
    readKind p (depth + extra) kind = some (q.1, q.2 + extra) := by
  by_cases hopen : kind = .opening
  · subst hopen
    cases h
    rw [readKind, Nat.add_right_comm]
  by_cases hclose : kind = .closing
  · subst hclose
    cases depth with
    | zero => cases h
    | succ depth =>
      rw [readKind] at h
      rw [Nat.succ_add, readKind]
      split at h
      · cases h
        exact if_pos ‹_›
      · cases h
  rw [readKind_eq hopen hclose, Option.map_eq_some_iff] at h ⊢
  obtain ⟨p', hp', rfl⟩ := h
  exact ⟨p', hp', rfl⟩

theorem reads_add (h : reads p depth t = some q) (extra : Nat) :
    reads p (depth + extra) t = some (q.1, q.2 + extra) := by
  induction t generalizing p depth with
  | nil =>
    cases h
    rfl
  | cons c t ih =>
    rw [reads, Option.bind_eq_some_iff] at h
    obtain ⟨r, hr, ht⟩ := h
    rw [reads, readKind_add hr]
    exact ih ht

/-! ## Where values, and what they stand for, take the reader -/

/-- Letters, digits and underscores take the reader behind a part of an operand. -/
theorem reads_word (hne : t ≠ []) (h : ∀ c ∈ t, isNamePart c = true) :
    reads p depth t = some (.operand, depth) := by
  induction t generalizing p with
  | nil => exact absurd rfl hne
  | cons c t ih =>
    have hnext : p.next .word = some .operand := by cases p <;> rfl
    rw [reads_cons_of_next (charKind_of_isNamePart (h c List.mem_cons_self)) hnext]
    cases t with
    | nil => rfl
    | cons d t => exact ih (List.cons_ne_nil d t) fun e he => h e (List.mem_cons_of_mem c he)

theorem reads_isName (h : IsName t) : reads p depth t = some (.operand, depth) := by
  obtain ⟨c, rest, rfl, hc, hrest⟩ := h
  exact reads_word (List.cons_ne_nil c rest)
    (List.forall_mem_cons.2 ⟨isNamePart_of_isNameStart hc, hrest⟩)

theorem reads_digits (hne : t ≠ []) (h : ∀ c ∈ t, c.isDigit = true) :
    reads p depth t = some (.operand, depth) :=
  reads_word hne fun c hc => isNamePart_of_isDigit (h c hc)

theorem Numeral.reads_unsignedText {n : Numeral} (hn : n.WellFormed) :
    reads p depth n.unsignedText = some (.operand, depth) := by
  rw [unsignedText, reads_append_of_some (reads_digits hn.whole_ne_nil hn.isDigit_whole)]
  split
  · rfl
  · rename_i hne
    rw [reads_cons_of_next (c := '.') rfl (rfl : Place.operand.next .point = some .point)]
    exact reads_digits hne hn.isDigit_fraction

theorem Place.exists_next_minus (hp : p ≠ .point) : ∃ p', p.next .minus = some p' := by
  cases p with
  | point => exact absurd rfl hp
  | _ => exact ⟨_, rfl⟩

/-- A numeral takes the reader behind an operand, unless its sign would stand behind a point. -/
theorem Numeral.reads_text {n : Numeral} (hn : n.WellFormed) (hp : p ≠ .point) :
    reads p depth n.text = some (.operand, depth) := by
  rw [Numeral.text_eq]
  split
  · obtain ⟨p', hp'⟩ := p.exists_next_minus hp
    rw [List.singleton_append, reads_cons_of_next (c := '-') rfl hp']
    exact reads_unsignedText hn
  · exact reads_unsignedText hn

/-- **The text of a value takes the reader behind an operand**, if it is read at all. -/
theorem reads_numberText {x : Float} (h : reads p depth (numberText x) = some q) :
    q = (.operand, depth) := by
  obtain ⟨sign, u, heq, hsign, hu⟩ : ∃ sign u : Text, numberText x = sign ++ u ∧
      (sign = [] ∨ sign = ['-']) ∧ ∀ p depth, reads p depth u = some (.operand, depth) := by
    by_cases hfin : x.isFinite = true
    · rw [numberText_eq_text hfin, Numeral.text_eq]
      refine ⟨_, _, rfl, ?_, fun p depth =>
        Numeral.reads_unsignedText (Numeral.wellFormed_ofFloat x)⟩
      split
      · exact .inr rfl
      · exact .inl rfl
    · have hword := numberText_of_not_isFinite (Bool.not_eq_true _ ▸ hfin)
      have hnan : ∀ p depth, reads p depth ['N', 'a', 'N'] = some (.operand, depth) :=
        fun p depth => reads_word (List.cons_ne_nil _ _) (List.all_eq_true.1 rfl)
      have hinf : ∀ p depth, reads p depth infName = some (.operand, depth) :=
        fun p depth => reads_isName isName_infName
      simp only [List.mem_cons, List.not_mem_nil, or_false] at hword
      rcases hword with heq | heq | heq
      · exact ⟨[], _, heq, .inl rfl, hnan⟩
      · exact ⟨[], _, heq, .inl rfl, hinf⟩
      · exact ⟨['-'], _, heq, .inr rfl, hinf⟩
  rw [heq] at h
  rcases hsign with rfl | rfl
  · rw [List.nil_append, hu] at h
    cases h
    rfl
  · rw [List.singleton_append, reads, Option.bind_eq_some_iff] at h
    obtain ⟨r, hr, hq⟩ := h
    change (p.next .minus).map (fun p => (p, depth)) = some r at hr
    rw [Option.map_eq_some_iff] at hr
    obtain ⟨p', -, rfl⟩ := hr
    rw [hu] at hq
    cases hq
    rfl

theorem reads_isSpace (hs : IsSpace s) (hp : p.next .space = some p) :
    reads p depth s = some (p, depth) := by
  induction s with
  | nil => rfl
  | cons c s ih =>
    rw [reads_cons_of_next (charKind_of_isWhitespace (hs c List.mem_cons_self)) hp]
    exact ih fun d hd => hs d (List.mem_cons_of_mem c hd)

/-- White space behind an operand leaves the reader behind it. -/
theorem reads_isSpace_of_ends (depth : Nat) (hs : IsSpace s) (hp : p.ends = true) :
    ∃ p', reads p depth s = some (p', depth) ∧ p'.ends = true := by
  cases s with
  | nil => exact ⟨p, rfl, hp⟩
  | cons c s =>
    have hnext : p.next .space = some .apart := by
      cases p <;> first | rfl | cases hp
    refine ⟨.apart, ?_, rfl⟩
    rw [reads_cons_of_next (charKind_of_isWhitespace (hs c List.mem_cons_self)) hnext]
    exact reads_isSpace (fun d hd => hs d (List.mem_cons_of_mem c hd)) rfl

/-- An operator with white space behind it takes the reader behind the operator. -/
theorem reads_symbol (op : Operator) (depth : Nat) (hs : IsSpace s) (hp : p.ends = true) :
    ∃ p', reads p depth (op.symbol ++ s) = some (p', depth) ∧ (p' = .operator ∨ p' = .slash) := by
  have hspace : reads .operator depth s = some (.operator, depth) := reads_isSpace hs rfl
  have hsymbol : op = .divide ∨ reads p depth op.symbol = some (.operator, depth) := by
    cases p with
    | operand => cases op <;> first | exact .inl rfl | exact .inr rfl
    | apart => cases op <;> first | exact .inl rfl | exact .inr rfl
    | _ => cases hp
  rcases hsymbol with rfl | hsymbol
  · have hslash : p.next .slash = some .slash := by
      cases p <;> first | rfl | cases hp
    rw [Operator.symbol, List.singleton_append, reads_cons_of_next (c := '/') rfl hslash]
    cases s with
    | nil => exact ⟨.slash, rfl, .inr rfl⟩
    | cons c s =>
      have hc := charKind_of_isWhitespace (hs c List.mem_cons_self)
      rw [reads_cons_of_next hc rfl] at hspace ⊢
      exact ⟨.operator, hspace, .inl rfl⟩
  · rw [reads_append_of_some hsymbol]
    exact ⟨.operator, hspace, .inl rfl⟩

/-- **An operation takes the reader where its value does**, which is behind an operand. -/
theorem reads_operation {o : Operation} (ho : o.WellFormed) (hp : p ≠ .point) :
    reads p depth o.text = some (.operand, depth) := by
  obtain ⟨p₁, hp₁, hends⟩ := reads_isSpace_of_ends (p := .operand) depth ho.spaceBefore rfl
  obtain ⟨p₂, hp₂, hop⟩ := reads_symbol o.operator depth ho.spaceAfter hends
  have hne : p₂ ≠ .point := by
    rcases hop with rfl | rfl <;> decide
  have htext : o.text = o.lhs.text ++ (o.spaceBefore ++ ((o.operator.symbol ++ o.spaceAfter) ++
      o.rhs.text)) := by
    simp [Operation.text]
  rw [htext, reads_append_of_some (Numeral.reads_text ho.lhs hp), reads_append_of_some hp₁,
    reads_append_of_some hp₂]
  exact Numeral.reads_text ho.rhs hne

/-- Each sign is of its own kind. -/
theorem eq_of_charKind : (charKind c = .plus → c = '+') ∧ (charKind c = .minus → c = '-') ∧
    (charKind c = .slash → c = '/') ∧ (charKind c = .point → c = '.') ∧
    (charKind c = .opening → c = '(') ∧ (charKind c = .closing → c = ')') := by
  rw [charKind]
  split_ifs with h₁ h₂ h₃ h₄ h₅ h₆ h₇ h₈ h₉ <;> simp_all

theorem kind_of_readKind_point {kind : CharKind} {depth' : Nat}
    (h : readKind p depth kind = some (.point, depth')) : kind = .point := by
  cases kind with
  | point => rfl
  | opening => cases h
  | closing =>
    cases depth with
    | zero => cases h
    | succ depth =>
      rw [readKind] at h
      split at h <;> cases h
  | _ => cases p <;> cases h

/-- The reader is behind a point only where a point has been read. -/
theorem ne_point_of_headNot (h : reads .start 0 s = some q)
    (hs : HeadNot Numeral.isNumeralPart s.reverse) : q.1 ≠ .point := by
  rcases List.eq_nil_or_concat s with rfl | ⟨t, c, rfl⟩
  · cases h
    decide
  · rintro hpoint
    rw [List.concat_eq_append, reads_append, Option.bind_eq_some_iff] at h
    obtain ⟨r, -, hr⟩ := h
    rw [reads, Option.bind_eq_some_iff] at hr
    obtain ⟨r', hr', hq⟩ := hr
    cases hq
    obtain ⟨p', depth'⟩ := r'
    obtain rfl : p' = .point := hpoint
    obtain rfl := eq_of_charKind.2.2.2.1 (kind_of_readKind_point hr')
    rw [List.concat_eq_append, List.reverse_append] at hs
    exact absurd (headNot_cons.1 hs) (by decide)

/-! ## What is accepted -/

theorem Accepts.of_reads {before after u v : Text} (h : Accepts (before ++ u ++ after))
    (hread : ∀ q q', reads .start 0 before = some q → reads q.1 q.2 u = some q' →
      reads q.1 q.2 v = some q') : Accepts (before ++ v ++ after) := by
  obtain ⟨p, hp, hends⟩ := h
  rw [List.append_assoc, reads_append, Option.bind_eq_some_iff] at hp
  obtain ⟨q, hq, hp⟩ := hp
  rw [reads_append, Option.bind_eq_some_iff] at hp
  obtain ⟨q', hq', hp⟩ := hp
  refine ⟨p, ?_, hends⟩
  rw [List.append_assoc, reads_append_of_some hq, reads_append_of_some (hread q q' hq hq')]
  exact hp

/-- A number with white space around it and at most a plus sign in front is accepted. -/
theorem accepts_of_literal? {n : Numeral} (h : literal? t = some n) : Accepts t := by
  obtain ⟨hn, s, plus, s', hs, hplus, hs', rfl⟩ := exists_of_literal? h
  obtain ⟨p, hp, hends⟩ := reads_isSpace_of_ends (p := .operand) 0 hs' rfl
  have hspace : reads .start 0 s = some (.start, 0) := reads_isSpace hs rfl
  refine ⟨p, ?_, hends⟩
  rw [List.append_assoc, List.append_assoc, reads_append_of_some hspace]
  rcases hplus with rfl | rfl
  · rw [List.nil_append, reads_append_of_some (Numeral.reads_text hn (by decide))]
    exact hp
  · rw [List.singleton_append,
      reads_cons_of_next (c := '+') rfl (rfl : Place.start.next .plus = some .sign),
      reads_append_of_some (Numeral.reads_text hn (by decide))]
    exact hp

/-- **A text without parentheses that has a value is accepted.** -/
theorem accepts_of_reduce {x : Float} (h : (reduce t).outcome = .ok x) : Accepts t := by
  revert h
  refine reduce_induction ?read ?fail ?step t
  case read =>
    intro t _ h
    obtain ⟨n, hn, -⟩ := readValue_eq_ok h
    exact accepts_of_literal? hn
  case fail => exact fun _ _ _ _ _ h => by cases h
  case step =>
    intro t occ y hnext _ ih h
    have hin := nextOperation_spec hnext
    rw [hin.text]
    refine (ih h).of_reads fun q q' hq hq' => ?_
    rw [reads_numberText hq']
    exact reads_operation hin.wellFormed (ne_point_of_headNot hq hin.starts)

/-- A group takes the reader behind an operand. -/
theorem reads_group {inner : Text} (h : Accepts inner) :
    reads p depth ('(' :: (inner ++ [')'])) = some (.operand, depth) := by
  obtain ⟨p', hp', hends⟩ := h
  have hinner := reads_add hp' (depth + 1)
  rw [Nat.zero_add] at hinner
  change reads .start (depth + 1) (inner ++ [')']) = _
  rw [reads_append_of_some hinner]
  change (readKind p' (depth + 1) .closing).bind _ = _
  rw [readKind, if_pos hends]
  rfl

/-- **A text without names that has a value is accepted.** -/
theorem accepts_of_computes {x : Float} (h : Computes t x) : Accepts t := by
  induction hcount : t.count '(' using Nat.strong_induction_on generalizing t x with
  | h count ih =>
    obtain ⟨u, hu, hx⟩ := h
    cases hu with
    | flat => exact accepts_of_reduce hx
    | @group before after rest _ hbefore hafter hrest =>
      obtain ⟨inner, tail, y, rfl, hinner, rfl⟩ := handsBack_iff.1 hafter
      have hcountx := count_eq_zero_of_parenFree (parenFree_numberText y)
      simp only [List.count_append, List.count_cons_self, count_eq_zero_of_parenFree hbefore,
        List.count_cons_of_ne (by decide : ')' ≠ '(')] at hcount
      have hin := ih _ (by omega) hinner rfl
      have hout := ih _
        (by simp only [List.count_append, count_eq_zero_of_parenFree hbefore]; omega)
        ⟨u, hrest, hx⟩ rfl
      rw [← List.append_assoc] at hout
      have haccepts := hout.of_reads (v := '(' :: (inner ++ [')'])) fun q q' _ hq' => by
        rw [reads_numberText hq']
        exact reads_group hin
      simpa using haccepts

end Reads

/-! ## Evaluation -/

section Evaluation

variable {vars : Variables} {find : Text → EvalM Float}

theorem ends_substituteWithin_accepts (depth times : Nat) (t : Text) :
    Attempt.Ends (fun _ => True) (fun u => Accepts u → Accepts t) (fun _ => True)
      (substituteWithin vars find depth times t) := by
  induction times generalizing t with
  | zero =>
    rw [substituteWithin.eq_def]
    split
    · exact Attempt.ends_pure fun h => h
    · exact Attempt.ends_fail trivial
  | succ times ih =>
    rw [substituteWithin.eq_def]
    split
    · exact Attempt.ends_pure fun h => h
    · rename_i before name after hfirst
      obtain ⟨rfl, -, hname, -⟩ := firstName?_eq_some_iff.1 hfirst
      have hfind : Attempt.Ends (fun _ => True) (fun _ => True) (fun _ => True) (find name) :=
        fun _ _ => ⟨trivial, fun _ _ => trivial, fun _ _ => trivial⟩
      refine hfind.bind fun x _ => ?_
      dsimp only
      split
      · exact Attempt.ends_fail trivial
      · refine Attempt.Ends.bind (Attempt.ends_update fun _ h => h) fun _ _ => ?_
        refine (ih _).mono (fun u hu haccepts => ?_) fun _ h => h
        refine (hu haccepts).of_reads fun q q' _ hq' => ?_
        rw [reads_numberText hq']
        exact reads_isName hname

/-- **An equation that has a value is accepted**, whatever the variables are and whatever has been
evaluated before. -/
theorem accepts_of_evaluate {options : EvalOptions} {pending : List Text} {t : Text} {s : Session}
    {x : Float} (h : ((evaluate vars options pending t).run s).1 = .ok x) :
    Accepts (equationBody t) := by
  have hends : Attempt.Ends (fun _ => True) (fun _ => Accepts (equationBody t)) (fun _ => True)
      (evaluate vars options pending t) := by
    rw [evaluate, evaluateAt_succ]
    refine (ends_substituteWithin_accepts _ _ _).bind fun u hu s _ => ?_
    refine ⟨trivial, fun x hx => hu ?_, fun _ _ => trivial⟩
    exact accepts_of_computes (.of_resolve (((quiet_resolve _ _ u).outcome s).symm.trans hx))
  exact (hends s trivial).2.1 x h

end Evaluation

end EquationFigure
