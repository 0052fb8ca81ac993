import EquationFigure.Proofs.Equation.Overflow

/-!
# Where the next operation stands in a chain

A text without names and parentheses that is an equation is a *chain*: a numeral and any number of
links, each an operator and a further numeral.  The search for an operation passes over a numeral
unless the link behind it has one of the operators looked for, and it never stops at the operator
of a link, even if that is a minus.

* `Link`, `linksText` — how the links of a chain are written.
* `scanAny_link`, `scanAny_space` — what is read where a numeral of a chain starts.
* `firstRedex` — the leftmost link with one of the operators; `findOperation_chain` says that this
  is the operation found.
-/

set_option autoImplicit false

namespace EquationFigure

open Text

/-! ## Links -/

/-- An operator and the operand behind it. -/
structure Link where
  /-- The white space before the operator. -/
  spaceBefore : Text
  /-- The operator. -/
  operator : Operator
  /-- The white space behind the operator. -/
  spaceAfter : Text
  /-- The operand. -/
  operand : Numeral

namespace Link

/-- What stands between the operand and the one before it. -/
def separator (l : Link) : Text := l.spaceBefore ++ l.operator.symbol ++ l.spaceAfter

/-- The link is written as equations write it. -/
structure WellFormed (l : Link) : Prop where
  /-- White space stands before the operator. -/
  spaceBefore : IsSpace l.spaceBefore
  /-- White space stands behind the operator. -/
  spaceAfter : IsSpace l.spaceAfter
  /-- The operand is a numeral. -/
  operand : l.operand.WellFormed

/-- The operation of the link, whose left operand is the one before. -/
def operation (n : Numeral) (l : Link) : Operation :=
  ⟨n, l.spaceBefore, l.operator, l.spaceAfter, l.operand⟩

theorem text_operation (n : Numeral) (l : Link) :
    (l.operation n).text = n.text ++ l.separator ++ l.operand.text := by
  simp [operation, Operation.text, separator]

end Link

/-- The links one after the other. -/
def linksText : List Link → Text
  | [] => []
  | l :: links => l.separator ++ l.operand.text ++ linksText links

theorem linksText_append (links links' : List Link) :
    linksText (links ++ links') = linksText links ++ linksText links' := by
  induction links with
  | nil => rfl
  | cons l links ih => simp [linksText, ih]

/-- No operand goes on with what stands behind it in a chain. -/
theorem headNot_linksText {links : List Link} (hlinks : ∀ l ∈ links, l.WellFormed) {s : Text}
    (hs : IsSpace s) : HeadNot Numeral.isNumeralPart (linksText links ++ s) := by
  have hspace := fun c => isNumeralPart_of_isWhitespace (c := c)
  cases links with
  | nil => exact headNot_of_forall fun c hc => hspace c (hs c hc)
  | cons l links =>
    have hl := hlinks l List.mem_cons_self
    rw [linksText, Link.separator]
    simp only [List.append_assoc]
    exact headNot_of_isSpace hspace hl.spaceBefore (l.operator.headNot_isNumeralPart_symbol _)

/-! ## What is read at the start of a numeral -/

/-- **Only the operator that stands behind a numeral is read.** -/
theorem scan_link {n : Numeral} (hn : n.WellFormed) {l : Link} (hl : l.WellFormed) {rest : Text}
    (hrest : l.operand.StopsAt rest) (op : Operator) :
    Operation.scan op (n.text ++ (l.separator ++ l.operand.text ++ rest)) =
      if l.operator = op then some (l.operation n, rest) else none := by
  have htext : n.text ++ (l.separator ++ l.operand.text ++ rest) =
      (l.operation n).text ++ rest := by
    rw [Link.text_operation]
    simp
  split
  · rename_i hop
    exact Operation.scan_eq_some_iff.2
      ⟨hop, ⟨hn, hl.spaceBefore, hl.spaceAfter, hl.operand⟩, hrest, htext⟩
  · rename_i hop
    obtain ⟨s, op', s', m⟩ := l
    have hafter := Numeral.headNot_isWhitespace_text hl.operand rest
    have hsymbol := op'.headNot_isWhitespace_symbol (s' ++ (m.text ++ rest))
    have hstops : n.StopsAt (s ++ (op'.symbol ++ (s' ++ (m.text ++ rest)))) :=
      Numeral.stopsAt_of_headNot (headNot_of_isSpace (fun _ => isNumeralPart_of_isWhitespace)
        hl.spaceBefore (op'.headNot_isNumeralPart_symbol _))
    have hsplit : n.text ++ (Link.separator ⟨s, op', s', m⟩ ++ m.text ++ rest) =
        n.text ++ (s ++ (op'.symbol ++ (s' ++ (m.text ++ rest)))) := by
      simp [Link.separator]
    rw [hsplit, Operation.scan, Numeral.scan_eq_some_iff.2 ⟨hn, hstops, rfl⟩]
    simp only [dropSpace_append hl.spaceBefore hsymbol]
    -- Only the two divisions start alike, and neither goes on like the other.
    rcases dropStart?_symbol_of_ne (Ne.symm hop) (s' ++ (m.text ++ rest)) with
      hnone | ⟨rfl, rfl⟩ | ⟨rfl, rfl⟩
    · rw [hnone]
    · rfl
    · have hslash : HeadNot (· == '/') (s' ++ (m.text ++ rest)) :=
        headNot_of_isSpace (fun _ hc => beq_of_kind hc (by decide)) hl.spaceAfter
          (Numeral.headNot_text hl.operand (fun _ hc => beq_of_kind hc (by decide)) (by decide)
            rest)
      cases hu : s' ++ (m.text ++ rest) with
      | nil => rfl
      | cons c u =>
        rw [hu, headNot_cons, beq_eq_false_iff_ne] at hslash
        have : dropStart? Operator.floorDivide.symbol (Operator.divide.symbol ++ c :: u) = none :=
          if_neg (Ne.symm hslash)
        rw [this]

theorem scanAny_link {n : Numeral} (hn : n.WellFormed) {l : Link} (hl : l.WellFormed)
    {rest : Text} (hrest : l.operand.StopsAt rest) (operators : List Operator) :
    scanAny operators (n.text ++ (l.separator ++ l.operand.text ++ rest)) =
      if l.operator ∈ operators then some (l.operation n, rest) else none := by
  induction operators with
  | nil => rfl
  | cons op operators ih =>
    rw [scanAny, List.findSome?_cons, scan_link hn hl hrest]
    by_cases hop : l.operator = op
    · rw [if_pos hop, if_pos (List.mem_cons.2 (.inl hop))]
    · rw [if_neg hop]
      rw [scanAny] at ih
      simp only [ih, List.mem_cons, hop, false_or]

/-- Where a chain ends there is no operation. -/
theorem scanAny_space {n : Numeral} (hn : n.WellFormed) {s : Text} (hs : IsSpace s)
    (operators : List Operator) : scanAny operators (n.text ++ s) = none := by
  have hstops : n.StopsAt s := Numeral.stopsAt_of_headNot
    (headNot_of_forall fun c hc => isNumeralPart_of_isWhitespace (hs c hc))
  have hdrop : dropSpace s = [] := by
    have h := dropSpace_append hs (t := []) headNot_nil
    rwa [List.append_nil] at h
  rw [scanAny, List.findSome?_eq_none_iff]
  intro op _
  rw [Operation.scan, Numeral.scan_eq_some_iff.2 ⟨hn, hstops, rfl⟩]
  simp only [hdrop]
  cases op <;> rfl

/-! ## What the search passes over -/

/-- No operand ends right before the next character, whatever it is; `left` is the text before it
read backwards. -/
def Fresh (left : Text) : Prop := ∀ c, followsOperand left c = false

theorem fresh_of_space {s : Text} (hs : IsSpace s) : Fresh s.reverse := by
  have hblank : ∀ c ∈ s.reverse, isBlank c = true := fun c hc =>
    isBlank_of_isWhitespace (hs c (List.mem_reverse.1 hc))
  intro c
  rw [followsOperand]
  split
  · rfl
  · rename_i d left heq
    split at heq
    · rw [trimStart, List.dropWhile_eq_nil_iff.2 hblank] at heq
      cases heq
    · have hd : d ∈ s := List.mem_reverse.1 (heq ▸ List.mem_cons_self)
      exact isNumeralPart_of_isWhitespace (hs d hd)

/-- Behind an operator, white space or not, a numeral may start. -/
theorem fresh_of_symbol (op : Operator) {s : Text} (hs : IsSpace s) (left : Text) :
    Fresh ((op.symbol ++ s).reverse ++ left) := by
  obtain ⟨d, symbol, hsymbol, hblank, hpart⟩ : ∃ d symbol, op.symbol.reverse = d :: symbol ∧
      isBlank d = false ∧ Numeral.isNumeralPart d = false := by
    cases op
    all_goals exact ⟨_, _, rfl, by decide, by decide⟩
  have hsplit : (op.symbol ++ s).reverse ++ left = s.reverse ++ (d :: (symbol ++ left)) := by
    rw [List.reverse_append, hsymbol]
    simp
  intro c
  rw [hsplit, followsOperand]
  split
  · rfl
  · rename_i e rest heq
    split at heq
    · rw [trimStart, List.dropWhile_append_of_pos fun c hc =>
        isBlank_of_isWhitespace (hs c (List.mem_reverse.1 hc)),
        List.dropWhile_cons_of_neg (by simp [hblank])] at heq
      cases heq
      exact hpart
    · cases hs' : s.reverse with
      | nil =>
        rw [hs'] at heq
        cases heq
        exact hpart
      | cons f s' =>
        rw [hs'] at heq
        cases heq
        exact isNumeralPart_of_isWhitespace
          (hs e (List.mem_reverse.1 (hs' ▸ List.mem_cons_self)))

theorem Numeral.WellFormed.exists_start {n : Numeral} (hn : n.WellFormed) :
    ∃ c run, n.text = c :: run ∧ (c.isDigit || c == '-') = true := by
  rw [Numeral.text_eq]
  cases n.negative with
  | true => exact ⟨_, _, rfl, by decide⟩
  | false =>
    obtain ⟨c, whole, hc⟩ := List.exists_cons_of_ne_nil hn.whole_ne_nil
    refine ⟨c, _, by rw [Numeral.unsignedText, hc]; rfl, ?_⟩
    rw [hn.isDigit_whole c (hc ▸ List.mem_cons_self), Bool.true_or]

theorem Numeral.WellFormed.exists_end {n : Numeral} (hn : n.WellFormed) :
    ∃ d run, n.text.reverse = d :: run ∧ Numeral.isNumeralPart d = true := by
  have hdigit := Numeral.isDigit_getLastD_text hn ' '
  rw [List.getLastD_eq_getLast?, ← List.head?_reverse] at hdigit
  cases hrun : n.text.reverse with
  | nil =>
    rw [hrun] at hdigit
    exact absurd hdigit (by decide)
  | cons d run =>
    rw [hrun] at hdigit
    refine ⟨d, run, rfl, ?_⟩
    rw [Numeral.isNumeralPart, Bool.or_eq_true]
    exact .inl hdigit

section Search

variable {operators : List Operator} {left t : Text} {c : Char}

theorem findOperation_cons_of_none
    (h : (c.isDigit || c == '-') = true → followsOperand left c = false →
      scanAny operators (c :: t) = none) :
    findOperation operators left (c :: t) = findOperation operators (c :: left) t := by
  rw [findOperation]
  split
  · rename_i operation after hhere
    split at hhere
    · rename_i hcond
      rw [Bool.and_eq_true, Bool.not_eq_true'] at hcond
      rw [h hcond.1 hcond.2] at hhere
      cases hhere
    · cases hhere
  · rfl

theorem findOperation_cons_of_some {operation : Operation} {after : Text}
    (hc : (c.isDigit || c == '-') = true) (hleft : followsOperand left c = false)
    (h : scanAny operators (c :: t) = some (operation, after)) :
    findOperation operators left (c :: t) = some ⟨left.reverse, operation, after⟩ := by
  rw [findOperation]
  simp only [hc, hleft, Bool.not_false, Bool.and_self, if_true, h]

/-- The search passes over what starts no numeral. -/
theorem findOperation_of_no_start {run : Text}
    (h : ∀ c ∈ run, (c.isDigit || c == '-') = false) :
    findOperation operators left (run ++ t) = findOperation operators (run.reverse ++ left) t := by
  induction run generalizing left with
  | nil => rfl
  | cons c run ih =>
    rw [List.forall_mem_cons] at h
    rw [List.cons_append, findOperation_cons_of_none, ih h.2]
    · simp
    · intro hc
      rw [h.1] at hc
      cases hc

/-- The search passes over the rest of a numeral once it is inside. -/
theorem findOperation_inside {run : Text} (h : ∀ c ∈ run, Numeral.isNumeralPart c = true)
    {d : Char} (hd : Numeral.isNumeralPart d = true) :
    findOperation operators (d :: left) (run ++ t) =
      findOperation operators (run.reverse ++ d :: left) t := by
  induction run generalizing left d with
  | nil => rfl
  | cons c run ih =>
    rw [List.forall_mem_cons] at h
    rw [List.cons_append, findOperation_cons_of_none, ih h.2 h.1]
    · simp
    · intro _ hfollows
      rw [headNot_cons.1 (headNot_of_followsOperand hfollows)] at hd
      cases hd

theorem no_start_of_isWhitespace (hc : c.isWhitespace = true) :
    (c.isDigit || c == '-') = false := by
  rw [isDigit_of_isWhitespace hc, beq_of_kind hc (by decide)]
  rfl

/-- There is no operation in white space. -/
theorem findOperation_space {s : Text} (hs : IsSpace s) :
    findOperation operators left s = none := by
  rw [← List.append_nil s, findOperation_of_no_start fun c hc => no_start_of_isWhitespace (hs c hc)]
  rfl

/-- The search passes over what stands between two operands, even over a minus. -/
theorem findOperation_separator {l : Link} (hl : l.WellFormed) {d : Char}
    (hd : Numeral.isNumeralPart d = true) :
    findOperation operators (d :: left) (l.separator ++ t) =
      findOperation operators (l.separator.reverse ++ d :: left) t := by
  have hsymbol : ∀ left', findOperation operators (l.spaceBefore.reverse ++ d :: left)
      (l.operator.symbol ++ left') =
        findOperation operators (l.operator.symbol.reverse ++ (l.spaceBefore.reverse ++ d :: left))
          left' := by
    intro left'
    by_cases hop : l.operator = .subtract
    · rw [hop]
      refine findOperation_cons_of_none fun _ hfollows => ?_
      have hblank : isBlank d = false := isBlank_of_isNumeralPart hd
      rw [followsOperand, if_pos rfl, trimStart, List.dropWhile_append_of_pos fun c hc =>
        isBlank_of_isWhitespace (hl.spaceBefore c (List.mem_reverse.1 hc)),
        List.dropWhile_cons_of_neg (by simp [hblank])] at hfollows
      change Numeral.isNumeralPart d = false at hfollows
      rw [hd] at hfollows
      cases hfollows
    · refine findOperation_of_no_start ?_
      cases hsub : l.operator
      case subtract => exact absurd hsub hop
      all_goals simp [Operator.symbol, Char.isDigit]
  rw [Link.separator, List.append_assoc, List.append_assoc,
    findOperation_of_no_start fun c hc => no_start_of_isWhitespace (hl.spaceBefore c hc), hsymbol,
    findOperation_of_no_start fun c hc => no_start_of_isWhitespace (hl.spaceAfter c hc)]
  simp

/-- The search passes over a numeral with which no operation starts, with its sign or without. -/
theorem findOperation_numeral {n : Numeral} (hn : n.WellFormed)
    (h : ∀ m : Numeral, m.WellFormed → scanAny operators (m.text ++ t) = none) :
    findOperation operators left (n.text ++ t) =
      findOperation operators (n.text.reverse ++ left) t := by
  have hunsigned : ∀ left, findOperation operators left (n.unsignedText ++ t) =
      findOperation operators (n.unsignedText.reverse ++ left) t := by
    intro left
    have hscan := h { n with negative := false }
      ⟨hn.whole_ne_nil, hn.isDigit_whole, hn.isDigit_fraction⟩
    have hparts := isNumeralPart_unsignedText hn
    rw [show Numeral.text { n with negative := false } = n.unsignedText from Numeral.text_eq _]
      at hscan
    cases hu : n.unsignedText with
    | nil => rfl
    | cons c run =>
      rw [hu] at hscan hparts
      rw [List.forall_mem_cons] at hparts
      rw [List.cons_append] at hscan ⊢
      rw [findOperation_cons_of_none fun _ _ => hscan,
        findOperation_inside hparts.2 hparts.1]
      simp
  have hscan := h n hn
  rw [Numeral.text_eq] at hscan ⊢
  cases hneg : n.negative with
  | false => exact hunsigned left
  | true =>
    rw [hneg] at hscan
    exact (findOperation_cons_of_none fun _ _ => hscan).trans
      ((hunsigned ('-' :: left)).trans (by simp))

end Search

/-! ## What the search finds -/

/-- The operation of the leftmost link with one of the operators, with what stands before it and
behind it in the chain. -/
def firstRedex (operators : List Operator) (n : Numeral) :
    List Link → Option (Text × Operation × Text)
  | [] => none
  | l :: links =>
    if l.operator ∈ operators then some ([], l.operation n, linksText links)
    else (firstRedex operators l.operand links).map fun (before, o, after) =>
      (n.text ++ l.separator ++ before, o, after)

/-- **The operation found in a chain is that of its leftmost link with one of the operators.** -/
theorem findOperation_chain {operators : List Operator} {left : Text} {n : Numeral}
    {links : List Link} {s : Text} (hleft : Fresh left) (hn : n.WellFormed)
    (hlinks : ∀ l ∈ links, l.WellFormed) (hs : IsSpace s) :
    findOperation operators left (n.text ++ (linksText links ++ s)) =
      (firstRedex operators n links).map fun (before, o, after) =>
        ⟨left.reverse ++ before, o, after ++ s⟩ := by
  induction links generalizing left n with
  | nil =>
    rw [linksText, List.nil_append, findOperation_numeral hn fun m hm => scanAny_space hm hs _]
    exact findOperation_space hs
  | cons l links ih =>
    rw [List.forall_mem_cons] at hlinks
    obtain ⟨hl, hlinks⟩ := hlinks
    have hstops := Numeral.stopsAt_of_headNot (n := l.operand) (headNot_linksText hlinks hs)
    have hscan := fun (m : Numeral) (hm : m.WellFormed) => scanAny_link hm hl hstops operators
    have htext : linksText (l :: links) ++ s =
        l.separator ++ l.operand.text ++ (linksText links ++ s) := by
      simp [linksText]
    rw [htext, firstRedex]
    by_cases hop : l.operator ∈ operators
    · have hhere := hscan n hn
      rw [if_pos hop] at hhere ⊢
      obtain ⟨c, run, hrun, hc⟩ := hn.exists_start
      rw [hrun, List.cons_append] at hhere ⊢
      rw [findOperation_cons_of_some hc (hleft c) hhere]
      simp
    · obtain ⟨d, run, hrun, hd⟩ := hn.exists_end
      have hfresh : Fresh (l.separator.reverse ++ (d :: run ++ left)) := by
        have h := fresh_of_symbol l.operator hl.spaceAfter
          (l.spaceBefore.reverse ++ (d :: run ++ left))
        rw [Link.separator, List.append_assoc, List.reverse_append, List.append_assoc]
        exact h
      rw [if_neg hop, findOperation_numeral hn fun m hm => (hscan m hm).trans (if_neg hop), hrun,
        List.append_assoc, List.cons_append, findOperation_separator hl hd, ← List.cons_append,
        ih hfresh hl.operand hlinks, Option.map_map]
      have hreverse : (l.separator.reverse ++ (d :: run ++ left)).reverse =
          left.reverse ++ (n.text ++ l.separator) := by
        rw [← hrun]
        simp
      rw [hreverse]
      simp [Function.comp_def]

end EquationFigure
