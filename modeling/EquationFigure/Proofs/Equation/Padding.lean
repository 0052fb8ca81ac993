import EquationFigure.Proofs.Equation.Chains
import EquationFigure.Proofs.Equation.Overflow
import EquationFigure.Proofs.Equation.Values

/-!
# Blanks around a text

What is trimmed is wider than what separates the tokens of an equation.  A text with blanks around
it has the same names, groups and operations in the same places, and only the last step tells the
two kinds of blank apart: a number is read if what stands around it is white space of the narrower
kind, and otherwise it is refused, with a report in which it stands trimmed.

* `IsBlank t` — the text is blank; `IsBlank.split_left` and `IsBlank.split_right` find the blanks of
  a text that is made up in two ways.
* `literal?_padded_iff` — when a number with blanks around it is read.
* `nextOperation_padded`, `firstName?_padded` — operations and names are found in the same places.
* `Padded` — what comes of an outcome when blanks are put around the text.
* `padded_reduce`, `padded_resolveGroups`, `padded_resolve` — what comes of those of the stages.
-/

set_option autoImplicit false

namespace EquationFigure

open Text EvalM

/-! ## Blank texts -/

/-- The text is blank. -/
def IsBlank (t : Text) : Prop := ∀ c ∈ t, isBlank c = true

theorem isBlank_nil : IsBlank [] := nofun

namespace IsBlank

variable {p q t u v s r : Text}

theorem append (hp : IsBlank p) (hq : IsBlank q) : IsBlank (p ++ q) :=
  List.forall_mem_append.2 ⟨hp, hq⟩

theorem reverse (hp : IsBlank p) : IsBlank p.reverse := fun c hc => hp c (List.mem_reverse.1 hc)

theorem nameless (hp : IsBlank p) : Nameless p := fun c hc => isNameStart_of_isBlank (hp c hc)

theorem parenFree (hp : IsBlank p) : ParenFree p := by
  intro c hc
  have hblank := hp c hc
  rw [isParen, Bool.or_eq_false_iff, beq_eq_false_iff_ne, beq_eq_false_iff_ne]
  exact ⟨ne_of_kind hblank (by decide), ne_of_kind hblank (by decide)⟩

/-- What holds of no blank does not hold at the start of a blank text. -/
theorem headNot (hq : IsBlank q) {P : Char → Bool} (hP : ∀ c, isBlank c = true → P c = false) :
    HeadNot P q :=
  headNot_of_forall fun c hc => hP c (hq c hc)

theorem no_start (hp : IsBlank p) : ∀ c ∈ p, (c.isDigit || c == '-') = false := by
  intro c hc
  have hblank := hp c hc
  have hpart := not_isNumeralPart_of_isBlank hblank
  rw [Numeral.isNumeralPart, Bool.or_eq_false_iff] at hpart
  rw [hpart.1, Bool.false_or]
  exact beq_of_kind hblank (by decide)

/-- Blanks before a text are not part of what does not start with a blank. -/
theorem split_left (hp : IsBlank p) (hr : HeadNot isBlank r) (h : p ++ v = s ++ r) :
    ∃ a, s = p ++ a ∧ v = a ++ r := by
  rcases List.append_eq_append_iff.1 h with ⟨a, hs, hv⟩ | ⟨a, rfl, hr'⟩
  · exact ⟨a, hs, hv⟩
  · cases a with
    | nil => exact ⟨[], by simp, by simpa using hr'.symm⟩
    | cons c a =>
      rw [hr', List.cons_append, headNot_cons] at hr
      rw [hp c (List.mem_append_right _ List.mem_cons_self)] at hr
      cases hr

/-- Blanks behind a text are not part of what does not end with a blank. -/
theorem split_right (hq : IsBlank q) (hr : HeadNot isBlank r.reverse) (h : v ++ q = r ++ s) :
    ∃ b, s = b ++ q ∧ v = r ++ b := by
  have hrev : q.reverse ++ v.reverse = s.reverse ++ r.reverse := by
    rw [← List.reverse_append, h, List.reverse_append]
  obtain ⟨b, hs, hv⟩ := hq.reverse.split_left hr hrev
  refine ⟨b.reverse, ?_, ?_⟩
  · rw [← List.reverse_reverse s, hs, List.reverse_append, List.reverse_reverse]
  · rw [← List.reverse_reverse v, hv, List.reverse_append, List.reverse_reverse]

theorem trimStart_append (hp : IsBlank p) (t : Text) : trimStart (p ++ t) = trimStart t := by
  rw [trimStart, trimStart, List.dropWhile_append_of_pos hp]

theorem trimEnd_append (hq : IsBlank q) (t : Text) : trimEnd (t ++ q) = trimEnd t := by
  rw [trimEnd, trimEnd, List.reverse_append, List.dropWhile_append_of_pos hq.reverse]

/-- A text is trimmed of any blanks around it. -/
theorem trim_padded (hp : IsBlank p) (hq : IsBlank q) (t : Text) : trim (p ++ t ++ q) = trim t := by
  rw [List.append_assoc, trim, hp.trimStart_append, trim, trimStart, trimStart,
    List.dropWhile_append]
  split
  · rename_i hempty
    rw [List.isEmpty_iff.1 hempty, List.dropWhile_eq_nil_iff.2 hq]
  · exact hq.trimEnd_append _

end IsBlank

/-! ## Single numbers -/

section Literal

variable {p q t : Text} {n : Numeral}

/-- **A number with blanks around it is read if these are white space**, and otherwise not. -/
theorem literal?_padded_iff (hp : IsBlank p) (hq : IsBlank q) :
    literal? (p ++ t ++ q) = some n ↔ (IsSpace p ∧ IsSpace q) ∧ literal? t = some n := by
  rw [literal?_eq_some_iff, literal?_eq_some_iff]
  constructor
  · rintro ⟨hn, s, plus, s', hs, hplus, hs', htext⟩
    have hhead : HeadNot isBlank (plus ++ n.text ++ s') := by
      rcases hplus with rfl | rfl
      · exact n.headNot_text hn (fun _ => isBlank_of_isDigit) (by decide) s'
      · exact headNot_cons.2 (by decide)
    obtain ⟨d, run, hrun, hd⟩ := hn.exists_end
    have hlast : ∀ a, HeadNot isBlank (a ++ plus ++ n.text).reverse := fun a => by
      rw [List.reverse_append, hrun]
      exact headNot_cons.2 (isBlank_of_isNumeralPart hd)
    obtain ⟨a, rfl, hrest⟩ := hp.split_left (v := t ++ q) hhead (by simpa using htext)
    obtain ⟨b, rfl, rfl⟩ := hq.split_right (hlast a) (by simpa using hrest)
    rw [isSpace_append] at hs hs'
    exact ⟨⟨hs.1, hs'.2⟩, hn, a, plus, b, hs.2, hplus, hs'.1, rfl⟩
  · rintro ⟨⟨hp', hq'⟩, hn, s, plus, s', hs, hplus, hs', rfl⟩
    exact ⟨hn, p ++ s, plus, s' ++ q, isSpace_append.2 ⟨hp', hs⟩, hplus,
      isSpace_append.2 ⟨hs', hq'⟩, by simp⟩

end Literal

/-! ## Where operations are found -/

/-- The operation in the same place, with `p` before the text and `q` behind it. -/
def Occurrence.pad (p q : Text) (occ : Occurrence) : Occurrence :=
  ⟨p ++ occ.before, occ.operation, occ.after ++ q⟩

section Search

variable {p q : Text}

/-- A blank start of a text is no operand. -/
theorem followsOperand_append {s : Text} (hs : IsBlank s) (left : Text) (c : Char) :
    followsOperand (left ++ s) c = followsOperand left c := by
  rw [followsOperand, followsOperand]
  by_cases hc : c = '-'
  · rw [if_pos hc, if_pos hc, trimStart, trimStart, List.dropWhile_append]
    cases left.dropWhile isBlank with
    | nil =>
      rw [List.dropWhile_eq_nil_iff.2 hs]
      rfl
    | cons d run => rfl
  · rw [if_neg hc, if_neg hc]
    cases left with
    | nil =>
      cases s with
      | nil => rfl
      | cons d s => exact not_isNumeralPart_of_isBlank (hs d List.mem_cons_self)
    | cons d left => rfl

/-- Behind an operation, blanks are left over. -/
theorem scanAny_append (hq : IsBlank q) (operators : List Operator) (t : Text) :
    scanAny operators (t ++ q) =
      (scanAny operators t).map fun (operation, after) => (operation, after ++ q) := by
  have hscan : ∀ op, Operation.scan op (t ++ q) =
      (Operation.scan op t).map fun (operation, after) => (operation, after ++ q) := by
    intro op
    ext ⟨o, rest⟩
    rw [Operation.scan_eq_some_iff, Option.map_eq_some_iff]
    constructor
    · rintro ⟨hop, ho, hstops, htext⟩
      obtain ⟨d, run, hrun, hd⟩ := ho.rhs.exists_end
      have hlast : HeadNot isBlank o.text.reverse := by
        rw [Operation.text, List.reverse_append, hrun]
        exact headNot_cons.2 (isBlank_of_isNumeralPart hd)
      obtain ⟨after, rfl, rfl⟩ := hq.split_right hlast htext
      refine ⟨(o, after), Operation.scan_eq_some_iff.2 ⟨hop, ho, ⟨?_, ?_⟩, rfl⟩, rfl⟩
      · intro c hc
        exact hstops.digit c (by simp [Option.mem_def.1 hc])
      · rintro hfraction u rfl c hc
        exact hstops.point hfraction _ rfl c (by simp [Option.mem_def.1 hc])
    · rintro ⟨⟨o', after⟩, hsome, heq⟩
      cases heq
      obtain ⟨hop, ho, hstops, rfl⟩ := Operation.scan_eq_some_iff.1 hsome
      have hdigit : HeadNot Char.isDigit q := hq.headNot fun c hc => by
        rw [← Bool.not_eq_true]
        intro hdigit
        rw [isBlank_of_isDigit hdigit] at hc
        cases hc
      refine ⟨hop, ho, ⟨headNot_append hstops.digit hdigit, fun hfraction u hu => ?_⟩, by simp⟩
      cases after with
      | nil =>
        rw [List.nil_append] at hu
        have hpoint := hq '.' (by rw [hu]; exact List.mem_cons_self)
        exact absurd hpoint (by decide)
      | cons c after =>
        cases hu
        exact headNot_append (hstops.point hfraction after rfl) hdigit
  simp only [scanAny, hscan]
  rw [← Function.comp_def, ← List.map_findSome?]

/-- The search finds the operation in the same place. -/
theorem findOperation_padded {s : Text} (hs : IsBlank s) (hq : IsBlank q)
    (operators : List Operator) (left t : Text) :
    findOperation operators (left ++ s) (t ++ q) =
      (findOperation operators left t).map (Occurrence.pad s.reverse q) := by
  induction t generalizing left with
  | nil =>
    have hnone : findOperation operators (left ++ s) (q ++ []) =
        findOperation operators (q.reverse ++ (left ++ s)) [] :=
      findOperation_of_no_start hq.no_start
    rw [List.append_nil] at hnone
    rw [List.nil_append, hnone]
    rfl
  | cons c t ih =>
    have hscan := scanAny_append hq operators (c :: t)
    rw [List.cons_append] at hscan ⊢
    rw [findOperation, findOperation, followsOperand_append hs, hscan]
    by_cases hstart : ((c.isDigit || c == '-') && !followsOperand left c) = true
    · rw [if_pos hstart, if_pos hstart]
      cases scanAny operators (c :: t) with
      | none => exact ih (c :: left)
      | some found => simp [Occurrence.pad]
    · rw [if_neg hstart, if_neg hstart]
      exact ih (c :: left)

theorem nextOperation_padded (hp : IsBlank p) (hq : IsBlank q) (tiers : List (List Operator))
    (t : Text) :
    nextOperation tiers (p ++ t ++ q) = (nextOperation tiers t).map (Occurrence.pad p q) := by
  have hfind : ∀ operators, findOperation operators [] (p ++ t ++ q) =
      (findOperation operators [] t).map (Occurrence.pad p q) := by
    intro operators
    have h := findOperation_padded hp.reverse hq operators [] t
    rw [List.reverse_reverse] at h
    rw [List.append_assoc, findOperation_of_no_start hp.no_start, List.append_nil, ← h]
    rfl
  simp only [nextOperation, hfind]
  rw [← Function.comp_def, ← List.map_findSome?]

end Search

/-! ## Names -/

section Names

variable {p q t : Text}

theorem firstName?_padded (hp : IsBlank p) (hq : IsBlank q) (t : Text) :
    firstName? (p ++ t ++ q) =
      (firstName? t).map fun (before, name, after) => (p ++ before, name, after ++ q) := by
  cases hfirst : firstName? t with
  | none =>
    have hnames := firstName?_eq_none_iff.1 hfirst
    exact firstName?_eq_none_iff.2
      (nameless_append.2 ⟨nameless_append.2 ⟨hp.nameless, hnames⟩, hq.nameless⟩)
  | some found =>
    obtain ⟨before, name, after⟩ := found
    obtain ⟨rfl, hbefore, hname, hafter⟩ := firstName?_eq_some_iff.1 hfirst
    exact firstName?_eq_some_iff.2 ⟨by simp, nameless_append.2 ⟨hp.nameless, hbefore⟩, hname,
      headNot_append hafter (hq.headNot fun _ => isNamePart_of_isBlank)⟩

theorem names_padded (hp : IsBlank p) (hq : IsBlank q) (t : Text) :
    names (p ++ t ++ q) = names t := by
  rw [List.append_assoc, names_append_of_nameless hp.nameless]
  induction hlength : t.length using Nat.strong_induction_on generalizing t with
  | h length ih =>
    have hpadded := firstName?_padded isBlank_nil hq t
    rw [List.nil_append] at hpadded
    cases hfirst : firstName? t with
    | none =>
      rw [hfirst] at hpadded
      rw [names_of_none hfirst, names_of_none hpadded]
    | some found =>
      obtain ⟨before, name, after⟩ := found
      rw [hfirst] at hpadded
      have hlt := length_lt_of_firstName? hfirst
      rw [names_of_some hfirst, names_of_some hpadded, ih after.length (by omega) after rfl]

theorem rewritesLeft_padded (hp : IsBlank p) (hq : IsBlank q) (t : Text) :
    rewritesLeft (p ++ t ++ q) = rewritesLeft t := by
  rw [rewritesLeft, rewritesLeft, names_padded hp hq, firstName?_padded hp hq]
  cases firstName? t <;> rfl

end Names

/-! ## What comes of an outcome -/

/-- What comes of an outcome when blanks are put around the text.  A value that is `clear` is still
found, and what it hands back grows by `pad`; another one is refused, because the number that it
was read from is none with those blanks around it.  An error keeps its kind, except that where the
blanks `blur` the text, the number may be refused before it is found out that the parentheses do
not match. -/
inductive Padded {α : Type} (clear : α → Prop) (pad : α → α) (blur : Prop) :
    Except EvalError α → Except EvalError α → Prop
  | ok {a : α} : clear a → Padded clear pad blur (.ok a) (.ok (pad a))
  | refused {a : α} (t : Text) :
    ¬ clear a → Padded clear pad blur (.ok a) (.error (.parseFailure t))
  | error {e e' : EvalError} : e'.kind = e.kind → Padded clear pad blur (.error e) (.error e')
  | mismatch (t u : Text) : blur →
    Padded clear pad blur (.error (.parenthesisMismatch t)) (.error (.parseFailure u))

/-- What comes of a value when `p` and `q` are put around the text: it is found if both are white
space. -/
abbrev PaddedValue (p q : Text) : Except EvalError Float → Except EvalError Float → Prop :=
  Padded (fun _ => IsSpace p ∧ IsSpace q) id (¬ (IsSpace p ∧ IsSpace q))

/-- The number that the outcome was read from has white space around it only.  Behind one that
stands before a closing parenthesis, `q` does not come. -/
def Resolved.Clear (p q : Text) : Resolved → Prop
  | .value _ => IsSpace p ∧ IsSpace q
  | .closed _ => IsSpace p

/-- What is handed back when `q` is put behind the text. -/
def Resolved.pad (q : Text) : Resolved → Resolved
  | .value x => .value x
  | .closed rest => .closed (rest ++ q)

/-- What comes of a group when `p` and `q` are put around the text. -/
abbrev PaddedGroup (p q : Text) : Except EvalError Resolved → Except EvalError Resolved → Prop :=
  Padded (Resolved.Clear p q) (Resolved.pad q) (¬ (IsSpace p ∧ IsSpace q))

section Stages

variable {p q t : Text}

theorem padded_readValue (hp : IsBlank p) (hq : IsBlank q) (t : Text) :
    PaddedValue p q (readValue t) (readValue (p ++ t ++ q)) := by
  rw [readValue, readValue, hp.trim_padded hq]
  by_cases hempty : trim t = []
  · rw [if_pos hempty, if_pos hempty]
    exact .error rfl
  rw [if_neg hempty, if_neg hempty]
  cases hread : literal? (p ++ t ++ q) with
  | some n =>
    obtain ⟨hspace, hn⟩ := (literal?_padded_iff hp hq).1 hread
    rw [hn]
    exact .ok hspace
  | none =>
    cases hn : literal? t with
    | none => exact .error rfl
    | some n =>
      refine .refused _ fun hspace => ?_
      rw [(literal?_padded_iff hp hq).2 ⟨hspace, hn⟩] at hread
      cases hread

/-- **With blanks around it, a text is reduced in the same steps.** -/
theorem padded_reduce (hp : IsBlank p) (hq : IsBlank q) (t : Text) :
    PaddedValue p q (reduce t).outcome (reduce (p ++ t ++ q)).outcome := by
  have hpadded := nextOperation_padded hp hq Operator.tiers
  refine reduce_induction ?read ?fail ?step t
  case read =>
    intro t hnext
    have hpadded := hpadded t
    rw [hnext] at hpadded
    rw [outcome_reduce_of_none hpadded]
    exact padded_readValue hp hq t
  case fail =>
    intro t occ e hnext hvalue
    have hpadded := hpadded t
    rw [hnext] at hpadded
    rw [outcome_reduce_of_some hpadded]
    dsimp only [Occurrence.pad]
    rw [hvalue]
    exact .error rfl
  case step =>
    intro t occ x hnext hvalue ih
    have hpadded := hpadded t
    rw [hnext] at hpadded
    rw [outcome_reduce_of_some hpadded]
    dsimp only [Occurrence.pad]
    rw [hvalue]
    simpa only [List.append_assoc] using ih

theorem padded_resolveGroups_of_parenFree (hp : IsBlank p) (hq : IsBlank q) (limit levels : Nat)
    (ht : ParenFree t) :
    PaddedGroup p q (resolveGroups limit (levels + 1) t).outcome
      (resolveGroups limit (levels + 1) (p ++ t ++ q)).outcome := by
  have hfree : ParenFree (p ++ t ++ q) :=
    parenFree_append.2 ⟨parenFree_append.2 ⟨hp.parenFree, ht⟩, hq.parenFree⟩
  rw [outcome_resolveGroups_of_parenFree ht, outcome_resolveGroups_of_parenFree hfree]
  have hvalue := padded_reduce hp hq t
  revert hvalue
  generalize (reduce t).outcome = r
  generalize (reduce (p ++ t ++ q)).outcome = r'
  rintro (@⟨x, hspace⟩ | @⟨x, u, hspace⟩ | hkind | ⟨u, v, hblur⟩)
  · exact .ok (a := Resolved.value x) hspace
  · exact .refused u hspace
  · exact .error hkind
  · exact .mismatch u v hblur

theorem padded_resolveGroups_of_close (hp : IsBlank p) (limit levels : Nat) {before : Text}
    (hbefore : ParenFree before) (after : Text) :
    PaddedGroup p q (resolveGroups limit (levels + 1) (before ++ ')' :: after)).outcome
      (resolveGroups limit (levels + 1) (p ++ (before ++ ')' :: after) ++ q)).outcome := by
  have htext : p ++ (before ++ ')' :: after) ++ q = p ++ before ++ ')' :: (after ++ q) := by simp
  have hvalue := padded_reduce hp isBlank_nil before
  rw [List.append_nil] at hvalue
  rw [htext, outcome_resolveGroups_of_close hbefore,
    outcome_resolveGroups_of_close (parenFree_append.2 ⟨hp.parenFree, hbefore⟩)]
  revert hvalue
  generalize (reduce before).outcome = r
  generalize (reduce (p ++ before)).outcome = r'
  rintro (@⟨x, hspace⟩ | @⟨x, u, hspace⟩ | hkind | ⟨u, v, hblur⟩)
  · have hclosed : PaddedGroup p q (.ok (.closed (numberText x ++ after)))
        (.ok (.closed (numberText x ++ after ++ q))) := .ok hspace.1
    rwa [List.append_assoc] at hclosed
  · exact .refused u fun hp' => hspace ⟨hp', isSpace_nil⟩
  · exact .error hkind
  · exact .mismatch u v fun hspace => hblur ⟨hspace.1, isSpace_nil⟩

/-- **With blanks around it, the groups of a text are resolved in the same way.**  What stands
behind an opening parenthesis has blanks behind it only. -/
theorem padded_resolveGroups (hp : IsBlank p) (hq : IsBlank q) (limit levels : Nat) (t : Text) :
    PaddedGroup p q (resolveGroups limit levels t).outcome
      (resolveGroups limit levels (p ++ t ++ q)).outcome := by
  -- The levels are for what stands in a group, where `p` is empty, the `(` for what comes of it.
  induction levels generalizing p t with
  | zero => exact .error rfl
  | succ levels ih =>
    induction hcount : t.count '(' using Nat.strong_induction_on generalizing t with
    | h count ihcount =>
      rcases paren_cases t with ht | ⟨before, after, hbefore, rfl⟩ | ⟨before, after, hbefore, rfl⟩
      · exact padded_resolveGroups_of_parenFree hp hq limit levels ht
      · exact padded_resolveGroups_of_close hp limit levels hbefore after
      · have htext : p ++ (before ++ '(' :: after) ++ q = p ++ before ++ '(' :: (after ++ q) := by
          simp
        have hfree : ParenFree (p ++ before) := parenFree_append.2 ⟨hp.parenFree, hbefore⟩
        rw [htext]
        by_cases hafter : ')' ∈ after
        · have hnested := ih isBlank_nil after
          have hopen := keepsOpen_resolveGroups limit levels after
          rw [List.nil_append] at hnested
          rw [outcome_resolveGroups_of_open hbefore hafter,
            outcome_resolveGroups_of_open hfree (List.mem_append_left q hafter)]
          revert hnested hopen
          generalize (resolveGroups limit levels after).outcome = r
          generalize (resolveGroups limit levels (after ++ q)).outcome = r'
          rintro (@⟨resolved, hclear⟩ | @⟨resolved, u, hclear⟩ | hkind | ⟨u, v, hblur⟩) hopen
          · cases resolved with
            | value x => exact .error rfl
            | closed rest =>
              have hlt := hopen rest rfl
              rw [count_append_of_parenFree hbefore, List.count_cons_self] at hcount
              have hrest := ihcount _ (by omega) (before ++ rest)
                (count_append_of_parenFree hbefore rest)
              simpa only [Resolved.pad, List.append_assoc] using hrest
          · cases resolved with
            | value x => exact .mismatch _ u fun hspace => hclear ⟨isSpace_nil, hspace.2⟩
            | closed rest => exact absurd isSpace_nil hclear
          · exact .error hkind
          · exact .mismatch u v fun hspace => hblur ⟨isSpace_nil, hspace.2⟩
        · have hafter' : ')' ∉ after ++ q := by
            rw [List.mem_append, not_or]
            exact ⟨hafter, fun hmem => absurd (hq.parenFree _ hmem) (by decide)⟩
          rw [resolveGroups_of_open_alone hbefore hafter, resolveGroups_of_open_alone hfree hafter']
          exact .error rfl

theorem IsBlank.count_padded (hp : IsBlank p) (hq : IsBlank q) {c : Char} (hc : isParen c = true) :
    (p ++ t ++ q).count c = t.count c := by
  have hzero : ∀ {s : Text}, IsBlank s → s.count c = 0 := fun hs =>
    List.count_eq_zero.2 fun hmem => by
      rw [hs.parenFree c hmem] at hc
      cases hc
  rw [List.count_append, List.count_append, hzero hp, hzero hq, Nat.zero_add, Nat.add_zero]

/-- **With blanks around it, a text without names is worked out in the same way.** -/
theorem padded_resolve (hp : IsBlank p) (hq : IsBlank q) (limit levels : Nat) (t : Text) :
    PaddedValue p q (resolve limit levels t).outcome
      (resolve limit levels (p ++ t ++ q)).outcome := by
  have hopen := hp.count_padded hq (t := t) (c := '(') (by decide)
  have hclose := hp.count_padded hq (t := t) (c := ')') (by decide)
  by_cases hcount : t.count '(' = t.count ')'
  · rw [outcome_resolve_of_count hcount,
      outcome_resolve_of_count (hopen.trans (hcount.trans hclose.symm))]
    have hgroups := padded_resolveGroups hp hq limit (levels + 1) t
    revert hgroups
    generalize (resolveGroups limit (levels + 1) t).outcome = r
    generalize (resolveGroups limit (levels + 1) (p ++ t ++ q)).outcome = r'
    rintro (@⟨resolved, hclear⟩ | @⟨resolved, u, hclear⟩ | hkind | ⟨u, v, hblur⟩)
    · cases resolved with
      | value x => exact .ok (a := x) hclear
      | closed rest => exact .error rfl
    · cases resolved with
      | value x => exact .refused u hclear
      | closed rest => exact .mismatch _ u fun hspace => hclear hspace.1
    · exact .error hkind
    · exact .mismatch u v hblur
  · rw [resolve, resolve, if_neg hcount, if_neg (by rwa [hopen, hclose])]
    exact .error rfl

end Stages

end EquationFigure
