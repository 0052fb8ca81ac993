import EquationFigure.Proofs.Equation.Grammar

/-!
# Equations have one syntax tree

Read from the left, a text shows where each operand ends: nothing that may follow an operand could
go on with it.  A tree is its first operand with the other ones added at its end, one after the
other, so it can be put together again from its operands and operators.

* `Expr.chain`, `Expr.WellFormed.exists_chain` — a tree as its operands and operators in a row.
* `Expr.text_unique` — trees that are written alike are the same, and so is what follows them.
* `Expr.Spells.unique` — a text has at most one tree.
-/

set_option autoImplicit false

namespace EquationFigure

open Text

namespace Expr

/-! ## Trees as chains -/

/-- An operator with the operand behind it, and the white space around the operator. -/
structure Step where
  /-- The white space before the operator. -/
  before : Text
  /-- The operator. -/
  operator : Operator
  /-- The white space behind the operator. -/
  after : Text
  /-- The operand. -/
  operand : Expr

namespace Step

/-- The step as it is written. -/
def text (k : Step) : Text := k.before ++ k.operator.symbol ++ k.after ++ k.operand.text

/-- The operand is one, and nothing but white space stands around the operator. -/
structure WellFormed (k : Step) : Prop where
  /-- White space stands before the operator. -/
  before : IsSpace k.before
  /-- White space stands behind the operator. -/
  after : IsSpace k.after
  /-- The operand is well-formed. -/
  operand : k.operand.WellFormed
  /-- The operand is no operation. -/
  rank : k.operand.rank = 0

end Step

/-- The tree with the steps added at its end, one after the other. -/
def chain (e : Expr) (steps : List Step) : Expr :=
  steps.foldl (fun e k => e.extend k.before k.operator k.after k.operand) e

section Chain

variable {e l r : Expr} {s s' : Text} {op : Operator} {k : Step} {steps : List Step}

theorem chain_cons : e.chain (k :: steps) =
    (e.extend k.before k.operator k.after k.operand).chain steps := rfl

theorem chain_append {steps' : List Step} :
    e.chain (steps ++ steps') = (e.chain steps).chain steps' :=
  List.foldl_append

theorem text_chain : (e.chain steps).text = e.text ++ steps.flatMap Step.text := by
  induction steps generalizing e with
  | nil => exact (List.append_nil _).symm
  | cons k steps ih =>
    rw [chain_cons, ih, text_extend, List.flatMap_cons, Step.text]
    simp only [List.append_assoc]

/-- No operator in a chain binds more loosely than the whole. -/
theorem rank_le_chain : e.rank ≤ (e.chain steps).rank ∧
    ∀ k ∈ steps, k.operator.rank ≤ (e.chain steps).rank := by
  induction steps generalizing e with
  | nil => exact ⟨Nat.le_refl _, List.forall_mem_nil _⟩
  | cons k steps ih =>
    obtain ⟨hle, hsteps⟩ := @ih (e.extend k.before k.operator k.after k.operand)
    rw [rank_extend, Nat.max_le] at hle
    exact ⟨hle.1, List.forall_mem_cons.2 ⟨hle.2, hsteps⟩⟩

theorem extend_of_rank_le (h : e.rank ≤ op.rank) :
    e.extend s op s' r = operation e s op s' r := by
  cases e with
  | literal n => rfl
  | name t => rfl
  | group t e t' => rfl
  | operation l' t op' t' r' => exact if_neg (Nat.not_lt_of_le h)

/-- Operators that bind more tightly than the last one go to its right operand. -/
theorem chain_operation (h : ∀ k ∈ steps, k.operator.rank < op.rank) :
    (operation l s op s' r).chain steps = operation l s op s' (r.chain steps) := by
  induction steps generalizing r with
  | nil => rfl
  | cons k steps ih =>
    rw [List.forall_mem_cons] at h
    rw [chain_cons, chain_cons, extend, if_pos h.1, ih h.2]

/-- **A tree is its first operand with the other ones added at its end.** -/
theorem WellFormed.exists_chain (he : e.WellFormed) :
    ∃ (o : Expr) (steps : List Step), o.WellFormed ∧ o.rank = 0 ∧ (∀ k ∈ steps, k.WellFormed) ∧
      e = o.chain steps := by
  induction he with
  | literal hn => exact ⟨_, [], .literal hn, rfl, List.forall_mem_nil _, rfl⟩
  | name ht => exact ⟨_, [], .name ht, rfl, List.forall_mem_nil _, rfl⟩
  | group hs he hs' => exact ⟨_, [], .group hs he hs', rfl, List.forall_mem_nil _, rfl⟩
  | @operation _ _ s s' op _ hs hs' _ hlop hrop ihl ihr =>
    obtain ⟨o, steps, ho, hrank, hsteps, rfl⟩ := ihl
    obtain ⟨o', steps', ho', hrank', hsteps', rfl⟩ := ihr
    refine ⟨o, steps ++ ⟨s, op, s', o'⟩ :: steps', ho, hrank, ?_, ?_⟩
    · exact List.forall_mem_append.2
        ⟨hsteps, List.forall_mem_cons.2 ⟨⟨hs, hs', ho', hrank'⟩, hsteps'⟩⟩
    · have htight : ∀ k ∈ steps', k.operator.rank < op.rank := fun k hk =>
        Nat.lt_of_le_of_lt (rank_le_chain.2 k hk) hrop
      rw [chain_append, chain_cons, extend_of_rank_le hlop, chain_operation htight]

end Chain

/-! ## What may follow -/

/-- Behind white space, the text ends or closes a group. -/
def Closes (t : Text) : Prop := HeadNot (· != ')') (dropSpace t)

theorem closes_of_isSpace {s : Text} (hs : IsSpace s) : Closes s := by
  have h := dropSpace_append hs headNot_nil
  rw [List.append_nil] at h
  rw [Closes, h]
  exact headNot_nil

theorem closes_append_paren {s t : Text} (hs : IsSpace s) : Closes (s ++ ')' :: t) := by
  rw [Closes, dropSpace_append hs (headNot_cons.2 (by decide))]
  exact headNot_cons.2 (by decide)

theorem Closes.headNot {t : Text} (h : Closes t) {p : Char → Bool}
    (hspace : ∀ c, c.isWhitespace = true → p c = false) (hparen : p ')' = false) :
    HeadNot p t := by
  rw [← leadingSpace_append_dropSpace t]
  refine headNot_of_isSpace hspace (isSpace_leadingSpace t) (h.mono fun c hc => ?_)
  rw [bne_iff_ne]
  rintro rfl
  rw [hparen] at hc
  cases hc

/-- What may follow an operand: operators with operands behind them, and then the end or the end of
a group. -/
theorem headNot_steps {steps : List Step} (hsteps : ∀ k ∈ steps, k.WellFormed) {rest : Text}
    (hrest : Closes rest) {p : Char → Bool} (hspace : ∀ c, c.isWhitespace = true → p c = false)
    (hparen : p ')' = false) (hsymbol : ['^', '*', '/', '%', '+', '-'].any p = false) :
    HeadNot p (steps.flatMap Step.text ++ rest) := by
  cases steps with
  | nil => exact hrest.headNot hspace hparen
  | cons k steps =>
    rw [List.flatMap_cons, Step.text]
    simp only [List.append_assoc]
    exact headNot_of_isSpace hspace (hsteps k List.mem_cons_self).before
      (k.operator.headNot_symbol hsymbol _)

/-! ## One reading -/

/-- White space ends where something else begins. -/
theorem space_unique {s s' t t' : Text} (hs : IsSpace s) (ht : HeadNot Char.isWhitespace t)
    (hs' : IsSpace s') (ht' : HeadNot Char.isWhitespace t') (h : s ++ t = s' ++ t') :
    s = s' ∧ t = t' := by
  have hspace := leadingSpace_append hs ht
  have hrest := dropSpace_append hs ht
  rw [h, leadingSpace_append hs' ht'] at hspace
  rw [h, dropSpace_append hs' ht'] at hrest
  exact ⟨hspace.symm, hrest.symm⟩

/-- Operators are told apart by their symbols if no slash follows. -/
theorem symbol_unique {op op' : Operator} {t t' : Text} (ht : HeadNot (· == '/') t)
    (ht' : HeadNot (· == '/') t') (h : op.symbol ++ t = op'.symbol ++ t') : op = op' ∧ t = t' := by
  by_cases hop : op = op'
  · subst hop
    exact ⟨rfl, List.append_cancel_left h⟩
  · rcases dropStart?_symbol_of_ne hop t' with hnone | ⟨rfl, rfl⟩ | ⟨rfl, rfl⟩
    · rw [← h, dropStart?_eq_some_iff.2 rfl] at hnone
      cases hnone
    · cases h
      exact absurd (headNot_cons.1 ht) (by decide)
    · cases h
      exact absurd (headNot_cons.1 ht') (by decide)

/-- Trees with shorter texts than this are determined by what is written. -/
def UniqueBelow (length : Nat) : Prop :=
  ∀ {e e' : Expr} {rest rest' : Text}, e.text.length < length → e.WellFormed → e'.WellFormed →
    Closes rest → Closes rest' → e.text ++ rest = e'.text ++ rest' → e = e' ∧ rest = rest'

theorem WellFormed.headNot_isWhitespace_text {e : Expr} (he : e.WellFormed) (t : Text) :
    HeadNot Char.isWhitespace (e.text ++ t) := by
  refine he.headNot_text (fun c hc => isWhitespace_of_isDigit hc) (fun c hc => ?_) (by decide)
    (by decide) t
  rw [← Bool.not_eq_true]
  intro hspace
  have hblank := isBlank_of_isWhitespace hspace
  rw [isBlank_of_isNameStart hc] at hblank
  cases hblank

section Operands

variable {e e' o o' : Expr} {n : Numeral} {s s' t rest rest' : Text}

theorem text_group_append : (group s e s').text ++ rest =
    '(' :: (s ++ (e.text ++ (s' ++ ')' :: rest))) := by
  simp [text]

/-- A numeral is no name. -/
theorem numeral_ne_name (hn : n.WellFormed) (ht : IsName t) : n.text ++ rest ≠ t ++ rest' := by
  intro h
  have hhead := n.headNot_text hn (fun _ hc => isNameStart_of_isDigit hc) (by decide) rest
  obtain ⟨c, t, rfl, hc, -⟩ := ht
  rw [h, List.cons_append, headNot_cons, hc] at hhead
  cases hhead

/-- A numeral is no group. -/
theorem numeral_ne_group (hn : n.WellFormed) : n.text ++ rest ≠ '(' :: t := by
  intro h
  have hhead := n.headNot_text (p := fun c => c == '(') hn
    (fun _ hc => beq_of_kind hc (by decide)) (by decide) rest
  rw [h, headNot_cons] at hhead
  cases hhead

/-- A name is no group. -/
theorem name_ne_group (ht : IsName t) : t ++ rest ≠ '(' :: rest' := by
  intro h
  obtain ⟨c, t, rfl, hc, -⟩ := ht
  cases h
  revert hc
  decide

/-- A numeral ends where nothing follows that it could go on with. -/
theorem numeral_unique {n' : Numeral} (hn : n.WellFormed) (hn' : n'.WellFormed)
    (hrest : HeadNot Numeral.isNumeralPart rest) (hrest' : HeadNot Numeral.isNumeralPart rest')
    (h : n.text ++ rest = n'.text ++ rest') : n = n' ∧ rest = rest' := by
  have hscan := Numeral.scan_eq_some_iff.2 ⟨hn, Numeral.stopsAt_of_headNot hrest, rfl⟩
  have hscan' := Numeral.scan_eq_some_iff.2 ⟨hn', Numeral.stopsAt_of_headNot hrest', rfl⟩
  rw [h, hscan'] at hscan
  cases hscan
  exact ⟨rfl, rfl⟩

/-- A name ends where nothing follows that it could go on with. -/
theorem name_unique (ht : IsName t) {t' : Text} (ht' : IsName t') (hrest : HeadNot isNamePart rest)
    (hrest' : HeadNot isNamePart rest') (h : t ++ rest = t' ++ rest') : t = t' ∧ rest = rest' := by
  have hscan := scanName_eq_some_iff.2 ⟨rfl, ht, hrest⟩
  have hscan' := scanName_eq_some_iff.2 ⟨rfl, ht', hrest'⟩
  rw [h, hscan'] at hscan
  cases hscan
  exact ⟨rfl, rfl⟩

/-- A group ends at the parenthesis behind the equation in it. -/
theorem group_unique {length : Nat} (hunique : UniqueBelow length) {s₀ s₁ s₀' s₁' : Text}
    (hle : (group s₀ e s₁).text.length ≤ length) (hs₀ : IsSpace s₀) (he : e.WellFormed)
    (hs₁ : IsSpace s₁) (hs₀' : IsSpace s₀') (he' : e'.WellFormed) (hs₁' : IsSpace s₁')
    (h : (group s₀ e s₁).text ++ rest = (group s₀' e' s₁').text ++ rest') :
    group s₀ e s₁ = group s₀' e' s₁' ∧ rest = rest' := by
  have hlt : e.text.length < length := by
    refine Nat.lt_of_lt_of_le ?_ hle
    simp only [text, List.length_cons, List.length_append]
    omega
  rw [text_group_append, text_group_append] at h
  obtain ⟨rfl, hinner⟩ := space_unique hs₀ (he.headNot_isWhitespace_text _) hs₀'
    (he'.headNot_isWhitespace_text _) (List.cons.inj h).2
  obtain ⟨rfl, hclose⟩ := hunique hlt he he' (closes_append_paren hs₁)
    (closes_append_paren hs₁') hinner
  obtain ⟨rfl, hrest⟩ := space_unique hs₁ (headNot_cons.2 (by decide)) hs₁'
    (headNot_cons.2 (by decide)) hclose
  exact ⟨rfl, (List.cons.inj hrest).2⟩

/-- **An operand ends where nothing follows that it could go on with.** -/
theorem operand_unique {length : Nat} (hunique : UniqueBelow length) (hle : o.text.length ≤ length)
    (ho : o.WellFormed) (hrank : o.rank = 0) (ho' : o'.WellFormed) (hrank' : o'.rank = 0)
    (hnumeral : HeadNot Numeral.isNumeralPart rest) (hname : HeadNot isNamePart rest)
    (hnumeral' : HeadNot Numeral.isNumeralPart rest') (hname' : HeadNot isNamePart rest')
    (h : o.text ++ rest = o'.text ++ rest') : o = o' ∧ rest = rest' := by
  cases ho with
  | literal hn =>
    cases ho' with
    | literal hn' =>
      obtain ⟨rfl, hrest⟩ := numeral_unique hn hn' hnumeral hnumeral' h
      exact ⟨rfl, hrest⟩
    | name ht => exact absurd h (numeral_ne_name hn ht)
    | group =>
      rw [text_group_append] at h
      exact absurd h (numeral_ne_group hn)
    | @operation _ _ _ _ op => exact absurd hrank' op.rank_pos.ne'
  | name ht =>
    cases ho' with
    | literal hn => exact absurd h.symm (numeral_ne_name hn ht)
    | name ht' =>
      obtain ⟨rfl, hrest⟩ := name_unique ht ht' hname hname' h
      exact ⟨rfl, hrest⟩
    | group =>
      rw [text_group_append] at h
      exact absurd h (name_ne_group ht)
    | @operation _ _ _ _ op => exact absurd hrank' op.rank_pos.ne'
  | group hs₀ he hs₁ =>
    cases ho' with
    | literal hn =>
      rw [text_group_append] at h
      exact absurd h.symm (numeral_ne_group hn)
    | name ht =>
      rw [text_group_append] at h
      exact absurd h.symm (name_ne_group ht)
    | group hs₀' he' hs₁' => exact group_unique hunique hle hs₀ he hs₁ hs₀' he' hs₁' h
    | @operation _ _ _ _ op => exact absurd hrank' op.rank_pos.ne'
  | @operation _ _ _ _ op => exact absurd hrank op.rank_pos.ne'

/-- Where nothing more of an equation follows, no operator does. -/
theorem closes_ne_step {k : Step} (hk : k.WellFormed) (hrest : Closes rest) :
    rest ≠ k.text ++ t := by
  rintro rfl
  have hsplit : k.text ++ t =
      k.before ++ (k.operator.symbol ++ (k.after ++ (k.operand.text ++ t))) := by
    simp [Step.text]
  have hsymbol := k.operator.headNot_isWhitespace_symbol (k.after ++ (k.operand.text ++ t))
  rw [Closes, hsplit, dropSpace_append hk.before hsymbol] at hrest
  cases hop : k.operator <;> rw [hop] at hrest <;>
    exact absurd (headNot_cons.1 hrest) (by decide)

/-- What follows an operator is no slash. -/
theorem headNot_slash (hs : IsSpace s) (he : e.WellFormed) :
    HeadNot (· == '/') (s ++ (e.text ++ t)) :=
  headNot_of_isSpace (fun _ hc => beq_of_kind hc (by decide)) hs
    (he.headNot_text (fun _ hc => beq_of_kind hc (by decide))
      (fun _ hc => beq_of_kind hc (by decide)) (by decide) (by decide) t)

/-- An operand of a chain ends where the steps behind it start. -/
theorem head_unique {length : Nat} (hunique : UniqueBelow length) {steps steps' : List Step}
    (hle : o.text.length ≤ length) (ho : o.WellFormed) (hrank : o.rank = 0)
    (hsteps : ∀ k ∈ steps, k.WellFormed) (ho' : o'.WellFormed) (hrank' : o'.rank = 0)
    (hsteps' : ∀ k ∈ steps', k.WellFormed) (hrest : Closes rest) (hrest' : Closes rest')
    (h : o.text ++ (steps.flatMap Step.text ++ rest) =
      o'.text ++ (steps'.flatMap Step.text ++ rest')) :
    o = o' ∧ steps.flatMap Step.text ++ rest = steps'.flatMap Step.text ++ rest' :=
  operand_unique hunique hle ho hrank ho' hrank'
    (headNot_steps hsteps hrest (fun _ => isNumeralPart_of_isWhitespace) (by decide) (by decide))
    (headNot_steps hsteps hrest (fun _ => isNamePart_of_isWhitespace) (by decide) (by decide))
    (headNot_steps hsteps' hrest' (fun _ => isNumeralPart_of_isWhitespace) (by decide) (by decide))
    (headNot_steps hsteps' hrest' (fun _ => isNamePart_of_isWhitespace) (by decide) (by decide)) h

/-- Steps that start alike have the same operator, with the same white space around it. -/
theorem operator_unique {k k' : Step} (hk : k.WellFormed) (hk' : k'.WellFormed)
    (h : k.text ++ rest = k'.text ++ rest') :
    k.before = k'.before ∧ k.operator = k'.operator ∧ k.after = k'.after ∧
      k.operand.text ++ rest = k'.operand.text ++ rest' := by
  simp only [Step.text, List.append_assoc] at h
  obtain ⟨hbefore, h⟩ := space_unique hk.before (k.operator.headNot_isWhitespace_symbol _)
    hk'.before (k'.operator.headNot_isWhitespace_symbol _) h
  obtain ⟨hop, h⟩ := symbol_unique (headNot_slash hk.after hk.operand)
    (headNot_slash hk'.after hk'.operand) h
  obtain ⟨hafter, h⟩ := space_unique hk.after (hk.operand.headNot_isWhitespace_text _)
    hk'.after (hk'.operand.headNot_isWhitespace_text _) h
  exact ⟨hbefore, hop, hafter, h⟩

/-- **Operands and operators in a row can be told apart.** -/
theorem chain_unique {length : Nat} (hunique : UniqueBelow length) {steps steps' : List Step}
    (hle : (o.text ++ steps.flatMap Step.text).length ≤ length) (ho : o.WellFormed)
    (hrank : o.rank = 0) (hsteps : ∀ k ∈ steps, k.WellFormed) (ho' : o'.WellFormed)
    (hrank' : o'.rank = 0) (hsteps' : ∀ k ∈ steps', k.WellFormed) (hrest : Closes rest)
    (hrest' : Closes rest')
    (h : o.text ++ (steps.flatMap Step.text ++ rest) =
      o'.text ++ (steps'.flatMap Step.text ++ rest')) :
    o = o' ∧ steps = steps' ∧ rest = rest' := by
  induction steps generalizing o o' steps' with
  | nil =>
    rw [List.flatMap_nil, List.append_nil] at hle
    obtain ⟨rfl, hafter⟩ :=
      head_unique hunique hle ho hrank hsteps ho' hrank' hsteps' hrest hrest' h
    cases steps' with
    | nil => exact ⟨rfl, rfl, hafter⟩
    | cons k' steps' =>
      rw [List.flatMap_cons, List.append_assoc] at hafter
      exact absurd hafter (closes_ne_step (hsteps' k' List.mem_cons_self) hrest)
  | cons k steps ih =>
    have hlength := hle
    rw [List.length_append] at hlength
    obtain ⟨rfl, hafter⟩ :=
      head_unique hunique (by omega) ho hrank hsteps ho' hrank' hsteps' hrest hrest' h
    obtain ⟨hk, hsteps⟩ := List.forall_mem_cons.1 hsteps
    cases steps' with
    | nil =>
      rw [List.flatMap_cons, List.append_assoc] at hafter
      exact absurd hafter.symm (closes_ne_step hk hrest')
    | cons k' steps' =>
      obtain ⟨hk', hsteps'⟩ := List.forall_mem_cons.1 hsteps'
      rw [List.flatMap_cons, List.flatMap_cons, List.append_assoc, List.append_assoc] at hafter
      obtain ⟨hbefore, hop, hspace, hafter⟩ := operator_unique hk hk' hafter
      have hle' : (k.operand.text ++ steps.flatMap Step.text).length ≤ length := by
        simp only [List.flatMap_cons, Step.text, List.length_append] at hlength ⊢
        omega
      obtain ⟨hoperand, rfl, rfl⟩ :=
        ih hle' hk.operand hk.rank hsteps hk'.operand hk'.rank hsteps' hafter
      cases k
      cases k'
      cases hbefore
      cases hop
      cases hspace
      cases hoperand
      exact ⟨rfl, rfl, rfl⟩

end Operands

/-- **Trees that are written alike are the same**, and so is what follows them. -/
theorem text_unique (length : Nat) : UniqueBelow length := by
  induction length with
  | zero => exact fun hlt => absurd hlt (Nat.not_lt_zero _)
  | succ length ih =>
    intro e e' rest rest' hlt he he' hrest hrest' h
    obtain ⟨o, steps, ho, hrank, hsteps, rfl⟩ := he.exists_chain
    obtain ⟨o', steps', ho', hrank', hsteps', rfl⟩ := he'.exists_chain
    rw [text_chain] at hlt
    rw [text_chain, text_chain, List.append_assoc, List.append_assoc] at h
    obtain ⟨rfl, rfl, rfl⟩ := chain_unique ih (Nat.le_of_lt_succ hlt) ho hrank hsteps ho' hrank'
      hsteps' hrest hrest' h
    exact ⟨rfl, rfl⟩

/-- **A text has at most one tree.** -/
theorem Spells.unique {e e' : Expr} {t : Text} (h : e.Spells t) (h' : e'.Spells t) : e = e' := by
  obtain ⟨he, s, after, hs, hafter, htext⟩ := h
  obtain ⟨he', s', after', hs', hafter', htext'⟩ := h'
  rw [htext, List.append_assoc, List.append_assoc] at htext'
  obtain ⟨-, heq⟩ := space_unique hs (he.headNot_isWhitespace_text _) hs'
    (he'.headNot_isWhitespace_text _) htext'
  exact (text_unique _ (Nat.lt_succ_self _) he he' (closes_of_isSpace hafter)
    (closes_of_isSpace hafter') heq).1

end Expr

end EquationFigure
