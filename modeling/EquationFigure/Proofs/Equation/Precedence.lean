import EquationFigure.Proofs.Equation.Chains
import EquationFigure.Proofs.Equation.Meaning

/-!
# Reducing chains by precedence

The tree of a chain has numerals at its leaves.  The leftmost operation of the tightest tier that
occurs is always a *redex*, an operation of the tree on two numerals: what binds as tightly and
stands to its left would be further left, and there is nothing that binds more tightly.  Carrying
it out makes a numeral of it and leaves a tree of the same meaning.

* `IsChain e n links` — the tree is that of the chain.
* `Redex e before o after` — the operation is one of the tree on two numerals.
* `IsChain.nextOperation` — the next operation is a redex.
* `agrees_reduce` — reducing the text of a chain ends as its tree says.
-/

set_option autoImplicit false

namespace EquationFigure

open EquationFigure.Expr EvalM

/-! ## Trees of chains -/

/-- The tree has no names and no groups, and its numerals and operators are these. -/
inductive IsChain : Expr → Numeral → List Link → Prop
  | literal (n : Numeral) : IsChain (.literal n) n []
  | operation {l r : Expr} {n m : Numeral} {links links' : List Link} {s s' : Text}
    {op : Operator} : IsChain l n links → IsChain r m links' →
    IsChain (.operation l s op s' r) n (links ++ ⟨s, op, s', m⟩ :: links')

section IsChain

variable {e : Expr} {n : Numeral} {links : List Link}

theorem IsChain.text (h : IsChain e n links) : e.text = n.text ++ linksText links := by
  induction h with
  | literal n => exact (List.append_nil _).symm
  | operation _ _ ihl ihr =>
    rw [Expr.text, ihl, ihr, linksText_append, linksText, Link.separator]
    simp only [List.append_assoc]

theorem IsChain.wellFormed (h : IsChain e n links) (he : e.WellFormed) :
    n.WellFormed ∧ ∀ l ∈ links, l.WellFormed := by
  induction h with
  | literal n =>
    cases he with
    | literal hn => exact ⟨hn, List.forall_mem_nil _⟩
  | operation _ _ ihl ihr =>
    cases he with
    | operation hl hs hs' hr =>
      obtain ⟨hn, hlinks⟩ := ihl hl
      obtain ⟨hm, hlinks'⟩ := ihr hr
      refine ⟨hn, fun l hmem => ?_⟩
      rcases List.mem_append.1 hmem with hmem | hmem
      · exact hlinks l hmem
      · rcases List.mem_cons.1 hmem with rfl | hmem
        · exact ⟨hs, hs', hm⟩
        · exact hlinks' l hmem

/-- A tree is a numeral, or its operator is that of a link. -/
theorem IsChain.rank_cases (h : IsChain e n links) :
    (e = .literal n ∧ links = []) ∨ ∃ l ∈ links, l.operator.rank = e.rank := by
  cases h with
  | literal => exact .inl ⟨rfl, rfl⟩
  | operation => exact .inr ⟨_, List.mem_append_right _ List.mem_cons_self, rfl⟩

/-- A tree whose operator is that of no link is a numeral. -/
theorem IsChain.eq_literal (h : IsChain e n links) (hne : ∀ l ∈ links, l.operator.rank ≠ e.rank) :
    e = .literal n ∧ links = [] :=
  h.rank_cases.resolve_right fun ⟨l, hl, heq⟩ => hne l hl heq

/-- A value of a chain with numerals in range is finite. -/
theorem IsChain.isFinite (h : IsChain e n links) {vars : Variables} (he : e.WellFormed)
    (hrange : e.InRange) {x : Float} (hx : Denotes vars e x) : x.isFinite = true := by
  cases h with
  | literal =>
    cases he with
    | literal hn =>
      cases hx
      exact (Numeral.isFinite_value_iff hn).2 hrange
  | operation =>
    cases hx with
    | operation _ _ hz =>
      rw [unsignedZero]
      split
      · decide +kernel
      · exact Operator.isFinite_of_apply_eq_ok hz

end IsChain

/-! ## Redexes -/

/-- The operation is one of the tree on two numerals, between these two texts. -/
inductive Redex : Expr → Text → Operation → Text → Prop
  | here (o : Operation) :
    Redex (.operation (.literal o.lhs) o.spaceBefore o.operator o.spaceAfter (.literal o.rhs))
      [] o []
  | left {l r : Expr} {before after s s' : Text} {o : Operation} {op : Operator} :
    Redex l before o after →
    Redex (.operation l s op s' r) before o (after ++ (s ++ op.symbol ++ s') ++ r.text)
  | right {l r : Expr} {before after s s' : Text} {o : Operation} {op : Operator} :
    Redex r before o after →
    Redex (.operation l s op s' r) (l.text ++ (s ++ op.symbol ++ s') ++ before) o after

section Redex

variable {vars : Variables} {e : Expr} {before after : Text} {o : Operation}

theorem agrees_literal (n : Numeral) : Agrees vars (.literal n) (.ok n.value) :=
  ⟨fun _ => denotes_literal_iff, fun _ => not_fails_literal⟩

/-- An operation on numerals that has a value means the numeral of that value. -/
theorem Operation.simplifies {x : Float} (hx : o.value = .ok x) :
    Simplifies vars
      (.operation (.literal o.lhs) o.spaceBefore o.operator o.spaceAfter (.literal o.rhs))
      (.literal (Numeral.ofFloat x)) := by
  refine simplifies_literal (Operator.isFinite_of_apply_eq_ok hx) (fun y => ?_) fun err herr => ?_
  · rw [denotes_operation_iff o.text]
    constructor
    · rintro ⟨a, b, z, ha, hb, hz, rfl⟩
      rw [denotes_literal_iff.1 ha, denotes_literal_iff.1 hb] at hz
      rw [Operation.value, hz] at hx
      cases hx
      rfl
    · rintro rfl
      exact ⟨_, _, x, .literal _, .literal _, hx, rfl⟩
  · cases herr with
    | lhs h => exact not_fails_literal h
    | rhs h => exact not_fails_literal h
    | operation ha hb hz =>
      rw [denotes_literal_iff.1 ha, denotes_literal_iff.1 hb, Operator.apply_eq_ok_congr hx] at hz
      cases hz

/-- If the one tree is a chain, so is the other one, with fewer operators. -/
def Shortens (e e' : Expr) : Prop :=
  ∀ n links, IsChain e n links → ∃ n' links', IsChain e' n' links' ∧ links'.length < links.length

section Shortens

variable {l l' r r' : Expr} {s s' : Text} {op : Operator} {n m k : Numeral}

theorem shortens_literal :
    Shortens (.operation (.literal n) s op s' (.literal m)) (.literal k) := by
  intro _ _ h
  cases h
  exact ⟨_, [], .literal k, by simp⟩

theorem Shortens.left (h : Shortens l l') :
    Shortens (.operation l s op s' r) (.operation l' s op s' r) := by
  intro _ _ hchain
  cases hchain with
  | operation hl hr =>
    obtain ⟨n', links', hl', hlt⟩ := h _ _ hl
    refine ⟨n', _, .operation hl' hr, ?_⟩
    rw [List.length_append, List.length_append]
    exact Nat.add_lt_add_right hlt _

theorem Shortens.right (h : Shortens r r') :
    Shortens (.operation l s op s' r) (.operation l s op s' r') := by
  intro _ _ hchain
  cases hchain with
  | operation hl hr =>
    obtain ⟨n', links', hr', hlt⟩ := h _ _ hr
    refine ⟨_, _, .operation hl hr', ?_⟩
    rw [List.length_append, List.length_append, List.length_cons, List.length_cons]
    omega

end Shortens

variable (vars) in
/-- **If a redex has a value, the numeral of the value can take its place.** -/
theorem Redex.simplifies (h : Redex e before o after) (he : e.WellFormed) (hrange : e.InRange)
    {x : Float} (hx : o.value = .ok x) :
    ∃ e', Simplifies vars e e' ∧ e'.text = before ++ numberText x ++ after ∧ Shortens e e' := by
  induction h with
  | here o =>
    refine ⟨_, Operation.simplifies hx, ?_, shortens_literal⟩
    simp [Expr.text, numberText_eq_text (Operator.isFinite_of_apply_eq_ok hx)]
  | left _ ih =>
    have hall := he
    cases he with
    | operation hl hs hs' hr =>
      obtain ⟨l', hl', htext, hchain⟩ := ih hl hrange.1 hx
      refine ⟨_, hl'.operation (.refl hr hrange.2) hall, ?_, hchain.left⟩
      simp [Expr.text, htext]
  | right _ ih =>
    have hall := he
    cases he with
    | operation hl hs hs' hr =>
      obtain ⟨r', hr', htext, hchain⟩ := ih hr hrange.2 hx
      refine ⟨_, (Simplifies.refl hl hrange.1).operation hr' hall, ?_, hchain.right⟩
      simp [Expr.text, htext]

/-- **If a redex fails, the tree fails alike.** -/
theorem Redex.agrees_error (h : Redex e before o after) {err : EvalError}
    (herr : o.value = .error err) : Agrees vars e (.error err) := by
  induction h with
  | here o =>
    refine ⟨fun y hy => ?_, .operation (.literal _) (.literal _) herr⟩
    obtain ⟨a, b, z, ha, hb, hz, -⟩ := (denotes_operation_iff o.text).1 hy
    rw [denotes_literal_iff.1 ha, denotes_literal_iff.1 hb] at hz
    rw [Operation.value, hz] at herr
    cases herr
  | left _ ih =>
    refine ⟨fun y hy => ?_, .lhs (ih herr).2⟩
    obtain ⟨a, b, z, ha, -⟩ := (denotes_operation_iff []).1 hy
    exact (ih herr).1 a ha
  | right _ ih =>
    refine ⟨fun y hy => ?_, .rhs (ih herr).2⟩
    obtain ⟨a, b, z, -, hb, -⟩ := (denotes_operation_iff []).1 hy
    exact (ih herr).1 b hb

end Redex

/-! ## The redex that is found -/

section FirstRedex

variable {operators : List Operator} {n : Numeral} {links links' : List Link} {l : Link}

theorem firstRedex_eq_none_iff :
    firstRedex operators n links = none ↔ ∀ l ∈ links, l.operator ∉ operators := by
  induction links generalizing n with
  | nil => exact iff_of_true rfl (List.forall_mem_nil _)
  | cons l links ih =>
    rw [firstRedex, List.forall_mem_cons]
    by_cases hop : l.operator ∈ operators
    · rw [if_pos hop]
      exact iff_of_false (Option.some_ne_none _) fun h => h.1 hop
    · rw [if_neg hop, Option.map_eq_none_iff, ih]
      exact (and_iff_right hop).symm

theorem firstRedex_append_of_some {before after : Text} {o : Operation}
    (h : firstRedex operators n links = some (before, o, after)) (links' : List Link) :
    firstRedex operators n (links ++ links') = some (before, o, after ++ linksText links') := by
  induction links generalizing n before with
  | nil => cases h
  | cons l links ih =>
    rw [firstRedex] at h
    rw [List.cons_append, firstRedex]
    by_cases hop : l.operator ∈ operators
    · rw [if_pos hop] at h ⊢
      cases h
      rw [linksText_append]
    · rw [if_neg hop, Option.map_eq_some_iff] at h
      obtain ⟨⟨b, o', a⟩, hsome, heq⟩ := h
      cases heq
      rw [if_neg hop, ih hsome]
      rfl

theorem firstRedex_append_of_none (h : ∀ l ∈ links, l.operator ∉ operators)
    (hl : l.operator ∉ operators) :
    firstRedex operators n (links ++ l :: links') =
      (firstRedex operators l.operand links').map fun (before, o, after) =>
        (n.text ++ linksText links ++ l.separator ++ before, o, after) := by
  induction links generalizing n with
  | nil =>
    rw [List.nil_append, firstRedex, if_neg hl]
    simp [linksText]
  | cons k links ih =>
    rw [List.forall_mem_cons] at h
    rw [List.cons_append, firstRedex, if_neg h.1, ih h.2, Option.map_map]
    simp [Function.comp_def, linksText]

end FirstRedex

/-- **The leftmost operation of the tightest rank is a redex.** -/
theorem IsChain.redex {e : Expr} {n : Numeral} {links : List Link} (h : IsChain e n links)
    (he : e.WellFormed) {rank : Nat} (hrank : ∀ l ∈ links, rank ≤ l.operator.rank)
    {operators : List Operator} (hoperators : ∀ op, op ∈ operators ↔ op.rank = rank)
    {before after : Text} {o : Operation}
    (hfirst : firstRedex operators n links = some (before, o, after)) :
    Redex e before o after := by
  induction h generalizing before after with
  | literal n => cases hfirst
  | @operation l r n m links links' s s' op hcl hcr ihl ihr =>
    rw [List.forall_mem_append, List.forall_mem_cons] at hrank
    obtain ⟨hrankl, hrankop, hrankr⟩ := hrank
    cases he with
    | operation hl hs hs' hr hlop hrop =>
      cases hleft : firstRedex operators n links with
      | some p =>
        obtain ⟨b, o', a⟩ := p
        rw [firstRedex_append_of_some hleft] at hfirst
        cases hfirst
        have htext : a ++ linksText (⟨s, op, s', m⟩ :: links') =
            a ++ (s ++ op.symbol ++ s') ++ r.text := by
          rw [hcr.text, linksText, Link.separator]
          simp only [List.append_assoc]
        rw [htext]
        exact .left (ihl hl hrankl hleft)
      | none =>
        have hnone := firstRedex_eq_none_iff.1 hleft
        by_cases hop : op ∈ operators
        · -- Whatever else binds as tightly would be further left.
          have hrankop := (hoperators op).1 hop
          obtain ⟨rfl, rfl⟩ := hcl.eq_literal fun k hk hkl => by
            have hle := hrankl k hk
            exact hnone k hk ((hoperators _).2 (by omega))
          obtain ⟨rfl, rfl⟩ := hcr.eq_literal fun k hk hkr => by
            have hle := hrankr k hk
            omega
          rw [List.nil_append, firstRedex, if_pos hop] at hfirst
          cases hfirst
          exact .here (Link.operation n ⟨s, op, s', m⟩)
        · rw [firstRedex_append_of_none hnone hop, Option.map_eq_some_iff] at hfirst
          obtain ⟨⟨b, o', a⟩, hright, heq⟩ := hfirst
          cases heq
          have htext : n.text ++ linksText links ++ Link.separator ⟨s, op, s', m⟩ ++ b =
              l.text ++ (s ++ op.symbol ++ s') ++ b := by
            rw [hcl.text, Link.separator]
          rw [htext]
          exact .right (ihr hr hrankr hright)

/-- If no tier has a redex, every operator binds more loosely than all of them. -/
theorem IsChain.redex_of_tiers {e : Expr} {n : Numeral} {links : List Link} (h : IsChain e n links)
    (he : e.WellFormed) {tiers : List (List Operator)} {rank : Nat}
    (hrank : ∀ l ∈ links, rank ≤ l.operator.rank)
    (htiers : ∀ i (hi : i < tiers.length) (op : Operator), op ∈ tiers[i] ↔ op.rank = rank + i) :
    (∀ l ∈ links, rank + tiers.length ≤ l.operator.rank) ∨ ∃ before o after,
      Redex e before o after ∧
        (tiers.findSome? fun operators => firstRedex operators n links) =
          some (before, o, after) := by
  induction tiers generalizing rank with
  | nil => exact .inl hrank
  | cons operators tiers ih =>
    have hoperators : ∀ op, op ∈ operators ↔ op.rank = rank := htiers 0 (Nat.succ_pos _)
    rw [List.findSome?_cons]
    cases hfirst : firstRedex operators n links with
    | some p =>
      obtain ⟨before, o, after⟩ := p
      exact .inr ⟨before, o, after, h.redex he hrank hoperators hfirst, rfl⟩
    | none =>
      have hnone := firstRedex_eq_none_iff.1 hfirst
      have hrank' : ∀ l ∈ links, rank + 1 ≤ l.operator.rank := by
        intro l hl
        have hle := hrank l hl
        have hne : l.operator.rank ≠ rank := fun heq => hnone l hl ((hoperators _).2 heq)
        omega
      have htiers' : ∀ i (hi : i < tiers.length) (op : Operator),
          op ∈ tiers[i] ↔ op.rank = rank + 1 + i := by
        intro i hi op
        have h := htiers (i + 1) (Nat.succ_lt_succ hi) op
        rwa [List.getElem_cons_succ, Nat.add_comm i, ← Nat.add_assoc] at h
      rcases ih hrank' htiers' with h | h
      · refine .inl fun l hl => ?_
        have := h l hl
        rw [List.length_cons]
        omega
      · exact .inr h

theorem mem_tiers_iff (i : Nat) (hi : i < Operator.tiers.length) (op : Operator) :
    op ∈ Operator.tiers[i] ↔ op.rank = 1 + i := by
  revert i
  cases op <;> decide

theorem Operator.rank_le (op : Operator) : op.rank ≤ 3 := by
  cases op <;> decide

/-- **The next operation of a chain is a redex**, unless the chain is a single numeral. -/
theorem IsChain.nextOperation {e : Expr} {n : Numeral} {links : List Link} (h : IsChain e n links)
    (he : e.WellFormed) {s s' : Text} (hs : IsSpace s) (hs' : IsSpace s') :
    e = .literal n ∨ ∃ before o after, Redex e before o after ∧
      EquationFigure.nextOperation Operator.tiers (s ++ e.text ++ s') =
        some ⟨s ++ before, o, after ++ s'⟩ := by
  obtain ⟨hn, hlinks⟩ := h.wellFormed he
  have hfind : ∀ operators, findOperation operators [] (s ++ e.text ++ s') =
      (firstRedex operators n links).map fun (before, o, after) =>
        ⟨s ++ before, o, after ++ s'⟩ := by
    intro operators
    rw [h.text, List.append_assoc, List.append_assoc,
      findOperation_of_no_start fun c hc => no_start_of_isWhitespace (hs c hc), List.append_nil,
      findOperation_chain (fresh_of_space hs) hn hlinks hs', List.reverse_reverse]
  rcases h.redex_of_tiers he (fun l _ => l.operator.rank_pos) mem_tiers_iff with hloose | hredex
  · refine .inl ?_
    rcases h.rank_cases with ⟨heq, -⟩ | ⟨l, hl, -⟩
    · exact heq
    · have hle := hloose l hl
      have hrank := l.operator.rank_le
      change 1 + 3 ≤ _ at hle
      omega
  · obtain ⟨before, o, after, hredex, hfirst⟩ := hredex
    refine .inr ⟨before, o, after, hredex, ?_⟩
    simp only [EquationFigure.nextOperation, hfind]
    rw [← Function.comp_def, ← List.map_findSome?, hfirst]
    rfl

/-- **Reducing the text of a chain ends as its tree says.** -/
theorem agrees_reduce (vars : Variables) {e : Expr} {n : Numeral} {links : List Link}
    (h : IsChain e n links) (he : e.WellFormed) (hrange : e.InRange) {s s' : Text} (hs : IsSpace s)
    (hs' : IsSpace s') : Agrees vars e (reduce (s ++ e.text ++ s')).outcome := by
  induction hlength : links.length using Nat.strong_induction_on generalizing e n links with
  | h length ih =>
    rcases h.nextOperation he hs hs' with rfl | ⟨before, o, after, hredex, hnext⟩
    · cases he with
      | literal hn =>
        have hread := literal?_append hn hs hs'
        rw [Expr.text, outcome_reduce_of_none (nextOperation_of_literal? hread),
          readValue_of_literal? hread]
        exact agrees_literal n
    · rw [outcome_reduce_of_some hnext]
      cases hvalue : o.value with
      | error err => exact hredex.agrees_error hvalue
      | ok x =>
        obtain ⟨e', he', htext, hchain⟩ := hredex.simplifies vars he hrange hvalue
        obtain ⟨n', links', h', hlt⟩ := hchain n links h
        have hsplit : s ++ before ++ numberText x ++ (after ++ s') = s ++ e'.text ++ s' := by
          rw [htext]
          simp only [List.append_assoc]
        have hrest := ih links'.length (by omega) h' he'.wellFormed he'.inRange rfl
        rw [← hsplit] at hrest
        exact hrest.of_simplifies he'

end EquationFigure
