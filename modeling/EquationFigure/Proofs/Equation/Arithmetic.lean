import EquationFigure.Proofs.Equation.Nesting
import EquationFigure.Proofs.Equation.Rewriting
import EquationFigure.Proofs.Equation.Unambiguity

/-!
# Rewriting computes arithmetic

An evaluation never sees the syntax tree of its equation.  It replaces names from left to right,
then groups, then operations, and each replacement leaves a tree of the same meaning.  So the
outcome is what the tree says.

* `Worth`, `Cache.Truthful` — a value is the only one that a name has; those in the cache are.
* `replaces` — replacing the names of an equation leaves a tree of the same meaning.
* `Settled`, `settled_evaluateAt` — evaluating a formula ends as its tree says and leaves a truthful
  cache.
* `evaluateFresh_iff_denotes` — an equation has one tree, and evaluating it is working that out.
-/

set_option autoImplicit false

namespace EquationFigure

open Text EquationFigure.Expr EvalM

/-! ## Values of names -/

/-- The value is a number, and it is the only one that the name has. -/
structure Worth (vars : Variables) (t : Text) (x : Float) : Prop where
  /-- It is a number. -/
  isFinite : x.isFinite = true
  /-- The name has it, and no other one. -/
  denotes : ∀ y, Denotes vars (.name t) y ↔ y = unsignedZero x
  /-- Nothing fails on the way. -/
  fails : ∀ err, ¬ Fails vars (.name t) err

/-- The values in the cache are those of their names. -/
def Cache.Truthful (vars : Variables) (cache : Cache) : Prop :=
  ∀ t x, cache.get? t = some x → Worth vars t x

/-- Looking the name up in a session with a truthful cache ends as the name says and leaves the
cache truthful. -/
def Finds (vars : Variables) (value : Text → EvalM Float) (t : Text) : Prop :=
  ∀ s : Session, s.cache.Truthful vars → ((value t).run s).2.cache.Truthful vars ∧
    (∀ x, ((value t).run s).1 = .ok x → Worth vars t x) ∧
    ∀ err, ((value t).run s).1 = .error err → Agrees vars (.name t) (.error err)

/-! ## Replacing names -/

section Names

variable {vars : Variables} {value : Text → EvalM Float} {e : Expr}

theorem nameless_paren {c : Char} (h : isParen c = true) : Nameless [c] := by
  intro d hd
  rw [List.mem_singleton.1 hd]
  rw [isParen, Bool.or_eq_true, beq_iff_eq, beq_iff_eq] at h
  rcases h with rfl | rfl <;> decide

/-- A tree without names has a text without names. -/
theorem nameless_text (he : e.WellFormed) (hnames : e.names = []) : Nameless e.text := by
  induction he with
  | literal hn => exact hn.nameless
  | name => cases hnames
  | group hs _ hs' ih =>
    have hinner : Nameless (_ ++ _ ++ _) := nameless_append.2
      ⟨nameless_append.2 ⟨nameless_of_isSpace hs, ih hnames⟩, nameless_of_isSpace hs'⟩
    exact nameless_append.2 ⟨nameless_paren (by decide),
      nameless_append.2 ⟨hinner, nameless_paren (by decide)⟩⟩
  | @operation l r s s' op _ hs hs' _ _ _ ihl ihr =>
    obtain ⟨hnl, hnr⟩ := List.append_eq_nil_iff.1 hnames
    exact nameless_append.2 ⟨nameless_append.2 ⟨ihl hnl, nameless_separator op hs hs'⟩, ihr hnr⟩

/-- Replacing the names of the equation, which stands between two texts, leads to a session and to a
tree of the same meaning without names. -/
structure Replaced (vars : Variables) (value : Text → EvalM Float) (depth : Nat) (before : Text)
    (e : Expr) (after : Text) (s : Session) (e' : Expr) (s' : Session) : Prop where
  /-- The tree has the same meaning. -/
  simplifies : Simplifies vars e e'
  /-- No names are left. -/
  names : e'.names = []
  /-- The groups are not nested deeper. -/
  nesting : e'.nesting ≤ e.nesting
  /-- The loop gets from the one text to the other. -/
  run : ∀ times, (substituteWithin vars value depth (e.names.length + times)
      (before ++ e.text ++ after)).run s =
    (substituteWithin vars value depth times (before ++ e'.text ++ after)).run s'

/-- Replacing the names of the equation, which stands between two texts, fails as the equation
does. -/
structure Unreplaced (vars : Variables) (value : Text → EvalM Float) (depth : Nat) (before : Text)
    (e : Expr) (after : Text) (s : Session) (err : EvalError) (s' : Session) : Prop where
  /-- The equation fails, too. -/
  agrees : Agrees vars e (.error err)
  /-- The loop ends with the error. -/
  run : ∀ times, (substituteWithin vars value depth (e.names.length + times)
      (before ++ e.text ++ after)).run s = (.error err, s')

/-- Replacing the names of the equation leaves a truthful cache, and either a tree of the same
meaning or an error of the equation. -/
def Replaces (vars : Variables) (value : Text → EvalM Float) (depth : Nat) (before : Text)
    (e : Expr) (after : Text) (s : Session) : Prop :=
  ∃ s' : Session, s'.cache.Truthful vars ∧
    ((∃ e', Replaced vars value depth before e after s e' s') ∨
      ∃ err, Unreplaced vars value depth before e after s err s')

section Replaces

variable {depth : Nat} {before after : Text} {s : Session}

theorem replaces_literal {n : Numeral} (he : (Expr.literal n).WellFormed)
    (hrange : (Expr.literal n).InRange) (hs : s.cache.Truthful vars) :
    Replaces vars value depth before (.literal n) after s := by
  refine ⟨s, hs, .inl ⟨.literal n, .refl he hrange, rfl, Nat.le_refl _, fun times => ?_⟩⟩
  rw [Expr.names, List.length_nil, Nat.zero_add]

/-- A name is replaced by the text of its value, which is a numeral. -/
theorem replaces_name {t : Text} (ht : IsName t) (hvalue : Finds vars value t)
    (hbefore : Nameless before) (hafter : HeadNot isNamePart after) (hs : s.cache.Truthful vars) :
    Replaces vars value depth before (.name t) after s := by
  have hfirst : firstName? (before ++ t ++ after) = some (before, t, after) :=
    firstName?_eq_some_iff.2 ⟨rfl, hbefore, ht, hafter⟩
  obtain ⟨hs', hok, herror⟩ := hvalue s hs
  cases hrun : (value t).run s with
  | mk r s₁ =>
    rw [hrun] at hs' hok herror
    cases r with
    | error err =>
      refine ⟨s₁, hs', .inr ⟨err, herror err rfl, fun times => ?_⟩⟩
      rw [Expr.names, List.length_singleton, Nat.add_comm, Expr.text, substituteWithin.eq_def,
        hfirst]
      exact Attempt.run_bind_of_error hrun _
    | ok x =>
      have hx := hok x rfl
      have hne : before ++ numberText x ++ after ≠ before ++ t ++ after :=
        splice_ne (nameless_numberText hx.isFinite) ht
      have hstep : Rewrites value depth (before ++ t ++ after) s [⟨before, t, x, after⟩]
          (before ++ numberText x ++ after) _ := .step hfirst hrun hne (.done _ _)
      let splice : Splice := ⟨before, t, x, after⟩
      refine ⟨((record (splice.event depth)).run s₁).2, hs',
        .inl ⟨_, simplifies_literal hx.isFinite hx.denotes hx.fails, rfl, Nat.zero_le _,
          fun times => ?_⟩⟩
      rw [Expr.text, Expr.text, ← numberText_eq_text hx.isFinite]
      exact hstep.run vars times

/-- The names of a group are those of what is in it. -/
theorem Replaces.group {s₀ s₀' : Text} (hs₀ : IsSpace s₀) (hs₀' : IsSpace s₀')
    (h : Replaces vars value depth (before ++ '(' :: s₀) e (s₀' ++ ')' :: after) s) :
    Replaces vars value depth before (.group s₀ e s₀') after s := by
  have hsplit : ∀ e : Expr, before ++ (Expr.group s₀ e s₀').text ++ after =
      before ++ '(' :: s₀ ++ e.text ++ (s₀' ++ ')' :: after) := by
    simp [Expr.text]
  obtain ⟨s', hs', h⟩ := h
  refine ⟨s', hs', ?_⟩
  rcases h with ⟨e', h⟩ | ⟨err, h⟩
  · refine .inl ⟨_, h.simplifies.group hs₀ hs₀', h.names, Nat.succ_le_succ h.nesting,
      fun times => ?_⟩
    rw [hsplit, hsplit]
    exact h.run times
  · refine .inr ⟨err, h.agrees.group_error, fun times => ?_⟩
    rw [hsplit]
    exact h.run times

/-- The names of an operation are those of its first operand, and then, behind what these have
become, those of its second one. -/
theorem Replaces.operation {l r : Expr} {s₀ s₀' : Text} {op : Operator}
    (hall : (Expr.operation l s₀ op s₀' r).WellFormed)
    (hl : Replaces vars value depth before l (s₀ ++ (op.symbol ++ (s₀' ++ r.text ++ after))) s)
    (hr : ∀ l' s₁, Simplifies vars l l' → l'.names = [] → s₁.cache.Truthful vars →
      Replaces vars value depth (before ++ l'.text ++ (s₀ ++ op.symbol ++ s₀')) r after s₁) :
    Replaces vars value depth before (.operation l s₀ op s₀' r) after s := by
  have hsplit : ∀ l : Expr, before ++ (Expr.operation l s₀ op s₀' r).text ++ after =
      before ++ l.text ++ (s₀ ++ (op.symbol ++ (s₀' ++ r.text ++ after))) := by
    simp [Expr.text]
  have hlength : ∀ times, (Expr.operation l s₀ op s₀' r).names.length + times =
      l.names.length + (r.names.length + times) := by
    intro times
    rw [Expr.names, List.length_append]
    omega
  obtain ⟨s₁, hs₁, ⟨l', hl⟩ | ⟨err, hl⟩⟩ := hl
  · have hsplit' : ∀ r : Expr, before ++ (Expr.operation l' s₀ op s₀' r).text ++ after =
        before ++ l'.text ++ (s₀ ++ op.symbol ++ s₀') ++ r.text ++ after := by
      simp [Expr.text]
    have hmiddle : before ++ l'.text ++ (s₀ ++ (op.symbol ++ (s₀' ++ r.text ++ after))) =
        before ++ l'.text ++ (s₀ ++ op.symbol ++ s₀') ++ r.text ++ after := by
      simp
    obtain ⟨s', hs', h⟩ := hr l' s₁ hl.simplifies hl.names hs₁
    refine ⟨s', hs', ?_⟩
    rcases h with ⟨r', hr⟩ | ⟨err, hr⟩
    · refine .inl ⟨_, hl.simplifies.operation hr.simplifies hall, ?_, ?_, fun times => ?_⟩
      · rw [Expr.names, hl.names, hr.names, List.append_nil]
      · exact max_le_max hl.nesting hr.nesting
      · rw [hlength, hsplit, hl.run, hmiddle, hr.run, hsplit']
    · refine .inr ⟨err, hr.agrees.rhs_error, fun times => ?_⟩
      rw [hlength, hsplit, hl.run, hmiddle, hr.run]
  · refine ⟨s₁, hs₁, .inr ⟨err, hl.agrees.lhs_error, fun times => ?_⟩⟩
    rw [hlength, hsplit, hl.run]

end Replaces

/-- **Replacing the names of an equation leaves one of the same meaning**, unless one of the names
has no value. -/
theorem replaces (depth : Nat) (he : e.WellFormed) (hrange : e.InRange)
    (hvalue : ∀ t ∈ e.names, Finds vars value t) {before after : Text} (hbefore : Nameless before)
    (hafter : HeadNot isNamePart after) {s : Session} (hs : s.cache.Truthful vars) :
    Replaces vars value depth before e after s := by
  induction he generalizing before after s with
  | literal hn => exact replaces_literal (.literal hn) hrange hs
  | name ht => exact replaces_name ht (hvalue _ List.mem_cons_self) hbefore hafter hs
  | group hs₀ _ hs₀' ih =>
    refine .group hs₀ hs₀' (ih hrange hvalue ?_ ?_ hs)
    · exact nameless_append.2
        ⟨hbefore, nameless_append.2 ⟨nameless_paren (by decide), nameless_of_isSpace hs₀⟩⟩
    · exact headNot_isNamePart_of_isSpace hs₀' (headNot_cons.2 (by decide))
  | @operation l r s₀ s₀' op hl hs₀ hs₀' hr hlop hrop ihl ihr =>
    refine .operation (.operation hl hs₀ hs₀' hr hlop hrop) ?_ fun l' s₁ hsimp hnames hs₁ => ?_
    · exact ihl hrange.1 (fun t ht => hvalue t (List.mem_append_left _ ht)) hbefore
        (headNot_isNamePart_of_isSpace hs₀ (op.headNot_symbol (by decide) _)) hs
    · refine ihr hrange.2 (fun t ht => hvalue t (List.mem_append_right _ ht)) ?_ hafter hs₁
      exact nameless_append.2 ⟨nameless_append.2 ⟨hbefore, nameless_text hsimp.wellFormed hnames⟩,
        nameless_separator op hs₀ hs₀'⟩

end Names

/-! ## Evaluating formulas -/

/-- The work ended as the tree says, with a number if it has a value, and left a truthful cache. -/
structure Settled (vars : Variables) (e : Expr) (r : Except EvalError Float × Session) :
    Prop where
  /-- The cache is truthful. -/
  truthful : r.2.cache.Truthful vars
  /-- The outcome is what the tree says. -/
  agrees : Agrees vars e r.1
  /-- A value is a number. -/
  isFinite : ∀ x, r.1 = .ok x → x.isFinite = true

section Formulas

variable {vars : Variables} {e : Expr}

/-- An equation starts with neither a blank nor an equals sign. -/
theorem exists_start (he : e.WellFormed) :
    ∃ c rest, e.text = c :: rest ∧ isBlank c = false ∧ c ≠ '=' := by
  induction he with
  | @literal n hn =>
    obtain ⟨c, run, hrun, hstart⟩ := hn.exists_start
    refine ⟨c, run, hrun, ?_, ?_⟩
    · rw [Bool.or_eq_true, beq_iff_eq] at hstart
      rcases hstart with hdigit | rfl
      · exact isBlank_of_isDigit hdigit
      · decide
    · exact ne_of_kind (p := fun c => c.isDigit || c == '-') hstart (by decide)
  | name ht =>
    obtain ⟨c, rest, rfl, hc, -⟩ := ht
    exact ⟨c, rest, rfl, isBlank_of_isNameStart hc, ne_of_kind hc (by decide)⟩
  | group => exact ⟨_, _, rfl, by decide, by decide⟩
  | operation _ _ _ _ _ _ ihl _ =>
    obtain ⟨c, rest, htext, hc⟩ := ihl
    exact ⟨c, _, by rw [Expr.text, htext]; rfl, hc⟩

/-- The white space before an equation goes, and that behind it stays. -/
theorem equationBody_spells {t : Text} (ht : e.Spells t) :
    ∃ s, IsSpace s ∧ equationBody t = e.text ++ s := by
  obtain ⟨he, s, s', hs, hs', rfl⟩ := ht
  obtain ⟨c, rest, htext, hblank, hne⟩ := exists_start he
  refine ⟨s', hs', ?_⟩
  rw [equationBody, List.append_assoc, trimStart, List.dropWhile_append_of_pos fun c hc =>
    isBlank_of_isWhitespace (hs c hc), htext, List.cons_append,
    List.dropWhile_cons_of_neg (by simp [hblank])]
  split
  · rename_i heq
    exact absurd (List.cons.inj heq).1 hne
  · rfl

theorem length_names_le_text (he : e.WellFormed) : e.names.length ≤ e.text.length := by
  induction he with
  | literal => exact Nat.zero_le _
  | name ht =>
    obtain ⟨c, rest, rfl, -⟩ := ht
    exact Nat.succ_le_succ (Nat.zero_le _)
  | group _ _ _ ih =>
    rw [Expr.names, Expr.text, List.length_cons, List.length_append, List.length_append,
      List.length_append]
    omega
  | operation _ _ _ _ _ _ ihl ihr =>
    rw [Expr.names, Expr.text, List.length_append, List.length_append, List.length_append]
    omega

/-- **Evaluating a formula ends as its tree says**, if looking up its names does. -/
theorem settled_evaluateUsing {value : Text → EvalM Float} (limit : Nat) {levels : Nat} {t : Text}
    (ht : e.Spells t) (hrange : e.InRange) (hlevels : e.nesting ≤ levels)
    (hvalue : ∀ t ∈ e.names, Finds vars value t) {s : Session} (hs : s.cache.Truthful vars) :
    Settled vars e ((evaluateUsing vars value limit levels t).run s) := by
  have he := ht.1
  obtain ⟨space, hspace, hbody⟩ := equationBody_spells ht
  obtain ⟨times, htimes⟩ : ∃ times, substitutionLimit (e.text ++ space) = e.names.length + times :=
    Nat.exists_eq_add_of_le (by
      have := length_names_le_text he
      rw [substitutionLimit, List.length_append]
      omega)
  have hafter : HeadNot isNamePart space := by
    have h := headNot_isNamePart_of_isSpace hspace headNot_nil
    rwa [List.append_nil] at h
  obtain ⟨s', hs', h⟩ := replaces (limit - levels) he hrange hvalue nameless_nil hafter hs
  rw [evaluateUsing, substitute, hbody, htimes]
  rcases h with ⟨e', hsimp, hnames, hnesting, hrun⟩ | ⟨err, herr, hrun⟩
  · have hfree : Nameless (e'.text ++ space) :=
      nameless_append.2 ⟨nameless_text hsimp.wellFormed hnames, nameless_of_isSpace hspace⟩
    have hsub := hrun times
    rw [List.nil_append, List.nil_append, substituteWithin.eq_def _ _ _ _ (e'.text ++ space),
      firstName?_eq_none_iff.2 hfree] at hsub
    have hcount : (e'.text ++ space).count '(' = (e'.text ++ space).count ')' := by
      have hspace := parenFree_of_isSpace hspace
      rw [List.count_append, List.count_append, count_paren_of_parenFree hspace (by decide),
        count_paren_of_parenFree hspace (by decide), count_paren_text hsimp.wellFormed hnames]
    obtain ⟨outcome, hagrees, hfin, hout⟩ := agrees_resolveGroups vars limit hsimp.wellFormed
      hsimp.inRange hnames (hnesting.trans hlevels) hspace
    have hquiet := quiet_resolve limit levels (e'.text ++ space)
    rw [Attempt.run_bind_of_ok hsub, run_eq_of_quiet hquiet, outcome_resolve hcount hout]
    exact ⟨hquiet.cache s' ▸ hs', hagrees.of_simplifies hsimp, hfin⟩
  · have hsub := hrun times
    rw [List.nil_append] at hsub
    rw [Attempt.run_bind_of_error hsub]
    exact ⟨hs', herr, fun _ h => by cases h⟩

/-- A name that stands for a number is worth that number. -/
theorem worth_of_number {t : Text} {x : Float} (ht : vars.value t = .ok (.number x))
    (hx : x.isFinite = true) : Worth vars t x := by
  refine ⟨hx, fun y => ⟨fun hy => ?_, ?_⟩, fun err herr => ?_⟩
  · cases hy with
    | number h =>
      rw [ht] at h
      cases h
      rfl
    | formula h =>
      rw [ht] at h
      cases h
  · rintro rfl
    exact .number ht
  · cases herr with
    | formula h =>
      rw [ht] at h
      cases h

/-- A name that stands for a formula is worth what the tree of the formula has for a value. -/
theorem worth_of_formula {t f : Text} (ht : vars.value t = .ok (.formula f)) (he : e.Spells f)
    {x : Float} (hx : x.isFinite = true) (h : Agrees vars e (.ok x)) : Worth vars t x := by
  refine ⟨hx, fun y => ⟨fun hy => ?_, ?_⟩, fun err herr => ?_⟩
  · cases hy with
    | number h' =>
      rw [ht] at h'
      cases h'
    | formula h' he' hy =>
      rw [ht] at h'
      cases h'
      rw [he'.unique he] at hy
      rw [(h.1 _).1 hy]
  · rintro rfl
    exact .formula ht he ((h.1 x).2 rfl)
  · cases herr with
    | formula h' he' herr =>
      rw [ht] at h'
      cases h'
      rw [he'.unique he] at herr
      exact h.2 err herr

theorem agrees_name_error {t f : Text} (ht : vars.value t = .ok (.formula f)) (he : e.Spells f)
    {err : EvalError} (h : Agrees vars e (.error err)) : Agrees vars (.name t) (.error err) := by
  refine ⟨fun y hy => ?_, ?_⟩
  · cases hy with
    | number h' =>
      rw [ht] at h'
      cases h'
    | formula h' he' hy =>
      rw [ht] at h'
      cases h'
      rw [he'.unique he] at hy
      exact h.1 _ hy
  · exact .formula ht he h.2

theorem Cache.Truthful.insert {cache : Cache} (h : cache.Truthful vars) {t : Text} {x : Float}
    (hx : Worth vars t x) : Cache.Truthful vars (cache.insert t x) := by
  intro t' y hy
  rw [Table.get?_insert_eq] at hy
  split at hy
  · rename_i heq
    cases hy
    rw [heq]
    exact hx
  · exact h t' y hy

/-- **Looking a name up ends as the name says**, if evaluating its formula ends as the formula
does. -/
theorem finds_lookUp {evaluate : List Text → Text → EvalM Float} {pending : List Text} {t : Text}
    (hpending : t ∉ pending) (depth : Nat)
    (h : (∃ x, vars.value t = .ok (.number x) ∧ x.isFinite = true) ∨
      ∃ f e, vars.value t = .ok (.formula f) ∧ Expr.Spells e f ∧
        ∀ s : Session, s.cache.Truthful vars →
          Settled vars e ((evaluate (pending ++ [t]) f).run s)) :
    Finds vars (lookUp vars evaluate pending depth) t := by
  intro s hs
  cases hcached : s.cache.get? t with
  | some x =>
    obtain ⟨value, hvalue⟩ : ∃ value, vars.value t = .ok value := by
      rcases h with ⟨x, h, -⟩ | ⟨f, e, h, -⟩
      · exact ⟨_, h⟩
      · exact ⟨_, h⟩
    rw [run_lookUp_cached hvalue hpending hcached]
    refine ⟨hs, fun y hy => ?_, fun _ h => by cases h⟩
    cases hy
    exact hs t x hcached
  | none =>
    rcases h with ⟨x, hvalue, hx⟩ | ⟨f, e, hvalue, he, h⟩
    · rw [run_lookUp_number hvalue hpending hcached, if_pos hx]
      refine ⟨hs, fun y hy => ?_, fun _ h => by cases h⟩
      cases hy
      exact worth_of_number hvalue hx
    · rw [run_lookUp_formula hvalue hpending hcached, resolveFormula, Attempt.run_bind]
      have hsettled := h s hs
      revert hsettled
      rcases (evaluate (pending ++ [t]) f).run s with ⟨err | x, s₁⟩
      · intro hsettled
        refine ⟨hsettled.truthful, fun _ h => (by cases h), fun err' herr => ?_⟩
        cases herr
        exact agrees_name_error hvalue he hsettled.agrees
      · intro hsettled
        have hx := worth_of_formula hvalue he (hsettled.isFinite x rfl) hsettled.agrees
        refine ⟨hsettled.truthful.insert hx, fun y hy => ?_, fun _ h => by cases h⟩
        cases hy
        exact hx

/-- An evaluation ends as its tree says if those of the formulas of its names do. -/
theorem settled_evaluateAt_succ (vars : Variables) (limit levels : Nat) {e : Expr} {t : Text}
    (ht : e.Spells t) (hready : Ready vars levels e) {pending : List Text}
    (hpending : ∀ t ∈ e.names, t ∉ pending)
    (hformulas : ∀ t ∈ e.names, ∀ f, vars.value t = .ok (.formula f) → ∀ e' : Expr, e'.Spells f →
      ∀ s : Session, s.cache.Truthful vars →
        Settled vars e' ((evaluateAt vars limit levels (pending ++ [t]) f).run s))
    {s : Session} (hs : s.cache.Truthful vars) :
    Settled vars e ((evaluateAt vars limit (levels + 1) pending t).run s) := by
  rw [evaluateAt_succ]
  have hnesting := hready.nesting _ _ (.refl e)
  refine settled_evaluateUsing limit ht (hready.inRange _ _ (.refl e)) (by omega)
    (fun t ht => finds_lookUp (hpending t ht) _ ?_) hs
  rcases hready.declared _ _ (.refl e) t ht with h | ⟨f, hvalue, hf⟩
  · exact .inl h
  · obtain ⟨e', he'⟩ := hf.exists_spells
    exact .inr ⟨f, e', hvalue, he', hformulas t ht f hvalue e' he'⟩

/-- **Evaluating a formula that can be evaluated ends as its tree says.** -/
theorem settled_evaluateAt (vars : Variables) (limit levels : Nat) {e : Expr} {t : Text}
    (ht : e.Spells t) (hready : Ready vars levels e) {pending : List Text}
    (hpending : ∀ depth e', Reaches vars depth e e' → ∀ t ∈ e'.names, t ∉ pending) {s : Session}
    (hs : s.cache.Truthful vars) :
    Settled vars e ((evaluateAt vars limit (levels + 1) pending t).run s) := by
  induction levels generalizing e t pending s with
  | zero =>
    refine settled_evaluateAt_succ vars limit 0 ht hready (hpending _ _ (.refl e)) ?_ hs
    intro t ht f hvalue e' he'
    exact absurd (hready.formula ht hvalue he').1 (Nat.lt_irrefl 0)
  | succ levels ih =>
    refine settled_evaluateAt_succ vars limit _ ht hready (hpending _ _ (.refl e)) ?_ hs
    intro t ht f hvalue e' he' s hs
    refine ih he' (hready.formula ht hvalue he').2 (fun depth e'' h t' ht' hmem => ?_) hs
    rcases List.mem_append.1 hmem with hmem | hmem
    · exact hpending _ _ ((Reaches.single ht hvalue he').trans h) t' ht' hmem
    · rw [List.mem_singleton.1 hmem] at ht'
      exact hready.not_mem_names ht hvalue he' h ht'

end Formulas

/-! ## Evaluating equations -/

/-- **Evaluating an equation is working out its syntax tree.**  Every equation has one tree, and if
its tree can be evaluated, it has a value exactly if nothing in the tree fails, and then that of the
tree; otherwise it fails like some operation of the tree. -/
theorem evaluateFresh_iff_denotes (vars : Variables) (options : EvalOptions) {t : Text}
    (ht : IsFormula t) :
    (∃! e : Expr, e.Spells t) ∧ ∀ e : Expr, e.Spells t → Ready vars options.maxDepth e →
      (∀ x, evaluateFresh vars options t = .ok x ↔ Denotes vars e x) ∧
      (∀ err, evaluateFresh vars options t = .error err → Fails vars e err) ∧
      ((∃ err, Fails vars e err) ↔ ∃ err, evaluateFresh vars options t = .error err) := by
  have hunique : ∃! e : Expr, e.Spells t :=
    existsUnique_of_exists_of_unique ht.exists_spells fun _ _ => Spells.unique
  refine ⟨hunique, fun e he hready => ?_⟩
  have hpending : ∀ depth e', Reaches vars depth e e' → ∀ t ∈ e'.names, t ∉ ([] : List Text) :=
    fun _ _ _ _ _ => List.not_mem_nil
  have hempty : Cache.Truthful vars (Session.cache {}) := fun _ _ h => by cases h
  have h := (settled_evaluateAt vars options.maxDepth options.maxDepth he hready hpending
    hempty).agrees
  change Agrees vars e (evaluateFresh vars options t) at h
  revert h
  cases evaluateFresh vars options t with
  | ok x =>
    rintro ⟨hvalue, hfails⟩
    refine ⟨fun y => ⟨fun hy => ?_, fun hy => ?_⟩, fun _ h => (by cases h), iff_of_false ?_ ?_⟩
    · cases hy
      exact (hvalue x).2 rfl
    · rw [(hvalue y).1 hy]
    · rintro ⟨err, herr⟩
      exact hfails err herr
    · rintro ⟨err, herr⟩
      cases herr
  | error err =>
    rintro ⟨hvalue, hfails⟩
    refine ⟨fun y => iff_of_false (fun h => by cases h) (hvalue y), fun err' herr => ?_,
      iff_of_true ⟨err, hfails⟩ ⟨err, rfl⟩⟩
    cases herr
    exact hfails

/-- The tree of `9-(x-5)*2`. -/
def differenceTree : Expr :=
  .operation (.literal ⟨false, ['9'], []⟩) [] .subtract []
    (.operation (.group [] (.operation (.name ['x']) [] .subtract []
      (.literal ⟨false, ['5'], []⟩)) []) [] .multiply [] (.literal ⟨false, ['2'], []⟩))

/-- The table in which `x` is a formula, of one digit. -/
def threeTable : Variables := .ofList [(['x'], .ofFormula ['3'])]

/-- The tree of a text of one digit is its numeral. -/
theorem eq_literal_of_spells_digit {e : Expr} {c : Char} (hc : c.isDigit = true)
    (h : e.Spells [c]) : e = .literal ⟨false, [c], []⟩ :=
  h.unique ⟨.literal (Numeral.wellFormed_digit hc), [], [], isSpace_nil, isSpace_nil, rfl⟩

theorem ready_differenceTree : Ready threeTable 100 differenceTree := by
  have hvalue : threeTable.value ['x'] = .ok (.formula ['3']) := rfl
  have hnames : differenceTree.names = [['x']] := rfl
  have hreach : ∀ depth e e', Reaches threeTable depth e e' → e = differenceTree →
      (depth = 0 ∧ e' = differenceTree) ∨ depth = 1 ∧ e' = .literal ⟨false, ['3'], []⟩ := by
    intro depth e e' h heq
    induction h with
    | refl => exact .inl ⟨rfl, heq⟩
    | step _ ht hf he ih =>
      rcases ih heq with ⟨rfl, rfl⟩ | ⟨rfl, rfl⟩
      · rw [hnames, List.mem_singleton] at ht
        rw [ht, hvalue] at hf
        cases hf
        exact .inr ⟨rfl, eq_literal_of_spells_digit (by decide) he⟩
      · cases ht
  refine ⟨fun depth e' h t ht => ?_, fun depth e' h => ?_, fun depth e' h => ?_⟩
  · rcases hreach depth _ e' h rfl with ⟨-, rfl⟩ | ⟨-, rfl⟩
    · rw [hnames, List.mem_singleton] at ht
      rw [ht]
      refine .inr ⟨['3'], hvalue, [], ['3'], [], isSpace_nil, ?_, isSpace_nil, rfl⟩
      exact .operand (.numeral (Numeral.wellFormed_digit (by decide)))
    · cases ht
  · rcases hreach depth _ e' h rfl with ⟨-, rfl⟩ | ⟨-, rfl⟩
    · exact ⟨Numeral.inRange_digit (by decide), ⟨trivial, Numeral.inRange_digit (by decide)⟩,
        Numeral.inRange_digit (by decide)⟩
    · exact Numeral.inRange_digit (by decide)
  · rcases hreach depth _ e' h rfl with ⟨rfl, rfl⟩ | ⟨rfl, rfl⟩ <;> decide

theorem wellFormed_differenceTree : differenceTree.WellFormed := by
  have hdigit : ∀ {c : Char}, c.isDigit = true → (Expr.literal ⟨false, [c], []⟩).WellFormed :=
    fun hc => .literal (Numeral.wellFormed_digit hc)
  have hname : (Expr.name ['x']).WellFormed := .name ⟨'x', [], rfl, by decide, nofun⟩
  have hgroup : (Expr.group [] (.operation (.name ['x']) [] .subtract []
      (.literal ⟨false, ['5'], []⟩)) []).WellFormed :=
    .group isSpace_nil (.operation hname isSpace_nil isSpace_nil (hdigit (by decide)) (by decide)
      (by decide)) isSpace_nil
  exact .operation (hdigit (by decide)) isSpace_nil isSpace_nil
    (.operation hgroup isSpace_nil isSpace_nil (hdigit (by decide)) (by decide) (by decide))
    (by decide) (by decide)

/-- In `9-(x-5)*2` the product of the negative difference is taken before the subtraction. -/
theorem denotes_differenceTree :
    IsFormula differenceTree.text ∧ differenceTree.Spells differenceTree.text ∧
      Ready threeTable 100 differenceTree ∧ Denotes threeTable differenceTree 13 := by
  have hspells : differenceTree.Spells differenceTree.text :=
    ⟨wellFormed_differenceTree, [], [], isSpace_nil, isSpace_nil, (List.append_nil _).symm⟩
  have hformula : IsFormula differenceTree.text :=
    ⟨[], _, [], isSpace_nil, isEquation_iff.2 ⟨_, wellFormed_differenceTree, rfl⟩, isSpace_nil,
      (List.append_nil _).symm⟩
  have hvalue : evaluateFresh threeTable {} differenceTree.text = .ok 13 :=
    Binary.eq_ok_of_toBits (by decide +kernel)
  have h := (evaluateFresh_iff_denotes threeTable {} hformula).2 differenceTree hspells
    ready_differenceTree
  exact ⟨hformula, hspells, ready_differenceTree, (h.1 13).1 hvalue⟩

end EquationFigure
