import EquationFigure.Proofs.Equation.Canonical
import EquationFigure.Proofs.Equation.Parentheses

/-!
# Numbers and formulas that say the same

A variable with a number is found without any evaluation and never gets into the cache; if its value
is the text of the number instead, that is evaluated as a formula, one level deeper, and remembered.
What is put in for the name is the same text either way, so everything else is the same as well, up
to the formulas that are evaluated by the way and the errors they fail with.

* `Seeded vars vars' name x` — where the one table has the number `x`, the other one has its text;
  `Cache.Seeded` is how the caches of evaluations over the two are related.
* `lookUp_seeded_self`, `substituteWithin_sim_of_texts` — the name is found with values that are
  written alike, and that is enough for putting them in.
* `evaluateAt_seeded` — evaluations over the two tables end alike, except that the one over the
  formula may run out of levels.
-/

set_option autoImplicit false

namespace EquationFigure

open Text EvalM

/-! ## Putting in values that are written alike -/

section Substitution

variable {vars vars' : Variables} {r : Cache → Cache → Prop} {stops₀ stops₁ : EvalError → Prop}
  {value₀ value₁ : Text → EvalM Float}

/-- **Values that are written alike are put in alike**, also over different tables if these report
the same names as undefined in the same way. -/
theorem substituteWithin_sim_of_texts (hundefined : vars'.undefined = vars.undefined)
    (h : ∀ name, Attempt.Sim (OnCaches r) stops₀ stops₁ (numberText <$> value₀ name)
      (numberText <$> value₁ name)) (depth times : Nat) (t : Text) :
    Attempt.Sim (OnCaches r) stops₀ stops₁ (substituteWithin vars value₀ depth times t)
      (substituteWithin vars' value₁ depth times t) := by
  induction times generalizing t with
  | zero =>
    rw [substituteWithin.eq_def, substituteWithin.eq_def vars']
    split
    · exact Attempt.sim_pure _
    · exact Attempt.sim_fail _
  | succ times ih =>
    rw [substituteWithin.eq_def, substituteWithin.eq_def vars', hundefined]
    split
    · exact Attempt.sim_pure _
    · refine Attempt.sim_bind_of_map (h _) fun x y hxy => ?_
      dsimp only
      rw [← hxy]
      split
      · exact Attempt.sim_fail _
      · exact Attempt.sim_bind (sim_record _ _) fun _ => ih _

theorem evaluateUsing_sim_of_texts (hundefined : vars'.undefined = vars.undefined)
    (h : ∀ name, Attempt.Sim (OnCaches r) stops₀ stops₁ (numberText <$> value₀ name)
      (numberText <$> value₁ name)) (limit levels : Nat) (equation : Text) :
    Attempt.Sim (OnCaches r) stops₀ stops₁ (evaluateUsing vars value₀ limit levels equation)
      (evaluateUsing vars' value₁ limit levels equation) :=
  Attempt.sim_bind (substituteWithin_sim_of_texts hundefined h _ _ _) fun t =>
    (quiet_resolve limit levels t).sim

end Substitution

/-! ## The text of a number as an equation -/

section NumberText

variable {x : Float}

theorem numberText_unsignedZero (x : Float) : numberText (unsignedZero x) = numberText x := by
  cases hx : x == 0 with
  | true =>
    rw [unsignedZero_of_beq hx, numberText_of_beq hx, numberText_of_beq (by decide +kernel)]
  | false => rw [unsignedZero_of_not_beq hx]

theorem isBlank_of_isNumberPart {c : Char} (h : isNumberPart c = true) : isBlank c = false := by
  rw [isNumberPart, Bool.or_eq_true, beq_iff_eq] at h
  rcases h with hpart | rfl
  · exact isBlank_of_isNumeralPart hpart
  · decide

theorem equationBody_numberText (hx : x.isFinite = true) :
    equationBody (numberText x) = numberText x := by
  have hparts := isNumberPart_numberText hx
  exact equationBody_of_headNot
    (headNot_of_forall fun c hc => isBlank_of_isNumberPart (hparts c hc))
    (headNot_of_forall fun c hc => beq_of_kind (hparts c hc) (by decide))

/-- **The text of a number evaluates to the number**, but for the sign of a zero, as long as there
is a level left for it. -/
theorem run_evaluateAt_numberText (hx : x.isFinite = true) (vars : Variables) (limit levels : Nat)
    (pending : List Text) (s : Session) :
    ((evaluateAt vars limit (levels + 1) pending (numberText x)).run s).1 = .ok (unsignedZero x) ∧
      ((evaluateAt vars limit (levels + 1) pending (numberText x)).run s).2.cache = s.cache := by
  have hquiet := quiet_resolve limit levels (numberText x)
  have hout : (resolve limit levels (numberText x)).outcome = .ok (unsignedZero x) := by
    refine outcome_resolve (count_eq_of_parenFree (parenFree_numberText x)) ?_
    rw [outcome_resolveGroups_of_parenFree (parenFree_numberText x),
      outcome_reduce_of_none (nextOperation_of_literal? (literal?_numberText hx)),
      readValue_numberText hx]
    rfl
  rw [evaluateAt_of_nameless (nameless_numberText hx), equationBody_numberText hx]
  exact ⟨(hquiet.outcome s).trans hout, hquiet.cache s⟩

end NumberText

/-! ## Two tables -/

/-- Where the first table has a number under the name, the second one has the text of the number. -/
structure Seeded (vars vars' : Variables) (name : Text) (x : Float) : Prop where
  /-- The number is one. -/
  finite : x.isFinite = true
  /-- Names without a value are reported alike. -/
  undefined : vars'.undefined = vars.undefined
  /-- All other names have the same values. -/
  value_of_ne : ∀ other, other ≠ name → vars'.value other = vars.value other
  /-- The name is switched off in both tables or in none. -/
  value : (∃ e, vars.value name = .error e ∧ vars'.value name = .error e) ∨
    vars.value name = .ok (.number x) ∧ vars'.value name = .ok (.formula (numberText x))

/-- The two caches have the same values, except that only the second one may have one for the name,
and that is written like the number. -/
structure Cache.Seeded (name : Text) (x : Float) (cache cache' : Cache) : Prop where
  /-- A number is not cached. -/
  none : cache.get? name = none
  /-- Other names have the same values. -/
  of_ne : ∀ other, other ≠ name → cache'.get? other = cache.get? other
  /-- The value of the formula is written like the number. -/
  text : ∀ y, cache'.get? name = some y → numberText y = numberText x

section Seeded

variable {vars vars' : Variables} {name other : Text} {x y : Float} {cache cache' : Cache}

theorem Cache.Seeded.insert (h : Cache.Seeded name x cache cache') (hother : other ≠ name)
    (y : Float) : Cache.Seeded name x (cache.insert other y) (cache'.insert other y) := by
  refine ⟨?_, fun n hn => ?_, fun z hz => h.text z ?_⟩
  · rw [Table.get?_insert_of_ne _ hother.symm, h.none]
  · rw [Table.get?_insert_eq, Table.get?_insert_eq, h.of_ne n hn]
  · rwa [Table.get?_insert_of_ne _ hother.symm] at hz

theorem Cache.Seeded.insert_right (h : Cache.Seeded name x cache cache')
    (hy : numberText y = numberText x) : Cache.Seeded name x cache (cache'.insert name y) := by
  refine ⟨h.none, fun n hn => ?_, fun z hz => ?_⟩
  · rw [Table.get?_insert_of_ne _ hn, h.of_ne n hn]
  · rw [Table.get?_insert_self] at hz
    cases hz
    exact hy

/-- Two attempts at evaluating, the first one over a number and the second one over its text, of
which only the second may run out of levels. -/
def SeededSim (name : Text) (x : Float) (limit : Nat) {α : Type} (e e' : EvalM α) : Prop :=
  Attempt.Sim (OnCaches (Cache.Seeded name x)) (fun _ => False) (fun e => e = .depthExceeded limit)
    e e'

/-- Names other than the one with the number are looked up alike if formulas are evaluated alike. -/
theorem lookUp_seeded_of_ne (h : Seeded vars vars' name x) (hother : other ≠ name) {limit : Nat}
    {evaluate evaluate' : List Text → Text → EvalM Float} {pending : List Text}
    (heval : ∀ f, SeededSim name x limit (evaluate (pending ++ [other]) f)
      (evaluate' (pending ++ [other]) f)) (depth : Nat) :
    SeededSim name x limit (lookUp vars evaluate pending depth other)
      (lookUp vars' evaluate' pending depth other) := by
  refine lookUp_sim_of (h.value_of_ne other hother) (fun _ _ hs => hs.of_ne other hother)
    fun f _ => ?_
  exact resolveFormula_sim (heval f) fun y _ _ hs => hs.insert hother y

/-- **The name with the number is found with values that are written alike.** -/
theorem lookUp_seeded_self (h : Seeded vars vars' name x) (limit levels : Nat)
    (evaluate : List Text → Text → EvalM Float) (pending : List Text) (depth : Nat) :
    SeededSim name x limit (numberText <$> lookUp vars evaluate pending depth name)
      (numberText <$> lookUp vars' (evaluateAt vars' limit levels) pending depth name) := by
  rcases h.value with ⟨e, hvalue, hvalue'⟩ | ⟨hvalue, hvalue'⟩
  · rw [lookUp_of_error hvalue, lookUp_of_error hvalue']
    exact (Attempt.sim_fail e).map _
  by_cases hp : name ∈ pending
  · rw [lookUp_of_pending hvalue hp, lookUp_of_pending hvalue' hp]
    exact (Attempt.sim_fail _).map _
  intro s s' hs
  rw [Attempt.run_map, Attempt.run_map, run_lookUp_number hvalue hp hs.none, if_pos h.finite]
  cases hcached : s'.cache.get? name with
  | some y =>
    rw [run_lookUp_cached hvalue' hp hcached]
    exact .inl ⟨congrArg Except.ok (hs.text y hcached).symm, hs⟩
  | none =>
    rw [run_lookUp_formula hvalue' hp hcached]
    cases levels with
    | zero => exact .inr (.inr ⟨_, rfl, rfl⟩)
    | succ levels =>
      obtain ⟨hout, hcache⟩ :=
        run_evaluateAt_numberText h.finite vars' limit levels (pending ++ [name]) s'
      rw [resolveFormula, Attempt.run_bind]
      revert hout hcache
      rcases (evaluateAt vars' limit (levels + 1) (pending ++ [name]) (numberText x)).run s'
        with ⟨r, s₁⟩
      rintro rfl (hcache : s₁.cache = s'.cache)
      refine .inl ⟨congrArg Except.ok (numberText_unsignedZero x).symm, ?_⟩
      change Cache.Seeded name x s.cache (s₁.cache.insert name (unsignedZero x))
      rw [hcache]
      exact hs.insert_right (numberText_unsignedZero x)

/-- **Evaluations over a number and over its text end alike**, unless the second runs out of
levels. -/
theorem evaluateAt_seeded (h : Seeded vars vars' name x) (limit levels : Nat)
    (pending : List Text) (equation : Text) :
    SeededSim name x limit (evaluateAt vars limit levels pending equation)
      (evaluateAt vars' limit levels pending equation) := by
  induction levels generalizing pending equation with
  | zero => exact Attempt.sim_fail _
  | succ levels ih =>
    rw [evaluateAt_succ, evaluateAt_succ]
    refine evaluateUsing_sim_of_texts h.undefined (fun n => ?_) limit levels equation
    by_cases hn : n = name
    · subst hn
      exact lookUp_seeded_self h limit levels _ pending _
    · exact (lookUp_seeded_of_ne h hn (fun f => ih _ f) _).map numberText

end Seeded

/-! ## A number declared as a formula -/

section Insert

variable {vars : Variables} {name : Text} {entry entry' : Variable} {x : Float}

theorem Table.names_insert_of_mem {α : Type} {table : Table α} {name : Text}
    (h : name ∈ table.names) (value : α) : (table.insert name value).names = table.names := by
  have hput : ∀ entries : List (Text × α), name ∈ entries.map (·.1) →
      (Table.put name value entries).map (·.1) = entries.map (·.1) := by
    intro entries
    induction entries with
    | nil => exact fun h => nomatch h
    | cons entry rest ih =>
      intro hmem
      rw [Table.put.eq_def]
      dsimp only
      split
      · rename_i heq
        rw [List.map_cons, List.map_cons, heq]
      · rename_i hne
        rw [List.map_cons, List.map_cons,
          ih ((List.mem_cons.1 hmem).resolve_left fun heq => hne heq.symm)]
  exact hput table.entries h

theorem seeded_insert (hentry : vars.get? name = some entry)
    (hnumber : entry.value? = some (.number x)) (hx : x.isFinite = true)
    (hformula : entry'.value? = some (.formula (numberText x)))
    (hdisabled : entry'.disabled = entry.disabled) :
    Seeded vars (vars.insert name entry') name x := by
  have hmem : name ∈ vars.names := by
    by_contra hmem
    rw [Table.get?_eq_none_iff.2 hmem] at hentry
    cases hentry
  have hundefined : Variables.undefined (vars.insert name entry') = vars.undefined := by
    funext other
    rw [Variables.undefined, Variables.undefined, Variables.similarName?, Variables.similarName?,
      Table.names_insert_of_mem hmem]
  refine ⟨hx, hundefined, fun other hother => ?_, ?_⟩
  · rw [Variables.value, Variables.value, Table.get?_insert_of_ne _ hother, hundefined]
  · rw [Variables.value, Variables.value, Table.get?_insert_self, hentry]
    dsimp only
    rw [hnumber, hformula, hdisabled]
    dsimp only
    split
    · exact .inl ⟨_, rfl, rfl⟩
    · exact .inr ⟨rfl, rfl⟩

/-- **A number may as well be declared as a formula.**

If a variable has a number and gets the text of the number as a formula instead, every equation has
the same value or fails with the same error, also while other names are being evaluated.  Only that
the formula takes a level of nesting, so the levels may run out. -/
theorem evaluate_seeded (hentry : vars.get? name = some entry)
    (hnumber : entry.value? = some (.number x)) (hx : x.isFinite = true)
    (hformula : entry'.value? = some (.formula (numberText x)))
    (hdisabled : entry'.disabled = entry.disabled)
    (options : EvalOptions) (pending : List Text) (equation : Text) :
    (evaluate (vars.insert name entry') options pending equation).outcome =
        (evaluate vars options pending equation).outcome ∨
      (evaluate (vars.insert name entry') options pending equation).outcome =
        .error (.depthExceeded options.maxDepth) := by
  have h := seeded_insert hentry hnumber hx hformula hdisabled
  have hstart : OnCaches (Cache.Seeded name x) {} {} :=
    ⟨rfl, fun _ _ => rfl, fun _ hy => nomatch hy⟩
  rcases evaluateAt_seeded h options.maxDepth (options.maxDepth + 1) pending equation {} {} hstart
    with ⟨heq, -⟩ | ⟨e, -, hfalse⟩ | ⟨e, he, rfl⟩
  · exact .inl heq.symm
  · exact hfalse.elim
  · exact .inr he

end Insert

/-- A negative zero and its text, which has no sign, in a formula of another variable. -/
theorem evaluate_seeded_negative_zero :
    let vars : Variables := .ofList [(['x'], .ofNumber (-0.0)), (['y'], .ofFormula ['1', '-', 'x'])]
    let vars' := vars.insert ['x'] (.ofFormula ['0'])
    (evaluate vars {} [] ['y', '+', 'x']).outcome = .ok 1 ∧
      ((evaluate vars' {} [] ['y', '+', 'x']).outcome = .ok 1 ∨
        (evaluate vars' {} [] ['y', '+', 'x']).outcome = .error (.depthExceeded 100)) := by
  intro vars vars'
  have hvalue : (evaluate vars {} [] ['y', '+', 'x']).outcome = .ok 1 :=
    Binary.eq_ok_of_toBits (by decide +kernel)
  have htext : numberText (-0.0) = ['0'] := by decide +kernel
  have h := @evaluate_seeded vars ['x'] (.ofNumber (-0.0)) (.ofFormula ['0']) (-0.0) rfl rfl
    (by decide +kernel) (by rw [htext]; rfl) rfl {} [] ['y', '+', 'x']
  rw [hvalue] at h
  exact ⟨hvalue, h⟩

end EquationFigure
