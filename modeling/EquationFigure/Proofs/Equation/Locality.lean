import EquationFigure.Proofs.Equation.Cycles

/-!
# Unrelated variables make no difference

An evaluation asks the table for the names to which its equation leads and for nothing else, except
that the report of an undefined name looks through the whole table for a similar one.  So two tables
that agree on those names give the same values and the same errors but for that hint, and they leave
the same session behind, also where the evaluation fails half-way.

* `Variables.declared?` — what counts of an entry of the table.
* `EvalError.unhinted`, `EvalM.SameButHint` — errors and evaluations up to the hint;
  `EvalM.SameButHint.bind` is the law for one thing after another.
* `sameButHint_lookUp`, `sameButHint_substituteWithin`, `sameButHint_evaluateUsing` — each stage, in
  terms of the names that it comes to.
* `sameButHint_evaluateAt` — so it is for evaluations over tables that agree.
* `evaluate_insert` — declaring a name to which nothing leads changes nothing but hints.
-/

set_option autoImplicit false

namespace EquationFigure

open Text EvalM

/-- What the table has under the name, if that has a value: the value, and whether it is switched
off. -/
def Variables.declared? (vars : Variables) (name : Text) : Option (VariableValue × Bool) :=
  (vars.get? name).bind fun entry => entry.value?.map fun value => (value, entry.disabled)

/-- The error without the name that is suggested in place of an undefined one. -/
def EvalError.unhinted : EvalError → EvalError
  | undefinedVariable name _ => undefinedVariable name none
  | e => e

/-! ## Evaluations up to hints -/

/-- From a session with the invariant, the two leave the same session and have the same outcome,
except for the hint of an error. -/
def EvalM.SameButHint {α : Type} (I : Session → Prop) (x y : EvalM α) : Prop :=
  ∀ s, I s → (x.run s).2 = (y.run s).2 ∧
    (x.run s).1.mapError EvalError.unhinted = (y.run s).1.mapError EvalError.unhinted

section SameButHint

variable {α β : Type} {I : Session → Prop} {good : α → Prop}

theorem EvalM.SameButHint.refl (x : EvalM α) : SameButHint I x x := fun _ _ => ⟨rfl, rfl⟩

theorem EvalM.SameButHint.of_run_eq {x y : EvalM α} (h : ∀ s, I s → x.run s = y.run s) :
    SameButHint I x y := fun s hs => by rw [h s hs]; exact ⟨rfl, rfl⟩

theorem sameButHint_fail {e e' : EvalError} (h : e.unhinted = e'.unhinted) :
    SameButHint (α := α) I (.fail e) (.fail e') := fun _ _ => ⟨rfl, congrArg Except.error h⟩

/-- What is done with the values of some work need only be alike on values that it ends with. -/
theorem EvalM.SameButHint.bind {x y : EvalM α} {f g : α → EvalM β} (h : SameButHint I x y)
    (hx : Attempt.Ends I good (fun _ => True) x)
    (hfg : ∀ a, good a → SameButHint I (f a) (g a)) : SameButHint I (x >>= f) (y >>= g) := by
  intro s hs
  have hsame := h s hs
  have hends := hx s hs
  rw [Attempt.run_bind, Attempt.run_bind]
  revert hsame hends
  rcases x.run s with ⟨r, s₁⟩
  rcases y.run s with ⟨r', s₁'⟩
  rintro ⟨rfl, hout⟩ ⟨hs₁, hgood, -⟩
  cases r with
  | error e =>
    cases r' with
    | error e' => exact ⟨rfl, congrArg Except.error (Except.error.inj hout)⟩
    | ok b => cases hout
  | ok a =>
    cases r' with
    | error e' => cases hout
    | ok b =>
      obtain rfl : a = b := Except.ok.inj hout
      exact hfg a (hgood a rfl) s₁ hs₁

end SameButHint

/-! ## The stages of an evaluation -/

section Stages

variable {vars vars' : Variables} {name : Text} {I : Session → Prop}

theorem unhinted_undefined (vars vars' : Variables) (name : Text) :
    (vars.undefined name).unhinted = (vars'.undefined name).unhinted := rfl

/-- Tables that have the same under the name answer alike. -/
theorem value_of_declared? (h : vars.declared? name = vars'.declared? name) :
    (vars.value name).mapError EvalError.unhinted =
      (vars'.value name).mapError EvalError.unhinted := by
  have hvalue : ∀ table : Variables, (table.value name).mapError EvalError.unhinted =
      match table.declared? name with
      | none => .error (.undefinedVariable name none)
      | some (value, disabled) =>
        if disabled then .error (.disabledVariable name) else .ok value := by
    intro table
    rw [Variables.value, Variables.declared?]
    cases table.get? name with
    | none => rfl
    | some entry =>
      dsimp only [Option.bind_some]
      cases entry.value? with
      | none => rfl
      | some value =>
        dsimp only [Option.map_some]
        cases entry.disabled <;> rfl
  rw [hvalue, hvalue, h]

/-- **Names are looked up alike** where the tables have the same, if formulas are evaluated
alike. -/
theorem sameButHint_lookUp {pending : List Text}
    {evaluate evaluate' : List Text → Text → EvalM Float}
    (hname : vars.declared? name = vars'.declared? name)
    (hends : ∀ f, Attempt.Ends I (HasValue (ValueOf vars) f) (fun _ => True)
      (evaluate (pending ++ [name]) f))
    (hformula : ∀ f, vars.value name = .ok (.formula f) →
      SameButHint I (evaluate (pending ++ [name]) f) (evaluate' (pending ++ [name]) f))
    (depth : Nat) :
    SameButHint I (lookUp vars evaluate pending depth name)
      (lookUp vars' evaluate' pending depth name) := by
  have hvalue := value_of_declared? hname
  cases h : vars.value name with
  | error e =>
    cases h' : vars'.value name with
    | error e' =>
      rw [h, h'] at hvalue
      rw [lookUp_of_error h, lookUp_of_error h']
      exact sameButHint_fail (Except.error.inj hvalue)
    | ok value =>
      rw [h, h'] at hvalue
      cases hvalue
  | ok value =>
    have h' : vars'.value name = .ok value := by
      rw [h] at hvalue
      cases h' : vars'.value name with
      | error e' =>
        rw [h'] at hvalue
        cases hvalue
      | ok value' =>
        rw [h'] at hvalue
        cases hvalue
        rfl
    intro s hs
    refine run_lookUp_cases₂ vars vars' evaluate evaluate' pending depth depth name s s
      (h'.trans h.symm) rfl (fun _ => ⟨rfl, rfl⟩) fun f hf _ _ => ?_
    exact (hformula f hf).bind (hends f) (fun _ _ => .refl _) s hs

/-- **Values are put in alike** if the names that the loop comes to are looked up alike: those of
the text, and `inf` because of an infinity. -/
theorem sameButHint_substituteWithin {wanted : Text → Prop} {value : Text → Float → Prop}
    {find find' : Text → EvalM Float}
    (hI : ∀ s s' : Session, s'.cache = s.cache → I s → I s')
    (hnan : ∀ n x, value n x → x.isNaN = false)
    (hends : ∀ name, wanted name → Attempt.Ends I (value name) (fun _ => True) (find name))
    (hinf : ∀ name x, wanted name → value name x → x.isFinite = false → wanted infName)
    (hfind : ∀ name, wanted name → SameButHint I (find name) (find' name))
    (depth times : Nat) (t : Text) (ht : ∀ name ∈ names t, wanted name) :
    SameButHint I (substituteWithin vars find depth times t)
      (substituteWithin vars' find' depth times t) := by
  induction times generalizing t with
  | zero =>
    rw [substituteWithin.eq_def, substituteWithin.eq_def vars']
    split <;> exact .refl _
  | succ times ih =>
    rw [substituteWithin.eq_def, substituteWithin.eq_def vars']
    split
    · exact .refl _
    · rename_i before name after hfirst
      have hname : wanted name := ht name (names_of_some hfirst ▸ List.mem_cons_self)
      refine (hfind name hname).bind (hends name hname) fun x hx => ?_
      dsimp only
      split
      · exact sameButHint_fail (unhinted_undefined vars vars' name)
      · refine EvalM.SameButHint.bind (.refl _) ((quiet_record _).ends hI) fun _ _ => ?_
        exact ih _ (wanted_of_splice hfirst (hnan _ _ hx) (hinf name x hname hx) ht)

/-- **Equations are evaluated alike** if the names that are come to are looked up alike. -/
theorem sameButHint_evaluateUsing {wanted : Text → Prop} {value : Text → Float → Prop}
    {find find' : Text → EvalM Float}
    (hI : ∀ s s' : Session, s'.cache = s.cache → I s → I s')
    (hvalue : ∀ n x y, value n x → value n y → x = y) (hnan : ∀ n x, value n x → x.isNaN = false)
    (hends : ∀ name, wanted name → Attempt.Ends I (value name) (fun _ => True) (find name))
    (hinf : ∀ name x, wanted name → value name x → x.isFinite = false → wanted infName)
    (hfind : ∀ name, wanted name → SameButHint I (find name) (find' name))
    (limit levels : Nat) (t : Text) (ht : ∀ name ∈ names t, wanted name) :
    SameButHint I (evaluateUsing vars find limit levels t)
      (evaluateUsing vars' find' limit levels t) := by
  have hbody : ∀ name ∈ names (equationBody t), wanted name := names_equationBody t ▸ ht
  exact EvalM.SameButHint.bind
    (sameButHint_substituteWithin hI hnan hends hinf hfind _ _ _ hbody)
    (ends_substituteWithin_of hI hvalue hnan (fun name _ => hends name) hinf _ _ _ hbody)
    fun _ _ => .refl _

end Stages

/-! ## Evaluations over tables that agree -/

section Tables

variable {vars vars' : Variables} {t f name : Text}

/-- What a formula leads to, an equation leads to that refers to the name of the formula. -/
theorem LeadsTo.of_formula {other : Text} (hrefers : Refers vars t name)
    (hf : vars.value name = .ok (.formula f)) (h : LeadsTo vars f other) :
    LeadsTo vars t other := by
  obtain ⟨ns, t', hlinks, hother⟩ := h
  exact ⟨name :: ns, t', .cons hrefers hf hlinks, hother⟩

theorem Refers.leadsTo (h : Refers vars t name) : LeadsTo vars t name := ⟨[], t, .nil t, h⟩

/-- An equation leads to no name outside of a set that has `inf`, the names of the equation, and
with each name those of its formula. -/
theorem LeadsTo.mem_of_closed {closed : Text → Prop} (hinf : closed infName)
    (hformula : ∀ n, closed n → ∀ f, vars.value n = .ok (.formula f) → ∀ m ∈ names f, closed m)
    (ht : ∀ n ∈ names t, closed n) (h : LeadsTo vars t name) : closed name := by
  have hrefers : ∀ {u m}, (∀ n ∈ names u, closed n) → Refers vars u m → closed m := by
    rintro u m hu (hmem | ⟨rfl, -⟩)
    · exact hu m hmem
    · exact hinf
  obtain ⟨ns, t', hlinks, hname⟩ := h
  induction hlinks with
  | nil => exact hrefers ht hname
  | cons hfirst hf _ ih => exact ih (hformula _ (hrefers ht hfirst) _ hf) hname

/-- **Evaluations are alike over tables that agree on what the equation leads to.** -/
theorem sameButHint_evaluateAt (limit levels : Nat) (pending : List Text)
    (h : ∀ name, LeadsTo vars t name → vars.declared? name = vars'.declared? name) :
    SameButHint (Session.Valued vars) (evaluateAt vars limit levels pending t)
      (evaluateAt vars' limit levels pending t) := by
  induction levels generalizing pending t with
  | zero => exact .refl _
  | succ levels ih =>
    have hI := invariant_valued vars
    have hends : ∀ name, Attempt.Ends (Session.Valued vars) (ValueOf vars name) (fun _ => True)
        (lookUp vars (evaluateAt vars limit levels) pending (limit - levels) name) := fun name =>
      ends_lookUp hI (fun pending f => ends_evaluateAt vars limit levels pending f) _ _
        (remembers_valued name)
    have hfind : ∀ name, Refers vars t name → SameButHint (Session.Valued vars)
        (lookUp vars (evaluateAt vars limit levels) pending (limit - levels) name)
        (lookUp vars' (evaluateAt vars' limit levels) pending (limit - levels) name) := by
      intro name hrefers
      refine sameButHint_lookUp (h name hrefers.leadsTo)
        (fun f => ends_evaluateAt vars limit levels _ f) (fun f hf => ?_) _
      exact ih _ fun other hother => h other (hother.of_formula hrefers hf)
    rw [evaluateAt_succ, evaluateAt_succ]
    exact sameButHint_evaluateUsing hI.congr (fun _ _ _ hx hy => hx.unique hy)
      (fun _ _ hx => hx.isNaN) (fun name _ => hends name)
      (fun _ _ hrefers hx => hrefers.infName hx) hfind limit levels t fun _ => .inl

/-- **Evaluation is local.**  Two tables that agree on the names to which the equation leads give it
the same value or the same error, up to the name suggested in place of an undefined one, and leave
the same session behind.  What an equation leads to is what is written in it and in the formulas on
the way, unless something stands for an infinity: that is written `inf`, which is looked up like a
name of the formula. -/
theorem locality_spec (options : EvalOptions)
    (h : ∀ name, LeadsTo vars t name → vars.declared? name = vars'.declared? name) :
    ((evaluate vars options [] t).run {}).1.mapError EvalError.unhinted =
        ((evaluate vars' options [] t).run {}).1.mapError EvalError.unhinted ∧
      ((evaluate vars options [] t).run {}).2 = ((evaluate vars' options [] t).run {}).2 ∧
      ((∀ name x, ValueOf vars name x → x.isFinite = true) →
        ∀ t' name, Refers vars t' name ↔ name ∈ names t') := by
  obtain ⟨hsession, hout⟩ :=
    sameButHint_evaluateAt options.maxDepth (options.maxDepth + 1) [] h {} (valued_empty vars)
  exact ⟨hout, hsession, fun hfin _ _ => refers_iff hfin⟩

/-- **Declaring a name to which nothing leads changes nothing** but hints. -/
theorem evaluate_insert (options : EvalOptions) (hname : ¬ LeadsTo vars t name)
    (entry : Variable) :
    ((evaluate vars options [] t).run {}).2 =
        ((evaluate (vars.insert name entry) options [] t).run {}).2 ∧
      (evaluateFresh vars options t).mapError EvalError.unhinted =
        (evaluateFresh (vars.insert name entry) options t).mapError EvalError.unhinted := by
  refine sameButHint_evaluateAt options.maxDepth (options.maxDepth + 1) [] (fun other hother => ?_)
    {} (valued_empty vars)
  have hne : other ≠ name := by
    rintro rfl
    exact hname hother
  rw [Variables.declared?, Variables.declared?, Table.get?_insert_of_ne _ hne]

end Tables

/-- The table in which `a` has the formula `b` and `b` the formula `q + 1`, with a variable `Q` that
is called like `q` but for case. -/
def similarTable : Variables :=
  .ofList [(['a'], .ofFormula ['b']), (['b'], .ofFormula ['q', '+', '1']), (['Q'], .ofNumber 2)]

/-- The same with `Q` switched off and one more formula. -/
def editedTable : Variables :=
  .ofList [(['c'], .ofFormula ['a']), (['Q'], { disabled := true }),
    (['b'], .ofFormula ['q', '+', '1']), (['a'], .ofFormula ['b'])]

/-- The two tables agree on what `a` leads to, and the error is the same but for the hint. -/
theorem locality_similarTable :
    (∀ name, LeadsTo similarTable ['a'] name →
      similarTable.declared? name = editedTable.declared? name) ∧
    (evaluateFresh similarTable {} ['a']).mapError EvalError.unhinted =
      (evaluateFresh editedTable {} ['a']).mapError EvalError.unhinted ∧
    evaluateFresh similarTable {} ['a'] = .error (.undefinedVariable ['q'] (some ['Q'])) := by
  have ha : names ['a'] = [['a']] := names_singleton rfl rfl
  have hb : names ['b'] = [['b']] := names_singleton rfl rfl
  have hq : names ['q', '+', '1'] = [['q']] := names_singleton rfl rfl
  have hagree : ∀ name, LeadsTo similarTable ['a'] name →
      similarTable.declared? name = editedTable.declared? name := by
    intro name h
    have hmem : name ∈ [['a'], ['b'], ['q'], infName] := by
      refine LeadsTo.mem_of_closed (by simp) ?_ (by simp [ha]) h
      simp only [List.forall_mem_cons]
      refine ⟨fun f hf => ?_, fun f hf => ?_, fun f hf => ?_, fun f hf => ?_, List.forall_mem_nil _⟩
      · cases hf
        simp [hb]
      · cases hf
        simp [hq]
      · cases hf
      · cases hf
    simp only [List.mem_cons, List.not_mem_nil, or_false] at hmem
    rcases hmem with rfl | rfl | rfl | rfl <;> rfl
  exact ⟨hagree, (locality_spec {} hagree).1, by decide +kernel⟩

/-- The table in which the value of `y` is an infinity, though `x` is a number in range. -/
def beyondRangeTable : Variables :=
  .ofList [(['x'], .ofFormula ('1' :: List.replicate 308 '0')), (['y'], .ofFormula ['5', 'x'])]

/-- **Declaring a name that is written nowhere changes a value.**  The literals are in range, and
the two tables agree on `x` and `y`, which are all the names that are written. -/
theorem beyondRangeTable_not_local :
    evaluateFresh beyondRangeTable {} ['y'] = .error (.undefinedVariable infName none) ∧
      evaluateFresh (beyondRangeTable.insert infName (.ofNumber 5)) {} ['y'] = .ok 5 ∧
      (∃ written : List Text, (∀ name ∈ names ['y'], name ∈ written) ∧
        (∀ name ∈ written, ∀ f, beyondRangeTable.value name = .ok (.formula f) →
          ∀ other ∈ names f, other ∈ written) ∧
        ∀ name ∈ written, beyondRangeTable.get? name =
          (beyondRangeTable.insert infName (.ofNumber 5)).get? name) ∧
      Numeral.InRange ⟨false, '1' :: List.replicate 308 '0', []⟩ := by
  have hy : names ['y'] = [['y']] := names_singleton rfl rfl
  have hx : names ['5', 'x'] = [['x']] := names_singleton rfl rfl
  have hdigits : names ('1' :: List.replicate 308 '0') = [] := names_of_none (by decide +kernel)
  refine ⟨by decide +kernel, Binary.eq_ok_of_toBits (by decide +kernel),
    ⟨[['x'], ['y']], by simp [hy], ?_, ?_⟩, ?_⟩
  · simp only [List.forall_mem_cons]
    refine ⟨fun f hf => ?_, fun f hf => ?_, List.forall_mem_nil _⟩
    · cases hf
      rw [hdigits]
      exact List.forall_mem_nil _
    · cases hf
      simp [hx]
  · simp only [List.forall_mem_cons]
    exact ⟨rfl, rfl, List.forall_mem_nil _⟩
  · rw [Numeral.InRange]
    decide +kernel

end EquationFigure
