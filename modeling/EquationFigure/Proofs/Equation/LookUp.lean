import EquationFigure.Proofs.Equation.Stages

/-!
# Looking names up

What `lookUp` does in each of the cases it tells apart, and what it would find if formulas were not
evaluated.

* `Variables.value` — what is declared under a name, with the checks that need nothing but the
  table.
* `run_lookUp_cases` — the ways in which a name is looked up: it is refused, or found in the cache
  or in the table, or its formula is evaluated, by `resolveFormula`; `run_lookUp_cases₂` and
  `lookUp_sim_of` follow two such runs side by side.
* `lookUp_eq_error` — why a name is not found.
* `recalled vars cache` — the values that numbers and cached names have.
-/

set_option autoImplicit false

namespace EquationFigure

/-- What is declared under the name: it must have a value and be switched on. -/
def Variables.value (vars : Variables) (name : Text) : Except EvalError VariableValue :=
  match vars.get? name with
  | none => .error (vars.undefined name)
  | some entry =>
    match entry.value? with
    | none => .error (vars.undefined name)
    | some value => if entry.disabled then .error (.disabledVariable name) else .ok value

/-- What is to be done for a name with a value that is switched on and not being evaluated: the
cache is asked before anything is evaluated. -/
def supply (evaluate : List Text → Text → EvalM Float) (pending : List Text) (depth : Nat)
    (name : Text) (value : VariableValue) : EvalM Float := do
  match ← EvalM.cached? name with
  | some x => return x
  | none =>
    match value with
    | .number x => if x.isFinite then return x else .fail (.nonFinite name)
    | .formula formula =>
      let x ← evaluate (pending ++ [name]) formula
      EvalM.record (.resolvedFormula name x depth)
      EvalM.remember name x
      return x

/-- Evaluates the formula of a name and puts its value into the cache. -/
def resolveFormula (evaluate : List Text → Text → EvalM Float) (pending : List Text) (depth : Nat)
    (name formula : Text) : EvalM Float := do
  let x ← evaluate (pending ++ [name]) formula
  EvalM.record (.resolvedFormula name x depth)
  EvalM.remember name x
  return x

/-- The checks of `lookUp`, in their order. -/
theorem lookUp_eq (vars : Variables) (evaluate : List Text → Text → EvalM Float)
    (pending : List Text) (depth : Nat) (name : Text) :
    lookUp vars evaluate pending depth name =
      match vars.value name with
      | .error e => .fail e
      | .ok value =>
        if name ∈ pending then
          .fail (.cyclicDependency name (pending.dropWhile (· != name) ++ [name]))
        else supply evaluate pending depth name value := by
  rw [lookUp, Variables.value]
  cases vars.get? name with
  | none => rfl
  | some entry =>
    dsimp only
    cases entry.value? with
    | none => rfl
    | some value =>
      dsimp only
      cases entry.disabled with
      | true => rfl
      | false =>
        simp only [Bool.false_eq_true, if_false, List.contains_iff_mem]
        rfl

section LookUp

variable {vars : Variables} {evaluate : List Text → Text → EvalM Float} {pending : List Text}
  {depth : Nat} {name : Text}

theorem lookUp_of_error {e : EvalError} (h : vars.value name = .error e) :
    lookUp vars evaluate pending depth name = .fail e := by
  rw [lookUp_eq, h]

theorem lookUp_of_pending {value : VariableValue} (h : vars.value name = .ok value)
    (hp : name ∈ pending) :
    lookUp vars evaluate pending depth name =
      .fail (.cyclicDependency name (pending.dropWhile (· != name) ++ [name])) := by
  rw [lookUp_eq, h]
  exact if_pos hp

theorem lookUp_of_ok {value : VariableValue} (h : vars.value name = .ok value)
    (hp : name ∉ pending) :
    lookUp vars evaluate pending depth name = supply evaluate pending depth name value := by
  rw [lookUp_eq, h]
  exact if_neg hp

theorem run_lookUp_cached {value : VariableValue} (h : vars.value name = .ok value)
    (hp : name ∉ pending) {s : Session} {x : Float} (hc : s.cache.get? name = some x) :
    (lookUp vars evaluate pending depth name).run s = (.ok x, s) := by
  rw [lookUp_of_ok h hp, supply.eq_def, Attempt.run_bind, EvalM.cached?, Attempt.run_read, hc]
  rfl

theorem run_lookUp_number {x : Float} (h : vars.value name = .ok (.number x))
    (hp : name ∉ pending) {s : Session} (hc : s.cache.get? name = none) :
    (lookUp vars evaluate pending depth name).run s =
      (if x.isFinite then .ok x else .error (.nonFinite name), s) := by
  rw [lookUp_of_ok h hp, supply, Attempt.run_bind, EvalM.cached?, Attempt.run_read, hc]
  dsimp only
  split <;> rfl

theorem run_lookUp_formula {formula : Text} (h : vars.value name = .ok (.formula formula))
    (hp : name ∉ pending) {s : Session} (hc : s.cache.get? name = none) :
    (lookUp vars evaluate pending depth name).run s =
      (resolveFormula evaluate pending depth name formula).run s := by
  rw [lookUp_of_ok h hp, supply, Attempt.run_bind, EvalM.cached?, Attempt.run_read, hc]
  rfl

/-- The formula of a name with a cached value is not evaluated. -/
theorem run_lookUp_congr_of_cached {evaluate' : List Text → Text → EvalM Float} {s : Session}
    {x : Float} (h : s.cache.get? name = some x) :
    (lookUp vars evaluate pending depth name).run s =
      (lookUp vars evaluate' pending depth name).run s := by
  rw [lookUp_eq, lookUp_eq]
  cases vars.value name with
  | error e => rfl
  | ok value =>
    dsimp only
    split
    · rfl
    · simp [supply, Attempt.run_bind, EvalM.cached?, h]

/-- Names that were pending before make no difference, unless one of them is looked up. -/
theorem lookUp_append_of_notMem {earlier : List Text} (h : name ∉ earlier) :
    lookUp vars evaluate (earlier ++ pending) depth name =
      lookUp vars (fun pending formula => evaluate (earlier ++ pending) formula) pending depth
        name := by
  have hdrop : (earlier ++ pending).dropWhile (· != name) = pending.dropWhile (· != name) :=
    List.dropWhile_append_of_pos fun n hn => by simpa using ne_of_mem_of_not_mem hn h
  rw [lookUp_eq, lookUp_eq]
  simp only [List.mem_append, h, false_or, hdrop, supply, List.append_assoc]

/-- Where nothing usable is declared under a name, it is undefined or switched off. -/
theorem value_eq_error {e : EvalError} (h : vars.value name = .error e) :
    e = vars.undefined name ∨ e = .disabledVariable name := by
  rw [Variables.value] at h
  split at h
  · cases h
    exact .inl rfl
  · split at h
    · cases h
      exact .inl rfl
    · split at h
      · cases h
        exact .inr rfl
      · cases h

/-! ### The ways in which a name is looked up -/

/-- **What looking a name up comes to**: it is refused by the table or for being pending, or found
in the cache or in the table, and only if it is not cached, its formula is evaluated. -/
@[elab_as_elim]
theorem run_lookUp_cases (vars : Variables) (evaluate : List Text → Text → EvalM Float)
    (pending : List Text) (depth : Nat) (name : Text) (s : Session)
    {motive : Except EvalError Float × Session → Prop}
    (refused : ∀ e, vars.value name = .error e ∨ e = .nonFinite name → motive (.error e, s))
    (cycle : name ∈ pending →
      motive (.error (.cyclicDependency name (pending.dropWhile (· != name) ++ [name])), s))
    (cached : ∀ value x, vars.value name = .ok value → name ∉ pending →
      s.cache.get? name = some x → motive (.ok x, s))
    (number : ∀ x, vars.value name = .ok (.number x) → name ∉ pending → x.isFinite = true →
      motive (.ok x, s))
    (formula : ∀ f, vars.value name = .ok (.formula f) → name ∉ pending →
      s.cache.get? name = none → motive ((resolveFormula evaluate pending depth name f).run s)) :
    motive ((lookUp vars evaluate pending depth name).run s) := by
  cases hvalue : vars.value name with
  | error e =>
    rw [lookUp_of_error hvalue]
    exact refused e (.inl hvalue)
  | ok value =>
    by_cases hp : name ∈ pending
    · rw [lookUp_of_pending hvalue hp]
      exact cycle hp
    cases hcached : s.cache.get? name with
    | some x =>
      rw [run_lookUp_cached hvalue hp hcached]
      exact cached value x hvalue hp hcached
    | none =>
      cases value with
      | number x =>
        rw [run_lookUp_number hvalue hp hcached]
        split
        · exact number x hvalue hp ‹_›
        · exact refused _ (.inr rfl)
      | formula f =>
        rw [run_lookUp_formula hvalue hp hcached]
        exact formula f hvalue hp hcached

/-- **Two ways in which a name is looked up** go together if the same is declared under it and the
same is cached: only if its formula is evaluated can they end differently. -/
@[elab_as_elim]
theorem run_lookUp_cases₂ (vars vars' : Variables)
    (evaluate evaluate' : List Text → Text → EvalM Float) (pending : List Text)
    (depth depth' : Nat) (name : Text) (s s' : Session)
    {motive : Except EvalError Float × Session → Except EvalError Float × Session → Prop}
    (hvalue : vars'.value name = vars.value name)
    (hcached : s'.cache.get? name = s.cache.get? name)
    (settled : ∀ r, motive (r, s) (r, s'))
    (formula : ∀ f, vars.value name = .ok (.formula f) → name ∉ pending →
      s.cache.get? name = none →
      motive ((resolveFormula evaluate pending depth name f).run s)
        ((resolveFormula evaluate' pending depth' name f).run s')) :
    motive ((lookUp vars evaluate pending depth name).run s)
      ((lookUp vars' evaluate' pending depth' name).run s') := by
  cases h : vars.value name with
  | error e =>
    rw [lookUp_of_error h, lookUp_of_error (hvalue.trans h)]
    exact settled _
  | ok value =>
    have h' := hvalue.trans h
    by_cases hp : name ∈ pending
    · rw [lookUp_of_pending h hp, lookUp_of_pending h' hp]
      exact settled _
    cases hc : s.cache.get? name with
    | some x =>
      rw [run_lookUp_cached h hp hc, run_lookUp_cached h' hp (hcached.trans hc)]
      exact settled _
    | none =>
      have hc' := hcached.trans hc
      cases value with
      | number x =>
        rw [run_lookUp_number h hp hc, run_lookUp_number h' hp hc']
        exact settled _
      | formula f =>
        rw [run_lookUp_formula h hp hc, run_lookUp_formula h' hp hc']
        exact formula f h hp hc

/-- Looking a name up leaves the session as it is, unless it evaluates the formula of the name. -/
theorem lookUp_cases (vars : Variables) (evaluate : List Text → Text → EvalM Float)
    (pending : List Text) (depth : Nat) (name : Text) (s : Session) :
    ((lookUp vars evaluate pending depth name).run s).2 = s ∨
      name ∉ pending ∧ s.cache.get? name = none ∧
        ∃ formula, vars.value name = .ok (.formula formula) ∧
          (lookUp vars evaluate pending depth name).run s =
            (resolveFormula evaluate pending depth name formula).run s :=
  run_lookUp_cases vars evaluate pending depth name s (fun _ _ => .inl rfl) (fun _ => .inl rfl)
    (fun _ _ _ _ _ => .inl rfl) (fun _ _ _ _ => .inl rfl)
    fun f hf hp hc => .inr ⟨hp, hc, f, hf, rfl⟩

/-- Looking a name up fails because nothing usable is declared under it, or it is pending, or it has
a number that is none, or the evaluation of its formula fails. -/
theorem lookUp_eq_error {s : Session} {e : EvalError}
    (h : ((lookUp vars evaluate pending depth name).run s).1 = .error e) :
    (e = vars.undefined name ∨ e = .disabledVariable name ∨ e = .nonFinite name) ∨
      (name ∈ pending ∧
        e = .cyclicDependency name (pending.dropWhile (· != name) ++ [name])) ∨
      name ∉ pending ∧ s.cache.get? name = none ∧ ∃ f, vars.value name = .ok (.formula f) ∧
        ((evaluate (pending ++ [name]) f).run s).1 = .error e := by
  revert h
  refine run_lookUp_cases vars evaluate pending depth name s ?refused ?cycle ?cached ?number
    ?formula
  case refused =>
    rintro e' (hvalue | rfl) h
    · cases h
      exact .inl ((value_eq_error hvalue).imp_right .inl)
    · cases h
      exact .inl (.inr (.inr rfl))
  case cycle =>
    intro hp h
    cases h
    exact .inr (.inl ⟨hp, rfl⟩)
  case cached => exact fun _ _ _ _ _ h => by cases h
  case number => exact fun _ _ _ _ h => by cases h
  case formula =>
    intro f hf hp hc h
    refine .inr (.inr ⟨hp, hc, f, hf, ?_⟩)
    rw [resolveFormula, Attempt.run_bind] at h
    revert h
    rcases (evaluate (pending ++ [name]) f).run s with ⟨e | x, s₁⟩
    · exact fun h => h
    · exact fun h => by cases h

/-! ### Formulas resolved side by side -/

/-- Formulas are resolved alike if they are evaluated alike, and remembering their values keeps the
caches related. -/
theorem resolveFormula_sim {evaluate' : List Text → Text → EvalM Float} {depth' : Nat}
    {r : Cache → Cache → Prop} {stops stops' : EvalError → Prop} {formula : Text}
    (heval : Attempt.Sim (OnCaches r) stops stops' (evaluate (pending ++ [name]) formula)
      (evaluate' (pending ++ [name]) formula))
    (hremember : ∀ x cache cache', r cache cache' →
      r (cache.insert name x) (cache'.insert name x)) :
    Attempt.Sim (OnCaches r) stops stops' (resolveFormula evaluate pending depth name formula)
      (resolveFormula evaluate' pending depth' name formula) :=
  Attempt.sim_bind heval fun x => Attempt.sim_bind (sim_record _ _) fun _ =>
    Attempt.sim_bind (Attempt.sim_update fun _ _ h => hremember x _ _ h) fun _ => Attempt.sim_pure x

/-- Two names are found alike if the same is declared under them and cached, and formulas are
resolved alike. -/
theorem lookUp_sim_of {vars' : Variables} {evaluate' : List Text → Text → EvalM Float}
    {depth' : Nat} {R : Session → Session → Prop} {stops stops' : EvalError → Prop}
    (hvalue : vars'.value name = vars.value name)
    (hcached : ∀ s s', R s s' → s'.cache.get? name = s.cache.get? name)
    (hformula : ∀ f, vars.value name = .ok (.formula f) →
      Attempt.Sim R stops stops' (resolveFormula evaluate pending depth name f)
        (resolveFormula evaluate' pending depth' name f)) :
    Attempt.Sim R stops stops' (lookUp vars evaluate pending depth name)
      (lookUp vars' evaluate' pending depth' name) := fun s s' hs =>
  run_lookUp_cases₂ vars vars' evaluate evaluate' pending depth depth' name s s' hvalue
    (hcached s s' hs) (fun _ => .inl ⟨rfl, hs⟩) fun f hf _ _ => hformula f hf s s' hs

end LookUp

/-! ## Values that need no evaluation -/

/-- The value of a name if no formula is evaluated: a number has its own, and a formula the one that
the cache has for it. -/
def recalled (vars : Variables) (cache : Cache) (name : Text) : Except EvalError Float :=
  match vars.value name with
  | .error e => .error e
  | .ok (.number x) => if x.isFinite then .ok x else .error (.nonFinite name)
  | .ok (.formula _) =>
    match cache.get? name with
    | some x => .ok x
    | none => .error (vars.undefined name)

theorem recalled_number {vars : Variables} {name : Text} {x : Float}
    (h : vars.value name = .ok (.number x)) (hx : x.isFinite = true) (cache : Cache) :
    recalled vars cache name = .ok x := by
  rw [recalled, h]
  exact if_pos hx

theorem recalled_formula {vars : Variables} {cache : Cache} {name formula : Text} {x : Float}
    (h : vars.value name = .ok (.formula formula)) (hx : cache.get? name = some x) :
    recalled vars cache name = .ok x := by
  rw [recalled, h]
  simp only [hx]

/-- Looks a name up without evaluating anything. -/
def recalling (vars : Variables) (cache : Cache) (name : Text) : EvalM Float :=
  .ofExcept (recalled vars cache name)

theorem quiet_recalling (vars : Variables) (cache : Cache) (name : Text) :
    EvalM.Quiet (recalling vars cache name) :=
  EvalM.quiet_ofExcept _

/-- Every value of the one cache is in the other. -/
def Cache.Within (cache cache' : Cache) : Prop :=
  ∀ name x, cache.get? name = some x → cache'.get? name = some x

theorem Cache.Within.refl (cache : Cache) : cache.Within cache := fun _ _ h => h

theorem Cache.Within.trans {c₁ c₂ c₃ : Cache} (h₁ : c₁.Within c₂) (h₂ : c₂.Within c₃) :
    c₁.Within c₃ :=
  fun name x h => h₂ name x (h₁ name x h)

theorem Table.get?_insert_eq {α : Type} (table : Table α) (name other : Text) (x : α) :
    (table.insert name x).get? other = if other = name then some x else table.get? other := by
  split
  · rename_i hother
    rw [hother, Table.get?_insert_self]
  · rename_i hother
    rw [Table.get?_insert_of_ne _ hother]

theorem Cache.within_insert {cache : Cache} {name : Text} (h : cache.get? name = none)
    (x : Float) : cache.Within (cache.insert name x) := by
  intro other y hy
  have hne : other ≠ name := by
    rintro rfl
    rw [h] at hy
    cases hy
  rwa [Table.get?_insert_of_ne _ hne]

end EquationFigure
