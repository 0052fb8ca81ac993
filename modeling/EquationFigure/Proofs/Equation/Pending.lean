import EquationFigure.Proofs.Equation.Locality

/-!
# Names that are pending from the start

An evaluation may be asked for while some names count as being evaluated.  If it comes to one of
them, that is a cycle.  It comes to them by way of formulas, but not of one whose value is cached:
such a name is as good as a number, and what its formula refers to is not looked at.

* `LeadsPast vars cache t name`, `Evades` — the equation leads to the name by way of formulas whose
  values are not cached; it leads to none of these names.
* `ends_evaluateAt_evades` — what has a value evades the pending names.
* `sameButHint_evades` — for what evades them, they make no difference.
* `pending_names_spec` — both for every session that can be reached.
-/

set_option autoImplicit false

namespace EquationFigure

open Text EvalM

/-! ## Past the cache -/

/-- The equation leads to the name by way of formulas whose values are not in the cache. -/
def LeadsPast (vars : Variables) (cache : Cache) (t name : Text) : Prop :=
  ∃ ns t', Links vars t ns t' ∧ (∀ n ∈ ns, cache.get? n = none) ∧ Refers vars t' name

/-- The equation leads to none of the names, unless by way of a cached value. -/
def Evades (vars : Variables) (cache : Cache) (earlier : List Text) (t : Text) : Prop :=
  ∀ name ∈ earlier, ¬ LeadsPast vars cache t name

/-- The formula of the name, if its value is not cached, leads to none of the other names. -/
def FormulaEvades (vars : Variables) (cache : Cache) (earlier : List Text) (name : Text) : Prop :=
  ∀ f, vars.value name = .ok (.formula f) → cache.get? name = none → Evades vars cache earlier f

section LeadsPast

variable {vars : Variables} {cache : Cache} {earlier : List Text} {t f name other : Text}

theorem Refers.leadsPast (h : Refers vars t name) : LeadsPast vars cache t name :=
  ⟨[], t, .nil t, nofun, h⟩

/-- What the formula of an uncached name leads to, an equation leads to that refers to the name. -/
theorem LeadsPast.of_formula (hrefers : Refers vars t name)
    (hf : vars.value name = .ok (.formula f)) (hnone : cache.get? name = none)
    (h : LeadsPast vars cache f other) : LeadsPast vars cache t other := by
  obtain ⟨ns, t', hlinks, huncached, hother⟩ := h
  exact ⟨name :: ns, t', .cons hrefers hf hlinks, List.forall_mem_cons.2 ⟨hnone, huncached⟩, hother⟩

/-- If nothing is cached, all ways are open. -/
theorem leadsPast_empty_iff : LeadsPast vars ∅ t name ↔ LeadsTo vars t name :=
  ⟨fun ⟨ns, t', hlinks, _, hrefers⟩ => ⟨ns, t', hlinks, hrefers⟩,
    fun ⟨ns, t', hlinks, hrefers⟩ => ⟨ns, t', hlinks, fun _ _ => rfl, hrefers⟩⟩

/-- An equation refers to no name that it evades, and the formulas that it refers to evade them
too. -/
theorem Evades.of_refers (h : Evades vars cache earlier t) (hrefers : Refers vars t name) :
    name ∉ earlier ∧ FormulaEvades vars cache earlier name :=
  ⟨fun hmem => h name hmem hrefers.leadsPast,
    fun _ hf hnone other hmem hother => h other hmem (hother.of_formula hrefers hf hnone)⟩

end LeadsPast

/-! ## What has a value -/

/-- The name has the value, and it is found without coming to one of these names. -/
structure EvadingValue (vars : Variables) (cache : Cache) (earlier : List Text) (name : Text)
    (x : Float) : Prop where
  /-- The name has the value. -/
  valueOf : ValueOf vars name x
  /-- It is none of the names. -/
  notMem : name ∉ earlier
  /-- Nor does its formula lead to them, unless its value was cached. -/
  formula : FormulaEvades vars cache earlier name

/-- The cached values are right, and the formulas of those that were not cached before lead to none
of these names. -/
structure Session.Evading (vars : Variables) (cache : Cache) (earlier : List Text) (s : Session) :
    Prop where
  /-- The cached values are those of their names. -/
  valued : s.Valued vars
  /-- The formulas that were evaluated lead to none of the names. -/
  formula : ∀ name x, s.cache.get? name = some x → FormulaEvades vars cache earlier name

section Evading

variable {vars : Variables} {cache : Cache} {earlier pending : List Text} {t name : Text}
  {x : Float}

/-- **An equation all of whose names have such values evades the names.** -/
theorem HasValue.evades (h : HasValue (EvadingValue vars cache earlier) t x) :
    Evades vars cache earlier t := by
  rintro name hmem ⟨ns, t', hlinks, huncached, hrefers⟩
  cases hlinks with
  | nil =>
    obtain ⟨y, hy⟩ := h.exists_valueOf (fun _ _ hy => hy.valueOf) hrefers
    exact hy.notMem hmem
  | cons hfirst hf hlinks =>
    rw [List.forall_mem_cons] at huncached
    obtain ⟨y, hy⟩ := h.exists_valueOf (fun _ _ hy => hy.valueOf) hfirst
    exact hy.formula _ hf huncached.1 name hmem ⟨_, t', hlinks, huncached.2, hrefers⟩

theorem Session.Evading.congr {s s' : Session} (h : s'.cache = s.cache)
    (hs : Session.Evading vars cache earlier s) : Session.Evading vars cache earlier s' :=
  ⟨hs.valued.congr h, h ▸ hs.formula⟩

theorem Session.Evading.remember {s : Session} {f : Text}
    (hs : Session.Evading vars cache earlier s) (hf : vars.value name = .ok (.formula f))
    (hx : EvadingValue vars cache earlier name x) :
    Session.Evading vars cache earlier ((EvalM.remember name x).run s).2 := by
  refine ⟨remembers_valued name f x s hf hx.valueOf hs.valued, fun other y hy => ?_⟩
  change (s.cache.insert name x).get? other = some y at hy
  rw [Table.get?_insert_eq] at hy
  split at hy
  · rename_i hother
    exact hother ▸ hx.formula
  · exact hs.formula other y hy

theorem ends_lookUp_evades {evaluate : List Text → Text → EvalM Float}
    (heval : ∀ f, Attempt.Ends (Session.Evading vars cache earlier)
      (HasValue (EvadingValue vars cache earlier) f) (fun _ => True)
      (evaluate (earlier ++ pending ++ [name]) f)) (depth : Nat) :
    Attempt.Ends (Session.Evading vars cache earlier) (EvadingValue vars cache earlier name)
      (fun _ => True) (lookUp vars evaluate (earlier ++ pending) depth name) := by
  by_cases hmem : name ∈ earlier
  · -- A name that is pending from the start is refused, whatever the cache holds.
    cases hvalue : vars.value name with
    | error e =>
      rw [lookUp_of_error hvalue]
      exact Attempt.ends_fail trivial
    | ok value =>
      rw [lookUp_of_pending hvalue (List.mem_append_left _ hmem)]
      exact Attempt.ends_fail trivial
  refine ends_lookUp_of (fun _ _ => Session.Evading.congr)
    (fun s x hs hx => ⟨hs.valued name x hx, hmem, hs.formula name x hx⟩)
    (fun x hx hfin => ⟨.number hx hfin, hmem, fun f hf => ?_⟩)
    (fun f hf => (heval f).mono (fun x hx => ⟨?_, hmem, fun g hg _ => ?_⟩) fun _ h => h)
    (fun f x s hf hx hs => hs.remember hf hx) depth
  · rw [hx] at hf
    cases hf
  · exact (valueOf_formula_iff hf).2 (hx.mono fun _ _ hy => hy.valueOf)
  · rw [hf] at hg
    cases hg
    exact hx.evades

/-- **What is evaluated to a value evades the names that were pending from the start.** -/
theorem ends_evaluateAt_evades (vars : Variables) (cache : Cache) (earlier : List Text)
    (limit levels : Nat) (pending : List Text) (t : Text) :
    Attempt.Ends (Session.Evading vars cache earlier)
      (HasValue (EvadingValue vars cache earlier) t) (fun _ => True)
      (evaluateAt vars limit levels (earlier ++ pending) t) := by
  induction levels generalizing pending t with
  | zero => exact Attempt.ends_fail trivial
  | succ levels ih =>
    rw [evaluateAt_succ]
    refine ends_evaluateUsing (fun _ _ => Session.Evading.congr)
      (fun _ _ _ hx hy => hx.valueOf.unique hy.valueOf) (fun _ _ hx => hx.valueOf.isNaN)
      (fun name _ => ends_lookUp_evades (fun f => ?_) _) limit levels t
    rw [List.append_assoc]
    exact ih _ f

/-- So an equation that leads to one of them past the cache has no value. -/
theorem evaluate_ne_ok {s : Session} (hs : s.Valued vars) (options : EvalOptions)
    (h : ∃ name ∈ earlier, LeadsPast vars s.cache t name) (x : Float) :
    ((evaluate vars options earlier t).run s).1 ≠ .ok x := by
  intro hx
  obtain ⟨name, hmem, hleads⟩ := h
  have hstart : Session.Evading vars s.cache earlier s :=
    ⟨hs, fun name y hy f _ hnone => by simp [hy] at hnone⟩
  have hends := ends_evaluateAt_evades vars s.cache earlier options.maxDepth
    (options.maxDepth + 1) [] t s hstart
  rw [List.append_nil] at hends
  exact (hends.2.1 x hx).evades name hmem hleads

end Evading

/-! ## What evades the pending names -/

/-- The cached values are right, and they include those of the cache. -/
def Session.Extends (vars : Variables) (cache : Cache) (s : Session) : Prop :=
  s.Valued vars ∧ cache.Within s.cache

section Extends

variable {vars : Variables} {cache : Cache} {earlier : List Text} {t : Text}

theorem invariant_extends (vars : Variables) (cache : Cache) :
    Session.Invariant vars (Session.Extends vars cache) :=
  ⟨fun _ _ h hs => ⟨hs.1.congr h, h ▸ hs.2⟩, fun _ hs => hs.1⟩

/-- A value that is put into the cache is the one that the cache has for the name, if it has one. -/
theorem remembers_extends (hcache : ∀ n y, cache.get? n = some y → ValueOf vars n y) (name : Text) :
    Remembers vars (Session.Extends vars cache) name := by
  refine fun f x s hf hx hs => ⟨remembers_valued name f x s hf hx hs.1, fun other y hy => ?_⟩
  show (s.cache.insert name x).get? other = some y
  rw [Table.get?_insert_eq]
  split
  · rename_i hother
    subst hother
    rw [hx.unique (hcache _ _ hy)]
  · exact hs.2 other y hy

/-- **Pending names that an equation evades make no difference**, except to the hints of errors. -/
theorem sameButHint_evades (hcache : ∀ n y, cache.get? n = some y → ValueOf vars n y)
    (limit levels : Nat) (pending : List Text) (h : Evades vars cache earlier t) :
    SameButHint (Session.Extends vars cache) (evaluateAt vars limit levels (earlier ++ pending) t)
      (evaluateAt vars limit levels pending t) := by
  induction levels generalizing pending t with
  | zero => exact .refl _
  | succ levels ih =>
    have hI := invariant_extends vars cache
    have hends : ∀ pending f, Attempt.Ends (Session.Extends vars cache) (HasValue (ValueOf vars) f)
        (fun _ => True) (evaluateAt vars limit levels pending f) := fun pending f =>
      ends_evaluateAt_of hI (fun name _ => remembers_extends hcache name) limit levels pending f
    have hfind : ∀ name, Refers vars t name → SameButHint (Session.Extends vars cache)
        (lookUp vars (evaluateAt vars limit levels) (earlier ++ pending) (limit - levels) name)
        (lookUp vars (evaluateAt vars limit levels) pending (limit - levels) name) := by
      intro name hrefers
      obtain ⟨hmem, hformula⟩ := h.of_refers hrefers
      rw [lookUp_append_of_notMem hmem]
      -- A value cached from the start answers for its name; any other formula evades them too.
      cases hname : cache.get? name with
      | some y => exact .of_run_eq fun s hs => run_lookUp_congr_of_cached (hs.2 _ _ hname)
      | none =>
        exact sameButHint_lookUp rfl (fun f => hends (earlier ++ (pending ++ [name])) f)
          (fun f hf => ih _ (hformula f hf hname)) _
    rw [evaluateAt_succ, evaluateAt_succ]
    exact sameButHint_evaluateUsing hI.congr (fun _ _ _ hx hy => hx.unique hy)
      (fun _ _ hx => hx.isNaN)
      (fun name _ => ends_lookUp hI hends _ _ (remembers_extends hcache name))
      (fun _ _ hrefers hx => hrefers.infName hx) hfind limit levels t fun _ => .inl

/-- The hint of an error that is reported is that of the table. -/
theorem EvalError.Reported.eq_of_unhinted {e e' : EvalError} (he : e.Reported vars)
    (he' : e'.Reported vars) (h : e.unhinted = e'.unhinted) : e = e' := by
  have hhint : ∀ {e : EvalError}, e.Reported vars → (∃ name, e = vars.undefined name) ∨
      e.unhinted = e ∧ ∀ name, e.unhinted ≠ .undefinedVariable name none := by
    intro e he
    cases he with
    | @ofText e he => cases e <;> first | exact he.elim | exact .inr ⟨rfl, nofun⟩
    | undefined name => exact .inl ⟨name, rfl⟩
    | _ => exact .inr ⟨rfl, nofun⟩
  rcases hhint he with ⟨name, rfl⟩ | ⟨heq, hne⟩ <;>
    rcases hhint he' with ⟨name', rfl⟩ | ⟨heq', hne'⟩
  · cases h
    rfl
  · exact absurd h.symm (hne' name)
  · exact absurd h (hne name')
  · rw [← heq, h, heq']

theorem eq_of_mapError_unhinted {α : Type} {r r' : Except EvalError α}
    (hr : ∀ e, r = .error e → e.Reported vars) (hr' : ∀ e, r' = .error e → e.Reported vars)
    (h : r.mapError EvalError.unhinted = r'.mapError EvalError.unhinted) : r = r' := by
  rcases r with e | x <;> rcases r' with e' | y
  · exact congrArg _ ((hr e rfl).eq_of_unhinted (hr' e' rfl) (Except.error.inj h))
  · cases h
  · cases h
  · exact congrArg _ (Except.ok.inj h)

/-- Nor do they make a difference to the hints. -/
theorem evaluate_eq_of_evades {s : Session} (hs : s.Valued vars) (options : EvalOptions)
    (h : Evades vars s.cache earlier t) :
    (evaluate vars options earlier t).run s = (evaluate vars options [] t).run s := by
  have hreported := fun pending =>
    (reported_evaluateAt vars options.maxDepth (options.maxDepth + 1) pending t s trivial).2.2
  have hsame := sameButHint_evades hs options.maxDepth (options.maxDepth + 1) [] h s
    ⟨hs, .refl _⟩
  rw [List.append_nil] at hsame
  exact Prod.ext (eq_of_mapError_unhinted (hreported earlier) (hreported []) hsame.2) hsame.1

end Extends

/-- **Names that are pending from the start are found, but not behind the cache.**  In a session
after any calls, if the equation leads to one of them by way of formulas whose values are not
cached, then there is no value.  That includes a name to which the equation itself refers, cached or
not.  If it leads to none of them in this way, they make no difference.  In a fresh session nothing
is cached, so there is no value whatever the way is. -/
theorem pending_names_spec (vars : Variables) (options : EvalOptions) (calls : List Call)
    (pending : List Text) (t : Text) :
    ((∃ name ∈ pending, LeadsPast vars (sessionAfter vars options calls).cache t name) →
      ∀ x, ((evaluate vars options pending t).run (sessionAfter vars options calls)).1 ≠ .ok x) ∧
    ((∀ name ∈ pending, ¬ LeadsPast vars (sessionAfter vars options calls).cache t name) →
      (evaluate vars options pending t).run (sessionAfter vars options calls) =
        (evaluate vars options [] t).run (sessionAfter vars options calls)) ∧
    ((∃ name ∈ pending, LeadsTo vars t name) →
      ∀ (options' : EvalOptions) x, ((evaluate vars options' pending t).run {}).1 ≠ .ok x) := by
  have hvalued := (sound_sessionAfter vars options calls).valueOf
  refine ⟨evaluate_ne_ok hvalued options, evaluate_eq_of_evades hvalued options,
    fun h options' => evaluate_ne_ok (valued_empty vars) options' ?_⟩
  obtain ⟨name, hmem, hleads⟩ := h
  exact ⟨name, hmem, leadsPast_empty_iff.2 hleads⟩

/-- The table in which the formula of `x` is `y`, which is a number. -/
def aliasTable : Variables := .ofList [(['x'], .ofFormula ['y']), (['y'], .ofNumber 1)]

/-- When `x` has been evaluated, it is still reported if it is pending itself, but `y` makes no
difference any more. -/
theorem pending_names_aliasTable :
    (∀ x, ((evaluate aliasTable {} [['x']] ['x']).run
      (sessionAfter aliasTable {} [.evaluate [] ['x']])).1 ≠ .ok x) ∧
    (evaluate aliasTable {} [['y']] ['x']).run (sessionAfter aliasTable {} [.evaluate [] ['x']]) =
      (evaluate aliasTable {} [] ['x']).run (sessionAfter aliasTable {} [.evaluate [] ['x']]) := by
  have hx : names ['x'] = [['x']] := names_singleton rfl rfl
  have hcached : (sessionAfter aliasTable {} [.evaluate [] ['x']]).cache.get? ['x'] ≠ none := by
    decide +kernel
  have hrefers : ∀ name, Refers aliasTable ['x'] name → name = ['x'] ∨ name = infName := by
    rintro name (hmem | ⟨rfl, -⟩)
    · exact .inl (by simpa [hx] using hmem)
    · exact .inr rfl
  have hself : Refers aliasTable ['x'] ['x'] := .inl (by simp [hx])
  refine ⟨(pending_names_spec aliasTable {} [.evaluate [] ['x']] [['x']] ['x']).1
      ⟨['x'], by simp, hself.leadsPast⟩,
    (pending_names_spec aliasTable {} [.evaluate [] ['x']] [['y']] ['x']).2.1 fun name hname => ?_⟩
  obtain rfl : name = ['y'] := by simpa using hname
  rintro ⟨ns, t', hlinks, huncached, hlast⟩
  cases hlinks with
  | nil => rcases hrefers _ hlast with h | h <;> exact absurd h (by decide)
  | cons hfirst hf _ =>
    rcases hrefers _ hfirst with rfl | rfl
    · exact hcached (huncached _ List.mem_cons_self)
    · cases hf

/-- **A cached value hides a pending name.**  The equation `x` leads to `y`, and in a fresh session
that is reported if `y` is pending; once `x` has been evaluated, it has a value all the same. -/
theorem pending_hidden_aliasTable :
    LeadsTo aliasTable ['x'] ['y'] ∧
      ((evaluate aliasTable {} [['y']] ['x']).run {}).1 =
        .error (.cyclicDependency ['y'] [['y'], ['x'], ['y']]) ∧
      ((evaluate aliasTable {} [['y']] ['x']).run
        (sessionAfter aliasTable {} [.evaluate [] ['x']])).1 = .ok 1 := by
  have hx : names ['x'] = [['x']] := names_singleton rfl rfl
  have hy : names ['y'] = [['y']] := names_singleton rfl rfl
  have hleads : LeadsTo aliasTable ['x'] ['y'] :=
    ⟨[['x']], ['y'], .cons (.inl (by simp [hx])) rfl (.nil _), .inl (by simp [hy])⟩
  exact ⟨hleads, by decide +kernel, Binary.eq_ok_of_toBits (by decide +kernel)⟩

end EquationFigure
