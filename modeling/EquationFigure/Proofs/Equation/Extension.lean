import EquationFigure.Proofs.Equation.Canonical
import EquationFigure.Proofs.Equation.Inlining

/-!
# Larger tables

A value that was worked out over one table of variables is the same over a table that declares more.
So a cache that was filled over the one can be used over the other: what is in it was worked out
without the names that are new, as these had no value at the time.

* `Variables.Keeps` — the second table declares what the first does.
* `Cache.Sound.keeps` — **a sound cache stays sound over a larger table**.
* `Session.Named` — the cache is sound, and has values of names only; `named_evaluate` says that
  evaluation keeps that.
* `evaluateFresh_name_iff` — a name is evaluated to its value unless that is an infinity.
-/

set_option autoImplicit false

namespace EquationFigure

open Text EvalM

/-! ## Values over a larger table -/

/-- What the first table declares, the second declares too, with the same value. -/
def Variables.Keeps (vars vars' : Variables) : Prop :=
  ∀ name value, vars.value name = .ok value → vars'.value name = .ok value

section Keeps

variable {vars vars' : Variables} {cache : Cache} {name : Text} {x : Float}

theorem Variables.Keeps.refl (vars : Variables) : vars.Keeps vars := fun _ _ h => h

theorem Variables.Keeps.trans {vars'' : Variables} (h : vars.Keeps vars')
    (h' : vars'.Keeps vars'') : vars.Keeps vars'' :=
  fun name value hvalue => h' name value (h name value hvalue)

/-- A name that has no value may get one. -/
theorem Variables.keeps_insert {error : EvalError} (hname : vars.value name = .error error)
    (entry : Variable) : vars.Keeps (vars.insert name entry) := by
  intro other value hother
  have hne : other ≠ name := by
    rintro rfl
    rw [hname] at hother
    cases hother
  rw [Variables.value] at hother ⊢
  rw [Table.get?_insert_of_ne _ hne]
  cases hget : vars.get? other with
  | none =>
    rw [hget] at hother
    cases hother
  | some entry =>
    rw [hget] at hother
    cases hvalue : entry.value? with
    | none =>
      simp only [hvalue] at hother
      cases hother
    | some value => simpa only [hvalue] using hother

theorem recalled_keeps (h : vars.Keeps vars') (hx : recalled vars cache name = .ok x) :
    recalled vars' cache name = .ok x := by
  rw [recalled] at hx ⊢
  cases hvalue : vars.value name with
  | error e =>
    rw [hvalue] at hx
    cases hx
  | ok value =>
    rw [hvalue] at hx
    rw [h name value hvalue]
    cases value with
    | number y => exact hx
    | formula f =>
      cases hget : cache.get? name with
      | none => simp only [hget] at hx; cases hx
      | some y => simpa only [hget] using hx

/-- **A sound cache stays sound over a larger table.**  What is recalled from it while a formula is
worked out is the same over both, so the formula has its value over the larger table, too. -/
theorem Cache.Sound.keeps (h : vars.Keeps vars') (hcache : cache.Sound vars) :
    cache.Sound vars' := by
  induction hcache with
  | empty => exact .empty
  | @insert cache name formula x limit levels hcache hnone hname hout ih =>
    have hnan : ∀ n y, recalled vars cache n = .ok y → y.isNaN = false := fun n y hy =>
      (valueOf_of_recalled hcache.valueOf hy).isNaN
    have hunique : ∀ n y z, recalled vars cache n = .ok y → recalled vars cache n = .ok z →
        y = z := fun n y z hy hz => Except.ok.inj (hy.symm.trans hz)
    have hrecall : ∀ n, Attempt.Ends (fun _ => True) (fun y => recalled vars cache n = .ok y)
        (fun _ => True) (recalling vars cache n) := fun n =>
      (quiet_recalling vars cache n).ends fun _ _ _ h => h
    have hvalue : HasValue (fun n y => recalled vars cache n = .ok y) formula x :=
      (ends_evaluateUsing (fun _ _ _ h => h) hunique hnan (fun n _ => hrecall n) limit levels
        formula {} trivial).2.1 x hout
    obtain ⟨bound, hbound⟩ := HasValue.outcome_evaluateUsing (quiet_recalling vars' cache)
      (hvalue.mono fun _ _ => recalled_keeps h)
    exact .insert ih hnone (h _ _ hname) (hbound 0 bound (Nat.le_refl _))

end Keeps

/-! ## Caches of names -/

/-- The cache of the session is sound, and has values of names only. -/
structure Session.Named (vars : Variables) (s : Session) : Prop where
  /-- The cache can be worked out formula by formula. -/
  sound : s.cache.Sound vars
  /-- The names in it can stand in equations. -/
  isName : ∀ name x, s.cache.get? name = some x → IsName name

section Named

variable {vars : Variables} {s : Session}

theorem named_empty (vars : Variables) : Session.Named vars {} := ⟨.empty, nofun⟩

theorem Session.Named.keeps {vars' : Variables} (h : vars.Keeps vars') (hs : s.Named vars) :
    s.Named vars' :=
  ⟨hs.sound.keeps h, hs.isName⟩

/-- Names are looked up only where they stand in an equation. -/
theorem isName_evaluateAt (limit levels : Nat) (pending : List Text) (t : Text) :
    Attempt.Ends
      (fun s => s.Valued vars ∧ ∀ name x, s.cache.get? name = some x → IsName name)
      (HasValue (ValueOf vars) t) (fun _ => True) (evaluateAt vars limit levels pending t) := by
  refine ends_evaluateAt_of ⟨fun s s' h hs => ?_, fun _ hs => hs.1⟩ (fun name hname => ?_) limit
    levels pending t
  · exact ⟨hs.1.congr h, h ▸ hs.2⟩
  · refine fun f x s hf hx hs => ⟨remembers_valued name f x s hf hx hs.1, fun other y hy => ?_⟩
    change (s.cache.insert name x).get? other = some y at hy
    rw [Table.get?_insert_eq] at hy
    split at hy
    · rename_i hother
      exact hother ▸ hname
    · exact hs.2 other y hy

/-- **Evaluation keeps the cache as it should be.** -/
theorem named_evaluate (hs : s.Named vars) (options : EvalOptions) (pending : List Text)
    (t : Text) : ((evaluate vars options pending t).run s).2.Named vars :=
  ⟨(settles_evaluateAt vars _ _ pending t s hs.sound).1.sound,
    (isName_evaluateAt _ _ pending t s ⟨hs.sound.valueOf, hs.isName⟩).1.2⟩

end Named

/-! ## The value of a name as an equation -/

section Name

variable {vars : Variables} {name : Text} {x y : Float}

/-- The text of a finite number computes the number, but for the sign of zero. -/
theorem computes_numberText (hx : x.isFinite = true) :
    Computes (numberText x) (unsignedZero x) := by
  refine ⟨numberText x, .flat (parenFree_numberText x), ?_⟩
  rw [outcome_reduce_of_none (nextOperation_of_literal? (literal?_numberText hx)),
    readValue_numberText hx]

/-- A finite number with a sign in front does not overflow. -/
theorem not_overflows_numberText {sign : Text} (hsign : ∀ c ∈ sign, c.isDigit = false)
    (hx : x.isFinite = true) : ¬ Overflows (sign ++ numberText x) := by
  rintro ⟨n, hn, hrange⟩
  have hwhole : n.whole = (Numeral.ofFloat x).whole := by
    rw [← leadingDigits_of_literal? hn, leadingDigits_append hsign, numberText_eq_text hx]
    have h : leadingDigits ((Numeral.ofFloat x).text ++ []) = (Numeral.ofFloat x).whole :=
      leadingDigits_text (Numeral.wellFormed_ofFloat x) headNot_nil
    rwa [List.append_nil] at h
  refine hrange ?_
  rw [Numeral.InRange, hwhole]
  exact Numeral.inRange_ofFloat hx

/-- An infinity is no value of what is written for a number, whatever sign is in front of that. -/
theorem not_computes_infinity {sign : Text} (hsign : sign = [] ∨ sign = ['-'])
    (hx : x.isFinite = true) (hy : y.isFinite = false) (hnan : y.isNaN = false) :
    ¬ Computes (sign ++ numberText x) (unsignedZero y) := by
  rintro ⟨u, hu, hout⟩
  have hminus : (∀ c ∈ sign, c.isDigit = false) ∧ ParenFree sign := by
    rcases hsign with rfl | rfl
    · exact ⟨nofun, parenFree_nil⟩
    · exact ⟨List.forall_mem_singleton.2 (by decide), List.forall_mem_singleton.2 (by decide)⟩
  rw [hu.eq_of_parenFree (parenFree_append.2 ⟨hminus.2, parenFree_numberText x⟩)] at hout
  have hfin := isFinite_of_reduce (not_overflows_numberText hminus.1 hx) hout
  rcases eq_infinity_of_not_isFinite hy hnan with rfl | rfl
  · exact absurd hfin (by decide +kernel)
  · exact absurd hfin (by decide +kernel)

/-- An infinity is written with the name `inf`, and that stands for a number or for nothing.  So a
name that has an infinity for its value does not have it as an equation. -/
theorem isFinite_of_hasValue_name (hname : IsName name) (hx : ValueOf vars name x)
    (h : HasValue (ValueOf vars) name (unsignedZero x)) : x.isFinite = true := by
  obtain ⟨u, hu, hcomputes⟩ := h
  rw [equationBody_of_isName hname] at hu
  obtain ⟨s, u', rfl, hs, hu'⟩ := hu.of_firstName? (firstName?_of_isName hname)
  cases hs with
  | number hy hfin => exact hx.unique hy ▸ hfin
  | infinity hy hsign hz hfin =>
    obtain rfl := hx.unique hy
    obtain rfl := hu'.eq_of_nameless nameless_nil
    rw [List.nil_append, List.append_nil] at hcomputes
    exact absurd hcomputes (not_computes_infinity (sign_of_numberText_eq hsign) hfin
      (isFinite_of_numberText_eq hsign) hx.isNaN)

/-- **A name is evaluated to its value, but for the sign of zero, unless that is an infinity.** -/
theorem evaluateFresh_name_iff (hname : IsName name) (hx : ValueOf vars name x) :
    (∃ enough, ∀ options : EvalOptions, enough ≤ options.maxDepth →
      evaluateFresh vars options name = .ok (unsignedZero x)) ↔ x.isFinite = true := by
  constructor
  · rintro ⟨enough, henough⟩
    exact isFinite_of_hasValue_name hname hx
      (hasValue_of_evaluateFresh (henough ⟨enough, false⟩ (Nat.le_refl _)))
  · intro hfin
    have hvalue : HasValue (ValueOf vars) name (unsignedZero x) := by
      refine ⟨[] ++ numberText x ++ [], ?_, ?_⟩
      · rw [equationBody_of_isName hname]
        exact .name (firstName?_of_isName hname) (.number hx hfin) (.nameless nameless_nil)
      · rw [List.nil_append, List.append_nil]
        exact computes_numberText hfin
    exact hvalue.exists_enough

end Name

end EquationFigure
