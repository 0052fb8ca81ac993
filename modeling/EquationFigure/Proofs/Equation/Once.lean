import EquationFigure.Proofs.Equation.Caching
import EquationFigure.Proofs.Equation.Cycles

/-!
# Each formula is evaluated once

Between two points at which the cache is cleared, whatever the calls are and whether they succeed,
the cache and the record of the steps tell the same story: a name has a value exactly if there is
one step that found it.  A name cannot be given a value while its own formula is evaluated, since it
is pending by then.

* `Session.Accounts s₀ s` — the values that have come into the cache since `s₀` are those of the
  steps since then, one for each name.  An evaluation keeps it, `accounts_evaluateAt`.
* `Activation.Yields` — the call is for the formula of a name, and finds its value;
  `exists_calls_of_cached` says that every new value in the cache is due to one.
* `resolved_once` — both for all evaluations between two points at which the cache is cleared.
-/

set_option autoImplicit false

namespace EquationFigure

open EvalM

/-! ## Steps that find values -/

/-- The value that the step found for the formula of the name. -/
def Event.resolution? (name : Text) : Event → Option Float
  | resolvedFormula other x _ => if other = name then some x else none
  | _ => none

/-- The values that the steps found for the formula of the name. -/
def resolutions (name : Text) (events : List Event) : List Float :=
  events.filterMap (Event.resolution? name)

theorem resolutions_cons_of_not_isResolution {event : Event} (h : ¬ event.IsResolution)
    (name : Text) (events : List Event) :
    resolutions name (event :: events) = resolutions name events := by
  refine List.filterMap_cons_none ?_
  cases event with
  | resolvedFormula => exact (h trivial).elim
  | _ => rfl

theorem resolutions_cons_self (name : Text) (x : Float) (depth : Nat) (events : List Event) :
    resolutions name (.resolvedFormula name x depth :: events) = x :: resolutions name events := by
  simp [resolutions, Event.resolution?]

theorem resolutions_cons_of_ne {name other : Text} (h : other ≠ name) (x : Float) (depth : Nat)
    (events : List Event) :
    resolutions other (.resolvedFormula name x depth :: events) = resolutions other events := by
  simp [resolutions, Event.resolution?, h.symm]

/-- What has come into the cache since the first session is what the steps since then found. -/
def Session.Accounts (s₀ s : Session) : Prop :=
  ∃ steps, s.events = steps ++ s₀.events ∧
    ∀ name, (s.cache.get? name).toList = resolutions name steps ++ (s₀.cache.get? name).toList

section Accounts

variable {vars : Variables} {s₀ s : Session} {name : Text}

theorem Session.Accounts.refl (s : Session) : s.Accounts s := ⟨[], rfl, fun _ => rfl⟩

theorem Session.Accounts.record {event : Event} (h : s₀.Accounts s)
    (hevent : ¬ event.IsResolution) : s₀.Accounts ((EvalM.record event).run s).2 := by
  obtain ⟨steps, hevents, hcache⟩ := h
  refine ⟨event :: steps, congrArg (event :: ·) hevents, fun name => ?_⟩
  rw [resolutions_cons_of_not_isResolution hevent]
  exact hcache name

/-- A name without a value is given one by one step. -/
theorem Session.Accounts.resolve (h : s₀.Accounts s) (hnone : s.cache.get? name = none) (x : Float)
    (depth : Nat) :
    s₀.Accounts ⟨s.cache.insert name x, .resolvedFormula name x depth :: s.events⟩ := by
  obtain ⟨steps, hevents, hcache⟩ := h
  refine ⟨.resolvedFormula name x depth :: steps, congrArg (_ :: ·) hevents, fun other => ?_⟩
  dsimp only
  by_cases hother : other = name
  · subst hother
    have hbefore := hcache other
    rw [hnone] at hbefore
    rw [Table.get?_insert_self, resolutions_cons_self, List.cons_append, ← hbefore]
    rfl
  · rw [Table.get?_insert_of_ne _ hother, resolutions_cons_of_ne hother]
    exact hcache other

/-- The invariant of an evaluation: the cache is also sound, which is why a pending name has no
value. -/
def Session.Regular (vars : Variables) (s₀ s : Session) : Prop :=
  s.cache.Sound vars ∧ s₀.Accounts s

theorem kept_regular (vars : Variables) (s₀ : Session) : KeptByRewrites (Session.Regular vars s₀) :=
  fun _ hevent _ hs => ⟨hs.1, hs.2.record hevent⟩

theorem accounts_lookUp {evaluate : List Text → Text → EvalM Float}
    (hsettles : Settles vars evaluate)
    (heval : ∀ pending formula, Attempt.Ends (Session.Regular vars s₀) (fun _ => True)
      (fun _ => True) (evaluate pending formula))
    (pending : List Text) (depth : Nat) (name : Text) :
    Attempt.Ends (Session.Regular vars s₀) (fun _ => True) (fun _ => True)
      (lookUp vars evaluate pending depth name) := by
  intro s hs
  have hrecounts : Recounts vars pending (lookUp vars evaluate pending depth name)
      fun cache => recalling vars cache name := recounts_lookUp hsettles depth name
  refine ⟨⟨(hrecounts s hs.1).1.sound, ?_⟩, fun _ _ => trivial, fun _ _ => trivial⟩
  rcases lookUp_cases vars evaluate pending depth name s with heq | ⟨-, hnone, f, -, hrun⟩
  · rw [heq]
    exact hs.2
  · rw [hrun, resolveFormula, Attempt.run_bind]
    have hkept := (heval (pending ++ [name]) f s hs).1
    have hgrows := (hsettles (pending ++ [name]) f s hs.1).1
    revert hkept hgrows
    rcases (evaluate (pending ++ [name]) f).run s with ⟨e | x, s₁⟩
    · exact fun hkept _ => hkept.2
    · exact fun hkept hgrows =>
        hkept.2.resolve ((hgrows.pending name (by simp)).trans hnone) x depth

/-- **An evaluation accounts for what it puts into the cache.** -/
theorem accounts_evaluateAt (vars : Variables) (s₀ : Session) (limit levels : Nat)
    (pending : List Text) (t : Text) :
    Attempt.Ends (Session.Regular vars s₀) (fun _ => True) (fun _ => True)
      (evaluateAt vars limit levels pending t) := by
  induction levels generalizing pending t with
  | zero => exact Attempt.ends_fail trivial
  | succ levels ih =>
    rw [evaluateAt_succ]
    exact (kept_regular vars s₀).evaluateUsing (fun _ => trivial) (fun _ => trivial)
      (fun _ _ => trivial) (accounts_lookUp (settles_evaluateAt vars limit levels) ih _ _) _ _ _

end Accounts

/-! ## Where values come from -/

/-- The call is for the formula of the name, which it finds to have this value. -/
structure Activation.Yields (vars : Variables) (limit : Nat) (a : Activation) (name : Text)
    (x : Float) : Prop where
  /-- The name is the last of those being evaluated. -/
  pending : ∃ earlier, a.pending = earlier ++ [name]
  /-- The equation is the formula of the name. -/
  formula : vars.value name = .ok (.formula a.equation)
  /-- The evaluation ends with the value. -/
  outcome : ((evaluateAt vars limit a.levels a.pending a.equation).run a.session).1 = .ok x

section Origins

variable {vars : Variables} {limit depth : Nat} {t name : Text} {s : Session} {x : Float}

/-- If something becomes true of the session while names are replaced, then while one of them is
looked up. -/
theorem exists_rewrites_of_change {value : Text → EvalM Float} {times : Nat} {P : Session → Prop}
    (hP : KeptByRewrites fun s => ¬ P s) (hs : ¬ P s)
    (h : P ((substituteWithin vars value depth times t).run s).2) :
    ∃ splices t' s' before name after, Rewrites value depth t s splices t' s' ∧
      firstName? t' = some (before, name, after) ∧ ¬ P s' ∧ P ((value name).run s').2 := by
  induction times generalizing t s with
  | zero =>
    rw [substituteWithin.eq_def] at h
    split at h <;> exact (hs h).elim
  | succ times ih =>
    rw [substituteWithin.eq_def] at h
    split at h
    · exact (hs h).elim
    · rename_i before name after hfirst
      by_cases hvalue : P ((value name).run s).2
      · exact ⟨[], t, s, before, name, after, .done t s, hfirst, hs, hvalue⟩
      rw [Attempt.run_bind] at h
      cases hrun : (value name).run s with
      | mk r s₁ =>
        rw [hrun] at h hvalue
        cases r with
        | error e => exact (hvalue h).elim
        | ok x =>
          dsimp only at h
          split at h
          · exact (hvalue h).elim
          · rename_i hne
            let splice : Splice := ⟨before, name, x, after⟩
            obtain ⟨splices, t', s', b, n, a, hrewrites, hfound⟩ :=
              ih (t := splice.text) (hP (splice.event depth) id s₁ hvalue) h
            exact ⟨splice :: splices, t', s', b, n, a, .step hfirst hrun hne hrewrites, hfound⟩

/-- **A value that an evaluation puts into the cache is that of a formula that it has evaluated**,
also if the evaluation fails. -/
theorem exists_calls_of_cached {levels : Nat} {pending : List Text}
    (hs : s.cache.get? name ≠ some x)
    (h : ((evaluateAt vars limit levels pending t).run s).2.cache.get? name = some x) :
    ∃ a, Relation.TransGen (Calls vars limit) ⟨levels, pending, t, s⟩ a ∧
      a.Yields vars limit name x := by
  induction levels generalizing pending t s with
  | zero => exact (hs h).elim
  | succ levels ih =>
    have hsub : ((substitute vars (lookUp vars (evaluateAt vars limit levels) pending
        (limit - levels)) (limit - levels) (equationBody t)).run s).2.cache.get? name = some x := by
      rw [evaluateAt_succ, evaluateUsing, Attempt.run_bind] at h
      revert h
      rcases (substitute vars _ (limit - levels) (equationBody t)).run s with ⟨e | u, s₁⟩
      · exact fun h => h
      · intro h
        rwa [(quiet_resolve limit levels u).cache s₁] at h
    obtain ⟨splices, t', s', before, other, after, hrewrites, hfirst, hs', hother⟩ :=
      exists_rewrites_of_change (P := fun s => s.cache.get? name = some x) (fun _ _ _ h => h) hs
        hsub
    have hlooks : LooksUp vars limit ⟨levels + 1, pending, t, s⟩ other s' :=
      ⟨Nat.succ_pos _, splices, t', before, after, hrewrites, hfirst⟩
    rcases lookUp_cases vars (evaluateAt vars limit levels) pending (limit - levels) other s' with
      heq | ⟨hp, hnone, f, hf, hrun⟩
    · rw [heq] at hother
      exact (hs' hother).elim
    have hcall : Calls vars limit ⟨levels + 1, pending, t, s⟩ ⟨levels, pending ++ [other], f, s'⟩ :=
      .mk hlooks hf hp hnone
    by_cases hnested :
        ((evaluateAt vars limit levels (pending ++ [other]) f).run s').2.cache.get? name = some x
    · obtain ⟨a, hcalls, ha⟩ := ih hs' hnested
      exact ⟨a, .head hcall hcalls, ha⟩
    -- The value was not there when the formula had been evaluated, so it is that of the formula.
    rw [hrun, resolveFormula, Attempt.run_bind] at hother
    cases hout : (evaluateAt vars limit levels (pending ++ [other]) f).run s' with
    | mk r s₁ =>
      rw [hout] at hother hnested
      cases r with
      | error e => exact (hnested hother).elim
      | ok y =>
        change (s₁.cache.insert other y).get? name = some x at hother
        rw [Table.get?_insert_eq] at hother
        split at hother
        · rename_i hname
          cases hother
          subst hname
          exact ⟨_, .single hcall, ⟨pending, rfl⟩, hf, congrArg Prod.fst hout⟩
        · exact (hnested hother).elim

end Origins

/-! ## From one clearing of the cache to the next -/

/-- The session after these evaluations, the pending names of each with its equation, if the cache
was cleared before the first one. -/
def sessionSince (vars : Variables) (options : EvalOptions) (s : Session)
    (asked : List (List Text × Text)) : Session :=
  (asked.map fun call => Call.evaluate call.1 call.2).foldl (Call.apply vars options)
    (Call.clearCache.apply vars options s)

theorem sessionSince_append (vars : Variables) (options : EvalOptions) (s : Session)
    (asked : List (List Text × Text)) (pending : List Text) (t : Text) :
    sessionSince vars options s (asked ++ [(pending, t)]) =
      ((evaluate vars options pending t).run (sessionSince vars options s asked)).2 := by
  rw [sessionSince, List.map_append, List.foldl_append]
  rfl

theorem regular_sessionSince (vars : Variables) (options : EvalOptions) (s : Session)
    (asked : List (List Text × Text)) :
    Session.Regular vars (Call.clearCache.apply vars options s)
      (sessionSince vars options s asked) := by
  induction asked using List.reverseRecOn with
  | nil => exact ⟨.empty, .refl _⟩
  | append_singleton asked call ih =>
    rw [sessionSince_append]
    exact (accounts_evaluateAt vars _ _ _ call.1 call.2 _ ih).1

/-- **Each formula is evaluated at most once.**  Take any evaluations since the cache was cleared,
in whatever session that was, and one more evaluation.  It loses and changes no value in the cache,
whether it succeeds or not.  A value that it adds is that of a formula whose evaluation it has
brought to an end.  Whatever has a value in the cache is declared with a formula and switched on.
Among the steps since the cache was cleared there is one for each name with a value, which found
that value, and there is none for any other name. -/
theorem resolved_once (vars : Variables) (options : EvalOptions) (s : Session)
    (asked : List (List Text × Text)) (pending : List Text) (t : Text) :
    (sessionSince vars options s asked).cache.Within
        (sessionSince vars options s (asked ++ [(pending, t)])).cache ∧
      (∀ name x, (sessionSince vars options s (asked ++ [(pending, t)])).cache.get? name = some x →
        (sessionSince vars options s asked).cache.get? name = some x ∨
          ∃ a, Relation.TransGen (Calls vars options.maxDepth)
              ⟨options.maxDepth + 1, pending, t, sessionSince vars options s asked⟩ a ∧
            a.Yields vars options.maxDepth name x) ∧
      (∀ name x, (sessionSince vars options s asked).cache.get? name = some x →
        ∃ f, vars.value name = .ok (.formula f)) ∧
      ∃ steps, (sessionSince vars options s asked).events = steps ++ s.events ∧
        ∀ name, resolutions name steps =
          ((sessionSince vars options s asked).cache.get? name).toList := by
  obtain ⟨hsound, steps, hevents, hcache⟩ := regular_sessionSince vars options s asked
  rw [sessionSince_append]
  refine ⟨(settles_evaluateAt vars _ _ pending t _ hsound).1.within, fun name x hx => ?_,
    fun name x hx => hsound.formula hx, steps, hevents, fun name => ?_⟩
  · by_cases hbefore : (sessionSince vars options s asked).cache.get? name = some x
    · exact .inl hbefore
    · exact .inr (exists_calls_of_cached hbefore hx)
  · rw [hcache name]
    exact (List.append_nil _).symm

/-- The table in which the formula of `a` is `b + q`, and nothing is declared under `q`. -/
def halfwayTable : Variables :=
  .ofList [(['a'], .ofFormula ['b', '+', 'q']), (['b'], .ofFormula ['2'])]

/-- The evaluation of `a` fails, but not before it has evaluated the formula of `b`. -/
theorem resolved_once_halfwayTable :
    ((evaluate halfwayTable {} [] ['a']).run {}).1 = .error (.undefinedVariable ['q'] none) ∧
      ((evaluate halfwayTable {} [] ['a']).run {}).2.cache.get? ['b'] = some 2 ∧
      ∃ a, Relation.TransGen (Calls halfwayTable 100) ⟨101, [], ['a'], {}⟩ a ∧
        a.Yields halfwayTable 100 ['b'] 2 := by
  have hcached : ((evaluate halfwayTable {} [] ['a']).run {}).2.cache.get? ['b'] = some 2 := by
    decide +kernel
  have hstart : sessionSince halfwayTable {} {} [] = {} := rfl
  have horigin := (resolved_once halfwayTable {} {} [] [] ['a']).2.1 ['b'] 2
  rw [sessionSince_append, hstart] at horigin
  refine ⟨by decide +kernel, hcached, (horigin hcached).resolve_left fun hbefore => ?_⟩
  cases hbefore

end EquationFigure
