import EquationFigure.Proofs.Equation.Caching

/-!
# The cache makes no difference

An evaluation in a session that has seen other calls ends as it would in a fresh one, but for the
levels of nesting: a cached value takes no levels, so with a full cache an equation may have a
value for which a fresh session would need more levels than there are.

Two runs of one evaluation go side by side.  The one has a cache, the other lacks some entries of
it, and works them out when it needs them.  That cannot fail, as they could be worked out from what
was cached before them, except that it may run out of levels.

* `Apart vars cache c₀ c₁` — the relation between the two: `c₀` is `c₁` without some entries of
  `cache`.
* `Cache.Sound.solo` — the run that lacks an entry works out the value of that entry.
* `Cache.Sound.evaluateAt_sim` — the two runs end alike, also if one of them has more levels.
* `evaluate_sessionAfter` — after any sequence of calls, an equation is evaluated as in a fresh
  session.
-/

set_option autoImplicit false

namespace EquationFigure

open EvalM

/-! ## Caches that lack some entries -/

/-- `c₀` is `c₁` without some of the entries of `cache`, which `c₁` has all. -/
structure Apart (vars : Variables) (cache c₀ c₁ : Cache) : Prop where
  /-- What `c₀` has, `c₁` has. -/
  within : c₀.Within c₁
  /-- What `cache` has, `c₁` has. -/
  full : cache.Within c₁
  /-- What `c₁` has, one of the others has. -/
  covered : ∀ name x, c₁.get? name = some x → c₀.get? name = some x ∨ cache.get? name = some x
  /-- Only formulas are cached. -/
  formula : ∀ name x, c₁.get? name = some x → ∃ formula, vars.value name = .ok (.formula formula)

section Apart

variable {vars : Variables} {cache c₀ c₁ : Cache}

/-- Both get a new entry. -/
theorem Apart.insert (h : Apart vars cache c₀ c₁) {name formula : Text}
    (hname : vars.value name = .ok (.formula formula)) (hnone : cache.get? name = none)
    (x : Float) : Apart vars cache (c₀.insert name x) (c₁.insert name x) := by
  refine ⟨fun other y hy => ?_, fun other y hy => ?_, fun other y hy => ?_, fun other y hy => ?_⟩
  · rw [Table.get?_insert_eq] at hy ⊢
    split at hy
    · exact (if_pos ‹_›).trans hy
    · exact (if_neg ‹_›).trans (h.within other y hy)
  · have hother : other ≠ name := by
      rintro rfl
      rw [hnone] at hy
      cases hy
    rw [Table.get?_insert_of_ne _ hother]
    exact h.full other y hy
  · rw [Table.get?_insert_eq] at hy ⊢
    split at hy
    · exact .inl ((if_pos ‹_›).trans hy)
    · exact (h.covered other y hy).imp (fun hleft => (if_neg ‹_›).trans hleft) id
  · rw [Table.get?_insert_eq] at hy
    split at hy
    · rename_i hother
      exact ⟨formula, hother ▸ hname⟩
    · exact h.formula other y hy

/-- `c₀` gets an entry that it lacked. -/
theorem Apart.insert_left (h : Apart vars cache c₀ c₁) {name : Text} {x : Float}
    (hget : cache.get? name = some x) : Apart vars cache (c₀.insert name x) c₁ := by
  refine ⟨fun other y hy => ?_, h.full, fun other y hy => ?_, h.formula⟩
  · by_cases hother : other = name
    · subst hother
      rw [Table.get?_insert_self] at hy
      cases hy
      exact h.full other x hget
    · rw [Table.get?_insert_of_ne _ hother] at hy
      exact h.within other y hy
  · rcases h.covered other y hy with hleft | hright
    · by_cases hother : other = name
      · subst hother
        rw [h.full other x hget] at hy
        cases hy
        exact .inr hget
      · exact .inl (by rwa [Table.get?_insert_of_ne _ hother])
    · exact .inr hright

end Apart

/-! ## Working out an entry alone -/

/-- The names being evaluated, none of which is in the cache. -/
def Awaited (vars : Variables) (cache : Cache) (pending : List Text) : Prop :=
  ∀ name ∈ pending, cache.get? name = none ∧ ∃ formula, vars.value name = .ok (.formula formula)

theorem Awaited.push {vars : Variables} {cache : Cache} {pending : List Text}
    (h : Awaited vars cache pending) {name formula : Text} (hnone : cache.get? name = none)
    (hname : vars.value name = .ok (.formula formula)) :
    Awaited vars cache (pending ++ [name]) := by
  intro other hother
  rcases List.mem_append.1 hother with hmem | hmem
  · exact h other hmem
  · rw [List.mem_singleton.1 hmem]
    exact ⟨hnone, formula, hname⟩

theorem Awaited.of_within {vars : Variables} {cache cache' : Cache} {pending : List Text}
    (h : Awaited vars cache' pending) (hsub : cache.Within cache') :
    Awaited vars cache pending := by
  intro name hmem
  obtain ⟨hnone, hformula⟩ := h name hmem
  refine ⟨Option.eq_none_iff_forall_ne_some.2 fun x hx => ?_, hformula⟩
  rw [hsub name x hx] at hnone
  cases hnone

theorem Awaited.notMem {vars : Variables} {cache : Cache} {pending : List Text} {name : Text}
    {x : Float} (h : Awaited vars cache pending) (hget : cache.get? name = some x) :
    name ∉ pending := by
  intro hmem
  rw [(h name hmem).1] at hget
  cases hget

/-- The values of `cache` need fewer than `bound` levels: a run that lacks the entry of a name works
out its value, or runs out of levels, of which it had fewer than that. -/
def SoloWithin (vars : Variables) (cache : Cache) (bound : Nat) : Prop :=
  ∀ full : Cache, cache.Within full → ∀ name x, cache.get? name = some x →
    ∀ limit levels pending depth, Awaited vars cache pending →
      Attempt.Sim (OnCaches (Apart vars full))
        (fun e => levels < bound ∧ e = .depthExceeded limit) (fun _ => False)
        (lookUp vars (evaluateAt vars limit levels) pending depth name) (pure x)

section Solo

variable {vars : Variables} {cache full : Cache} {bound : Nat}

/-- A name that can be recalled is looked up with the same result. -/
theorem SoloWithin.lookUp (h : SoloWithin vars cache bound) (hsub : cache.Within full)
    {limit levels : Nat} {pending : List Text} (hp : Awaited vars cache pending) (depth : Nat)
    (name : Text) :
    Attempt.Sim (OnCaches (Apart vars full))
      (fun e => levels < bound ∧ e = .depthExceeded limit) (fun _ => True)
      (lookUp vars (evaluateAt vars limit levels) pending depth name)
      (recalling vars cache name) := by
  rw [recalling, recalled]
  cases hvalue : vars.value name with
  | error e => exact Attempt.sim_fail_right trivial _
  | ok value =>
    cases value with
    | number x =>
      have hname : name ∉ pending := by
        intro hmem
        obtain ⟨-, formula, hformula⟩ := hp name hmem
        rw [hvalue] at hformula
        cases hformula
      intro s₀ s₁ hs
      have hnone : s₀.cache.get? name = none := by
        rw [Option.eq_none_iff_forall_ne_some]
        intro y hy
        obtain ⟨formula, hformula⟩ := hs.formula name y (hs.within name y hy)
        rw [hvalue] at hformula
        cases hformula
      rw [run_lookUp_number hvalue hname hnone]
      exact .inl ⟨rfl, hs⟩
    | formula formula =>
      dsimp only
      cases hget : cache.get? name with
      | none => exact Attempt.sim_fail_right trivial _
      | some x =>
        exact (h full hsub name x hget limit levels pending depth hp).mono (fun _ he => he)
          fun _ _ => trivial

/-- The formula of an entry has the value of the entry. -/
theorem SoloWithin.evaluateAt (h : SoloWithin vars cache bound) (hsub : cache.Within full)
    {formula : Text} {x : Float} {limit₁ levels₁ : Nat}
    (hout : (evaluateUsing vars (recalling vars cache) limit₁ levels₁ formula).outcome = .ok x)
    (limit levels : Nat) {pending : List Text} (hp : Awaited vars cache pending) :
    Attempt.Sim (OnCaches (Apart vars full))
      (fun e => levels < bound + levels₁ + 2 ∧ e = .depthExceeded limit) (fun _ => False)
      (EquationFigure.evaluateAt vars limit levels pending formula) (pure x) := by
  cases levels with
  | zero => exact Attempt.sim_fail_left ⟨by omega, rfl⟩ _
  | succ levels =>
    rw [evaluateAt_succ]
    refine sim_pure_of_quiet (quiet_evaluateUsing (quiet_recalling vars cache) _ _ _) hout ?_
    refine evaluateUsing_sim (fun name => ?_) ?_ formula
    · refine (h.lookUp hsub hp _ name).mono ?_ fun _ _ => trivial
      rintro e ⟨hlevels, rfl⟩
      exact ⟨by omega, rfl⟩
    · exact ⟨fun _ => ⟨by omega, rfl⟩, fun _ => trivial, fun _ => .inr ⟨by omega, rfl⟩⟩

/-- A run that lacks the entry of a name works its value out by evaluating its formula. -/
theorem SoloWithin.lookUp_self (h : SoloWithin vars cache bound) (hsub : cache.Within full)
    {name formula : Text} {x : Float} {limit₁ levels₁ : Nat} (hnone : cache.get? name = none)
    (hname : vars.value name = .ok (.formula formula))
    (hout : (evaluateUsing vars (recalling vars cache) limit₁ levels₁ formula).outcome = .ok x)
    (hfull : full.get? name = some x) (limit levels : Nat) {pending : List Text}
    (hp : Awaited vars cache pending) (hmem : name ∉ pending) (depth : Nat) :
    Attempt.Sim (OnCaches (Apart vars full))
      (fun e => levels < bound + levels₁ + 2 ∧ e = .depthExceeded limit) (fun _ => False)
      (EquationFigure.lookUp vars (EquationFigure.evaluateAt vars limit levels) pending depth name)
      (pure x) := by
  intro s₀ s₁ hs
  cases hcached : s₀.cache.get? name with
  | some z =>
    rw [run_lookUp_cached hname hmem hcached]
    have hz := hs.within name z hcached
    rw [hs.full name x hfull] at hz
    cases hz
    exact .inl ⟨rfl, hs⟩
  | none =>
    rw [run_lookUp_formula hname hmem hcached]
    have hrun := h.evaluateAt hsub hout limit levels (hp.push hnone hname) s₀ s₁ hs
    rw [resolveFormula, Attempt.run_bind]
    revert hrun
    rcases (EquationFigure.evaluateAt vars limit levels (pending ++ [name]) formula).run s₀
      with ⟨r, s₀'⟩
    rintro (⟨heq, hs'⟩ | ⟨e, he, hstop⟩ | ⟨e, -, hfalse⟩)
    · cases heq
      exact .inl ⟨rfl, Apart.insert_left hs' hfull⟩
    · cases he
      exact .inr (.inl ⟨e, rfl, hstop⟩)
    · exact hfalse.elim

theorem SoloWithin.insert (h : SoloWithin vars cache bound) {name formula : Text} {x : Float}
    {limit₁ levels₁ : Nat} (hnone : cache.get? name = none)
    (hname : vars.value name = .ok (.formula formula))
    (hout : (evaluateUsing vars (recalling vars cache) limit₁ levels₁ formula).outcome = .ok x) :
    SoloWithin vars (cache.insert name x) (bound + levels₁ + 2) := by
  intro full hsub other y hy limit levels pending depth hp
  have hcache : cache.Within full := (Cache.within_insert hnone x).trans hsub
  have hp' : Awaited vars cache pending := hp.of_within (Cache.within_insert hnone x)
  by_cases hother : other = name
  · subst hother
    have hself := Table.get?_insert_self cache other x
    rw [hself] at hy
    cases hy
    exact h.lookUp_self hcache hnone hname hout (hsub other x hself) limit levels hp'
      (hp.notMem hself) depth
  · rw [Table.get?_insert_of_ne _ hother] at hy
    refine (h full hcache other y hy limit levels pending depth hp').mono ?_ fun _ he => he
    rintro e ⟨hlevels, rfl⟩
    exact ⟨by omega, rfl⟩

/-- **An entry of a sound cache can be worked out without it.** -/
theorem Cache.Sound.solo (h : cache.Sound vars) : ∃ bound, SoloWithin vars cache bound := by
  induction h with
  | empty => exact ⟨0, fun _ _ _ _ hget => by cases hget⟩
  | insert _ hnone hname hout ih =>
    obtain ⟨bound, hsolo⟩ := ih
    exact ⟨_, hsolo.insert hnone hname hout⟩

end Solo

/-! ## The two runs side by side -/

section Warm

variable {vars : Variables} {cache : Cache} {bound : Nat}

/-- The errors that may stop the run that lacks entries, if it has `extra` more levels than the
other. -/
def StopsCold (bound extra limit : Nat) (e : EvalError) : Prop :=
  extra < bound ∧ e = .depthExceeded (limit + extra)

/-- The errors that may stop the run that has all entries. -/
def StopsWarm (extra limit : Nat) (e : EvalError) : Prop := 0 < extra ∧ e = .depthExceeded limit

theorem lookUp_sim (hsolo : SoloWithin vars cache bound) {extra limit levels : Nat}
    (heval : ∀ pending formula, Awaited vars cache pending →
      Attempt.Sim (OnCaches (Apart vars cache)) (StopsCold bound extra limit)
        (StopsWarm extra limit) (evaluateAt vars (limit + extra) (levels + extra) pending formula)
        (evaluateAt vars limit levels pending formula))
    {pending : List Text} (hp : Awaited vars cache pending) (depth₀ depth₁ : Nat) (name : Text) :
    Attempt.Sim (OnCaches (Apart vars cache)) (StopsCold bound extra limit) (StopsWarm extra limit)
      (lookUp vars (evaluateAt vars (limit + extra) (levels + extra)) pending depth₀ name)
      (lookUp vars (evaluateAt vars limit levels) pending depth₁ name) := by
  cases hvalue : vars.value name with
  | error e =>
    rw [lookUp_of_error hvalue, lookUp_of_error hvalue]
    exact Attempt.sim_fail _
  | ok value =>
    by_cases hmem : name ∈ pending
    · rw [lookUp_of_pending hvalue hmem, lookUp_of_pending hvalue hmem]
      exact Attempt.sim_fail _
    intro s₀ s₁ hs
    cases hwarm : s₁.cache.get? name with
    | some x =>
      rw [run_lookUp_cached hvalue hmem hwarm]
      rcases hs.covered name x hwarm with hcold | hcache
      · rw [run_lookUp_cached hvalue hmem hcold]
        exact .inl ⟨rfl, hs⟩
      · -- The run that lacks the entry works it out while the other one waits.
        have hrun := hsolo cache (.refl _) name x hcache (limit + extra) (levels + extra) pending
          depth₀ hp s₀ s₁ hs
        rcases hrun with hrun | ⟨e, he, hlevels, rfl⟩ | ⟨e, -, hfalse⟩
        · exact .inl hrun
        · exact .inr (.inl ⟨_, he, by omega, rfl⟩)
        · exact hfalse.elim
    | none =>
      have hcold : s₀.cache.get? name = none :=
        Option.eq_none_iff_forall_ne_some.2 fun x hx => by
          rw [hs.within name x hx] at hwarm
          cases hwarm
      cases value with
      | number x =>
        rw [run_lookUp_number hvalue hmem hwarm, run_lookUp_number hvalue hmem hcold]
        exact .inl ⟨rfl, hs⟩
      | formula formula =>
        have hcache : cache.get? name = none :=
          Option.eq_none_iff_forall_ne_some.2 fun x hx => by
            rw [hs.full name x hx] at hwarm
            cases hwarm
        rw [run_lookUp_formula hvalue hmem hwarm, run_lookUp_formula hvalue hmem hcold]
        exact resolveFormula_sim (heval _ formula (hp.push hcache hvalue))
          (fun x _ _ h => Apart.insert h hvalue hcache x) s₀ s₁ hs

/-- **Two runs that differ in cached entries and in levels end alike.** -/
theorem SoloWithin.evaluateAt_sim (hsolo : SoloWithin vars cache bound) (extra limit levels : Nat)
    {pending : List Text} (hp : Awaited vars cache pending) (equation : Text) :
    Attempt.Sim (OnCaches (Apart vars cache)) (StopsCold bound extra limit) (StopsWarm extra limit)
      (EquationFigure.evaluateAt vars (limit + extra) (levels + extra) pending equation)
      (EquationFigure.evaluateAt vars limit levels pending equation) := by
  induction levels generalizing pending equation with
  | zero =>
    rw [evaluateAt_zero]
    cases extra with
    | zero => exact Attempt.sim_fail _
    | succ extra => exact Attempt.sim_fail_right ⟨by omega, rfl⟩ _
  | succ levels ih =>
    rw [Nat.succ_add, evaluateAt_succ, evaluateAt_succ]
    refine evaluateUsing_sim (fun name => ?_) ⟨?_, ?_, ?_⟩ equation
    · exact lookUp_sim hsolo (fun _ formula h => ih h formula) hp _ _ name
    · exact fun hlt => absurd hlt (by omega)
    · exact fun hlt => ⟨by omega, rfl⟩
    · exact fun heq => .inl (by omega)

end Warm

/-! ## After any sequence of calls -/

/-- The fresh session and one with a sound cache are apart by that cache. -/
theorem Cache.Sound.apart_empty {vars : Variables} {cache : Cache} (h : cache.Sound vars) :
    Apart vars cache ∅ cache :=
  ⟨nofun, .refl _, fun _ _ hx => .inr hx, fun _ _ hx => h.formula hx⟩

/-- **After any sequence of calls an equation is evaluated as in a fresh session.**  If a fresh
session runs out of levels, then either so does this one, or it ends as a fresh session does that
has levels enough. -/
theorem evaluate_sessionAfter (vars : Variables) (options : EvalOptions) (calls : List Call)
    (equation : Text) :
    let warm := ((evaluate vars options [] equation).run (sessionAfter vars options calls)).1
    let fresh := evaluateFresh vars options equation
    warm = fresh ∨
      fresh = .error (.depthExceeded options.maxDepth) ∧
        ∃ enough, ∀ n ≥ enough,
          evaluateFresh vars { options with maxDepth := n } equation = warm := by
  intro warm fresh
  let fresh' extra :=
    evaluateFresh vars { options with maxDepth := options.maxDepth + extra } equation
  have hsound := sound_sessionAfter vars options calls
  obtain ⟨bound, hsolo⟩ := hsound.solo
  -- The fresh run with more levels against the run with the cache.
  have hrun : ∀ extra, fresh' extra = warm ∨
      (extra < bound ∧ fresh' extra = .error (.depthExceeded (options.maxDepth + extra))) ∨
      0 < extra ∧ warm = .error (.depthExceeded options.maxDepth) := by
    intro extra
    have hlevels : options.maxDepth + extra + 1 = options.maxDepth + 1 + extra := by omega
    have hawaited : Awaited vars (sessionAfter vars options calls).cache [] :=
      List.forall_mem_nil _
    have h := hsolo.evaluateAt_sim extra options.maxDepth (options.maxDepth + 1) hawaited equation
      {} (sessionAfter vars options calls) hsound.apart_empty
    rw [← hlevels] at h
    rcases h with ⟨heq, -⟩ | ⟨_, he, hlt, rfl⟩ | ⟨_, he, hpos, rfl⟩
    · exact .inl heq
    · exact .inr (.inl ⟨hlt, he⟩)
    · exact .inr (.inr ⟨hpos, he⟩)
  rcases hrun 0 with heq | ⟨-, hfresh⟩ | ⟨hpos, -⟩
  · exact .inl heq.symm
  · by_cases hwarm : warm = .error (.depthExceeded options.maxDepth)
    · exact .inl (hwarm.trans hfresh.symm)
    · refine .inr ⟨hfresh, options.maxDepth + bound, fun n hn => ?_⟩
      obtain ⟨extra, rfl⟩ := Nat.exists_eq_add_of_le (Nat.le_of_add_right_le hn)
      rcases hrun extra with heq | ⟨hlt, -⟩ | ⟨-, hstop⟩
      · exact heq
      · omega
      · exact absurd hstop hwarm
  · omega

end EquationFigure
