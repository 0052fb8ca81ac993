import EquationFigure.Equation.Evaluation
import EquationFigure.Proofs.Attempt
import EquationFigure.Proofs.Decimal.Bits

/-!
# The stages of an evaluation

An evaluation looks names up, and only that reads or fills the cache.  Resolving groups and
carrying out operations are *quiet*: the same in every session.  So all that two evaluations of one
text can differ in is what the names stand for and how many levels are left.

* `evaluateUsing` — an evaluation in which the value of a name may come from anywhere;
  `evaluateAt_succ` says that `evaluateAt` takes it from `lookUp`.
* `EvalM.Quiet` — the outcome is `EvalM.outcome` in every session, and the cache stays as it is.
* `evaluateUsing_sim` — evaluations of one text whose names have the same values end alike, unless
  one of them runs out of levels.
-/

set_option autoImplicit false

namespace EquationFigure

/-- Works out an equation without names, when `levels + 1` of the `limit + 1` levels of nesting are
left. -/
def resolve (limit levels : Nat) (t : Text) : EvalM Float := do
  if t.count '(' = t.count ')' then
    match ← resolveGroups limit (levels + 1) t with
    | .value x => return x
    | .closed _ => .fail (.parenthesisMismatch t)
  else .fail (.parenthesisMismatch t)

/-- Evaluates an equation in which `value` gives names their values, when `levels + 1` of the
`limit + 1` levels of nesting are left. -/
def evaluateUsing (vars : Variables) (value : Text → EvalM Float) (limit levels : Nat)
    (equation : Text) : EvalM Float := do
  resolve limit levels (← substitute vars value (limit - levels) (equationBody equation))

theorem evaluateAt_zero (vars : Variables) (limit : Nat) (pending : List Text) (equation : Text) :
    evaluateAt vars limit 0 pending equation = .fail (.depthExceeded limit) := rfl

theorem evaluateAt_succ (vars : Variables) (limit levels : Nat) (pending : List Text)
    (equation : Text) :
    evaluateAt vars limit (levels + 1) pending equation =
      evaluateUsing vars
        (lookUp vars (evaluateAt vars limit levels) pending (limit - levels))
        limit levels equation := rfl

namespace EvalM

/-! ## Quiet work -/

variable {α β : Type}

/-- What comes of the work when nothing is remembered. -/
def outcome (x : EvalM α) : Except EvalError α := (x.run {}).1

/-- Work on numbers, told by the bits of what it ends with. -/
theorem run_eq_of_toBits {x : EvalM Float} {s : Session} {y : Float}
    (h : (x.run s).1.toOption.map Float.toBits = some y.toBits) :
    x.run s = (.ok y, (x.run s).2) :=
  Prod.ext (Binary.eq_ok_of_toBits h) rfl

/-- The work has the same outcome in every session and leaves the cache as it is. -/
structure Quiet (x : EvalM α) : Prop where
  /-- The outcome is that without anything remembered. -/
  outcome : ∀ s, (x.run s).1 = x.outcome
  /-- The cache stays as it is. -/
  cache : ∀ s, (x.run s).2.cache = s.cache

theorem quiet_pure (a : α) : Quiet (pure a) := ⟨fun _ => rfl, fun _ => rfl⟩

theorem quiet_fail (e : EvalError) : Quiet (.fail e : EvalM α) := ⟨fun _ => rfl, fun _ => rfl⟩

theorem quiet_ofExcept (r : Except EvalError α) : Quiet (.ofExcept r) :=
  ⟨fun _ => rfl, fun _ => rfl⟩

theorem quiet_record (event : Event) : Quiet (record event) := ⟨fun _ => rfl, fun _ => rfl⟩

theorem run_eq_of_quiet {x : EvalM α} (hx : Quiet x) (s : Session) :
    x.run s = (x.outcome, (x.run s).2) := by
  rw [← hx.outcome s]

theorem Quiet.bind {x : EvalM α} {f : α → EvalM β} (hx : Quiet x) (hf : ∀ a, Quiet (f a)) :
    Quiet (x >>= f) := by
  have hrun := run_eq_of_quiet hx
  have hout : ∀ s, ((x >>= f).run s).1 =
      match x.outcome with
      | .ok a => (f a).outcome
      | .error e => .error e := by
    intro s
    rw [Attempt.run_bind, hrun s]
    cases x.outcome with
    | error e => rfl
    | ok a => exact (hf a).outcome _
  refine ⟨fun s => (hout s).trans (hout {}).symm, fun s => ?_⟩
  have hcache := hx.cache s
  rw [Attempt.run_bind, hrun s]
  cases x.outcome with
  | error e => exact hcache
  | ok a => exact ((hf a).cache _).trans hcache

theorem outcome_bind {x : EvalM α} {f : α → EvalM β} (hx : Quiet x) (hf : ∀ a, Quiet (f a)) :
    (x >>= f).outcome =
      match x.outcome with
      | .ok a => (f a).outcome
      | .error e => .error e := by
  rw [outcome, Attempt.run_bind, run_eq_of_quiet hx]
  cases x.outcome with
  | error e => rfl
  | ok a => exact (hf a).outcome _

theorem outcome_record_bind {x : EvalM α} (hx : Quiet x) (event : Event) :
    (record event >>= fun _ => x).outcome = x.outcome :=
  outcome_bind (quiet_record event) fun _ => hx

/-- What is done after quiet work matters only for what the work ends with. -/
theorem Quiet.bind_congr {x : EvalM α} {f g : α → EvalM β} (hx : Quiet x)
    (h : ∀ a, x.outcome = .ok a → f a = g a) : x >>= f = x >>= g := by
  ext1
  funext s
  rw [Attempt.run_bind, Attempt.run_bind, run_eq_of_quiet hx s]
  cases hout : x.outcome with
  | error e => rfl
  | ok a => simp only [h a hout]

end EvalM

open EvalM

/-! ## The quiet stages -/

theorem quiet_reduceWithin (tiers : List (List Operator)) (steps : Nat) (t : Text) :
    Quiet (reduceWithin tiers steps t) := by
  induction steps generalizing t with
  | zero =>
    rw [reduceWithin.eq_def]
    split
    · exact quiet_ofExcept _
    · exact quiet_fail _
  | succ steps ih =>
    rw [reduceWithin.eq_def]
    split
    · exact quiet_ofExcept _
    · refine (quiet_ofExcept _).bind fun value => ?_
      dsimp only
      split
      · exact quiet_fail _
      · exact (quiet_record _).bind fun _ => ih _

theorem quiet_reduce (t : Text) : Quiet (reduce t) := quiet_reduceWithin _ _ t

/-- The error tells of numbers and operations, and not of names, groups or levels. -/
def EvalError.OfReduction : EvalError → Prop
  | operationFailure _ | emptyExpression | parseFailure _ | divisionByZero _ | nonFinite _ => True
  | _ => False

theorem Operation.value_eq_error {o : Operation} {e : EvalError} (h : o.value = .error e) :
    e = .divisionByZero o.text ∨ e = .nonFinite o.text := by
  rw [Operation.value, Operator.apply] at h
  split at h
  · cases h
    exact .inl rfl
  · dsimp only at h
    split at h
    · cases h
    · cases h
      exact .inr rfl

theorem Operation.error_of_value {o : Operation} {e : EvalError} (h : o.value = .error e) :
    e.OfReduction := by
  rcases Operation.value_eq_error h with rfl | rfl <;> exact trivial

theorem readValue_eq_error {t : Text} {e : EvalError} (h : readValue t = .error e) :
    e = .emptyExpression ∨ e = .parseFailure (Text.trim t) := by
  rw [readValue] at h
  split at h
  · cases h
    exact .inl rfl
  · split at h
    · cases h
    · cases h
      exact .inr rfl

theorem error_of_readValue {t : Text} {e : EvalError} (h : readValue t = .error e) :
    e.OfReduction := by
  rcases readValue_eq_error h with rfl | rfl <;> exact trivial

theorem ends_reduceWithin (tiers : List (List Operator)) (steps : Nat) (t : Text) :
    Attempt.Ends (fun _ => True) (fun _ => True) EvalError.OfReduction
      (reduceWithin tiers steps t) := by
  have hread : ∀ t, Attempt.Ends (σ := Session) (fun _ => True) (fun _ => True)
      EvalError.OfReduction (.ofExcept (readValue t)) := fun t =>
    Attempt.ends_ofExcept (fun _ _ => trivial) fun _ => error_of_readValue
  induction steps generalizing t with
  | zero =>
    rw [reduceWithin.eq_def]
    split
    · exact hread t
    · exact Attempt.ends_fail trivial
  | succ steps ih =>
    rw [reduceWithin.eq_def]
    split
    · exact hread t
    · refine Attempt.Ends.bind (Attempt.ends_ofExcept (fun _ _ => trivial) fun _ =>
        Operation.error_of_value) fun x _ => ?_
      dsimp only
      split
      · exact Attempt.ends_fail trivial
      · exact (Attempt.ends_update fun _ _ => trivial).bind fun _ _ => ih _

/-- **Reducing a text fails for what is in it only.** -/
theorem ends_reduce (t : Text) :
    Attempt.Ends (fun _ => True) (fun _ => True) EvalError.OfReduction (reduce t) :=
  ends_reduceWithin _ _ t

theorem error_of_reduce {t : Text} {e : EvalError} (h : (reduce t).outcome = .error e) :
    e.OfReduction :=
  (ends_reduce t {} trivial).2.2 e h

theorem quiet_closeGroup (depth : Nat) (before after : Text) :
    Quiet (closeGroup depth before after) :=
  (quiet_reduce before).bind fun _ => (quiet_record _).bind fun _ =>
    quiet_pure _

theorem quiet_resolveEach {nested : Text → EvalM Resolved} (hnested : ∀ t, Quiet (nested t))
    (depth groups : Nat) (t : Text) : Quiet (resolveEach nested depth groups t) := by
  induction groups generalizing t with
  | zero =>
    rw [resolveEach.eq_def]
    split
    · exact (quiet_reduce t).bind fun _ => quiet_pure _
    · split
      · exact quiet_closeGroup _ _ _
      · split
        · exact quiet_fail _
        · exact quiet_fail _
  | succ groups ih =>
    rw [resolveEach.eq_def]
    split
    · exact (quiet_reduce t).bind fun _ => quiet_pure _
    · split
      · exact quiet_closeGroup _ _ _
      · split
        · exact quiet_fail _
        · refine (hnested _).bind fun resolved => ?_
          cases resolved with
          | value x => exact quiet_fail _
          | closed rest => exact (quiet_record _).bind fun _ => ih _

theorem quiet_resolveGroups (limit levels : Nat) (t : Text) :
    Quiet (resolveGroups limit levels t) := by
  induction levels generalizing t with
  | zero => exact quiet_fail _
  | succ levels ih => exact quiet_resolveEach ih _ _ _

theorem quiet_substituteWithin {vars : Variables} {value : Text → EvalM Float}
    (hvalue : ∀ name, Quiet (value name)) (depth times : Nat) (t : Text) :
    Quiet (substituteWithin vars value depth times t) := by
  induction times generalizing t with
  | zero =>
    rw [substituteWithin.eq_def]
    split
    · exact quiet_pure _
    · exact quiet_fail _
  | succ times ih =>
    rw [substituteWithin.eq_def]
    split
    · exact quiet_pure _
    · refine (hvalue _).bind fun x => ?_
      dsimp only
      split
      · exact quiet_fail _
      · exact (quiet_record _).bind fun _ => ih _

/-- An evaluation is quiet if looking up names is. -/
theorem quiet_resolve (limit levels : Nat) (t : Text) : Quiet (resolve limit levels t) := by
  rw [resolve]
  split
  · refine (quiet_resolveGroups _ _ _).bind fun resolved => ?_
    cases resolved with
    | value x => exact quiet_pure _
    | closed rest => exact quiet_fail _
  · exact quiet_fail _

/-- The value of a text without names is that of its groups, if its parentheses match. -/
theorem outcome_resolve_of_count {limit levels : Nat} {t : Text} (h : t.count '(' = t.count ')') :
    (resolve limit levels t).outcome =
      match (resolveGroups limit (levels + 1) t).outcome with
      | .ok (.value x) => .ok x
      | .ok (.closed _) => .error (.parenthesisMismatch t)
      | .error e => .error e := by
  rw [resolve, if_pos h, outcome, Attempt.run_bind, run_eq_of_quiet (quiet_resolveGroups _ _ _)]
  cases (resolveGroups limit (levels + 1) t).outcome with
  | error e => rfl
  | ok resolved => cases resolved <;> rfl

theorem outcome_resolve {limit levels : Nat} {t : Text} (hcount : t.count '(' = t.count ')')
    {r : Except EvalError Float}
    (h : (resolveGroups limit (levels + 1) t).outcome = r.map Resolved.value) :
    (resolve limit levels t).outcome = r := by
  rw [outcome_resolve_of_count hcount, h]
  cases r with
  | error e => rfl
  | ok x => rfl

theorem quiet_evaluateUsing {vars : Variables} {value : Text → EvalM Float}
    (hvalue : ∀ name, Quiet (value name)) (limit levels : Nat) (equation : Text) :
    Quiet (evaluateUsing vars value limit levels equation) :=
  (quiet_substituteWithin hvalue _ _ _).bind fun t => quiet_resolve limit levels t

/-! ## Two evaluations of one text -/

section Sim

variable {r : Cache → Cache → Prop} {stops₀ stops₁ : EvalError → Prop} {α : Type}

/-- Two sessions whose caches are related. -/
def OnCaches (r : Cache → Cache → Prop) (s₀ s₁ : Session) : Prop := r s₀.cache s₁.cache

theorem sim_record (event₀ event₁ : Event) :
    Attempt.Sim (OnCaches r) stops₀ stops₁ (record event₀) (record event₁) :=
  Attempt.sim_update fun _ _ h => h

theorem EvalM.Quiet.sim {x : EvalM α} (hx : Quiet x) :
    Attempt.Sim (OnCaches r) stops₀ stops₁ x x := by
  intro s₀ s₁ hs
  refine .inl ⟨(hx.outcome s₀).trans (hx.outcome s₁).symm, ?_⟩
  rw [OnCaches, hx.cache, hx.cache]
  exact hs

/-- Work that ends as quiet work does, which ends with a value, ends with that value. -/
theorem sim_pure_of_quiet {x y : EvalM α} {a : α} (hy : Quiet y) (ha : y.outcome = .ok a)
    (h : Attempt.Sim (OnCaches r) stops₀ (fun _ => True) x y) :
    Attempt.Sim (OnCaches r) stops₀ (fun _ => False) x (pure a) := by
  intro s₀ s₁ hs
  have hok : (y.run s₁).1 = .ok a := (hy.outcome s₁).trans ha
  rcases h s₀ s₁ hs with ⟨heq, hs'⟩ | hstop | ⟨e, he, -⟩
  · rw [OnCaches, hy.cache] at hs'
    exact .inl ⟨heq.trans hok, hs'⟩
  · exact .inr (.inl hstop)
  · rw [hok] at he
    cases he

theorem resolveEach_sim {nested₀ nested₁ : Text → EvalM Resolved}
    (h : ∀ t, Attempt.Sim (OnCaches r) stops₀ stops₁ (nested₀ t) (nested₁ t))
    (depth₀ depth₁ groups : Nat) (t : Text) :
    Attempt.Sim (OnCaches r) stops₀ stops₁ (resolveEach nested₀ depth₀ groups t)
      (resolveEach nested₁ depth₁ groups t) := by
  have hclose : ∀ before after, Attempt.Sim (OnCaches r) stops₀ stops₁
      (closeGroup depth₀ before after) (closeGroup depth₁ before after) := by
    intro before after
    refine Attempt.sim_bind (quiet_reduce before).sim fun value => ?_
    exact Attempt.sim_bind (sim_record _ _) fun _ => Attempt.sim_pure _
  induction groups generalizing t with
  | zero =>
    rw [resolveEach.eq_def, resolveEach.eq_def nested₁]
    split
    · exact ((quiet_reduce t).bind fun _ => quiet_pure _).sim
    · split
      · exact hclose _ _
      · split
        · exact Attempt.sim_fail _
        · exact Attempt.sim_fail _
  | succ groups ih =>
    rw [resolveEach.eq_def, resolveEach.eq_def nested₁]
    split
    · exact ((quiet_reduce t).bind fun _ => quiet_pure _).sim
    · split
      · exact hclose _ _
      · split
        · exact Attempt.sim_fail _
        · refine Attempt.sim_bind (h _) fun resolved => ?_
          cases resolved with
          | value x => exact Attempt.sim_fail _
          | closed rest => exact Attempt.sim_bind (sim_record _ _) fun _ => ih _

/-- What the errors of two evaluations must allow for if they have `levels₀` and `levels₁` levels
left: the one with fewer levels may run out of them. -/
structure RunsOut (stops₀ stops₁ : EvalError → Prop) (limit₀ levels₀ limit₁ levels₁ : Nat) :
    Prop where
  /-- The first one may run out first. -/
  left : levels₀ < levels₁ → stops₀ (.depthExceeded limit₀)
  /-- The second one may run out first. -/
  right : levels₁ < levels₀ → stops₁ (.depthExceeded limit₁)
  /-- If they run out together, they report the same. -/
  both : levels₀ = levels₁ → limit₀ = limit₁ ∨ stops₀ (.depthExceeded limit₀)

theorem RunsOut.pred {limit₀ levels₀ limit₁ levels₁ : Nat}
    (h : RunsOut stops₀ stops₁ limit₀ (levels₀ + 1) limit₁ (levels₁ + 1)) :
    RunsOut stops₀ stops₁ limit₀ levels₀ limit₁ levels₁ :=
  ⟨fun hlt => h.left (by omega), fun hlt => h.right (by omega), fun heq => h.both (by omega)⟩

/-- With no level left on either side, the two end alike. -/
theorem RunsOut.sim_zero {limit₀ limit₁ : Nat} (h : RunsOut stops₀ stops₁ limit₀ 0 limit₁ 0) :
    Attempt.Sim (OnCaches r) stops₀ stops₁ (.fail (.depthExceeded limit₀) : EvalM α)
      (.fail (.depthExceeded limit₁)) := by
  rcases h.both rfl with rfl | hstop
  · exact Attempt.sim_fail _
  · exact Attempt.sim_fail_left hstop _

theorem resolveGroups_sim {limit₀ levels₀ limit₁ levels₁ : Nat}
    (h : RunsOut stops₀ stops₁ limit₀ levels₀ limit₁ levels₁) (t : Text) :
    Attempt.Sim (OnCaches r) stops₀ stops₁ (resolveGroups limit₀ levels₀ t)
      (resolveGroups limit₁ levels₁ t) := by
  induction levels₀ generalizing levels₁ t with
  | zero =>
    cases levels₁ with
    | zero => exact h.sim_zero
    | succ levels₁ => exact Attempt.sim_fail_left (h.left (by omega)) _
  | succ levels₀ ih =>
    cases levels₁ with
    | zero => exact Attempt.sim_fail_right (h.right (by omega)) _
    | succ levels₁ => exact resolveEach_sim (fun t => ih h.pred t) _ _ _ _

theorem substituteWithin_sim {vars : Variables} {value₀ value₁ : Text → EvalM Float}
    (h : ∀ name, Attempt.Sim (OnCaches r) stops₀ stops₁ (value₀ name) (value₁ name))
    (depth₀ depth₁ times : Nat) (t : Text) :
    Attempt.Sim (OnCaches r) stops₀ stops₁ (substituteWithin vars value₀ depth₀ times t)
      (substituteWithin vars value₁ depth₁ times t) := by
  induction times generalizing t with
  | zero =>
    rw [substituteWithin.eq_def, substituteWithin.eq_def _ value₁]
    split
    · exact Attempt.sim_pure _
    · exact Attempt.sim_fail _
  | succ times ih =>
    rw [substituteWithin.eq_def, substituteWithin.eq_def _ value₁]
    split
    · exact Attempt.sim_pure _
    · refine Attempt.sim_bind (h _) fun x => ?_
      dsimp only
      split
      · exact Attempt.sim_fail _
      · exact Attempt.sim_bind (sim_record _ _) fun _ => ih _

/-- **Evaluations of one text with the same values for names end alike**, unless one of them runs
out of levels. -/
theorem evaluateUsing_sim {vars : Variables} {value₀ value₁ : Text → EvalM Float}
    {limit₀ levels₀ limit₁ levels₁ : Nat}
    (hvalue : ∀ name, Attempt.Sim (OnCaches r) stops₀ stops₁ (value₀ name) (value₁ name))
    (h : RunsOut stops₀ stops₁ limit₀ (levels₀ + 1) limit₁ (levels₁ + 1)) (equation : Text) :
    Attempt.Sim (OnCaches r) stops₀ stops₁ (evaluateUsing vars value₀ limit₀ levels₀ equation)
      (evaluateUsing vars value₁ limit₁ levels₁ equation) := by
  refine Attempt.sim_bind (substituteWithin_sim hvalue _ _ _ _) fun t => ?_
  rw [resolve, resolve]
  split
  · refine Attempt.sim_bind (resolveGroups_sim h t) fun resolved => ?_
    cases resolved with
    | value x => exact Attempt.sim_pure _
    | closed rest => exact Attempt.sim_fail _
  · exact Attempt.sim_fail _

end Sim

end EquationFigure
