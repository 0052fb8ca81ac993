import EquationFigure.Attempt

/-!
# Reasoning about attempts

What is true of a long piece of work that may fail and leaves a trace follows from what is true of
its parts, by one law for doing one thing after another.

* `Attempt.run_bind_eq_ok`, `Attempt.run_bind_eq_error` — where the outcome of two things, one after
  the other, comes from.
* `Attempt.Ends I good bad x` — from a state with the invariant `I`, `x` leaves one, and it ends
  with good values and fails with bad errors only; `Attempt.Ends.bind` is the law.
* `Attempt.Pairs R good bad stops x y` — from states related by `R`, `x` and `y` end with values
  that belong together and leave related states, or fail with errors that do, unless one of them is
  stopped; `Attempt.Pairs.bind` is the law.
* `Attempt.Sim R stops₀ stops₁ x y` — from states related by `R`, `x` and `y` have the same outcome
  and leave related states, unless one of them is stopped by an error that it may be stopped by;
  `Attempt.sim_bind` is the law, and `Attempt.sim_bind_of_map` is one for values that need not be
  the same.
-/

set_option autoImplicit false

namespace EquationFigure

namespace Attempt

variable {σ ε α β : Type}

/-! ## Outcomes of one thing after another -/

theorem run_bind_eq_ok {x : Attempt σ ε α} {f : α → Attempt σ ε β} {s s' : σ} {b : β} :
    (x >>= f).run s = (.ok b, s') ↔
      ∃ a s₁, x.run s = (.ok a, s₁) ∧ (f a).run s₁ = (.ok b, s') := by
  rw [run_bind]
  rcases x.run s with ⟨e | a, s₁⟩
  · simp
  · simp [and_assoc]

theorem run_bind_eq_error {x : Attempt σ ε α} {f : α → Attempt σ ε β} {s s' : σ} {e : ε} :
    (x >>= f).run s = (.error e, s') ↔
      x.run s = (.error e, s') ∨ ∃ a s₁, x.run s = (.ok a, s₁) ∧ (f a).run s₁ = (.error e, s') := by
  rw [run_bind]
  rcases x.run s with ⟨e' | a, s₁⟩
  · simp
  · simp [and_assoc]

/-- What is done with the values of some work need only agree on values that it ends with. -/
theorem bind_congr_of_ok {x : Attempt σ ε α} {f g : α → Attempt σ ε β}
    (h : ∀ s s' a, x.run s = (.ok a, s') → f a = g a) : (x >>= f) = (x >>= g) := by
  ext1
  funext s
  rw [run_bind, run_bind]
  rcases hx : x.run s with ⟨e | a, s'⟩
  · rfl
  · exact congrArg (fun y => y.run s') (h s s' a hx)

theorem run_map (f : α → β) (x : Attempt σ ε α) (s : σ) :
    (f <$> x).run s = ((x.run s).1.map f, (x.run s).2) := by
  rw [map_eq_pure_bind, run_bind]
  rcases x.run s with ⟨e | a, s⟩ <;> rfl

section Map

variable {γ : Type} {x : Attempt σ ε α} {y : Attempt σ ε γ} {k : γ → Option α} {s s' : σ}

/-- Work whose values are all there are of other work, worked on by `k`, fails as that does. -/
theorem run_eq_error_of_map (h : some <$> x = k <$> y) {e : ε} (hy : y.run s = (.error e, s')) :
    x.run s = (.error e, s') := by
  have hrun := congrArg (fun z => z.run s) h
  simp only [run_map, hy] at hrun
  rcases hx : x.run s with ⟨e' | a, s₁⟩
  · rw [hx] at hrun
    obtain ⟨heq, rfl⟩ := Prod.mk.inj hrun
    cases heq
    rfl
  · rw [hx] at hrun
    cases hrun

/-- Work whose values are all there are of other work, worked on by `k`, ends as that does. -/
theorem exists_run_eq_ok_of_map (h : some <$> x = k <$> y) {c : γ}
    (hy : y.run s = (.ok c, s')) : ∃ a, k c = some a ∧ x.run s = (.ok a, s') := by
  have hrun := congrArg (fun z => z.run s) h
  simp only [run_map, hy] at hrun
  rcases hx : x.run s with ⟨e | a, s₁⟩
  · rw [hx] at hrun
    cases hrun
  · rw [hx] at hrun
    obtain ⟨heq, rfl⟩ := Prod.mk.inj hrun
    exact ⟨a, (Except.ok.inj heq).symm, rfl⟩

end Map

/-! ## Invariants -/

/-- From a state with the invariant, the work leaves one, ends with good values only and fails with
bad errors only. -/
def Ends (I : σ → Prop) (good : α → Prop) (bad : ε → Prop) (x : Attempt σ ε α) : Prop :=
  ∀ s, I s → I (x.run s).2 ∧ (∀ a, (x.run s).1 = .ok a → good a) ∧
    ∀ e, (x.run s).1 = .error e → bad e

section Ends

variable {I : σ → Prop} {good : α → Prop} {bad : ε → Prop}

theorem ends_pure {a : α} (ha : good a) : Ends I good bad (pure a) := by
  refine fun s hs => ⟨hs, fun b hb => ?_, fun _ h => by cases h⟩
  cases hb
  exact ha

theorem ends_fail {e : ε} (he : bad e) : Ends I good bad (fail e) := by
  refine fun s hs => ⟨hs, fun _ h => (by cases h), fun e' he' => ?_⟩
  cases he'
  exact he

theorem ends_ofExcept {r : Except ε α} (hgood : ∀ a, r = .ok a → good a)
    (hbad : ∀ e, r = .error e → bad e) : Ends I good bad (ofExcept r) :=
  fun _ hs => ⟨hs, hgood, hbad⟩

theorem ends_update {f : σ → σ} (h : ∀ s, I s → I (f s)) :
    Ends I (fun _ => True) bad (update f) :=
  fun s hs => ⟨h s hs, fun _ _ => trivial, fun _ he => by cases he⟩

theorem Ends.bind {good' : β → Prop} {x : Attempt σ ε α} {f : α → Attempt σ ε β}
    (hx : Ends I good bad x) (hf : ∀ a, good a → Ends I good' bad (f a)) :
    Ends I good' bad (x >>= f) := by
  intro s hs
  have h := hx s hs
  rw [run_bind]
  revert h
  rcases x.run s with ⟨e | a, s₁⟩
  · rintro ⟨hs₁, -, hbad⟩
    refine ⟨hs₁, fun _ h => (by cases h), fun e' he' => ?_⟩
    cases he'
    exact hbad e rfl
  · rintro ⟨hs₁, hgood, -⟩
    exact hf a (hgood a rfl) s₁ hs₁

theorem Ends.mono {good' : α → Prop} {bad' : ε → Prop} {x : Attempt σ ε α}
    (hx : Ends I good bad x) (hgood : ∀ a, good a → good' a) (hbad : ∀ e, bad e → bad' e) :
    Ends I good' bad' x := by
  intro s hs
  obtain ⟨hs', h, h'⟩ := hx s hs
  exact ⟨hs', fun a ha => hgood a (h a ha), fun e he => hbad e (h' e he)⟩

/-- What the work ends with has any property that its values have anyway. -/
theorem Ends.and {good' : α → Prop} {x : Attempt σ ε α} (hx : Ends I good bad x)
    (h : ∀ s a, (x.run s).1 = .ok a → good' a) : Ends I (fun a => good a ∧ good' a) bad x :=
  fun s hs => ⟨(hx s hs).1, fun a ha => ⟨(hx s hs).2.1 a ha, h s a ha⟩, (hx s hs).2.2⟩

end Ends

/-! ## Two attempts with outcomes of their own -/

/-- The outcomes are values that belong together, or errors that do, or one of them is an error with
which nothing is compared. -/
inductive Agree (good : α → β → Prop) (bad : ε → ε → Prop) (stops : ε → Prop) :
    Except ε α → Except ε β → Prop
  | ok {a : α} {b : β} : good a b → Agree good bad stops (.ok a) (.ok b)
  | error {e e' : ε} : bad e e' → Agree good bad stops (.error e) (.error e')
  | left {e : ε} {r : Except ε β} : stops e → Agree good bad stops (.error e) r
  | right {r : Except ε α} {e : ε} : stops e → Agree good bad stops r (.error e)

/-- From related states, the two attempts have outcomes that belong together, and if they end with
values, they leave related states. -/
def Pairs (R : σ → σ → Prop) (good : α → β → Prop) (bad : ε → ε → Prop) (stops : ε → Prop)
    (x : Attempt σ ε α) (y : Attempt σ ε β) : Prop :=
  ∀ s₀ s₁, R s₀ s₁ → Agree good bad stops (x.run s₀).1 (y.run s₁).1 ∧
    ∀ a b, (x.run s₀).1 = .ok a → (y.run s₁).1 = .ok b → R (x.run s₀).2 (y.run s₁).2

section Pairs

variable {γ δ : Type} {R : σ → σ → Prop} {good : α → β → Prop} {good' : γ → δ → Prop}
  {bad : ε → ε → Prop} {stops : ε → Prop}

theorem pairs_pure {a : α} {b : β} (h : good a b) : Pairs R good bad stops (pure a) (pure b) :=
  fun _ _ hs => ⟨.ok h, fun _ _ _ _ => hs⟩

theorem pairs_fail {e e' : ε} (h : bad e e') : Pairs R good bad stops (fail e) (fail e') :=
  fun _ _ hs => ⟨.error h, fun _ _ _ _ => hs⟩

theorem pairs_read {f : σ → α} {g : σ → β} (h : ∀ s₀ s₁, R s₀ s₁ → good (f s₀) (g s₁)) :
    Pairs R good bad stops (read f) (read g) :=
  fun s₀ s₁ hs => ⟨.ok (h s₀ s₁ hs), fun _ _ _ _ => hs⟩

theorem pairs_update {f g : σ → σ} (h : ∀ s₀ s₁, R s₀ s₁ → R (f s₀) (g s₁)) :
    Pairs R (fun _ _ => True) bad stops (update f) (update g) :=
  fun s₀ s₁ hs => ⟨.ok trivial, fun _ _ _ _ => h s₀ s₁ hs⟩

theorem Pairs.bind {x : Attempt σ ε α} {y : Attempt σ ε β} {f : α → Attempt σ ε γ}
    {g : β → Attempt σ ε δ} (hxy : Pairs R good bad stops x y)
    (hfg : ∀ a b, good a b → Pairs R good' bad stops (f a) (g b)) :
    Pairs R good' bad stops (x >>= f) (y >>= g) := by
  intro s₀ s₁ hs
  have h := hxy s₀ s₁ hs
  rw [run_bind, run_bind]
  revert h
  rcases x.run s₀ with ⟨r₀, s₀'⟩
  rcases y.run s₁ with ⟨r₁, s₁'⟩
  rintro ⟨h, hs'⟩
  cases h with
  | ok hab => exact hfg _ _ hab s₀' s₁' (hs' _ _ rfl rfl)
  | error he => exact ⟨.error he, fun _ _ h _ => by cases h⟩
  | left he => exact ⟨.left he, fun _ _ h _ => by cases h⟩
  | right he => exact ⟨.right he, fun _ _ _ h => by cases h⟩

end Pairs

/-! ## Two attempts side by side -/

/-- The two ends of a pair of runs: equal outcomes and related states, unless a run was stopped. -/
def Alike (R : σ → σ → Prop) (stops₀ stops₁ : ε → Prop) (p q : Except ε α × σ) : Prop :=
  (p.1 = q.1 ∧ R p.2 q.2) ∨ (∃ e, p.1 = .error e ∧ stops₀ e) ∨ ∃ e, q.1 = .error e ∧ stops₁ e

/-- From related states, `x` and `y` end alike. -/
def Sim (R : σ → σ → Prop) (stops₀ stops₁ : ε → Prop) (x y : Attempt σ ε α) : Prop :=
  ∀ s₀ s₁, R s₀ s₁ → Alike R stops₀ stops₁ (x.run s₀) (y.run s₁)

variable {R : σ → σ → Prop} {stops₀ stops₁ : ε → Prop}

theorem sim_pure (a : α) : Sim R stops₀ stops₁ (pure a) (pure a) :=
  fun _ _ h => .inl ⟨rfl, h⟩

theorem sim_fail (e : ε) : Sim (α := α) R stops₀ stops₁ (fail e) (fail e) :=
  fun _ _ h => .inl ⟨rfl, h⟩

theorem sim_update {f g : σ → σ} (h : ∀ s₀ s₁, R s₀ s₁ → R (f s₀) (g s₁)) :
    Sim R stops₀ stops₁ (update f) (update g) :=
  fun s₀ s₁ hs => .inl ⟨rfl, h s₀ s₁ hs⟩

theorem sim_fail_left {e : ε} (he : stops₀ e) (y : Attempt σ ε α) :
    Sim R stops₀ stops₁ (fail e) y :=
  fun _ _ _ => .inr (.inl ⟨e, rfl, he⟩)

theorem sim_fail_right {e : ε} (he : stops₁ e) (x : Attempt σ ε α) :
    Sim R stops₀ stops₁ x (fail e) :=
  fun _ _ _ => .inr (.inr ⟨e, rfl, he⟩)

theorem sim_bind {x y : Attempt σ ε α} {f g : α → Attempt σ ε β}
    (hxy : Sim R stops₀ stops₁ x y) (hfg : ∀ a, Sim R stops₀ stops₁ (f a) (g a)) :
    Sim R stops₀ stops₁ (x >>= f) (y >>= g) := by
  intro s₀ s₁ hs
  have h := hxy s₀ s₁ hs
  rw [run_bind, run_bind]
  revert h
  rcases x.run s₀ with ⟨r₀, s₀'⟩
  rcases y.run s₁ with ⟨r₁, s₁'⟩
  intro h
  rcases h with ⟨heq, hs'⟩ | ⟨e, he, hstop⟩ | ⟨e, he, hstop⟩
  · subst heq
    cases r₀ with
    | error e => exact .inl ⟨rfl, hs'⟩
    | ok a => exact hfg a s₀' s₁' hs'
  · subst he
    exact .inr (.inl ⟨e, rfl, hstop⟩)
  · subst he
    exact .inr (.inr ⟨e, rfl, hstop⟩)

theorem Sim.mono {x y : Attempt σ ε α} {stops₀' stops₁' : ε → Prop}
    (h : Sim R stops₀ stops₁ x y) (h₀ : ∀ e, stops₀ e → stops₀' e)
    (h₁ : ∀ e, stops₁ e → stops₁' e) : Sim R stops₀' stops₁' x y := by
  intro s₀ s₁ hs
  rcases h s₀ s₁ hs with h | ⟨e, he, hstop⟩ | ⟨e, he, hstop⟩
  · exact .inl h
  · exact .inr (.inl ⟨e, he, h₀ e hstop⟩)
  · exact .inr (.inr ⟨e, he, h₁ e hstop⟩)

theorem Sim.map {x y : Attempt σ ε α} (h : Sim R stops₀ stops₁ x y) (f : α → β) :
    Sim R stops₀ stops₁ (f <$> x) (f <$> y) := by
  rw [map_eq_pure_bind, map_eq_pure_bind]
  exact sim_bind h fun a => sim_pure (f a)

/-- If two attempts are alike up to a function of their values, what is done with the values has to
be alike for any two that the function takes to the same. -/
theorem sim_bind_of_map {γ : Type} {f : α → γ} {x y : Attempt σ ε α}
    {g g' : α → Attempt σ ε β}
    (hxy : Sim R stops₀ stops₁ (f <$> x) (f <$> y))
    (hg : ∀ a b, f a = f b → Sim R stops₀ stops₁ (g a) (g' b)) :
    Sim R stops₀ stops₁ (x >>= g) (y >>= g') := by
  intro s₀ s₁ hs
  have h := hxy s₀ s₁ hs
  rw [run_map, run_map] at h
  rw [run_bind, run_bind]
  revert h
  rcases x.run s₀ with ⟨r₀, s₀'⟩
  rcases y.run s₁ with ⟨r₁, s₁'⟩
  rintro (⟨heq, hs'⟩ | ⟨e, he, hstop⟩ | ⟨e, he, hstop⟩)
  · cases r₀ with
    | error e =>
      cases r₁ with
      | error e' =>
        cases heq
        exact .inl ⟨rfl, hs'⟩
      | ok b => cases heq
    | ok a =>
      cases r₁ with
      | error e' => cases heq
      | ok b => exact hg a b (Except.ok.inj heq) _ _ hs'
  · cases r₀ with
    | error e' =>
      cases he
      exact .inr (.inl ⟨e, rfl, hstop⟩)
    | ok a => cases he
  · cases r₁ with
    | error e' =>
      cases he
      exact .inr (.inr ⟨e, rfl, hstop⟩)
    | ok b => cases he

/-- Attempts that end alike, and of which none is stopped, have equal values or equal errors. -/
theorem Sim.pairs {bad : ε → ε → Prop} {x y : Attempt σ ε α}
    (h : Sim R (fun _ => False) (fun _ => False) x y) (hbad : ∀ e, bad e e) :
    Pairs R (fun a b => a = b) bad (fun _ => False) x y := by
  intro s₀ s₁ hs
  rcases h s₀ s₁ hs with ⟨heq, hs'⟩ | ⟨_, -, hfalse⟩ | ⟨_, -, hfalse⟩
  · rw [← heq]
    refine ⟨?_, fun _ _ _ _ => hs'⟩
    cases (x.run s₀).1 with
    | error e => exact .error (hbad e)
    | ok a => exact .ok rfl
  · exact hfalse.elim
  · exact hfalse.elim

end Attempt

end EquationFigure
