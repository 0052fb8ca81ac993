/-!
# Work that may fail and leaves a trace

Evaluating an equation fills a cache and writes down the steps taken, and it may fail half-way.
What it has found by then stays: a failure does not undo the state.  `Attempt σ ε α` is work of
that kind, a function from a state to an outcome *and* the next state.

* `Attempt.fail`, `Attempt.read`, `Attempt.update` — the three things such work can do besides
  computing.  One lemma each says what they do, and `run_bind` says what doing one thing after
  another does; with these, no proof has to unfold the monad.
-/

set_option autoImplicit false

namespace EquationFigure

/-- Work on a state `σ` that ends with an `α` or fails with an `ε`, and keeps the state either
way. -/
@[ext] structure Attempt (σ ε α : Type) where
  /-- The outcome and the state afterwards, from the state before. -/
  run : σ → Except ε α × σ

namespace Attempt

variable {σ ε α β : Type}

instance : Monad (Attempt σ ε) where
  pure a := ⟨fun s => (.ok a, s)⟩
  bind x f := ⟨fun s =>
    match x.run s with
    | (.ok a, s) => (f a).run s
    | (.error e, s) => (.error e, s)⟩

/-- Fails with `e`. -/
def fail (e : ε) : Attempt σ ε α := ⟨fun s => (.error e, s)⟩

/-- Ends with a value read off the state. -/
def read (f : σ → α) : Attempt σ ε α := ⟨fun s => (.ok (f s), s)⟩

/-- Changes the state. -/
def update (f : σ → σ) : Attempt σ ε Unit := ⟨fun s => (.ok (), f s)⟩

/-- Ends or fails as `r` says. -/
def ofExcept (r : Except ε α) : Attempt σ ε α := ⟨fun s => (r, s)⟩

/-! ## What each of them does to a state -/

@[simp] theorem run_pure (a : α) (s : σ) :
    (pure a : Attempt σ ε α).run s = (.ok a, s) := rfl

@[simp] theorem run_fail (e : ε) (s : σ) : (fail e : Attempt σ ε α).run s = (.error e, s) := rfl

@[simp] theorem run_read (f : σ → α) (s : σ) :
    (read f : Attempt σ ε α).run s = (.ok (f s), s) := rfl

@[simp] theorem run_update (f : σ → σ) (s : σ) :
    (update f : Attempt σ ε Unit).run s = (.ok (), f s) := rfl

@[simp] theorem run_ofExcept (r : Except ε α) (s : σ) :
    (ofExcept r : Attempt σ ε α).run s = (r, s) := rfl

theorem run_bind (x : Attempt σ ε α) (f : α → Attempt σ ε β) (s : σ) :
    (x >>= f).run s = match x.run s with
      | (.ok a, s) => (f a).run s
      | (.error e, s) => (.error e, s) := rfl

theorem run_bind_of_ok {x : Attempt σ ε α} {s s' : σ} {a : α} (h : x.run s = (.ok a, s'))
    (f : α → Attempt σ ε β) : (x >>= f).run s = (f a).run s' := by
  simp [run_bind, h]

theorem run_bind_of_error {x : Attempt σ ε α} {s s' : σ} {e : ε}
    (h : x.run s = (.error e, s')) (f : α → Attempt σ ε β) :
    (x >>= f).run s = (.error e, s') := by
  simp [run_bind, h]

theorem bind_pure (x : Attempt σ ε α) : (x >>= fun a => pure a) = x := by
  ext1
  funext s
  rw [run_bind]
  cases x.run s with
  | mk r s => cases r <;> rfl

theorem bind_assoc {γ : Type} (x : Attempt σ ε α) (f : α → Attempt σ ε β)
    (g : β → Attempt σ ε γ) : (x >>= f >>= g) = (x >>= fun a => f a >>= g) := by
  ext1
  funext s
  rw [run_bind, run_bind, run_bind]
  cases x.run s with
  | mk r s => cases r <;> rfl

instance : LawfulMonad (Attempt σ ε) :=
  LawfulMonad.mk' (Attempt σ ε) bind_pure (fun _ _ => rfl) bind_assoc

end Attempt

end EquationFigure
