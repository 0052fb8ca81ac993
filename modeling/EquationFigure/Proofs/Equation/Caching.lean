import EquationFigure.Proofs.Equation.LookUp

/-!
# The caches that evaluation fills

Evaluation puts the value of a formula into the cache as soon as it is known, also on the way to a
failure and deep inside other evaluations.  Whatever the calls were, what is in the cache can be
worked out from it: each value is that of its formula, with the names in it taken from what was
cached before.

* `Cache.Sound` — a cache that was filled like this, one formula after the other.
* `EvalM.Recounts` — work keeps caches sound, and what it ends with can be worked out again from
  the cache it leaves, `recounts_evaluateUsing`, `settles_evaluateAt`.
* `sessionAfter` — the session after any sequence of calls; `sound_sessionAfter` says that its
  cache is sound.
-/

set_option autoImplicit false

namespace EquationFigure

/-! ## Sound caches -/

/-- A cache of values of formulas, each worked out from those that were there before it. -/
inductive Cache.Sound (vars : Variables) : Cache → Prop
  | empty : Sound vars ∅
  | insert {cache : Cache} {name formula : Text} {x : Float} {limit levels : Nat} :
    Sound vars cache → cache.get? name = none → vars.value name = .ok (.formula formula) →
    (evaluateUsing vars (recalling vars cache) limit levels formula).outcome = .ok x →
    Sound vars (cache.insert name x)

/-- Only formulas are cached. -/
theorem Cache.Sound.formula {vars : Variables} {cache : Cache} (h : cache.Sound vars)
    {name : Text} {x : Float} (hget : cache.get? name = some x) :
    ∃ formula, vars.value name = .ok (.formula formula) := by
  induction h with
  | empty => cases hget
  | @insert cache key formula y limit levels _ _ hformula _ ih =>
    by_cases hname : name = key
    · exact ⟨formula, hname ▸ hformula⟩
    · rw [Table.get?_insert_of_ne _ hname] at hget
      exact ih hget

/-- The value of a cached name, worked out again from the cache. -/
theorem Cache.Sound.outcome {vars : Variables} {cache : Cache} (h : cache.Sound vars)
    {name : Text} {x : Float} (hget : cache.get? name = some x) :
    ∃ formula limit levels, vars.value name = .ok (.formula formula) ∧
      ∃ earlier : Cache, earlier.Within cache ∧
        (evaluateUsing vars (recalling vars earlier) limit levels formula).outcome = .ok x := by
  induction h with
  | empty => cases hget
  | @insert cache key formula y limit levels _ hnone hformula hout ih =>
    have hsub := Cache.within_insert hnone y
    by_cases hname : name = key
    · subst hname
      rw [Table.get?_insert_self] at hget
      cases hget
      exact ⟨formula, limit, levels, hformula, cache, hsub, hout⟩
    · rw [Table.get?_insert_of_ne _ hname] at hget
      obtain ⟨formula, limit, levels, hformula, earlier, hearlier, hout⟩ := ih hget
      exact ⟨formula, limit, levels, hformula, earlier, hearlier.trans hsub, hout⟩

/-! ## What evaluation does to a cache -/

/-- What work may do to the cache of a session while the names of `pending` are being evaluated. -/
structure Session.Grows (vars : Variables) (pending : List Text) (s s' : Session) : Prop where
  /-- The cache stays sound. -/
  sound : s'.cache.Sound vars
  /-- No value is lost or changed. -/
  within : s.cache.Within s'.cache
  /-- The names being evaluated do not get a value. -/
  pending : ∀ name ∈ pending, s'.cache.get? name = s.cache.get? name

section Grows

variable {vars : Variables} {pending : List Text} {name formula : Text} {s s' : Session} {x : Float}

theorem Session.Grows.refl (hs : s.cache.Sound vars) : s.Grows vars pending s :=
  ⟨hs, .refl _, fun _ _ => rfl⟩

/-- Fewer names are being evaluated around the evaluation of the formula of a name than in it. -/
theorem Session.Grows.outer (h : s.Grows vars (pending ++ [name]) s') : s.Grows vars pending s' :=
  ⟨h.sound, h.within, fun other hother => h.pending other (List.mem_append_left _ hother)⟩

/-- The value of a formula may be put into the cache that its evaluation leaves: the formula cannot
have given its own name a value, since the name was being evaluated. -/
theorem Session.Grows.resolve (h : s.Grows vars (pending ++ [name]) s') (hp : name ∉ pending)
    (hnone : s.cache.get? name = none) (hname : vars.value name = .ok (.formula formula))
    {limit levels : Nat}
    (hout : (evaluateUsing vars (recalling vars s'.cache) limit levels formula).outcome = .ok x)
    (events : List Event) : s.Grows vars pending ⟨s'.cache.insert name x, events⟩ := by
  have hnone' : s'.cache.get? name = none := (h.pending name (by simp)).trans hnone
  refine ⟨.insert h.sound hnone' hname hout, h.within.trans (Cache.within_insert hnone' x),
    fun other hother => ?_⟩
  have hne : other ≠ name := fun heq => hp (heq ▸ hother)
  exact (Table.get?_insert_of_ne _ hne _).trans (h.outer.pending other hother)

end Grows

namespace EvalM

variable {vars : Variables} {pending : List Text} {α β : Type}

/-- From a session with a sound cache, the work leaves one, and if it ends with a value, `y` ends
with the same value, given any cache in which that one lies. -/
def Recounts (vars : Variables) (pending : List Text) (x : EvalM α) (y : Cache → EvalM α) : Prop :=
  ∀ s, s.cache.Sound vars → s.Grows vars pending (x.run s).2 ∧
    ∀ a, (x.run s).1 = .ok a → ∀ cache, (x.run s).2.cache.Within cache → (y cache).outcome = .ok a

theorem Quiet.recounts {x : EvalM α} (hx : Quiet x) : Recounts vars pending x fun _ => x := by
  intro s hs
  have hcache := hx.cache s
  refine ⟨⟨by rwa [hcache], ?_, fun name _ => by rw [hcache]⟩, fun a ha _ _ => ?_⟩
  · rw [hcache]
    exact .refl _
  · exact (hx.outcome s).symm.trans ha

theorem Recounts.bind {x : EvalM α} {y : Cache → EvalM α} {f : α → EvalM β}
    {g : Cache → α → EvalM β} (hx : Recounts vars pending x y) (hy : ∀ cache, Quiet (y cache))
    (hf : ∀ a, Recounts vars pending (f a) fun cache => g cache a)
    (hg : ∀ cache a, Quiet (g cache a)) :
    Recounts vars pending (x >>= f) fun cache => y cache >>= g cache := by
  intro s hs
  have hfirst := hx s hs
  rw [Attempt.run_bind]
  revert hfirst
  rcases x.run s with ⟨e | a, s₁⟩
  · rintro ⟨hgrows, -⟩
    exact ⟨hgrows, fun _ h => by cases h⟩
  · rintro ⟨hgrows, hval⟩
    obtain ⟨hgrows', hval'⟩ := hf a s₁ hgrows.sound
    refine ⟨⟨hgrows'.sound, hgrows.within.trans hgrows'.within, fun name hname => ?_⟩, ?_⟩
    · rw [hgrows'.pending name hname, hgrows.pending name hname]
    · intro b hb cache hsub
      rw [outcome_bind (hy cache) (hg cache), hval a rfl cache (hgrows'.within.trans hsub)]
      exact hval' b hb cache hsub

end EvalM

open EvalM

section Recounts

variable {vars : Variables} {pending : List Text}

theorem recounts_substituteWithin {value : Text → EvalM Float}
    (hvalue : ∀ name, Recounts vars pending (value name) fun cache => recalling vars cache name)
    (depth times : Nat) (t : Text) :
    Recounts vars pending (substituteWithin vars value depth times t)
      fun cache => substituteWithin vars (recalling vars cache) depth times t := by
  induction times generalizing t with
  | zero =>
    rw [substituteWithin.eq_def]
    simp only [substituteWithin.eq_def _ (recalling vars _)]
    split
    · exact (quiet_pure _).recounts
    · exact (quiet_fail _).recounts
  | succ times ih =>
    rw [substituteWithin.eq_def]
    simp only [substituteWithin.eq_def _ (recalling vars _) _ (times + 1)]
    split
    · exact (quiet_pure _).recounts
    · rename_i before name after _
      have hquiet : ∀ cache x, Quiet
          (if before ++ numberText x ++ after = t then .fail (vars.undefined name)
          else do
            record (.substituted name x depth (before ++ numberText x ++ after))
            substituteWithin vars (recalling vars cache) depth times
              (before ++ numberText x ++ after)) := by
        intro cache x
        split
        · exact quiet_fail _
        · exact (quiet_record _).bind fun _ => quiet_substituteWithin (quiet_recalling _ _) _ _ _
      refine (hvalue name).bind (fun cache => quiet_recalling _ _ _) (fun x => ?_) hquiet
      split
      · exact (quiet_fail _).recounts
      · exact (quiet_record _).recounts.bind (fun _ => quiet_record _) (fun _ => ih _)
          fun _ _ => quiet_substituteWithin (quiet_recalling _ _) _ _ _

/-- **A value can be worked out from the cache that working it out has left.** -/
theorem recounts_evaluateUsing {value : Text → EvalM Float}
    (hvalue : ∀ name, Recounts vars pending (value name) fun cache => recalling vars cache name)
    (limit levels : Nat) (equation : Text) :
    Recounts vars pending (evaluateUsing vars value limit levels equation)
      fun cache => evaluateUsing vars (recalling vars cache) limit levels equation :=
  (recounts_substituteWithin hvalue _ _ _).bind
    (fun _ => quiet_substituteWithin (quiet_recalling _ _) _ _ _)
    (fun t => (quiet_resolve limit levels t).recounts) fun _ t => quiet_resolve limit levels t

/-- What looking a name up takes from the evaluation of formulas: that it fills the cache soundly,
and that its values can be worked out from the cache it leaves. -/
def Settles (vars : Variables) (evaluate : List Text → Text → EvalM Float) : Prop :=
  ∀ pending formula s, s.cache.Sound vars →
    s.Grows vars pending ((evaluate pending formula).run s).2 ∧
      ∀ x, ((evaluate pending formula).run s).1 = .ok x → ∃ limit levels,
        (evaluateUsing vars (recalling vars ((evaluate pending formula).run s).2.cache) limit levels
          formula).outcome = .ok x

theorem recounts_lookUp {evaluate : List Text → Text → EvalM Float}
    (heval : Settles vars evaluate) (depth : Nat) (name : Text) :
    Recounts vars pending (lookUp vars evaluate pending depth name)
      fun cache => recalling vars cache name := by
  intro s hs
  refine run_lookUp_cases vars evaluate pending depth name s ?refused ?cycle ?cached ?number
    ?formula
  case refused => exact fun _ _ => ⟨.refl hs, fun _ h => by cases h⟩
  case cycle => exact fun _ => ⟨.refl hs, fun _ h => by cases h⟩
  case cached =>
    intro _ x _ _ hcached
    refine ⟨.refl hs, fun y hy cache hsub => ?_⟩
    cases hy
    obtain ⟨formula, hformula⟩ := hs.formula hcached
    exact recalled_formula hformula (hsub _ _ hcached)
  case number =>
    intro x hx _ hfin
    refine ⟨.refl hs, fun y hy cache _ => ?_⟩
    cases hy
    exact recalled_number hx hfin cache
  case formula =>
    intro f hf hp hnone
    rw [resolveFormula, Attempt.run_bind]
    have hformula := heval (pending ++ [name]) f s hs
    revert hformula
    rcases (evaluate (pending ++ [name]) f).run s with ⟨e | x, s₁⟩
    · rintro ⟨hgrows, -⟩
      exact ⟨hgrows.outer, fun _ h => by cases h⟩
    · rintro ⟨hgrows, hout⟩
      obtain ⟨limit, levels, hout⟩ := hout x rfl
      refine ⟨hgrows.resolve hp hnone hf hout _, fun y hy cache hcache => ?_⟩
      cases hy
      exact recalled_formula hf (hcache name x (Table.get?_insert_self _ _ _))

theorem settles_evaluateAt (vars : Variables) (limit levels : Nat) :
    Settles vars (evaluateAt vars limit levels) := by
  induction levels with
  | zero =>
    intro pending formula s hs
    exact ⟨⟨hs, .refl _, fun _ _ => rfl⟩, fun _ h => by cases h⟩
  | succ levels ih =>
    intro pending formula s hs
    rw [evaluateAt_succ]
    obtain ⟨hgrows, hout⟩ := recounts_evaluateUsing (fun name => recounts_lookUp ih _ name)
      limit levels formula s hs
    exact ⟨hgrows, fun x hx => ⟨limit, levels, hout x hx _ (.refl _)⟩⟩

end Recounts

/-! ## Sequences of calls -/

/-- What may be asked of an evaluator over and over again. -/
inductive Call where
  /-- The value of an equation, while the names of `pending` count as being evaluated. -/
  | evaluate (pending : List Text) (equation : Text)
  /-- To forget all cached values. -/
  | clearCache

/-- The session after one more call, whether it succeeded or not. -/
def Call.apply (vars : Variables) (options : EvalOptions) (s : Session) : Call → Session
  | evaluate pending equation => ((EquationFigure.evaluate vars options pending equation).run s).2
  | clearCache => { s with cache := ∅ }

/-- The session after a sequence of calls that began with an empty one. -/
def sessionAfter (vars : Variables) (options : EvalOptions) (calls : List Call) : Session :=
  calls.foldl (Call.apply vars options) {}

/-- One more call leaves the cache sound. -/
theorem sound_apply {vars : Variables} {options : EvalOptions} {s : Session}
    (hs : s.cache.Sound vars) (call : Call) : (call.apply vars options s).cache.Sound vars := by
  cases call with
  | evaluate pending equation => exact (settles_evaluateAt _ _ _ pending equation s hs).1.sound
  | clearCache => exact .empty

/-- **Whatever the calls were, the cache is sound.** -/
theorem sound_sessionAfter (vars : Variables) (options : EvalOptions) (calls : List Call) :
    (sessionAfter vars options calls).cache.Sound vars := by
  have hfold : ∀ s : Session, s.cache.Sound vars →
      (calls.foldl (Call.apply vars options) s).cache.Sound vars := by
    induction calls with
    | nil => exact fun _ hs => hs
    | cons call calls ih => exact fun s hs => ih _ (sound_apply hs call)
  exact hfold {} .empty

end EquationFigure
