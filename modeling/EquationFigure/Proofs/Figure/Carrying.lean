import EquationFigure.Proofs.Equation.Extension
import EquationFigure.Proofs.Figure.Building

/-!
# The cache that goes from the view box to the elements

The view box is worked out over the declared variables, the elements over a table that may declare
its width and height besides.  The cache goes with them.  That changes nothing: a formula that was
worked out for the view box did so without the new names, so its value is the same over the larger
table, and building with the cache ends as building without it.

* `keeps_withFrame` — the larger table keeps what is declared.
* `named_sessionPast` — whatever attributes are worked out, the cache is sound.
* `reached_sim` — attributes worked out with and without a sound cache come to the same, unless an
  equation runs out of levels without it.
* `carried_cache` — **what the view box hands over is right, and makes no difference**.
-/

set_option autoImplicit false

namespace EquationFigure

open EvalM

/-! ## The larger table -/

theorem keeps_addNumber (vars : Variables) (name : Text) (x : Float) :
    vars.Keeps (vars.addNumber name x) := by
  rw [Variables.addNumber]
  split
  · exact .refl vars
  · rename_i hname
    have hvalue : vars.value name = .error (vars.undefined name) := by rw [Variables.value, hname]
    exact Variables.keeps_insert hvalue _

/-- **The width and height of the frame take no variable's place.** -/
theorem keeps_withFrame (vars : Variables) (frame? : Option Frame) :
    vars.Keeps (vars.withFrame frame?) := by
  cases frame? with
  | none => exact .refl vars
  | some frame => exact (keeps_addNumber vars _ _).trans (keeps_addNumber _ _ _)

/-! ## Sound caches -/

section Named

variable {vars : Variables} {options : EvalOptions}

theorem named_quantity (q : Quantity) :
    Attempt.Ends (Session.Named vars) (fun _ => True) (fun _ => True)
      (q.evaluate vars options) := by
  cases q with
  | equation t =>
    exact fun s hs => ⟨named_evaluate hs options [] t, fun _ _ => trivial, fun _ _ => trivial⟩
  | number x =>
    rw [Quantity.evaluate]
    split
    · exact Attempt.ends_pure trivial
    · exact Attempt.ends_fail trivial

theorem named_answer (q : Quantity) :
    Attempt.Ends (Session.Named vars) (fun _ => True) (fun _ => True) (q.answer vars options) := by
  intro s hs
  rw [Quantity.run_answer]
  exact ⟨(named_quantity q s hs).1, fun _ _ => trivial, fun _ _ => trivial⟩

theorem named_settle (demands : List Demand) :
    Attempt.Ends (Session.Named vars) (fun _ => True) (fun _ => True)
      (settle vars options demands) := by
  induction demands with
  | nil => exact Attempt.ends_pure trivial
  | cons d rest ih =>
    match d with
    | .check none => exact ih
    | .check (some fault) => exact Attempt.ends_fail trivial
    | .number q =>
      exact (named_answer q).bind fun _ _ =>
        ih.bind fun _ _ => Attempt.ends_pure trivial

theorem named_workOut (w : Wanted) {s : Session} (hs : s.Named vars) :
    (w.workOut vars options s).2.Named vars := by
  have h : ((settle vars options w.target.demands).run s).2.Named vars :=
    (named_settle w.target.demands s hs).1
  rw [Wanted.workOut]
  revert h
  rcases (settle vars options w.target.demands).run s with ⟨fault | numbers, s₁⟩
  · exact fun h => ⟨h.sound, h.isName⟩
  · exact fun h => h

/-- **Whatever attributes are worked out, the cache is sound.** -/
theorem named_sessionPast (wanted : List Wanted) {s : Session} (hs : s.Named vars) :
    (sessionPast vars options s wanted).Named vars := by
  induction wanted generalizing s with
  | nil => exact hs
  | cons w rest ih => exact ih (named_workOut w hs)

end Named

/-! ## With and without the cache -/

section Sim

variable {vars : Variables} {cache : Cache} {bound : Nat}

/-- The fault is that an equation runs out of levels. -/
def OutOfLevels (fault : Fault) : Prop := ∃ limit, fault = .equation (.depthExceeded limit)

variable (hsolo : SoloWithin vars cache bound) (options : EvalOptions)
include hsolo

theorem quantity_sim (q : Quantity) :
    Attempt.Sim (OnCaches (Apart vars cache)) (fun e => ∃ limit, e = .depthExceeded limit)
      (fun _ => False) (q.evaluate vars options) (q.evaluate vars options) := by
  cases q with
  | equation t =>
    have hawaited : Awaited vars cache [] := List.forall_mem_nil _
    have h := hsolo.evaluateAt_sim 0 options.maxDepth (options.maxDepth + 1) hawaited t
    exact h.mono (fun _ he => ⟨_, he.2⟩) fun _ he => absurd he.1 (Nat.lt_irrefl 0)
  | number x =>
    rw [Quantity.evaluate]
    split
    · exact Attempt.sim_pure x
    · exact Attempt.sim_fail _

theorem answer_sim (q : Quantity) :
    Attempt.Sim (OnCaches (Apart vars cache)) OutOfLevels (fun _ => False)
      (q.answer vars options) (q.answer vars options) := by
  intro s₀ s₁ hs
  have h := quantity_sim hsolo options q s₀ s₁ hs
  rw [q.run_answer, q.run_answer]
  revert h
  rcases (q.evaluate vars options).run s₀ with ⟨r₀, s₀'⟩
  rcases (q.evaluate vars options).run s₁ with ⟨r₁, s₁'⟩
  rintro (⟨heq, hs'⟩ | ⟨e, he, limit, rfl⟩ | ⟨_, -, hfalse⟩)
  · cases heq
    exact .inl ⟨rfl, hs'⟩
  · cases he
    exact .inr (.inl ⟨_, rfl, limit, rfl⟩)
  · exact hfalse.elim

theorem settle_sim (demands : List Demand) :
    Attempt.Sim (OnCaches (Apart vars cache)) OutOfLevels (fun _ => False)
      (settle vars options demands) (settle vars options demands) := by
  induction demands with
  | nil => exact Attempt.sim_pure []
  | cons d rest ih =>
    match d with
    | .check none => exact ih
    | .check (some fault) => exact Attempt.sim_fail fault
    | .number q =>
      exact Attempt.sim_bind (answer_sim hsolo options q) fun x =>
        Attempt.sim_bind ih fun xs => Attempt.sim_pure (x :: xs)

/-- An attribute comes to the same without the cache, unless it runs out of levels. -/
theorem workOut_sim (w : Wanted) {s₀ s₁ : Session} (hs : Apart vars cache s₀.cache s₁.cache) :
    ((w.workOut vars options s₀).1 = (w.workOut vars options s₁).1 ∧
      Apart vars cache (w.workOut vars options s₀).2.cache (w.workOut vars options s₁).2.cache) ∨
    ∃ fault, OutOfLevels fault ∧ (w.workOut vars options s₀).1.answer = .error fault := by
  have h := settle_sim hsolo options w.target.demands s₀ s₁ hs
  rw [Wanted.workOut, Wanted.workOut]
  revert h
  rcases (settle vars options w.target.demands).run s₀ with ⟨r₀, s₀'⟩
  rcases (settle vars options w.target.demands).run s₁ with ⟨r₁, s₁'⟩
  rintro (⟨heq, hs'⟩ | ⟨fault, he, hlevels⟩ | ⟨_, -, hfalse⟩)
  · cases heq
    cases r₀ with
    | error fault => exact .inl ⟨rfl, hs'⟩
    | ok numbers => exact .inl ⟨rfl, hs'⟩
  · cases he
    exact .inr ⟨fault, hlevels, rfl⟩
  · exact hfalse.elim

end Sim

/-! ## What a build reaches -/

/-- The outcomes that a build gets to: strict building ends with the first fault. -/
def reached (strict : Bool) : List AttributeOutcome → List AttributeOutcome
  | [] => []
  | o :: rest => if strict && o.error?.isSome then [o] else o :: reached strict rest

theorem reached_false (met : List AttributeOutcome) : reached false met = met := by
  induction met with
  | nil => rfl
  | cons o rest ih => rw [reached, Bool.false_and, if_neg Bool.false_ne_true, ih]

theorem findSome?_reached (met : List AttributeOutcome) :
    (reached true met).findSome? AttributeOutcome.error? =
      met.findSome? AttributeOutcome.error? := by
  induction met with
  | nil => rfl
  | cons o rest ih =>
    rw [reached]
    cases ho : o.error? with
    | none => simp [ho, ih]
    | some e => simp [ho]

/-- A strict build without faults gets to all outcomes. -/
theorem reached_true {met : List AttributeOutcome}
    (h : met.findSome? AttributeOutcome.error? = none) :
    reached true met = met := by
  induction met with
  | nil => rfl
  | cons o rest ih =>
    rw [List.findSome?_eq_none_iff, List.forall_mem_cons] at h
    rw [reached, h.1, ih (List.findSome?_eq_none_iff.2 h.2)]
    rfl

/-- **Attributes come to the same without the cache**, unless one that the build gets to runs out of
levels. -/
theorem reached_sim {vars : Variables} {cache : Cache} {bound : Nat}
    (hsolo : SoloWithin vars cache bound) (options : EvalOptions) (strict : Bool)
    (wanted : List Wanted) {s₀ s₁ : Session} (hs : Apart vars cache s₀.cache s₁.cache) :
    (∃ o ∈ reached strict (outcomes vars options s₀ wanted), ∃ limit,
      o.answer = .error (.equation (.depthExceeded limit))) ∨
    reached strict (outcomes vars options s₁ wanted) =
      reached strict (outcomes vars options s₀ wanted) := by
  induction wanted generalizing s₀ s₁ with
  | nil => exact .inr rfl
  | cons w rest ih =>
    simp only [outcomes, reached]
    rcases workOut_sim hsolo options w hs with ⟨heq, hs'⟩ | ⟨_, ⟨limit, rfl⟩, hanswer⟩
    · rw [heq]
      split
      · exact .inr rfl
      · rcases ih hs' with ⟨o, ho, hlevels⟩ | hrest
        · exact .inl ⟨o, List.mem_cons_of_mem _ ho, hlevels⟩
        · exact .inr (congrArg _ hrest)
    · refine .inl ⟨_, ?_, limit, hanswer⟩
      split <;> exact List.mem_cons_self

/-! ## Rendering with and without the cache -/

/-- What the figure comes to behind the view box, from the state on. -/
def Builder.finish (b : Builder) (root : Root) (frame? : Option Frame) (s : BuildState) :
    Except AttributeError Rendered :=
  match (b.root root frame?).run s with
  | (.ok node, s) => .ok ⟨node.print b.options.indent?, s.diagnostics⟩
  | (.error e, _) => .error e

/-- A document is rendered in two passes, and the second gets what the first leaves. -/
theorem render_eq (document : Document) (options : RenderOptions) :
    (render document options).1 =
      match (Builder.frame? ⟨document.vars, options⟩ document.root.viewBox?).run {} with
      | (.ok frame?, s) =>
        Builder.finish ⟨document.vars.withFrame frame?, options⟩ document.root frame? s
      | (.error e, _) => .error e := by
  rw [render, buildDocument, Attempt.run_bind]
  rcases (Builder.frame? ⟨document.vars, options⟩ document.root.viewBox?).run {} with
    ⟨e | frame?, s⟩
  · rfl
  · simp only [Builder.finish]
    rcases (Builder.root ⟨document.vars.withFrame frame?, options⟩ document.root frame?).run s with
      ⟨e | node, s'⟩ <;> rfl

/-- Where the first pass ends with a frame, or with none, it hands over what it has worked out. -/
theorem run_frame? (document : Document) (options : RenderOptions) :
    (∃ e s, (Builder.frame? ⟨document.vars, options⟩ document.root.viewBox?).run {} =
      (.error e, s)) ∨
    ∃ diagnostics, (Builder.frame? ⟨document.vars, options⟩ document.root.viewBox?).run {} =
      (.ok (document.frame? options.eval), ⟨document.sessionFirst options.eval, diagnostics⟩) := by
  have hbuilds := builds_frame? document options.eval
  obtain ⟨eval, strict, indent?⟩ := options
  cases strict with
  | false => exact .inr ⟨_, hbuilds.lenient indent? []⟩
  | true =>
    have hstrict := hbuilds.strict indent? []
    revert hstrict
    cases (document.outcomesFirst eval).findSome? AttributeOutcome.error? with
    | none => exact fun hstrict => .inr ⟨_, hstrict⟩
    | some e => exact fun hstrict => .inl ⟨e, _, Prod.ext hstrict rfl⟩

theorem Builder.finish_eq_error {b : Builder} {root : Root} {frame? : Option Frame}
    {s : BuildState} {e : AttributeError} (h : ((b.root root frame?).run s).1 = .error e) :
    b.finish root frame? s = .error e := by
  rw [finish]
  rcases hrun : (b.root root frame?).run s with ⟨e' | node, s'⟩
  · rw [hrun] at h
    exact congrArg _ (Except.error.inj h)
  · rw [hrun] at h
    cases h

/-- Where the second pass gets to the same outcomes, the figures are the same. -/
theorem finish_congr (vars : Variables) (options : RenderOptions) {root : Root}
    {frame? : Option Frame} {first : List AttributeOutcome}
    (hfirst : Writes "svg" root.viewBoxSlots first
      (Builder.passOn "viewBox" (frame?.map Frame.text)))
    {s₀ s₁ : Session} (hreached :
      reached options.strict (outcomes vars options.eval s₀ root.wantedLater) =
        reached options.strict (outcomes vars options.eval s₁ root.wantedLater))
    (diagnostics : List Diagnostic) :
    Builder.finish ⟨vars, options⟩ root frame? ⟨s₀, diagnostics⟩ =
      Builder.finish ⟨vars, options⟩ root frame? ⟨s₁, diagnostics⟩ := by
  obtain ⟨eval, strict, indent?⟩ := options
  obtain ⟨node₀, hbuilds₀, hdepicts₀⟩ := exists_builds_root vars eval hfirst s₀
  obtain ⟨node₁, hbuilds₁, hdepicts₁⟩ := exists_builds_root vars eval hfirst s₁
  have hnode : outcomes vars eval s₀ root.wantedLater = outcomes vars eval s₁ root.wantedLater →
      node₀ = node₁ := by
    intro heq
    rw [heq] at hdepicts₀
    exact hdepicts₀.unique hdepicts₁
  cases strict with
  | false =>
    simp only [reached_false] at hreached
    rw [Builder.finish, Builder.finish, hbuilds₀.lenient, hbuilds₁.lenient, hreached,
      hnode hreached]
  | true =>
    have hfind := congrArg (List.findSome? AttributeOutcome.error?) hreached
    rw [findSome?_reached, findSome?_reached] at hfind
    have h₀ := hbuilds₀.strict indent? diagnostics
    have h₁ := hbuilds₁.strict indent? diagnostics
    rw [← hfind] at h₁
    cases hmet : (outcomes vars eval s₀ root.wantedLater).findSome? AttributeOutcome.error? with
    | some e =>
      simp only [hmet] at h₀ h₁
      rw [Builder.finish_eq_error h₀, Builder.finish_eq_error h₁]
    | none =>
      simp only [hmet] at h₀ h₁
      have heq := hreached
      rw [reached_true hmet, reached_true (hfind ▸ hmet)] at heq
      rw [Builder.finish, Builder.finish, h₀, h₁, hnode heq]

/-- What the first pass leaves is right over the table of the second. -/
theorem named_sessionFirst (document : Document) (options : EvalOptions) :
    (document.sessionFirst options).Named (document.vars.withFrame (document.frame? options)) :=
  (named_sessionPast _ (named_empty _)).keeps (keeps_withFrame _ _)

/-- **What the view box hands over is right, and makes no difference.**  If the first pass fails,
there is nothing to hand over.  Else every cached value is that of its name over the table of the
figure; evaluating the name, with levels enough, ends with it, but for the sign of zero, exactly if
it is not an infinity; and the figure with its diagnostics, or the error, is the same as with an
empty cache, unless without the cache one of the attributes that are reached runs out of levels. -/
theorem carried_cache (document : Document) (options : RenderOptions) :
    match (Builder.frame? ⟨document.vars, options⟩ document.root.viewBox?).run {} with
    | (.error e, _) => (render document options).1 = .error e
    | (.ok frame?, s) =>
      let vars := document.vars.withFrame frame?
      (∀ name x, s.session.cache.get? name = some x → ValueOf vars name x ∧
        ((∃ enough, ∀ options : EvalOptions, enough ≤ options.maxDepth →
          evaluateFresh vars options name = .ok (unsignedZero x)) ↔ x.isFinite = true)) ∧
      ((∃ o ∈ reached options.strict (outcomes vars options.eval {} document.root.wantedLater),
          ∃ limit, o.answer = .error (.equation (.depthExceeded limit))) ∨
        (render document options).1 =
          Builder.finish ⟨vars, options⟩ document.root frame? { s with session := {} }) := by
  rcases run_frame? document options with ⟨e, s, hrun⟩ | ⟨diagnostics, hrun⟩
  · rw [render_eq, hrun]
  · rw [render_eq, hrun]
    have hnamed := named_sessionFirst document options.eval
    refine ⟨fun name x hget => ?_, ?_⟩
    · have hvalue := hnamed.sound.valueOf name x hget
      exact ⟨hvalue, evaluateFresh_name_iff (hnamed.isName name x hget) hvalue⟩
    · obtain ⟨bound, hsolo⟩ := hnamed.sound.solo
      refine (reached_sim hsolo options.eval options.strict document.root.wantedLater
        hnamed.sound.apart_empty).imp_right fun hreached => ?_
      exact finish_congr _ options (writes_viewBox document options.eval) hreached diagnostics

/-- The document in which `x` is a number in range, but not with another digit in front, the formula
of `y` is `5x`, and the view box begins at `y`. -/
def overflowDocument : Document where
  declarations := .ofList
    [(['x'], .bare (.equation ('1' :: List.replicate 308 '0'))),
      (['y'], .bare (.equation ['5', 'x']))]
  root := { viewBox? := some (.text "y 0 1 1".toList) }

/-- **An infinity is handed over that evaluating its name does not give**, however many levels there
are.  The numeral for `x` is in range. -/
theorem overflowDocument_carries_infinity :
    Numeral.InRange ⟨false, '1' :: List.replicate 308 '0', []⟩ ∧
      ∃ frame? s, (Builder.frame? ⟨overflowDocument.vars, {}⟩
          overflowDocument.root.viewBox?).run {} = (.ok frame?, s) ∧
        s.session.cache.get? ['y'] = some plusInfinity ∧
        ∀ options, evaluateFresh (overflowDocument.vars.withFrame frame?) options ['y'] ≠
          .ok plusInfinity := by
  have hrange : Numeral.InRange ⟨false, '1' :: List.replicate 308 '0', []⟩ := by
    rw [Numeral.InRange]
    decide +kernel
  have hcache : (overflowDocument.sessionFirst {}).cache.get? ['y'] = some plusInfinity := by
    have hbits : ((overflowDocument.sessionFirst {}).cache.get? ['y']).map Float.toBits =
        some plusInfinity.toBits := by
      decide +kernel
    obtain ⟨y, hy, heq⟩ := Option.map_eq_some_iff.1 hbits
    rw [hy, Float.toBits_inj.1 heq]
  refine ⟨hrange, _, _, (builds_frame? overflowDocument {}).lenient none [], hcache, ?_⟩
  intro options h
  have hnamed := named_sessionFirst overflowDocument {}
  have hunsigned : unsignedZero plusInfinity = plusInfinity := by
    rw [unsignedZero, if_neg (by decide +kernel)]
  have hfin := isFinite_of_hasValue_name (hnamed.isName _ _ hcache)
    (hnamed.sound.valueOf _ _ hcache) (hunsigned.symm ▸ hasValue_of_evaluateFresh h)
  rw [isFinite_plusInfinity] at hfin
  cases hfin

end EquationFigure
