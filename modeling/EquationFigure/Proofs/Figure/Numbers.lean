import EquationFigure.Figure.Rendering
import EquationFigure.Proofs.Equation.Caching
import EquationFigure.Proofs.Equation.Termination

/-!
# The numbers of a figure

Attributes are written from the values of quantities, worked out one after the other in one session.
A value is written as a number exactly if it is finite, and the only value that is not is an
infinity: a numeral too great for a double, left over when names and groups have been replaced.

* `Escapes` — what is left of an equation is a numeral out of range.
* `Builder.quantities_isNumber_iff` — the values of quantities are written as numbers unless one of
  the quantities escapes.
* `Builder.run_pointTexts`, `Builder.run_drawnSegments`, `Builder.run_frame` — attributes are
  written from the values of their quantities.
* `infinities_escape_iff` — which results, cached values and numbers in attributes are finite.
-/

set_option autoImplicit false

namespace EquationFigure

open EvalM

/-! ## Results -/

/-- What is left of the equation, evaluated in the session, is a numeral out of range. -/
def Escapes (vars : Variables) (options : EvalOptions) (pending : List Text) (equation : Text)
    (s : Session) : Prop :=
  ∃ u, LeavesFlat vars (lookUp vars (evaluateAt vars options.maxDepth options.maxDepth) pending 0)
    options.maxDepth options.maxDepth equation s u ∧ Overflows u

section Results

variable {vars : Variables} {options : EvalOptions} {pending : List Text} {equation : Text}
  {s : Session} {x : Float}

theorem evaluate_eq : evaluate vars options pending equation =
    evaluateUsing vars
      (lookUp vars (evaluateAt vars options.maxDepth options.maxDepth) pending 0)
      options.maxDepth options.maxDepth equation := by
  rw [evaluate, evaluateAt_succ, Nat.sub_self]

/-- A value is finite unless it is one that is not. -/
theorem isFinite_iff_of_eq_ok {r : Except EvalError Float} (h : r = .ok x) :
    x.isFinite = true ↔ ¬ ∃ y, r = .ok y ∧ y.isFinite = false := by
  rw [← Bool.not_eq_false, not_iff_not]
  constructor
  · exact fun hfin => ⟨x, h, hfin⟩
  · rintro ⟨y, hy, hfin⟩
    rw [h] at hy
    cases hy
    exact hfin

/-- **A result is finite unless a numeral out of range is left of the equation.** -/
theorem isFinite_evaluate_iff (h : ((evaluate vars options pending equation).run s).1 = .ok x) :
    x.isFinite = true ↔ ¬ Escapes vars options pending equation s := by
  rw [evaluate_eq] at h
  rw [Escapes, ← escapes_iff]
  exact isFinite_iff_of_eq_ok h

/-- The value of what is left of an equation is finite unless that is a numeral out of range. -/
theorem isFinite_reduce_iff {u : Text} (h : (reduce u).outcome = .ok x) :
    x.isFinite = true ↔ ¬ Overflows u := by
  rw [overflows_iff]
  exact isFinite_iff_of_eq_ok h

theorem isNaN_evaluate (h : ((evaluate vars options pending equation).run s).1 = .ok x) :
    x.isNaN = false := by
  rw [evaluate_eq] at h
  exact isNaN_of_evaluateUsing h

/-- **A cached value is the value of what is left of its formula**, the names in which have the
values that were cached before. -/
theorem Cache.Sound.leavesFlat {cache : Cache} (hcache : cache.Sound vars) {name : Text}
    (h : cache.get? name = some x) :
    ∃ formula limit levels u, vars.value name = .ok (.formula formula) ∧
      (∃ earlier : Cache, earlier.Within cache ∧
        LeavesFlat vars (recalling vars earlier) limit levels formula {} u) ∧
      (reduce u).outcome = .ok x := by
  obtain ⟨formula, limit, levels, hformula, earlier, hearlier, hout⟩ := hcache.outcome h
  obtain ⟨u, hu, hx⟩ := evaluateUsing_eq_ok_iff.1 hout
  exact ⟨formula, limit, levels, u, hformula, ⟨earlier, hearlier, hu⟩, hx⟩

end Results

/-! ## The values of quantities -/

/-- What is left of the quantity, evaluated in the session, is a numeral out of range. -/
def Quantity.Escapes (vars : Variables) (options : EvalOptions) (s : Session) : Quantity → Prop
  | number _ => False
  | equation t => EquationFigure.Escapes vars options [] t s

namespace Builder

variable {b : Builder} {s s' : Session}

/-- One of the quantities, evaluated one after the other from the session, is a numeral out of
range in the end. -/
def SomeEscapes (b : Builder) : List Quantity → Session → Prop
  | [], _ => False
  | q :: rest, s =>
    q.Escapes b.vars b.options.eval s ∨ b.SomeEscapes rest ((b.quantity q).run s).2

/-- The value of a quantity is written as a number unless the quantity escapes. -/
theorem quantity_isNumber_iff {q : Quantity} {x : Float}
    (h : ((b.quantity q).run s).1 = .ok x) :
    IsNumber (numberText x) ↔ ¬ q.Escapes b.vars b.options.eval s := by
  rw [isNumber_numberText_iff]
  cases q with
  | equation t => exact isFinite_evaluate_iff h
  | number y =>
    rw [quantity, Quantity.evaluate] at h
    split at h
    · rename_i hy
      cases h
      exact iff_of_true hy not_false
    · cases h

theorem run_quantities_cons {q : Quantity} {rest : List Quantity} {xs : List Float} :
    (b.quantities (q :: rest)).run s = (.ok xs, s') ↔
      ∃ x xs' s₁, (b.quantity q).run s = (.ok x, s₁) ∧
        (b.quantities rest).run s₁ = (.ok xs', s') ∧ xs = x :: xs' := by
  rw [quantities, Attempt.run_bind_eq_ok]
  constructor
  · rintro ⟨x, s₁, hx, h⟩
    rw [Attempt.run_bind_eq_ok] at h
    obtain ⟨xs', s₂, hxs, h⟩ := h
    cases h
    exact ⟨x, xs', s₁, hx, hxs, rfl⟩
  · rintro ⟨x, xs', s₁, hx, hxs, rfl⟩
    refine ⟨x, s₁, hx, ?_⟩
    rw [Attempt.run_bind_of_ok hxs]
    rfl

/-- **The values of quantities are written as numbers unless one of them escapes.** -/
theorem quantities_isNumber_iff {qs : List Quantity} {xs : List Float}
    (h : (b.quantities qs).run s = (.ok xs, s')) :
    (∀ x ∈ xs, IsNumber (numberText x)) ↔ ¬ b.SomeEscapes qs s := by
  induction qs generalizing s xs with
  | nil =>
    cases h
    exact iff_of_true (List.forall_mem_nil _) not_false
  | cons q rest ih =>
    obtain ⟨x, xs', s₁, hx, hxs, rfl⟩ := run_quantities_cons.1 h
    rw [List.forall_mem_cons, SomeEscapes, not_or, hx, ih hxs,
      quantity_isNumber_iff (b := b) (s := s) (q := q) (by rw [hx])]

theorem run_quantities_append {qs qs' : List Quantity} {xs ys : List Float} {s₁ : Session}
    (h : (b.quantities qs).run s = (.ok xs, s₁)) (h' : (b.quantities qs').run s₁ = (.ok ys, s')) :
    (b.quantities (qs ++ qs')).run s = (.ok (xs ++ ys), s') := by
  induction qs generalizing s xs with
  | nil =>
    cases h
    exact h'
  | cons q rest ih =>
    obtain ⟨x, xs', s₂, hx, hxs, rfl⟩ := run_quantities_cons.1 h
    exact run_quantities_cons.2 ⟨x, xs' ++ ys, s₂, hx, ih hxs, rfl⟩

/-! ## The texts of attributes -/

theorem run_ofEquation_eq_ok {α : Type} {x : EvalM α} {a : α} :
    (ofEquation x).run s = (.ok a, s') ↔ x.run s = (.ok a, s') := by
  rw [ofEquation]
  cases hx : x.run s with
  | mk r s₁ =>
    cases r with
    | error e => simp [hx]
    | ok y => simp [hx]

/-- The text of a single number. -/
theorem run_quantityText {q : Quantity} {t : Text}
    (h : (b.quantityText q).run s = (.ok t, s')) :
    ∃ x, (b.quantities [q]).run s = (.ok [x], s') ∧ t = numberText x := by
  rw [quantityText, run_ofEquation_eq_ok, Attempt.run_bind_eq_ok] at h
  obtain ⟨x, s₁, hx, h⟩ := h
  cases h
  exact ⟨x, run_quantities_cons.2 ⟨x, [], s', hx, rfl, rfl⟩, rfl⟩

/-- The texts of points. -/
theorem run_pointTexts {points : List Point} {texts : List Text}
    (h : (b.pointTexts points).run s = (.ok texts, s')) :
    ∃ coordinates : List (Float × Float),
      (b.quantities (points.flatMap fun p => [p.x, p.y])).run s =
        (.ok (coordinates.flatMap fun p => [p.1, p.2]), s') ∧
      texts = coordinates.map fun p => numberText p.1 ++ ',' :: numberText p.2 := by
  induction points generalizing s texts with
  | nil =>
    cases h
    exact ⟨[], rfl, rfl⟩
  | cons point rest ih =>
    rw [pointTexts, Attempt.run_bind_eq_ok] at h
    obtain ⟨x, s₁, hx, h⟩ := h
    rw [Attempt.run_bind_eq_ok] at h
    obtain ⟨y, s₂, hy, h⟩ := h
    rw [Attempt.run_bind_eq_ok] at h
    obtain ⟨texts', s₃, hrest, h⟩ := h
    cases h
    obtain ⟨coordinates, hcoordinates, rfl⟩ := ih hrest
    exact ⟨(x, y) :: coordinates, run_quantities_cons.2 ⟨x, _, s₁, hx,
      run_quantities_cons.2 ⟨y, _, s₂, hy, hcoordinates, rfl⟩, rfl⟩, rfl⟩

/-- The segments of a path. -/
theorem run_drawnSegments {segments : List Segment} {index : Nat} {drawn : List DrawnSegment}
    (h : (b.drawnSegments index segments).run s = (.ok drawn, s')) :
    (b.quantities (segments.flatMap Segment.arguments)).run s =
      (.ok (drawn.flatMap DrawnSegment.numbers), s') := by
  induction segments generalizing index s drawn with
  | nil =>
    cases h
    rfl
  | cons segment rest ih =>
    rw [drawnSegments] at h
    split at h
    · cases h
    · rw [Attempt.run_bind_eq_ok] at h
      obtain ⟨numbers, s₁, hnumbers, h⟩ := h
      rw [Attempt.run_bind_eq_ok] at h
      obtain ⟨drawn', s₂, hrest, h⟩ := h
      cases h
      exact run_quantities_append (run_ofEquation_eq_ok.1 hnumbers) (ih hrest)

/-- The numbers of a view box. -/
theorem run_frame {viewBox : ViewBox} {frame : Frame}
    (h : (b.frame viewBox).run s = (.ok frame, s')) :
    (b.quantities viewBox.toList).run s =
      (.ok [frame.x, frame.y, frame.width, frame.height], s') := by
  rw [Builder.frame] at h
  split at h
  · rename_i x y width height hlist
    rw [run_ofEquation_eq_ok, Attempt.run_bind_eq_ok] at h
    obtain ⟨x', s₁, hx, h⟩ := h
    rw [Attempt.run_bind_eq_ok] at h
    obtain ⟨y', s₂, hy, h⟩ := h
    rw [Attempt.run_bind_eq_ok] at h
    obtain ⟨width', s₃, hwidth, h⟩ := h
    rw [Attempt.run_bind_eq_ok] at h
    obtain ⟨height', s₄, hheight, h⟩ := h
    cases h
    rw [hlist]
    exact run_quantities_cons.2 ⟨x', _, s₁, hx, run_quantities_cons.2 ⟨y', _, s₂, hy,
      run_quantities_cons.2 ⟨width', _, s₃, hwidth,
        run_quantities_cons.2 ⟨height', _, _, hheight, rfl, rfl⟩, rfl⟩, rfl⟩, rfl⟩
  · cases h

end Builder

/-! ## Infinities -/

/-- **Results, cached values and the numbers in attributes are finite unless a numeral out of range
is left of an equation**, and none of them is not a number.  That holds after any sequence of calls
for results and for cached values, and in any session for the numbers of attributes, points, paths
and view boxes. -/
theorem infinities_escape_iff (vars : Variables) (options : EvalOptions) (calls : List Call) :
    (let s := sessionAfter vars options calls
    (∀ pending equation x, ((evaluate vars options pending equation).run s).1 = .ok x →
      x.isNaN = false ∧ (x.isFinite = true ↔ ¬ Escapes vars options pending equation s)) ∧
    ∀ name x, s.cache.get? name = some x →
      ∃ formula limit levels u, vars.value name = .ok (.formula formula) ∧
        (∃ earlier : Cache, earlier.Within s.cache ∧
          LeavesFlat vars (recalling vars earlier) limit levels formula {} u) ∧
        x.isNaN = false ∧ (x.isFinite = true ↔ ¬ Overflows u)) ∧
    (∀ (b : Builder) (s s' : Session),
      (∀ q t, (b.quantityText q).run s = (.ok t, s') → ∃ x, t = numberText x ∧
        (IsNumber (numberText x) ↔ ¬ b.SomeEscapes [q] s)) ∧
      (∀ points texts, (b.pointTexts points).run s = (.ok texts, s') →
        ∃ coordinates : List (Float × Float),
          texts = coordinates.map (fun p => numberText p.1 ++ ',' :: numberText p.2) ∧
          ((∀ p ∈ coordinates, IsNumber (numberText p.1) ∧ IsNumber (numberText p.2)) ↔
            ¬ b.SomeEscapes (points.flatMap fun p => [p.x, p.y]) s)) ∧
      (∀ index segments drawn, (b.drawnSegments index segments).run s = (.ok drawn, s') →
        ((∀ d ∈ drawn, ∀ x ∈ d.numbers, IsNumber (numberText x)) ↔
          ¬ b.SomeEscapes (segments.flatMap Segment.arguments) s)) ∧
      ∀ viewBox frame, (b.frame viewBox).run s = (.ok frame, s') →
        ((∀ x ∈ [frame.x, frame.y, frame.width, frame.height], IsNumber (numberText x)) ↔
          ¬ b.SomeEscapes viewBox.toList s)) := by
  refine ⟨⟨fun pending equation x h => ⟨isNaN_evaluate h, isFinite_evaluate_iff h⟩,
    fun name x h => ?_⟩, fun b s s' => ⟨fun q t h => ?_, fun points texts h => ?_,
      fun index segments drawn h => ?_, fun viewBox frame h => ?_⟩⟩
  · obtain ⟨formula, limit, levels, u, hformula, hu, hx⟩ :=
      (sound_sessionAfter vars options calls).leavesFlat h
    exact ⟨formula, limit, levels, u, hformula, hu, isNaN_of_reduce hx, isFinite_reduce_iff hx⟩
  · obtain ⟨x, hx, rfl⟩ := Builder.run_quantityText h
    have hiff := Builder.quantities_isNumber_iff hx
    rw [List.forall_mem_singleton] at hiff
    exact ⟨x, rfl, hiff⟩
  · obtain ⟨coordinates, hcoordinates, rfl⟩ := Builder.run_pointTexts h
    have hiff := Builder.quantities_isNumber_iff hcoordinates
    rw [List.forall_mem_flatMap] at hiff
    simp only [List.forall_mem_cons, List.not_mem_nil, false_implies, implies_true, and_true]
      at hiff
    exact ⟨coordinates, rfl, hiff⟩
  · have hiff := Builder.quantities_isNumber_iff (Builder.run_drawnSegments h)
    rwa [List.forall_mem_flatMap] at hiff
  · exact Builder.quantities_isNumber_iff (Builder.run_frame h)

/-- A whole number too great for a double is evaluated to an infinity, and what is written for it is
no number. -/
theorem escapes_hugeNumber :
    evaluateFresh ∅ {} hugeNumber = .ok plusInfinity ∧ plusInfinity.isFinite = false ∧
      ¬ IsNumber (numberText plusInfinity) := by
  refine ⟨Binary.eq_ok_of_toBits (by decide +kernel), isFinite_plusInfinity, ?_⟩
  rw [isNumber_numberText_iff, isFinite_plusInfinity]
  exact Bool.false_ne_true

end EquationFigure
