import EquationFigure.Proofs.Equation.Flattening

/-!
# Groups without levels

How deep groups may be nested decides only whether resolving them is given up.  What is left of a
text when its groups are resolved can be said without it.

* `HandsBack t rest` — what a group hands back: its value, and what follows its `)`.
* `Resolves t u` — `u` is what is left of `t` when its groups have been replaced by their values.
* `Computes t x` — the value of a text without names is that of what is left of it.
* `handsBack_iff` — what a group hands back comes from the value of the text in it.
* `Computes.of_resolve`, `Computes.exists_levels` — with levels enough, that is what `resolve`
  finds.
-/

set_option autoImplicit false

namespace EquationFigure

open EvalM

/-- The text behind a `(` hands back `rest`: what stands before the `)` that closes the group is
replaced by its value. -/
inductive HandsBack : Text → Text → Prop
  | close {before after : Text} {x : Float} : ParenFree before →
    (reduce before).outcome = .ok x → HandsBack (before ++ ')' :: after) (numberText x ++ after)
  | group {before after rest rest' : Text} : ParenFree before → HandsBack after rest →
    HandsBack (before ++ rest) rest' → HandsBack (before ++ '(' :: after) rest'

/-- The second text is what is left of the first one when its groups are resolved. -/
inductive Resolves : Text → Text → Prop
  | flat {t : Text} : ParenFree t → Resolves t t
  | group {before after rest u : Text} : ParenFree before → HandsBack after rest →
    Resolves (before ++ rest) u → Resolves (before ++ '(' :: after) u

/-! ## Counting parentheses -/

theorem count_eq_of_parenFree {t : Text} (h : ParenFree t) : t.count '(' = t.count ')' := by
  have hclose : t.count ')' = 0 := List.count_eq_zero.2 fun hmem => by
    have := h _ hmem
    revert this
    decide
  rw [count_eq_zero_of_parenFree h, hclose]

theorem HandsBack.count_eq {t rest : Text} (h : HandsBack t rest) :
    t.count ')' + rest.count '(' = rest.count ')' + t.count '(' + 1 := by
  induction h with
  | @close before after x hbefore _ =>
    have hb := count_eq_of_parenFree hbefore
    have hx := count_eq_of_parenFree (parenFree_numberText x)
    simp only [List.count_append, List.count_cons_self,
      List.count_cons_of_ne (by decide : ')' ≠ '(')]
    omega
  | @group before after rest rest' hbefore _ _ ih ih' =>
    have hb := count_eq_of_parenFree hbefore
    simp only [List.count_append, List.count_cons_self,
      List.count_cons_of_ne (by decide : '(' ≠ ')')]
      at ih' ⊢
    omega

/-- Where a group hands something back, it is closed. -/
theorem HandsBack.mem {t rest : Text} (h : HandsBack t rest) : ')' ∈ t := by
  induction h with
  | close => exact List.mem_append_right _ List.mem_cons_self
  | group _ _ _ ih _ => exact List.mem_append_right _ (List.mem_cons_of_mem _ ih)

/-- **What can be resolved has as many `(` as `)`.** -/
theorem Resolves.count_eq {t u : Text} (h : Resolves t u) : t.count '(' = t.count ')' := by
  induction h with
  | flat ht => exact count_eq_of_parenFree ht
  | @group before after rest u hbefore hafter _ ih =>
    have hb := count_eq_of_parenFree hbefore
    have ha := hafter.count_eq
    simp only [List.count_append, List.count_cons_self,
      List.count_cons_of_ne (by decide : '(' ≠ ')')]
      at ih ⊢
    omega

/-! ## Texts in groups -/

/-- The text, which has no names, has the value. -/
def Computes (t : Text) (x : Float) : Prop := ∃ u, Resolves t u ∧ (reduce u).outcome = .ok x

/-- What stands behind the group is handed back as it is. -/
theorem HandsBack.append {t rest : Text} (h : HandsBack t rest) (s : Text) :
    HandsBack (t ++ s) (rest ++ s) := by
  induction h with
  | close hbefore hx =>
    rw [List.append_assoc, List.append_assoc, List.cons_append]
    exact .close hbefore hx
  | group hbefore _ _ ih ih' =>
    rw [List.append_assoc] at ih' ⊢
    exact .group hbefore ih ih'

/-- A text that has a value can stand in a group. -/
theorem Computes.handsBack {t : Text} {x : Float} (h : Computes t x) (after : Text) :
    HandsBack (t ++ ')' :: after) (numberText x ++ after) := by
  obtain ⟨u, hu, hx⟩ := h
  induction hu with
  | flat ht => exact .close ht hx
  | group hbefore hafter _ ih =>
    have ih := ih hx
    rw [List.append_assoc] at ih ⊢
    exact .group hbefore (hafter.append _) ih

/-- **A group hands back the value of the text in it**, and what follows its `)`. -/
theorem handsBack_iff {t rest : Text} :
    HandsBack t rest ↔
      ∃ inner after x, t = inner ++ ')' :: after ∧ Computes inner x ∧
        rest = numberText x ++ after := by
  constructor
  · intro h
    induction h with
    | close hbefore hx => exact ⟨_, _, _, rfl, ⟨_, .flat hbefore, hx⟩, rfl⟩
    | group hbefore _ _ ih ih' =>
      obtain ⟨inner, after, y, rfl, hinner, rfl⟩ := ih
      obtain ⟨outer, last, x, heq, ⟨u, hu, hx⟩, rfl⟩ := ih'
      obtain ⟨v, rfl, hv⟩ := exists_of_append_eq_paren hbefore rfl heq
      obtain ⟨w, rfl, rfl⟩ := exists_of_append_eq_paren (parenFree_numberText y) rfl hv
      exact ⟨_, last, x, by simp, ⟨u, .group hbefore (hinner.handsBack w) hu, hx⟩, rfl⟩
  · rintro ⟨inner, after, x, rfl, hinner, rfl⟩
    exact hinner.handsBack after

/-- The first group of a text is resolved first. -/
theorem Resolves.of_open {before after u : Text} (hbefore : ParenFree before)
    (h : Resolves (before ++ '(' :: after) u) :
    ∃ rest, HandsBack after rest ∧ Resolves (before ++ rest) u := by
  generalize htext : before ++ '(' :: after = t at h
  cases h with
  | flat ht => exact absurd (ht '(' (htext ▸ by simp)) (by decide)
  | group hbefore' hafter hu =>
    obtain ⟨v, rfl, hv⟩ := exists_of_append_eq_paren hbefore' rfl htext.symm
    cases v with
    | nil =>
      cases hv
      exact ⟨_, hafter, by simpa using hu⟩
    | cons c v =>
      cases hv
      exact absurd (hbefore '(' (by simp)) (by decide)

theorem Resolves.eq_of_parenFree {t u : Text} (ht : ParenFree t) (h : Resolves t u) : u = t := by
  cases h with
  | flat => rfl
  | group => exact absurd (ht '(' (by simp)) (by decide)

/-! ## Resolving with levels -/

/-- What `resolveGroups` hands back is what the group hands back. -/
theorem HandsBack.of_resolveGroups {limit levels : Nat} {t rest : Text}
    (h : (resolveGroups limit levels t).outcome = .ok (.closed rest)) : HandsBack t rest := by
  suffices hall : ∀ rest, (resolveGroups limit levels t).outcome = .ok (.closed rest) →
      HandsBack t rest from hall rest h
  refine resolveGroups_induction ?exhausted ?flat ?close ?stuck ?refused ?fails ?group levels t
  case exhausted => exact fun _ _ h => by cases h
  case flat => exact fun _ _ _ _ _ _ h => by cases h
  case close =>
    intro levels before after x hbefore hx rest h
    cases h
    exact .close hbefore hx
  case stuck => exact fun _ _ _ _ _ h => by cases h
  case refused => exact fun _ _ _ _ _ _ h => by cases h
  case fails => exact fun _ _ _ _ _ _ _ _ h => by cases h
  case group =>
    intro levels before after inner hbefore _ _ hin ih rest h
    exact .group hbefore (hin _ rfl) (ih _ h)

/-- With levels enough, `resolveGroups` hands back what the group does. -/
theorem HandsBack.exists_levels {t rest : Text} (h : HandsBack t rest) :
    ∃ bound, ∀ limit levels, bound ≤ levels →
      (resolveGroups limit levels t).outcome = .ok (.closed rest) := by
  induction h with
  | close hbefore hx =>
    refine ⟨1, fun limit levels hle => ?_⟩
    obtain ⟨levels, rfl⟩ := Nat.exists_eq_add_of_le' hle
    rw [outcome_resolveGroups_of_close hbefore, hx]
  | group hbefore hafter _ ih ih' =>
    obtain ⟨bound, hbound⟩ := ih
    obtain ⟨bound', hbound'⟩ := ih'
    refine ⟨max bound bound' + 1, fun limit levels hle => ?_⟩
    obtain ⟨levels, rfl⟩ := Nat.exists_eq_add_of_le' (Nat.le_of_add_left_le hle)
    rw [outcome_resolveGroups_of_open hbefore hafter.mem, hbound limit levels (by omega)]
    exact hbound' limit (levels + 1) (by omega)

theorem Resolves.of_flattens {limit levels : Nat} {t u : Text} (h : Flattens limit levels t u) :
    Resolves t u := by
  induction h with
  | flat ht => exact .flat ht
  | group hbefore _ hout _ ih => exact .group hbefore (.of_resolveGroups hout) ih

theorem Resolves.exists_flattens {t u : Text} (h : Resolves t u) :
    ∃ bound, ∀ limit levels, bound ≤ levels → Flattens limit levels t u := by
  induction h with
  | flat ht => exact ⟨0, fun _ _ _ => .flat ht⟩
  | group hbefore hafter _ ih =>
    obtain ⟨bound, hbound⟩ := hafter.exists_levels
    obtain ⟨bound', hbound'⟩ := ih
    exact ⟨max bound bound', fun limit levels hle => .group hbefore hafter.mem
      (hbound limit levels (by omega)) (hbound' limit levels (by omega))⟩

/-- The value that is found is that of the text. -/
theorem Computes.of_resolve {limit levels : Nat} {t : Text} {x : Float}
    (h : (resolve limit levels t).outcome = .ok x) : Computes t x := by
  obtain ⟨-, u, hu, hx⟩ := resolve_eq_ok_iff.1 h
  exact ⟨u, .of_flattens hu, hx⟩

/-- **With levels enough, the value is found.** -/
theorem Computes.exists_levels {t : Text} {x : Float} (h : Computes t x) :
    ∃ bound, ∀ limit levels, bound ≤ levels → (resolve limit levels t).outcome = .ok x := by
  obtain ⟨u, hu, hx⟩ := h
  obtain ⟨bound, hbound⟩ := hu.exists_flattens
  exact ⟨bound, fun limit levels hle =>
    resolve_eq_ok_iff.2 ⟨hu.count_eq, u, hbound limit levels hle, hx⟩⟩

/-! ## No choice -/

/-- What is found with levels enough is the only thing that is. -/
theorem eq_of_levels {α : Type} {f : Nat → Nat → Except EvalError α} {a b : α}
    (ha : ∃ bound, ∀ limit levels, bound ≤ levels → f limit levels = .ok a)
    (hb : ∃ bound, ∀ limit levels, bound ≤ levels → f limit levels = .ok b) : a = b := by
  obtain ⟨bound, hbound⟩ := ha
  obtain ⟨bound', hbound'⟩ := hb
  have hout := hbound 0 (max bound bound') (Nat.le_max_left _ _)
  rw [hbound' 0 (max bound bound') (Nat.le_max_right _ _)] at hout
  exact (Except.ok.inj hout).symm

/-- A group hands back one text only. -/
theorem HandsBack.unique {t rest rest' : Text} (h : HandsBack t rest) (h' : HandsBack t rest') :
    rest = rest' :=
  Resolved.closed.inj (eq_of_levels h.exists_levels h'.exists_levels)

/-- A text without names has one value only. -/
theorem Computes.unique {t : Text} {x y : Float} (h : Computes t x) (h' : Computes t y) :
    x = y :=
  eq_of_levels h.exists_levels h'.exists_levels

theorem Computes.isNaN {t : Text} {x : Float} (h : Computes t x) : x.isNaN = false := by
  obtain ⟨u, -, hx⟩ := h
  exact isNaN_of_reduce hx

end EquationFigure
