import EquationFigure.Proofs.Equation.Rewriting
import EquationFigure.Proofs.Equation.Resolving

/-!
# Values, however an equation is written

An equation that is no equation by the grammar may have a value as well: what counts is the text
that is left when values have taken the place of its names, and that one's groups.  Nothing in this
depends on what has been evaluated before, nor on how deep anything is nested.

* `Expands`, `Fills` — what takes the place of a name, and of all names of a text.
* `HasValue value t x`, `ValueOf vars name x` — the value of an equation, and of a name.
* `Fills.append`, `Fills.exists_append` — names are replaced one by one, wherever they stand.
* `ValueOf.unique`, `HasValue.unique` — there is at most one value.
-/

set_option autoImplicit false

namespace EquationFigure

open Text EvalM

/-! ## Replacing names -/

/-- The second text takes the place of the name. -/
inductive Expands (value : Text → Float → Prop) : Text → Text → Prop
  /-- A number is written down. -/
  | number {name : Text} {x : Float} : value name x → x.isFinite = true →
    Expands value name (numberText x)
  /-- An infinity is written with the name `inf`, and that stands for a number. -/
  | infinity {name sign : Text} {x y : Float} : value name x → numberText x = sign ++ infName →
    value infName y → y.isFinite = true → Expands value name (sign ++ numberText y)

/-- The second text is the first one with the values of its names in their places. -/
inductive Fills (value : Text → Float → Prop) : Text → Text → Prop
  | nameless {t : Text} : Nameless t → Fills value t t
  | name {t before name after s u : Text} : firstName? t = some (before, name, after) →
    Expands value name s → Fills value after u → Fills value t (before ++ s ++ u)

/-- The equation has the value when `value` tells those of its names. -/
def HasValue (value : Text → Float → Prop) (t : Text) (x : Float) : Prop :=
  ∃ u, Fills value (equationBody t) u ∧ Computes u x

/-- The value of a name: a number, or the value of a formula whose names have the values that it
takes. -/
inductive ValueOf (vars : Variables) : Text → Float → Prop
  | number {name : Text} {x : Float} : vars.value name = .ok (.number x) → x.isFinite = true →
    ValueOf vars name x
  | formula {name f : Text} {x : Float} {value : Text → Float → Prop} :
    vars.value name = .ok (.formula f) → (∀ n y, value n y → ValueOf vars n y) →
    HasValue value f x → ValueOf vars name x

/-! ## The body of an equation -/

theorem equationBody_append_left {s : Text} (hs : ∀ c ∈ s, isBlank c = true) (t : Text) :
    equationBody (s ++ t) = equationBody t := by
  rw [equationBody, equationBody, trimStart, List.dropWhile_append_of_pos hs]
  rfl

theorem equationBody_equals (t : Text) : equationBody ('=' :: t) = t := by
  rw [equationBody, trimStart_cons_of_not_blank (by decide)]
  rfl

theorem equationBody_of_headNot {t : Text} (hblank : HeadNot isBlank t)
    (hequals : HeadNot (· == '=') t) : equationBody t = t := by
  rw [equationBody, trimStart, dropWhile_of_headNot hblank]
  split
  · exact absurd (headNot_cons.1 hequals) (by decide)
  · rfl

theorem isNameStart_of_isBlank {c : Char} (h : isBlank c = true) : isNameStart c = false := by
  rw [← Bool.not_eq_true]
  intro hc
  rw [isBlank_of_isNameStart hc] at h
  cases h

theorem isNamePart_of_isBlank {c : Char} (h : isBlank c = true) : isNamePart c = false := by
  have hstart := isNameStart_of_isBlank h
  rw [isNameStart, Bool.or_eq_false_iff] at hstart
  have hdigit : c.isDigit = false := by
    rw [← Bool.not_eq_true]
    intro hdigit
    rw [isBlank_of_isDigit hdigit] at h
    cases h
  rw [isNamePart, Char.isAlphanum, hstart.1, hstart.2, hdigit]
  rfl

/-- Before the body of an equation come blanks and at most an equals sign. -/
theorem exists_beforeBody (t : Text) :
    ∃ s, (∀ c ∈ s, isBlank c = true ∨ c = '=') ∧ t = s ++ equationBody t := by
  have hblanks : ∀ c ∈ t.takeWhile isBlank, isBlank c = true := fun c hc => of_mem_takeWhile hc
  have hsplit : t = t.takeWhile isBlank ++ t.dropWhile isBlank :=
    List.takeWhile_append_dropWhile.symm
  have hbody : equationBody t = equationBody (t.dropWhile isBlank) := by
    conv_lhs => rw [hsplit]
    exact equationBody_append_left hblanks _
  rw [hbody]
  by_cases hequals : HeadNot (· == '=') (t.dropWhile isBlank)
  · exact ⟨_, fun c hc => .inl (hblanks c hc), by
      rwa [equationBody_of_headNot (headNot_dropWhile _ _) hequals]⟩
  · cases hrest : t.dropWhile isBlank with
    | nil =>
      rw [hrest] at hequals
      exact absurd headNot_nil hequals
    | cons c rest =>
      rw [hrest, headNot_cons, Bool.not_eq_false, beq_iff_eq] at hequals
      subst hequals
      refine ⟨t.takeWhile isBlank ++ ['='], List.forall_mem_append.2
        ⟨fun c hc => .inl (hblanks c hc), List.forall_mem_singleton.2 (.inr rfl)⟩, ?_⟩
      rw [equationBody_equals, List.append_assoc, List.singleton_append, ← hrest]
      exact hsplit

/-- What comes before the body of an equation has no names. -/
theorem exists_equationBody (t : Text) : ∃ s, Nameless s ∧ t = s ++ equationBody t := by
  obtain ⟨s, hs, ht⟩ := exists_beforeBody t
  refine ⟨s, fun c hc => ?_, ht⟩
  rcases hs c hc with hblank | rfl
  · exact isNameStart_of_isBlank hblank
  · decide

theorem names_equationBody (t : Text) : names (equationBody t) = names t := by
  obtain ⟨s, hs, ht⟩ := exists_equationBody t
  conv_rhs => rw [ht]
  exact (names_append_of_nameless hs _).symm

/-! ## Infinities -/

theorem isFinite_of_numberText_eq {x : Float} {sign : Text} (h : numberText x = sign ++ infName) :
    x.isFinite = false := by
  rw [← Bool.not_eq_true]
  intro hfin
  have hname := nameless_numberText hfin
  rw [h] at hname
  exact absurd (hname 'i' (List.mem_append_right _ (by decide))) (by decide)

/-- In front of `inf` there is at most a minus sign. -/
theorem sign_of_numberText_eq {x : Float} {sign : Text} (h : numberText x = sign ++ infName) :
    sign = [] ∨ sign = ['-'] := by
  have hword := numberText_of_not_isFinite (isFinite_of_numberText_eq h)
  rw [h] at hword
  simp only [List.mem_cons, List.not_mem_nil, or_false] at hword
  rcases hword with heq | heq | heq
  · have hnan : sign ++ infName = [] ++ ['N', 'a', 'N'] := heq
    exact absurd (List.append_inj_right' hnan rfl) (by decide)
  · have hplus : sign ++ infName = [] ++ infName := heq
    exact .inl (List.append_cancel_right hplus)
  · have hminus : sign ++ infName = ['-'] ++ infName := heq
    exact .inr (List.append_cancel_right hminus)

theorem nameless_of_numberText_eq {x : Float} {sign : Text} (h : numberText x = sign ++ infName) :
    Nameless sign := by
  rcases sign_of_numberText_eq h with rfl | rfl
  · exact nameless_nil
  · exact nameless_minus

/-- What is no number, but not for want of a value, is written with the name `inf`. -/
theorem exists_sign {x : Float} (hfin : x.isFinite = false) (hnan : x.isNaN = false) :
    ∃ sign, numberText x = sign ++ infName := by
  rcases eq_infinity_of_not_isFinite hfin hnan with rfl | rfl
  · exact ⟨[], numberText_plusInfinity⟩
  · exact ⟨['-'], numberText_minusInfinity⟩

/-! ## What takes the place of names -/

section Fills

variable {value value' : Text → Float → Prop} {s t u name : Text}

theorem Expands.mono (hvalue : ∀ n x, value n x → value' n x) (h : Expands value name s) :
    Expands value' name s := by
  cases h with
  | number hx hfin => exact .number (hvalue _ _ hx) hfin
  | infinity hx hsign hy hfin => exact .infinity (hvalue _ _ hx) hsign (hvalue _ _ hy) hfin

theorem Fills.mono (hvalue : ∀ n x, value n x → value' n x) (h : Fills value t u) :
    Fills value' t u := by
  induction h with
  | nameless ht => exact .nameless ht
  | name hfirst hs _ ih => exact .name hfirst (hs.mono hvalue) ih

theorem Expands.exists_value (h : Expands value name s) : ∃ x, value name x := by
  cases h with
  | number hx => exact ⟨_, hx⟩
  | infinity hx => exact ⟨_, hx⟩

/-- Texts that differ in a value only if names do. -/
theorem Expands.unique (hvalue : ∀ n x x', value n x → value' n x' → x = x') {s' : Text}
    (h : Expands value name s) (h' : Expands value' name s') : s = s' := by
  cases h with
  | number hx hfin =>
    cases h' with
    | number hx' => rw [hvalue _ _ _ hx hx']
    | infinity hx' hsign =>
      rw [hvalue _ _ _ hx hx', isFinite_of_numberText_eq hsign] at hfin
      cases hfin
  | infinity hx hsign hy =>
    cases h' with
    | number hx' hfin =>
      rw [← hvalue _ _ _ hx hx', isFinite_of_numberText_eq hsign] at hfin
      cases hfin
    | infinity hx' hsign' hy' =>
      obtain rfl := hvalue _ _ _ hx hx'
      obtain rfl := hvalue _ _ _ hy hy'
      rw [List.append_cancel_right (hsign.symm.trans hsign')]

/-- Without names there is nothing to replace. -/
theorem Fills.eq_of_nameless (ht : Nameless t) (h : Fills value t u) : u = t := by
  cases h with
  | nameless => rfl
  | name hfirst =>
    rw [firstName?_eq_none_iff.2 ht] at hfirst
    cases hfirst

theorem Fills.unique (hvalue : ∀ n x x', value n x → value' n x' → x = x') {u' : Text}
    (h : Fills value t u) (h' : Fills value' t u') : u = u' := by
  induction h generalizing u' with
  | nameless ht => exact (h'.eq_of_nameless ht).symm
  | name hfirst hs _ ih =>
    cases h' with
    | nameless ht =>
      rw [firstName?_eq_none_iff.2 ht] at hfirst
      cases hfirst
    | name hfirst' hs' hu' =>
      rw [hfirst] at hfirst'
      cases hfirst'
      rw [hs.unique hvalue hs', ih hu']

/-- The leftmost name of a text is replaced, and then those behind it. -/
theorem Fills.of_firstName? {before after : Text} (h : Fills value t u)
    (hfirst : firstName? t = some (before, name, after)) :
    ∃ s u', u = before ++ s ++ u' ∧ Expands value name s ∧ Fills value after u' := by
  cases h with
  | nameless ht =>
    rw [firstName?_eq_none_iff.2 ht] at hfirst
    cases hfirst
  | name hfirst' hs hu =>
    rw [hfirst] at hfirst'
    cases hfirst'
    exact ⟨_, _, rfl, hs, hu⟩

theorem Fills.append_left (hs : Nameless s) (h : Fills value t u) :
    Fills value (s ++ t) (s ++ u) := by
  cases h with
  | nameless ht => exact .nameless (nameless_append.2 ⟨hs, ht⟩)
  | name hfirst hx hu =>
    have h := Fills.name (firstName?_append_of_nameless hs hfirst) hx hu
    simpa only [List.append_assoc] using h

theorem Fills.exists_append_left (hs : Nameless s) (h : Fills value (s ++ t) u) :
    ∃ u', u = s ++ u' ∧ Fills value t u' := by
  cases hfirst : firstName? t with
  | none =>
    have ht := firstName?_eq_none_iff.1 hfirst
    exact ⟨t, h.eq_of_nameless (nameless_append.2 ⟨hs, ht⟩), .nameless ht⟩
  | some p =>
    obtain ⟨before, name, after⟩ := p
    obtain ⟨x, u', rfl, hx, hu'⟩ := h.of_firstName? (firstName?_append_of_nameless hs hfirst)
    exact ⟨before ++ x ++ u', by simp only [List.append_assoc], .name hfirst hx hu'⟩

/-- **Names are replaced wherever they stand.** -/
theorem Fills.append {u' : Text} (ht : HeadNot isNamePart t) (hs : Fills value s u)
    (h : Fills value t u') : Fills value (s ++ t) (u ++ u') := by
  induction hs with
  | nameless hs => exact h.append_left hs
  | name hfirst hx _ ih =>
    obtain ⟨rfl, hbefore, hname, hafter⟩ := firstName?_eq_some_iff.1 hfirst
    have hfirst' := firstName?_eq_some_iff.2
      ⟨List.append_assoc _ _ t, hbefore, hname, headNot_append hafter ht⟩
    have h := Fills.name hfirst' hx ih
    simpa only [List.append_assoc] using h

/-- What is left of two texts, one after the other, is what is left of the first and then of the
second. -/
theorem Fills.exists_append (ht : HeadNot isNamePart t) (h : Fills value (s ++ t) u) :
    ∃ u₁ u₂, u = u₁ ++ u₂ ∧ Fills value s u₁ ∧ Fills value t u₂ := by
  induction hlen : s.length using Nat.strong_induction_on generalizing s u with
  | h n ih =>
    cases hfirst : firstName? s with
    | none =>
      have hs := firstName?_eq_none_iff.1 hfirst
      obtain ⟨u', rfl, hu'⟩ := h.exists_append_left hs
      exact ⟨s, u', rfl, .nameless hs, hu'⟩
    | some p =>
      obtain ⟨before, name, after⟩ := p
      have hlt := length_lt_of_firstName? hfirst
      obtain ⟨rfl, hbefore, hname, hafter⟩ := firstName?_eq_some_iff.1 hfirst
      have hfirst' := firstName?_eq_some_iff.2
        ⟨List.append_assoc _ _ t, hbefore, hname, headNot_append hafter ht⟩
      obtain ⟨x, u', rfl, hx, hu'⟩ := h.of_firstName? hfirst'
      obtain ⟨u₁, u₂, rfl, hu₁, hu₂⟩ := ih _ (hlen ▸ hlt) hu' rfl
      exact ⟨before ++ x ++ u₁, u₂, by simp only [List.append_assoc], .name hfirst hx hu₁, hu₂⟩

/-- Something takes the place of every name of the text. -/
theorem Fills.exists_expands (h : Fills value t u) (hmem : name ∈ names t) :
    ∃ s, Expands value name s := by
  induction h with
  | nameless ht =>
    rw [names_of_none (firstName?_eq_none_iff.2 ht)] at hmem
    cases hmem
  | name hfirst hs _ ih =>
    rw [names_of_some hfirst, List.mem_cons] at hmem
    rcases hmem with rfl | hmem
    · exact ⟨_, hs⟩
    · exact ih hmem

theorem Fills.exists_value (h : Fills value t u) (hmem : name ∈ names t) : ∃ x, value name x := by
  obtain ⟨s, hs⟩ := h.exists_expands hmem
  exact hs.exists_value

end Fills

/-! ## Values -/

section Values

variable {value value' : Text → Float → Prop} {vars : Variables} {t f name : Text} {x y : Float}

theorem HasValue.mono (hvalue : ∀ n x, value n x → value' n x) (h : HasValue value t x) :
    HasValue value' t x := by
  obtain ⟨u, hu, hx⟩ := h
  exact ⟨u, hu.mono hvalue, hx⟩

theorem HasValue.unique_of (hvalue : ∀ n x x', value n x → value' n x' → x = x')
    (h : HasValue value t x) (h' : HasValue value' t y) : x = y := by
  obtain ⟨u, hu, hx⟩ := h
  obtain ⟨u', hu', hy⟩ := h'
  obtain rfl := hu.unique hvalue hu'
  exact hx.unique hy

theorem HasValue.isNaN (h : HasValue value t x) : x.isNaN = false := by
  obtain ⟨u, -, hx⟩ := h
  exact hx.isNaN

/-- **A name with a formula has the value of the formula.** -/
theorem valueOf_formula_iff (hf : vars.value name = .ok (.formula f)) :
    ValueOf vars name x ↔ HasValue (ValueOf vars) f x := by
  constructor
  · intro h
    cases h with
    | number hnumber =>
      rw [hf] at hnumber
      cases hnumber
    | formula hf' hvalue hx =>
      rw [hf] at hf'
      cases hf'
      exact hx.mono hvalue
  · exact fun h => .formula hf (fun _ _ h => h) h

theorem ValueOf.isNaN (h : ValueOf vars name x) : x.isNaN = false := by
  cases h with
  | number _ hfin => exact isNaN_of_isFinite hfin
  | formula _ _ hx => exact hx.isNaN

/-- **A name has at most one value.** -/
theorem ValueOf.unique (h : ValueOf vars name x) (h' : ValueOf vars name y) : x = y := by
  induction h generalizing y with
  | number hx =>
    cases h' with
    | number hy =>
      rw [hx] at hy
      cases hy
      rfl
    | formula hf =>
      rw [hx] at hf
      cases hf
  | formula hf _ hx ih =>
    rw [valueOf_formula_iff hf] at h'
    exact hx.unique_of (fun n z z' hz hz' => ih n z hz hz') h'

theorem HasValue.unique (h : HasValue (ValueOf vars) t x) (h' : HasValue (ValueOf vars) t y) :
    x = y :=
  h.unique_of (fun _ _ _ hz hz' => hz.unique hz') h'

end Values

end EquationFigure
