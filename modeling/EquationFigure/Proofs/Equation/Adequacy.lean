import EquationFigure.Proofs.Equation.Memo
import EquationFigure.Proofs.Equation.Values

/-!
# Evaluation finds the values

An evaluation ends with a value only if its equation has that value, and if the equation has a
value, the evaluation finds it unless it runs out of levels.  That is so for every text, whether it
is an equation by the grammar or not.

* `Session.Valued` — the values in the cache are those of their names; evaluation keeps that.
* `Session.Invariant`, `Remembers`, `ends_evaluateAt_of` — so it does with every property of the
  cache that goes with that and lasts when values of names are remembered.
* `ends_evaluateUsing`, `ends_evaluateAt` — what an evaluation ends with is the value.
* `ValueOf.exists_cache` — the value of a name can be worked out into a cache, formula by formula.
* `hasValue_of_evaluateFresh`, `HasValue.found` — the two directions for a fresh session.
-/

set_option autoImplicit false

namespace EquationFigure

open Text EvalM

/-! ## What evaluations end with -/

section Ends

variable {I : Session → Prop}

theorem EvalM.Quiet.ends {α : Type} {x : EvalM α} (hx : Quiet x)
    (hI : ∀ s s' : Session, s'.cache = s.cache → I s → I s') :
    Attempt.Ends I (fun a => x.outcome = .ok a) (fun _ => True) x := by
  intro s hs
  exact ⟨hI _ _ (hx.cache s) hs, fun a ha => (hx.outcome s).symm.trans ha, fun _ _ => trivial⟩

/-- The value that was put in is the one that the name expands to, or an infinity, and then the name
that it is written with is expanded. -/
theorem Fills.of_splice {value : Text → Float → Prop} {t before name after u : Text} {x : Float}
    (hvalue : ∀ n x y, value n x → value n y → x = y)
    (hfirst : firstName? t = some (before, name, after)) (hx : value name x)
    (hnan : x.isNaN = false) (h : Fills value (before ++ numberText x ++ after) u) :
    Fills value t u := by
  obtain ⟨-, hbefore, -, hafter⟩ := firstName?_eq_some_iff.1 hfirst
  cases hfin : x.isFinite with
  | true =>
    obtain ⟨u₁, u₂, rfl, hu₁, hu₂⟩ := h.exists_append hafter
    rw [hu₁.eq_of_nameless (nameless_append.2 ⟨hbefore, nameless_numberText hfin⟩)]
    exact .name hfirst (.number hx hfin) hu₂
  | false =>
    obtain ⟨sign, hsign⟩ := exists_sign hfin hnan
    have hfirst' := firstName?_splice hfirst hsign (nameless_of_numberText_eq hsign) isName_infName
    obtain ⟨s, u', rfl, hs, hu'⟩ := h.of_firstName? hfirst'
    cases hs with
    | number hy hyfin =>
      have hu := Fills.name hfirst (.infinity hx hsign hy hyfin) hu'
      simpa only [List.append_assoc] using hu
    | infinity hz hsign' hy hyfin =>
      -- What `inf` stands for is not both an infinity and a number.
      rw [← hvalue _ _ _ hz hy, isFinite_of_numberText_eq hsign'] at hyfin
      cases hyfin

variable {vars : Variables} {find : Text → EvalM Float} {value : Text → Float → Prop}

/-- What becomes of the names of a text when a value takes the place of the leftmost one: the others
stay, and an infinity brings in `inf`. -/
theorem wanted_of_splice {wanted : Text → Prop} {t before name after : Text} {x : Float}
    (hfirst : firstName? t = some (before, name, after)) (hnan : x.isNaN = false)
    (hinf : x.isFinite = false → wanted infName) (ht : ∀ n ∈ names t, wanted n) :
    ∀ n ∈ names (before ++ numberText x ++ after), wanted n := by
  rw [names_of_some hfirst, List.forall_mem_cons] at ht
  cases hfin : x.isFinite with
  | true => rw [names_splice hfirst hfin]; exact ht.2
  | false =>
    obtain ⟨sign, hsign⟩ := exists_sign hfin hnan
    rw [names_of_some (firstName?_splice hfirst hsign (nameless_of_numberText_eq hsign)
      isName_infName)]
    exact List.forall_mem_cons.2 ⟨hinf hfin, ht.2⟩

/-- Putting in values ends with the text that they fill, if that is so for the names that the loop
comes to: those of the text, and `inf` because of an infinity. -/
theorem ends_substituteWithin_of {wanted : Text → Prop}
    (hI : ∀ s s' : Session, s'.cache = s.cache → I s → I s')
    (hvalue : ∀ n x y, value n x → value n y → x = y) (hnan : ∀ n x, value n x → x.isNaN = false)
    (hfind : ∀ name, IsName name → wanted name →
      Attempt.Ends I (value name) (fun _ => True) (find name))
    (hinf : ∀ name x, wanted name → value name x → x.isFinite = false → wanted infName)
    (depth times : Nat) (t : Text) (ht : ∀ name ∈ names t, wanted name) :
    Attempt.Ends I (Fills value t) (fun _ => True) (substituteWithin vars find depth times t) := by
  induction times generalizing t with
  | zero =>
    rw [substituteWithin.eq_def]
    split
    · exact Attempt.ends_pure (.nameless (firstName?_eq_none_iff.1 ‹_›))
    · exact Attempt.ends_fail trivial
  | succ times ih =>
    rw [substituteWithin.eq_def]
    split
    · exact Attempt.ends_pure (.nameless (firstName?_eq_none_iff.1 ‹_›))
    · rename_i before name after hfirst
      obtain ⟨-, -, hname, -⟩ := firstName?_eq_some_iff.1 hfirst
      have hwanted : wanted name := ht name (names_of_some hfirst ▸ List.mem_cons_self)
      refine (hfind name hname hwanted).bind fun x hx => ?_
      dsimp only
      split
      · exact Attempt.ends_fail trivial
      · refine ((quiet_record _).ends hI).bind fun _ _ => ?_
        have hrest := wanted_of_splice hfirst (hnan _ _ hx) (hinf name x hwanted hx) ht
        exact (ih _ hrest).mono (fun u hu => hu.of_splice hvalue hfirst hx (hnan _ _ hx))
          fun _ h => h

/-- **What an evaluation ends with is the value of the equation**, if the names that it comes to are
given their values. -/
theorem ends_evaluateUsing_of {wanted : Text → Prop}
    (hI : ∀ s s' : Session, s'.cache = s.cache → I s → I s')
    (hvalue : ∀ n x y, value n x → value n y → x = y) (hnan : ∀ n x, value n x → x.isNaN = false)
    (hfind : ∀ name, IsName name → wanted name →
      Attempt.Ends I (value name) (fun _ => True) (find name))
    (hinf : ∀ name x, wanted name → value name x → x.isFinite = false → wanted infName)
    (limit levels : Nat) (t : Text) (ht : ∀ name ∈ names t, wanted name) :
    Attempt.Ends I (HasValue value t) (fun _ => True) (evaluateUsing vars find limit levels t) := by
  refine (ends_substituteWithin_of hI hvalue hnan hfind hinf _ _ _
    (names_equationBody t ▸ ht)).bind fun u hu => ?_
  exact ((quiet_resolve limit levels u).ends hI).mono (fun x hx => ⟨u, hu, .of_resolve hx⟩)
    fun _ h => h

/-- The same if all names are given their values. -/
theorem ends_evaluateUsing (hI : ∀ s s' : Session, s'.cache = s.cache → I s → I s')
    (hvalue : ∀ n x y, value n x → value n y → x = y) (hnan : ∀ n x, value n x → x.isNaN = false)
    (hfind : ∀ name, IsName name → Attempt.Ends I (value name) (fun _ => True) (find name))
    (limit levels : Nat) (t : Text) :
    Attempt.Ends I (HasValue value t) (fun _ => True) (evaluateUsing vars find limit levels t) := by
  have hall : ∀ name, IsName name → True →
      Attempt.Ends I (value name) (fun _ => True) (find name) :=
    fun name hname _ => hfind name hname
  exact ends_evaluateUsing_of hI hvalue hnan hall (fun _ _ _ _ _ => trivial) limit levels t
    fun _ _ => trivial

end Ends

/-! ## Sessions whose cached values are right -/

/-- The values in the cache are those of their names. -/
def Session.Valued (vars : Variables) (s : Session) : Prop :=
  ∀ name x, s.cache.get? name = some x → ValueOf vars name x

section Valued

variable {vars : Variables}

theorem Session.Valued.congr {s s' : Session} (h : s'.cache = s.cache) (hs : s.Valued vars) :
    s'.Valued vars := by
  rwa [Session.Valued, h]

/-- Invariants of sessions whose cached values are right: what evaluation does to a session does not
touch them, as long as a value that is put into the cache does not. -/
structure Session.Invariant (vars : Variables) (I : Session → Prop) : Prop where
  /-- They depend on the cache only. -/
  congr : ∀ s s' : Session, s'.cache = s.cache → I s → I s'
  /-- Cached values are right. -/
  valued : ∀ s, I s → s.Valued vars

/-- The value of a formula may be put into the cache under the name. -/
def Remembers (vars : Variables) (I : Session → Prop) (name : Text) : Prop :=
  ∀ f x s, vars.value name = .ok (.formula f) → ValueOf vars name x → I s →
    I ((remember name x).run s).2

theorem invariant_valued (vars : Variables) : Session.Invariant vars (Session.Valued vars) :=
  ⟨fun _ _ => Session.Valued.congr, fun _ hs => hs⟩

theorem remembers_valued (name : Text) : Remembers vars (Session.Valued vars) name := by
  intro f x s _ hx hs other y hy
  change (s.cache.insert name x).get? other = some y at hy
  rw [Table.get?_insert_eq] at hy
  split at hy
  · rename_i hother
    cases hy
    exact hother ▸ hx
  · exact hs other y hy

variable {I : Session → Prop}

/-- What is found under a name is good if what the cache and the table have is, and the evaluation
of the formula ends with something good. -/
theorem ends_lookUp_of {good : Float → Prop} {name : Text}
    {evaluate : List Text → Text → EvalM Float} {pending : List Text}
    (hI : ∀ s s' : Session, s'.cache = s.cache → I s → I s')
    (hcached : ∀ s x, I s → s.cache.get? name = some x → good x)
    (hnumber : ∀ x, vars.value name = .ok (.number x) → x.isFinite = true → good x)
    (hformula : ∀ f, vars.value name = .ok (.formula f) →
      Attempt.Ends I good (fun _ => True) (evaluate (pending ++ [name]) f))
    (hremember : ∀ f x s, vars.value name = .ok (.formula f) → good x → I s →
      I ((remember name x).run s).2) (depth : Nat) :
    Attempt.Ends I good (fun _ => True) (lookUp vars evaluate pending depth name) := by
  intro s hs
  refine run_lookUp_cases vars evaluate pending depth name s ?refused ?cycle ?cached ?number
    ?formula
  case refused => exact fun _ _ => Attempt.ends_fail trivial s hs
  case cycle => exact fun _ => Attempt.ends_fail trivial s hs
  case cached => exact fun _ x _ _ hc => Attempt.ends_pure (hcached s x hs hc) s hs
  case number => exact fun x hx _ hfin => Attempt.ends_pure (hnumber x hx hfin) s hs
  case formula =>
    intro f hf _ _
    refine ((hformula f hf).bind fun x hx => ?_) s hs
    exact ((quiet_record _).ends hI).bind fun _ _ =>
      (Attempt.ends_update fun s => hremember f x s hf hx).bind fun _ _ => Attempt.ends_pure hx

theorem ends_lookUp (hI : Session.Invariant vars I) {evaluate : List Text → Text → EvalM Float}
    (heval : ∀ pending f, Attempt.Ends I (HasValue (ValueOf vars) f) (fun _ => True)
      (evaluate pending f)) (pending : List Text) (depth : Nat) {name : Text}
    (hname : Remembers vars I name) :
    Attempt.Ends I (ValueOf vars name) (fun _ => True)
      (lookUp vars evaluate pending depth name) :=
  ends_lookUp_of hI.congr (fun s x hs => hI.valued s hs name x) (fun _ => .number)
    (fun f hf => (heval _ f).mono (fun _ => (valueOf_formula_iff hf).2) fun _ h => h) hname depth

/-- Evaluation keeps an invariant if putting the values of names into the cache does, and ends with
the value of the equation. -/
theorem ends_evaluateAt_of (hI : Session.Invariant vars I)
    (hremembers : ∀ name, IsName name → Remembers vars I name) (limit levels : Nat)
    (pending : List Text) (t : Text) :
    Attempt.Ends I (HasValue (ValueOf vars) t) (fun _ => True)
      (evaluateAt vars limit levels pending t) := by
  induction levels generalizing pending t with
  | zero => exact Attempt.ends_fail trivial
  | succ levels ih =>
    rw [evaluateAt_succ]
    exact ends_evaluateUsing hI.congr (fun _ _ _ hx hy => hx.unique hy) (fun _ _ hx => hx.isNaN)
      (fun name hname => ends_lookUp hI ih pending _ (hremembers name hname)) limit levels t

/-- **Evaluation ends with the value of the equation**, and what it puts into the cache are the
values of names. -/
theorem ends_evaluateAt (vars : Variables) (limit levels : Nat) (pending : List Text) (t : Text) :
    Attempt.Ends (Session.Valued vars) (HasValue (ValueOf vars) t) (fun _ => True)
      (evaluateAt vars limit levels pending t) :=
  ends_evaluateAt_of (invariant_valued vars) (fun name _ => remembers_valued name) limit levels
    pending t

theorem valued_empty (vars : Variables) : Session.Valued vars {} := fun _ _ h => by cases h

/-- A fresh session ends with the value of the equation. -/
theorem hasValue_of_evaluateFresh {options : EvalOptions} {t : Text} {x : Float}
    (h : evaluateFresh vars options t = .ok x) : HasValue (ValueOf vars) t x :=
  (ends_evaluateAt vars _ _ [] t {} (valued_empty vars)).2.1 x h

end Valued

/-! ## Working values out -/

section Recall

variable {vars : Variables} {cache cache' : Cache} {find : Text → EvalM Float} {t u name : Text}
  {x : Float}

theorem outcome_substituteWithin_succ (hfind : ∀ name, Quiet (find name)) (depth times : Nat)
    {before after : Text} (hfirst : firstName? t = some (before, name, after))
    (hx : (find name).outcome = .ok x) (hne : before ++ numberText x ++ after ≠ t) :
    (substituteWithin vars find depth (times + 1) t).outcome =
      (substituteWithin vars find depth times (before ++ numberText x ++ after)).outcome := by
  have hquiet : ∀ y, Quiet (if before ++ numberText y ++ after = t then .fail (vars.undefined name)
      else do
        record (.substituted name y depth (before ++ numberText y ++ after))
        substituteWithin vars find depth times (before ++ numberText y ++ after)) := by
    intro y
    split
    · exact quiet_fail _
    · exact (quiet_record _).bind fun _ => quiet_substituteWithin hfind _ _ _
  rw [substituteWithin.eq_def, hfirst]
  refine (outcome_bind (hfind name) hquiet).trans ?_
  rw [hx]
  dsimp only
  rw [if_neg hne]
  exact outcome_record_bind (quiet_substituteWithin hfind _ _ _) _

/-- An infinity is written like no name but `inf`. -/
theorem splice_ne_of_infinity {before after sign : Text} (hname : IsName name)
    (hne : name ≠ infName) (hsign : numberText x = sign ++ infName) :
    before ++ numberText x ++ after ≠ before ++ name ++ after := by
  intro heq
  have heq := List.append_cancel_left (List.append_cancel_right heq)
  rw [hsign] at heq
  obtain ⟨c, rest, rfl, hc, -⟩ := hname
  cases sign with
  | nil => exact hne heq.symm
  | cons d sign =>
    cases heq
    rw [nameless_of_numberText_eq hsign c List.mem_cons_self] at hc
    cases hc

/-- **The loop puts in what takes the place of the names**, in at most two rewrites for each. -/
theorem Fills.outcome_substituteWithin (hfind : ∀ name, Quiet (find name)) (depth : Nat)
    (h : Fills (fun n x => (find n).outcome = .ok x) t u) {s : Text} (hs : Nameless s) {times : Nat}
    (htimes : 2 * (names t).length ≤ times) :
    (substituteWithin vars find depth times (s ++ t)).outcome = .ok (s ++ u) := by
  induction h generalizing s times with
  | nameless ht =>
    rw [substituteWithin.eq_def, firstName?_eq_none_iff.2 (nameless_append.2 ⟨hs, ht⟩)]
    rfl
  | @name t before name after x u hfirst hx _ ih =>
    rw [names_of_some hfirst, List.length_cons] at htimes
    obtain ⟨times, rfl⟩ := Nat.exists_eq_add_of_le' (show 2 ≤ times by omega)
    have htimes : 2 * (names after).length ≤ times := by omega
    have hfirst' := firstName?_append_of_nameless hs hfirst
    obtain ⟨htext, hbefore, hname, hafter⟩ := firstName?_eq_some_iff.1 hfirst'
    rw [nameless_append] at hbefore
    cases hx with
    | @number x hx hfin =>
      have hne : s ++ before ++ numberText x ++ after ≠ s ++ before ++ name ++ after :=
        splice_ne (nameless_numberText hfin) hname
      rw [outcome_substituteWithin_succ hfind depth _ hfirst' hx (htext ▸ hne)]
      have hprefix := nameless_append.2 ⟨nameless_append.2 hbefore, nameless_numberText hfin⟩
      rw [ih hprefix (Nat.le_succ_of_le htimes)]
      simp only [List.append_assoc]
    | @infinity sign x y hx hsign hy hfin =>
      have hsigned := nameless_of_numberText_eq hsign
      have hother : name ≠ infName := by
        rintro rfl
        rw [hx] at hy
        cases hy
        rw [isFinite_of_numberText_eq hsign] at hfin
        cases hfin
      have hne : s ++ before ++ numberText x ++ after ≠ s ++ t :=
        htext ▸ splice_ne_of_infinity hname hother hsign
      rw [outcome_substituteWithin_succ hfind depth _ hfirst' hx hne]
      have hinf := firstName?_splice hfirst' hsign hsigned isName_infName
      have hsigns := nameless_append.2 ⟨nameless_append.2 hbefore, hsigned⟩
      have hne' : s ++ before ++ sign ++ numberText y ++ after ≠
          s ++ before ++ numberText x ++ after := by
        rw [hsign, ← List.append_assoc (s ++ before)]
        exact splice_ne (nameless_numberText hfin) isName_infName
      rw [outcome_substituteWithin_succ hfind depth _ hinf hy hne',
        ih (nameless_append.2 ⟨hsigns, nameless_numberText hfin⟩) htimes]
      simp only [List.append_assoc]

/-- An equation whose names can be recalled is evaluated with the value that it has. -/
theorem HasValue.outcome_evaluateUsing (hfind : ∀ name, Quiet (find name))
    (h : HasValue (fun n x => (find n).outcome = .ok x) t x) :
    ∃ bound, ∀ limit levels, bound ≤ levels →
      (evaluateUsing vars find limit levels t).outcome = .ok x := by
  obtain ⟨u, hu, hx⟩ := h
  obtain ⟨bound, hbound⟩ := hx.exists_levels
  refine ⟨bound, fun limit levels hle => ?_⟩
  have hlimit : 2 * (names (equationBody t)).length ≤ substitutionLimit (equationBody t) := by
    have := length_names_le (equationBody t)
    rw [substitutionLimit]
    omega
  have hsub : (substituteWithin vars find (limit - levels) (substitutionLimit (equationBody t))
      (equationBody t)).outcome = .ok u :=
    hu.outcome_substituteWithin hfind (limit - levels) nameless_nil hlimit
  refine (outcome_bind (quiet_substituteWithin hfind _ _ _) fun u =>
    quiet_resolve limit levels u).trans ?_
  rw [hsub]
  exact hbound limit levels hle

theorem recalled_within (h : cache.Within cache') (hx : recalled vars cache name = .ok x) :
    recalled vars cache' name = .ok x := by
  rw [recalled] at hx ⊢
  split at hx
  · cases hx
  · exact hx
  · split at hx
    · rename_i hget
      rw [h _ _ hget]
      exact hx
    · cases hx

theorem valueOf_of_recalled (h : ∀ n y, cache.get? n = some y → ValueOf vars n y)
    (hx : recalled vars cache name = .ok x) : ValueOf vars name x := by
  rw [recalled] at hx
  split at hx
  · cases hx
  · rename_i y hname
    split at hx
    · cases hx
      exact .number hname ‹_›
    · cases hx
  · split at hx
    · rename_i hget
      cases hx
      exact h _ _ hget
    · cases hx

/-- The values in a sound cache are those of their names. -/
theorem Cache.Sound.valueOf (h : cache.Sound vars) :
    ∀ n y, cache.get? n = some y → ValueOf vars n y := by
  induction h with
  | empty => exact fun _ _ hget => by cases hget
  | @insert cache key f y limit levels _ _ hkey hout ih =>
    intro n z hz
    rw [Table.get?_insert_eq] at hz
    split at hz
    · rename_i hn
      cases hz
      have hrecall : ∀ name, Attempt.Ends (fun _ => True) (ValueOf vars name) (fun _ => True)
          (recalling vars cache name) := fun name =>
        ((quiet_recalling vars cache name).ends fun _ _ _ h => h).mono
          (fun w hw => valueOf_of_recalled ih hw) fun _ h => h
      rw [hn, valueOf_formula_iff hkey]
      exact (ends_evaluateUsing (fun _ _ _ h => h) (fun _ _ _ hx hy => hx.unique hy)
        (fun _ _ hx => hx.isNaN) (fun name _ => hrecall name) limit levels f {} trivial).2.1 y hout
    · exact ih n z hz

/-- The name has the value, and every sound cache can be filled up until it is recalled. -/
def Recallable (vars : Variables) (name : Text) (x : Float) : Prop :=
  ∀ cache : Cache, cache.Sound vars →
    ∃ cache' : Cache, cache.Within cache' ∧ cache'.Sound vars ∧ recalled vars cache' name = .ok x

theorem Fills.exists_cache (h : Fills (Recallable vars) t u) (hcache : cache.Sound vars) :
    ∃ cache' : Cache, cache.Within cache' ∧ cache'.Sound vars ∧
      Fills (fun n x => recalled vars cache' n = .ok x) t u := by
  induction h generalizing cache with
  | nameless ht => exact ⟨cache, .refl _, hcache, .nameless ht⟩
  | name hfirst hs _ ih =>
    cases hs with
    | number hx hfin =>
      obtain ⟨c₁, hsub₁, hc₁, hx⟩ := hx cache hcache
      obtain ⟨c₂, hsub₂, hc₂, hu⟩ := ih hc₁
      exact ⟨c₂, hsub₁.trans hsub₂, hc₂, .name hfirst (.number (recalled_within hsub₂ hx) hfin) hu⟩
    | infinity hx hsign hy hfin =>
      obtain ⟨c₁, hsub₁, hc₁, hx⟩ := hx cache hcache
      obtain ⟨c₂, hsub₂, hc₂, hy⟩ := hy c₁ hc₁
      obtain ⟨c₃, hsub₃, hc₃, hu⟩ := ih hc₂
      have hx := recalled_within (hsub₂.trans hsub₃) hx
      exact ⟨c₃, (hsub₁.trans hsub₂).trans hsub₃, hc₃,
        .name hfirst (.infinity hx hsign (recalled_within hsub₃ hy) hfin) hu⟩

theorem HasValue.exists_cache (h : HasValue (Recallable vars) t x) (hcache : cache.Sound vars) :
    ∃ cache' : Cache, cache.Within cache' ∧ cache'.Sound vars ∧ ∃ bound, ∀ limit levels,
      bound ≤ levels →
        (evaluateUsing vars (recalling vars cache') limit levels t).outcome = .ok x := by
  obtain ⟨u, hu, hx⟩ := h
  obtain ⟨cache', hsub, hcache', hu⟩ := hu.exists_cache hcache
  exact ⟨cache', hsub, hcache',
    HasValue.outcome_evaluateUsing (quiet_recalling vars cache') ⟨u, hu, hx⟩⟩

/-- **The value of a name can be worked out**, formula by formula. -/
theorem ValueOf.recallable (h : ValueOf vars name x) : Recallable vars name x := by
  induction h with
  | number hname hfin =>
    refine fun cache hcache => ⟨cache, .refl _, hcache, ?_⟩
    rw [recalled, hname]
    exact if_pos hfin
  | @formula name f x value hname hvalue hx ih =>
    intro cache hcache
    obtain ⟨c₁, hsub₁, hc₁, bound, hout⟩ := (hx.mono ih).exists_cache hcache
    have hout := hout 0 bound (Nat.le_refl _)
    cases hget : c₁.get? name with
    | some y =>
      obtain rfl := (hc₁.valueOf name y hget).unique (.formula hname hvalue hx)
      refine ⟨c₁, hsub₁, hc₁, ?_⟩
      rw [recalled, hname]
      simp only [hget]
    | none =>
      refine ⟨c₁.insert name x, hsub₁.trans (Cache.within_insert hget x),
        .insert hc₁ hget hname hout, ?_⟩
      rw [recalled, hname]
      simp only [Table.get?_insert_self]

end Recall

/-! ## Fresh sessions -/

/-- **A value that the equation has is found**, unless there are too few levels. -/
theorem HasValue.found {vars : Variables} {t : Text} {x : Float}
    (h : HasValue (ValueOf vars) t x) : ∃ enough, ∀ options : EvalOptions,
      evaluateFresh vars options t = .ok x ∨ options.maxDepth < enough ∧
        evaluateFresh vars options t = .error (.depthExceeded options.maxDepth) := by
  obtain ⟨cache, -, hcache, bound, hout⟩ :=
    (h.mono fun _ _ hx => hx.recallable).exists_cache Cache.Sound.empty
  obtain ⟨bound', hsolo⟩ := hcache.solo
  have hawaited : Awaited vars cache [] := List.forall_mem_nil _
  refine ⟨bound' + bound + 1, fun options => ?_⟩
  rcases hsolo.evaluateAt (.refl cache) (hout 0 bound (Nat.le_refl _)) options.maxDepth
    (options.maxDepth + 1) hawaited {} { cache } hcache.apart_empty with
    ⟨heq, -⟩ | ⟨e, he, hlt, rfl⟩ | ⟨e, -, hfalse⟩
  · exact .inl heq
  · exact .inr ⟨by omega, he⟩
  · exact hfalse.elim

/-- With levels enough, the value is found. -/
theorem HasValue.exists_enough {vars : Variables} {t : Text} {x : Float}
    (h : HasValue (ValueOf vars) t x) :
    ∃ enough, ∀ options : EvalOptions, enough ≤ options.maxDepth →
      evaluateFresh vars options t = .ok x := by
  obtain ⟨enough, henough⟩ := h.found
  refine ⟨enough, fun options hle => (henough options).resolve_right ?_⟩
  rintro ⟨hlt, -⟩
  omega

/-- The value is found if evaluation does not run out of levels. -/
theorem HasValue.evaluateFresh_eq {vars : Variables} {options : EvalOptions} {t : Text} {x : Float}
    (h : HasValue (ValueOf vars) t x)
    (hlevels : evaluateFresh vars options t ≠ .error (.depthExceeded options.maxDepth)) :
    evaluateFresh vars options t = .ok x := by
  obtain ⟨enough, henough⟩ := h.found
  exact (henough options).resolve_right fun hout => hlevels hout.2

end EquationFigure
