import EquationFigure.Proofs.Equation.Cycles
import EquationFigure.Proofs.Equation.Nesting
import EquationFigure.Proofs.Equation.Parentheses

/-!
# How deep equations are nested

A level of nesting is taken by each formula on the way from the equation to a text, and by each
group that is open at a place of that text.  The limit is on this sum and on nothing else: groups
and names that stand side by side take no level from each other.

* `nesting t` — the greatest number of groups open at a place of the text; `le_nesting_iff` says it
  in terms of its starts.
* `le_nesting_of_depthExceeded`, `nesting_le_of_resolve` — resolving the groups of a text runs out
  of levels only if it is nested too deep, and comes to its end only if it is not.
* `exists_links_of_depthExceeded` — if an evaluation runs out of levels, its equation leads to a
  text that is nested too deep for the way to it.
* `Reached`, `ends_evaluateAt_shallow` — if an evaluation has a value, every text that it leads to
  is reached on some way that leaves levels enough; the invariant is that this is so for all that a
  cached name leads to.
* `depth_limit_spec` — both for a fresh session.
-/

set_option autoImplicit false

namespace EquationFigure

open Text EvalM

/-! ## How many groups are open at a place of a text -/

/-- The largest excess of `(` over `)` in a start of the text. -/
def nesting : Text → Nat
  | [] => 0
  | c :: t => if c = '(' then nesting t + 1 else if c = ')' then nesting t - 1 else nesting t

section Nesting

variable {s t u v before after rest : Text}

@[simp] theorem nesting_open (t : Text) : nesting ('(' :: t) = nesting t + 1 := by
  rw [nesting, if_pos rfl]

@[simp] theorem nesting_close (t : Text) : nesting (')' :: t) = nesting t - 1 := by
  rw [nesting, if_neg (by decide), if_pos rfl]

theorem nesting_cons_of_not_paren {c : Char} (hc : isParen c = false) (t : Text) :
    nesting (c :: t) = nesting t := by
  rw [isParen, Bool.or_eq_false_iff, beq_eq_false_iff_ne, beq_eq_false_iff_ne] at hc
  rw [nesting, if_neg hc.1, if_neg hc.2]

/-- **Some start of the text has so many more `(` than `)`, and none has more.** -/
theorem le_nesting_iff {n : Nat} :
    n ≤ nesting t ↔ ∃ s u, t = s ++ u ∧ s.count ')' + n ≤ s.count '(' := by
  induction t generalizing n with
  | nil =>
    refine ⟨fun h => ⟨[], [], rfl, by simpa [nesting] using h⟩, ?_⟩
    rintro ⟨s, u, hsu, hle⟩
    rw [(List.append_eq_nil_iff.1 hsu.symm).1] at hle
    simpa [nesting] using hle
  | cons c t ih =>
    -- A start of the text is empty, or it is the first character and a start of the rest.
    have hstarts : (∃ s u, c :: t = s ++ u ∧ s.count ')' + n ≤ s.count '(') ↔
        n = 0 ∨ ∃ s u, t = s ++ u ∧ (c :: s).count ')' + n ≤ (c :: s).count '(' := by
      constructor
      · rintro ⟨s, u, hsu, hle⟩
        cases s with
        | nil => exact .inl (by simpa using hle)
        | cons d s =>
          obtain ⟨rfl, hsu'⟩ := List.cons.inj hsu
          exact .inr ⟨s, u, hsu', hle⟩
      · rintro (rfl | ⟨s, u, rfl, hle⟩)
        · exact ⟨[], c :: t, rfl, by simp⟩
        · exact ⟨c :: s, u, rfl, hle⟩
    rw [hstarts]
    by_cases hopen : c = '('
    · subst hopen
      simp only [nesting_open, List.count_cons_self, List.count_cons_of_ne (by decide : '(' ≠ ')')]
      cases n with
      | zero => simp
      | succ n =>
        rw [Nat.add_le_add_iff_right, ih]
        simp only [Nat.succ_ne_zero, false_or]
        exact exists₂_congr fun s u => and_congr_right fun _ => by omega
    by_cases hclose : c = ')'
    · subst hclose
      simp only [nesting_close, List.count_cons_self, List.count_cons_of_ne (by decide : ')' ≠ '(')]
      cases n with
      | zero => simp
      | succ n =>
        rw [show n + 1 ≤ nesting t - 1 ↔ n + 2 ≤ nesting t by omega, ih]
        simp only [Nat.succ_ne_zero, false_or]
        exact exists₂_congr fun s u => and_congr_right fun _ => by omega
    · have hparen : isParen c = false := by simp [isParen, hopen, hclose]
      rw [nesting_cons_of_not_paren hparen, ih]
      simp only [List.count_cons_of_ne hopen, List.count_cons_of_ne hclose]
      refine (or_iff_right_of_imp ?_).symm
      rintro rfl
      exact ⟨[], t, rfl, Nat.le_refl 0⟩

theorem nesting_append_of_parenFree (hs : ParenFree s) (t : Text) :
    nesting (s ++ t) = nesting t := by
  induction s with
  | nil => rfl
  | cons c s ih =>
    obtain ⟨hc, hs⟩ := List.forall_mem_cons.1 hs
    rw [List.cons_append, nesting_cons_of_not_paren hc, ih hs]

theorem nesting_of_parenFree (ht : ParenFree t) : nesting t = 0 := by
  have h := nesting_append_of_parenFree ht []
  rwa [List.append_nil] at h

/-- What has no parentheses changes nothing wherever it stands. -/
theorem nesting_insert (hv : ParenFree v) (s t : Text) :
    nesting (s ++ v ++ t) = nesting (s ++ t) := by
  induction s with
  | nil => exact nesting_append_of_parenFree hv t
  | cons c s ih =>
    simp only [List.cons_append, nesting, ih]

theorem nesting_equationBody (t : Text) : nesting (equationBody t) = nesting t := by
  obtain ⟨s, hs, ht⟩ := exists_parenFree_beforeBody t
  conv_rhs => rw [ht]
  exact (nesting_append_of_parenFree hs _).symm

end Nesting

/-! ## Resolving groups -/

section Resolve

variable {limit levels l : Nat} {t rest u : Text}

/-- What a group hands back is nested at most one deeper than what stood behind its `(`, where the
group was open. -/
theorem HandsBack.nesting_le (h : HandsBack t rest) : nesting rest ≤ nesting t + 1 := by
  induction h with
  | close hbefore _ =>
    rw [nesting_append_of_parenFree (parenFree_numberText _), nesting_append_of_parenFree hbefore,
      nesting_close]
    omega
  | group hbefore _ _ ih ih' =>
    rw [nesting_append_of_parenFree hbefore] at ih' ⊢
    rw [nesting_open]
    omega

/-- **Resolving groups runs out of levels only if the text is nested too deep.** -/
theorem le_nesting_of_depthExceeded
    (h : (resolveGroups limit levels t).outcome = .error (.depthExceeded l)) :
    levels ≤ nesting t := by
  revert h
  refine resolveGroups_induction ?exhausted ?flat ?close ?stuck ?refused ?fails ?group levels t
  case exhausted => exact fun _ _ => Nat.zero_le _
  case flat => exact fun _ _ _ _ _ h => by cases h
  case close => exact fun _ _ _ _ _ _ h => by cases h
  case stuck =>
    intro _ _ e he h
    cases h
    exact he.elim
  case refused => exact fun _ _ _ _ _ h => by cases h
  case fails =>
    intro levels before after e hbefore _ ih h
    rw [nesting_append_of_parenFree hbefore, nesting_open]
    exact Nat.succ_le_succ (ih h)
  case group =>
    intro levels before after rest hbefore _ hout _ ih h
    have hrest := ih h
    rw [nesting_append_of_parenFree hbefore] at hrest ⊢
    rw [nesting_open]
    exact hrest.trans (HandsBack.of_resolveGroups hout).nesting_le

/-- What hands something back was not nested too deep up to its `)`, and what follows is handed
back. -/
theorem nesting_lt_of_closed
    (h : (resolveGroups limit levels t).outcome = .ok (.closed rest)) :
    nesting t < max levels (nesting rest) := by
  suffices hall : ∀ rest, (resolveGroups limit levels t).outcome = .ok (.closed rest) →
      nesting t < max levels (nesting rest) from hall rest h
  refine resolveGroups_induction ?exhausted ?flat ?close ?stuck ?refused ?fails ?group levels t
  case exhausted => exact fun _ _ h => by cases h
  case flat => exact fun _ _ _ _ _ _ h => by cases h
  case close =>
    intro levels before after x hbefore _ rest h
    cases h
    rw [nesting_append_of_parenFree (parenFree_numberText _),
      nesting_append_of_parenFree hbefore, nesting_close]
    omega
  case stuck => exact fun _ _ _ _ _ h => by cases h
  case refused => exact fun _ _ _ _ _ _ h => by cases h
  case fails => exact fun _ _ _ _ _ _ _ _ h => by cases h
  case group =>
    intro levels before after inner hbefore _ _ hin ih rest h
    have hinner := hin _ rfl
    have hrest := ih _ h
    rw [nesting_append_of_parenFree hbefore] at hrest ⊢
    rw [nesting_open]
    omega

/-- **Resolving groups comes to its end only if the text is not nested too deep.** -/
theorem Flattens.nesting_le (h : Flattens limit levels t u) : nesting t ≤ levels := by
  induction h with
  | flat ht =>
    rw [nesting_of_parenFree ht]
    exact Nat.zero_le _
  | group hbefore _ hout _ ih =>
    have hlt := nesting_lt_of_closed hout
    rw [nesting_append_of_parenFree hbefore] at ih ⊢
    rw [nesting_open]
    omega

theorem nesting_le_of_resolve {x : Float} (h : (resolve limit levels t).outcome = .ok x) :
    nesting t ≤ levels := by
  obtain ⟨-, u, hu, -⟩ := resolve_eq_ok_iff.1 h
  exact hu.nesting_le

theorem le_nesting_of_resolve (h : (resolve limit levels t).outcome = .error (.depthExceeded l)) :
    levels + 1 ≤ nesting t := by
  rw [resolve] at h
  split at h
  · rw [outcome, Attempt.run_bind, run_eq_of_quiet (quiet_resolveGroups _ _ _)] at h
    cases hout : (resolveGroups limit (levels + 1) t).outcome with
    | error e =>
      rw [hout] at h
      cases h
      exact le_nesting_of_depthExceeded hout
    | ok resolved =>
      rw [hout] at h
      cases resolved <;> cases h
  · cases h

end Resolve

/-! ## Running out of levels -/

section Exceeded

variable {vars : Variables} {value : Text → EvalM Float} {limit levels l : Nat} {t u : Text}
  {s : Session}

/-- Putting in values changes nothing about the groups. -/
theorem nesting_of_substituteWithin {depth times : Nat}
    (h : ((substituteWithin vars value depth times t).run s).1 = .ok u) :
    nesting u = nesting t := by
  induction times generalizing t s with
  | zero =>
    rw [substituteWithin.eq_def] at h
    split at h <;> cases h
    rfl
  | succ times ih =>
    rw [substituteWithin.eq_def] at h
    split at h
    · cases h
      rfl
    · rename_i before name after hfirst
      obtain ⟨rfl, -, hname, -⟩ := firstName?_eq_some_iff.1 hfirst
      obtain ⟨x, s₁, -, h⟩ := Attempt.run_bind_eq_ok.1 (Prod.ext h rfl)
      dsimp only at h
      split at h
      · cases h
      · rw [ih (congrArg Prod.fst h), nesting_insert (parenFree_numberText x),
          nesting_insert (parenFree_of_isName hname)]

theorem nesting_le_of_evaluateUsing {x : Float}
    (h : ((evaluateUsing vars value limit levels t).run s).1 = .ok x) : nesting t ≤ levels := by
  obtain ⟨u, s₁, hu, h⟩ := Attempt.run_bind_eq_ok.1 (Prod.ext h rfl)
  have hx : (resolve limit levels u).outcome = .ok x :=
    ((quiet_resolve limit levels u).outcome s₁).symm.trans (congrArg Prod.fst h)
  rw [← nesting_equationBody, ← nesting_of_substituteWithin (congrArg Prod.fst hu)]
  exact nesting_le_of_resolve hx

/-- **If an evaluation runs out of levels, its equation leads to a text that is nested too deep for
the way to it.** -/
theorem exists_links_of_depthExceeded {pending : List Text} (hs : s.Valued vars)
    (h : ((evaluateAt vars limit levels pending t).run s).1 = .error (.depthExceeded l)) :
    ∃ ns u, Links vars t ns u ∧ levels ≤ ns.length + nesting u := by
  induction levels generalizing pending t s with
  | zero => exact ⟨[], t, .nil t, Nat.zero_le _⟩
  | succ levels ih =>
    rcases evaluateAt_eq_error h with ⟨u, hsub, hres⟩ | ⟨other, s', hlooks, herr⟩ |
      ⟨_, hundefined⟩ | ⟨_, hendless⟩
    · have hu := le_nesting_of_resolve hres
      rw [nesting_of_substituteWithin hsub, nesting_equationBody] at hu
      exact ⟨[], t, .nil t, hu.trans (Nat.le_add_left _ _)⟩
    · obtain ⟨hrefers, hs'⟩ := hlooks.refers hs
      rcases lookUp_eq_error herr with (hundefined | hdisabled | hnumber) | ⟨-, hcycle⟩ |
        ⟨-, -, f, hf, herr⟩
      · cases hundefined
      · cases hdisabled
      · cases hnumber
      · cases hcycle
      · obtain ⟨ns, u, hlinks, hle⟩ := ih hs' herr
        refine ⟨other :: ns, u, .cons hrefers hf hlinks, ?_⟩
        rw [List.length_cons]
        omega
    · cases hundefined
    · cases hendless

end Exceeded

/-! ## Levels enough -/

/-- The equation leads to the text in some way that leaves levels enough for its groups. -/
def Reached (vars : Variables) (limit : Nat) (t u : Text) : Prop :=
  ∃ ns, Links vars t ns u ∧ ns.length + nesting u ≤ limit

/-- So it does for all texts to which `f` leads. -/
def AllReached (vars : Variables) (limit : Nat) (t f : Text) : Prop :=
  ∀ ns u, Links vars f ns u → Reached vars limit t u

/-- The name has the value, and working it out took the equation to no text in such a way only that
leaves it too few levels. -/
def ShallowValue (vars : Variables) (limit : Nat) (t name : Text) (x : Float) : Prop :=
  ValueOf vars name x ∧ ∀ f, vars.value name = .ok (.formula f) → AllReached vars limit t f

/-- The values in the cache were worked out for that equation. -/
def Session.Shallow (vars : Variables) (limit : Nat) (t : Text) (s : Session) : Prop :=
  ∀ name x, s.cache.get? name = some x → ShallowValue vars limit t name x

section Shallow

variable {vars : Variables} {limit levels : Nat} {t f name : Text} {ns : List Text} {x : Float}

theorem Session.Shallow.congr {s s' : Session} (h : s'.cache = s.cache)
    (hs : s.Shallow vars limit t) : s'.Shallow vars limit t := by
  rwa [Session.Shallow, h]

theorem Session.Shallow.remember {s : Session} (hs : s.Shallow vars limit t)
    (hx : ShallowValue vars limit t name x) :
    ((EvalM.remember name x).run s).2.Shallow vars limit t := by
  intro other y hy
  change (s.cache.insert name x).get? other = some y at hy
  rw [Table.get?_insert_eq] at hy
  split at hy
  · rename_i hother
    cases hy
    exact hother ▸ hx
  · exact hs other y hy

/-- An equation that is reached with levels enough, and whose names have values, leads to nothing
else than what is reached. -/
theorem allReached_of_hasValue (hlinks : Links vars t ns f) (hle : ns.length + nesting f ≤ limit)
    (hx : HasValue (ShallowValue vars limit t) f x) : AllReached vars limit t f := by
  intro ns' u h
  cases h with
  | nil => exact ⟨ns, hlinks, hle⟩
  | cons hrefers hf hrest =>
    obtain ⟨y, -, hy⟩ := hx.exists_valueOf (fun _ _ h => h.1) hrefers
    exact hy _ hf _ _ hrest

/-- **If an evaluation has a value, every text to which it leads is reached with levels enough.** -/
theorem ends_evaluateAt_shallow (pending : List Text) (hlinks : Links vars t ns f)
    (hlevels : ns.length + levels = limit + 1) :
    Attempt.Ends (Session.Shallow vars limit t)
      (fun x => HasValue (ValueOf vars) f x ∧ AllReached vars limit t f) (fun _ => True)
      (evaluateAt vars limit levels pending f) := by
  induction levels generalizing pending ns f with
  | zero => exact Attempt.ends_fail trivial
  | succ levels ih =>
    have hI : ∀ s s' : Session, s'.cache = s.cache → s.Shallow vars limit t →
        s'.Shallow vars limit t := fun _ _ => Session.Shallow.congr
    have hfind : ∀ name, IsName name → Refers vars f name →
        Attempt.Ends (Session.Shallow vars limit t) (ShallowValue vars limit t name)
          (fun _ => True)
          (lookUp vars (evaluateAt vars limit levels) pending (limit - levels) name) := by
      intro name _ hrefers
      refine ends_lookUp_of hI (fun s x hs => hs name x) (fun x hx hfin => ⟨.number hx hfin, ?_⟩)
        (fun g hg => ?_) (fun g x s _ hx hs => hs.remember hx) _
      · intro g hg
        rw [hx] at hg
        cases hg
      · have hlength : (ns ++ [name]).length + levels = limit + 1 := by
          rw [List.length_append, List.length_singleton]
          omega
        refine (ih (pending ++ [name]) (hlinks.append (.cons hrefers hg (.nil g))) hlength).mono
          (fun x hx => ⟨(valueOf_formula_iff hg).2 hx.1, fun g' hg' => ?_⟩) fun _ h => h
        rw [hg] at hg'
        cases hg'
        exact hx.2
    have hinf : ∀ name x, Refers vars f name → ShallowValue vars limit t name x →
        x.isFinite = false → Refers vars f infName := fun _ _ hrefers hx => hrefers.infName hx.1
    rw [evaluateAt_succ]
    refine ((ends_evaluateUsing_of hI (fun _ _ _ hx hy => hx.1.unique hy.1)
      (fun _ _ hx => hx.1.isNaN) hfind hinf limit levels f fun _ => .inl).and
        fun s x => nesting_le_of_evaluateUsing).mono (fun x hx => ?_) fun _ h => h
    exact ⟨hx.1.mono fun _ _ h => h.1, allReached_of_hasValue hlinks (by omega) hx.1⟩

end Shallow

/-! ## The limit of depth -/

/-- **The limit of depth is on what is nested.**  If a fresh session runs out of levels, the
equation leads to a text with more groups open at a place of it than the limit leaves after the
formulas on the way; if it has a value, no text to which the equation leads is nested deeper than
the limit leaves after a shortest way to it.  Without names this is about the groups of the equation
alone.  What a formula leads to is what is written in it, unless something stands for an infinity:
that is written `inf`, which is looked up like a name of the formula. -/
theorem depth_limit_spec (vars : Variables) (options : EvalOptions) (t : Text) :
    (∀ limit, evaluateFresh vars options t = .error (.depthExceeded limit) →
      ∃ ns u, Links vars t ns u ∧ options.maxDepth < ns.length + nesting u) ∧
    (∀ x, evaluateFresh vars options t = .ok x → ∀ ns u, Links vars t ns u →
      (∀ ns', Links vars t ns' u → ns.length ≤ ns'.length) →
        ns.length + nesting u ≤ options.maxDepth) ∧
    (Nameless t →
      (∀ x, evaluateFresh vars options t = .ok x → nesting t ≤ options.maxDepth) ∧
      ∀ limit, evaluateFresh vars options t = .error (.depthExceeded limit) →
        options.maxDepth < nesting t) ∧
    ((∀ name x, ValueOf vars name x → x.isFinite = true) →
      ∀ t' name, Refers vars t' name ↔ name ∈ names t') := by
  have hexceeded : ∀ limit, evaluateFresh vars options t = .error (.depthExceeded limit) →
      ∃ ns u, Links vars t ns u ∧ options.maxDepth < ns.length + nesting u := fun limit h =>
    exists_links_of_depthExceeded (valued_empty vars) h
  have hok : ∀ x, evaluateFresh vars options t = .ok x →
      AllReached vars options.maxDepth t t := by
    intro x hx
    have hlevels : ([] : List Text).length + (options.maxDepth + 1) = options.maxDepth + 1 :=
      Nat.zero_add _
    have hends := ends_evaluateAt_shallow [] (Links.nil t : Links vars t [] t) hlevels {}
      fun _ _ h => by cases h
    exact (hends.2.1 x hx).2
  refine ⟨hexceeded, fun x hx ns u hlinks hshortest => ?_, fun ht => ?_,
    fun hfin _ _ => refers_iff hfin⟩
  · obtain ⟨ns', hlinks', hle⟩ := hok x hx ns u hlinks
    have := hshortest ns' hlinks'
    omega
  · have halone : ∀ ns u, Links vars t ns u → ns = [] ∧ u = t := by
      intro ns u hlinks
      cases hlinks with
      | nil => exact ⟨rfl, rfl⟩
      | cons hrefers =>
        have hnames : names t = [] := names_of_none (firstName?_eq_none_iff.2 ht)
        rw [Refers, hnames] at hrefers
        rcases hrefers with hmem | ⟨-, _, hmem, -⟩ <;> cases hmem
    constructor
    · intro x hx
      obtain ⟨ns, hlinks, hle⟩ := hok x hx [] t (.nil t)
      exact (Nat.le_add_left _ _).trans hle
    · intro limit h
      obtain ⟨ns, u, hlinks, hlt⟩ := hexceeded limit h
      obtain ⟨rfl, rfl⟩ := halone ns u hlinks
      rwa [List.length_nil, Nat.zero_add] at hlt

/-- The chain of two formulas, the second of which has a group, is three levels deep. -/
def groupChainTable : Variables :=
  .ofList [(['a'], .ofFormula ['b']), (['b'], .ofFormula ['(', '1', ')', '+', '(', '1', ')'])]

/-- Two levels are too few for it and three are enough: the second group takes no more. -/
theorem depth_limit_groupChainTable :
    (evaluateFresh groupChainTable { maxDepth := 2 } ['a'] = .error (.depthExceeded 2) ∧
      ∃ ns u, Links groupChainTable ['a'] ns u ∧ 2 < ns.length + nesting u) ∧
    ∃ x, evaluateFresh groupChainTable { maxDepth := 3 } ['a'] = .ok x ∧
      ∀ ns u, Links groupChainTable ['a'] ns u →
        (∀ ns', Links groupChainTable ['a'] ns' u → ns.length ≤ ns'.length) →
          ns.length + nesting u ≤ 3 := by
  have hfew : evaluateFresh groupChainTable { maxDepth := 2 } ['a'] =
      .error (.depthExceeded 2) := by decide +kernel
  have henough : evaluateFresh groupChainTable { maxDepth := 3 } ['a'] =
      .ok (.ofNat 2) := Binary.eq_ok_of_toBits (by decide +kernel)
  exact ⟨⟨hfew, (depth_limit_spec groupChainTable { maxDepth := 2 } ['a']).1 2 hfew⟩, _, henough,
    (depth_limit_spec groupChainTable { maxDepth := 3 } ['a']).2.1 _ henough⟩

/-- The table in which the value of `y` is an infinity, though `x` is a number in range, and `inf`
is declared with two groups. -/
def deepInfinityTable : Variables :=
  .ofList [(['x'], .ofFormula ('1' :: List.replicate 308 '0')), (['y'], .ofFormula ['5', 'x']),
    (infName, .ofFormula ['(', '(', '1', ')', ')'])]

/-- **What is not written may be nested too deep.**  The literals are in range, and the names that
are written lead from `y` to two formulas without groups, two levels down at most. -/
theorem deepInfinityTable_exceeds :
    evaluateFresh deepInfinityTable { maxDepth := 2 } ['y'] = .error (.depthExceeded 2) ∧
      (∃ reached : List (Nat × Text), (0, ['y']) ∈ reached ∧
        (∀ p ∈ reached, p.1 + nesting p.2 ≤ 2) ∧
        ∀ p ∈ reached, ∀ name ∈ names p.2, ∀ f,
          deepInfinityTable.value name = .ok (.formula f) → (p.1 + 1, f) ∈ reached) ∧
      Numeral.InRange ⟨false, '1' :: List.replicate 308 '0', []⟩ := by
  let digits : Text := '1' :: List.replicate 308 '0'
  have hy : names ['y'] = [['y']] := names_singleton rfl rfl
  have hx : names ['5', 'x'] = [['x']] := names_singleton rfl rfl
  have hdigits : names digits = [] := names_of_none (by decide +kernel)
  refine ⟨by decide +kernel, ⟨[(0, ['y']), (1, ['5', 'x']), (2, digits)], List.mem_cons_self,
    by decide +kernel, ?_⟩, ?_⟩
  · simp only [List.forall_mem_cons, hy, hx, hdigits]
    refine ⟨⟨fun f hf => ?_, List.forall_mem_nil _⟩, ⟨fun f hf => ?_, List.forall_mem_nil _⟩,
      List.forall_mem_nil _, List.forall_mem_nil _⟩
    · cases hf
      exact List.mem_cons_of_mem _ List.mem_cons_self
    · cases hf
      exact List.mem_cons_of_mem _ (List.mem_cons_of_mem _ List.mem_cons_self)
  · rw [Numeral.InRange]
    decide +kernel

end EquationFigure
