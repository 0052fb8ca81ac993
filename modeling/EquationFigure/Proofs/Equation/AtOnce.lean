import EquationFigure.Proofs.Equation.Rewriting

/-!
# Putting in all values at once

The loop that puts in values searches the whole text again after each of them.  If the values are
numbers, that comes to the same as taking the text apart at its names first, looking all of them up
from left to right, and then putting the values into the gaps: a number neither makes a name nor
takes one away, whatever it comes to stand next to.

* `TakenApart t gaps names` — the names of a text and what stands between them;
  `takenApart_iff` says that every text is taken apart in one way.
* `fill` — the text with words in the place of its first names.
* `FiniteInTurn` — of some names looked up one after the other, those that are found are numbers.
* `exists_rewrites_of_mapM` — as far as the names are found, the loop leads to the text with the
  values in their place.
* `substitute_at_once` — **the loop ends as putting in all values at once does**.
-/

set_option autoImplicit false

namespace EquationFigure

open Text EvalM

/-! ## Texts taken apart -/

/-- The text has these names, each as long as it can be, and these gaps around them, in which no
name starts. -/
inductive TakenApart : Text → List Text → List Text → Prop
  | last {t : Text} : Nameless t → TakenApart t [t] []
  | name {before name after : Text} {gaps names : List Text} :
    Nameless before → IsName name → HeadNot isNamePart after → TakenApart after gaps names →
    TakenApart (before ++ name ++ after) (before :: gaps) (name :: names)

/-- What stands before the first name of a text, between each two, and behind the last one. -/
def gaps (t : Text) : List Text :=
  match _h : firstName? t with
  | none => [t]
  | some (before, _, after) => before :: gaps after
termination_by t.length
decreasing_by exact length_lt_of_firstName? _h

/-- Gaps with a word behind each, as long as there are words. -/
def weave : (gaps words : List Text) → Text
  | gap :: gaps, word :: words => gap ++ word ++ weave gaps words
  | gaps, _ => gaps.flatten

/-- The text with words in the place of its first names. -/
def fill (t : Text) (words : List Text) : Text :=
  weave (gaps t) (words ++ (names t).drop words.length)

section TakenApart

variable {t before name after : Text} {ns gs words : List Text}

theorem gaps_of_none (h : firstName? t = none) : gaps t = [t] := by
  rw [gaps]
  split
  · rfl
  · rename_i hsome
    rw [h] at hsome
    cases hsome

theorem gaps_of_some (h : firstName? t = some (before, name, after)) :
    gaps t = before :: gaps after := by
  rw [gaps]
  split
  · rename_i hnone
    rw [h] at hnone
    cases hnone
  · rename_i hsome
    rw [h] at hsome
    cases hsome
    rfl

theorem takenApart (t : Text) : TakenApart t (gaps t) (names t) := by
  induction t using names.induct with
  | case1 t h =>
    rw [gaps_of_none h, names_of_none h]
    exact .last (firstName?_eq_none_iff.1 h)
  | case2 t before name after h ih =>
    rw [gaps_of_some h, names_of_some h]
    obtain ⟨rfl, hbefore, hname, hafter⟩ := firstName?_eq_some_iff.1 h
    exact .name hbefore hname hafter ih

/-- **A text is taken apart in one way.** -/
theorem takenApart_iff : TakenApart t gs ns ↔ gs = gaps t ∧ ns = names t := by
  constructor
  · intro h
    induction h with
    | last ht =>
      have hnone := firstName?_eq_none_iff.2 ht
      exact ⟨(gaps_of_none hnone).symm, (names_of_none hnone).symm⟩
    | name hbefore hname hafter _ ih =>
      have hfirst := firstName?_eq_some_iff.2 ⟨rfl, hbefore, hname, hafter⟩
      rw [gaps_of_some hfirst, names_of_some hfirst, ← ih.1, ← ih.2]
      exact ⟨rfl, rfl⟩
  · rintro ⟨rfl, rfl⟩
    exact takenApart t

theorem TakenApart.weave_eq (h : TakenApart t gs ns) : weave gs ns = t := by
  induction h with
  | last => exact List.append_nil _
  | name _ _ _ _ ih => rw [weave, ih]

theorem fill_of_names {later : List Text} (h : names t = ns ++ later)
    (hlength : words.length = ns.length) : fill t words = weave (gaps t) (words ++ later) := by
  rw [fill, h, hlength, List.drop_left]

end TakenApart

/-! ## Looking names up one after the other -/

/-- Looks up all names of the text, one after the other, and then puts in their values. -/
def substituteAtOnce (value : Text → EvalM Float) (t : Text) : EvalM Text := do
  let xs ← (names t).mapM value
  return fill t (xs.map numberText)

/-- Of the names, looked up one after the other as far as they are found, all that are found are
finite numbers. -/
def FiniteInTurn (value : Text → EvalM Float) : List Text → Session → Prop
  | [], _ => True
  | name :: rest, s =>
    match (value name).run s with
    | (.ok x, s') => x.isFinite = true ∧ FiniteInTurn value rest s'
    | (.error _, _) => True

instance decidableFiniteInTurn (value : Text → EvalM Float) :
    (ns : List Text) → (s : Session) → Decidable (FiniteInTurn value ns s)
  | [], _ => .isTrue trivial
  | name :: rest, s =>
    match h : (value name).run s with
    | (.ok x, s') =>
      have := decidableFiniteInTurn value rest s'
      decidable_of_iff (x.isFinite = true ∧ FiniteInTurn value rest s') (by rw [FiniteInTurn, h])
    | (.error _, _) => .isTrue (by rw [FiniteInTurn, h]; trivial)

section InTurn

variable {value : Text → EvalM Float} {name : Text} {ns : List Text} {s s' : Session}

theorem FiniteInTurn.of_run {x : Float} (h : FiniteInTurn value (name :: ns) s)
    (hx : (value name).run s = (.ok x, s')) : x.isFinite = true ∧ FiniteInTurn value ns s' := by
  rw [FiniteInTurn, hx] at h
  exact h

theorem run_mapM_cons_eq_ok {xs : List Float} :
    ((name :: ns).mapM value).run s = (.ok xs, s') ↔
      ∃ x xs' s₁, xs = x :: xs' ∧ (value name).run s = (.ok x, s₁) ∧
        (ns.mapM value).run s₁ = (.ok xs', s') := by
  rw [List.mapM_cons, Attempt.run_bind_eq_ok]
  constructor
  · rintro ⟨x, s₁, hx, h⟩
    obtain ⟨xs', s₂, hxs, h⟩ := Attempt.run_bind_eq_ok.1 h
    cases h
    exact ⟨x, xs', s₁, rfl, hx, hxs⟩
  · rintro ⟨x, xs', s₁, rfl, hx, hxs⟩
    exact ⟨x, s₁, hx, Attempt.run_bind_of_ok hxs _⟩

/-- **The error is that of the first name that is not found.** -/
theorem run_mapM_eq_error {e : EvalError} (h : (ns.mapM value).run s = (.error e, s')) :
    ∃ earlier name later xs s₁, ns = earlier ++ name :: later ∧
      (earlier.mapM value).run s = (.ok xs, s₁) ∧ (value name).run s₁ = (.error e, s') := by
  induction ns generalizing s with
  | nil => cases h
  | cons name rest ih =>
    rw [List.mapM_cons, Attempt.run_bind_eq_error] at h
    rcases h with hname | ⟨x, s₁, hx, h⟩
    · exact ⟨[], name, rest, [], s, rfl, rfl, hname⟩
    · rcases Attempt.run_bind_eq_error.1 h with hrest | ⟨_, _, -, h⟩
      · obtain ⟨earlier, name', later, xs, s₂, rfl, hxs, hname'⟩ := ih hrest
        exact ⟨name :: earlier, name', later, x :: xs, s₂, rfl,
          run_mapM_cons_eq_ok.2 ⟨x, xs, s₁, rfl, hx, hxs⟩, hname'⟩
      · cases h

end InTurn

/-! ## Sessions with the same cache -/

/-- The work takes no notice of what has been recorded. -/
def EvalM.Blind {α : Type} (x : EvalM α) : Prop :=
  Attempt.Sim (OnCaches (· = ·)) (fun _ => False) (fun _ => False) x x

section Blind

variable {vars : Variables}

theorem EvalM.Blind.run_eq {α : Type} {x : EvalM α} (hx : Blind x) {s₀ s₁ s₀' : Session}
    {r : Except EvalError α} (hs : s₀.cache = s₁.cache) (h : x.run s₀ = (r, s₀')) :
    ∃ s₁', x.run s₁ = (r, s₁') ∧ s₀'.cache = s₁'.cache := by
  rcases hx s₀ s₁ hs with ⟨heq, hs'⟩ | ⟨_, -, hfalse⟩ | ⟨_, -, hfalse⟩
  · rw [h] at heq hs'
    exact ⟨(x.run s₁).2, Prod.ext heq.symm rfl, hs'⟩
  · exact hfalse.elim
  · exact hfalse.elim

theorem blind_lookUp {evaluate : List Text → Text → EvalM Float}
    (heval : ∀ pending formula, Blind (evaluate pending formula)) (pending : List Text)
    (depth : Nat) (name : Text) : Blind (lookUp vars evaluate pending depth name) := by
  refine lookUp_sim_of rfl (fun _ _ hs => congrArg (·.get? name) hs.symm) fun f _ => ?_
  exact resolveFormula_sim (heval _ f) fun x _ _ =>
    congrArg fun cache : Cache => cache.insert name x

/-- **An evaluation takes no notice of what has been recorded.** -/
theorem blind_evaluateAt (limit levels : Nat) (pending : List Text) (equation : Text) :
    Blind (evaluateAt vars limit levels pending equation) := by
  induction levels generalizing pending equation with
  | zero => exact Attempt.sim_fail _
  | succ levels ih =>
    rw [evaluateAt_succ]
    exact evaluateUsing_sim (fun name => blind_lookUp ih pending _ name)
      ⟨fun h => absurd h (Nat.lt_irrefl _), fun h => absurd h (Nat.lt_irrefl _),
        fun _ => .inl rfl⟩ equation

end Blind

/-! ## The loop and the names -/

section Loop

variable {vars : Variables} {value : Text → EvalM Float}

/-- **As far as the names are found, the loop leads to the text with their values in their place.**
The text may stand behind another one, in which values have been put in already. -/
theorem exists_rewrites_of_mapM (depth : Nat) (hvalue : ∀ name, Blind (value name)) {t : Text}
    {gs earlier later : List Text} (ht : TakenApart t gs (earlier ++ later)) {done : Text}
    (hdone : Nameless done) {s₀ s s₁ : Session} (hs : s₀.cache = s.cache)
    (hfinite : FiniteInTurn value (earlier ++ later) s₀) {xs : List Float}
    (hxs : (earlier.mapM value).run s₀ = (.ok xs, s₁)) :
    ∃ splices s', Rewrites value depth (done ++ t) s splices
        (done ++ weave gs (xs.map numberText ++ later)) s' ∧
      splices.map Splice.name = earlier ∧ splices.map Splice.value = xs ∧
      (∀ x ∈ xs, x.isFinite = true) ∧ s₁.cache = s'.cache := by
  induction earlier generalizing t gs done s₀ s xs with
  | nil =>
    rw [List.mapM_nil] at hxs
    cases hxs
    rw [List.nil_append] at ht
    rw [List.map_nil, List.nil_append, ht.weave_eq]
    exact ⟨[], s, .done _ s, rfl, rfl, List.forall_mem_nil _, hs⟩
  | cons name earlier ih =>
    obtain ⟨x, xs, s₂, rfl, hx, hxs⟩ := run_mapM_cons_eq_ok.1 hxs
    obtain ⟨hfin, hfinite⟩ := hfinite.of_run hx
    obtain ⟨s₃, hx', hs'⟩ := (hvalue name).run_eq hs hx
    cases ht with
    | @name before _ after gs _ hbefore hname hafter ht =>
      let splice : Splice := ⟨done ++ before, name, x, after⟩
      have hfirst : firstName? (done ++ (before ++ name ++ after)) =
          some (splice.before, name, after) :=
        firstName?_append_of_nameless hdone
          (firstName?_eq_some_iff.2 ⟨rfl, hbefore, hname, hafter⟩)
      have hdone' : Nameless (splice.before ++ numberText x) :=
        nameless_append.2 ⟨nameless_append.2 ⟨hdone, hbefore⟩, nameless_numberText hfin⟩
      obtain ⟨splices, s', hrun, hnames, hvalues, hall, hcache⟩ :=
        ih ht hdone' (s := ((record (splice.event depth)).run s₃).2) hs' hfinite hxs
      refine ⟨splice :: splices, s', .step hfirst hx' (splice_numberText_ne hfirst hfin) ?_,
        by rw [List.map_cons, hnames], by rw [List.map_cons, hvalues],
        List.forall_mem_cons.2 ⟨hfin, hall⟩, hcache⟩
      have htext : done ++ weave (before :: gs) ((x :: xs).map numberText ++ later) =
          splice.before ++ numberText x ++ weave gs (xs.map numberText ++ later) := by
        simp [weave, splice]
      rw [htext]
      exact hrun

/-- As far as the names are found, the loop fills the text.  The names that are left are those that
have not been looked up. -/
theorem exists_rewrites_fill (depth : Nat) (hvalue : ∀ name, Blind (value name)) {t : Text}
    {earlier later : List Text} (hnames : names t = earlier ++ later) {s s₁ : Session}
    (hfinite : FiniteInTurn value (names t) s) {xs : List Float}
    (hxs : (earlier.mapM value).run s = (.ok xs, s₁)) :
    ∃ splices s', Rewrites value depth t s splices (fill t (xs.map numberText)) s' ∧
      splices.map Splice.name = earlier ∧ splices.map Splice.value = xs ∧
      (∀ splice ∈ splices, splice.value.isFinite = true) ∧ s₁.cache = s'.cache ∧
      names (fill t (xs.map numberText)) = later := by
  obtain ⟨splices, s', hrun, hname, hvalues, hall, hcache⟩ := exists_rewrites_of_mapM depth
    hvalue (hnames ▸ takenApart t) nameless_nil rfl (hnames ▸ hfinite) hxs
  have hlength : (xs.map numberText).length = earlier.length := by
    rw [← hname, ← hvalues, List.length_map, List.length_map, List.length_map]
  rw [List.nil_append, List.nil_append, ← fill_of_names hnames hlength] at hrun
  have hfin : ∀ splice ∈ splices, splice.value.isFinite = true := fun splice hmem =>
    hall _ (hvalues ▸ List.mem_map_of_mem hmem)
  have hleft := hrun.names_eq hfin
  rw [hnames, hname, List.append_cancel_left_eq] at hleft
  exact ⟨splices, s', hrun, hname, hvalues, hfin, hcache, hleft.symm⟩

variable {depth : Nat} {t t' name : Text} {s s' s'' : Session} {splices : List Splice}
  {later : List Text}

theorem firstName?_of_names_nil (h : names t = []) : firstName? t = none := by
  cases hfirst : firstName? t with
  | none => rfl
  | some found =>
    rw [names_of_some hfirst] at h
    cases h

theorem exists_firstName?_of_names_cons (h : names t = name :: later) :
    ∃ before after, firstName? t = some (before, name, after) := by
  cases hfirst : firstName? t with
  | none =>
    rw [names_of_none hfirst] at h
    cases h
  | some found =>
    rw [names_of_some hfirst] at h
    cases h
    exact ⟨_, _, rfl⟩

/-- The loop stops where no name is left. -/
theorem Rewrites.run_substitute (h : Rewrites value depth t s splices t' s')
    (hfinite : ∀ splice ∈ splices, splice.value.isFinite = true) (hnone : names t' = []) :
    (substitute vars value depth t).run s = (.ok t', s') := by
  have hlimit : splices.length ≤ substitutionLimit t := by
    have hnames := length_names_le t
    rw [h.names_eq hfinite, List.length_append, List.length_map] at hnames
    rw [substitutionLimit]
    omega
  obtain ⟨times, htimes⟩ := Nat.exists_eq_add_of_le hlimit
  rw [substitute, htimes, h.run, substituteWithin.eq_def, firstName?_of_names_nil hnone]
  rfl

/-- The loop stops where the next name is not found. -/
theorem Rewrites.run_substitute_of_error (h : Rewrites value depth t s splices t' s')
    (hfinite : ∀ splice ∈ splices, splice.value.isFinite = true) (hnext : names t' = name :: later)
    {e : EvalError} (he : (value name).run s' = (.error e, s'')) :
    (substitute vars value depth t).run s = (.error e, s'') := by
  have hlimit : splices.length + 1 ≤ substitutionLimit t := by
    have hnames := length_names_le t
    rw [h.names_eq hfinite, hnext, List.length_append, List.length_map, List.length_cons] at hnames
    rw [substitutionLimit]
    omega
  obtain ⟨times, htimes⟩ := Nat.exists_eq_add_of_le hlimit
  obtain ⟨before, after, hfirst⟩ := exists_firstName?_of_names_cons hnext
  rw [substitute, htimes, Nat.add_assoc, h.run, Nat.add_comm 1, substituteWithin.eq_def, hfirst]
  exact Attempt.run_bind_of_error he _

end Loop

/-! ## At once -/

/-- **The loop that puts in values ends as putting in all of them at once does**, if those of the
names that are found are numbers.  The names are those of the text as it was, taken apart from left
to right.  They are looked up in this order, each where it stands, and nothing else is: the loop
leads, by rewrites all of which change the text, to the one in which the values stand in the place
of the names found so far and all else is as it was.  There it ends if all of them are found, and
else with the error of the first one that is not. -/
theorem substitute_at_once (vars : Variables) (limit levels depth : Nat) (pending : List Text)
    (t : Text) (s : Session) :
    let value := lookUp vars (evaluateAt vars limit levels) pending depth
    FiniteInTurn value (names t) s →
      (∀ gs ns, TakenApart t gs ns ↔ gs = gaps t ∧ ns = names t) ∧
      ((substitute vars value depth t).run s).1 = ((substituteAtOnce value t).run s).1 ∧
      ((substitute vars value depth t).run s).2.cache =
        ((substituteAtOnce value t).run s).2.cache ∧
      ∃ splices t' s', Rewrites value depth t s splices t' s' ∧
        t' = fill t (splices.map fun splice => numberText splice.value) ∧
        (∀ splice ∈ splices, splice.value.isFinite = true) ∧
        ((splices.map Splice.name = names t ∧
            (substitute vars value depth t).run s = (.ok t', s')) ∨
          ∃ name later e s'', splices.map Splice.name ++ name :: later = names t ∧
            (value name).run s' = (.error e, s'') ∧
            (substitute vars value depth t).run s = (.error e, s'')) := by
  intro value hfinite
  have hblind : ∀ name, Blind (value name) :=
    blind_lookUp (fun pending formula => blind_evaluateAt limit levels pending formula) pending
      depth
  refine ⟨fun gs ns => takenApart_iff, ?_⟩
  rcases hmap : ((names t).mapM value).run s with ⟨e | xs, s₁⟩
  · obtain ⟨earlier, name, later, xs, s₂, hnames, hxs, he⟩ := run_mapM_eq_error hmap
    obtain ⟨splices, s', hrun, hname, rfl, hfin, hcache, hleft⟩ :=
      exists_rewrites_fill depth hblind hnames hfinite hxs
    obtain ⟨s'', he', hcache'⟩ := (hblind name).run_eq hcache he
    rw [hrun.run_substitute_of_error hfin hleft he', substituteAtOnce,
      Attempt.run_bind_of_error hmap]
    refine ⟨rfl, hcache'.symm, splices, _, s', hrun, ?_, hfin,
      .inr ⟨name, later, e, s'', by rw [hname, hnames], he', rfl⟩⟩
    rw [List.map_map]
    rfl
  · obtain ⟨splices, s', hrun, hname, rfl, hfin, hcache, hleft⟩ :=
      exists_rewrites_fill depth hblind (List.append_nil _).symm hfinite hmap
    rw [hrun.run_substitute hfin hleft, substituteAtOnce, Attempt.run_bind_of_ok hmap]
    refine ⟨rfl, hcache.symm, splices, _, s', hrun, ?_, hfin, .inl ⟨hname, rfl⟩⟩
    rw [List.map_map]
    rfl

/-- The table in which `x` is two, and `y` one more. -/
def gapsTable : Variables := .ofList [(['x'], .ofNumber 2), (['y'], .ofFormula ['x', '+', '1'])]

/-- Both values come to stand next to a digit or a dot, and the value of `x` is in the cache when
the one of `y` is looked up.  The other text has a name that is not found, and one after it. -/
theorem substitute_at_once_gapsTable :
    let value := lookUp gapsTable (evaluateAt gapsTable 100 100) [] 0
    let t : Text := ['2', 'x', '.', 'y']
    let u : Text := ['x', '*', 'q', '*', 'y']
    (FiniteInTurn value (names t) {} ∧ FiniteInTurn value (names u) {}) ∧
      ((substituteAtOnce value t).run {}).1 = .ok ['2', '2', '.', '3'] ∧
      ((substituteAtOnce value u).run {}).1 = .error (gapsTable.undefined ['q']) := by
  intro value t u
  have hnames : names t = [['x'], ['y']] := by
    rw [names_of_some (show firstName? t = some (['2'], ['x'], ['.', 'y']) by decide),
      names_of_some (show firstName? _ = some (['.'], ['y'], []) by decide),
      names_of_none (by decide)]
  have hnames' : names u = [['x'], ['q'], ['y']] := by
    rw [names_of_some (show firstName? u = some ([], ['x'], ['*', 'q', '*', 'y']) by decide),
      names_of_some (show firstName? _ = some (['*'], ['q'], ['*', 'y']) by decide),
      names_of_some (show firstName? _ = some (['*'], ['y'], []) by decide),
      names_of_none (by decide)]
  have hfinite : FiniteInTurn value (names t) {} := by
    rw [hnames]
    decide +kernel
  have hfinite' : FiniteInTurn value (names u) {} := by
    rw [hnames']
    decide +kernel
  obtain ⟨-, houtcome, -⟩ := substitute_at_once gapsTable 100 100 0 [] t {} hfinite
  obtain ⟨-, houtcome', -⟩ := substitute_at_once gapsTable 100 100 0 [] u {} hfinite'
  exact ⟨⟨hfinite, hfinite'⟩, houtcome.symm.trans (by decide +kernel),
    houtcome'.symm.trans (by decide +kernel)⟩

end EquationFigure
