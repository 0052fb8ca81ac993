import EquationFigure.Proofs.Equation.Names
import EquationFigure.Proofs.Equation.LookUp

/-!
# Putting in values, one after the other

Names are replaced by values until there is none left.  A value that is a number has no letters, so
each rewrite takes a name away.  An infinity is written with the name `inf`, which is looked up
next: the loop rewrites its own output.  Even then it ends, unless that name stands for minus
infinity, for then there is one more minus sign in front of `inf` each time.

* `Rewrites` — the loop, without any limit; `Rewrites.run` says that it is what `substituteWithin`
  does.
* `Rewrites.rescanned_iff` — values are not scanned for names again, and there are no more rewrites
  than names, exactly if the values are numbers.
* `rewritesLeft_step`, `Rewrites.forever` — otherwise there are at most twice as many, unless `inf`
  stands for minus infinity; then there is no end.
-/

set_option autoImplicit false

namespace EquationFigure

open Text EvalM

/-! ## The loop without a limit -/

/-- A value put in the place of a name. -/
structure Splice where
  /-- The text before the name. -/
  before : Text
  /-- The name. -/
  name : Text
  /-- The value. -/
  value : Float
  /-- The text behind the name. -/
  after : Text

namespace Splice

/-- The text with the value in the place of the name. -/
def text (splice : Splice) : Text := splice.before ++ numberText splice.value ++ splice.after

/-- The next name to be replaced starts before the end of the value that was put in. -/
def Rescanned (splice : Splice) : Prop :=
  ∃ before name after, firstName? splice.text = some (before, name, after) ∧
    before.length < (splice.before ++ numberText splice.value).length

/-- The name `inf` was replaced by minus infinity. -/
def Endless (splice : Splice) : Prop := splice.name = infName ∧ splice.value = minusInfinity

/-- The step that puts the value in. -/
def event (splice : Splice) (depth : Nat) : Event :=
  .substituted splice.name splice.value depth splice.text

end Splice

/-- The loop leads from the first text and session to the last ones, putting in these values. -/
inductive Rewrites (value : Text → EvalM Float) (depth : Nat) :
    Text → Session → List Splice → Text → Session → Prop
  | done (t : Text) (s : Session) : Rewrites value depth t s [] t s
  | step {t t' : Text} {s s₁ s' : Session} {splice : Splice} {splices : List Splice} :
    firstName? t = some (splice.before, splice.name, splice.after) →
    (value splice.name).run s = (.ok splice.value, s₁) → splice.text ≠ t →
    Rewrites value depth splice.text ((record (splice.event depth)).run s₁).2 splices t' s' →
    Rewrites value depth t s (splice :: splices) t' s'

section Rewrites

variable {value : Text → EvalM Float} {depth : Nat} {t t' : Text}
  {s s' : Session} {splices : List Splice}

/-- **The loop is what `substituteWithin` does**, as long as its limit is not reached. -/
theorem Rewrites.run (vars : Variables) (h : Rewrites value depth t s splices t' s')
    (times : Nat) :
    (substituteWithin vars value depth (splices.length + times) t).run s =
      (substituteWithin vars value depth times t').run s' := by
  induction h with
  | done t s => rw [List.length_nil, Nat.zero_add]
  | @step t t' s s₁ s' splice splices hfirst hvalue hne _ ih =>
    rw [List.length_cons, Nat.succ_add, substituteWithin.eq_def, hfirst]
    dsimp only
    rw [Attempt.run_bind_of_ok hvalue]
    change (if splice.text = t then _ else _ : EvalM Text).run s₁ = _
    rw [if_neg hne]
    exact ih

/-- The step of a splice: it replaces the leftmost name of some text. -/
theorem Rewrites.firstName? (h : Rewrites value depth t s splices t' s') :
    ∀ splice ∈ splices, ∃ u,
      EquationFigure.firstName? u = some (splice.before, splice.name, splice.after) := by
  induction h with
  | done => exact List.forall_mem_nil _
  | step hfirst _ _ _ ih => exact List.forall_mem_cons.2 ⟨⟨_, hfirst⟩, ih⟩

/-- A value that was put in is scanned for names exactly if it is no number. -/
theorem Splice.rescanned_iff {splice : Splice} {u : Text}
    (h : EquationFigure.firstName? u = some (splice.before, splice.name, splice.after)) :
    splice.Rescanned ↔ splice.value.isFinite = false := by
  obtain ⟨-, hbefore, -, hafter⟩ := firstName?_eq_some_iff.1 h
  constructor
  · rintro ⟨before, name, after, hfirst, hlt⟩
    by_contra hfin
    rw [Bool.not_eq_false] at hfin
    obtain ⟨htext, -, ⟨c, rest, rfl, hc, -⟩, -⟩ := firstName?_eq_some_iff.1 hfirst
    have hnameless := nameless_append.2 ⟨hbefore, nameless_numberText hfin⟩
    rw [Splice.text, List.append_assoc before] at htext
    rcases List.append_eq_append_iff.1 htext with ⟨u, hu, -⟩ | ⟨u, hu, hu'⟩
    · rw [hu, List.length_append] at hlt
      omega
    · cases u with
      | nil =>
        rw [hu, List.append_nil] at hlt
        omega
      | cons d u =>
        obtain ⟨rfl, -⟩ := List.cons.inj hu'
        rw [hnameless c (hu ▸ List.mem_append_right _ List.mem_cons_self)] at hc
        cases hc
  · intro hfin
    obtain ⟨sign, word, htext, hsign, hword⟩ := exists_word_of_not_isFinite hfin
    refine ⟨_, _, _, firstName?_splice h htext hsign hword, ?_⟩
    obtain ⟨c, rest, rfl, -⟩ := hword
    rw [htext]
    simp only [List.length_append, List.length_cons]
    omega

/-- Each number takes the place of one name. -/
theorem Rewrites.names_eq (h : Rewrites value depth t s splices t' s')
    (hfin : ∀ splice ∈ splices, splice.value.isFinite = true) :
    names t = splices.map Splice.name ++ names t' := by
  induction h with
  | done => rfl
  | step hfirst _ _ _ ih =>
    rw [List.forall_mem_cons] at hfin
    have hafter := ih hfin.2
    rw [Splice.text, names_splice hfirst hfin.1] at hafter
    rw [names_of_some hfirst, hafter, List.map_cons, List.cons_append]

/-- **The values are not scanned for names again, and there are no more rewrites than names, exactly
if the values are numbers.** -/
theorem Rewrites.rescanned_iff (h : Rewrites value depth t s splices t' s') :
    ((∀ splice ∈ splices, ¬ splice.Rescanned) ∧ splices.length ≤ (names t).length) ↔
      ∀ splice ∈ splices, splice.value.isFinite = true := by
  have hvalue : (∀ splice ∈ splices, ¬ splice.Rescanned) ↔
      ∀ splice ∈ splices, splice.value.isFinite = true := by
    refine forall₂_congr fun splice hmem => ?_
    obtain ⟨u, hu⟩ := h.firstName? splice hmem
    rw [Splice.rescanned_iff hu, Bool.not_eq_false]
  rw [hvalue, and_iff_left_iff_imp]
  intro hfin
  rw [h.names_eq hfin, List.length_append, List.length_map]
  exact Nat.le_add_right _ _

end Rewrites

/-! ## How often values can be put in -/

/-- How many more rewrites there can be, unless `inf` stands for minus infinity: two for each name,
the first of which may bring in `inf`. -/
def rewritesLeft (t : Text) : Nat :=
  match firstName? t with
  | none => 0
  | some (_, name, _) => 2 * (names t).length - if name = infName then 1 else 0

theorem rewritesLeft_le (t : Text) : rewritesLeft t ≤ 2 * (names t).length := by
  rw [rewritesLeft]
  split
  · exact Nat.zero_le _
  · exact Nat.sub_le _ _

theorem rewritesLeft_le_limit (t : Text) : rewritesLeft t ≤ substitutionLimit t := by
  have h1 := rewritesLeft_le t
  have h2 := length_names_le t
  rw [substitutionLimit]
  omega

section Step

variable {t before name after : Text} (h : firstName? t = some (before, name, after))
include h

theorem rewritesLeft_of_some :
    rewritesLeft t = 2 * (names after).length + 2 - if name = infName then 1 else 0 := by
  rw [rewritesLeft, h]
  dsimp only
  rw [names_of_some h, List.length_cons, Nat.mul_add]

theorem rewritesLeft_pos : 0 < rewritesLeft t := by
  rw [rewritesLeft_of_some h]
  split <;> omega

/-- **Every rewrite lowers the number of those left**, unless it is endless. -/
theorem rewritesLeft_step {x : Float} (hnan : x.isNaN = false)
    (hne : before ++ numberText x ++ after ≠ t)
    (hendless : ¬ (name = infName ∧ x = minusInfinity)) :
    rewritesLeft (before ++ numberText x ++ after) < rewritesLeft t := by
  cases hfin : x.isFinite with
  | true =>
    have hle := rewritesLeft_le (before ++ numberText x ++ after)
    rw [names_splice h hfin] at hle
    rw [rewritesLeft_of_some h]
    split <;> omega
  | false =>
    have hname : name ≠ infName := by
      rintro rfl
      rcases eq_infinity_of_not_isFinite hfin hnan with rfl | rfl
      · rw [numberText_plusInfinity] at hne
        exact hne (firstName?_eq_some_iff.1 h).1.symm
      · exact hendless ⟨rfl, rfl⟩
    obtain ⟨sign, hfirst⟩ : ∃ sign, firstName? (before ++ numberText x ++ after) =
        some (before ++ sign, infName, after) := by
      rcases eq_infinity_of_not_isFinite hfin hnan with rfl | rfl
      · exact ⟨_, firstName?_splice_plusInfinity h⟩
      · exact ⟨_, firstName?_splice_minusInfinity h⟩
    rw [rewritesLeft_of_some h, rewritesLeft_of_some hfirst, if_neg hname, if_pos rfl]
    omega

end Step

/-! ## The loop, once it is endless -/

section LookUp

variable {vars : Variables} {evaluate : List Text → Text → EvalM Float} {pending : List Text}
  {depth : Nat}

/-- An infinite value is in the cache from then on. -/
theorem cached_of_lookUp {name : Text} {s s' : Session} {x : Float}
    (h : (lookUp vars evaluate pending depth name).run s = (.ok x, s'))
    (hx : x.isFinite = false) :
    ∃ value, vars.value name = .ok value ∧ name ∉ pending ∧ s'.cache.get? name = some x := by
  revert h
  refine run_lookUp_cases vars evaluate pending depth name s ?refused ?cycle ?cached ?number
    ?formula
  case refused => exact fun _ _ h => by cases h
  case cycle => exact fun _ h => by cases h
  case cached =>
    rintro value y hvalue hp hcached h
    cases h
    exact ⟨value, hvalue, hp, hcached⟩
  case number =>
    rintro y - - hy h
    cases h
    rw [hx] at hy
    cases hy
  case formula =>
    intro f hf hp _ h
    obtain ⟨y, s₁, -, h⟩ := Attempt.run_bind_eq_ok.1 h
    cases h
    exact ⟨_, hf, hp, Table.get?_insert_self _ _ _⟩

/-- When `inf` stands for minus infinity, the loop puts in as many values as one likes. -/
theorem Rewrites.forever (evaluate : List Text → Text → EvalM Float) (depth : Nat)
    {value : VariableValue} (hvalue : vars.value infName = .ok value)
    (hp : infName ∉ pending) (n : Nat) {before after : Text} (hbefore : Nameless before)
    (hafter : HeadNot isNamePart after) {s : Session}
    (hs : s.cache.get? infName = some minusInfinity) :
    ∃ splices t' s', splices.length = n ∧ Rewrites (lookUp vars evaluate pending depth) depth
      (before ++ infName ++ after) s splices t' s' ∧ (∃ before', t' = before' ++ infName ++ after ∧
        Nameless before') ∧ s'.cache = s.cache ∧ ∀ event ∈ s.events, event ∈ s'.events := by
  induction n generalizing before s with
  | zero => exact ⟨[], _, s, rfl, .done _ s, ⟨before, rfl, hbefore⟩, rfl, fun _ h => h⟩
  | succ n ih =>
    let splice : Splice := ⟨before, infName, minusInfinity, after⟩
    have hfirst : EquationFigure.firstName? (before ++ infName ++ after) =
        some (before, infName, after) :=
      firstName?_eq_some_iff.2 ⟨rfl, hbefore, isName_infName, hafter⟩
    have htext : splice.text = (before ++ ['-']) ++ infName ++ after := by
      rw [Splice.text, numberText_minusInfinity]
      simp [splice]
    have hne : splice.text ≠ before ++ infName ++ after := by
      intro heq
      have := congrArg List.length heq
      rw [htext] at this
      simp at this
    obtain ⟨splices, t', s', hlen, hrun, hend, hcache, hevents⟩ :=
      ih (s := ((record (splice.event depth)).run s).2)
        (nameless_append.2 ⟨hbefore, nameless_minus⟩) hs
    refine ⟨splice :: splices, t', s', by rw [List.length_cons, hlen], ?_, hend, hcache,
      fun event hevent => hevents event (List.mem_cons_of_mem _ hevent)⟩
    exact .step hfirst (run_lookUp_cached hvalue hp hs) hne (htext ▸ hrun)

/-- So `substituteWithin` reaches its limit. -/
theorem neverEnds_substituteWithin (evaluate : List Text → Text → EvalM Float) (depth : Nat)
    {value : VariableValue}
    (hvalue : vars.value infName = .ok value) (hp : infName ∉ pending) (times : Nat)
    {before after : Text} (hbefore : Nameless before) (hafter : HeadNot isNamePart after)
    {s : Session} (hs : s.cache.get? infName = some minusInfinity) :
    ∃ s', s'.cache = s.cache ∧ (∀ event ∈ s.events, event ∈ s'.events) ∧ ∃ t,
      (substituteWithin vars (lookUp vars evaluate pending depth) depth times
        (before ++ infName ++ after)).run s = (.error (.endlessSubstitution t), s') := by
  obtain ⟨splices, t', s', rfl, hrun, ⟨before', rfl, hbefore'⟩, hcache, hevents⟩ :=
    Rewrites.forever evaluate depth hvalue hp times hbefore hafter hs
  refine ⟨s', hcache, hevents, before' ++ infName ++ after, ?_⟩
  have h := hrun.run vars 0
  rw [Nat.add_zero] at h
  rw [h, substituteWithin.eq_def, firstName?_eq_some_iff.2 ⟨rfl, hbefore', isName_infName, hafter⟩]
  rfl

/-- Once `inf` has been replaced by minus infinity, it goes on for ever. -/
theorem neverEnds_of_minusInfinity {t before after : Text}
    (hfirst : firstName? t = some (before, infName, after)) {s s₁ : Session}
    (hrun : (lookUp vars evaluate pending depth infName).run s = (.ok minusInfinity, s₁))
    (event : Event) (times : Nat) :
    ∃ s', s'.cache = s₁.cache ∧ event ∈ s'.events ∧ ∃ u,
      (substituteWithin vars (lookUp vars evaluate pending depth) depth times
        (before ++ numberText minusInfinity ++ after)).run ((record event).run s₁).2 =
          (.error (.endlessSubstitution u), s') := by
  obtain ⟨value, hname, hp, hcached⟩ := cached_of_lookUp hrun isFinite_minusInfinity
  obtain ⟨-, hbefore, -, hafter⟩ := firstName?_eq_some_iff.1 hfirst
  have htext : before ++ numberText minusInfinity ++ after =
      before ++ ['-'] ++ infName ++ after := by
    rw [numberText_minusInfinity]
    simp
  obtain ⟨s', hcache, hevents, u, hu⟩ := neverEnds_substituteWithin evaluate depth hname hp times
    (nameless_append.2 ⟨hbefore, nameless_minus⟩) hafter (s := ((record event).run s₁).2) hcached
  rw [htext]
  exact ⟨s', hcache, hevents event List.mem_cons_self, u, hu⟩

end LookUp

end EquationFigure
