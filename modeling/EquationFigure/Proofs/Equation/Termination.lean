import EquationFigure.Proofs.Equation.Rewriting
import EquationFigure.Proofs.Equation.Flattening

/-!
# When evaluation ends

Each part of an evaluation comes to an end by itself, with one exception: the loop that puts in
values for names does not end once it has replaced `inf` by minus infinity.  That is written down
when it happens, so the record of an evaluation tells whether it ends.

* `EvalM.Tells` — work goes on for ever exactly if the record says so; `tells_evaluateAt`.
* `substituteWithin_congr` — how often that loop may put in a value makes no difference.
* `evaluation_ends_iff` — when an evaluation ends, and how often each of its loops puts in a value.
-/

set_option autoImplicit false

namespace EquationFigure

open EvalM

/-! ## What every part of an evaluation tells -/

/-- No value in the cache is not a number. -/
def Session.Proper (s : Session) : Prop :=
  ∀ name x, s.cache.get? name = some x → x.isNaN = false

/-- The name `inf` was replaced by minus infinity. -/
def Event.Endless (event : Event) : Prop :=
  ∃ depth t, event = .substituted infName minusInfinity depth t

/-- It was recorded that `inf` was replaced by minus infinity. -/
def Session.Endless (s : Session) : Prop := ∃ event ∈ s.events, event.Endless

/-- The outcome is that the evaluation goes on for ever. -/
def NeverEnds {α : Type} (r : Except EvalError α) : Prop :=
  ∃ t, r = .error (.endlessSubstitution t)

/-- Whether the outcome is that the evaluation goes on for ever. -/
def neverEnds {α : Type} : Except EvalError α → Bool
  | .error (.endlessSubstitution _) => true
  | _ => false

theorem neverEnds_eq_true_iff {α : Type} {r : Except EvalError α} :
    neverEnds r = true ↔ NeverEnds r := by
  rw [neverEnds.eq_def]
  split
  · exact iff_of_true rfl ⟨_, rfl⟩
  · rename_i hr
    refine iff_of_false Bool.false_ne_true ?_
    rintro ⟨t, rfl⟩
    exact hr t rfl

instance {α : Type} (r : Except EvalError α) : Decidable (NeverEnds r) :=
  decidable_of_iff _ neverEnds_eq_true_iff

/-- From a proper session, work leaves one and ends with good values only, and it goes on for ever
exactly if it replaces `inf` by minus infinity. -/
def EvalM.Tells {α : Type} (good : α → Prop) (x : EvalM α) : Prop :=
  ∀ s : Session, s.Proper → (x.run s).2.Proper ∧ (∀ a, (x.run s).1 = .ok a → good a) ∧
    ((x.run s).2.Endless ↔ s.Endless ∨ NeverEnds (x.run s).1)

section Tells

variable {α β : Type} {good : α → Prop} {good' : β → Prop}

theorem not_neverEnds_ok (a : α) : ¬ NeverEnds (.ok a : Except EvalError α) := nofun

/-- Which error it is does not depend on what there would be without it. -/
theorem neverEnds_error {e : EvalError} :
    NeverEnds (.error e : Except EvalError α) ↔ NeverEnds (.error e : Except EvalError β) := by
  simp [NeverEnds]

theorem tells_pure {a : α} (ha : good a) : Tells good (pure a) := by
  refine fun s hs => ⟨hs, fun b hb => ?_, ?_⟩
  · cases hb
    exact ha
  · exact (or_iff_left (not_neverEnds_ok a)).symm

theorem tells_ofExcept {r : Except EvalError α} (hgood : ∀ a, r = .ok a → good a)
    (hends : ¬ NeverEnds r) : Tells good (.ofExcept r) :=
  fun _ hs => ⟨hs, hgood, (or_iff_left hends).symm⟩

theorem tells_fail {e : EvalError} (he : ∀ t, e ≠ .endlessSubstitution t) :
    Tells good (.fail e) := by
  refine fun s hs => ⟨hs, fun _ h => (by cases h), (or_iff_left ?_).symm⟩
  rintro ⟨t, ht⟩
  cases ht
  exact he t rfl

theorem endless_record {event : Event} {s : Session} :
    ((record event).run s).2.Endless ↔ event.Endless ∨ s.Endless :=
  List.exists_mem_cons_iff _ _ _

theorem tells_record {event : Event} (h : ¬ event.Endless) :
    Tells (fun _ => True) (record event) := by
  refine fun s hs => ⟨hs, fun _ _ => trivial, ?_⟩
  rw [endless_record, or_iff_right h]
  exact (or_iff_left (not_neverEnds_ok ())).symm

theorem tells_remember {name : Text} {x : Float} (hx : x.isNaN = false) :
    Tells (fun _ => True) (remember name x) := by
  refine fun s hs => ⟨fun other y hy => ?_, fun _ _ => trivial,
    (or_iff_left (not_neverEnds_ok ())).symm⟩
  change (s.cache.insert name x).get? other = some y at hy
  rw [Table.get?_insert_eq] at hy
  split at hy
  · cases hy
    exact hx
  · exact hs other y hy

theorem EvalM.Tells.bind {x : EvalM α} {f : α → EvalM β} (hx : Tells good x)
    (hf : ∀ a, good a → Tells good' (f a)) : Tells good' (x >>= f) := by
  intro s hs
  have h := hx s hs
  rw [Attempt.run_bind]
  revert h
  rcases x.run s with ⟨e | a, s₁⟩
  · rintro ⟨hs₁, -, hiff⟩
    exact ⟨hs₁, fun _ h => (by cases h), hiff.trans (or_congr_right neverEnds_error)⟩
  · rintro ⟨hs₁, hgood, hiff⟩
    have h' := hf a (hgood a rfl) s₁ hs₁
    refine ⟨h'.1, h'.2.1, h'.2.2.trans (or_congr_left (hiff.trans (or_iff_left ?_)))⟩
    exact not_neverEnds_ok a

end Tells

/-! ## The stages that put in no values -/

theorem Operation.value_ends (o : Operation) : ¬ NeverEnds o.value := by
  rintro ⟨t, ht⟩
  rcases Operation.value_eq_error ht with h | h <;> cases h

theorem readValue_ends (t : Text) : ¬ NeverEnds (readValue t) := by
  rintro ⟨u, hu⟩
  rcases readValue_eq_error hu with h | h <;> cases h

theorem tells_reduceWithin (tiers : List (List Operator)) (steps : Nat) (t : Text) :
    Tells (fun _ => True) (reduceWithin tiers steps t) := by
  induction steps generalizing t with
  | zero =>
    rw [reduceWithin.eq_def]
    split
    · exact tells_ofExcept (fun _ _ => trivial) (readValue_ends t)
    · exact tells_fail fun _ h => by cases h
  | succ steps ih =>
    rw [reduceWithin.eq_def]
    split
    · exact tells_ofExcept (fun _ _ => trivial) (readValue_ends t)
    · rename_i operation _ _
      refine EvalM.Tells.bind (tells_ofExcept (fun _ _ => trivial) operation.value_ends)
        fun x _ => ?_
      dsimp only
      split
      · exact tells_fail fun _ h => by cases h
      · refine EvalM.Tells.bind (tells_record ?_) fun _ _ => ih _
        rintro ⟨_, _, hevent⟩
        cases hevent

theorem tells_reduce (t : Text) : Tells (fun x => x.isNaN = false) (reduce t) := by
  intro s hs
  obtain ⟨hs', -, hiff⟩ := tells_reduceWithin Operator.tiers (operandCount t) t s hs
  exact ⟨hs', fun x hx => isNaN_of_reduce (((quiet_reduce t).outcome s).symm.trans hx), hiff⟩

/-- What a group or a text without an enclosing group may have for a value. -/
def Resolved.Good : Resolved → Prop
  | .value x => x.isNaN = false
  | .closed _ => True

theorem tells_resolveEach {nested : Text → EvalM Resolved}
    (hnested : ∀ t, Tells Resolved.Good (nested t)) (depth groups : Nat) (t : Text) :
    Tells Resolved.Good (resolveEach nested depth groups t) := by
  refine resolveEach_induction ?value ?close ?refused ?group groups t
  case value => exact fun t _ => (tells_reduce t).bind fun x hx => tells_pure hx
  case close =>
    intro before after _
    refine (tells_reduce before).bind fun x _ => ?_
    refine EvalM.Tells.bind (tells_record ?_) fun _ _ => tells_pure trivial
    rintro ⟨_, _, hevent⟩
    cases hevent
  case refused => exact fun _ _ _ => tells_fail fun _ h => by cases h
  case group =>
    intro groups before after _ _ ih
    refine (hnested after).bind fun resolved _ => ?_
    cases resolved with
    | value x => exact tells_fail fun _ h => by cases h
    | closed rest =>
      refine EvalM.Tells.bind (tells_record ?_) fun _ _ => ih rest
      rintro ⟨_, _, hevent⟩
      cases hevent

theorem tells_resolveGroups (limit levels : Nat) (t : Text) :
    Tells Resolved.Good (resolveGroups limit levels t) := by
  induction levels generalizing t with
  | zero => exact tells_fail fun _ h => by cases h
  | succ levels ih => exact tells_resolveEach ih _ _ _

/-! ## The loop that puts in values -/

section LookUp

variable {vars : Variables} {evaluate : List Text → Text → EvalM Float} {pending : List Text}
  {depth : Nat}

/-- Once `inf` has been replaced by minus infinity, the loop adds one minus sign after the other,
and it has been recorded why. -/
theorem endless_of_minusInfinity {t before after : Text}
    (hfirst : firstName? t = some (before, infName, after)) {s s₁ : Session}
    (hrun : (lookUp vars evaluate pending depth infName).run s = (.ok minusInfinity, s₁))
    (times : Nat) :
    let next := before ++ numberText minusInfinity ++ after
    let work := record (.substituted infName minusInfinity depth next) >>= fun _ =>
      substituteWithin vars (lookUp vars evaluate pending depth) depth times next
    (work.run s₁).2.cache = s₁.cache ∧ (work.run s₁).2.Endless ∧ NeverEnds (work.run s₁).1 := by
  intro next work
  obtain ⟨s', hcache, hevent, u, hu⟩ := neverEnds_of_minusInfinity hfirst hrun
    (.substituted infName minusInfinity depth next) times
  have hwork : work.run s₁ = (.error (.endlessSubstitution u), s') := hu
  rw [hwork]
  exact ⟨hcache, ⟨_, hevent, _, _, rfl⟩, u, rfl⟩

theorem tells_substituteWithin
    (hvalue : ∀ name, Tells (fun x => x.isNaN = false) (lookUp vars evaluate pending depth name))
    (times : Nat) (t : Text) (hleft : rewritesLeft t ≤ times) :
    Tells (fun _ => True)
      (substituteWithin vars (lookUp vars evaluate pending depth) depth times t) := by
  induction times generalizing t with
  | zero =>
    cases hfirst : firstName? t with
    | none =>
      rw [substituteWithin.eq_def, hfirst]
      exact tells_pure trivial
    | some p =>
      have hpos := rewritesLeft_pos hfirst
      omega
  | succ times ih =>
    rw [substituteWithin.eq_def]
    cases hfirst : firstName? t with
    | none => exact tells_pure trivial
    | some p =>
      obtain ⟨before, name, after⟩ := p
      intro s hs
      have hlook := hvalue name s hs
      dsimp only
      rw [Attempt.run_bind]
      cases hrun : (lookUp vars evaluate pending depth name).run s with
      | mk r s₁ =>
        rw [hrun] at hlook
        obtain ⟨hs₁, hgood, hiff⟩ := hlook
        cases r with
        | error e =>
          exact ⟨hs₁, fun _ _ => trivial, hiff.trans (or_congr_right neverEnds_error)⟩
        | ok x =>
          have hnan := hgood x rfl
          rw [or_iff_left (not_neverEnds_ok x)] at hiff
          dsimp only
          split
          · refine ⟨hs₁, fun _ _ => trivial, hiff.trans (or_iff_left ?_).symm⟩
            rintro ⟨t, ht⟩
            cases ht
          · rename_i hne
            by_cases hendless : name = infName ∧ x = minusInfinity
            · obtain ⟨rfl, rfl⟩ := hendless
              obtain ⟨hcache, htold, hends⟩ := endless_of_minusInfinity hfirst hrun times
              refine ⟨fun other y hy => hs₁ other y ?_, fun _ _ => trivial,
                iff_of_true htold (.inr hends)⟩
              rwa [hcache] at hy
            · have hstep := rewritesLeft_step hfirst hnan hne hendless
              have hevent : ¬ (Event.substituted name x depth
                  (before ++ numberText x ++ after)).Endless := by
                rintro ⟨_, _, heq⟩
                cases heq
                exact hendless ⟨rfl, rfl⟩
              have h := ((tells_record hevent).bind fun _ _ =>
                ih (before ++ numberText x ++ after) (by omega)) s₁ hs₁
              exact ⟨h.1, h.2.1, h.2.2.trans (or_congr_left hiff)⟩

/-- **How often values may be put in makes no difference**, if it is often enough: either the text
is the same, or both go on for ever. -/
theorem substituteWithin_congr
    (hvalue : ∀ name, Tells (fun x => x.isNaN = false) (lookUp vars evaluate pending depth name))
    {times times' : Nat} {t : Text} (hleft : rewritesLeft t ≤ times)
    (hleft' : rewritesLeft t ≤ times') {s : Session} (hs : s.Proper) :
    let value := lookUp vars evaluate pending depth
    (substituteWithin vars value depth times t).run s =
        (substituteWithin vars value depth times' t).run s ∨
      NeverEnds ((substituteWithin vars value depth times t).run s).1 ∧
        NeverEnds ((substituteWithin vars value depth times' t).run s).1 := by
  intro value
  induction times generalizing times' t s with
  | zero =>
    cases hfirst : firstName? t with
    | none =>
      rw [substituteWithin.eq_def, substituteWithin.eq_def _ _ _ times', hfirst]
      exact .inl rfl
    | some found =>
      have hpos := rewritesLeft_pos hfirst
      omega
  | succ times ih =>
    cases hfirst : firstName? t with
    | none =>
      rw [substituteWithin.eq_def, substituteWithin.eq_def _ _ _ times', hfirst]
      exact .inl rfl
    | some found =>
      obtain ⟨before, name, after⟩ := found
      have hpos := rewritesLeft_pos hfirst
      obtain ⟨times', rfl⟩ := Nat.exists_eq_add_of_lt (Nat.lt_of_lt_of_le hpos hleft')
      rw [Nat.zero_add] at hleft' ⊢
      rw [substituteWithin.eq_def, substituteWithin.eq_def _ _ _ (times' + 1), hfirst]
      dsimp only
      have hlook : _ ∧ _ ∧ _ := hvalue name s hs
      rw [Attempt.run_bind, Attempt.run_bind]
      cases hrun : (lookUp vars evaluate pending depth name).run s with
      | mk r s₁ =>
        rw [hrun] at hlook
        obtain ⟨hs₁, hgood, -⟩ := hlook
        cases r with
        | error e => exact .inl rfl
        | ok x =>
          dsimp only
          by_cases hne : before ++ numberText x ++ after = t
          · rw [if_pos hne, if_pos hne]
            exact .inl rfl
          rw [if_neg hne, if_neg hne]
          by_cases hendless : name = infName ∧ x = minusInfinity
          · -- Both run out, however often they may go on.
            obtain ⟨rfl, rfl⟩ := hendless
            exact .inr ⟨(endless_of_minusInfinity hfirst hrun times).2.2,
              (endless_of_minusInfinity hfirst hrun times').2.2⟩
          · have hstep := rewritesLeft_step hfirst (hgood x rfl) hne hendless
            exact ih (by omega) (by omega) (s := ((record _).run s₁).2) hs₁

end LookUp

/-! ## Evaluations -/

theorem tells_resolve (limit levels : Nat) (t : Text) :
    Tells (fun x => x.isNaN = false) (resolve limit levels t) := by
  rw [resolve]
  split
  · refine (tells_resolveGroups _ _ _).bind fun resolved hgood => ?_
    cases resolved with
    | value x => exact tells_pure hgood
    | closed rest => exact tells_fail fun _ h => by cases h
  · exact tells_fail fun _ h => by cases h

theorem tells_evaluateUsing {vars : Variables} {evaluate : List Text → Text → EvalM Float}
    {pending : List Text} {limit levels : Nat}
    (hvalue : ∀ name, Tells (fun x => x.isNaN = false)
      (lookUp vars evaluate pending (limit - levels) name)) (equation : Text) :
    Tells (fun x => x.isNaN = false)
      (evaluateUsing vars (lookUp vars evaluate pending (limit - levels)) limit levels
        equation) :=
  EvalM.Tells.bind (tells_substituteWithin hvalue _ _ (rewritesLeft_le_limit _))
    fun t _ => tells_resolve limit levels t

theorem tells_lookUp (vars : Variables) {evaluate : List Text → Text → EvalM Float}
    (heval : ∀ pending formula, Tells (fun x => x.isNaN = false) (evaluate pending formula))
    (pending : List Text) (depth : Nat) (name : Text) :
    Tells (fun x => x.isNaN = false) (lookUp vars evaluate pending depth name) := by
  intro s hs
  refine run_lookUp_cases vars evaluate pending depth name s ?refused ?cycle ?cached ?number
    ?formula
  case refused =>
    rintro e (hvalue | rfl)
    · rcases value_eq_error hvalue with rfl | rfl <;>
        exact tells_fail (fun _ h => by cases h) s hs
    · exact tells_fail (fun _ h => by cases h) s hs
  case cycle => exact fun _ => tells_fail (fun _ h => by cases h) s hs
  case cached => exact fun _ x _ _ hcached => tells_pure (a := x) (hs name x hcached) s hs
  case number => exact fun x _ _ hfin => tells_pure (a := x) (isNaN_of_isFinite hfin) s hs
  case formula =>
    intro f _ _ _
    refine ((heval _ f).bind fun x hx => ?_) s hs
    refine EvalM.Tells.bind (tells_record ?_) fun _ _ =>
      (tells_remember hx).bind fun _ _ => tells_pure hx
    rintro ⟨_, _, hevent⟩
    cases hevent

theorem tells_evaluateAt (vars : Variables) (limit levels : Nat) (pending : List Text)
    (equation : Text) :
    Tells (fun x => x.isNaN = false) (evaluateAt vars limit levels pending equation) := by
  induction levels generalizing pending equation with
  | zero => exact tells_fail fun _ h => by cases h
  | succ levels ih =>
    rw [evaluateAt_succ]
    exact tells_evaluateUsing (fun name => tells_lookUp vars ih pending _ name) equation

/-! ## How long the loop goes on -/

section Loop

variable {vars : Variables} {limit levels depth : Nat} {pending : List Text} {t t' : Text}
  {s s' : Session} {splices : List Splice}

/-- Unless a rewrite is endless, each of them is one of those that were left. -/
theorem Rewrites.length_add_le
    (h : Rewrites (lookUp vars (evaluateAt vars limit levels) pending depth) depth t s splices t'
      s')
    (hs : s.Proper) (hends : ∀ splice ∈ splices, ¬ splice.Endless) :
    splices.length + rewritesLeft t' ≤ rewritesLeft t := by
  induction h with
  | done => simp
  | @step t t' s s₁ s' splice splices hfirst hvalue hne _ ih =>
    have hlook := tells_lookUp vars (tells_evaluateAt vars limit levels) pending depth
      splice.name s hs
    rw [hvalue] at hlook
    rw [List.forall_mem_cons] at hends
    have hstep := rewritesLeft_step hfirst (hlook.2.1 _ rfl) hne hends.1
    have hrest := ih hlook.1 hends.2
    rw [Splice.text] at hrest
    rw [List.length_cons]
    omega

/-- After an endless rewrite there are as many more as one likes. -/
theorem Rewrites.unbounded
    (h : Rewrites (lookUp vars (evaluateAt vars limit levels) pending depth) depth t s splices t'
      s')
    (hends : ∃ splice ∈ splices, splice.Endless) (n : Nat) :
    ∃ splices' t'' s'', n ≤ splices'.length ∧
      Rewrites (lookUp vars (evaluateAt vars limit levels) pending depth) depth t s splices' t''
        s'' := by
  induction h with
  | done =>
    obtain ⟨_, hmem, -⟩ := hends
    cases hmem
  | @step t t' s s₁ s' splice splices hfirst hvalue hne _ ih =>
    rw [List.exists_mem_cons_iff] at hends
    obtain ⟨splices', t'', s'', hn, hrun⟩ : ∃ splices' t'' s'', n ≤ splices'.length ∧
        Rewrites (lookUp vars (evaluateAt vars limit levels) pending depth) depth splice.text
          ((record (splice.event depth)).run s₁).2 splices' t'' s'' := by
      rcases hends with ⟨hname, hinf⟩ | hends
      · obtain ⟨before, name, x, after⟩ := splice
        dsimp only at hname hinf
        subst hname hinf
        obtain ⟨value, hname, hp, hcached⟩ := cached_of_lookUp hvalue isFinite_minusInfinity
        obtain ⟨-, hbefore, -, hafter⟩ := firstName?_eq_some_iff.1 hfirst
        obtain ⟨splices', t'', s'', hn, hrun, -⟩ := Rewrites.forever (evaluateAt vars limit levels)
          depth hname hp n (nameless_append.2 ⟨hbefore, nameless_minus⟩) hafter
          (s := ((record (Event.substituted infName minusInfinity depth
            (before ++ numberText minusInfinity ++ after))).run s₁).2) hcached
        refine ⟨splices', t'', s'', hn.ge, ?_⟩
        have htext : before ++ numberText minusInfinity ++ after =
            before ++ ['-'] ++ infName ++ after := by
          rw [numberText_minusInfinity]
          simp
        rw [← htext] at hrun
        exact hrun
      · exact ih hends
    exact ⟨splice :: splices', t'', s'', by rw [List.length_cons]; omega,
      .step hfirst hvalue hne hrun⟩

/-- **There is no bound on the number of rewrites exactly if one of them is endless.** -/
theorem unbounded_iff (hs : s.Proper) :
    (∀ n, ∃ splices t' s', n ≤ splices.length ∧
        Rewrites (lookUp vars (evaluateAt vars limit levels) pending depth) depth t s splices t'
          s') ↔
      ∃ splices t' s',
        Rewrites (lookUp vars (evaluateAt vars limit levels) pending depth) depth t s splices t'
          s' ∧ ∃ splice ∈ splices, splice.Endless := by
  constructor
  · intro h
    obtain ⟨splices, t', s', hn, hrun⟩ := h (rewritesLeft t + 1)
    refine ⟨splices, t', s', hrun, ?_⟩
    by_contra hends
    have hle := hrun.length_add_le hs fun splice hmem hend => hends ⟨splice, hmem, hend⟩
    omega
  · rintro ⟨splices, t', s', hrun, hends⟩ n
    exact hrun.unbounded hends n

end Loop

/-! ## When evaluation ends -/

/-- **Evaluation ends unless it replaces `inf` by minus infinity.**  In each loop that puts in
values for names, values are not scanned for names again, and there are no more rewrites than names,
exactly if the values are numbers; and there is a bound on the number of rewrites unless one of them
is endless.  What that rests on, that no value in a cache is not a number, is kept by evaluation.
The limits on operations and on groups are never reached. -/
theorem evaluation_ends_iff (vars : Variables) (options : EvalOptions) :
    (∀ equation, NeverEnds (evaluateFresh vars options equation) ↔
      ((evaluate vars options [] equation).run {}).2.Endless) ∧
    (∀ levels pending depth t (s : Session), s.Proper →
      let value := lookUp vars (evaluateAt vars options.maxDepth levels) pending depth
      (∀ splices t' s', Rewrites value depth t s splices t' s' →
        ((∀ splice ∈ splices, ¬ splice.Rescanned) ∧ splices.length ≤ (names t).length ↔
          ∀ splice ∈ splices, splice.value.isFinite = true)) ∧
      ((∀ n, ∃ splices t' s', n ≤ splices.length ∧ Rewrites value depth t s splices t' s') ↔
        ∃ splices t' s', Rewrites value depth t s splices t' s' ∧
          ∃ splice ∈ splices, splice.Endless)) ∧
    (∀ levels pending equation (s : Session), s.Proper →
      ((evaluateAt vars options.maxDepth levels pending equation).run s).2.Proper) ∧
    (∀ t steps, operandCount t ≤ steps → reduceWithin Operator.tiers steps t = reduce t) ∧
    (∀ levels t groups, t.count '(' ≤ groups →
      resolveEach (resolveGroups options.maxDepth levels) (options.maxDepth - levels) groups t =
        resolveGroups options.maxDepth (levels + 1) t) := by
  have hempty : Session.Proper {} := fun _ _ h => by cases h
  have hnone : ¬ Session.Endless {} := by
    rintro ⟨event, hmem, -⟩
    cases hmem
  refine ⟨fun equation => ?_, fun levels pending depth t s hs => ⟨fun splices t' s' h =>
    h.rescanned_iff, unbounded_iff hs⟩, fun levels pending equation s hs => ?_,
    fun t steps h => reduceWithin_of_le h, fun levels t groups h => ?_⟩
  · have h := (tells_evaluateAt vars options.maxDepth (options.maxDepth + 1) [] equation {}
      hempty).2.2
    rw [or_iff_right hnone] at h
    exact h.symm
  · exact (tells_evaluateAt vars options.maxDepth levels pending equation s hs).1
  · exact resolveEach_congr (quiet_resolveGroups _ _) (keepsOpen_resolveGroups _ _) _ h
      (Nat.le_refl _)

/-- Over the table in which `x` is two, the only rewrite of `x` brings in no name. -/
theorem ends_of_number :
    let value := lookUp (.ofList [(['x'], .ofNumber 2)])
      (evaluateAt (.ofList [(['x'], .ofNumber 2)]) 100 100) [] 0
    Session.Proper {} ∧ (∃ splices t s, Rewrites value 0 ['x'] {} splices t s ∧
        0 < splices.length ∧ (∀ splice ∈ splices, ¬ splice.Rescanned) ∧
        splices.length ≤ (names ['x']).length) ∧
      reduceWithin Operator.tiers 2 ['1', '+', '2'] = reduce ['1', '+', '2'] ∧
      resolveEach (resolveGroups 100 1) 99 1 ['(', '3', ')'] =
        resolveGroups 100 2 ['(', '3', ')'] := by
  intro value
  obtain ⟨-, hloop, -, hreduce, hgroups⟩ :=
    evaluation_ends_iff (.ofList [(['x'], .ofNumber 2)]) {}
  have hproper : Session.Proper {} := fun _ _ h => by cases h
  let splice : Splice := ⟨[], ['x'], 2, []⟩
  have htext : splice.text ≠ ['x'] := by decide +kernel
  have hrun : ∀ (value : Text → EvalM Float) (s₁ : Session), (value ['x']).run {} = (.ok 2, s₁) →
      Rewrites value 0 ['x'] {} [splice] splice.text ((record (splice.event 0)).run s₁).2 :=
    fun value s₁ h => .step (by decide) h htext (.done _ _)
  have htwo : (value ['x']).run {} = (.ok 2, ((value ['x']).run {}).2) :=
    run_eq_of_toBits (by decide +kernel)
  have hrun := hrun value _ htwo
  obtain ⟨hnot, hle⟩ := ((hloop 100 [] 0 ['x'] {} hproper).1 _ _ _ hrun).2 (by decide +kernel)
  exact ⟨hproper, ⟨_, _, _, hrun, Nat.one_pos, hnot, hle⟩, hreduce _ 2 (by decide),
    hgroups 1 _ 1 (by decide)⟩

/-- The text of a whole number too great for a double. -/
def hugeNumber : Text := '1' :: List.replicate 309 '0'

/-- The table in which `x` has a formula that reads as an infinity, and `inf` is five. -/
def infinityTable : Variables :=
  .ofList [(['x'], .ofFormula hugeNumber), (infName, .ofNumber 5)]

/-- The table in which `inf` is minus infinity. -/
def minusInfinityTable : Variables := .ofList [(infName, .ofFormula ('-' :: hugeNumber))]

/-- **The loop scans an infinity for names again**, and then it may go on for ever. -/
theorem rescans_infinityTable :
    (∃ splices t s, Rewrites (lookUp infinityTable (evaluateAt infinityTable 100 100) [] 0) 0
        ['x'] {} splices t s ∧ (∃ splice ∈ splices, splice.Rescanned) ∧
        (names ['x']).length < splices.length) ∧
      NeverEnds (evaluateFresh minusInfinityTable {} infName) := by
  constructor
  · let first : Splice := ⟨[], ['x'], plusInfinity, []⟩
    let second : Splice := ⟨[], infName, 5, []⟩
    have htext : first.text = infName := by
      rw [Splice.text, numberText_plusInfinity]
      rfl
    have hlast : second.text ≠ infName := by decide +kernel
    have hrun : ∀ (value : Text → EvalM Float) (s₁ s₂ : Session),
        (value ['x']).run {} = (.ok plusInfinity, s₁) →
        (value infName).run ((record (first.event 0)).run s₁).2 = (.ok 5, s₂) →
        Rewrites value 0 ['x'] {} [first, second] second.text
          ((record (second.event 0)).run s₂).2 := by
      intro value s₁ s₂ hfirst hsecond
      refine .step (by decide) hfirst (by rw [htext]; decide) ?_
      rw [htext]
      exact .step (by decide) hsecond hlast (.done _ _)
    refine ⟨_, _, _, hrun _ _ _ (run_eq_of_toBits (by decide +kernel))
      (run_eq_of_toBits (by decide +kernel)), ⟨first, List.mem_cons_self, ?_⟩, ?_⟩
    · exact (Splice.rescanned_iff (u := ['x']) (by decide)).2 isFinite_plusInfinity
    · have hname : firstName? ['x'] = some ([], ['x'], []) := by decide
      rw [names_of_some hname, names_of_none (by decide)]
      decide
  · decide +kernel

end EquationFigure
