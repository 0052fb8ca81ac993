import EquationFigure.Proofs.Equation.Memo
import EquationFigure.Proofs.Equation.Padding
import EquationFigure.Proofs.Equation.Termination

/-!
# Blanks around an equation and an equals sign before it

The blanks at the start of an equation go, and so does an equals sign behind them.  The blanks
behind the sign stay, and so do those behind the equation, so that evaluating what is left is
evaluating the bare equation with blanks around it.

* `padded_substituteWithin` — the same values are put in; `substituted_padded` says it of a whole
  evaluation, in which the longer text may have values put in more often.
* `padded_evaluateFresh` — what comes of an evaluation when blanks are put around the body of the
  equation.
* `evaluateFresh_surrounded` — what comes of it when the equation is written behind an equals sign,
  with blanks wherever they may be.
-/

set_option autoImplicit false

namespace EquationFigure

open Text EvalM

/-! ## Putting in values -/

section Substitution

variable {vars : Variables} {p q t : Text}

/-- **With blanks around it, the same values are put into a text.** -/
theorem padded_substituteWithin (vars : Variables) {r : Cache → Cache → Prop}
    {value : Text → EvalM Float} (hp : IsBlank p) (hq : IsBlank q)
    (hvalue : ∀ name, Attempt.Sim (OnCaches r) (fun _ => False) (fun _ => False) (value name)
      (value name)) (depth times : Nat) (t : Text) :
    Attempt.Pairs (OnCaches r) (fun u v => v = p ++ u ++ q) (fun e e' => e'.kind = e.kind)
      (fun _ => False) (substituteWithin vars value depth times t)
      (substituteWithin vars value depth times (p ++ t ++ q)) := by
  induction times generalizing t with
  | zero =>
    rw [substituteWithin.eq_def, substituteWithin.eq_def _ _ _ _ (p ++ t ++ q),
      firstName?_padded hp hq]
    cases firstName? t with
    | none => exact Attempt.pairs_pure rfl
    | some found => exact Attempt.pairs_fail rfl
  | succ times ih =>
    rw [substituteWithin.eq_def, substituteWithin.eq_def _ _ _ _ (p ++ t ++ q),
      firstName?_padded hp hq]
    cases firstName? t with
    | none => exact Attempt.pairs_pure rfl
    | some found =>
      obtain ⟨before, name, after⟩ := found
      dsimp only [Option.map_some]
      have hname : Attempt.Pairs (OnCaches r) (fun x y => x = y)
          (fun e e' : EvalError => e'.kind = e.kind) (fun _ => False) (value name) (value name) :=
        (hvalue name).pairs fun _ => rfl
      refine hname.bind fun x y hxy => ?_
      subst hxy
      have htext : p ++ before ++ numberText x ++ (after ++ q) =
          p ++ (before ++ numberText x ++ after) ++ q := by simp
      rw [htext]
      by_cases hne : before ++ numberText x ++ after = t
      · rw [if_pos hne, if_pos (by rw [hne])]
        exact Attempt.pairs_fail rfl
      · rw [if_neg hne, if_neg fun heq =>
          hne (List.append_cancel_left (List.append_cancel_right heq))]
        exact Attempt.Pairs.bind (Attempt.pairs_update fun _ _ hs => hs) fun _ _ _ => ih _

/-- From caches that say the same, a name is found with the same value. -/
theorem lookUp_sim_self (limit levels depth : Nat) (name : Text) :
    Attempt.Sim (OnCaches (Apart vars ∅)) (fun _ => False) (fun _ => False)
      (lookUp vars (evaluateAt vars limit levels) [] depth name)
      (lookUp vars (evaluateAt vars limit levels) [] depth name) := by
  have hsolo : SoloWithin vars ∅ 0 := fun _ _ _ _ hget => by cases hget
  have hsim : Attempt.Sim (OnCaches (Apart vars ∅)) (StopsCold 0 0 limit) (StopsWarm 0 limit)
      (lookUp vars (evaluateAt vars (limit + 0) (levels + 0)) [] depth name)
      (lookUp vars (evaluateAt vars limit levels) [] depth name) :=
    lookUp_sim hsolo (fun _ formula h => hsolo.evaluateAt_sim 0 limit levels h formula)
      (List.forall_mem_nil _) depth depth name
  exact hsim.mono (fun _ h => absurd h.1 (Nat.lt_irrefl 0)) fun _ h => absurd h.1 (Nat.lt_irrefl 0)

/-- What comes of putting in values at the outermost level, with nothing remembered. -/
def substituted (vars : Variables) (limit : Nat) (t : Text) : Except EvalError Text :=
  (substitute vars (lookUp vars (evaluateAt vars limit limit) [] (limit - limit)) (limit - limit)
    t).outcome

theorem evaluateFresh_eq (options : EvalOptions) (equation : Text) :
    evaluateFresh vars options equation =
      match substituted vars options.maxDepth (equationBody equation) with
      | .ok t => (resolve options.maxDepth options.maxDepth t).outcome
      | .error e => .error e := by
  rw [evaluateFresh, evaluate, evaluateAt_succ, evaluateUsing, Attempt.run_bind, substituted,
    outcome]
  rcases (substitute _ _ _ (equationBody equation)).run {} with ⟨e | t, s⟩
  · rfl
  · exact (quiet_resolve _ _ t).outcome s

/-- What comes of putting values into a text with blanks around it: the same text with the same
blanks around it, or an error of the same kind. -/
theorem substituted_padded (vars : Variables) (hp : IsBlank p) (hq : IsBlank q) (limit : Nat)
    (t : Text) :
    Attempt.Agree (fun u v => v = p ++ u ++ q) (fun e e' => e'.kind = e.kind) (fun _ => False)
      (substituted vars limit t) (substituted vars limit (p ++ t ++ q)) := by
  have hproper : Session.Proper {} := fun _ _ h => by cases h
  have hempty : OnCaches (Apart vars ∅) {} {} := Cache.Sound.empty.apart_empty
  have hleft : rewritesLeft (p ++ t ++ q) ≤ substitutionLimit t := by
    rw [rewritesLeft_padded hp hq]
    exact rewritesLeft_le_limit t
  -- The same limit first, and then the limit of the longer text.
  have hagree := (padded_substituteWithin vars hp hq (lookUp_sim_self limit limit (limit - limit))
    (limit - limit) (substitutionLimit t) t {} {} hempty).1
  have hcongr := substituteWithin_congr
    (tells_lookUp vars (tells_evaluateAt vars limit limit) [] (limit - limit)) hleft
    (rewritesLeft_le_limit (p ++ t ++ q)) hproper
  rw [substituted, substituted, outcome, outcome, substitute, substitute]
  rcases hcongr with heq | ⟨⟨u, hends⟩, u', hends'⟩
  · rwa [← heq]
  · rw [hends] at hagree
    rw [hends']
    revert hagree
    generalize ((substituteWithin vars _ _ (substitutionLimit t) t).run {}).1 = r
    rintro (- | hkind | hfalse | hfalse)
    · exact .error hkind
    · exact hfalse.elim
    · exact hfalse.elim

end Substitution

/-! ## The outcome -/

section Outcome

variable {vars : Variables} {options : EvalOptions} {p q e : Text}

/-- **With blanks around its body, an equation is evaluated in the same way.** -/
theorem padded_evaluateFresh (hp : IsBlank p) (hq : IsBlank q) {e e' : Text}
    (hbody : equationBody e' = p ++ equationBody e ++ q) :
    PaddedValue p q (evaluateFresh vars options e) (evaluateFresh vars options e') := by
  rw [evaluateFresh_eq, evaluateFresh_eq, hbody]
  have hnames := substituted_padded vars hp hq options.maxDepth (equationBody e)
  revert hnames
  generalize substituted vars options.maxDepth (equationBody e) = r
  generalize substituted vars options.maxDepth (p ++ equationBody e ++ q) = r'
  rintro (hu | hkind | hfalse | hfalse)
  · rw [hu]
    exact padded_resolve hp hq _ _ _
  · exact .error hkind
  · exact hfalse.elim
  · exact hfalse.elim

theorem equationBody_surrounded {w₁ w₂ w₃ : Text} (h₁ : IsBlank w₁)
    (he : HeadNot (· == '=') (trimStart e)) :
    equationBody (w₁ ++ '=' :: (w₂ ++ e ++ w₃)) =
      w₂ ++ e.takeWhile isBlank ++ equationBody e ++ w₃ := by
  have hbody : equationBody e = trimStart e := by
    have hsplit : e = e.takeWhile isBlank ++ trimStart e := List.takeWhile_append_dropWhile.symm
    conv_lhs => rw [hsplit]
    rw [equationBody_append_left fun c hc => of_mem_takeWhile hc]
    exact equationBody_of_headNot (headNot_dropWhile _ _) he
  rw [equationBody_append_left h₁, equationBody_equals, hbody, List.append_assoc w₂ (e.takeWhile _),
    trimStart, List.takeWhile_append_dropWhile]

/-- **Blanks around an equation and an equals sign before it make no difference, if what stands
behind the sign and behind the equation is white space of the narrower kind**: the equation has the
same value, or it fails with an error of the same kind.  Any other blank there makes it fail: where
the bare equation has a value, its number is refused, and an error keeps its kind, except that the
number may be refused before it is found out that the parentheses do not match. -/
theorem evaluateFresh_surrounded (vars : Variables) (options : EvalOptions) {e w₁ w₂ w₃ : Text}
    (h₁ : IsBlank w₁) (h₂ : IsBlank w₂) (h₃ : IsBlank w₃)
    (he : HeadNot (· == '=') (trimStart e)) :
    let bare := evaluateFresh vars options e
    let surrounded := evaluateFresh vars options (w₁ ++ '=' :: (w₂ ++ e ++ w₃))
    let spaced := IsSpace w₂ ∧ IsSpace (e.takeWhile isBlank) ∧ IsSpace w₃
    (spaced → surrounded.mapError EvalError.kind = bare.mapError EvalError.kind) ∧
      (¬ spaced →
        (∀ x, bare = .ok x → ∃ t, surrounded = .error (.parseFailure t)) ∧
        ∀ err, bare = .error err → ∃ err', surrounded = .error err' ∧
          (err'.kind = err.kind ∨
            (∃ t, err = .parenthesisMismatch t) ∧ ∃ t, err' = .parseFailure t)) := by
  intro bare surrounded spaced
  have hpadded : PaddedValue (w₂ ++ e.takeWhile isBlank) w₃ bare surrounded :=
    padded_evaluateFresh (h₂.append fun c hc => of_mem_takeWhile hc) h₃
      (equationBody_surrounded h₁ he)
  have hspaced : IsSpace (w₂ ++ e.takeWhile isBlank) ∧ IsSpace w₃ ↔ spaced := by
    rw [isSpace_append, and_assoc]
  rw [PaddedValue, hspaced] at hpadded
  revert hpadded
  generalize bare = r
  generalize surrounded = r'
  rintro (@⟨x, hspace⟩ | @⟨x, u, hspace⟩ | hkind | ⟨u, v, hblur⟩)
  · exact ⟨fun _ => rfl, fun hne => absurd hspace hne⟩
  · refine ⟨fun h => absurd h hspace, fun _ => ⟨fun _ _ => ⟨u, rfl⟩, fun _ herr => ?_⟩⟩
    cases herr
  · refine ⟨fun _ => congrArg Except.error hkind, fun _ => ⟨fun _ hx => ?_, fun err herr => ?_⟩⟩
    · cases hx
    · cases herr
      exact ⟨_, rfl, .inl hkind⟩
  · refine ⟨fun h => absurd h hblur, fun _ => ⟨fun _ hx => ?_, fun err herr => ?_⟩⟩
    · cases hx
    · cases herr
      exact ⟨_, rfl, .inr ⟨⟨u, rfl⟩, v, rfl⟩⟩

/-- So a one behind a no-break space and an equals sign, with a space before it and a tab behind it,
is still read, and one with the no-break space behind the sign is not. -/
theorem evaluateFresh_surrounded_one :
    evaluateFresh ∅ {} ['1'] = .ok 1 ∧
      (evaluateFresh ∅ {} ['\u00a0', '=', ' ', '1', '\t']).mapError EvalError.kind = .ok 1 ∧
      ∃ t, evaluateFresh ∅ {} ['=', '\u00a0', '1'] = .error (.parseFailure t) := by
  have hbare : evaluateFresh ∅ {} ['1'] = .ok 1 := Binary.eq_ok_of_toBits (by decide +kernel)
  have hblank : IsBlank ['\u00a0'] := List.forall_mem_singleton.2 (by decide)
  have hspace : IsSpace [' '] := List.forall_mem_singleton.2 (by decide)
  have htab : IsSpace ['\t'] := List.forall_mem_singleton.2 (by decide)
  have hhead : HeadNot (· == '=') (trimStart ['1']) := headNot_cons.2 (by decide)
  have hone : IsSpace (['1'].takeWhile isBlank) := isSpace_nil
  have hspaced := (evaluateFresh_surrounded ∅ {} hblank
    (fun c hc => isBlank_of_isWhitespace (hspace c hc))
    (fun c hc => isBlank_of_isWhitespace (htab c hc)) hhead).1 ⟨hspace, hone, htab⟩
  have hother := ((evaluateFresh_surrounded ∅ {} isBlank_nil hblank isBlank_nil hhead).2
    fun h => absurd (h.1 '\u00a0' List.mem_cons_self) (by decide)).1 1 hbare
  rw [hbare] at hspaced
  exact ⟨hbare, hspaced, hother⟩

/-- **A no-break space behind the equals sign is not ignored**: the one is reported to be no number,
without the space that made it none. -/
theorem no_break_space_not_ignored :
    IsBlank ['\u00a0'] ∧ HeadNot (· == '=') (trimStart ['1']) ∧
      evaluateFresh ∅ {} ['1'] = .ok 1 ∧
      evaluateFresh ∅ {} ([] ++ '=' :: (['\u00a0'] ++ ['1'] ++ [])) =
        .error (.parseFailure ['1']) :=
  ⟨List.forall_mem_singleton.2 (by decide), headNot_cons.2 (by decide),
    Binary.eq_ok_of_toBits (by decide +kernel), by decide +kernel⟩

end Outcome

end EquationFigure
