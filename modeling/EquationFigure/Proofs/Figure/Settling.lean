import EquationFigure.Proofs.Attempt
import EquationFigure.Proofs.Figure.Outcomes
import Mathlib.Data.List.Basic

/-!
# Working out what an attribute asks for

The builder has a way of its own through the points of a line, the segments of a path and the values
of a view box.  All of them are the same as meeting the demands of the attribute one after the other
and putting its words in a row.

* `settle_append`, `run_settle_eq_error` — demands are met in order, and a fault is the first.
* `ViewBox.quantities_eq`, `outlineText_eq` — the values of a view box are its pieces, and the words
  of a path are those of its segments.
* `Segment.letter_cases` — a segment has a letter, or there is something wrong with it.
* `Target.evaluation` — the text of an attribute from what the attribute asks for.
* `Builder.quantityText_eq`, `Builder.points_eq`, `Builder.outline_eq`, `Builder.map_some_frame` —
  the builder's ways are that one.
-/

set_option autoImplicit false

namespace EquationFigure

/-! ## Equations within attributes -/

namespace Builder

theorem run_ofEquation {α : Type} (x : EvalM α) (s : Session) :
    (ofEquation x).run s = ((x.run s).1.mapError .equation, (x.run s).2) := by
  simp only [ofEquation]
  rcases x.run s with ⟨e | a, s⟩ <;> rfl

theorem ofEquation_bind {α β : Type} (x : EvalM α) (f : α → EvalM β) :
    ofEquation (x >>= f) = ofEquation x >>= fun a => ofEquation (f a) := by
  ext1
  funext s
  rw [Attempt.run_bind, run_ofEquation, run_ofEquation, Attempt.run_bind]
  rcases x.run s with ⟨e | a, s⟩
  · rfl
  · exact (run_ofEquation _ _).symm

theorem ofEquation_map {α β : Type} (f : α → β) (x : EvalM α) :
    ofEquation (f <$> x) = f <$> ofEquation x := by
  rw [map_eq_pure_bind, map_eq_pure_bind, ofEquation_bind]
  rfl

end Builder

/-! ## Meeting demands -/

section Settle

variable {vars : Variables} {options : EvalOptions}

/-- A quantity is answered as it is evaluated. -/
theorem Quantity.run_answer (q : Quantity) (s : Session) :
    (q.answer vars options).run s =
      (((q.evaluate vars options).run s).1.mapError .equation,
        ((q.evaluate vars options).run s).2) := by
  cases q with
  | number x =>
    rw [answer, evaluate]
    split <;> rfl
  | equation t =>
    simp only [answer, evaluate]
    rcases (EquationFigure.evaluate vars options [] t).run s with ⟨e | x, s⟩ <;> rfl

theorem settle_number (q : Quantity) (rest : List Demand) :
    settle vars options (.number q :: rest) = do
      let x ← q.answer vars options
      return x :: (← settle vars options rest) := rfl

theorem settle_append (first rest : List Demand) :
    settle vars options (first ++ rest) = do
      let xs ← settle vars options first
      return xs ++ (← settle vars options rest) := by
  induction first with
  | nil => simp [settle]
  | cons d first ih =>
    match d with
    | .check none => exact ih
    | .check (some fault) => rfl
    | .number q => simp [settle, ih]

/-- As many numbers come out as are asked for. -/
theorem length_of_settle_numbers {qs : List Quantity} {s s' : Session} {xs : List Float}
    (h : (settle vars options (qs.map .number)).run s = (.ok xs, s')) : xs.length = qs.length := by
  induction qs generalizing s xs with
  | nil =>
    cases h
    rfl
  | cons q rest ih =>
    rw [List.map_cons, settle_number, Attempt.run_bind_eq_ok] at h
    obtain ⟨x, s₁, -, h⟩ := h
    rw [Attempt.run_bind_eq_ok] at h
    obtain ⟨xs, s₂, hxs, h⟩ := h
    cases h
    rw [List.length_cons, List.length_cons, ih hxs]

/-- **A fault is the first.**  All demands before it have been met. -/
theorem run_settle_eq_error {demands : List Demand} {s s' : Session} {fault : Fault}
    (h : (settle vars options demands).run s = (.error fault, s')) :
    ∃ before d after xs s₁, demands = before ++ d :: after ∧
      (settle vars options before).run s = (.ok xs, s₁) ∧
      (settle vars options [d]).run s₁ = (.error fault, s') := by
  induction demands generalizing s with
  | nil => cases h
  | cons d rest ih =>
    rw [← List.singleton_append, settle_append, Attempt.run_bind_eq_error] at h
    rcases h with hd | ⟨xs, s₁, hxs, h⟩
    · exact ⟨[], d, rest, [], s, rfl, rfl, hd⟩
    · rcases Attempt.run_bind_eq_error.1 h with hrest | ⟨_, _, -, h⟩
      · obtain ⟨before, d', after, ys, s₂, rfl, hbefore, hd'⟩ := ih hrest
        refine ⟨d :: before, d', after, xs ++ ys, s₂, rfl, ?_, hd'⟩
        rw [← List.singleton_append, settle_append, Attempt.run_bind_of_ok hxs,
          Attempt.run_bind_of_ok hbefore]
        rfl
      · cases h

end Settle

/-! ## Pieces and words -/

section Words

theorem modifyHead_nil_append (l : List Text) : l.modifyHead ([] ++ ·) = l := by
  cases l <;> rfl

/-- The pieces of a text are what stands between its separators, but for what is empty. -/
theorem ViewBox.pieces_eq (piece t : Text) :
    pieces piece t = ((t.splitOnP isSeparator).modifyHead (piece.reverse ++ ·)).filter
      fun piece => !piece.isEmpty := by
  -- What has been read of a piece, in reverse, goes in front of the first one of what is left.
  induction t generalizing piece with
  | nil => cases piece <;> simp [pieces]
  | cons c t ih =>
    have hnil := ih []
    rw [List.reverse_nil, modifyHead_nil_append] at hnil
    rw [pieces, List.splitOnP_cons_eq_if_modifyHead, hnil, ih]
    cases isSeparator c <;> cases piece <;> simp [Function.comp_def]

/-- The values of a view box are its quantities. -/
theorem ViewBox.quantities_eq (viewBox : ViewBox) : viewBox.quantities = viewBox.toList := by
  cases viewBox with
  | text t =>
    rw [toList, pieces_eq, List.reverse_nil, modifyHead_nil_append]
    rfl
  | values l => rfl

variable {drawn : List DrawnSegment}

theorem joinWith_append {separator : Text} {first rest : List Text} (hfirst : first ≠ [])
    (hrest : rest ≠ []) :
    Text.joinWith separator (first ++ rest) =
      Text.joinWith separator first ++ separator ++ Text.joinWith separator rest := by
  induction first with
  | nil => exact absurd rfl hfirst
  | cons word first ih =>
    cases first with
    | nil =>
      obtain ⟨word', rest, rfl⟩ := List.exists_cons_of_ne_nil hrest
      simp [Text.joinWith, List.intercalate_cons_cons]
    | cons word' first =>
      have ih := ih (List.cons_ne_nil _ _)
      simp only [Text.joinWith, List.cons_append, List.intercalate_cons_cons] at ih ⊢
      rw [ih]
      simp only [List.append_assoc]

theorem flatMap_words_ne_nil (hne : drawn ≠ []) : drawn.flatMap DrawnSegment.words ≠ [] := by
  obtain ⟨d, rest, rfl⟩ := List.exists_cons_of_ne_nil hne
  rw [List.flatMap_cons, DrawnSegment.words, List.cons_append]
  exact List.cons_ne_nil _ _

/-- The words of a path are those of its segments. -/
theorem outlineText_eq (drawn : List DrawnSegment) :
    outlineText drawn = Text.joinWith [' '] (drawn.flatMap DrawnSegment.words) := by
  rw [outlineText]
  induction drawn with
  | nil => rfl
  | cons d drawn ih =>
    cases drawn with
    | nil => simp [Text.joinWith]
    | cons d' drawn =>
      have hwords : d.words ≠ [] := List.cons_ne_nil _ _
      rw [List.flatMap_cons, joinWith_append hwords
        (flatMap_words_ne_nil (List.cons_ne_nil d' drawn)), ← ih]
      simp [Text.joinWith, List.intercalate_cons_cons]

end Words

/-! ## Letters of path commands -/

/-- A letter of either case is its upper case or the lower case of that. -/
theorem eq_toUpper_or (c : Char) : c = c.toUpper ∨ c = c.toUpper.toLower := by
  by_cases hascii : c.toNat < 128
  · have hall : ∀ n < 128, Char.ofNat n = (Char.ofNat n).toUpper ∨
        Char.ofNat n = (Char.ofNat n).toUpper.toLower := by decide
    have h := hall c.toNat hascii
    rwa [Char.ofNat_toNat] at h
  · have hletter : ¬ ('a'.val ≤ c.val ∧ c.val ≤ 'z'.val) := fun h =>
      hascii (Nat.lt_of_le_of_lt (UInt32.le_iff_toNat_le.1 h.2) (by decide))
    have hupper : c.toUpper = c := dif_neg hletter
    exact .inl hupper.symm

theorem mem_pathCommands {letter : Char} {arity : Nat} (h : commandArity? letter = some arity) :
    (letter, arity) ∈ pathCommands := by
  have hletter := eq_toUpper_or letter
  unfold commandArity? at h
  split at h <;> cases h
  all_goals
    rename_i heq
    rw [heq] at hletter
    rcases hletter with rfl | rfl <;> decide

/-- A letter is in the list with as many arguments as it takes. -/
theorem find?_pathCommands (letter : Char) :
    pathCommands.find? (fun c => [letter] = [c.1]) = (commandArity? letter).map (letter, ·) := by
  cases h : commandArity? letter with
  | none =>
    have harity : ∀ c ∈ pathCommands, commandArity? c.1 = some c.2 := by decide
    refine List.find?_eq_none.2 fun c hc heq => ?_
    rw [decide_eq_true_eq, List.singleton_inj] at heq
    rw [heq, harity c hc] at h
    cases h
  | some arity =>
    have hfirst : ∀ c ∈ pathCommands,
        pathCommands.find? (fun c' => [c.1] = [c'.1]) = some c := by decide
    exact hfirst _ (mem_pathCommands h)

/-- A segment has a letter, which is its command, or there is something wrong with it. -/
theorem Segment.letter_cases (segment : Segment) :
    (∃ cause, segment.letter = .error cause ∧ segment.flaw? = some cause) ∨
      ∃ c, segment.letter = .ok c ∧ segment.flaw? = none ∧ Text.trim segment.command = [c] := by
  rw [letter, commandLetter, flaw?]
  split
  · rename_i c hcommand
    rw [hcommand, find?_pathCommands]
    cases commandArity? c with
    | none => exact .inl ⟨_, rfl, rfl⟩
    | some expected =>
      by_cases hlength : segment.arguments.length = expected
      · exact .inr ⟨c, if_pos hlength, if_pos hlength, rfl⟩
      · exact .inl ⟨_, if_neg hlength, if_neg hlength⟩
  · rename_i hcommand
    rw [List.find?_eq_none.2 fun c _ heq => hcommand c.1 (of_decide_eq_true heq)]
    exact .inl ⟨_, rfl, rfl⟩

/-! ## The builder's ways -/

/-- The text of an attribute, worked out by what the attribute asks for. -/
def Target.evaluation (vars : Variables) (options : EvalOptions) (target : Target) :
    Attempt Session Fault Text := do
  return target.text (← settle vars options target.demands)

namespace Builder

variable {b : Builder}

theorem ofEquation_quantity (q : Quantity) :
    ofEquation (b.quantity q) = q.answer b.vars b.options.eval := by
  ext1
  funext s
  rw [run_ofEquation, Quantity.run_answer, quantity]

theorem quantityText_eq (q : Quantity) :
    b.quantityText q = (Target.measure q).evaluation b.vars b.options.eval := by
  simp [quantityText, Target.evaluation, Target.demands, Target.text, Target.words, settle,
    ofEquation_map, ofEquation_quantity]

theorem ofEquation_quantities (qs : List Quantity) :
    ofEquation (b.quantities qs) = settle b.vars b.options.eval (qs.map .number) := by
  induction qs with
  | nil => rfl
  | cons q rest ih =>
    simp [quantities, ofEquation_bind, ofEquation_map, ih, settle_number, ofEquation_quantity]

theorem ofEquation_pointTexts (l : List Point) :
    ofEquation (b.pointTexts l) = do
      return (Target.points l).words
        (← settle b.vars b.options.eval (Target.points l).demands) := by
  induction l with
  | nil => rfl
  | cons point rest ih =>
    rw [Target.demands] at ih
    simp [pointTexts, ofEquation_bind, ofEquation_map, ih, Target.demands, Target.words,
      settle_number, pairsOf, ofEquation_quantity]

theorem points_eq (l : List Point) :
    (ofEquation do return Text.joinWith [' '] (← b.pointTexts l)) =
      (Target.points l).evaluation b.vars b.options.eval := by
  simp [ofEquation_map, ofEquation_pointTexts, Target.evaluation, Target.text, Text.joinWith]

theorem segmentDemands_cons (index : Nat) (segment : Segment) (rest : List Segment) :
    segmentDemands index (segment :: rest) = .check (segment.fault? index) ::
      (segment.arguments.map .number ++ segmentDemands (index + 1) rest) := rfl

/-- The words of the segments that are drawn are those of the path. -/
theorem words_drawnSegments (index : Nat) (segments : List Segment) :
    List.flatMap DrawnSegment.words <$> b.drawnSegments index segments =
      outlineWords segments <$> settle b.vars b.options.eval (segmentDemands index segments) := by
  induction segments generalizing index with
  | nil => rfl
  | cons segment rest ih =>
    rw [drawnSegments, segmentDemands_cons, Segment.fault?]
    rcases segment.letter_cases with ⟨cause, hletter, hflaw⟩ | ⟨letter, hletter, hflaw, hcommand⟩
    · rw [hletter, hflaw]
      rfl
    · rw [hletter, hflaw]
      have hrest : ∀ numbers, List.flatMap DrawnSegment.words <$>
          (do return ⟨letter, numbers⟩ :: (← b.drawnSegments (index + 1) rest)) =
          (fun words => [letter] :: numbers.map numberText ++ words) <$>
            (outlineWords rest <$>
              settle b.vars b.options.eval (segmentDemands (index + 1) rest)) := by
        intro numbers
        rw [← ih]
        simp [DrawnSegment.words]
      simp only [Option.map_none, settle, settle_append, ofEquation_quantities, map_bind, hrest]
      refine Attempt.bind_congr_of_ok fun s s' xs hxs => ?_
      have hlength := length_of_settle_numbers hxs
      simp [outlineWords, hcommand, ← hlength]

theorem outline_eq (l : List Segment) :
    (do return outlineText (← b.drawnSegments 0 l)) =
      (Target.outline l).evaluation b.vars b.options.eval := by
  have hwords := congrArg (Text.joinWith [' '] <$> ·) (words_drawnSegments (b := b) 0 l)
  simpa [outlineText_eq, Target.evaluation, Target.text, Target.words, Target.demands,
    Text.joinWith] using hwords

/-- The frame of a view box is made up of what the view box asks for. -/
theorem map_some_frame (viewBox : ViewBox) :
    some <$> b.frame viewBox =
      frameOf? <$> settle b.vars b.options.eval (Target.viewBox viewBox).demands := by
  rw [frame, Target.demands, ViewBox.fault?, ViewBox.quantities_eq]
  split
  · rename_i x y width height hlist
    simp [hlist, settle, ofEquation_bind, ofEquation_map, ofEquation_quantity, frameOf?]
  · rename_i values hvalues
    rw [if_neg]
    · rfl
    · intro hlength
      obtain ⟨x, y, width, height, hlist⟩ := List.length_eq_four.1 hlength
      exact hvalues x y width height hlist

end Builder

end EquationFigure
