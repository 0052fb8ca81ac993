import EquationFigure.Proofs.Equation.Seeding
import EquationFigure.Proofs.Figure.Building
import EquationFigure.Proofs.Figure.Numbers
import Mathlib.Data.List.Basic

/-!
# Taking attributes apart

Points, paths and view boxes are written in one attribute each, and whoever draws the figure has to
take the attribute apart again.  Since a number is written with digits, a point and a minus sign
only, it is enough to split at the separators.

* `numberOf?` — the number that a word writes; `numberOf?_numberText`.
* `pointsOf?`, `outlineOf?` — the points and the segments that a text writes, and no others: a text
  that is anything else is refused.
* `Builder.points_taken_apart`, `Builder.outline_taken_apart` — what the builder writes is read
  again.
* `frame_text_iff` — so is a view box, as that of another figure, if its numbers are finite.
-/

set_option autoImplicit false

namespace EquationFigure

open Text

/-! ## Words -/

/-- The number that the text writes, if it is one numeral and nothing else. -/
def numberOf? (t : Text) : Option Float :=
  match Numeral.scan t with
  | some (n, []) => some n.value
  | _ => none

section Words

variable {x : Float}

/-- **A number is read again**, but for the sign of a zero. -/
theorem numberOf?_numberText (hx : x.isFinite = true) :
    numberOf? (numberText x) = some (unsignedZero x) := by
  have hscan : Numeral.scan (numberText x) = some (Numeral.ofFloat x, []) := by
    rw [numberText_eq_text hx]
    exact Numeral.scan_eq_some_iff.2 ⟨Numeral.wellFormed_ofFloat x,
      Numeral.stopsAt_of_headNot headNot_nil, (List.append_nil _).symm⟩
  rw [numberOf?, hscan, ← Numeral.value_ofFloat hx]

/-- A list is read if each word of it is. -/
theorem mapM_map_eq_some {α β : Type} {write : α → Text} {read : Text → Option β} {f : α → β}
    {l : List α} (h : ∀ a ∈ l, read (write a) = some (f a)) :
    (l.map write).mapM read = some (l.map f) := by
  induction l with
  | nil => rfl
  | cons a l ih =>
    obtain ⟨ha, hl⟩ := List.forall_mem_cons.1 h
    rw [List.map_cons, List.mapM_cons, ha, ih hl]
    rfl

/-- No separator is a part of a number. -/
theorem notMem_numberText {c : Char} (hx : x.isFinite = true) (hc : isNumberPart c = false) :
    c ∉ numberText x := by
  intro hmem
  rw [isNumberPart_numberText hx c hmem] at hc
  cases hc

end Words

/-! ## Points -/

/-- The point that the text writes: two numbers with a comma between them. -/
def pointOf? (t : Text) : Option (Float × Float) :=
  match t.splitOn ',' with
  | [x, y] => do return (← numberOf? x, ← numberOf? y)
  | _ => none

/-- The points that the text writes, with single spaces between them. -/
def pointsOf? (t : Text) : Option (List (Float × Float)) := (t.splitOn ' ').mapM pointOf?

/-- The point without the signs of zeros. -/
def unsignedPoint (p : Float × Float) : Float × Float := (unsignedZero p.1, unsignedZero p.2)

section Points

variable {p : Float × Float} {l : List (Float × Float)}

theorem pointOf?_of_isFinite (h : p.1.isFinite = true ∧ p.2.isFinite = true) :
    pointOf? (numberText p.1 ++ ',' :: numberText p.2) = some (unsignedPoint p) := by
  have hsplit : (numberText p.1 ++ ',' :: numberText p.2).splitOn ',' =
      [numberText p.1, numberText p.2] := by
    have hwords : ∀ word ∈ [numberText p.1, numberText p.2], ',' ∉ word :=
      List.forall_mem_cons.2 ⟨notMem_numberText h.1 (by decide),
        List.forall_mem_singleton.2 (notMem_numberText h.2 (by decide))⟩
    have htext : numberText p.1 ++ ',' :: numberText p.2 =
        [','].intercalate [numberText p.1, numberText p.2] := by simp [List.intercalate_cons_cons]
    rw [htext, List.splitOn_intercalate ',' hwords (List.cons_ne_nil _ _)]
  rw [pointOf?, hsplit]
  dsimp only
  rw [numberOf?_numberText h.1, numberOf?_numberText h.2]
  rfl

/-- **Points are read again**, but for the signs of zeros. -/
theorem pointsOf?_joinWith (hne : l ≠ [])
    (h : ∀ p ∈ l, p.1.isFinite = true ∧ p.2.isFinite = true) :
    pointsOf? (joinWith [' '] (l.map fun p => numberText p.1 ++ ',' :: numberText p.2)) =
      some (l.map unsignedPoint) := by
  have hwords : ∀ word ∈ l.map fun p => numberText p.1 ++ ',' :: numberText p.2, ' ' ∉ word := by
    intro word hword
    obtain ⟨p, hp, rfl⟩ := List.mem_map.1 hword
    have hx := notMem_numberText (h p hp).1 (c := ' ') (by decide)
    have hy := notMem_numberText (h p hp).2 (c := ' ') (by decide)
    simp [hx, hy]
  rw [pointsOf?, joinWith, List.splitOn_intercalate ' ' hwords (by simpa using hne)]
  exact mapM_map_eq_some fun p hp => pointOf?_of_isFinite (h p hp)

end Points

/-! ## Paths -/

/-- The command letters, each in the case in which its end point is absolute. -/
def commandLetters : List Char := ['M', 'L', 'H', 'V', 'C', 'S', 'Q', 'T', 'A', 'Z']

/-- The segment that starts with a word: a command letter, and as many numbers as it takes. -/
def segmentOf? (word : Text) (following : List Text) : Option DrawnSegment :=
  match word with
  | [letter] => do
    let arity ← commandArity? letter
    let numbers ← (following.take arity).mapM numberOf?
    if numbers.length = arity then some ⟨letter, numbers⟩ else none
  | _ => none

/-- The segments that the words make up. -/
def segmentsOf? : List Text → Option (List DrawnSegment)
  | [] => some []
  | word :: words => do
    let segment ← segmentOf? word words
    return segment :: (← segmentsOf? (words.drop segment.numbers.length))
termination_by words => words.length
decreasing_by
  rw [List.length_drop, List.length_cons]
  omega

/-- The segments that the text writes, all words with single spaces between them. -/
def outlineOf? (t : Text) : Option (List DrawnSegment) := segmentsOf? (t.splitOn ' ')

namespace DrawnSegment

/-- The segment without the signs of zeros. -/
def unsigned (d : DrawnSegment) : DrawnSegment := ⟨d.letter, d.numbers.map unsignedZero⟩

/-- The segment has as many numbers as its letter takes, and all of them are finite. -/
structure Drawable (d : DrawnSegment) : Prop where
  /-- The letter takes as many numbers. -/
  arity : commandArity? d.letter = some d.numbers.length
  /-- The numbers are numbers. -/
  finite : ∀ x ∈ d.numbers, x.isFinite = true

end DrawnSegment

section Paths

variable {d : DrawnSegment} {drawn : List DrawnSegment}

/-- A letter that takes numbers, or none, is one of the ten, in either case. -/
theorem mem_commandLetters {letter : Char} {arity : Nat} (h : commandArity? letter = some arity) :
    letter.toUpper ∈ commandLetters := by
  unfold commandArity? at h
  split at h
  all_goals first | (rename_i heq; rw [heq]; decide) | cases h

theorem segmentOf?_words (h : d.Drawable) (rest : List Text) :
    segmentOf? [d.letter] (d.numbers.map numberText ++ rest) = some d.unsigned := by
  have htake : (d.numbers.map numberText ++ rest).take d.numbers.length =
      d.numbers.map numberText := by
    rw [← List.length_map (f := numberText), List.take_left]
  have hnumbers := mapM_map_eq_some fun x hx => numberOf?_numberText (h.finite x hx)
  simp [segmentOf?, h.arity, htake, hnumbers, DrawnSegment.unsigned]

theorem segmentsOf?_words (h : ∀ d ∈ drawn, d.Drawable) :
    segmentsOf? (drawn.flatMap DrawnSegment.words) = some (drawn.map DrawnSegment.unsigned) := by
  induction drawn with
  | nil => rw [List.flatMap_nil, segmentsOf?, List.map_nil]
  | cons d drawn ih =>
    obtain ⟨hd, hdrawn⟩ := List.forall_mem_cons.1 h
    have hdrop : (d.numbers.map numberText ++ drawn.flatMap DrawnSegment.words).drop
        d.unsigned.numbers.length = drawn.flatMap DrawnSegment.words := by
      rw [DrawnSegment.unsigned, List.length_map, ← List.length_map (f := numberText),
        List.drop_left]
    rw [List.flatMap_cons, DrawnSegment.words, List.cons_append, segmentsOf?,
      segmentOf?_words hd, Option.bind_eq_bind, Option.bind_some, hdrop, ih hdrawn]
    rfl

/-- **Paths are read again**, but for the signs of zeros. -/
theorem outlineOf?_outlineText (hne : drawn ≠ []) (h : ∀ d ∈ drawn, d.Drawable) :
    outlineOf? (outlineText drawn) = some (drawn.map DrawnSegment.unsigned) := by
  have hspace : ∀ word ∈ drawn.flatMap DrawnSegment.words, ' ' ∉ word := by
    intro word hword
    obtain ⟨d, hd, hword⟩ := List.mem_flatMap.1 hword
    rcases List.mem_cons.1 hword with rfl | hword
    · rw [List.mem_singleton]
      intro hletter
      have harity := (h d hd).arity
      rw [← hletter] at harity
      cases harity
    · obtain ⟨x, hx, rfl⟩ := List.mem_map.1 hword
      exact notMem_numberText ((h d hd).finite x hx) (by decide)
  rw [outlineOf?, outlineText_eq, joinWith,
    List.splitOn_intercalate ' ' hspace (flatMap_words_ne_nil hne), segmentsOf?_words h]

end Paths

/-! ## View boxes -/

namespace ViewBox

section Pieces

variable {piece word : Text} {words : List Text}

theorem pieces_append (hword : ∀ c ∈ word, isSeparator c = false) (piece t : Text) :
    pieces piece (word ++ t) = pieces (word.reverse ++ piece) t := by
  induction word generalizing piece with
  | nil => rfl
  | cons c word ih =>
    obtain ⟨hc, hword⟩ := List.forall_mem_cons.1 hword
    rw [List.cons_append, pieces, hc, if_neg Bool.false_ne_true, ih hword, List.reverse_cons,
      List.append_assoc]
    rfl

/-- Words with single spaces between them are the pieces of a view box. -/
theorem pieces_joinWith (h : ∀ word ∈ words, word ≠ [] ∧ ∀ c ∈ word, isSeparator c = false) :
    pieces [] (joinWith [' '] words) = words := by
  induction words with
  | nil => rfl
  | cons word words ih =>
    obtain ⟨⟨hne, hword⟩, hwords⟩ := List.forall_mem_cons.1 h
    have hpiece : word.reverse ++ [] ≠ [] := by simpa using hne
    cases words with
    | nil =>
      have hlast := pieces_append hword [] []
      rw [List.append_nil] at hlast
      rw [joinWith, List.intercalate_singleton, hlast, pieces, if_neg hpiece, List.append_nil,
        List.reverse_reverse]
    | cons word' words =>
      rw [joinWith] at ih ⊢
      rw [List.intercalate_cons_cons, List.append_assoc, pieces_append hword, List.cons_append,
        List.nil_append, pieces, if_pos (by decide), if_neg hpiece, ih hwords, List.append_nil,
        List.reverse_reverse]

end Pieces

end ViewBox

section Frames

variable {x : Float}

/-- What is written for a double is no blank text and has no separator in it. -/
theorem isPiece_numberText (x : Float) :
    numberText x ≠ [] ∧ ∀ c ∈ numberText x, ViewBox.isSeparator c = false := by
  by_cases hx : x.isFinite = true
  · constructor
    · rw [numberText_eq_text hx]
      exact fun hnil => (Numeral.wellFormed_ofFloat x).whole_ne_nil
        (List.append_eq_nil_iff.1 (List.append_eq_nil_iff.1 hnil).1).2
    · intro c hc
      have hpart := isNumberPart_numberText hx c hc
      rw [ViewBox.isSeparator, isBlank_of_isNumberPart hpart, Bool.false_or]
      exact Text.beq_of_kind hpart (by decide)
  · have hwords : ∀ w ∈ [['N', 'a', 'N'], infName, '-' :: infName],
        w ≠ [] ∧ ∀ c ∈ w, ViewBox.isSeparator c = false := by
      simp [infName, ViewBox.isSeparator, isBlank, blankRanges]
    exact hwords _ (numberText_of_not_isFinite (Bool.not_eq_true _ ▸ hx))

/-- The numbers of the frame. -/
def Frame.toList (f : Frame) : List Float := [f.x, f.y, f.width, f.height]

/-- The frame without the signs of zeros. -/
def Frame.unsigned (f : Frame) : Frame :=
  ⟨unsignedZero f.x, unsignedZero f.y, unsignedZero f.width, unsignedZero f.height⟩

/-- A view box that is given as the text of a frame consists of the texts of its numbers. -/
theorem toList_text (f : Frame) :
    (ViewBox.text f.text).toList = f.toList.map fun x => .equation (numberText x) := by
  have hwords : ∀ word ∈ f.toList.map numberText,
      word ≠ [] ∧ ∀ c ∈ word, ViewBox.isSeparator c = false := by
    intro word hword
    obtain ⟨x, -, rfl⟩ := List.mem_map.1 hword
    exact isPiece_numberText x
  have hpieces : ViewBox.pieces [] f.text = f.toList.map numberText :=
    ViewBox.pieces_joinWith hwords
  rw [ViewBox.toList, hpieces, List.map_map]
  rfl

end Frames

/-! ## What the builder writes -/

namespace Builder

variable {b : Builder} {element : String} {s s' : Session} {xs : List Float}

/-- An attribute whose text can be worked out is written. -/
theorem run_attributeOf_of_ok {x : Attempt Session Fault Text} {s : BuildState} {t : Text}
    {session : Session} (h : x.run s.session = (.ok t, session)) (name : String) :
    (b.attributeOf element name x).run s = (.ok [(name, t)], { s with session }) := by
  rw [attributeOf, Attempt.run_bind, run_evaluated?, h]
  rfl

/-- The values of quantities are worked out in two parts. -/
theorem exists_run_quantities_append {qs qs' : List Quantity}
    (h : (b.quantities (qs ++ qs')).run s = (.ok xs, s')) :
    ∃ ys zs s₁, (b.quantities qs).run s = (.ok ys, s₁) ∧
      (b.quantities qs').run s₁ = (.ok zs, s') ∧ xs = ys ++ zs := by
  induction qs generalizing s xs with
  | nil => exact ⟨[], xs, s, rfl, h, rfl⟩
  | cons q rest ih =>
    obtain ⟨x, xs', s₁, hx, hxs, rfl⟩ := run_quantities_cons.1 h
    obtain ⟨ys, zs, s₂, hys, hzs, rfl⟩ := ih hxs
    exact ⟨x :: ys, zs, s₂, run_quantities_cons.2 ⟨x, ys, s₁, hx, hys, rfl⟩, hzs, rfl⟩

theorem length_of_run_quantities {qs : List Quantity}
    (h : (b.quantities qs).run s = (.ok xs, s')) : xs.length = qs.length := by
  induction qs generalizing s xs with
  | nil =>
    cases h
    rfl
  | cons q rest ih =>
    obtain ⟨x, xs', s₁, -, hxs, rfl⟩ := run_quantities_cons.1 h
    rw [List.length_cons, List.length_cons, ih hxs]

/-- Points are written if their coordinates can be worked out. -/
theorem exists_run_pointTexts {l : List Point}
    (h : (b.quantities (l.flatMap fun p => [p.x, p.y])).run s = (.ok xs, s')) :
    ∃ coordinates : List (Float × Float), coordinates.flatMap (fun p => [p.1, p.2]) = xs ∧
      (b.pointTexts l).run s =
        (.ok (coordinates.map fun p => numberText p.1 ++ ',' :: numberText p.2), s') := by
  induction l generalizing s xs with
  | nil =>
    cases h
    exact ⟨[], rfl, rfl⟩
  | cons point rest ih =>
    obtain ⟨x, _, s₁, hx, hys, rfl⟩ := run_quantities_cons.1 h
    obtain ⟨y, ys, s₂, hy, hxs, rfl⟩ := run_quantities_cons.1 hys
    obtain ⟨coordinates, rfl, hrest⟩ := ih hxs
    refine ⟨(x, y) :: coordinates, rfl, ?_⟩
    rw [pointTexts, Attempt.run_bind_of_ok hx, Attempt.run_bind_of_ok hy,
      Attempt.run_bind_of_ok hrest]
    rfl

/-- Segments are written if their commands are in order and their arguments can be worked out. -/
theorem exists_run_drawnSegments {l : List Segment}
    (hletters : ∀ segment ∈ l, ∃ letter, segment.letter = .ok letter)
    (h : (b.quantities (l.flatMap Segment.arguments)).run s = (.ok xs, s')) (index : Nat) :
    ∃ drawn : List DrawnSegment, drawn.map (fun d => .ok d.letter) = l.map Segment.letter ∧
      drawn.flatMap DrawnSegment.numbers = xs ∧
      (∀ d ∈ drawn, commandArity? d.letter = some d.numbers.length) ∧
      (b.drawnSegments index l).run s = (.ok drawn, s') := by
  induction l generalizing index s xs with
  | nil =>
    cases h
    exact ⟨[], rfl, rfl, nofun, rfl⟩
  | cons segment rest ih =>
    obtain ⟨⟨letter, hletter⟩, hrest⟩ := List.forall_mem_cons.1 hletters
    obtain ⟨numbers, xs', s₁, hnumbers, hxs, rfl⟩ := exists_run_quantities_append h
    obtain ⟨drawn, hdrawn, rfl, harity, hrun⟩ := ih hrest hxs (index + 1)
    refine ⟨⟨letter, numbers⟩ :: drawn, ?_, rfl, List.forall_mem_cons.2 ⟨?_, harity⟩, ?_⟩
    · rw [List.map_cons, List.map_cons, hdrawn, hletter]
    · rw [length_of_run_quantities hnumbers]
      exact commandArity?_eq_of_commandLetter hletter
    · rw [drawnSegments, hletter]
      dsimp only
      rw [Attempt.run_bind_of_ok (run_ofEquation_eq_ok.2 hnumbers), Attempt.run_bind_of_ok hrun]
      rfl

/-- A view box is worked out if its four values are. -/
theorem run_frame_of_quantities {viewBox : ViewBox} {f : Frame}
    (h : (b.quantities viewBox.toList).run s = (.ok f.toList, s')) :
    (b.frame viewBox).run s = (.ok f, s') := by
  have hlength : viewBox.toList.length = 4 := (length_of_run_quantities h).symm
  obtain ⟨qx, qy, qwidth, qheight, hlist⟩ := List.length_eq_four.1 hlength
  rw [hlist] at h
  obtain ⟨x, _, s₁, hx, h, heq⟩ := run_quantities_cons.1 h
  obtain ⟨rfl, rfl⟩ := List.cons.inj heq
  obtain ⟨y, _, s₂, hy, h, heq⟩ := run_quantities_cons.1 h
  obtain ⟨rfl, rfl⟩ := List.cons.inj heq
  obtain ⟨width, _, s₃, hwidth, h, heq⟩ := run_quantities_cons.1 h
  obtain ⟨rfl, rfl⟩ := List.cons.inj heq
  obtain ⟨height, _, s₄, hheight, h, heq⟩ := run_quantities_cons.1 h
  obtain ⟨rfl, rfl⟩ := List.cons.inj heq
  cases h
  rw [frame, hlist]
  dsimp only
  rw [run_ofEquation_eq_ok, Attempt.run_bind_of_ok hx, Attempt.run_bind_of_ok hy,
    Attempt.run_bind_of_ok hwidth, Attempt.run_bind_of_ok hheight]
  rfl

/-- Numbers stand for themselves. -/
theorem run_quantities_numbers (hxs : ∀ x ∈ xs, x.isFinite = true) (s : Session) :
    (b.quantities (xs.map .number)).run s = (.ok xs, s) := by
  induction xs with
  | nil => rfl
  | cons x xs ih =>
    obtain ⟨hx, hxs⟩ := List.forall_mem_cons.1 hxs
    have hvalue : (b.quantity (.number x)).run s = (.ok x, s) := by
      rw [quantity, Quantity.evaluate, if_pos hx]
      rfl
    exact run_quantities_cons.2 ⟨x, xs, s, hvalue, ih hxs, rfl⟩

/-- Numbers are worked out from their texts. -/
theorem run_quantities_texts (hxs : ∀ x ∈ xs, x.isFinite = true) (s : Session) :
    ((b.quantities (xs.map fun x => .equation (numberText x))).run s).1 =
      .ok (xs.map unsignedZero) := by
  induction xs generalizing s with
  | nil => rfl
  | cons x xs ih =>
    obtain ⟨hx, hxs⟩ := List.forall_mem_cons.1 hxs
    have hvalue : ((b.quantity (.equation (numberText x))).run s).1 = .ok (unsignedZero x) :=
      (run_evaluateAt_numberText hx b.vars _ _ [] s).1
    have hrest := ih hxs ((b.quantity (.equation (numberText x))).run s).2
    rw [List.map_cons, quantities, Attempt.run_bind_of_ok (Prod.ext hvalue rfl),
      Attempt.run_bind_of_ok (Prod.ext hrest rfl)]
    rfl

end Builder

/-! ## Reading without variables -/

section Empty

variable {options : EvalOptions} {pending : List Text} {s s' : Session} {x y : Float}

/-- Over no variables, an equation with a name has no value. -/
theorem evaluate_empty_of_name {t before name after : Text}
    (h : firstName? (equationBody t) = some (before, name, after)) :
    ((evaluate ∅ options pending t).run s).1 = .error (Variables.undefined ∅ name) := by
  obtain ⟨times, htimes⟩ : ∃ times, substitutionLimit (equationBody t) = times + 1 := by
    have hlength := length_lt_of_firstName? h
    exact ⟨3 * (equationBody t).length - 1, by rw [substitutionLimit]; omega⟩
  rw [evaluate, evaluateAt_succ, evaluateUsing, substitute, htimes, substituteWithin.eq_def, h]
  dsimp only
  rw [lookUp_of_error (e := Variables.undefined ∅ name) rfl]
  rfl

/-- Over no variables, only what is written for a number has a value. -/
theorem isFinite_of_evaluate_empty
    (h : ((evaluate ∅ options pending (numberText x)).run s).1 = .ok y) : x.isFinite = true := by
  have hwords : ∀ w ∈ [['N', 'a', 'N'], infName, '-' :: infName],
      (firstName? (equationBody w)).isSome = true := by decide
  by_contra hx
  obtain ⟨⟨before, name, after⟩, hname⟩ := Option.isSome_iff_exists.1
    (hwords _ (numberText_of_not_isFinite (Bool.not_eq_true _ ▸ hx)))
  rw [evaluate_empty_of_name hname] at h
  cases h

theorem Builder.isFinite_of_quantities_texts {options : RenderOptions} {xs ys : List Float}
    (h : ((Builder.mk ∅ options).quantities (xs.map fun x => .equation (numberText x))).run s =
      (.ok ys, s')) : ∀ x ∈ xs, x.isFinite = true := by
  induction xs generalizing s ys with
  | nil => nofun
  | cons x xs ih =>
    obtain ⟨y, ys, s₁, hy, hys, rfl⟩ := run_quantities_cons.1 h
    exact List.forall_mem_cons.2 ⟨isFinite_of_evaluate_empty (congrArg Prod.fst hy), ih hys⟩

end Empty

/-! ## Compound attributes -/

section Compound

variable {b : Builder} {xs : List Float} {s : BuildState} {session : Session}

/-- The attribute of points is written, and splitting its text gives the coordinates. -/
theorem Builder.points_taken_apart {l : List Point} (hne : l ≠ [])
    (hrun : (b.quantities (l.flatMap fun p => [p.x, p.y])).run s.session = (.ok xs, session))
    (hfin : ∀ x ∈ xs, x.isFinite = true) (element : String) :
    ∃ (t : Text) (coordinates : List (Float × Float)),
      (b.points element l).run s = (.ok [("points", t)], { s with session }) ∧
      coordinates.flatMap (fun p => [p.1, p.2]) = xs ∧
      pointsOf? t = some (coordinates.map unsignedPoint) := by
  obtain ⟨coordinates, rfl, htexts⟩ := exists_run_pointTexts hrun
  have hcoordinates : ∀ p ∈ coordinates, p.1.isFinite = true ∧ p.2.isFinite = true :=
    fun p hp => ⟨hfin _ (List.mem_flatMap.2 ⟨p, hp, List.mem_cons_self⟩),
      hfin _ (List.mem_flatMap.2 ⟨p, hp, List.mem_cons_of_mem _ List.mem_cons_self⟩)⟩
  obtain ⟨point, rest, rfl⟩ := List.exists_cons_of_ne_nil hne
  have hsome : coordinates ≠ [] := by
    rintro rfl
    have hlength := length_of_run_quantities hrun
    simp at hlength
  have htext : (ofEquation do
      return joinWith [' '] (← b.pointTexts (point :: rest))).run s.session =
        (.ok (joinWith [' '] (coordinates.map fun p => numberText p.1 ++ ',' :: numberText p.2)),
          session) := by
    rw [run_ofEquation_eq_ok, Attempt.run_bind_of_ok htexts]
    rfl
  exact ⟨_, coordinates, run_attributeOf_of_ok htext "points", rfl,
    pointsOf?_joinWith hsome hcoordinates⟩

/-- The attribute of a path is written, and splitting its text gives the segments. -/
theorem Builder.outline_taken_apart {l : List Segment} (hne : l ≠ [])
    (hletters : ∀ segment ∈ l, ∃ letter, segment.letter = .ok letter)
    (hrun : (b.quantities (l.flatMap Segment.arguments)).run s.session = (.ok xs, session))
    (hfin : ∀ x ∈ xs, x.isFinite = true) (element : String) :
    ∃ (t : Text) (drawn : List DrawnSegment),
      (b.outline element l).run s = (.ok [("d", t)], { s with session }) ∧
      drawn.map (fun d => .ok d.letter) = l.map Segment.letter ∧
      drawn.flatMap DrawnSegment.numbers = xs ∧
      (∀ d ∈ drawn, d.letter.toUpper ∈ commandLetters ∧
        commandArity? d.letter = some d.numbers.length) ∧
      outlineOf? t = some (drawn.map DrawnSegment.unsigned) := by
  obtain ⟨drawn, hdrawn, rfl, harity, hsegments⟩ := exists_run_drawnSegments hletters hrun 0
  have hdrawable : ∀ d ∈ drawn, d.Drawable := fun d hd =>
    ⟨harity d hd, fun x hx => hfin x (List.mem_flatMap.2 ⟨d, hd, hx⟩)⟩
  obtain ⟨segment, rest, rfl⟩ := List.exists_cons_of_ne_nil hne
  have hsome : drawn ≠ [] := by
    rintro rfl
    cases hdrawn
  have htext : (do return outlineText (← b.drawnSegments 0 (segment :: rest)) :
      Attempt Session Fault Text).run s.session = (.ok (outlineText drawn), session) := by
    rw [Attempt.run_bind_of_ok hsegments]
    rfl
  exact ⟨_, drawn, run_attributeOf_of_ok htext "d", hdrawn, rfl,
    fun d hd => ⟨mem_commandLetters (harity d hd), harity d hd⟩,
    outlineOf?_outlineText hsome hdrawable⟩

/-- The text of a frame, taken as a view box, gives the frame exactly if its numbers are finite. -/
theorem frame_text_iff (f : Frame) :
    (∀ (b : Builder) (s : Session), ((b.frame (.text f.text)).run s).1 = .ok f.unsigned) ↔
      ∀ x ∈ f.toList, x.isFinite = true := by
  constructor
  · intro h
    have hrun : ((Builder.mk ∅ {}).frame (.text f.text)).run {} =
        (.ok f.unsigned, (((Builder.mk ∅ {}).frame (.text f.text)).run {}).2) :=
      Prod.ext (h ⟨∅, {}⟩ {}) rfl
    have hquantities := Builder.run_frame hrun
    rw [toList_text] at hquantities
    exact Builder.isFinite_of_quantities_texts hquantities
  · intro h b s
    have hquantities := Builder.run_quantities_texts (b := b) h s
    rw [← toList_text] at hquantities
    exact congrArg Prod.fst
      (Builder.run_frame_of_quantities (f := f.unsigned) (Prod.ext hquantities rfl))

/-- **Points, paths and view boxes can be taken apart again.**

* Splitting the text of points at the spaces, and each piece at its comma, gives the coordinates.
* Splitting the text of a path at the spaces gives the segments, each a command letter and as many
  numbers as it takes.
* The text of a view box, taken as the view box of another figure over whatever variables, gives the
  four numbers exactly if all of them are finite.

All of this is up to the signs of zeros. -/
theorem attributes_taken_apart (b : Builder) (element : String) (s : BuildState) :
    (∀ (l : List Point) (xs : List Float) (session : Session), l ≠ [] →
      (b.quantities (l.flatMap fun p => [p.x, p.y])).run s.session = (.ok xs, session) →
      (∀ x ∈ xs, x.isFinite = true) →
        ∃ (t : Text) (coordinates : List (Float × Float)),
          (b.points element l).run s = (.ok [("points", t)], { s with session }) ∧
          coordinates.flatMap (fun p => [p.1, p.2]) = xs ∧
          pointsOf? t = some (coordinates.map unsignedPoint)) ∧
    (∀ (l : List Segment) (xs : List Float) (session : Session), l ≠ [] →
      (∀ segment ∈ l, ∃ letter, segment.letter = .ok letter) →
      (b.quantities (l.flatMap Segment.arguments)).run s.session = (.ok xs, session) →
      (∀ x ∈ xs, x.isFinite = true) →
        ∃ (t : Text) (drawn : List DrawnSegment),
          (b.outline element l).run s = (.ok [("d", t)], { s with session }) ∧
          drawn.map (fun d => .ok d.letter) = l.map Segment.letter ∧
          drawn.flatMap DrawnSegment.numbers = xs ∧
          (∀ d ∈ drawn, d.letter.toUpper ∈ commandLetters ∧
            commandArity? d.letter = some d.numbers.length) ∧
          outlineOf? t = some (drawn.map DrawnSegment.unsigned)) ∧
    ∀ f : Frame,
      (∀ (other : Builder) (s : Session),
        ((other.frame (.text f.text)).run s).1 = .ok f.unsigned) ↔
          ∀ x ∈ f.toList, x.isFinite = true :=
  ⟨fun _ _ _ hne hrun hfin => Builder.points_taken_apart hne hrun hfin element,
    fun _ _ _ hne hletters hrun hfin =>
      Builder.outline_taken_apart hne hletters hrun hfin element,
    frame_text_iff⟩

end Compound

/-- Two points, one of them with a negative zero, a path with a relative command, and a frame. -/
theorem attributes_taken_apart_sample :
    (∃ (t : Text) (coordinates : List (Float × Float)),
      ((Builder.mk ∅ {}).points "polyline"
          [⟨.number 1, .number (-0.0)⟩, ⟨.number 0.5, .number 2⟩]).run {} =
        (.ok [("points", t)], {}) ∧
      coordinates.flatMap (fun p => [p.1, p.2]) = [1, -0.0, 0.5, 2] ∧
      pointsOf? t = some (coordinates.map unsignedPoint)) ∧
    (∃ (t : Text) (drawn : List DrawnSegment),
      ((Builder.mk ∅ {}).outline "path" [⟨['m'], [.number 1, .number 2]⟩, ⟨['Z'], []⟩]).run {} =
        (.ok [("d", t)], {}) ∧
      drawn.map (fun d => .ok d.letter) = [(.ok 'm' : Except SegmentError Char), .ok 'Z'] ∧
      drawn.flatMap DrawnSegment.numbers = [1, 2] ∧
      outlineOf? t = some (drawn.map DrawnSegment.unsigned)) ∧
    (((Builder.mk ∅ {}).frame (.text (Frame.text ⟨0, 0, 4, 3⟩))).run {}).1 =
      .ok (Frame.unsigned ⟨0, 0, 4, 3⟩) := by
  have hpoints : ∀ x ∈ [1, -0.0, 0.5, 2], Float.isFinite x = true := by decide +kernel
  have hpath : ∀ x ∈ [1, 2], Float.isFinite x = true := by decide +kernel
  have hframe : ∀ x ∈ [0, 0, 4, 3], Float.isFinite x = true := by decide +kernel
  obtain ⟨hread, -, hview⟩ := attributes_taken_apart ⟨∅, {}⟩ "polyline" {}
  obtain ⟨-, hdraw, -⟩ := attributes_taken_apart ⟨∅, {}⟩ "path" {}
  refine ⟨hread _ [1, -0.0, 0.5, 2] {} (List.cons_ne_nil _ _)
    (Builder.run_quantities_numbers hpoints {}) hpoints, ?_, ?_⟩
  · obtain ⟨t, drawn, hrun, hletters, hnumbers, -, hout⟩ := hdraw
      [⟨['m'], [.number 1, .number 2]⟩, ⟨['Z'], []⟩] [1, 2] {} (List.cons_ne_nil _ _)
      (List.forall_mem_cons.2 ⟨⟨'m', rfl⟩, List.forall_mem_singleton.2 ⟨'Z', rfl⟩⟩)
      (Builder.run_quantities_numbers hpath {}) hpath
    exact ⟨t, drawn, hrun, hletters, hnumbers, hout⟩
  · exact (hview ⟨0, 0, 4, 3⟩).2 hframe ⟨∅, {}⟩ {}

/-- A view box with a number out of range is written with the name of an infinity, and that has no
value. -/
theorem hugeFrame_not_read_back :
    ∃ f : Frame,
      (((Builder.mk ∅ {}).frame (.text (hugeNumber ++ [' ', '0', ' ', '1', ' ', '1']))).run {}).1 =
        .ok f ∧
      f.text = ['i', 'n', 'f', ' ', '0', ' ', '1', ' ', '1'] ∧
      ∀ f', (((Builder.mk ∅ {}).frame (.text f.text)).run {}).1 ≠ .ok f' := by
  have hwritten : ((((Builder.mk ∅ {}).frame
      (.text (hugeNumber ++ [' ', '0', ' ', '1', ' ', '1']))).run {}).1.toOption.map Frame.text) =
        some ['i', 'n', 'f', ' ', '0', ' ', '1', ' ', '1'] := by decide +kernel
  have hread : (((Builder.mk ∅ {}).frame
      (.text ['i', 'n', 'f', ' ', '0', ' ', '1', ' ', '1'])).run {}).1.toOption.isNone = true := by
    decide +kernel
  cases hrun : (((Builder.mk ∅ {}).frame
      (.text (hugeNumber ++ [' ', '0', ' ', '1', ' ', '1']))).run {}).1 with
  | error fault =>
    rw [hrun] at hwritten
    cases hwritten
  | ok f =>
    rw [hrun] at hwritten
    have htext := Option.some.inj hwritten
    refine ⟨f, rfl, htext, fun f' hf' => ?_⟩
    rw [htext] at hf'
    rw [hf'] at hread
    cases hread

end EquationFigure
