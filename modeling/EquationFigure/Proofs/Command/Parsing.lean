import EquationFigure.Command.Args
import Mathlib.Data.List.TakeDrop

/-!
# Flags may stand anywhere

A command line is read in passes, each of which takes some words out: first the flag that shows the
steps, then the one that leaves no attribute out, then the option with its value.  Words that are
put in between change nothing about the others, not even if one of them comes between the option and
its value.

* `Flagged flags base args` — `args` is `base` with flags put in anywhere; `Flagged.without` takes
  one kind of flag out again.
* `RenderWords input output? base` — the ways to ask for a figure, without flags.
* `Assignment` — a variable with its equation; `Table.get?_ofList` says which of several counts.
* `Args.parse_flagged` — what was meant is understood, wherever the flags stand.
-/

set_option autoImplicit false

namespace EquationFigure

/-! ## Tables from lists -/

/-- **Of several entries under a name, the last one counts.** -/
theorem Table.get?_ofList {α : Type} (entries : List (Text × α)) (name : Text) :
    (Table.ofList entries).get? name =
      (entries.reverse.find? fun entry => entry.1 = name).map (·.2) := by
  have hfold : ∀ table : Table α,
      (entries.foldl (fun table entry => table.insert entry.1 entry.2) table).get? name =
        ((entries.reverse.find? fun entry => entry.1 = name).map (·.2)).or (table.get? name) := by
    induction entries with
    | nil => exact fun table => rfl
    | cons entry rest ih =>
      intro table
      rw [List.foldl_cons, ih, List.reverse_cons, List.find?_append, Option.map_or, Option.or_assoc]
      congr 1
      by_cases hname : entry.1 = name
      · simp [hname]
      · rw [Table.get?_insert_of_ne _ (Ne.symm hname)]
        simp [hname]
  rw [Table.ofList, hfold, Table.get?_empty, Option.or_none]

namespace Args

/-! ## Flags among other words -/

/-- The second list is the first one with some of the flags put in, any number of times and
anywhere. -/
inductive Flagged (flags : List Text) : List Text → List Text → Prop
  /-- Nothing is put in. -/
  | nil : Flagged flags [] []
  /-- A word stays. -/
  | word (a : Text) {base args : List Text} : Flagged flags base args →
    Flagged flags (a :: base) (a :: args)
  /-- A flag is put in. -/
  | flag {f : Text} {base args : List Text} : f ∈ flags → Flagged flags base args →
    Flagged flags base (f :: args)

section Flagged

variable {flags base args : List Text} {flag a : Text}

theorem Flagged.eq_of_nil (h : Flagged [] base args) : args = base := by
  induction h with
  | nil => rfl
  | word a _ ih => rw [ih]
  | flag hf => cases hf

/-- Nothing but flags was put in. -/
theorem Flagged.mem_base (h : Flagged flags base args) (ha : a ∈ args) : a ∈ base ∨ a ∈ flags := by
  induction h with
  | nil => exact .inl ha
  | word b _ ih =>
    rcases List.mem_cons.1 ha with rfl | ha
    · exact .inl List.mem_cons_self
    · exact (ih ha).imp_left (List.mem_cons_of_mem b)
  | flag hf _ ih =>
    rcases List.mem_cons.1 ha with rfl | ha
    · exact .inr hf
    · exact ih ha

/-- **Taking one kind of flag out leaves the words with the others between them.** -/
theorem Flagged.without (h : Flagged (flag :: flags) base args) (hflag : flag ∉ base) :
    Flagged flags base (without flag args) := by
  induction h with
  | nil => exact .nil
  | word a _ ih =>
    rw [List.mem_cons, not_or] at hflag
    rw [Args.without, List.filter_cons_of_pos (by simpa using Ne.symm hflag.1)]
    exact .word a (ih hflag.2)
  | @flag f base args hf _ ih =>
    by_cases heq : f = flag
    · rw [Args.without, List.filter_cons_of_neg (by simpa using heq)]
      exact ih hflag
    · rw [Args.without, List.filter_cons_of_pos (by simpa using heq)]
      exact .flag ((List.mem_cons.1 hf).resolve_left heq) (ih hflag)

/-- The first word is a flag or the first one that was meant. -/
theorem Flagged.exists_cons (h : Flagged flags (a :: base) args) :
    ∃ first rest, args = first :: rest ∧ (first = a ∨ first ∈ flags) := by
  cases h with
  | word => exact ⟨_, _, rfl, .inl rfl⟩
  | flag hf => exact ⟨_, _, rfl, .inr hf⟩

end Flagged

theorem contains_without {flag other : Text} (h : other ≠ flag) (args : List Text) :
    (without flag args).contains other = args.contains other := by
  rw [Bool.eq_iff_iff, List.contains_iff_mem, List.contains_iff_mem, without, List.mem_filter]
  simpa using fun _ => h

/-! ## Figures -/

/-- The words that mean something wherever they stand. -/
def reservedWords : List Text := [traceFlag, helpFlag, shortHelpFlag, strictFlag, outputOption]

/-- The ways to ask for the figure of the document in a file, without flags. -/
inductive RenderWords (input : Text) : Option Text → List Text → Prop
  /-- The figure is printed. -/
  | print : RenderWords input none [input]
  /-- The file that it is put into comes last. -/
  | outputLast (output : Text) : RenderWords input (some output) [input, outputOption, output]
  /-- The file that it is put into comes first. -/
  | outputFirst (output : Text) : RenderWords input (some output) [outputOption, output, input]

section Rendering

variable {input : Text} {output? : Option Text} {base args : List Text}

/-- All words are the option or one of the files. -/
theorem RenderWords.mem (h : RenderWords input output? base) {a : Text} (ha : a ∈ base) :
    a = outputOption ∨ a = input ∨ output? = some a := by
  cases h with
  | print => simp_all
  | outputLast | outputFirst =>
    simp only [List.mem_cons, List.not_mem_nil, or_false] at ha
    rcases ha with rfl | rfl | rfl <;> simp

theorem RenderWords.notMem (h : RenderWords input output? base) (hinput : input ∉ reservedWords)
    (houtput : ∀ output ∈ output?, output ∉ reservedWords) {word : Text}
    (hword : word ∈ reservedWords) (hne : word ≠ outputOption) : word ∉ base := by
  intro hmem
  rcases h.mem hmem with rfl | rfl | rfl
  · exact hne rfl
  · exact hinput hword
  · exact houtput word rfl hword

theorem RenderWords.takeOption (h : RenderWords input output? base)
    (hinput : input ∉ reservedWords) :
    takeOption outputOption base = .ok (output?, [input]) := by
  have hne : outputOption ∉ [input] := by
    rw [List.mem_singleton]
    rintro rfl
    exact hinput (by decide)
  cases h with
  | print => exact takeOption_of_not_mem hne
  | outputLast output => exact takeOption_append hne output []
  | outputFirst output => exact takeOption_append List.not_mem_nil output [input]

/-- The words of such a command line do not start with the one that asks for a value. -/
theorem RenderWords.exists_cons (h : RenderWords input output? base)
    (hinput : input ≠ evaluateWord) : ∃ a rest, base = a :: rest ∧ a ≠ evaluateWord := by
  cases h with
  | print => exact ⟨_, _, rfl, hinput⟩
  | outputLast => exact ⟨_, _, rfl, hinput⟩
  | outputFirst => exact ⟨_, _, rfl, by decide⟩

theorem rendering_of_flagged (h : Flagged [strictFlag] base args)
    (hwords : RenderWords input output? base) (hinput : input ∉ reservedWords)
    (hstrict : strictFlag ∉ base) :
    rendering args = .ok (.render input output? (args.contains strictFlag)) := by
  rw [rendering, (h.without hstrict).eq_of_nil, hwords.takeOption hinput]
  rfl

/-- **A figure is asked for, wherever the flags stand.** -/
theorem parse_render (h : Flagged [traceFlag, strictFlag] base args)
    (hwords : RenderWords input output? base) (hinput : input ∉ reservedWords)
    (houtput : ∀ output ∈ output?, output ∉ reservedWords) (heval : input ≠ evaluateWord) :
    parse args =
      .ok ⟨.render input output? (args.contains strictFlag), args.contains traceFlag⟩ := by
  have hnot : ∀ word ∈ reservedWords, word ≠ outputOption → word ∉ base := fun word =>
    hwords.notMem hinput houtput
  have hrest := h.without (hnot traceFlag (by decide) (by decide))
  have hhelp : ∀ word ∈ reservedWords, word ≠ outputOption → word ≠ strictFlag →
      word ∉ without traceFlag args := fun word hword hne hne' hmem =>
    (hrest.mem_base hmem).elim (hnot word hword hne) fun hmem => hne' (List.mem_singleton.1 hmem)
  obtain ⟨a, words, rfl, ha⟩ := hwords.exists_cons heval
  obtain ⟨first, rest, hcons, hfirst⟩ := hrest.exists_cons
  have hfirst : first ≠ evaluateWord := by
    rcases hfirst with rfl | hmem
    · exact ha
    · rw [List.mem_singleton.1 hmem]
      decide
  have hcommand : commandOf (without traceFlag args) = rendering (without traceFlag args) := by
    have hnone : ¬ (without traceFlag args = [] ∨ helpFlag ∈ without traceFlag args ∨
        shortHelpFlag ∈ without traceFlag args) :=
      not_or.2 ⟨by simp [hcons], not_or.2 ⟨hhelp _ (by decide) (by decide) (by decide),
        hhelp _ (by decide) (by decide) (by decide)⟩⟩
    rw [commandOf.eq_def, if_neg hnone, hcons]
    exact if_neg hfirst
  rw [parse, hcommand, rendering_of_flagged hrest hwords hinput
    (hnot strictFlag (by decide) (by decide)), contains_without (by decide)]
  rfl

end Rendering

/-! ## Values -/

/-- A variable and its equation, as they are given. -/
structure Assignment where
  /-- What stands before the equals sign. -/
  name : Text
  /-- What stands behind it. -/
  equation : Text

namespace Assignment

/-- The assignment in one word. -/
def text (a : Assignment) : Text := a.name ++ '=' :: a.equation

/-- The variable and its name, without blanks around them. -/
def entry (a : Assignment) : Text × Variable :=
  (Text.trim a.name, .ofFormula (Text.trim a.equation))

theorem assignment_text {a : Assignment} (h : '=' ∉ a.name) : assignment a.text = .ok a.entry := by
  have hname : ∀ c ∈ a.name, decide (c ≠ '=') = true := fun c hc =>
    decide_eq_true (ne_of_mem_of_not_mem hc h)
  have hspan : a.text.span (· ≠ '=') = (a.name, '=' :: a.equation) := by
    rw [List.span_eq_takeWhile_dropWhile, text, List.takeWhile_append_of_pos hname,
      List.dropWhile_append_of_pos hname]
    simp
  rw [assignment, hspan]
  rfl

theorem mapM_assignment {assignments : List Assignment} (h : ∀ a ∈ assignments, '=' ∉ a.name) :
    (assignments.map text).mapM assignment = .ok (assignments.map entry) := by
  induction assignments with
  | nil => rfl
  | cons a rest ih =>
    obtain ⟨ha, hrest⟩ := List.forall_mem_cons.1 h
    rw [List.map_cons, List.mapM_cons, assignment_text ha, ih hrest]
    rfl

/-- An assignment is no flag. -/
theorem text_ne {a : Assignment} {word : Text} (hword : '=' ∉ word) : a.text ≠ word := by
  rintro rfl
  exact hword (List.mem_append_right _ List.mem_cons_self)

end Assignment

/-- **A value is asked for, wherever the flag stands.** -/
theorem parse_evaluate {equation : Text} {assignments : List Assignment} {args : List Text}
    (h : Flagged [traceFlag] (evaluateWord :: equation :: assignments.map Assignment.text) args)
    (hequation : equation ∉ [traceFlag, helpFlag, shortHelpFlag])
    (hnames : ∀ a ∈ assignments, '=' ∉ a.name) :
    parse args = .ok ⟨.evaluate equation (.ofList (assignments.map Assignment.entry)),
      args.contains traceFlag⟩ := by
  have hplain : ∀ word ∈ [traceFlag, helpFlag, shortHelpFlag],
      word ≠ evaluateWord ∧ '=' ∉ word := by decide
  have hnot : ∀ word ∈ [traceFlag, helpFlag, shortHelpFlag],
      word ∉ evaluateWord :: equation :: assignments.map Assignment.text := by
    intro word hword hmem
    rw [List.mem_cons, List.mem_cons, List.mem_map] at hmem
    rcases hmem with heq | rfl | ⟨a, -, ha⟩
    · exact (hplain word hword).1 heq
    · exact hequation hword
    · exact Assignment.text_ne (hplain word hword).2 ha
  have hnone : ¬ (evaluateWord :: equation :: assignments.map Assignment.text = [] ∨
      helpFlag ∈ evaluateWord :: equation :: assignments.map Assignment.text ∨
      shortHelpFlag ∈ evaluateWord :: equation :: assignments.map Assignment.text) :=
    not_or.2 ⟨List.cons_ne_nil _ _, not_or.2 ⟨hnot _ (by decide), hnot _ (by decide)⟩⟩
  rw [parse, (h.without (hnot traceFlag (by decide))).eq_of_nil, commandOf.eq_def, if_neg hnone]
  dsimp only
  rw [if_pos rfl, evaluation, Assignment.mapM_assignment hnames]
  rfl

/-- The variables of a command line: of several equations for one name, the last one counts. -/
theorem get?_entries (assignments : List Assignment) (name : Text) :
    (Table.ofList (assignments.map Assignment.entry)).get? name =
      (assignments.reverse.find? fun a => Text.trim a.name = name).map
        fun a => .ofFormula (Text.trim a.equation) := by
  rw [Table.get?_ofList, ← List.map_reverse, List.find?_map, Option.map_map]
  rfl

/-! ## What was meant -/

/-- **What was meant is understood, wherever the flags stand.**

The figure of a document is asked for by the file of the document and, before or behind it, the
option with the file that the figure is put into; a value by the word for it, an equation and
assignments.  Flags may stand anywhere between these words and as often as one likes. -/
theorem parse_flagged :
    (∀ (input : Text) (output? : Option Text) (base args : List Text),
      input ∉ reservedWords → input ≠ evaluateWord →
      (∀ output ∈ output?, output ∉ reservedWords) →
      RenderWords input output? base → Flagged [traceFlag, strictFlag] base args →
        parse args =
          .ok ⟨.render input output? (args.contains strictFlag), args.contains traceFlag⟩) ∧
    (∀ (equation : Text) (assignments : List Assignment) (args : List Text),
      equation ∉ [traceFlag, helpFlag, shortHelpFlag] →
      (∀ a ∈ assignments, '=' ∉ a.name) →
      Flagged [traceFlag] (evaluateWord :: equation :: assignments.map Assignment.text) args →
        ∃ vars : Variables,
          parse args = .ok ⟨.evaluate equation vars, args.contains traceFlag⟩ ∧
          ∀ name, vars.get? name =
            (assignments.reverse.find? fun a => Text.trim a.name = name).map
              fun a => .ofFormula (Text.trim a.equation)) :=
  ⟨fun _ _ _ _ hinput heval houtput hwords h => parse_render h hwords hinput houtput heval,
    fun _ assignments _ hequation hnames h =>
      ⟨_, parse_evaluate h hequation hnames, get?_entries assignments⟩⟩

/-- A flag between the option and its value, and one among assignments to the same variable. -/
theorem parse_flagged_between :
    parse [traceFlag, outputOption, strictFlag, ['o'], ['i'], traceFlag] =
        .ok ⟨.render ['i'] (some ['o']) true, true⟩ ∧
      ∃ vars : Variables,
        parse [evaluateWord, ['x'], ['x', '=', '1'], traceFlag, ['x', '=', '2']] =
          .ok ⟨.evaluate ['x'] vars, true⟩ ∧
        vars.get? ['x'] = some (.ofFormula ['2']) := by
  refine ⟨parse_flagged.1 ['i'] (some ['o']) [outputOption, ['o'], ['i']] _ (by decide) (by decide)
    (by decide) (.outputFirst _) ?_, ?_⟩
  · exact .flag (by decide)
      (.word _ (.flag (by decide) (.word _ (.word _ (.flag (by decide) .nil)))))
  · obtain ⟨vars, hparse, hvars⟩ := parse_flagged.2 ['x'] [⟨['x'], ['1']⟩, ⟨['x'], ['2']⟩]
      [evaluateWord, ['x'], ['x', '=', '1'], traceFlag, ['x', '=', '2']] (by decide) (by decide)
      (.word _ (.word _ (.word _ (.flag (by decide) (.word _ .nil)))))
    refine ⟨vars, hparse, ?_⟩
    rw [hvars]
    rfl

end Args

end EquationFigure
