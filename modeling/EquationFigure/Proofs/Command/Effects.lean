import EquationFigure.Command.Run
import EquationFigure.Proofs.Figure.Diagnostics

/-!
# What runs leave behind

A run that fails leaves nothing behind but its messages.  One that renders a document puts the
markup in one place, and the places do not differ in what is put there: a file gets the markup, and
standard output the markup with a line end.  The warnings depend on neither the place nor the mode,
and in strict mode a run that would have warned fails instead.

* `Outcome.WithoutEffect` — nothing is put anywhere.
* `Files.Delivers` — a run that ends with the markup where it should go, and nowhere else.
* `Files.HasFigure` — a file with a document that can be read, and the figure of the document;
  `Files.HasFigure.delivers` and `Files.HasFigure.runRendering_eq_failure` say what runs make of it.
* `run_effects` — **how the runs of one command compare** that differ in place, mode and trace.
-/

set_option autoImplicit false

namespace EquationFigure

/-! ## Failing runs -/

namespace Outcome

/-- Nothing is put anywhere: standard output is empty, and no file is written. -/
structure WithoutEffect (o : Outcome) : Prop where
  /-- Nothing is printed. -/
  stdout : o.stdout = []
  /-- Nothing is written. -/
  written? : o.written? = none

/-- Either the run succeeds, or nothing is put anywhere. -/
def FailsCleanly (o : Outcome) : Prop := o.exitCode ≠ 0 → o.WithoutEffect

theorem withoutEffect_failure (before : Text) (message : String) :
    (failure before message).WithoutEffect := ⟨rfl, rfl⟩

theorem failsCleanly_failure (before : Text) (message : String) :
    (failure before message).FailsCleanly := fun _ => withoutEffect_failure before message

theorem failsCleanly_of_exitCode {o : Outcome} (h : o.exitCode = 0) : o.FailsCleanly :=
  fun hne => absurd h hne

end Outcome

section Failing

variable (files : Files)

theorem failsCleanly_runEvaluation (equation : Text) (vars : Variables) (trace : Bool) :
    (runEvaluation equation vars trace).FailsCleanly := by
  rw [runEvaluation]
  split
  · exact Outcome.failsCleanly_of_exitCode rfl
  · exact Outcome.failsCleanly_failure _ _

theorem Files.failsCleanly_deliver (output? : Option Text) (before markup : Text) :
    (files.deliver output? before markup).FailsCleanly := by
  cases output? with
  | none => exact Outcome.failsCleanly_of_exitCode rfl
  | some path =>
    rw [Files.deliver]
    split
    · exact Outcome.failsCleanly_failure _ _
    · exact Outcome.failsCleanly_of_exitCode rfl

theorem Files.failsCleanly_runRendering (input : Text) (output? : Option Text)
    (strict trace : Bool) : (files.runRendering input output? strict trace).FailsCleanly := by
  rw [Files.runRendering]
  split
  · exact Outcome.failsCleanly_failure _ _
  · split
    · exact Outcome.failsCleanly_failure _ _
    · exact files.failsCleanly_deliver _ _ _

/-- **A run that fails leaves nothing behind.** -/
theorem failsCleanly_run (args : List Text) : (run args files).FailsCleanly := by
  rw [run]
  split
  · exact Outcome.failsCleanly_failure _ _
  · rename_i args _
    rw [Files.runArgs]
    split
    · exact Outcome.failsCleanly_of_exitCode rfl
    · exact failsCleanly_runEvaluation _ _ _
    · exact files.failsCleanly_runRendering _ _ _ _

end Failing

/-! ## Warnings -/

/-- The line in which a diagnostic is told of. -/
def Diagnostic.warning (d : Diagnostic) : Text := Outcome.line ("warning: " ++ d.text)

section Warnings

variable {diagnostics distinct : List Diagnostic}

theorem warningLines_messages
    (h : Diagnostic.messages diagnostics = distinct.map Diagnostic.text) :
    warningLines (Diagnostic.messages diagnostics) = distinct.flatMap Diagnostic.warning := by
  rw [h, warningLines, List.flatMap_map]
  rfl

theorem warnings_eq_nil_iff (h : FirstSeen diagnostics distinct) :
    distinct.flatMap Diagnostic.warning = [] ↔ diagnostics = [] := by
  rw [List.flatMap_eq_nil_iff, List.eq_nil_iff_forall_not_mem]
  refine forall_congr' fun d => ?_
  have hline : d.warning ≠ [] := List.append_ne_nil_of_right_ne_nil _ (List.cons_ne_nil _ _)
  rw [h.mem_iff]
  exact imp_congr_right fun _ => iff_false_intro hline

end Warnings

/-! ## Delivery -/

namespace Files

variable {files : Files}

/-- The run succeeds and puts the markup where it should go, and nothing anywhere else: into the
file at the path if there is one, and else on standard output with a line end behind it. -/
structure Delivers (files : Files) (output? : Option Text) (markup : Text) (o : Outcome) :
    Prop where
  /-- The run succeeds. -/
  exitCode : o.exitCode = 0
  /-- Without a path, the markup is printed, and no file is written. -/
  printed : output? = none → o.stdout = markup ++ ['\n'] ∧ o.written? = none
  /-- With a path, nothing is printed, and its file is written with the markup. -/
  stored : ∀ path, output? = some path →
    o.stdout = [] ∧ ∃ name, files.target? path = some name ∧ o.written? = some (name, markup)

/-- The file that the markup should go to, if any, can be written. -/
def Reaches (files : Files) (output? : Option Text) : Prop :=
  ∀ path, output? = some path → ∃ name, files.target? path = some name

theorem reaches_none : files.Reaches none := fun path h => absurd h.symm (Option.some_ne_none path)

theorem reaches_of_deliver {output? : Option Text} {before markup : Text}
    (h : (files.deliver output? before markup).exitCode = 0) : files.Reaches output? := by
  rintro path rfl
  rw [deliver] at h
  split at h
  · cases h
  · exact ⟨_, ‹_›⟩

theorem Reaches.deliver {output? : Option Text} (h : files.Reaches output?)
    (before markup : Text) :
    files.Delivers output? markup (files.deliver output? before markup) ∧
      (files.deliver output? before markup).stderr = before := by
  cases output? with
  | none =>
    exact ⟨⟨rfl, fun _ => ⟨rfl, rfl⟩, fun path heq => absurd heq.symm (Option.some_ne_none path)⟩,
      rfl⟩
  | some path =>
    obtain ⟨name, hname⟩ := h path rfl
    have hdeliver : files.deliver (some path) before markup =
        { stderr := before, written? := some (name, markup) } := by
      rw [Files.deliver, hname]
    rw [hdeliver]
    refine ⟨⟨rfl, fun heq => absurd heq (Option.some_ne_none path), fun path' heq => ?_⟩, rfl⟩
    cases heq
    exact ⟨rfl, name, hname, rfl⟩

/-! ## Rendering a document that can be read -/

section Rendering

variable {input source : Text} {document : Document} {rendered : Rendered}

/-- There is a file with a document, and this is what lenient rendering makes of it. -/
structure HasFigure (files : Files) (input source : Text) (document : Document)
    (rendered : Rendered) : Prop where
  /-- The text of the file. -/
  content? : files.content? input = some source
  /-- The document in it. -/
  read : Document.read source = .ok document
  /-- Its figure, with the attributes that had to be left out. -/
  render : (EquationFigure.render document { indent? := some 2 }).1 = .ok rendered

theorem runRendering_of_read (hcontent : files.content? input = some source)
    (hread : Document.read source = .ok document) (output? : Option Text) (strict trace : Bool) :
    files.runRendering input output? strict trace =
      match EquationFigure.render document { eval := { trace }, strict, indent? := some 2 } with
      | (.ok rendered, events) => files.deliver output?
          (eventLines trace events ++ warningLines (Diagnostic.messages rendered.diagnostics))
          rendered.markup
      | (.error e, events) => .failure (eventLines trace events) e.message := by
  rw [runRendering, hcontent]
  dsimp only
  rw [renderText, hread]
  dsimp only
  rcases EquationFigure.render document { eval := { trace }, strict, indent? := some 2 } with
    ⟨e | rendered, events⟩ <;> rfl

/-- If nothing keeps the mode from it, the figure is delivered. -/
theorem HasFigure.runRendering_eq_deliver (h : files.HasFigure input source document rendered)
    {strict : Bool} (hstrict : strict = true → rendered.diagnostics = []) (output? : Option Text)
    (trace : Bool) :
    ∃ events, files.runRendering input output? strict trace = files.deliver output?
      (eventLines trace events ++ warningLines (Diagnostic.messages rendered.diagnostics))
      rendered.markup := by
  have hrender := render_of_lenient document { indent? := some 2 } h.render hstrict trace
  rw [runRendering_of_read h.content? h.read]
  split
  · rename_i r events hrun
    rw [hrun] at hrender
    cases hrender
    exact ⟨events, rfl⟩
  · rename_i hrun
    rw [hrun] at hrender
    cases hrender

/-- Every run that the mode allows delivers; what it says before the warnings are the steps
taken. -/
theorem HasFigure.delivers (h : files.HasFigure input source document rendered)
    {distinct : List Diagnostic}
    (hmessages : Diagnostic.messages rendered.diagnostics = distinct.map Diagnostic.text)
    {output? : Option Text} (hreaches : files.Reaches output?) {strict : Bool}
    (hstrict : strict = true → rendered.diagnostics = []) (trace : Bool) :
    files.Delivers output? rendered.markup (files.runRendering input output? strict trace) ∧
      ∃ events, (files.runRendering input output? strict trace).stderr =
        eventLines trace events ++ distinct.flatMap Diagnostic.warning := by
  obtain ⟨events, hdeliver⟩ := h.runRendering_eq_deliver hstrict output? trace
  rw [hdeliver, warningLines_messages hmessages]
  exact ⟨(hreaches.deliver _ _).1, events, (hreaches.deliver _ _).2⟩

/-- Strict rendering fails for what would have been warned of. -/
theorem HasFigure.runRendering_eq_failure (h : files.HasFigure input source document rendered)
    (hdiagnostics : rendered.diagnostics ≠ []) (output? : Option Text) (trace : Bool) :
    ∃ before message, files.runRendering input output? true trace = .failure before message := by
  obtain ⟨e, hrender⟩ :=
    exists_error_of_lenient document { indent? := some 2 } h.render hdiagnostics trace
  rw [runRendering_of_read h.content? h.read]
  split
  · rename_i hrun
    rw [hrun] at hrender
    cases hrender
  · exact ⟨_, _, rfl⟩

/-- A run that succeeds has found a document and, if it is strict, nothing to warn of. -/
theorem exists_hasFigure_of_exitCode {output? : Option Text} {strict trace : Bool}
    (h : (files.runRendering input output? strict trace).exitCode = 0) :
    ∃ source document rendered, files.HasFigure input source document rendered ∧
      (strict = true → rendered.diagnostics = []) ∧ files.Reaches output? := by
  cases hcontent : files.content? input with
  | none =>
    rw [runRendering, hcontent] at h
    cases h
  | some source =>
    cases hread : Document.read source with
    | error e =>
      rw [runRendering, hcontent] at h
      dsimp only at h
      rw [renderText, hread] at h
      cases h
    | ok document =>
      obtain ⟨rendered, hrendered⟩ : ∃ rendered,
          (EquationFigure.render document { indent? := some 2 }).1 = .ok rendered := by
        obtain ⟨_, -, hrendered, -⟩ := exists_render document { indent? := some 2 }
        exact ⟨_, hrendered⟩
      have hfigure : files.HasFigure input source document rendered := ⟨hcontent, hread, hrendered⟩
      have hstrict : strict = true → rendered.diagnostics = [] := by
        rintro rfl
        by_contra hne
        obtain ⟨before, message, hfailure⟩ := hfigure.runRendering_eq_failure hne output? trace
        rw [hfailure] at h
        cases h
      obtain ⟨events, hdeliver⟩ := hfigure.runRendering_eq_deliver hstrict output? trace
      rw [hdeliver] at h
      exact ⟨source, document, rendered, hfigure, hstrict, reaches_of_deliver h⟩

end Rendering

end Files

/-! ## Runs of one command -/

/-- **How the runs of one command compare.**  A run that fails leaves nothing behind.  If a command
to render succeeds, then its file holds a document, and the markup of its lenient rendering is put
where it should go and nowhere else; without an output, it is printed with a line end, and no file
is written.  Without the steps taken, standard error has a line for each distinct diagnostic, in the
order in which they first occur, and nothing else.  If it is empty, the strict run of the command
puts the same markup in the same place; and else that run fails and leaves nothing behind. -/
theorem run_effects (files : Files) :
    (∀ args, (run args files).exitCode ≠ 0 → (run args files).WithoutEffect) ∧
    ∀ args input output? strict trace,
      Args.parse args = .ok ⟨.render input output? strict, trace⟩ →
      (run args files).exitCode = 0 →
      let outcome := fun output? strict trace => files.runArgs ⟨.render input output? strict, trace⟩
      ∃ source document rendered distinct, files.HasFigure input source document rendered ∧
        FirstSeen rendered.diagnostics distinct ∧
        files.Delivers output? rendered.markup (run args files) ∧
        files.Delivers none rendered.markup (outcome none strict trace) ∧
        files.Delivers output? rendered.markup (outcome output? strict false) ∧
        (outcome output? strict false).stderr = distinct.flatMap Diagnostic.warning ∧
        ((outcome output? strict false).stderr = [] →
          files.Delivers output? rendered.markup (outcome output? true trace)) ∧
        ((outcome output? strict false).stderr ≠ [] →
          (outcome output? true trace).exitCode ≠ 0 ∧
          (outcome output? true trace).WithoutEffect) := by
  refine ⟨failsCleanly_run files, ?_⟩
  intro args input output? strict trace hparse hexit outcome
  have hrun : run args files = files.runRendering input output? strict trace := by
    rw [run, hparse]
    rfl
  have houtcome : ∀ output? strict trace,
      outcome output? strict trace = files.runRendering input output? strict trace :=
    fun _ _ _ => rfl
  clear_value outcome
  rw [hrun] at hexit ⊢
  simp only [houtcome]
  obtain ⟨source, document, rendered, hfigure, hstrict, hreaches⟩ :=
    Files.exists_hasFigure_of_exitCode hexit
  obtain ⟨distinct, hdistinct, hmessages⟩ :=
    messages_of_render document { indent? := some 2 } hfigure.render
  obtain ⟨hquiet, events, hstderr⟩ := hfigure.delivers hmessages hreaches hstrict false
  rw [eventLines, if_neg Bool.false_ne_true, List.nil_append] at hstderr
  refine ⟨source, document, rendered, distinct, hfigure, hdistinct,
    (hfigure.delivers hmessages hreaches hstrict trace).1,
    (hfigure.delivers hmessages Files.reaches_none hstrict trace).1, hquiet, hstderr,
    fun hnil => ?_, fun hne => ?_⟩
  · rw [hstderr, warnings_eq_nil_iff hdistinct] at hnil
    exact (hfigure.delivers hmessages hreaches (fun _ => hnil) trace).1
  · rw [hstderr, Ne, warnings_eq_nil_iff hdistinct] at hne
    obtain ⟨before, message, hfailure⟩ := hfigure.runRendering_eq_failure hne output? trace
    rw [hfailure]
    exact ⟨Nat.one_ne_zero, Outcome.withoutEffect_failure _ _⟩

/-- A directory with one document, in which two elements have the same attribute without a value. -/
def repeatedFiles : Files := .ofTable (.ofList [(['d'],
  ("\x7b\"svg\":\x7b\"children\":[\x7b\"type\":\"rect\",\"x\":\"q\"\x7d," ++
    "\x7b\"type\":\"rect\",\"x\":\"q\"\x7d]\x7d\x7d").toList)])

/-- Two attributes are left out and told of in one line, which is the failure in strict mode. -/
theorem run_effects_repeatedFiles :
    let args : List Text := [['d'], Args.outputOption, ['o']]
    Args.parse args = .ok ⟨.render ['d'] (some ['o']) false, false⟩ ∧
      (run args repeatedFiles).exitCode = 0 ∧
      (run args repeatedFiles).stderr =
        Outcome.line "warning: <rect> x: undefined variable: q" ∧
      (repeatedFiles.runArgs ⟨.render ['d'] (some ['o']) true, false⟩).WithoutEffect := by
  intro args
  have hparse : Args.parse args = .ok ⟨.render ['d'] (some ['o']) false, false⟩ := rfl
  have hexit : (run args repeatedFiles).exitCode = 0 := by decide +kernel
  have hstderr : (run args repeatedFiles).stderr =
      Outcome.line "warning: <rect> x: undefined variable: q" := by decide +kernel
  obtain ⟨_, _, _, _, -, -, -, -, -, -, -, hstrict⟩ :=
    (run_effects repeatedFiles).2 args ['d'] (some ['o']) false false hparse hexit
  refine ⟨hparse, hexit, hstderr, (hstrict ?_).2⟩
  have hrun : run args repeatedFiles =
      repeatedFiles.runArgs ⟨.render ['d'] (some ['o']) false, false⟩ := by
    rw [run, hparse]
  change (repeatedFiles.runArgs ⟨.render ['d'] (some ['o']) false, false⟩).stderr ≠ []
  rw [← hrun, hstderr]
  exact List.append_ne_nil_of_right_ne_nil _ (List.cons_ne_nil _ _)

end EquationFigure
