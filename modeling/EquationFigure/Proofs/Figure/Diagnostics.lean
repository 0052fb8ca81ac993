import EquationFigure.Proofs.Figure.Modes
import Mathlib.Data.List.Induction

/-!
# What is told of a figure

The attributes that were left out are told of in lines, each line once.  Elements and attributes
have names without blanks and angle brackets, so a line says which element, which attribute and
which reason is meant: to tell each line once is to tell of each diagnostic once.

* `FirstSeen` — the entries of a list, each once, in the order in which they first occur;
  `firstSeen_eraseDups` says how they are found.
* `Diagnostic.text_inj` — the line of a diagnostic settles the diagnostic.
* `messages_of_render` — the lines of a figure are those of its diagnostics, each once.
* `render_trace`, `render_of_lenient` — showing the steps taken makes no difference to the figure,
  and the mode makes none if nothing was left out.
-/

set_option autoImplicit false

namespace EquationFigure

open Svg (Node)

/-! ## First occurrences -/

/-- The second list has the entries of the first one, each once, in the order in which they first
occur there. -/
structure FirstSeen {α : Type} [DecidableEq α] (l distinct : List α) : Prop where
  /-- The entries are the same. -/
  mem_iff : ∀ a, a ∈ distinct ↔ a ∈ l
  /-- Each entry first occurs before those behind it. -/
  ordered : distinct.Pairwise fun a b => l.idxOf a < l.idxOf b

section FirstSeen

variable {α β : Type} [DecidableEq α] [DecidableEq β]

theorem eraseDups_concat_of_mem {l : List α} {a : α} (h : a ∈ l) :
    (l ++ [a]).eraseDups = l.eraseDups := by
  rw [List.eraseDups_append]
  simp [List.removeAll, h]

theorem eraseDups_concat_of_notMem {l : List α} {a : α} (h : a ∉ l) :
    (l ++ [a]).eraseDups = l.eraseDups ++ [a] := by
  rw [List.eraseDups_append]
  simp [List.removeAll, h, List.eraseDups_cons]

/-- **Leaving out what has occurred before keeps the first occurrences.** -/
theorem firstSeen_eraseDups (l : List α) : FirstSeen l l.eraseDups := by
  refine ⟨fun a => List.mem_eraseDups, ?_⟩
  -- The induction is on what has been seen so far.
  induction l using List.reverseRecOn with
  | nil => exact .nil
  | append_singleton l a ih =>
    have hseen : l.eraseDups.Pairwise fun b c => (l ++ [a]).idxOf b < (l ++ [a]).idxOf c := by
      refine ih.imp_of_mem fun hb hc hlt => ?_
      rwa [List.idxOf_append_of_mem (List.mem_eraseDups.1 hb),
        List.idxOf_append_of_mem (List.mem_eraseDups.1 hc)]
    by_cases ha : a ∈ l
    · rwa [eraseDups_concat_of_mem ha]
    · rw [eraseDups_concat_of_notMem ha, List.pairwise_append]
      refine ⟨hseen, List.pairwise_singleton _ a, fun b hb c hc => ?_⟩
      have hb := List.mem_eraseDups.1 hb
      rw [List.mem_singleton.1 hc, List.idxOf_append_of_mem hb, List.idxOf_append_of_notMem ha]
      exact Nat.lt_add_right _ (List.idxOf_lt_length_iff.2 hb)

theorem eraseDups_map {f : α → β} {l : List α} (hf : ∀ a ∈ l, ∀ b ∈ l, f a = f b → a = b) :
    (l.map f).eraseDups = l.eraseDups.map f := by
  induction l using List.reverseRecOn with
  | nil => rfl
  | append_singleton l a ih =>
    have ih := ih fun b hb c hc =>
      hf b (List.mem_append_left _ hb) c (List.mem_append_left _ hc)
    rw [List.map_append, List.map_singleton]
    by_cases ha : a ∈ l
    · rw [eraseDups_concat_of_mem ha, eraseDups_concat_of_mem (List.mem_map_of_mem ha), ih]
    · have hfa : f a ∉ l.map f := by
        intro hmem
        obtain ⟨b, hb, heq⟩ := List.mem_map.1 hmem
        have hba : b = a := hf b (List.mem_append_left _ hb) a
          (List.mem_append_right _ (List.mem_singleton.2 rfl)) heq
        exact ha (hba ▸ hb)
      rw [eraseDups_concat_of_notMem ha, eraseDups_concat_of_notMem hfa, ih, List.map_append,
        List.map_singleton]

end FirstSeen

/-! ## Lines -/

/-- The diagnostic names an element and an attribute of markup. -/
structure Diagnostic.Named (d : Diagnostic) : Prop where
  /-- The element has a name of markup. -/
  element : Svg.isMarkupName d.element = true
  /-- So has the attribute. -/
  name : Svg.isMarkupName d.name = true

/-- A name that ends is settled by the text that it starts. -/
theorem eq_of_name_append {name name' : String} {rest rest' : Text}
    (h : Svg.isMarkupName name = true) (hrest : Text.HeadNot Svg.isNameChar rest)
    (h' : Svg.isMarkupName name' = true) (hrest' : Text.HeadNot Svg.isNameChar rest')
    (heq : name.toList ++ rest = name'.toList ++ rest') : name = name' ∧ rest = rest' := by
  have htake := Svg.takeName?_append h hrest
  rw [heq, Svg.takeName?_append h' hrest'] at htake
  cases htake
  exact ⟨rfl, rfl⟩

/-- A colon may end a name. -/
theorem isMarkupName_colon {name : String} (h : Svg.isMarkupName name = true) :
    Svg.isMarkupName (name ++ ":") = true := by
  have hcolon : Svg.isNameChar ':' = true := by decide
  rw [Svg.isMarkupName] at h ⊢
  cases hname : name.toList with
  | nil =>
    rw [hname] at h
    cases h
  | cons c t =>
    rw [hname, Bool.and_eq_true] at h
    simp [hname, h.1, h.2, hcolon]

/-- **The line of a diagnostic settles the diagnostic.**  A bracket ends the name of the element,
and a blank that of the attribute with the colon behind it. -/
theorem Diagnostic.text_inj {d d' : Diagnostic} (h : d.Named) (h' : d'.Named)
    (heq : d.text = d'.text) : d = d' := by
  have hbracket : ∀ t, Text.HeadNot Svg.isNameChar ('>' :: t) := fun _ =>
    Text.headNot_cons.2 (by decide)
  have hblank : ∀ t, Text.HeadNot Svg.isNameChar (' ' :: t) := fun _ =>
    Text.headNot_cons.2 (by decide)
  have htext : d.element.toList ++
        '>' :: ' ' :: ((d.name ++ ":").toList ++ ' ' :: d.message.toList) =
      d'.element.toList ++
        '>' :: ' ' :: ((d'.name ++ ":").toList ++ ' ' :: d'.message.toList) := by
    have := congrArg String.toList heq
    simpa [Diagnostic.text] using this
  obtain ⟨helement, hrest⟩ := eq_of_name_append h.element (hbracket _) h'.element (hbracket _) htext
  obtain ⟨hname, hmessage⟩ := eq_of_name_append (isMarkupName_colon h.name) (hblank _)
    (isMarkupName_colon h'.name) (hblank _) (List.cons.inj (List.cons.inj hrest).2).2
  obtain ⟨element, name, message⟩ := d
  obtain ⟨element', name', message'⟩ := d'
  rw [Diagnostic.mk.injEq]
  refine ⟨helement, ?_, String.toList_inj.1 (List.cons.inj hmessage).2⟩
  have := congrArg String.toList hname
  exact String.toList_inj.1 (by simpa using this)

/-- So lines that are told once are those of diagnostics that are told of once. -/
theorem Diagnostic.messages_eq {diagnostics : List Diagnostic} (h : ∀ d ∈ diagnostics, d.Named) :
    messages diagnostics = diagnostics.eraseDups.map text :=
  eraseDups_map fun d hd d' hd' heq => text_inj (h d hd) (h d' hd') heq

/-! ## The diagnostics of a figure -/

/-- The outcome is that of an attribute of markup. -/
def AttributeOutcome.Named (o : AttributeOutcome) : Prop :=
  Svg.isMarkupName o.element = true ∧ Svg.isMarkupName o.name = true

section Named

theorem Writes.named {element : String} {slots : List Slot} {met : List AttributeOutcome}
    {attributes : List Svg.Attribute} (h : Writes element slots met attributes)
    (helement : Svg.isMarkupName element = true)
    (hslots : ∀ name ∈ slots.map Slot.name, Svg.isMarkupName name = true) :
    ∀ o ∈ met, o.Named := by
  intro o ho
  refine ⟨?_, hslots _ (h.name_mem ho)⟩
  clear hslots
  induction h with
  | nil => cases ho
  | passed _ _ _ ih => exact ih ho
  | evaluated o' ho' _ ih =>
    rcases List.mem_cons.1 ho with rfl | ho
    · exact ho' ▸ helement
    · exact ih ho

mutual

theorem Depicts.named {e : Element} {met : List AttributeOutcome} {node : Node}
    (h : Depicts e met node) : ∀ o ∈ met, o.Named := by
  match h with
  | .mk (e := e) htagged hchildren =>
    exact List.forall_mem_append.2 ⟨htagged.writes.named (isMarkupName_tag e)
      fun _ hname => isMarkupName_of_mem_names (e.plan.names_slots.subset hname), hchildren.named⟩

theorem DepictsEach.named {elements : List Element} {met : List AttributeOutcome}
    {nodes : List Node} (h : DepictsEach elements met nodes) : ∀ o ∈ met, o.Named := by
  match h with
  | .nil => exact List.forall_mem_nil _
  | .cons hfirst hrest => exact List.forall_mem_append.2 ⟨hfirst.named, hrest.named⟩

end

theorem DepictsRoot.named {root : Root} {met : List AttributeOutcome} {node : Node}
    (h : DepictsRoot root met node) : ∀ o ∈ met, o.Named := by
  cases h with
  | mk htagged hchildren =>
    exact List.forall_mem_append.2 ⟨htagged.writes.named (by decide)
      fun _ hname => isMarkupName_of_mem_rootNames (root.names_slots.subset hname),
      hchildren.named⟩

theorem AttributeOutcome.Named.diagnostic {o : AttributeOutcome} (h : o.Named) {d : Diagnostic}
    (hd : o.diagnostic? = some d) : d.Named := by
  rw [diagnostic?, error?] at hd
  split at hd
  · cases hd
  · cases hd
    exact ⟨h.1, h.2⟩

variable (document : Document) (options : RenderOptions)

/-- **The lines told of a figure are those of its diagnostics**, each once, in the order in which
they first occur. -/
theorem messages_of_render {rendered : Rendered}
    (h : (render document { options with strict := false }).1 = .ok rendered) :
    ∃ distinct, FirstSeen rendered.diagnostics distinct ∧
      Diagnostic.messages rendered.diagnostics = distinct.map Diagnostic.text := by
  obtain ⟨node, hdepicts, hlenient, -⟩ := exists_render document options
  rw [hlenient] at h
  cases h
  refine ⟨_, firstSeen_eraseDups _, Diagnostic.messages_eq fun d hd => ?_⟩
  obtain ⟨o, ho, hd⟩ := List.mem_filterMap.1 hd
  exact (hdepicts.named o ho).diagnostic hd

end Named

/-! ## Showing the steps -/

section Trace

variable (vars : Variables) (options : EvalOptions) (trace : Bool)

theorem settle_trace : settle vars { options with trace } = settle vars options := by
  funext demands
  induction demands with
  | nil => rfl
  | cons d rest ih =>
    match d with
    | .check none => exact ih
    | .check (some _) => rfl
    | .number q =>
      rw [settle, ih]
      rfl

theorem workOut_trace (w : Wanted) :
    w.workOut vars { options with trace } = w.workOut vars options := by
  funext s
  rw [Wanted.workOut, settle_trace]
  rfl

theorem outcomes_trace (s : Session) (wanted : List Wanted) :
    outcomes vars { options with trace } s wanted = outcomes vars options s wanted := by
  induction wanted generalizing s with
  | nil => rfl
  | cons w rest ih => rw [outcomes, workOut_trace, ih, outcomes]

theorem sessionPast_trace (s : Session) (wanted : List Wanted) :
    sessionPast vars { options with trace } s wanted = sessionPast vars options s wanted := by
  simp only [sessionPast, workOut_trace]

theorem documentOutcomes_trace (document : Document) :
    document.outcomes { options with trace } = document.outcomes options := by
  have hfirst : document.outcomesFirst { options with trace } = document.outcomesFirst options :=
    outcomes_trace _ _ _ _ _
  have hsession : document.sessionFirst { options with trace } = document.sessionFirst options :=
    sessionPast_trace _ _ _ _ _
  rw [Document.outcomes, Document.outcomesLater, outcomes_trace, Document.figureVars,
    Document.frame?, hfirst, hsession]
  rfl

/-- **Showing the steps taken makes no difference to the figure.** -/
theorem render_trace (document : Document) (options : RenderOptions) :
    (render document { options with eval := { options.eval with trace } }).1 =
      (render document options).1 := by
  obtain ⟨node, hdepicts, hlenient, hstrict⟩ := exists_render document options
  obtain ⟨node', hdepicts', hlenient', hstrict'⟩ :=
    exists_render document { options with eval := { options.eval with trace } }
  dsimp only at hdepicts' hlenient' hstrict'
  rw [documentOutcomes_trace] at hdepicts' hlenient' hstrict'
  obtain rfl := hdepicts.unique hdepicts'
  obtain ⟨eval, strict, indent?⟩ := options
  cases strict with
  | false => exact hlenient'.trans hlenient.symm
  | true => exact hstrict'.trans hstrict.symm

end Trace

/-! ## Both modes, with the steps or without them -/

section Mode

variable (document : Document) (options : RenderOptions) {rendered : Rendered}

/-- There is something to tell if and only if there is an error. -/
theorem filterMap_diagnostic?_eq_nil_iff {met : List AttributeOutcome} :
    met.filterMap AttributeOutcome.diagnostic? = [] ↔
      met.findSome? AttributeOutcome.error? = none := by
  rw [List.filterMap_eq_nil_iff, List.findSome?_eq_none_iff]
  exact forall₂_congr fun o _ => Option.map_eq_none_iff

/-- If nothing was left out, the strict rendering is the lenient one. -/
theorem render_of_lenient
    (h : (render document { options with strict := false }).1 = .ok rendered) {strict : Bool}
    (hstrict : strict = true → rendered.diagnostics = []) (trace : Bool) :
    (render document { options with strict, eval := { options.eval with trace } }).1 =
      .ok rendered := by
  rw [← h]
  refine (render_trace trace document { options with strict }).trans ?_
  cases strict with
  | false => rfl
  | true =>
    obtain ⟨node, -, hlenient, hstrict'⟩ := exists_render document options
    have hnil := hstrict rfl
    obtain rfl := Except.ok.inj (h.symm.trans hlenient)
    dsimp only at hnil
    rw [hlenient, hstrict', filterMap_diagnostic?_eq_nil_iff.1 hnil, hnil]

/-- If something was left out, the strict rendering fails. -/
theorem exists_error_of_lenient
    (h : (render document { options with strict := false }).1 = .ok rendered)
    (hdiagnostics : rendered.diagnostics ≠ []) (trace : Bool) :
    ∃ e, (render document
      { options with strict := true, eval := { options.eval with trace } }).1 = .error e := by
  obtain ⟨node, -, hlenient, hstrict⟩ := exists_render document options
  obtain rfl := Except.ok.inj (h.symm.trans hlenient)
  dsimp only at hdiagnostics
  rw [Ne, filterMap_diagnostic?_eq_nil_iff] at hdiagnostics
  obtain ⟨e, he⟩ := Option.ne_none_iff_exists'.1 hdiagnostics
  rw [he] at hstrict
  exact ⟨e, (render_trace trace document { options with strict := true }).trans hstrict⟩

end Mode

end EquationFigure
