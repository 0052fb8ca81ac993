import EquationFigure.Proofs.Figure.Building

/-!
# Lenient and strict rendering

Both modes work the same attributes out in the same order.  Lenient rendering always ends with a
figure, in which each evaluated attribute either is written with its whole text or is missing and
reported once.  Strict rendering ends with the same figure if there is nothing to report, and else
fails for what lenient rendering reports first.

* `Accounted`, `AccountedEach` — what becomes of evaluated attributes, one after the other.
* `Wanted.Placed`, `fault_of_run_settle` — which attributes can have which faults.
* `AttributeError.Explains` — what an error says of the attribute.
* `render_lenient` — **nothing is lost, doubled or moved between a document and its tree**.
* `render_strict` — **strict rendering agrees with lenient rendering**.
* `markup_read_back` — **markup is read back**, that of a figure as a tree that depicts the
  document.
-/

set_option autoImplicit false

namespace EquationFigure

open Svg (Attribute Node)

/-! ## What becomes of an attribute -/

section Accounted

variable {vars : Variables} {options : EvalOptions}

/-- What becomes of an evaluated attribute in a session, and the session afterwards.  Either it has
all its numbers, is written with the text of all of them, and nothing is reported; or it is not
written, and the fault that is reported is that of the first of its demands that could not be
met. -/
inductive Accounted (vars : Variables) (options : EvalOptions) (o : AttributeOutcome) :
    Session → Session → Prop
  | written {numbers : List Float} {s s' : Session} :
      (settle vars options o.target.demands).run s = (.ok numbers, s') →
      o.attribute? = some (o.name, o.target.text numbers) → o.diagnostic? = none →
      Accounted vars options o s s'
  | leftOut {before after : List Demand} {d : Demand} {numbers : List Float} {s s₁ s₂ : Session}
      {fault : Fault} :
      o.target.demands = before ++ d :: after →
      (settle vars options before).run s = (.ok numbers, s₁) →
      (settle vars options [d]).run s₁ = (.error fault, s₂) →
      o.attribute? = none → o.diagnostic? = some ⟨o.element, o.name, fault.reason⟩ →
      Accounted vars options o s
        { s₂ with events := .skipped o.element o.name fault.reason :: s₂.events }

/-- What becomes of evaluated attributes one after the other, each in the session that the one
before has left. -/
inductive AccountedEach (vars : Variables) (options : EvalOptions) :
    List AttributeOutcome → Session → Session → Prop
  | nil (s : Session) : AccountedEach vars options [] s s
  | cons {o : AttributeOutcome} {rest : List AttributeOutcome} {s s₁ s₂ : Session} :
      Accounted vars options o s s₁ → AccountedEach vars options rest s₁ s₂ →
      AccountedEach vars options (o :: rest) s s₂

theorem accounted_workOut (w : Wanted) (s : Session) :
    Accounted vars options (w.workOut vars options s).1 s (w.workOut vars options s).2 := by
  rw [Wanted.workOut]
  rcases hrun : (settle vars options w.target.demands).run s with ⟨fault | numbers, s₂⟩
  · obtain ⟨before, d, after, numbers, s₁, hdemands, hbefore, hd⟩ := run_settle_eq_error hrun
    exact .leftOut hdemands hbefore hd rfl rfl
  · exact .written hrun rfl rfl

theorem accountedEach_outcomes (s : Session) (wanted : List Wanted) :
    AccountedEach vars options (outcomes vars options s wanted) s
      (sessionPast vars options s wanted) := by
  induction wanted generalizing s with
  | nil => exact .nil s
  | cons w rest ih => exact .cons (accounted_workOut w s) (ih _)

/-! ## Faults -/

/-- The segment at place `index` of a path is the first that is none. -/
def OffendsAt (segments : List Segment) (index : Nat) (cause : SegmentError) : Prop :=
  (∃ segment, segments[index]? = some segment ∧ segment.flaw? = some cause) ∧
    ∀ earlier ∈ segments.take index, earlier.flaw? = none

/-- A demand fails for an equation, or for what is wrong where it checks. -/
theorem fault_of_run_settle_singleton {d : Demand} {s s' : Session} {fault : Fault}
    (h : (settle vars options [d]).run s = (.error fault, s')) :
    (∃ cause, fault = .equation cause) ∨ d = .check (some fault) := by
  cases d with
  | check fault? =>
    cases fault? with
    | none => cases h
    | some f =>
      cases h
      exact .inr rfl
  | number q =>
    rw [settle_number, Attempt.run_bind, q.run_answer] at h
    rcases hq : (q.evaluate vars options).run s with ⟨cause | x, s₁⟩ <;> rw [hq] at h <;> cases h
    exact .inl ⟨cause, rfl⟩

/-- A fault that is not that of an equation is among what is asked for. -/
theorem check_mem_of_run_settle {demands : List Demand} {s s' : Session} {fault : Fault}
    (h : (settle vars options demands).run s = (.error fault, s'))
    (hfault : ∀ cause, fault ≠ .equation cause) : .check (some fault) ∈ demands := by
  obtain ⟨before, d, after, -, s₁, rfl, -, hd⟩ := run_settle_eq_error h
  rcases fault_of_run_settle_singleton hd with ⟨cause, heq⟩ | rfl
  · exact absurd heq (hfault cause)
  · exact List.mem_append_right _ List.mem_cons_self

theorem check_notMem_numbers {fault? : Option Fault} (qs : List Quantity) :
    .check fault? ∉ qs.map Demand.number := by
  intro h
  obtain ⟨q, -, heq⟩ := List.mem_map.1 h
  cases heq

/-- The first segment that is none is the one whose fault is met. -/
theorem offendsAt_of_run_settle {segments : List Segment} {place index : Nat}
    {cause : SegmentError} {s s' : Session}
    (h : (settle vars options (segmentDemands place segments)).run s =
      (.error (.segment index cause), s')) :
    ∃ i, index = place + i ∧ OffendsAt segments i cause := by
  induction segments generalizing place s with
  | nil => cases h
  | cons segment rest ih =>
    rw [Builder.segmentDemands_cons, Segment.fault?] at h
    cases hflaw : segment.flaw? with
    | some e =>
      rw [hflaw] at h
      cases h
      exact ⟨0, rfl, ⟨segment, rfl, hflaw⟩, fun _ hmem => absurd hmem List.not_mem_nil⟩
    | none =>
      rw [hflaw] at h
      change (settle vars options (segment.arguments.map .number ++ _)).run s = _ at h
      rw [settle_append, Attempt.run_bind_eq_error] at h
      rcases h with harguments | ⟨xs, s₁, -, h⟩
      · exact absurd (check_mem_of_run_settle harguments fun _ heq => by cases heq)
          (check_notMem_numbers _)
      · rcases Attempt.run_bind_eq_error.1 h with hrest | ⟨_, _, -, h⟩
        · obtain ⟨i, rfl, hoffends, hearlier⟩ := ih hrest
          refine ⟨i + 1, by omega, hoffends, ?_⟩
          rw [List.take_succ_cons, List.forall_mem_cons]
          exact ⟨hflaw, hearlier⟩
        · cases h

/-- **Which attributes can have which faults.** -/
theorem fault_of_run_settle {target : Target} {s s' : Session} {fault : Fault}
    (h : (settle vars options target.demands).run s = (.error fault, s')) :
    match fault with
    | .viewBoxLength found =>
      ∃ viewBox, target = .viewBox viewBox ∧ viewBox.quantities.length = found ∧ found ≠ 4
    | .segment index cause =>
      ∃ segments, target = .outline segments ∧ OffendsAt segments index cause
    | .equation _ => True := by
  by_cases hequation : ∃ cause, fault = .equation cause
  · obtain ⟨cause, rfl⟩ := hequation
    trivial
  · have hcheck := check_mem_of_run_settle h fun cause heq => hequation ⟨cause, heq⟩
    cases target with
    | measure q => exact absurd hcheck (check_notMem_numbers [q])
    | points l =>
      obtain ⟨point, -, hmem⟩ := List.mem_flatMap.1 hcheck
      exact absurd hmem (check_notMem_numbers [point.x, point.y])
    | viewBox v =>
      have hfault := (List.mem_cons.1 hcheck).resolve_right (check_notMem_numbers _)
      rw [ViewBox.fault?] at hfault
      split at hfault
      · cases hfault
      · rename_i hlength
        cases hfault
        exact ⟨v, rfl, rfl, hlength⟩
    | outline l =>
      obtain ⟨⟨segment, index⟩, -, hmem⟩ := List.mem_flatMap.1 hcheck
      have hfault := (List.mem_cons.1 hmem).resolve_right (check_notMem_numbers _)
      obtain ⟨cause, -, rfl⟩ := Option.map_eq_some_iff.1 (Demand.check.inj hfault).symm
      obtain ⟨i, heq, hoffends⟩ := offendsAt_of_run_settle h
      rw [Nat.zero_add] at heq
      exact ⟨l, rfl, heq ▸ hoffends⟩

end Accounted

/-! ## The places of attributes -/

/-- Whose attribute it is, where that says something: view boxes are the one of the figure, and the
outlines of paths are their attribute `d`. -/
def Wanted.Placed (root : Root) (w : Wanted) : Prop :=
  match w.target with
  | .viewBox viewBox =>
    w.element = "svg" ∧ w.name = "viewBox" ∧ root.viewBox? = some viewBox
  | .outline _ => w.element = "path" ∧ w.name = "d"
  | .measure _ | .points _ => True

section Placed

variable {root : Root} {w : Wanted} {element : String}

theorem wanted_passedSlots (name : String) (t? : Option Text) :
    (passedSlots name t?).filterMap (Slot.wanted? element) = [] := by
  cases t? <;> rfl

theorem eq_of_mem_evaluatedSlots {name : String} {target? : Option Target}
    (h : w ∈ (evaluatedSlots name target?).filterMap (Slot.wanted? element)) :
    ∃ target, target? = some target ∧ w = ⟨element, name, target⟩ := by
  cases target? with
  | none => cases h
  | some target => exact ⟨target, rfl, List.mem_singleton.1 h⟩

/-- Attributes in their places are placed if each of them is, as what it is made of. -/
theorem placed_targetSlots {own : List (String × Option Target)}
    (hown : ∀ a ∈ own, ∀ target ∈ a.2, Wanted.Placed root ⟨element, a.1, target⟩)
    (h : w ∈ (targetSlots own).filterMap (Slot.wanted? element)) : w.Placed root := by
  obtain ⟨slot, hslot, hw⟩ := List.mem_filterMap.1 h
  obtain ⟨a, ha, hslot⟩ := List.mem_flatMap.1 hslot
  obtain ⟨target, htarget, rfl⟩ :=
    eq_of_mem_evaluatedSlots (List.mem_filterMap.2 ⟨slot, hslot, hw⟩)
  exact hown a ha target htarget

theorem placed_measured {name : String} {q? : Option Quantity} :
    ∀ target ∈ (measured name q?).2,
      Wanted.Placed root ⟨element, (measured name q?).1, target⟩ := by
  intro target htarget
  obtain ⟨q, -, rfl⟩ := Option.map_eq_some_iff.1 htarget
  trivial

theorem placed_listed {α : Type} {name : String} {make : List α → Target} {l : List α}
    (h : Wanted.Placed root ⟨element, name, make l⟩) :
    ∀ target ∈ (listed name make l).2,
      Wanted.Placed root ⟨element, (listed name make l).1, target⟩ := by
  intro target htarget
  rw [listed, Option.mem_def] at htarget
  split at htarget <;> cases htarget
  exact h

theorem placed_styleSlots {p : Presentation}
    (h : w ∈ p.styleSlots.filterMap (Slot.wanted? element)) : w.Placed root := by
  simp only [Presentation.styleSlots, List.filterMap_append, wanted_passedSlots, List.nil_append,
    List.append_nil] at h
  refine placed_targetSlots ?_ h
  simp only [List.forall_mem_cons]
  exact ⟨placed_measured, placed_measured, List.forall_mem_nil _⟩

theorem placed_own (e : Element) :
    ∀ a ∈ e.plan.own, ∀ target ∈ a.2, Wanted.Placed root ⟨e.plan.tag, a.1, target⟩ := by
  cases e with
  | polygon common l => exact List.forall_mem_singleton.2 (placed_listed trivial)
  | polyline common l => exact List.forall_mem_singleton.2 (placed_listed trivial)
  | path common l => exact List.forall_mem_singleton.2 (placed_listed ⟨rfl, rfl⟩)
  | group common children => exact List.forall_mem_nil _
  | _ =>
    simp only [Element.plan, List.forall_mem_cons]
    and_intros
    all_goals first | exact placed_measured | exact List.forall_mem_nil _

theorem placed_plan {e : Element} (h : w ∈ e.plan.wanted) : w.Placed root := by
  simp only [Plan.wanted, Plan.slots, Presentation.identitySlots, List.filterMap_append,
    wanted_passedSlots, List.nil_append] at h
  exact (List.mem_append.1 h).elim (placed_targetSlots (placed_own e)) placed_styleSlots

mutual

theorem placed_wanted {e : Element} (h : w ∈ e.wanted) : w.Placed root := by
  match e with
  | .group common children =>
    rw [Element.wanted] at h
    exact (List.mem_append.1 h).elim placed_plan placed_wantedEach
  | .rect .. | .circle .. | .ellipse .. | .line .. | .polygon .. | .polyline .. | .path ..
  | .text .. => exact placed_plan h

theorem placed_wantedEach {elements : List Element} (h : w ∈ Element.wantedEach elements) :
    w.Placed root := by
  match elements with
  | [] => cases h
  | e :: rest =>
    rw [Element.wantedEach] at h
    exact (List.mem_append.1 h).elim placed_wanted placed_wantedEach

end

theorem placed_documentWanted {document : Document} (h : w ∈ document.wanted) :
    w.Placed document.root := by
  simp only [Document.wanted, Root.wantedFirst, Root.wantedLater, Root.laterSlots,
    List.filterMap_append, List.mem_append] at h
  rcases h with h | (h | h) | h
  · obtain ⟨target, htarget, rfl⟩ := eq_of_mem_evaluatedSlots h
    obtain ⟨viewBox, hviewBox, rfl⟩ := Option.map_eq_some_iff.1 htarget
    exact ⟨rfl, rfl, hviewBox⟩
  · refine placed_targetSlots ?_ h
    simp only [List.forall_mem_cons]
    exact ⟨placed_measured, placed_measured, List.forall_mem_nil _⟩
  · exact placed_styleSlots h
  · exact placed_wantedEach h

end Placed

/-! ## Rendering -/

section Render

variable (document : Document) (options : RenderOptions)

/-- Lenient rendering ends with a tree that depicts the document, and strict rendering with the same
or with the first error. -/
theorem exists_render :
    ∃ node, DepictsRoot document.root (document.outcomes options.eval) node ∧
      (render document { options with strict := false }).1 = .ok ⟨node.print options.indent?,
        (document.outcomes options.eval).filterMap AttributeOutcome.diagnostic?⟩ ∧
      (render document { options with strict := true }).1 =
        match (document.outcomes options.eval).findSome? AttributeOutcome.error? with
        | none => .ok ⟨node.print options.indent?, []⟩
        | some e => .error e := by
  obtain ⟨node, s, hbuilds, hdepicts⟩ := exists_builds_document document options.eval
  have hlenient := hbuilds.lenient options.indent? []
  have hstrict := hbuilds.strict options.indent? []
  refine ⟨node, hdepicts, ?_, ?_⟩
  · rw [render, hlenient]
    rfl
  · rw [render]
    revert hstrict
    cases (document.outcomes options.eval).findSome? AttributeOutcome.error? with
    | none =>
      intro hstrict
      rw [hstrict]
    | some e =>
      intro hstrict
      rcases hrun : (buildDocument document ⟨options.eval, true, options.indent?⟩).run {} with
        ⟨e' | node', s'⟩
      · rw [hrun] at hstrict
        exact congrArg Except.error (Except.error.inj hstrict)
      · rw [hrun] at hstrict
        cases hstrict

/-- **Nothing is lost, doubled or moved between a document and its tree.**  The tree that is built
in lenient mode depicts the document: it has a node for each element, with its attributes in their
places; and lenient rendering ends with its markup.  The outcomes are those of the evaluated
attributes of the document in their order.  Each of them either is written in the tree, with the
text of all its numbers, or is missing there and has its diagnostic, for the first of its demands
that could not be met; and there are no other diagnostics. -/
theorem render_lenient :
    ∃ node s last,
      (buildDocument document { options with strict := false }).run {} = (.ok node, s) ∧
      DepictsRoot document.root (document.outcomes options.eval) node ∧
      (render document { options with strict := false }).1 = .ok ⟨node.print options.indent?,
        (document.outcomes options.eval).filterMap AttributeOutcome.diagnostic?⟩ ∧
      (document.outcomes options.eval).map AttributeOutcome.toWanted = document.wanted ∧
      AccountedEach document.vars options.eval (document.outcomesFirst options.eval) {}
        (document.sessionFirst options.eval) ∧
      AccountedEach (document.figureVars options.eval) options.eval
        (document.outcomesLater options.eval) (document.sessionFirst options.eval) last := by
  obtain ⟨node, s, hbuilds, hdepicts⟩ := exists_builds_document document options.eval
  have hlenient := hbuilds.lenient options.indent? []
  refine ⟨node, _, _, hlenient, hdepicts, ?_, document.map_toWanted_documentOutcomes options.eval,
    accountedEach_outcomes _ _, accountedEach_outcomes _ _⟩
  rw [render, hlenient]
  rfl

/-- What strict rendering fails for says where it happened and why, with the message of lenient
rendering.  That is the message of the error itself for a view box of another length than four, and
that of the error's cause for the first segment of a path that is none and for an equation without a
value. -/
def AttributeError.Explains (root : Root) (target : Target) (message : String)
    (e : AttributeError) : Prop :=
  match e.fault with
  | .viewBoxLength found => e.element = "svg" ∧ e.name = "viewBox" ∧ e.message = message ∧
    ∃ viewBox, root.viewBox? = some viewBox ∧ viewBox.quantities.length = found ∧ found ≠ 4
  | .segment index cause => e.element = "path" ∧ e.name = "d" ∧ cause.message = message ∧
    ∃ segments, target = .outline segments ∧ OffendsAt segments index cause
  | .equation cause => cause.message = message

theorem explains_of_error? {o : AttributeOutcome} (ho : o ∈ document.outcomes options.eval)
    {e : AttributeError} (he : o.error? = some e) :
    e.Explains document.root o.target e.diagnostic.message := by
  have hplaced : o.toWanted.Placed document.root := placed_documentWanted
    (document.map_toWanted_documentOutcomes options.eval ▸ List.mem_map_of_mem ho)
  have hsettle : ∃ vars s, ((settle vars options.eval o.target.demands).run s).1 = o.answer :=
    (List.mem_append.1 ho).elim (fun h => ⟨_, exists_answer_of_mem_outcomes h⟩)
      fun h => ⟨_, exists_answer_of_mem_outcomes h⟩
  obtain ⟨vars, s, hanswer⟩ := hsettle
  rw [AttributeOutcome.error?] at he
  split at he
  · cases he
  · rename_i fault hfault
    cases he
    have hrun : (settle vars options.eval o.target.demands).run s =
        (.error fault, ((settle vars options.eval o.target.demands).run s).2) :=
      Prod.ext (hanswer.trans hfault) rfl
    have h := fault_of_run_settle hrun
    cases fault with
    | equation cause => exact rfl
    | viewBoxLength found =>
      obtain ⟨viewBox, htarget, hlength, hne⟩ := h
      rw [Wanted.Placed, htarget] at hplaced
      exact ⟨hplaced.1, hplaced.2.1, rfl, viewBox, hplaced.2.2, hlength, hne⟩
    | segment index cause =>
      obtain ⟨segments, htarget, hoffends⟩ := h
      rw [Wanted.Placed, htarget] at hplaced
      exact ⟨hplaced.1, hplaced.2, rfl, segments, htarget, hoffends⟩

/-- **Strict rendering agrees with lenient rendering.**  Lenient rendering never fails.  Strict
rendering succeeds exactly if nothing is reported, and then with the same figure.  Else it fails
with the error of the first diagnostic: that of the first attribute that cannot be evaluated, with
the same element and name, and with what is wrong there. -/
theorem render_strict :
    ∃ rendered, (render document { options with strict := false }).1 = .ok rendered ∧
      ((∃ r, (render document { options with strict := true }).1 = .ok r) ↔
        rendered.diagnostics = []) ∧
      (rendered.diagnostics = [] →
        (render document { options with strict := true }).1 = .ok rendered) ∧
      ∀ d ∈ rendered.diagnostics.head?, ∃ e before o after,
        (render document { options with strict := true }).1 = .error e ∧
        document.outcomes options.eval = before ++ o :: after ∧
        (∀ earlier ∈ before, earlier.error? = none) ∧ o.error? = some e ∧
        e.element = d.element ∧ e.name = d.name ∧
        e.Explains document.root o.target d.message := by
  obtain ⟨node, -, hlenient, hstrict⟩ := exists_render document options
  refine ⟨_, hlenient, ?_⟩
  cases hfirst : (document.outcomes options.eval).findSome? AttributeOutcome.error? with
  | none =>
    have hnone : (document.outcomes options.eval).filterMap AttributeOutcome.diagnostic? = [] := by
      refine List.filterMap_eq_nil_iff.2 fun o ho => ?_
      rw [AttributeOutcome.diagnostic?, List.findSome?_eq_none_iff.1 hfirst o ho]
      rfl
    rw [hfirst] at hstrict
    rw [hnone]
    exact ⟨iff_of_true ⟨_, hstrict⟩ rfl, fun _ => hstrict, fun _ hd => by cases hd⟩
  | some e =>
    obtain ⟨before, o, after, heq, ho, hbefore⟩ := List.findSome?_eq_some_iff.1 hfirst
    have hskip : before.filterMap AttributeOutcome.diagnostic? = [] := by
      refine List.filterMap_eq_nil_iff.2 fun o ho => ?_
      rw [AttributeOutcome.diagnostic?, hbefore o ho]
      rfl
    have hsome : (document.outcomes options.eval).filterMap AttributeOutcome.diagnostic? =
        e.diagnostic :: after.filterMap AttributeOutcome.diagnostic? := by
      rw [heq, List.filterMap_append, hskip, List.nil_append,
        List.filterMap_cons_some (by rw [AttributeOutcome.diagnostic?, ho]; rfl)]
    have hmem : o ∈ document.outcomes options.eval :=
      heq ▸ List.mem_append_right _ List.mem_cons_self
    rw [hfirst] at hstrict
    rw [hsome]
    refine ⟨iff_of_false ?_ (List.cons_ne_nil _ _), fun h => absurd h (List.cons_ne_nil _ _), ?_⟩
    · rintro ⟨r, hr⟩
      rw [hstrict] at hr
      cases hr
    · intro d hd
      cases hd
      exact ⟨e, before, o, after, hstrict, heq, hbefore, ho, rfl, rfl,
        explains_of_error? document options hmem ho⟩

end Render

/-! ## Reading figures back -/

section Reading

/-- A figure in either mode is the markup of a tree that depicts the document. -/
theorem exists_depicts_of_render {document : Document} {options : RenderOptions}
    {rendered : Rendered} (h : (render document options).1 = .ok rendered) :
    ∃ node, DepictsRoot document.root (document.outcomes options.eval) node ∧
      rendered.markup = node.print options.indent? := by
  obtain ⟨node, hdepicts, hlenient, hstrict⟩ := exists_render document options
  refine ⟨node, hdepicts, ?_⟩
  obtain ⟨eval, strict, indent?⟩ := options
  cases strict with
  | false =>
    rw [hlenient] at h
    cases h
    rfl
  | true =>
    rw [hstrict] at h
    split at h
    · cases h
      rfl
    · cases h

/-- **Markup is read back, whatever texts are in it.**  That is so for every tree with proper names
in which a text is not mixed with elements, on one line or indented; and it is so for every figure,
whose markup is that of a tree which depicts the document. -/
theorem markup_read_back :
    (∀ node : Node, node.WellFormed → ∀ indent?, Node.read? (node.print indent?) = some node) ∧
    ∀ document options rendered, (render document options).1 = .ok rendered →
      ∃ node, DepictsRoot document.root (document.outcomes options.eval) node ∧ node.WellFormed ∧
        rendered.markup = node.print options.indent? ∧
        Node.read? rendered.markup = some node := by
  refine ⟨Svg.read?_print, fun document options rendered h => ?_⟩
  obtain ⟨node, hdepicts, hmarkup⟩ := exists_depicts_of_render h
  exact ⟨node, hdepicts, hdepicts.wellFormed, hmarkup,
    hmarkup ▸ Svg.read?_print node hdepicts.wellFormed options.indent?⟩

/-- A value that looks like the end of its tag, a text that looks like layout, an empty text and no
text are told apart. -/
theorem markup_read_back_hostile :
    let node := Node.element "svg" [("a:b", "\"/><g c='&lt;'>".toList)] none
      [.element "text" [] (some "\n  ".toList) [], .element "text" [] (some []) [],
        .element "g" [] none []]
    node.WellFormed ∧ Node.read? (node.print (some 2)) = some node := by
  have hleaf : ∀ tag text?, Svg.isMarkupName tag = true →
      (Node.element tag [] text? []).WellFormed := fun tag text? htag =>
    .mk htag (fun _ h => absurd h List.not_mem_nil) (.inr rfl)
      (fun _ h => absurd h List.not_mem_nil)
  have h : (Node.element "svg" [("a:b", "\"/><g c='&lt;'>".toList)] none
      [.element "text" [] (some "\n  ".toList) [], .element "text" [] (some []) [],
        .element "g" [] none []]).WellFormed := by
    refine .mk (by decide) ?_ (.inl rfl) ?_
    · exact List.forall_mem_singleton.2 (by decide)
    · exact List.forall_mem_cons.2 ⟨hleaf _ _ (by decide), List.forall_mem_cons.2
        ⟨hleaf _ _ (by decide), List.forall_mem_singleton.2 (hleaf _ _ (by decide))⟩⟩
  exact ⟨h, markup_read_back.1 _ h (some 2)⟩

end Reading

end EquationFigure
