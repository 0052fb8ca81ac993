import EquationFigure.Proofs.Figure.Depiction
import EquationFigure.Proofs.Figure.Settling

/-!
# Building is working out and writing down

What the builder does for a document comes apart in two: working out the evaluated attributes one
after the other, which knows nothing of trees, and writing them down, which evaluates nothing.  The
mode decides only what is done about the first fault.

* `Builds` — what is built in both modes, when certain outcomes are met on the way; `Builds.bind` is
  the law for doing one thing after another.
* `Builder.fill`, `Builder.attributes_eq` — the attributes of an element are those in its places.
* `exists_builds_element` — **every element is built from the outcomes of its attributes**.
* `exists_builds_root`, `exists_builds_document` — so is the figure, and the whole document.
-/

set_option autoImplicit false

namespace EquationFigure

open Svg (Attribute Node)

/-! ## Building in both modes -/

theorem Builder.run_evaluated? {α : Type} (b : Builder) (element name : String)
    (x : Attempt Session Fault α) (s : BuildState) :
    (b.evaluated? element name x).run s =
      match x.run s.session with
      | (.ok a, session) => (.ok (some a), { s with session })
      | (.error fault, session) =>
        (b.skip ⟨element, name, fault⟩ >>= fun _ => pure none).run { s with session } := by
  rcases hx : x.run s.session with ⟨fault | a, session⟩ <;>
    simp [evaluated?, outcome, Attempt.run_bind, hx]

/-- The work, in the session `s`, meets the outcomes on its way to `a` and the session `s'`.  When
it is lenient, each fault leaves its diagnostic; when it is strict, the first one ends the work. -/
structure Builds {α : Type} (options : EvalOptions) (x : RenderOptions → BuildM α) (s : Session)
    (met : List AttributeOutcome) (a : α) (s' : Session) : Prop where
  /-- Lenient work ends with `a` and the diagnostics. -/
  lenient : ∀ indent? diagnostics, (x ⟨options, false, indent?⟩).run ⟨s, diagnostics⟩ =
    (.ok a, ⟨s', diagnostics ++ met.filterMap AttributeOutcome.diagnostic?⟩)
  /-- Strict work does the same if there is no fault, and else ends with the first. -/
  strict : ∀ indent? diagnostics,
    match met.findSome? AttributeOutcome.error? with
    | none => (x ⟨options, true, indent?⟩).run ⟨s, diagnostics⟩ = (.ok a, ⟨s', diagnostics⟩)
    | some e => ((x ⟨options, true, indent?⟩).run ⟨s, diagnostics⟩).1 = .error e

section Builds

variable {α β : Type} {options : EvalOptions} {x : RenderOptions → BuildM α} {s s₁ s₂ : Session}

theorem builds_pure (a : α) : Builds options (fun _ => pure a) s [] a s :=
  ⟨fun _ _ => by simp, fun _ _ => rfl⟩

theorem Builds.bind {f : α → RenderOptions → BuildM β} {met more : List AttributeOutcome} {a : α}
    {b : β} (hx : Builds options x s met a s₁) (hf : Builds options (f a) s₁ more b s₂) :
    Builds options (fun o => x o >>= fun a => f a o) s (met ++ more) b s₂ := by
  constructor
  · intro indent? diagnostics
    rw [Attempt.run_bind_of_ok (hx.lenient indent? diagnostics), hf.lenient, List.filterMap_append,
      List.append_assoc]
  · intro indent? diagnostics
    have hx := hx.strict indent? diagnostics
    rw [List.findSome?_append]
    revert hx
    cases met.findSome? AttributeOutcome.error? with
    | none =>
      intro hx
      have hf := hf.strict indent? diagnostics
      revert hf
      cases more.findSome? AttributeOutcome.error? with
      | none => exact fun hf => (Attempt.run_bind_of_ok hx _).trans hf
      | some e => exact fun hf => (congrArg Prod.fst (Attempt.run_bind_of_ok hx _)).trans hf
    | some e =>
      intro hx
      exact congrArg Prod.fst (Attempt.run_bind_of_error (Prod.ext hx rfl) _)

theorem Builds.map (g : α → β) {met : List AttributeOutcome} {a : α}
    (hx : Builds options x s met a s₁) :
    Builds options (fun o => g <$> x o) s met (g a) s₁ := by
  have h := hx.bind (f := fun a _ => pure (g a)) (builds_pure (g a))
  simpa only [List.append_nil, bind_pure_comp] using h

/-- **What is done about a fault is the only thing that depends on the mode.**  Here the work of an
attribute comes to what the attribute asks for, and `k` makes a value of the numbers. -/
theorem builds_evaluated? {vars : Variables} (w : Wanted)
    {y : RenderOptions → Attempt Session Fault α} {k : List Float → Option α}
    (hy : ∀ strict indent?, some <$> y ⟨options, strict, indent?⟩ =
      k <$> settle vars options w.target.demands) (s : Session) :
    Builds options (fun o => (Builder.mk vars o).evaluated? w.element w.name (y o)) s
      [(w.workOut vars options s).1] ((w.workOut vars options s).1.answer.toOption.bind k)
      (w.workOut vars options s).2 := by
  rw [Wanted.workOut]
  rcases hsettle : (settle vars options w.target.demands).run s with ⟨fault | numbers, s₁⟩
  · have hout : ∀ strict indent?, (y ⟨options, strict, indent?⟩).run s = (.error fault, s₁) :=
      fun strict indent? => Attempt.run_eq_error_of_map (hy strict indent?) hsettle
    constructor
    · intro indent? diagnostics
      rw [Builder.run_evaluated?, hout]
      rfl
    · intro indent? diagnostics
      rw [Builder.run_evaluated?, hout]
      rfl
  · have hout : ∀ strict indent?, ∃ a, k numbers = some a ∧
        (y ⟨options, strict, indent?⟩).run s = (.ok a, s₁) :=
      fun strict indent? => Attempt.exists_run_eq_ok_of_map (hy strict indent?) hsettle
    constructor
    · intro indent? diagnostics
      obtain ⟨a, hk, hout⟩ := hout false indent?
      rw [Builder.run_evaluated?, hout]
      simp [Except.toOption, hk, AttributeOutcome.diagnostic?, AttributeOutcome.error?]
    · intro indent? diagnostics
      obtain ⟨a, hk, hout⟩ := hout true indent?
      simp [Builder.run_evaluated?, hout, Except.toOption, hk, AttributeOutcome.error?]

theorem Builder.attributeOf_eq (b : Builder) (element name : String)
    (x : Attempt Session Fault Text) : b.attributeOf element name x =
      (fun t? : Option Text => (t?.map fun t => (name, t)).toList) <$>
        b.evaluated? element name x := by
  rw [map_eq_pure_bind, attributeOf]
  refine bind_congr fun t? => ?_
  cases t? <;> rfl

/-- An evaluated attribute is written with its text, or not at all. -/
theorem builds_attributeOf {vars : Variables} (w : Wanted) (s : Session) :
    Builds options (fun o => (Builder.mk vars o).attributeOf w.element w.name
        (w.target.evaluation vars o.eval)) s
      [(w.workOut vars options s).1] (w.workOut vars options s).1.attribute?.toList
      (w.workOut vars options s).2 := by
  have heval : some <$> w.target.evaluation vars options =
      (fun numbers => some (w.target.text numbers)) <$> settle vars options w.target.demands := by
    simp [Target.evaluation]
  have h := (builds_evaluated? (y := fun o => w.target.evaluation vars o.eval) w
    (fun _ _ => heval) s).map
    fun t? : Option Text => (t?.map fun t => (w.name, t)).toList
  have hresult : (w.workOut vars options s).1.attribute?.toList =
      ((((w.workOut vars options s).1.answer.toOption.bind fun numbers =>
        some (w.target.text numbers)).map fun t => (w.name, t)).toList : List Attribute) := by
    rw [AttributeOutcome.attribute?, toWanted_workOut]
    cases (w.workOut vars options s).1.answer <;> rfl
  rw [hresult]
  simpa only [Builder.attributeOf_eq] using h

end Builds

/-! ## The attributes of a tag -/

namespace Element

theorem tag_eq (e : Element) : e.tag = e.plan.tag := by cases e <;> rfl

theorem common_eq (e : Element) : e.common = e.plan.common := by cases e <;> rfl

end Element

namespace Builder

variable {b : Builder} {element : String}

/-- The attributes in a place. -/
def slot (b : Builder) (element : String) : Slot → BuildM (List Attribute)
  | .passed name t => return [(name, t)]
  | .evaluated name target =>
    b.attributeOf element name (target.evaluation b.vars b.options.eval)

/-- The attributes in places, one after the other. -/
def fill (b : Builder) (element : String) : List Slot → BuildM (List Attribute)
  | [] => return []
  | slot :: rest => do
    let first ← b.slot element slot
    return first ++ (← b.fill element rest)

theorem fill_append (first rest : List Slot) :
    b.fill element (first ++ rest) = do
      let attributes ← b.fill element first
      return attributes ++ (← b.fill element rest) := by
  induction first with
  | nil => simp [fill]
  | cons slot first ih =>
    simp only [List.cons_append, fill, ih, bind_assoc, pure_bind, List.append_assoc]

theorem fill_passedSlots (name : String) (t? : Option Text) :
    b.fill element (passedSlots name t?) = pure (passOn name t?) := by
  cases t? <;> simp [passedSlots, fill, slot, passOn]

theorem fill_evaluatedSlots_some (name : String) (target : Target) :
    b.fill element (evaluatedSlots name (some target)) =
      b.attributeOf element name (target.evaluation b.vars b.options.eval) := by
  simp [evaluatedSlots, fill, slot]

theorem fill_targetSlots_singleton (a : String × Option Target) :
    b.fill element (targetSlots [a]) = b.fill element (evaluatedSlots a.1 a.2) := by
  rw [targetSlots, List.flatMap_singleton]

theorem measure_eq (name : String) (q? : Option Quantity) :
    b.measure element name q? = b.fill element (evaluatedSlots name (q?.map .measure)) := by
  cases q? with
  | none => rfl
  | some q => rw [Option.map_some, fill_evaluatedSlots_some, measure, quantityText_eq]

theorem measures_eq (measures : List (String × Option Quantity)) :
    b.measures element measures =
      b.fill element (targetSlots (measures.map fun m => measured m.1 m.2)) := by
  induction measures with
  | nil => rfl
  | cons m rest ih =>
    rw [Builder.measures, List.map_cons, targetSlots, List.flatMap_cons, fill_append, measure_eq,
      ih, targetSlots]
    rfl

theorem fill_identitySlots (p : Presentation) :
    b.fill element p.identitySlots = pure (identity p) := by
  simp [Presentation.identitySlots, fill_append, fill_passedSlots, identity]

theorem style_eq (p : Presentation) : b.style element p = b.fill element p.styleSlots := by
  have hmeasures := @measures_eq b element
    [("stroke-width", p.strokeWidth?), ("opacity", p.opacity?)]
  simp only [List.map_cons, List.map_nil] at hmeasures
  simp [Presentation.styleSlots, fill_append, fill_passedSlots, ← hmeasures, style,
    Builder.measures]

theorem points_eq_fill (l : List Point) :
    b.points element l = b.fill element (targetSlots [listed "points" .points l]) := by
  rw [fill_targetSlots_singleton]
  cases l with
  | nil => rfl
  | cons point rest => exact (congrArg _ (points_eq _)).trans (fill_evaluatedSlots_some _ _).symm

theorem outline_eq_fill (l : List Segment) :
    b.outline element l = b.fill element (targetSlots [listed "d" .outline l]) := by
  rw [fill_targetSlots_singleton]
  cases l with
  | nil => rfl
  | cons segment rest =>
    exact (congrArg _ (outline_eq _)).trans (fill_evaluatedSlots_some _ _).symm

theorem ownAttributes_eq (e : Element) :
    b.ownAttributes e = b.fill e.plan.tag (targetSlots e.plan.own) := by
  cases e with
  | polygon common l => exact points_eq_fill l
  | polyline common l => exact points_eq_fill l
  | path common l => exact outline_eq_fill l
  | _ => exact measures_eq _

/-- **The attributes of an element are those in its places, in order.** -/
theorem attributes_eq (e : Element) : b.attributes e = b.fill e.plan.tag e.plan.slots := by
  simp [attributes, Plan.slots, fill_append, fill_identitySlots, ownAttributes_eq, style_eq,
    e.tag_eq, e.common_eq]

end Builder

/-! ## Elements -/

section Elements

variable (vars : Variables) (options : EvalOptions)

theorem exists_builds_fill (element : String) (slots : List Slot) (s : Session) :
    ∃ attributes,
      Builds options (fun o => (Builder.mk vars o).fill element slots) s
        (outcomes vars options s (slots.filterMap (Slot.wanted? element))) attributes
        (sessionPast vars options s (slots.filterMap (Slot.wanted? element))) ∧
      Writes element slots (outcomes vars options s (slots.filterMap (Slot.wanted? element)))
        attributes := by
  induction slots generalizing s with
  | nil => exact ⟨[], builds_pure [], .nil⟩
  | cons slot rest ih =>
    cases slot with
    | passed name t =>
      obtain ⟨attributes, hbuilds, hwrites⟩ := ih s
      exact ⟨(name, t) :: attributes, (builds_pure [(name, t)]).bind
        (f := fun a o => (a ++ ·) <$> (Builder.mk vars o).fill element rest) (hbuilds.map _),
        hwrites.passed name t⟩
    | evaluated name target =>
      let w : Wanted := ⟨element, name, target⟩
      have hw : (w.workOut vars options s).1.toWanted = w := toWanted_workOut w s
      obtain ⟨attributes, hbuilds, hwrites⟩ := ih (w.workOut vars options s).2
      refine ⟨_, (builds_attributeOf w s).bind
        (f := fun a o => (a ++ ·) <$> (Builder.mk vars o).fill element rest) (hbuilds.map _), ?_⟩
      have h := hwrites.evaluated _ (congrArg Wanted.element hw)
      rwa [congrArg Wanted.name hw, congrArg Wanted.target hw] at h

theorem exists_builds_attributes (e : Element) (s : Session) :
    ∃ attributes,
      Builds options (fun o => (Builder.mk vars o).attributes e) s
        (outcomes vars options s e.plan.wanted) attributes
        (sessionPast vars options s e.plan.wanted) ∧
      Tagged e.plan.tag e.plan.names e.plan.slots (outcomes vars options s e.plan.wanted)
        attributes := by
  obtain ⟨attributes, hbuilds, hwrites⟩ :=
    exists_builds_fill vars options e.plan.tag e.plan.slots s
  refine ⟨attributes, ?_, hwrites.tagged e.plan.names_slots e.nodup_names⟩
  simpa only [Builder.attributes_eq, Plan.wanted] using hbuilds

/-- An element with no elements in it. -/
theorem exists_builds_leaf {e : Element} (hchildren : e.plan.children = []) (s : Session) :
    ∃ node,
      Builds options (fun o => do
          let attributes ← (Builder.mk vars o).attributes e
          return Node.element e.plan.tag attributes e.plan.content? []) s
        (outcomes vars options s e.plan.wanted) node (sessionPast vars options s e.plan.wanted) ∧
      Depicts e (outcomes vars options s e.plan.wanted) node := by
  obtain ⟨attributes, hbuilds, htagged⟩ := exists_builds_attributes vars options e s
  refine ⟨.element e.plan.tag attributes e.plan.content? [], hbuilds.map _, ?_⟩
  have h := Depicts.mk htagged (hchildren ▸ DepictsEach.nil)
  rwa [List.append_nil] at h

mutual

/-- **An element is built from the outcomes of its evaluated attributes**, one after the other, in
both modes. -/
theorem exists_builds_element (e : Element) (s : Session) :
    ∃ node,
      Builds options (fun o => (Builder.mk vars o).element e) s
        (outcomes vars options s e.wanted) node (sessionPast vars options s e.wanted) ∧
      Depicts e (outcomes vars options s e.wanted) node := by
  match e with
  | .group common children =>
    obtain ⟨attributes, hbuilds, htagged⟩ :=
      exists_builds_attributes vars options (.group common children) s
    obtain ⟨nodes, hbuilds', hdepicts⟩ := exists_builds_elements children
      (sessionPast vars options s (Element.plan (.group common children)).wanted)
    refine ⟨.element "g" attributes none nodes, ?_, ?_⟩
    · rw [Element.wanted, outcomes_append, sessionPast_append]
      exact hbuilds.bind (f := fun a o => Node.element "g" a none <$>
        (Builder.mk vars o).elements children) (hbuilds'.map _)
    · rw [Element.wanted, outcomes_append]
      exact .mk htagged hdepicts
  | .rect .. | .circle .. | .ellipse .. | .line .. | .polygon .. | .polyline .. | .path ..
  | .text .. => exact exists_builds_leaf vars options rfl s

/-- Elements one after the other are built from the outcomes of theirs. -/
theorem exists_builds_elements (elements : List Element) (s : Session) :
    ∃ nodes,
      Builds options (fun o => (Builder.mk vars o).elements elements) s
        (outcomes vars options s (Element.wantedEach elements)) nodes
        (sessionPast vars options s (Element.wantedEach elements)) ∧
      DepictsEach elements (outcomes vars options s (Element.wantedEach elements)) nodes := by
  match elements with
  | [] => exact ⟨[], builds_pure [], .nil⟩
  | e :: rest =>
    obtain ⟨node, hbuilds, hdepicts⟩ := exists_builds_element e s
    obtain ⟨nodes, hbuilds', hdepicts'⟩ := exists_builds_elements rest
      (sessionPast vars options s e.wanted)
    refine ⟨node :: nodes, ?_, ?_⟩
    · rw [Element.wantedEach, outcomes_append, sessionPast_append]
      exact hbuilds.bind (f := fun a o => List.cons a <$> (Builder.mk vars o).elements rest)
        (hbuilds'.map _)
    · rw [Element.wantedEach, outcomes_append]
      exact .cons hdepicts hdepicts'

end

end Elements

/-! ## Documents -/

section Documents

variable (document : Document) (options : EvalOptions)

/-- A view box that has all its numbers has four, and is written like its frame. -/
theorem attribute?_viewBox {vars : Variables} {options : EvalOptions} {viewBox : ViewBox}
    {s : Session} {o : AttributeOutcome}
    (ho : o = (Wanted.workOut vars options ⟨"svg", "viewBox", .viewBox viewBox⟩ s).1) :
    o.attribute? = o.frame?.map fun frame => ("viewBox", frame.text) := by
  rw [ho, Wanted.workOut]
  rcases hrun : (settle vars options (Target.viewBox viewBox).demands).run s with
    ⟨fault | numbers, s₁⟩
  · rfl
  · have hfour : numbers.length = 4 := by
      rw [Target.demands, ViewBox.fault?] at hrun
      split at hrun
      · rename_i hlength
        exact (length_of_settle_numbers hrun).trans hlength
      · cases hrun
    obtain ⟨x, y, width, height, rfl⟩ := List.length_eq_four.1 hfour
    rfl

theorem builds_frame? :
    Builds options (fun o => Builder.frame? ⟨document.vars, o⟩ document.root.viewBox?) {}
      (document.outcomesFirst options) (document.frame? options)
      (document.sessionFirst options) := by
  rw [Document.frame?, Document.outcomesFirst, Document.sessionFirst, Root.wantedFirst,
    Root.viewBoxSlots]
  cases document.root.viewBox? with
  | none => exact builds_pure none
  | some viewBox =>
    have hframe : ∀ o : AttributeOutcome,
        [o].findSome? AttributeOutcome.frame? = o.answer.toOption.bind frameOf? := by
      intro o
      rw [List.findSome?_singleton, AttributeOutcome.frame?]
      cases o.answer <;> rfl
    have h := builds_evaluated? ⟨"svg", "viewBox", .viewBox viewBox⟩
      (y := fun o => Builder.frame ⟨document.vars, o⟩ viewBox)
      (fun strict indent? => Builder.map_some_frame (b := ⟨document.vars, options, strict, indent?⟩)
        viewBox) {}
    rw [← hframe] at h
    exact h

/-- The place of the view box is filled like the others, though its frame is known before. -/
theorem writes_viewBox : Writes "svg" document.root.viewBoxSlots (document.outcomesFirst options)
    (Builder.passOn "viewBox" ((document.frame? options).map Frame.text)) := by
  rw [Document.frame?, Document.outcomesFirst, Root.wantedFirst, Root.viewBoxSlots]
  cases document.root.viewBox? with
  | none => exact .nil
  | some viewBox =>
    let w : Wanted := ⟨"svg", "viewBox", .viewBox viewBox⟩
    have hw : (w.workOut document.vars options {}).1.toWanted = w := toWanted_workOut w {}
    have h := Writes.evaluated _ (congrArg Wanted.element hw) .nil
    rw [congrArg Wanted.name hw, congrArg Wanted.target hw, List.append_nil,
      attribute?_viewBox rfl] at h
    change Writes "svg" _ _ (Builder.passOn "viewBox"
      (([(w.workOut document.vars options {}).1].findSome? AttributeOutcome.frame?).map Frame.text))
    rw [List.findSome?_singleton]
    cases hframe : (w.workOut document.vars options {}).1.frame? <;> rw [hframe] at h <;> exact h

/-- The tree of a figure from its attributes behind the view box and its elements. -/
def Root.node (root : Root) (frame? : Option Frame) (later : List Attribute)
    (children : List Node) : Node :=
  .element "svg" (("xmlns", Svg.namespaceUri) :: Builder.identity root.common ++
    Builder.passOn "viewBox" (frame?.map Frame.text) ++ later) none children

theorem root_eq (b : Builder) (root : Root) (frame? : Option Frame) :
    b.root root frame? = do
      let later ← b.fill "svg" root.laterSlots
      let children ← b.elements root.children
      return root.node frame? later children := by
  simp [Builder.root, Root.node, Root.laterSlots, Builder.fill_append, Builder.measures_eq,
    Builder.style_eq]

/-- A figure is built from the outcomes of its attributes behind the view box. -/
theorem exists_builds_root (vars : Variables) (options : EvalOptions) {root : Root}
    {frame? : Option Frame} {first : List AttributeOutcome}
    (hfirst : Writes "svg" root.viewBoxSlots first
      (Builder.passOn "viewBox" (frame?.map Frame.text))) (s : Session) :
    ∃ node,
      Builds options (fun o => Builder.root ⟨vars, o⟩ root frame?) s
        (outcomes vars options s root.wantedLater) node
        (sessionPast vars options s root.wantedLater) ∧
      DepictsRoot root (first ++ outcomes vars options s root.wantedLater) node := by
  obtain ⟨attributes, hbuilds, hwrites⟩ := exists_builds_fill vars options "svg" root.laterSlots s
  obtain ⟨nodes, hbuilds', hdepicts⟩ := exists_builds_elements vars options root.children
    (sessionPast vars options s (root.laterSlots.filterMap (Slot.wanted? "svg")))
  refine ⟨root.node frame? attributes nodes, ?_, ?_⟩
  · rw [Root.wantedLater, outcomes_append, sessionPast_append]
    simp only [root_eq]
    exact hbuilds.bind (f := fun later o => root.node frame? later <$>
      (Builder.mk vars o).elements root.children) (hbuilds'.map _)
  · have hwrites := (((Writes.identity root.common).passed "xmlns" Svg.namespaceUri).append
      hfirst).append hwrites
    rw [Root.wantedLater, outcomes_append, ← List.append_assoc]
    exact .mk (hwrites.tagged root.names_slots nodup_rootNames) hdepicts

/-- A name that a table does not have comes in at the end. -/
theorem Table.entries_insert_of_notMem {α : Type} {table : Table α} {name : Text}
    (h : name ∉ table.names) (value : α) :
    (table.insert name value).entries = table.entries ++ [(name, value)] := by
  obtain ⟨entries⟩ := table
  change put name value entries = entries ++ [(name, value)]
  induction entries with
  | nil => rfl
  | cons entry rest ih =>
    obtain ⟨hne, hrest⟩ := not_or.1 (mt List.mem_cons.2 h)
    rw [put, if_neg (Ne.symm hne), ih hrest, List.cons_append]

/-- A number comes in behind the entries, unless its name is there. -/
theorem entries_addNumber (vars : Variables) (name : Text) (x : Float) :
    (vars.addNumber name x).entries =
      vars.entries ++ if (vars.get? name).isNone then [(name, .ofNumber x)] else [] := by
  rw [Variables.addNumber]
  cases h : vars.get? name with
  | none => exact Table.entries_insert_of_notMem (Table.get?_eq_none_iff.1 h) _
  | some _ => exact (List.append_nil _).symm

theorem get?_addNumber_of_ne (vars : Variables) {name other : Text} (h : other ≠ name) (x : Float) :
    (vars.addNumber name x).get? other = vars.get? other := by
  rw [Variables.addNumber]
  split
  · rfl
  · exact Table.get?_insert_of_ne vars h _

/-- The variables of the figure are the declared ones with those of the frame. -/
theorem figureVars_eq :
    document.figureVars options = document.vars.withFrame (document.frame? options) := by
  rw [Document.figureVars]
  cases document.frame? options with
  | none => rfl
  | some f =>
    have hne : viewBoxHeightName ≠ viewBoxWidthName := by decide
    refine congrArg Table.mk (Eq.symm ?_)
    change ((document.vars.addNumber viewBoxWidthName f.width).addNumber viewBoxHeightName
      f.height).entries = _
    rw [entries_addNumber, entries_addNumber, get?_addNumber_of_ne _ hne, List.append_assoc]
    refine congrArg (document.vars.entries ++ ·) ?_
    rw [viewBoxWidthName, viewBoxHeightName, List.filter_cons, List.filter_cons, List.filter_nil]
    split <;> split <;> rfl

/-- **A document is built from the outcomes of its evaluated attributes**, in both modes. -/
theorem exists_builds_document :
    ∃ node s,
      Builds options (buildDocument document) {} (document.outcomes options) node s ∧
      DepictsRoot document.root (document.outcomes options) node := by
  obtain ⟨node, hbuilds, hdepicts⟩ := exists_builds_root (document.figureVars options) options
    (writes_viewBox document options) (document.sessionFirst options)
  have hroot : Builds options (fun o => Builder.root
      ⟨document.vars.withFrame (document.frame? options), o⟩ document.root
        (document.frame? options)) (document.sessionFirst options)
      (document.outcomesLater options) node (sessionPast (document.figureVars options) options
        (document.sessionFirst options) document.root.wantedLater) := by
    rw [← figureVars_eq]
    exact hbuilds
  exact ⟨node, _, (builds_frame? document options).bind
    (f := fun frame? o => Builder.root ⟨document.vars.withFrame frame?, o⟩ document.root frame?)
    hroot, hdepicts⟩

end Documents

end EquationFigure
