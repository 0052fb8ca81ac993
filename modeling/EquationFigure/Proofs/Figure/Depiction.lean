import EquationFigure.Proofs.Figure.Outcomes
import EquationFigure.Proofs.Svg.Reading

/-!
# Trees that depict documents

Which tree is written for a document is a matter of the outcomes of its evaluated attributes alone.
Each element has a node, with its attributes in their places; an evaluated attribute is written
there if it has all its numbers, and not at all if it has not.

* `Writes`, `Tagged` — the attributes of a tag; `Writes.filter_name` says that each evaluated
  attribute is written once or not at all.
* `Depicts`, `DepictsRoot` — the tree of an element, and of a figure.
* `DepictsRoot.unique` — **the outcomes settle the tree**.
* `DepictsRoot.wellFormed` — the tree has proper names, and its texts are not mixed with elements.
-/

set_option autoImplicit false

namespace EquationFigure

open Svg (Attribute Node)

/-! ## What is written for outcomes -/

/-- The attributes written in places for the outcomes of those that are evaluated. -/
inductive Writes (element : String) : List Slot → List AttributeOutcome → List Attribute → Prop
  | nil : Writes element [] [] []
  | passed {slots : List Slot} {met : List AttributeOutcome} {attributes : List Attribute}
      (name : String) (t : Text) : Writes element slots met attributes →
      Writes element (.passed name t :: slots) met ((name, t) :: attributes)
  | evaluated {slots : List Slot} {met : List AttributeOutcome} {attributes : List Attribute}
      (o : AttributeOutcome) : o.element = element → Writes element slots met attributes →
      Writes element (.evaluated o.name o.target :: slots) (o :: met)
        (o.attribute?.toList ++ attributes)

namespace Writes

variable {element : String} {slots : List Slot} {met : List AttributeOutcome}
  {attributes : List Attribute}

theorem append {slots' : List Slot} {met' : List AttributeOutcome} {attributes' : List Attribute}
    (h : Writes element slots met attributes) (h' : Writes element slots' met' attributes') :
    Writes element (slots ++ slots') (met ++ met') (attributes ++ attributes') := by
  induction h with
  | nil => exact h'
  | passed name t _ ih => exact ih.passed name t
  | evaluated o ho _ ih =>
    rw [List.append_assoc]
    exact ih.evaluated o ho

theorem passOn (name : String) (t? : Option Text) :
    Writes element (passedSlots name t?) [] (Builder.passOn name t?) := by
  cases t? with
  | none => exact .nil
  | some t => exact .passed name t .nil

theorem identity (p : Presentation) : Writes element p.identitySlots [] (Builder.identity p) :=
  (passOn "id" p.id?).append (passOn "class" p.class?)

/-- An attribute of an evaluated place has the name of the place. -/
theorem name_eq_of_attribute? {o : AttributeOutcome} {a : Attribute} (h : o.attribute? = some a) :
    a.1 = o.name := by
  rw [AttributeOutcome.attribute?] at h
  split at h <;> cases h
  rfl

/-- What is written has the names of the places. -/
theorem names (h : Writes element slots met attributes) :
    (attributes.map Prod.fst).Sublist (slots.map Slot.name) := by
  induction h with
  | nil => exact List.Sublist.refl _
  | passed name t _ ih => exact ih.cons_cons name
  | evaluated o _ _ ih =>
    rw [List.map_append]
    cases ho : o.attribute? with
    | none => exact ih.cons _
    | some a =>
      simp only [Option.toList_some, List.map_cons, List.map_nil, List.singleton_append,
        name_eq_of_attribute? ho]
      exact ih.cons_cons _

/-- An outcome is one of a place. -/
theorem name_mem (h : Writes element slots met attributes) {o : AttributeOutcome} (ho : o ∈ met) :
    o.name ∈ slots.map Slot.name := by
  induction h with
  | nil => cases ho
  | passed name t _ ih => exact List.mem_cons_of_mem _ (ih ho)
  | evaluated o' _ _ ih =>
    rcases List.mem_cons.1 ho with rfl | ho
    · exact List.mem_cons_self
    · exact List.mem_cons_of_mem _ (ih ho)

/-- **Each evaluated attribute is written once, with its whole text, or not at all.** -/
theorem filter_name (h : Writes element slots met attributes)
    (hnodup : (slots.map Slot.name).Nodup) {o : AttributeOutcome} (ho : o ∈ met) :
    attributes.filter (fun a => a.1 = o.name) = o.attribute?.toList := by
  induction h with
  | nil => cases ho
  | passed name t h ih =>
    obtain ⟨hname, hnodup⟩ := List.nodup_cons.1 hnodup
    have hne : name ≠ o.name := fun heq => hname (heq ▸ h.name_mem ho)
    rw [List.filter_cons_of_neg (by simpa using hne), ih hnodup ho]
  | @evaluated slots met attributes o' ho' h ih =>
    obtain ⟨hname, hnodup⟩ := List.nodup_cons.1 hnodup
    rw [List.filter_append]
    rcases List.mem_cons.1 ho with rfl | ho
    · have hrest : attributes.filter (fun a => a.1 = o.name) = [] := by
        refine List.filter_eq_nil_iff.2 fun a ha heq => hname ?_
        rw [decide_eq_true_eq] at heq
        exact h.names.subset (heq ▸ List.mem_map_of_mem ha)
      rw [hrest, List.append_nil, List.filter_eq_self]
      intro a ha
      exact decide_eq_true (name_eq_of_attribute? (Option.mem_toList.1 ha))
    · have hfirst : o'.attribute?.toList.filter (fun a => a.1 = o.name) = [] := by
        refine List.filter_eq_nil_iff.2 fun a ha heq => hname ?_
        rw [decide_eq_true_eq, name_eq_of_attribute? (Option.mem_toList.1 ha)] at heq
        exact heq ▸ h.name_mem ho
      rw [hfirst, List.nil_append, ih hnodup ho]

end Writes

/-- The attributes of a tag, of which `names` are those that there may be. -/
structure Tagged (element : String) (names : List String) (slots : List Slot)
    (met : List AttributeOutcome) (attributes : List Attribute) : Prop where
  /-- They are written in their places, those that pass a text on with the text. -/
  writes : Writes element slots met attributes
  /-- They are in the order of the names. -/
  ordered : (attributes.map Prod.fst).Sublist names
  /-- No two have one name. -/
  nodup : (attributes.map Prod.fst).Nodup
  /-- Each that is evaluated is there once, with its whole text, or not at all. -/
  carries : ∀ o ∈ met, attributes.filter (fun a => a.1 = o.name) = o.attribute?.toList

theorem Writes.tagged {element : String} {names : List String} {slots : List Slot}
    {met : List AttributeOutcome} {attributes : List Attribute}
    (h : Writes element slots met attributes)
    (hnames : (slots.map Slot.name).Sublist names) (hnodup : names.Nodup) :
    Tagged element names slots met attributes where
  writes := h
  ordered := h.names.trans hnames
  nodup := (h.names.trans hnames).nodup hnodup
  carries := fun _ => h.filter_name (hnames.nodup hnodup)

mutual

/-- The tree of an element, written for the outcomes of its evaluated attributes and then of those
of the elements in it. -/
inductive Depicts : Element → List AttributeOutcome → Node → Prop
  | mk {e : Element} {met below : List AttributeOutcome} {attributes : List Attribute}
      {children : List Node} :
      Tagged e.plan.tag e.plan.names e.plan.slots met attributes →
      DepictsEach e.plan.children below children →
      Depicts e (met ++ below) (.element e.plan.tag attributes e.plan.content? children)

/-- The trees of elements one after the other. -/
inductive DepictsEach : List Element → List AttributeOutcome → List Node → Prop
  | nil : DepictsEach [] [] []
  | cons {e : Element} {rest : List Element} {met more : List AttributeOutcome} {node : Node}
      {nodes : List Node} : Depicts e met node → DepictsEach rest more nodes →
      DepictsEach (e :: rest) (met ++ more) (node :: nodes)

end

/-- The tree of a figure, written for the outcomes of its evaluated attributes and then of those of
its elements. -/
inductive DepictsRoot (root : Root) : List AttributeOutcome → Node → Prop
  | mk {met below : List AttributeOutcome} {attributes : List Attribute} {children : List Node} :
      Tagged "svg" rootNames root.slots met attributes →
      DepictsEach root.children below children →
      DepictsRoot root (met ++ below) (.element "svg" attributes none children)

/-! ## One tree for one list of outcomes -/

section Unique

variable {element : String}

/-- Where outcomes go is settled by the places. -/
theorem Writes.unique {slots : List Slot} {met met' rest rest' : List AttributeOutcome}
    {attributes attributes' : List Attribute} (h : Writes element slots met attributes)
    (h' : Writes element slots met' attributes') (heq : met ++ rest = met' ++ rest') :
    met = met' ∧ attributes = attributes' ∧ rest = rest' := by
  induction h generalizing met' attributes' with
  | nil =>
    cases h'
    exact ⟨rfl, rfl, heq⟩
  | passed name t _ ih =>
    cases h' with
    | passed _ _ h' =>
      obtain ⟨rfl, rfl, rfl⟩ := ih h' heq
      exact ⟨rfl, rfl, rfl⟩
  | evaluated o _ _ ih =>
    generalize hslot : Slot.evaluated o.name o.target = slot at h'
    cases h' with
    | passed => cases hslot
    | evaluated o' _ h' =>
      obtain ⟨rfl, hrest⟩ := List.cons.inj heq
      obtain ⟨rfl, rfl, rfl⟩ := ih h' hrest
      exact ⟨rfl, rfl, rfl⟩

mutual

theorem Depicts.unique {e : Element} {met met' rest rest' : List AttributeOutcome}
    {node node' : Node} (h : Depicts e met node) (h' : Depicts e met' node')
    (heq : met ++ rest = met' ++ rest') : node = node' ∧ rest = rest' := by
  match h, h' with
  | .mk htagged hchildren, .mk htagged' hchildren' =>
    rw [List.append_assoc, List.append_assoc] at heq
    obtain ⟨rfl, rfl, heq⟩ := htagged.writes.unique htagged'.writes heq
    obtain ⟨rfl, rfl⟩ := hchildren.unique hchildren' heq
    exact ⟨rfl, rfl⟩

theorem DepictsEach.unique {elements : List Element} {met met' rest rest' : List AttributeOutcome}
    {nodes nodes' : List Node} (h : DepictsEach elements met nodes)
    (h' : DepictsEach elements met' nodes') (heq : met ++ rest = met' ++ rest') :
    nodes = nodes' ∧ rest = rest' := by
  match h, h' with
  | .nil, .nil => exact ⟨rfl, heq⟩
  | .cons hfirst hrest, .cons hfirst' hrest' =>
    rw [List.append_assoc, List.append_assoc] at heq
    obtain ⟨rfl, heq⟩ := hfirst.unique hfirst' heq
    obtain ⟨rfl, rfl⟩ := hrest.unique hrest' heq
    exact ⟨rfl, rfl⟩

end

/-- **The outcomes settle the tree.** -/
theorem DepictsRoot.unique {root : Root} {met : List AttributeOutcome} {node node' : Node}
    (h : DepictsRoot root met node) (h' : DepictsRoot root met node') : node = node' := by
  obtain @⟨own, below, attributes, children, htagged, hchildren⟩ := h
  generalize heq : own ++ below = met at h'
  obtain @⟨own', below', attributes', children', htagged', hchildren'⟩ := h'
  obtain ⟨rfl, rfl, hrest⟩ := htagged.writes.unique htagged'.writes heq
  obtain ⟨rfl, -⟩ := hchildren.unique hchildren' (congrArg (· ++ []) hrest)
  rfl

end Unique

/-! ## Names and texts -/

section WellFormed

theorem isMarkupName_tag (e : Element) : Svg.isMarkupName e.plan.tag = true := by
  cases e <;> simp only [Element.plan] <;> decide

theorem isMarkupName_of_mem_names {e : Element} {name : String} (h : name ∈ e.plan.names) :
    Svg.isMarkupName name = true := by
  have hall : e.plan.names.all Svg.isMarkupName = true := by
    cases e <;> simp only [Plan.names, Element.plan, List.map, measured, listed] <;> decide
  exact List.all_eq_true.1 hall name h

theorem isMarkupName_of_mem_rootNames {name : String} (h : name ∈ rootNames) :
    Svg.isMarkupName name = true :=
  List.all_eq_true.1 (by decide : rootNames.all Svg.isMarkupName = true) name h

theorem Tagged.isMarkupName {element : String} {names : List String} {slots : List Slot}
    {met : List AttributeOutcome} {attributes : List Attribute}
    (h : Tagged element names slots met attributes)
    (hnames : ∀ name ∈ names, Svg.isMarkupName name = true) :
    ∀ a ∈ attributes, Svg.isMarkupName a.1 = true :=
  fun _ ha => hnames _ (h.ordered.subset (List.mem_map_of_mem ha))

/-- An element with a text has no elements in it. -/
theorem Element.content?_eq_none_or (e : Element) :
    e.plan.content? = none ∨ e.plan.children = [] := by
  cases e with
  | text => exact .inr rfl
  | _ => exact .inl rfl

mutual

theorem Depicts.wellFormed {e : Element} {met : List AttributeOutcome} {node : Node}
    (h : Depicts e met node) : node.WellFormed := by
  match h with
  | .mk (e := e) htagged hchildren =>
    refine .mk (isMarkupName_tag e) (htagged.isMarkupName fun _ => isMarkupName_of_mem_names) ?_
      hchildren.wellFormed
    refine e.content?_eq_none_or.imp_right fun hnil => ?_
    rw [hnil] at hchildren
    cases hchildren
    rfl

theorem DepictsEach.wellFormed {elements : List Element} {met : List AttributeOutcome}
    {nodes : List Node} (h : DepictsEach elements met nodes) : ∀ node ∈ nodes, node.WellFormed := by
  match h with
  | .nil => exact fun _ hmem => absurd hmem List.not_mem_nil
  | .cons hfirst hrest => exact List.forall_mem_cons.2 ⟨hfirst.wellFormed, hrest.wellFormed⟩

end

theorem DepictsRoot.wellFormed {root : Root} {met : List AttributeOutcome} {node : Node}
    (h : DepictsRoot root met node) : node.WellFormed := by
  cases h with
  | mk htagged hchildren =>
    exact .mk (by decide) (htagged.isMarkupName fun _ => isMarkupName_of_mem_rootNames) (.inl rfl)
      hchildren.wellFormed

end WellFormed

end EquationFigure
