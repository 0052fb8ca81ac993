import EquationFigure.Figure.Reading
import EquationFigure.Proofs.Figure.Understanding
import EquationFigure.Proofs.Figure.Writable

/-!
# Documents are read as they were written

Every document can be written in its shape.  However it is written there, with its fields in any
order, with white space and escapes as one likes and its numbers spelled in any way, it is read back
as it was: nothing that it says is lost and nothing is taken for something else.  Only so deep may
it be nested as readers allow.

* `reads_element`, `reads_root`, `reads_declarations` — the parts of a document.
* `reads_document` — a document in its shape.
* `read_of_shape` — **every document can be written, and what is written is read back**.
-/

set_option autoImplicit false

namespace EquationFigure

open Json Json.Reader Reading

/-! ## Elements -/

section Elements

variable {e : Element} {v : Tree} {fields : List (Text × Tree)}

theorem reads_kind {t : Text} {kind : ElementKind}
    (h : ElementKind.ofJsonOrPlace (.string t) = .ok kind) :
    Reads Reading.kind (.string t) kind := by
  refine reads_byKind_simple trivial (List.forall_mem_nil _) ?_
  change interpreted (ElementKind.ofJsonOrPlace (.string t)) = _
  rw [h]
  rfl

/-- A field of an element is taken up as its value is, if the kind is said by a string. -/
theorem takesField_elementField {kinded kinded' : Kinded} {field : Text × Tree}
    (hreadable : field.2.Readable) (hdepth : field.2.depth ≤ elementLevels)
    (hstring : field.1 = Kinded.kindName → ∃ t, field.2 = .string t)
    (h : kinded.take (valueOfField field) = .ok kinded') :
    TakesField (elementField kinded field.1) field.2 kinded' := by
  obtain ⟨name, v⟩ := field
  rw [valueOfField, Kinded.take] at h
  rw [elementField]
  dsimp only at h hstring hreadable hdepth ⊢
  split at h
  · rename_i hname
    obtain ⟨t, rfl⟩ := hstring hname
    rw [if_pos hname]
    cases hnew : kinded.checkNew with
    | error m =>
      rw [hnew] at h
      cases h
    | ok =>
      rw [hnew] at h
      cases hkind : ElementKind.ofJsonOrPlace (Tree.string t).value with
      | error m =>
        rw [hkind] at h
        cases h
      | ok kind =>
        rw [hkind] at h
        cases h
        exact (reads_kind hkind).takesField.bind rfl
  · rename_i hname
    cases h
    rw [if_neg hname]
    exact (reads_value hdepth hreadable).takesField.bind rfl

/-- **An element is read as it was written.** -/
theorem reads_element (h : ObjectShape e.contents v) (hdepth : v.depth ≤ elementLevels + 1) :
    Reads element v e := by
  have hreadable := h.readable
  obtain ⟨fields, rfl, hfields⟩ := h.exists_holds e.distinct_contents
  have hlevels : ∀ field ∈ fields, field.2.depth ≤ elementLevels := fun field hfield =>
    Nat.le_trans (depth_le_of_mem_fields hfield) (Nat.le_of_succ_le_succ hdepth)
  obtain ⟨others, hfold, hothers, hsub⟩ := Element.foldlM_take hfields
  have htakes : TakesUp elementField {} fields ⟨some e.kind, others.map valueOfField⟩ := by
    refine takesUp_of_foldlM ?_ hfold
    rintro ⟨name, v⟩ hfield kinded kinded' hstep
    refine takesField_elementField (readable_object_iff.1 hreadable _ hfield) (hlevels _ hfield)
      ?_ hstep
    rintro rfl
    -- A kind in the text is a string; a number for it would be read only within a value.
    have htype : ("type", Part.text (some e.tag.toList)) ∈ e.contents := List.mem_cons_self
    rw [kindName_eq] at hfield
    have hshape := hfields.shape e.distinct_contents htype hfield
    cases hshape
    exact ⟨_, rfl⟩
  have hinside : ∀ field ∈ others, field.2.depth ≤ nestingLimit := fun field hfield =>
    (hlevels field (hsub hfield)).trans (by decide)
  have helement : Kinded.toElement (Element.ofJson nestingLimit)
      ⟨some e.kind, others.map valueOfField⟩ = .ok e :=
    Element.toElement_eq (fun e v hv hlt => Element.ofJson_eq hv hlt.le) hothers hinside
  refine reads_byKind_object ((readsHere_object htakes).bind ?_)
  rw [helement]
  rfl

theorem reads_elements {l : List Element} {items : List Tree}
    (h : List.Forall₂ (fun e v => ObjectShape e.contents v) l items)
    (hdepth : (Tree.array items).depth ≤ elementLevels + 2) :
    Reads elements (.array items) l := by
  refine reads_byKind_array (readsHere_list (List.Forall₂.flip ?_))
  refine List.forall₂_iff_zip.2 ⟨h.length_eq, fun {e v} hmem => ?_⟩
  have hitem := depth_le_of_mem_items (List.of_mem_zip hmem).2
  exact reads_element (List.forall₂_zip h hmem)
    (hitem.trans (Nat.le_of_succ_le_succ hdepth))

end Elements

/-! ## The figure -/

section Root

variable {root : Root} {v : Tree}

/-- All fields of the figure that no element has, with its elements among them. -/
def Root.schema : Schema :=
  rootSchema ++ [("children", PartReader.list .elements (Element.ofJson nestingLimit))]

theorem childrenName_eq : childrenName = "children".toList := by decide

theorem Root.distinct_contents (root : Root) : root.contents.Distinct := by
  simp [Contents.Distinct, contents, ownContents, Presentation.contents]

theorem PartReader.understands_viewBox {levels : Nat} (viewBox? : Option ViewBox) :
    PartReader.Understands (fun v => .viewBox <$> optional ViewBox.ofJson v) levels
      (.viewBox viewBox?) := by
  intro v h _
  cases h with
  | viewBox hviewBox =>
    have hread := ViewBox.ofJson_eq hviewBox
    dsimp only
    rw [optional]
    · rw [hread]
      rfl
    · intro hnull
      rw [hnull] at hread
      cases hread

theorem Root.fits_schema (root : Root) : Root.schema.Fits nestingLimit root.ownContents :=
  .cons ⟨rfl, PartReader.understands_viewBox _⟩ <|
    .cons ⟨rfl, PartReader.understands_quantity _⟩ <|
    .cons ⟨rfl, PartReader.understands_quantity _⟩ <|
    .cons ⟨rfl, PartReader.understands_elements
      (fun _ _ hv hlt => Element.ofJson_eq hv hlt.le) _⟩ .nil

theorem Root.schema_reader?_children :
    Root.schema.reader? childrenName =
      some (PartReader.list .elements (Element.ofJson nestingLimit)) := by
  rw [childrenName_eq]
  rfl

theorem Root.schema_reader?_of_ne {name : Text} (h : name ≠ childrenName) :
    Root.schema.reader? name = rootSchema.reader? name := by
  rw [childrenName_eq] at h
  rw [schema, Schema.reader?, Schema.reader?, List.find?_append, List.find?_cons_of_neg,
    List.find?_nil, Option.or_none]
  rw [decide_eq_true_eq]
  exact fun heq => h heq.symm

/-- A field of the schema that is taken up is new, and its value is understood. -/
theorem Schema.exists_part_of_take {schema : Schema} {parts parts' : Parts} {field : Text × Value}
    {read : PartReader} (hreader : schema.reader? field.1 = some read)
    (h : schema.take parts field = .ok parts') :
    parts.checkNew field.1 = .ok () ∧
      ∃ part, read field.2 = .ok part ∧ parts' = parts.add field.1 part := by
  rw [Schema.take, hreader] at h
  dsimp only at h
  cases hnew : parts.checkNew field.1 with
  | error m =>
    rw [hnew] at h
    cases h
  | ok =>
    cases hread : read field.2 with
    | error m =>
      rw [hnew, hread] at h
      cases h
    | ok part =>
      rw [hnew, hread] at h
      cases h
      exact ⟨rfl, part, rfl, rfl⟩

/-- A field of the figure is taken up as its value is, if the elements are read from their list. -/
theorem takesField_rootField {parts parts' : Parts} {name : Text} {v : Tree}
    (hreadable : v.Readable) (hdepth : v.depth ≤ rootLevels)
    (hchildren : name = childrenName → ∃ l, Part.Shape (.elements l) v)
    (h : Root.schema.take parts (name, v.value) = .ok parts') :
    TakesField (rootField parts name) v parts' := by
  have hvalue := reads_value hdepth hreadable
  rw [rootField]
  by_cases hname : name = childrenName
  · obtain ⟨l, hl⟩ := hchildren hname
    have helements : PartReader.list .elements (Element.ofJson nestingLimit) v.value =
        .ok (.elements l) :=
      PartReader.understands_elements (fun _ _ hv hlt => Element.ofJson_eq hv hlt.le) l v hl
        (hdepth.trans (by decide))
    -- The step on values and the reader for lists of elements come to the same elements.
    subst hname
    obtain ⟨hnew, part, hpart, rfl⟩ :=
      Schema.exists_part_of_take Root.schema_reader?_children h
    rw [helements] at hpart
    cases hpart
    rw [if_pos rfl, hnew]
    cases hl with
    | elements hitems => exact (reads_elements hitems hdepth).takesField.bind rfl
  · have hschema := Root.schema_reader?_of_ne hname
    rw [if_neg hname]
    cases hreader : rootSchema.reader? name with
    | none =>
      rw [Schema.take, hschema, hreader] at h
      cases h
      exact hvalue.takesField.bind rfl
    | some read =>
      rw [hreader] at hschema
      obtain ⟨hnew, part, hpart, rfl⟩ := Schema.exists_part_of_take hschema h
      dsimp only at hnew hpart ⊢
      rw [hnew]
      refine hvalue.takesField.bind ?_
      rw [hpart]
      rfl

/-- **The figure is read as it was written.** -/
theorem reads_root (h : ObjectShape root.contents v) (hdepth : v.depth ≤ rootLevels + 1) :
    Reads Reading.root v root := by
  have hreadable := h.readable
  obtain ⟨fields, rfl, hfields⟩ := h.exists_holds root.distinct_contents
  have hlevels : ∀ field ∈ fields, field.2.depth ≤ rootLevels := fun field hfield =>
    Nat.le_trans (depth_le_of_mem_fields hfield) (Nat.le_of_succ_le_succ hdepth)
  have hinside : ∀ field ∈ fields, field.2.depth ≤ nestingLimit := fun field hfield =>
    (hlevels field hfield).trans (by decide)
  obtain ⟨parts, others, hparts, hsays, hothers, hcommon⟩ :=
    root.fits_schema.exists_parts root.distinct_contents hfields hinside
  have htakes : TakesUp rootField {} fields parts := by
    refine takesUp_of_foldlM ?_ hparts
    rintro ⟨name, v⟩ hfield parts parts' hstep
    refine takesField_rootField (readable_object_iff.1 hreadable _ hfield) (hlevels _ hfield)
      ?_ hstep
    rintro rfl
    have hkey : ("children", Part.elements root.children) ∈ root.contents := by
      simp [Root.contents, Root.ownContents]
    rw [childrenName_eq] at hfield
    exact ⟨_, hfields.shape root.distinct_contents hkey hfield⟩
  have hroot : rootOfParts parts = .ok root := by
    simp only [Root.ownContents, List.forall_mem_cons] at hsays
    obtain ⟨hviewBox, hwidth, hheight, hchildren, -⟩ := hsays
    rw [rootOfParts, hothers, ← valuesOfFields_eq_map, Presentation.ofFields_eq hcommon]
    change Except.ok _ = _
    rw [hviewBox.viewBox?, hwidth.quantity?, hheight.quantity?, childrenName_eq,
      String.ofList_toList, hchildren.elements]
  refine reads_byKind_object ((readsHere_object htakes).bind ?_)
  rw [hroot]
  rfl

end Root

/-! ## Declarations -/

section Declarations

variable {table : Table Declaration} {v : Tree} {fields : List (Text × Tree)}

theorem Declaration.Shape.readable {d : Declaration} (h : d.Shape v) : v.Readable := by
  cases h with
  | bare hq => exact hq.readable
  | full hobject => exact hobject.readable

/-- Declarations with names of their own are all taken up, and others stay. -/
theorem exists_takesUp_declarationField (hdistinct : (fields.map Prod.fst).Nodup)
    (hdepth : ∀ field ∈ fields, field.2.depth ≤ equationLevels)
    (hshape : ∀ field ∈ fields, ∃ d, table.get? field.1 = some d ∧ d.Shape field.2)
    (before : Table Declaration) :
    ∃ table', TakesUp declarationField before fields table' ∧
      ∀ name, table'.get? name =
        if name ∈ fields.map Prod.fst then table.get? name else before.get? name := by
  induction fields generalizing before with
  | nil => exact ⟨before, .nil before, fun name => rfl⟩
  | cons field fields ih =>
    obtain ⟨hnew, hdistinct⟩ := List.nodup_cons.1 hdistinct
    obtain ⟨hfirst, hdepth⟩ := List.forall_mem_cons.1 hdepth
    obtain ⟨⟨d, hd, hvalue⟩, hshape⟩ := List.forall_mem_cons.1 hshape
    obtain ⟨table', htakes, hget⟩ := ih hdistinct hdepth hshape (before.insert field.1 d)
    have hfield : TakesField (declarationField before field.1) field.2
        (before.insert field.1 d) := by
      refine (reads_value hfirst hvalue.readable).takesField.bind ?_
      rw [Declaration.ofJson_eq hvalue]
      rfl
    refine ⟨table', .cons hfield htakes, fun name => ?_⟩
    rw [hget, List.map_cons]
    by_cases hname : name = field.1
    · subst hname
      rw [if_neg hnew, if_pos List.mem_cons_self, Table.get?_insert_self, hd]
    · rw [Table.get?_insert_of_ne _ hname]
      simp only [List.mem_cons, hname, false_or]

/-- **What is declared is read as it was written.** -/
theorem reads_declarations (h : DeclarationsShape table v) (hdepth : v.depth ≤ equationLevels + 1) :
    ∃ table', Reads declarations v table' ∧ ∀ name, table'.get? name = table.get? name := by
  cases h with
  | @mk fields hdistinct hshape hall =>
    have hlevels : ∀ field ∈ fields, field.2.depth ≤ equationLevels := fun field hfield =>
      Nat.le_trans (depth_le_of_mem_fields hfield) (Nat.le_of_succ_le_succ hdepth)
    obtain ⟨table', htakes, hget⟩ :=
      exists_takesUp_declarationField hdistinct hlevels hshape ∅
    refine ⟨table', reads_byKind_object (readsHere_object htakes), fun name => ?_⟩
    rw [hget]
    split
    · rfl
    · -- A name that is not written is not declared.
      rename_i hname
      exact (of_not_not fun hne => hname (hall name hne)).symm

end Declarations

/-! ## Documents -/

section Documents

variable {document : Document} {v : Tree} {fields : List (Text × Tree)} {isDefault : Prop}
  {shape : Tree → Prop}

theorem declarationsName_eq : declarationsName = "equations".toList := by decide

theorem rootName_eq : rootName = "svg".toList := by decide

theorem takesField_equations {table : Table Declaration} (root? : Option Root)
    (h : Reads declarations v table) :
    TakesField (documentField ⟨none, root?⟩ "equations".toList) v ⟨some table, root?⟩ := by
  rw [← declarationsName_eq, documentField, if_pos rfl]
  exact h.takesField.bind rfl

theorem takesField_svg {root : Root} (declarations? : Option (Table Declaration))
    (h : Reads Reading.root v root) :
    TakesField (documentField ⟨declarations?, none⟩ "svg".toList) v
      ⟨declarations?, some root⟩ := by
  rw [← rootName_eq, documentField, if_neg (by decide), if_pos rfl]
  exact h.takesField.bind rfl

/-- Two lists of at most one item each can only change places. -/
theorem eq_or_eq_of_perm_append {α : Type} {l l' m : List α} (hl : l.length ≤ 1)
    (hl' : l'.length ≤ 1) (h : (l ++ l').Perm m) : m = l ++ l' ∨ m = l' ++ l := by
  match l, l', hl, hl', h with
  | [], [], _, _, h => exact .inl (List.perm_nil.1 h.symm)
  | [], [b], _, _, h => exact .inl (List.perm_singleton.1 h.symm)
  | [a], [], _, _, h => exact .inl (List.perm_singleton.1 h.symm)
  | [a], [b], _, _, h =>
    have hmem : m ∈ [[a, b], [b, a]] := List.mem_permutations'.2 h.symm
    exact (List.mem_cons.1 hmem).imp_right List.mem_singleton.1

theorem SectionShape.length_le {name : String} (h : SectionShape name isDefault shape fields) :
    fields.length ≤ 1 := by
  cases h with
  | omitted => exact Nat.zero_le _
  | written => exact Nat.le_refl _

/-- The section of declarations is taken up, whether it is there or not. -/
theorem exists_takesUp_equations {table : Table Declaration}
    (h : SectionShape "equations" (∀ name, table.get? name = none) (DeclarationsShape table) fields)
    (hdepth : ∀ field ∈ fields, field.2.depth ≤ equationLevels + 1) :
    ∃ declarations? : Option (Table Declaration),
      (∀ root?, TakesUp documentField ⟨none, root?⟩ fields ⟨declarations?, root?⟩) ∧
      ∀ name, (declarations?.getD ∅).get? name = table.get? name := by
  cases h with
  | omitted hnone => exact ⟨none, fun root? => .nil _, fun name => (hnone name).symm⟩
  | written hv =>
    obtain ⟨table', hreads, hget⟩ := reads_declarations hv (hdepth _ List.mem_cons_self)
    exact ⟨some table', fun root? => .cons (takesField_equations root? hreads) (.nil _), hget⟩

/-- The section of the figure is taken up, whether it is there or not. -/
theorem exists_takesUp_svg {root : Root}
    (h : SectionShape "svg" (root = {}) (ObjectShape root.contents) fields)
    (hdepth : ∀ field ∈ fields, field.2.depth ≤ rootLevels + 1) :
    ∃ root? : Option Root,
      (∀ declarations?, TakesUp documentField ⟨declarations?, none⟩ fields
        ⟨declarations?, root?⟩) ∧ root?.getD {} = root := by
  cases h with
  | omitted hempty => exact ⟨none, fun declarations? => .nil _, hempty.symm⟩
  | written hv =>
    have hreads := reads_root hv (hdepth _ List.mem_cons_self)
    exact ⟨some root,
      fun declarations? => .cons (takesField_svg declarations? hreads) (.nil _), rfl⟩

/-- **A document is read as it was written.** -/
theorem reads_document (h : document.Shape v) (hdepth : v.depth ≤ nestingLimit) :
    ∃ document', Reads Reading.document v document' ∧
      (∀ name, document'.declarations.get? name = document.declarations.get? name) ∧
      document'.root = document.root := by
  cases h with
  | @mk equations svg fields hequations hsvg hperm =>
    have hlevels : ∀ field ∈ equations ++ svg, field.2.depth + 1 ≤ nestingLimit :=
      fun field hfield => (Nat.succ_le_succ (depth_le_of_mem_fields (hperm.mem_iff.1 hfield))).trans
        hdepth
    obtain ⟨hequationLevels, hsvgLevels⟩ := List.forall_mem_append.1 hlevels
    obtain ⟨declarations?, hdeclarations, hget⟩ := exists_takesUp_equations hequations
      fun field hfield => Nat.le_of_succ_le_succ (hequationLevels field hfield)
    obtain ⟨root?, hroot, hsame⟩ := exists_takesUp_svg hsvg
      fun field hfield => Nat.le_of_succ_le_succ (hsvgLevels field hfield)
    have htakes : TakesUp documentField {} fields ⟨declarations?, root?⟩ := by
      obtain rfl | rfl := eq_or_eq_of_perm_append hequations.length_le hsvg.length_le hperm
      · exact (hdeclarations none).append (hroot declarations?)
      · exact (hroot none).append (hdeclarations root?)
    exact ⟨_, reads_byKind_object ((readsHere_object htakes).map Sections.toDocument), hget, hsame⟩

end Documents

/-- **A document is read back as it was written.**  Every document whose numbers are finite can be
written in its shape, and a double may be written there as any number that denotes it and has at
most two thousand million decimals.  Whatever way of writing is taken, the text is read as a
document that declares the same under the same names, and describes the same figure. -/
theorem read_of_shape :
    (∀ document : Document, document.IsFinite → ∃ v t, document.Shape v ∧ v.Writes t) ∧
    (∀ (n : Number) (x : Float) (t : Text), n.Denotes x → n.Spells t →
      n.fraction.length ≤ 2000000000 → (Quantity.number x).Shape (.number n)) ∧
    ∀ (document : Document) (v : Tree), document.Shape v → v.depth ≤ nestingLimit →
      ∀ gap t gap' : Text, IsGap gap → v.Writes t → IsGap gap' →
        ∃ document', Document.read (gap ++ (t ++ gap')) = .ok document' ∧
          (∀ name, document'.declarations.get? name = document.declarations.get? name) ∧
          document'.root = document.root := by
  refine ⟨fun document => writable_document, fun n x t => shape_of_denotes, ?_⟩
  intro document v h hdepth gap t gap' hgap ht hgap'
  obtain ⟨document', hreads, hsame⟩ := reads_document h hdepth
  exact ⟨document', complete_of_reads hreads hgap hgap' ht, hsame⟩

/-! ### A document written in many ways at once -/

section Sample

/-- Two elements, the one within the other, and two declarations, one of them in full. -/
def sampleDocument : Document where
  declarations := ⟨[("w".toList, .bare (.number 10)),
    ([Char.ofNat 0x1F600], .full (some (.equation "w/2".toList)) true none)]⟩
  root :=
    { viewBox? := some (.values [.number (-0.0), .equation "w".toList])
      children := [.group { fill? := some ['r', 'e', 'd'] }
        [.circle {} none none (some (.number 2.5))]] }

/-- A circle whose radius is two and a half. -/
def sampleCircle : Tree :=
  .object [("r".toList, .number ⟨false, ['2', '5'], [], some ⟨true, ['1']⟩⟩),
    ("type".toList, .string "circle".toList)]

/-- The circle in a group. -/
def sampleGroup : Tree :=
  .object [("children".toList, .array [sampleCircle]), ("fill".toList, .string ['r', 'e', 'd']),
    ("type".toList, .string "g".toList)]

/-- The figure, with a negative zero. -/
def sampleFigure : Tree :=
  .object [("children".toList, .array [sampleGroup]),
    ("viewBox".toList, .array [.number ⟨true, ['0'], ['0'], none⟩, .string "w".toList])]

/-- The declarations, in full the second one. -/
def sampleDeclarations : Tree :=
  .object [("w".toList, .number ⟨false, ['1'], ['0'], some ⟨false, ['1']⟩⟩),
    ([Char.ofNat 0x1F600],
      .object [("disabled".toList, .bool true), ("value".toList, .string "w/2".toList)])]

/-- The document with its figure first. -/
def sampleTree : Tree :=
  .object [("svg".toList, sampleFigure), ("equations".toList, sampleDeclarations)]

/-- The document written with exponents, a pair of surrogates and other escapes. -/
def sampleText : Text :=
  objectText [
    ("svg".toList, objectText [
      ("children".toList, arrayText [
        objectText [
          ("children".toList, arrayText [
            objectText [("r".toList, "25e-1".toList),
              ("type".toList, quotedText "circle".toList)]]),
          ("fill".toList, quotedText ('\\' :: 'u' :: (['0', '0', '7', '2'] ++ ['e', 'd']))),
          ("type".toList, quotedText "g".toList)]]),
      ("viewBox".toList, arrayText ["-0.0".toList, quotedText "w".toList])]),
    ("equations".toList, objectText [
      ("w".toList, "1.0E+1".toList),
      ('\\' :: 'u' :: (['d', '8', '3', 'D'] ++ '\\' :: 'u' :: (['d', 'e', '0', '0'] ++ [])),
        objectText [("disabled".toList, ['t', 'r', 'u', 'e']),
          ("value".toList, quotedText ['w', '\\', '/', '2'])])])]

theorem denotes_sampleRadius : Number.Denotes ⟨false, ['2', '5'], [], some ⟨true, ['1']⟩⟩ 2.5 :=
  ⟨by decide +kernel, by decide +kernel, ⟨by decide +kernel, by decide +kernel, by decide +kernel⟩⟩

theorem spells_sampleRadius :
    Number.Spells ⟨false, ['2', '5'], [], some ⟨true, ['1']⟩⟩ "25e-1".toList := by
  have hradius : Number.Spells ⟨false, ['2', '5'], [], some ⟨true, ['1']⟩⟩ _ :=
    .mk (.positive (by decide) (by simp [AreDigits])) (List.forall_mem_nil _)
      (.some (.inl rfl) .minus (by decide) (by simp [AreDigits]))
  exact hradius

theorem shape_sampleCircle :
    ObjectShape (Element.circle {} none none (some (.number 2.5))).contents sampleCircle := by
  have hfits : Number.ExponentFits ⟨false, ['2', '5'], [], some ⟨true, ['1']⟩⟩ := by
    rintro e ⟨⟩ ⟨⟩
  exact .mk (.written .text <| .omitted rfl <| .omitted rfl <|
    .written (.quantity (.number denotes_sampleRadius hfits)) <| .of_isEmpty (by decide))
    (.swap _ _ _)

theorem shape_sampleFigure : ObjectShape sampleDocument.root.contents sampleFigure := by
  have hzero : Number.Denotes ⟨true, ['0'], ['0'], none⟩ (-0.0) :=
    ⟨by decide +kernel, by decide +kernel,
      ⟨by decide +kernel, by decide +kernel, by decide +kernel⟩⟩
  have hfits : Number.ExponentFits ⟨true, ['0'], ['0'], none⟩ := by
    rintro e ⟨⟩
  have hgroup : ObjectShape (Element.group { fill? := some ['r', 'e', 'd'] }
      [.circle {} none none (some (.number 2.5))]).contents sampleGroup :=
    .mk (.written .text <| .written (.elements (.cons shape_sampleCircle .nil)) <|
      .omitted rfl <| .omitted rfl <| .written .text <| .of_isEmpty (by decide))
      (List.perm_append_singleton _ _).symm
  exact .mk (.written (.viewBox (.values (.cons (.number hzero hfits) (.cons .equation .nil)))) <|
    .omitted rfl <| .omitted rfl <| .written (.elements (.cons hgroup .nil)) <|
    .of_isEmpty (by decide)) (.swap _ _ _)

theorem shape_sampleDeclarations :
    DeclarationsShape sampleDocument.declarations sampleDeclarations := by
  have hten : Number.Denotes ⟨false, ['1'], ['0'], some ⟨false, ['1']⟩⟩ 10 :=
    ⟨by decide +kernel, by decide +kernel,
      ⟨by decide +kernel, by decide +kernel, by decide +kernel⟩⟩
  have hfits : Number.ExponentFits ⟨false, ['1'], ['0'], some ⟨false, ['1']⟩⟩ := by
    rintro e ⟨⟩ - -
    decide
  have hfull : Declaration.Shape (.full (some (.equation "w/2".toList)) true none) _ :=
    .full (.mk (.written (.quantity .equation) <| .written .flag <| .omitted rfl .nil)
      (.swap _ _ _))
  refine .mk (by decide) ?_ fun name hname => ?_
  · exact List.forall_mem_cons.2 ⟨⟨_, rfl, .bare (.number hten hfits)⟩,
      List.forall_mem_singleton.2 ⟨_, rfl, hfull⟩⟩
  · exact of_not_not fun hother => hname (Table.get?_eq_none_iff.2 hother)

theorem shape_sampleTree : sampleDocument.Shape sampleTree :=
  .mk (.written shape_sampleDeclarations) (.written shape_sampleFigure) (.swap _ _ _)

theorem writes_sampleTree : sampleTree.Writes sampleText := by
  have hzero : Number.Spells ⟨true, ['0'], ['0'], none⟩ _ :=
    .mk .zero (by simp [AreDigits]) .none
  have hten : Number.Spells ⟨false, ['1'], ['0'], some ⟨false, ['1']⟩⟩ _ :=
    .mk (.positive (by decide) (by simp [AreDigits])) (by simp [AreDigits])
      (.some (.inr rfl) .plus (by decide) (by simp [AreDigits]))
  have hred : Quotes ['r', 'e', 'd'] ('\\' :: 'u' :: (['0', '0', '7', '2'] ++ ['e', 'd'])) :=
    .number (isHex_digits (by decide)) (quotes_self (by simp))
  have hhigh : IsHex (0xD800 + ((Char.ofNat 0x1F600).toNat - 0x10000) / 0x400)
      ['d', '8', '3', 'D'] :=
    .mk (by decide +kernel) (by decide +kernel) (by decide +kernel) (by decide +kernel)
  have hlow : IsHex (0xDC00 + ((Char.ofNat 0x1F600).toNat - 0x10000) % 0x400)
      ['d', 'e', '0', '0'] :=
    .mk (by decide +kernel) (by decide +kernel) (by decide +kernel) (by decide +kernel)
  have hface : Quotes [Char.ofNat 0x1F600] _ := .pair (by decide +kernel) hhigh hlow .nil
  have hhalf : Quotes ['w', '/', '2'] ['w', '\\', '/', '2'] :=
    .plain (by decide) (by decide) (by decide) <| .letter (by simp [escapeLetters]) <|
      quotes_self (by simp)
  have hcircle : sampleCircle.Writes _ :=
    writes_object <| .cons (.mk (quotes_self (by simp)) (.number spells_sampleRadius)) <|
      .cons (.mk (quotes_self (by simp)) (.string (quotes_self (by simp)))) .nil
  have hgroup : sampleGroup.Writes _ :=
    writes_object <| .cons (.mk (quotes_self (by simp)) (writes_array (.cons hcircle .nil))) <|
      .cons (.mk (quotes_self (by simp)) (.string hred)) <|
      .cons (.mk (quotes_self (by simp)) (.string (quotes_self (by simp)))) .nil
  have hviewBox : Tree.Writes (.array [.number _, .string "w".toList]) _ :=
    writes_array (.cons (.number hzero) (.cons (.string (quotes_self (by simp))) .nil))
  have hfigure : sampleFigure.Writes _ :=
    writes_object <| .cons (.mk (quotes_self (by simp)) (writes_array (.cons hgroup .nil))) <|
      .cons (.mk (quotes_self (by simp)) hviewBox) .nil
  have hfull : Tree.Writes
      (.object [("disabled".toList, .bool true), ("value".toList, .string _)]) _ :=
    writes_object <| .cons (.mk (quotes_self (by simp)) .yes) <|
      .cons (.mk (quotes_self (by simp)) (.string hhalf)) .nil
  have hdeclarations : sampleDeclarations.Writes _ :=
    writes_object <| .cons (.mk (quotes_self (by simp)) (.number hten)) <|
      .cons (.mk hface hfull) .nil
  have hsample : sampleTree.Writes _ :=
    writes_object <| .cons (.mk (quotes_self (by simp)) hfigure) <|
      .cons (.mk (quotes_self (by simp)) hdeclarations) .nil
  exact hsample

theorem isFinite_sampleDocument : sampleDocument.IsFinite := by
  have hradius : (Quantity.number 2.5).IsFinite := by decide +kernel
  have hzero : (Quantity.number (-0.0)).IsFinite := by decide +kernel
  have hten : (Quantity.number 10).IsFinite := by decide +kernel
  have hcircle : (Element.circle {} none none (some (.number 2.5))).IsFinite :=
    .mk (Contents.areFinite_iff.2 (List.forall_mem_singleton.2 hradius)) (List.forall_mem_nil _)
  have hgroup : (Element.group { fill? := some ['r', 'e', 'd'] }
      [.circle {} none none (some (.number 2.5))]).IsFinite :=
    .mk (Contents.areFinite_iff.2 (List.forall_mem_nil _)) (List.forall_mem_singleton.2 hcircle)
  refine ⟨fun name d hd => ?_, Contents.areFinite_iff.2 ?_, List.forall_mem_singleton.2 hgroup⟩
  · simp only [sampleDocument, Table.get?, Table.find?] at hd
    split at hd
    · cases hd
      exact hten
    · split at hd <;> cases hd
      exact Contents.areFinite_iff.2 (List.forall_mem_singleton.2 trivial)
  · exact List.forall_mem_cons.2 ⟨hzero, List.forall_mem_singleton.2 trivial⟩

/-- The document can be written, and what is written here, with a line break behind it, is read
back. -/
theorem read_sampleText :
    (sampleDocument.IsFinite ∧ ∃ v t, sampleDocument.Shape v ∧ v.Writes t) ∧
      (Number.Denotes ⟨false, ['2', '5'], [], some ⟨true, ['1']⟩⟩ 2.5 ∧
        Number.Spells ⟨false, ['2', '5'], [], some ⟨true, ['1']⟩⟩ "25e-1".toList ∧
        (Quantity.number 2.5).Shape (.number ⟨false, ['2', '5'], [], some ⟨true, ['1']⟩⟩)) ∧
      sampleDocument.Shape sampleTree ∧ sampleTree.depth ≤ nestingLimit ∧
      IsGap [] ∧ sampleTree.Writes sampleText ∧ IsGap ['\n'] ∧ ∃ document',
        Document.read ([] ++ (sampleText ++ ['\n'])) = .ok document' ∧
        (∀ name, document'.declarations.get? name = sampleDocument.declarations.get? name) ∧
        document'.root = sampleDocument.root := by
  have hgap : IsGap ['\n'] := by simp [IsGap]
  have hdepth : sampleTree.depth ≤ nestingLimit := by decide
  have hradius : (Quantity.number 2.5).Shape _ :=
    read_of_shape.2.1 _ _ _ denotes_sampleRadius spells_sampleRadius (Nat.zero_le _)
  exact ⟨⟨isFinite_sampleDocument, read_of_shape.1 _ isFinite_sampleDocument⟩,
    ⟨denotes_sampleRadius, spells_sampleRadius, hradius⟩,
    shape_sampleTree, hdepth, isGap_nil, writes_sampleTree, hgap,
    read_of_shape.2.2 _ _ shape_sampleTree hdepth _ _ _ isGap_nil writes_sampleTree hgap⟩

end Sample

end EquationFigure
