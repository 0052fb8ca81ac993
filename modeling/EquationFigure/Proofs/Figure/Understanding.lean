import EquationFigure.Figure.Schema
import EquationFigure.Proofs.Figure.Shapes

/-!
# What is written is understood

The value of whatever is written in its shape says what was written: quantities, points, segments,
declarations and elements.  A schema fits the contents of what is written as an object if it has the
same names and understands what stands behind each; then the fields of the contents are all
understood and the other fields are left over.

* `PartReader.Understands`, `Schema.Fits` — a field and the fields of a schema are understood.
* `Parts.Says` — what has been understood of an entry, of which the field may be missing.
* `Schema.Fits.exists_parts` — the fields of an object are understood, and others are left over.
* `Presentation.ofFields_eq`, `Segment.ofJson_eq`, `Declaration.ofJson_eq`, `Element.ofJson_eq` —
  the things that are written as objects.
-/

set_option autoImplicit false

namespace EquationFigure

open Json

/-! ## Quantities, points and view boxes -/

section Simple

variable {v : Tree}

theorem Quantity.ofJson?_eq {q : Quantity} (h : q.Shape v) : Quantity.ofJson? v.value = some q := by
  cases h with
  | @number x n hx =>
    have hdouble := hx.isDouble
    rw [Tree.value]
    generalize n.value = w at hdouble
    cases hdouble with
    | integer heq => rw [ofJson?, heq]
    | float => rfl
  | equation => rfl

theorem Quantity.ofJson_eq {q : Quantity} (h : q.Shape v) : Quantity.ofJson v.value = .ok q := by
  rw [Quantity.ofJson, ofJson?_eq h]

theorem listOfJson_eq {α : Type} {read : Value → Except Mismatch α} {l : List α}
    {items : List Tree} (h : List.Forall₂ (fun a v => read v.value = .ok a) l items) :
    listOfJson read (Tree.array items).value = .ok l := by
  rw [Tree.value, valuesOfItems_eq_map, listOfJson]
  induction h with
  | nil => rfl
  | cons hv _ ih =>
    rw [List.map_cons, List.mapM_cons, hv, ih]
    rfl

theorem Point.ofJson_eq {p : Point} (h : p.Shape v) : Point.ofJson v.value = .ok p := by
  cases h with
  | @mk x y hx hy =>
    change (do
      let x ← Quantity.ofJson x.value
      let y ← Quantity.ofJson y.value
      return ⟨x, y⟩ : Except Mismatch Point) = _
    rw [Quantity.ofJson_eq hx, Quantity.ofJson_eq hy]
    rfl

theorem ViewBox.ofJson_eq {viewBox : ViewBox} (h : viewBox.Shape v) :
    ViewBox.ofJson v.value = .ok viewBox := by
  cases h with
  | text => rfl
  | @values l items hitems =>
    have hlist : (items.map Tree.value).mapM Quantity.ofJson? = some l := by
      induction hitems with
      | nil => rfl
      | cons hq _ ih =>
        rw [List.map_cons, List.mapM_cons, Quantity.ofJson?_eq hq, ih]
        rfl
    rw [Tree.value, valuesOfItems_eq_map, ViewBox.ofJson, hlist]

end Simple

/-! ## Fields -/

namespace PartReader

/-- The reader understands what the part says, wherever that is not nested too deep. -/
def Understands (read : PartReader) (levels : Nat) (part : Part) : Prop :=
  ∀ v, part.Shape v → v.depth ≤ levels → read v.value = .ok part

variable {levels : Nat}

theorem understands_quantity (q? : Option Quantity) :
    quantity.Understands levels (.quantity q?) := by
  intro v h _
  cases h with
  | @quantity q v hq =>
    have hread := Quantity.ofJson_eq hq
    rw [quantity, optional]
    · rw [hread]
      rfl
    · intro hnull
      rw [hnull] at hread
      cases hread

theorem understands_text (t? : Option Text) : text.Understands levels (.text t?) := by
  intro v h _
  cases h
  rfl

theorem understands_word (t? : Option Text) : word.Understands levels (.text t?) := by
  intro v h _
  cases h
  rfl

theorem understands_flag (b : Bool) : flag.Understands levels (.flag b) := by
  intro v h _
  cases h
  rfl

theorem understands_quantities (l : List Quantity) :
    (list .quantities Quantity.ofJson).Understands levels (.quantities l) := by
  intro v h _
  cases h with
  | quantities hitems =>
    rw [list, listOfJson_eq (hitems.imp fun _ _ => Quantity.ofJson_eq)]
    rfl

theorem understands_points (l : List Point) :
    (list .points Point.ofJson).Understands levels (.points l) := by
  intro v h _
  cases h with
  | points hitems =>
    rw [list, listOfJson_eq (hitems.imp fun _ _ => Point.ofJson_eq)]
    rfl

end PartReader

/-! ## Schemas -/

/-- The schema has the names of the contents, and understands what stands behind each. -/
def Schema.Fits (schema : Schema) (levels : Nat) (contents : Contents) : Prop :=
  List.Forall₂ (fun reading entry =>
    reading.1 = entry.1 ∧ reading.2.Understands levels entry.2) schema contents

namespace Schema

variable {schema : Schema} {levels : Nat} {contents : Contents} {name : Text}

theorem Fits.reader?_eq_none (h : schema.Fits levels contents)
    (hname : ∀ entry ∈ contents, entry.1.toList ≠ name) : schema.reader? name = none := by
  rw [reader?, Option.map_eq_none_iff, List.find?_eq_none]
  induction h with
  | nil => exact List.forall_mem_nil _
  | cons hreading _ ih =>
    obtain ⟨hentry, hcontents⟩ := List.forall_mem_cons.1 hname
    refine List.forall_mem_cons.2 ⟨?_, ih hcontents⟩
    rw [decide_eq_true_eq, hreading.1]
    exact hentry

theorem Fits.exists_reader? (h : schema.Fits levels contents) (hdistinct : contents.Distinct)
    {entry : String × Part} (hentry : entry ∈ contents) :
    ∃ read, schema.reader? entry.1.toList = some read ∧ read.Understands levels entry.2 := by
  induction h with
  | nil => cases hentry
  | @cons reading entry' schema contents hreading _ ih =>
    obtain ⟨hnew, hdistinct⟩ := List.nodup_cons.1 hdistinct
    rcases List.mem_cons.1 hentry with rfl | hentry
    · refine ⟨reading.2, ?_, hreading.2⟩
      rw [reader?, List.find?_cons_of_pos (by rw [decide_eq_true_eq, hreading.1])]
      rfl
    · obtain ⟨read, hread, hunderstands⟩ := ih hdistinct hentry
      refine ⟨read, ?_, hunderstands⟩
      rw [reader?, List.find?_cons_of_neg]
      · exact hread
      · rw [decide_eq_true_eq, hreading.1]
        intro heq
        exact hnew (List.mem_map.2 ⟨entry, hentry, (String.toList_injective heq).symm⟩)

end Schema

/-! ## The parts of an object -/

/-- What the entry says has been understood, or it says nothing and its field is missing. -/
def Parts.Says (parts : Parts) (entry : String × Part) : Prop :=
  parts.get? entry.1 = some entry.2 ∨ parts.get? entry.1 = none ∧ entry.2.isEmpty = true

namespace Parts.Says

variable {parts : Parts} {name : String}

theorem quantity? {q? : Option Quantity} (h : parts.Says (name, .quantity q?)) :
    parts.quantity? name = q? := by
  rw [Parts.quantity?]
  obtain h | ⟨h, hempty⟩ := h <;> rw [h]
  exact (Option.isNone_iff_eq_none.1 hempty).symm

theorem text? {t? : Option Text} (h : parts.Says (name, .text t?)) : parts.text? name = t? := by
  rw [Parts.text?]
  obtain h | ⟨h, hempty⟩ := h <;> rw [h]
  exact (Option.isNone_iff_eq_none.1 hempty).symm

theorem viewBox? {viewBox? : Option ViewBox} (h : parts.Says (name, .viewBox viewBox?)) :
    parts.viewBox? name = viewBox? := by
  rw [Parts.viewBox?]
  obtain h | ⟨h, hempty⟩ := h <;> rw [h]
  exact (Option.isNone_iff_eq_none.1 hempty).symm

theorem flag {b : Bool} (h : parts.Says (name, .flag b)) : parts.flag name = b := by
  rw [Parts.flag]
  obtain h | ⟨h, hempty⟩ := h <;> rw [h]
  cases b
  · rfl
  · cases hempty

theorem quantities {l : List Quantity} (h : parts.Says (name, .quantities l)) :
    parts.quantities name = l := by
  rw [Parts.quantities]
  obtain h | ⟨h, hempty⟩ := h <;> rw [h]
  exact (List.isEmpty_iff.1 hempty).symm

theorem points {l : List Point} (h : parts.Says (name, .points l)) : parts.points name = l := by
  rw [Parts.points]
  obtain h | ⟨h, hempty⟩ := h <;> rw [h]
  exact (List.isEmpty_iff.1 hempty).symm

theorem segments {l : List Segment} (h : parts.Says (name, .segments l)) :
    parts.segments name = l := by
  rw [Parts.segments]
  obtain h | ⟨h, hempty⟩ := h <;> rw [h]
  exact (List.isEmpty_iff.1 hempty).symm

theorem elements {l : List Element} (h : parts.Says (name, .elements l)) :
    parts.elements name = l := by
  rw [Parts.elements]
  obtain h | ⟨h, hempty⟩ := h <;> rw [h]
  exact (List.isEmpty_iff.1 hempty).symm

end Parts.Says

theorem Parts.lookup_add (parts : Parts) (name : Text) (part : Part) (other : Text) :
    (parts.add name part).known.lookup other =
      (parts.known.lookup other).or (if other = name then some part else none) := by
  rw [add, List.lookup_append, List.lookup_cons, List.lookup_nil]
  split
  · rename_i heq
    rw [if_pos (eq_of_beq heq)]
  · rename_i heq
    rw [if_neg (ne_of_beq_false heq)]

namespace Schema

variable {schema : Schema}

/-- **The fields are taken up one after the other.**  Those of the schema are understood, and the
others are left over as they are. -/
theorem exists_foldlM_take {fields : List (Text × Value)} (hdistinct : (fields.map Prod.fst).Nodup)
    (hread : ∀ field ∈ fields, ∀ read, schema.reader? field.1 = some read →
      ∃ part, read field.2 = .ok part)
    (parts : Parts) (hnew : ∀ field ∈ fields, parts.known.lookup field.1 = none) :
    ∃ parts', fields.foldlM schema.take parts = .ok parts' ∧
      parts'.others = parts.others ++ fields.filter (fun field => (schema.reader? field.1).isNone) ∧
      (∀ field ∈ fields, ∀ read part, schema.reader? field.1 = some read →
        read field.2 = .ok part → parts'.known.lookup field.1 = some part) ∧
      ∀ name, name ∉ fields.map Prod.fst → parts'.known.lookup name = parts.known.lookup name := by
  induction fields generalizing parts with
  | nil =>
    refine ⟨parts, rfl, (List.append_nil _).symm, List.forall_mem_nil _, fun _ _ => rfl⟩
  | cons field fields ih =>
    obtain ⟨hlater, hdistinct⟩ := List.nodup_cons.1 hdistinct
    obtain ⟨hfirst, hread⟩ := List.forall_mem_cons.1 hread
    obtain ⟨hnewFirst, hnew⟩ := List.forall_mem_cons.1 hnew
    have hne : ∀ other ∈ fields, other.1 ≠ field.1 := fun other hother heq =>
      hlater (List.mem_map.2 ⟨other, hother, heq⟩)
    cases hreader : schema.reader? field.1 with
    | none =>
      obtain ⟨parts', hfold, hothers, hknown, hkept⟩ :=
        ih hdistinct hread (parts.addOther field.1 field.2) hnew
      refine ⟨parts', ?_, ?_, List.forall_mem_cons.2 ⟨?_, hknown⟩, fun name hname => ?_⟩
      · rw [List.foldlM_cons, take, hreader]
        exact hfold
      · rw [hothers, Parts.addOther, List.filter_cons_of_pos (by rw [hreader]; rfl),
          List.append_assoc]
        rfl
      · intro read part hsome
        rw [hreader] at hsome
        cases hsome
      · rw [List.map_cons, List.mem_cons, not_or] at hname
        exact hkept name hname.2
    | some read =>
      obtain ⟨part, hpart⟩ := hfirst read hreader
      have hadd := Parts.lookup_add parts field.1 part
      obtain ⟨parts', hfold, hothers, hknown, hkept⟩ :=
        ih hdistinct hread (parts.add field.1 part) fun other hother => by
          rw [hadd, hnew other hother, if_neg (hne other hother)]
          rfl
      refine ⟨parts', ?_, ?_, List.forall_mem_cons.2 ⟨?_, hknown⟩, fun name hname => ?_⟩
      · rw [List.foldlM_cons, take, hreader]
        dsimp only
        rw [Parts.checkNew, hnewFirst, hpart]
        exact hfold
      · rw [hothers, List.filter_cons_of_neg (by rw [hreader]; exact Bool.false_ne_true)]
        rfl
      · intro read' part' hsome hpart'
        rw [hreader] at hsome
        cases hsome
        rw [hpart] at hpart'
        cases hpart'
        rw [hkept _ hlater, hadd, hnewFirst, if_pos rfl]
        rfl
      · rw [List.map_cons, List.mem_cons, not_or] at hname
        rw [hkept name hname.2, hadd, if_neg hname.1, Option.or_none]

variable {levels : Nat} {own rest : Contents}

/-- A name of the schema is none of the others. -/
theorem Fits.reader?_of_mem_rest (h : schema.Fits levels own)
    (hdistinct : Contents.Distinct (own ++ rest)) :
    ∀ entry ∈ rest, schema.reader? entry.1.toList = none := by
  intro entry hentry
  rw [Contents.Distinct, List.map_append] at hdistinct
  refine h.reader?_eq_none fun other hother heq => ?_
  exact List.disjoint_of_nodup_append hdistinct (List.mem_map_of_mem hother)
    (String.toList_injective heq ▸ List.mem_map_of_mem hentry)

/-- What the fields of the schema hold can be read. -/
theorem Fits.exists_read (hfits : schema.Fits levels own)
    (hdistinct : Contents.Distinct (own ++ rest)) {fields : List (Text × Tree)}
    (h : Holds (own ++ rest) fields) (hdepth : ∀ field ∈ fields, field.2.depth ≤ levels) :
    ∀ field ∈ fields.map valueOfField, ∀ read, schema.reader? field.1 = some read →
      ∃ part, read field.2 = .ok part := by
  intro field hfield read hreader
  obtain ⟨written, hwritten, rfl⟩ := List.mem_map.1 hfield
  obtain ⟨entry, hentry, hname, hsays⟩ := h.known written hwritten
  rw [valueOfField, ← hname] at hreader
  rcases List.mem_append.1 hentry with hentry | hentry
  · obtain ⟨read', hreader', hunderstands⟩ := hfits.exists_reader? hdistinct.left hentry
    rw [hreader'] at hreader
    cases hreader
    exact ⟨entry.2, hunderstands written.2 hsays (hdepth written hwritten)⟩
  · rw [hfits.reader?_of_mem_rest hdistinct entry hentry] at hreader
    cases hreader

/-- **The fields of an object are understood**: what the contents of the schema say, whether their
fields are there or not, and the fields of other contents are left over. -/
theorem Fits.exists_parts (hfits : schema.Fits levels own)
    (hdistinct : Contents.Distinct (own ++ rest)) {fields : List (Text × Tree)}
    (h : Holds (own ++ rest) fields) (hdepth : ∀ field ∈ fields, field.2.depth ≤ levels) :
    ∃ parts others, schema.parts (fields.map valueOfField) = .ok parts ∧
      (∀ entry ∈ own, parts.Says entry) ∧ parts.others = others.map valueOfField ∧
      Holds rest others := by
  have hown := hdistinct.left
  have hnone := hfits.reader?_of_mem_rest hdistinct
  have hread := hfits.exists_read hdistinct h hdepth
  have hkeys : (fields.map valueOfField).map Prod.fst = fields.map Prod.fst := by
    rw [List.map_map]
    rfl
  obtain ⟨parts, hparts, hothers, hknown, hkept⟩ :=
    exists_foldlM_take (by rw [hkeys]; exact h.distinct) hread {} fun _ _ => rfl
  refine ⟨parts, fields.filter fun field => (schema.reader? field.1).isNone, hparts,
    fun entry hentry => ?_, ?_, ?_⟩
  · obtain ⟨read, hreader, hunderstands⟩ := hfits.exists_reader? hown hentry
    have hmem := List.mem_append_left rest hentry
    -- An entry that says nothing may have its field all the same, as an empty list may.
    by_cases hv : ∃ v, (entry.1.toList, v) ∈ fields
    · obtain ⟨v, hv⟩ := hv
      exact .inl (hknown _ (List.mem_map_of_mem hv) read entry.2 hreader
        (hunderstands v (h.shape hdistinct hmem hv) (hdepth _ hv)))
    · refine .inr ⟨(hkept _ ?_).trans rfl, (h.written entry hmem).resolve_right hv⟩
      rw [hkeys]
      rintro hkey
      obtain ⟨field, hfield, hname⟩ := List.mem_map.1 hkey
      exact hv ⟨field.2, hname ▸ hfield⟩
  · rw [hothers, List.filter_map]
    rfl
  · have hfilter := h.filter fun name => (schema.reader? name).isNone
    rwa [List.filter_append, List.filter_eq_nil_iff.2, List.filter_eq_self.2,
      List.nil_append] at hfilter
    · intro entry hentry
      rw [hnone entry hentry]
      rfl
    · intro entry hentry
      obtain ⟨read, hreader, -⟩ := hfits.exists_reader? hown hentry
      rw [hreader]
      exact Bool.false_ne_true

end Schema

/-! ## What is written as an object -/

section Objects

variable {levels : Nat} {fields : List (Text × Tree)} {v : Tree}

/-- The fields of an object that has no others are understood. -/
theorem Schema.Fits.exists_all_parts {schema : Schema} {contents : Contents}
    (hfits : schema.Fits (depthOfFields fields) contents) (hdistinct : contents.Distinct)
    (h : Holds contents fields) :
    ∃ parts, schema.parts (valuesOfFields fields) = .ok parts ∧
      ∀ entry ∈ contents, parts.Says entry := by
  have hdepth : ∀ field ∈ fields, field.2.depth ≤ depthOfFields fields :=
    fun _ hfield => depth_le_of_mem_fields hfield
  rw [← List.append_nil contents] at hdistinct h
  obtain ⟨parts, -, hparts, hsays, -⟩ := hfits.exists_parts hdistinct h hdepth
  rw [valuesOfFields_eq_map]
  exact ⟨parts, hparts, hsays⟩

theorem Presentation.distinct_contents (common : Presentation) : common.contents.Distinct := by
  simp [Contents.Distinct, contents]

theorem Presentation.fits_schema (common : Presentation) :
    Presentation.schema.Fits levels common.contents := by
  have htext : ∀ t?, PartReader.text.Understands levels (.text t?) := PartReader.understands_text
  have hquantity : ∀ q?, PartReader.quantity.Understands levels (.quantity q?) :=
    PartReader.understands_quantity
  exact .cons ⟨rfl, htext _⟩ <| .cons ⟨rfl, htext _⟩ <| .cons ⟨rfl, htext _⟩ <|
    .cons ⟨rfl, htext _⟩ <| .cons ⟨rfl, hquantity _⟩ <| .cons ⟨rfl, hquantity _⟩ <|
    .cons ⟨rfl, htext _⟩ <| .cons ⟨rfl, htext _⟩ .nil

/-- What every element may have is understood. -/
theorem Presentation.ofFields_eq {common : Presentation} (h : Holds common.contents fields) :
    Presentation.ofFields (valuesOfFields fields) = .ok common := by
  obtain ⟨parts, hparts, hsays⟩ := common.fits_schema.exists_all_parts common.distinct_contents h
  simp only [contents, List.forall_mem_cons] at hsays
  obtain ⟨hid, hclass, hfill, hstroke, hwidth, hopacity, htransform, hstyle, -⟩ := hsays
  rw [Presentation.ofFields, hparts]
  change Except.ok _ = _
  rw [hid.text?, hclass.text?, hfill.text?, hstroke.text?, hwidth.quantity?, hopacity.quantity?,
    htransform.text?, hstyle.text?]

theorem Segment.distinct_contents (s : Segment) : s.contents.Distinct := by
  simp [Contents.Distinct, contents]

theorem Segment.fits_schema (s : Segment) : Segment.schema.Fits levels s.contents :=
  .cons ⟨rfl, PartReader.understands_word _⟩ <|
    .cons ⟨rfl, PartReader.understands_quantities _⟩ .nil

theorem Segment.ofJson_eq {s : Segment} (h : ObjectShape s.contents v) :
    Segment.ofJson v.value = .ok s := by
  obtain ⟨fields, rfl, hfields⟩ := h.exists_holds s.distinct_contents
  obtain ⟨parts, hparts, hsays⟩ := s.fits_schema.exists_all_parts s.distinct_contents hfields
  simp only [contents, List.forall_mem_cons] at hsays
  obtain ⟨hcommand, harguments, -⟩ := hsays
  rw [Tree.value, Segment.ofJson, hparts]
  dsimp only [bind, Except.bind]
  rw [hcommand.text?, harguments.quantities]
  rfl

theorem Declaration.ofJson_eq {d : Declaration} (h : d.Shape v) :
    Declaration.ofJson v.value = .ok d := by
  have hsome : Declaration.ofJson? v.value = some d := by
    cases h with
    | bare hq =>
      have hread := Quantity.ofJson?_eq hq
      rw [Declaration.ofJson?]
      · rw [hread]
        rfl
      · intro fields hobject
        rw [hobject] at hread
        cases hread
    | @full value? disabled comment? v hobject =>
      have hdistinct : (fullContents value? disabled comment?).Distinct := by
        simp [Contents.Distinct, fullContents]
      obtain ⟨fields, rfl, hfields⟩ := hobject.exists_holds hdistinct
      have hfits : Declaration.schema.Fits (depthOfFields fields)
          (fullContents value? disabled comment?) :=
        .cons ⟨rfl, PartReader.understands_quantity _⟩ <|
          .cons ⟨rfl, PartReader.understands_flag _⟩ <|
          .cons ⟨rfl, PartReader.understands_text _⟩ .nil
      obtain ⟨parts, hparts, hsays⟩ := hfits.exists_all_parts hdistinct hfields
      simp only [fullContents, List.forall_mem_cons] at hsays
      obtain ⟨hvalue, hdisabled, hcomment, -⟩ := hsays
      rw [Tree.value, Declaration.ofJson?, hparts]
      change some (Declaration.full _ _ _) = _
      rw [hvalue.quantity?, hdisabled.flag, hcomment.text?]
  rw [Declaration.ofJson, hsome]

end Objects

/-! ## Elements -/

section Elements

variable {levels : Nat} {e : Element} {v : Tree} {fields : List (Text × Tree)}

theorem PartReader.understands_segments (l : List Segment) :
    (list .segments Segment.ofJson).Understands levels (.segments l) := by
  intro v h _
  cases h with
  | segments hitems =>
    rw [list, listOfJson_eq (hitems.imp fun _ _ => Segment.ofJson_eq)]
    rfl

/-- Elements within an element are understood if those nested less deep are. -/
theorem PartReader.understands_elements {element : Value → Except Mismatch Element}
    (helement : ∀ e v, ObjectShape e.contents v → v.depth < levels → element v.value = .ok e)
    (l : List Element) : (list .elements element).Understands levels (.elements l) := by
  intro v h hdepth
  cases h with
  | @elements l items hitems =>
    have hvalues : List.Forall₂ (fun e v => element v.value = .ok e) l items := by
      refine List.forall₂_iff_zip.2 ⟨hitems.length_eq, fun {e v} hmem => ?_⟩
      exact helement e v (List.forall₂_zip hitems hmem)
        (Nat.lt_of_le_of_lt (depth_le_of_mem_items (List.of_mem_zip hmem).2) hdepth)
    rw [list, listOfJson_eq hvalues]
    rfl

theorem Element.distinct_contents (e : Element) : e.contents.Distinct := by
  cases e <;>
    simp [Contents.Distinct, contents, ownContents, measures, inner, Presentation.contents]

theorem Schema.fits_measures (measures : List (String × Option Quantity)) :
    Schema.Fits (ElementKind.measureSchema (measures.map Prod.fst)) levels
      (measures.map fun measure => (measure.1, .quantity measure.2)) := by
  induction measures with
  | nil => exact .nil
  | cons measure measures ih => exact .cons ⟨rfl, PartReader.understands_quantity _⟩ ih

theorem Schema.Fits.append {schema schema' : Schema} {contents contents' : Contents}
    (h : schema.Fits levels contents) (h' : schema'.Fits levels contents') :
    Schema.Fits (schema ++ schema') levels (contents ++ contents') :=
  List.rel_append h h'

/-- The fields of an element are those of its kind. -/
theorem Element.fits_schema {element : Value → Except Mismatch Element}
    (helement : ∀ e v, ObjectShape e.contents v → v.depth < levels → element v.value = .ok e)
    (e : Element) : (e.kind.schema element).Fits levels e.ownContents := by
  have hmeasures : Schema.Fits (ElementKind.measureSchema (e.measures.map Prod.fst)) levels _ :=
    Schema.fits_measures e.measures
  cases e with
  | rect | circle | ellipse | line => exact hmeasures.append .nil
  | polygon | polyline => exact .cons ⟨rfl, PartReader.understands_points _⟩ .nil
  | path => exact .cons ⟨rfl, PartReader.understands_segments _⟩ .nil
  | text => exact hmeasures.append (.cons ⟨rfl, PartReader.understands_text _⟩ .nil)
  | group => exact .cons ⟨rfl, PartReader.understands_elements helement _⟩ .nil

/-- An element is put together from what has been understood of it. -/
theorem Element.assemble_eq {parts : Parts} (h : ∀ entry ∈ e.ownContents, parts.Says entry) :
    e.kind.assemble e.common parts = e := by
  obtain ⟨hmeasures, hinner⟩ := List.forall_mem_append.1 h
  have hquantity : ∀ measure ∈ e.measures, parts.quantity? measure.1 = measure.2 :=
    fun measure hmeasure =>
      (hmeasures _ (List.mem_map_of_mem hmeasure) : parts.Says (measure.1, _)).quantity?
  clear h hmeasures
  cases e with
  | rect | circle | ellipse | line =>
    simp only [measures, List.forall_mem_cons] at hquantity
    simp only [kind, common, ElementKind.assemble, hquantity]
  | polygon | polyline =>
    have hpoints : parts.Says ("points", .points _) := hinner _ List.mem_cons_self
    rw [kind, common, ElementKind.assemble, hpoints.points]
  | path =>
    have hsegments : parts.Says ("d", .segments _) := hinner _ List.mem_cons_self
    rw [kind, common, ElementKind.assemble, hsegments.segments]
  | text =>
    have htext : parts.Says ("text", .text _) := hinner _ List.mem_cons_self
    simp only [measures, List.forall_mem_cons] at hquantity
    simp only [kind, common, ElementKind.assemble, hquantity, htext.text?]
  | group =>
    have hchildren : parts.Says ("children", .elements _) := hinner _ List.mem_cons_self
    rw [kind, common, ElementKind.assemble, hchildren.elements]

/-! ### The kind of an element -/

namespace Kinded

theorem foldlM_take_others {fields : List (Text × Value)} (kinded : Kinded)
    (h : kindName ∉ fields.map Prod.fst) :
    fields.foldlM take kinded = .ok { kinded with others := kinded.others ++ fields } := by
  induction fields generalizing kinded with
  | nil =>
    rw [List.append_nil]
    rfl
  | cons field fields ih =>
    rw [List.map_cons, List.mem_cons, not_or] at h
    rw [List.foldlM_cons, take, if_neg (Ne.symm h.1)]
    refine (ih _ h.2).trans ?_
    dsimp only
    rw [List.append_assoc, List.singleton_append]

/-- The kind is found wherever its field stands. -/
theorem foldlM_take {fields : List (Text × Value)} (hdistinct : (fields.map Prod.fst).Nodup)
    {w : Value} {kind : ElementKind} (hmem : (kindName, w) ∈ fields)
    (hw : ElementKind.ofJsonOrPlace w = .ok kind) :
    fields.foldlM take {} = .ok ⟨some kind, fields.filter fun field => field.1 ≠ kindName⟩ := by
  -- No other field has that name, so those on either side are kept as they are.
  obtain ⟨before, after, rfl⟩ := List.append_of_mem hmem
  rw [List.map_append, List.map_cons, List.nodup_middle, List.nodup_cons, List.mem_append,
    not_or] at hdistinct
  obtain ⟨⟨hbefore, hafter⟩, -⟩ := hdistinct
  have hkeep : ∀ fields : List (Text × Value), kindName ∉ fields.map Prod.fst →
      (fields.filter fun field => field.1 ≠ kindName) = fields := by
    intro fields h
    refine List.filter_eq_self.2 fun field hfield => decide_eq_true ?_
    rintro heq
    exact h (List.mem_map.2 ⟨field, hfield, heq⟩)
  rw [List.foldlM_append, foldlM_take_others _ hbefore, List.filter_append, hkeep _ hbefore,
    List.filter_cons_of_neg (by simp), hkeep _ hafter]
  change (do
    let kinded ← take ⟨none, before⟩ (kindName, w)
    after.foldlM take kinded : Except Mismatch Kinded) = _
  rw [take, if_pos rfl, hw]
  exact foldlM_take_others ⟨some kind, before⟩ hafter

end Kinded

theorem ElementKind.ofJsonOrPlace_tag (kind : ElementKind) :
    ofJsonOrPlace (.string kind.tag.toList) = .ok kind := by
  rw [ofJsonOrPlace, ofJson, ofTag?_tag]
  · intro n hn
    cases hn

theorem kindName_eq : Kinded.kindName = "type".toList := by decide

/-- The field that says the kind is always there. -/
theorem Element.kind_mem (h : Holds e.contents fields) :
    (Kinded.kindName, Tree.string e.tag.toList) ∈ fields := by
  have htype : ("type", Part.text (some e.tag.toList)) ∈ e.contents := List.mem_cons_self
  obtain hempty | ⟨v, hv⟩ := h.written _ htype
  · cases hempty
  · have hshape := h.shape e.distinct_contents htype hv
    cases hshape
    rwa [kindName_eq]

/-- What is read of the fields of an element before they are understood. -/
theorem Element.foldlM_take (h : Holds e.contents fields) :
    ∃ others, (fields.map valueOfField).foldlM Kinded.take {} =
        .ok ⟨some e.kind, others.map valueOfField⟩ ∧
      Holds (e.ownContents ++ e.common.contents) others ∧ others ⊆ fields := by
  refine ⟨fields.filter fun field => field.1 ≠ Kinded.kindName, ?_, ?_, List.filter_subset_self _⟩
  · have hkeys : ((fields.map valueOfField).map Prod.fst).Nodup := by
      rw [List.map_map]
      exact h.distinct
    rw [Kinded.foldlM_take hkeys (List.mem_map_of_mem (Element.kind_mem h))
      (ElementKind.ofJsonOrPlace_tag e.kind), List.filter_map]
    rfl
  · have hnew := (List.nodup_cons.1 e.distinct_contents).1
    have hfilter := h.filter fun name => name ≠ Kinded.kindName
    rw [contents, List.filter_cons_of_neg (by simp [kindName_eq]),
      List.filter_eq_self.2] at hfilter
    · exact hfilter
    · intro entry hentry
      refine decide_eq_true fun heq => hnew ?_
      rw [kindName_eq] at heq
      exact List.mem_map.2 ⟨entry, hentry, String.toList_injective heq⟩

/-- An element is made of its kind and its other fields. -/
theorem Element.toElement_eq {element : Value → Except Mismatch Element}
    (helement : ∀ e v, ObjectShape e.contents v → v.depth < levels → element v.value = .ok e)
    (h : Holds (e.ownContents ++ e.common.contents) fields)
    (hdepth : ∀ field ∈ fields, field.2.depth ≤ levels) :
    Kinded.toElement element ⟨some e.kind, fields.map valueOfField⟩ = .ok e := by
  obtain ⟨parts, others, hparts, hsays, hothers, hcommon⟩ :=
    (e.fits_schema helement).exists_parts (List.nodup_cons.1 e.distinct_contents).2 h hdepth
  rw [Kinded.toElement]
  dsimp only
  rw [hparts]
  change (do
    let common ← Presentation.ofFields parts.others
    return e.kind.assemble common parts : Except Mismatch Element) = _
  rw [hothers, ← valuesOfFields_eq_map, Presentation.ofFields_eq hcommon]
  exact congrArg Except.ok (e.assemble_eq hsays)

/-- **An element is understood**, with all the elements in it.  The induction is on how deep they
may be nested. -/
theorem Element.ofJson_eq (h : ObjectShape e.contents v) (hdepth : v.depth ≤ levels) :
    Element.ofJson levels v.value = .ok e := by
  induction levels generalizing e v with
  | zero =>
    cases h
    cases hdepth
  | succ levels ih =>
    obtain ⟨fields, rfl, hfields⟩ := h.exists_holds e.distinct_contents
    obtain ⟨others, hfold, hothers, hsub⟩ := Element.foldlM_take hfields
    have hlevels : ∀ field ∈ others, field.2.depth ≤ levels := fun field hfield =>
      Nat.le_trans (depth_le_of_mem_fields (hsub hfield)) (Nat.le_of_succ_le_succ hdepth)
    rw [Tree.value, Element.ofJson, valuesOfFields_eq_map, hfold]
    exact Element.toElement_eq (fun e v hv hlt => ih hv hlt.le) hothers hlevels

end Elements

end EquationFigure
