import EquationFigure.Figure.Part
import EquationFigure.Proofs.Json.Reading

/-!
# The shapes that documents are written in

How a document may be written as JSON, said without any reader.  Everything but numbers, texts and
lists is an object with fields of known names, in any order; a field may be left out if it says
nothing.

* `Contents` — the fields that an object may have with what they say; `Element.contents`,
  `Root.contents`, `Segment.contents` and `Declaration.fullContents` for what is written as an
  object.
* `Part.Shape`, `ObjectShape` — how a field and an object may be written.
* `Document.Shape` — how a document may be written.
* `Holds` — what is known of the fields of an object written, apart from their order.
* `ObjectShape.readable` — whatever is written so has no number that cannot be read.
-/

set_option autoImplicit false

namespace EquationFigure

open Json

/-! ## Quantities, points and view boxes -/

/-- A number is written in any way that denotes it, an equation as a string.  What may not be used
is an exponent greater than any that is read, which takes thousands of millions of zeros behind the
point (`Number.Denotes.exponentFits`). -/
inductive Quantity.Shape : Quantity → Tree → Prop
  | number {x : Float} {n : Number} : n.Denotes x → n.ExponentFits →
    Quantity.Shape (.number x) (.number n)
  | equation {t : Text} : Quantity.Shape (.equation t) (.string t)

/-- A point is written as the list of its coordinates. -/
inductive Point.Shape : Point → Tree → Prop
  | mk {p : Point} {x y : Tree} : p.x.Shape x → p.y.Shape y → Point.Shape p (.array [x, y])

/-- A view box is written as a string or as a list. -/
inductive ViewBox.Shape : ViewBox → Tree → Prop
  | text {t : Text} : ViewBox.Shape (.text t) (.string t)
  | values {l : List Quantity} {items : List Tree} : List.Forall₂ Quantity.Shape l items →
    ViewBox.Shape (.values l) (.array items)

/-! ## What the fields of an object say -/

/-- The names of the fields that an object may have, with what they say. -/
abbrev Contents := List (String × Part)

/-- The field says nothing, and may be left out. -/
def Part.isEmpty : Part → Bool
  | quantity q? => q?.isNone
  | text t? => t?.isNone
  | viewBox viewBox? => viewBox?.isNone
  | flag b => !b
  | quantities l => l.isEmpty
  | points l => l.isEmpty
  | segments l => l.isEmpty
  | elements l => l.isEmpty

/-- What every element may have. -/
def Presentation.contents (common : Presentation) : Contents :=
  [("id", .text common.id?), ("class", .text common.class?), ("fill", .text common.fill?),
   ("stroke", .text common.stroke?), ("stroke-width", .quantity common.strokeWidth?),
   ("opacity", .quantity common.opacity?), ("transform", .text common.transform?),
   ("style", .text common.style?)]

/-- A segment of a path. -/
def Segment.contents (s : Segment) : Contents :=
  [("cmd", .text (some s.command)), ("args", .quantities s.arguments)]

namespace Element

/-- What an element has that is no single number. -/
def inner : Element → Contents
  | polygon _ points | polyline _ points => [("points", .points points)]
  | path _ segments => [("d", .segments segments)]
  | text _ _ _ _ _ _ content? => [("text", .text content?)]
  | group _ children => [("children", .elements children)]
  | rect .. | circle .. | ellipse .. | line .. => []

/-- What the elements of the kind have. -/
def ownContents (e : Element) : Contents :=
  e.measures.map (fun measure => (measure.1, .quantity measure.2)) ++ e.inner

/-- An element: its tag, what its kind has, and what every element may have. -/
def contents (e : Element) : Contents :=
  ("type", .text (some e.tag.toList)) :: (e.ownContents ++ e.common.contents)

end Element

/-- What the figure has that no element has. -/
def Root.ownContents (root : Root) : Contents :=
  [("viewBox", .viewBox root.viewBox?), ("width", .quantity root.width?),
   ("height", .quantity root.height?), ("children", .elements root.children)]

/-- The figure. -/
def Root.contents (root : Root) : Contents := root.ownContents ++ root.common.contents

mutual

/-- What a field says is written as the tree. -/
inductive Part.Shape : Part → Tree → Prop
  | quantity {q : Quantity} {v : Tree} : q.Shape v → Part.Shape (.quantity (some q)) v
  | text {t : Text} : Part.Shape (.text (some t)) (.string t)
  | viewBox {viewBox : ViewBox} {v : Tree} : viewBox.Shape v →
    Part.Shape (.viewBox (some viewBox)) v
  | flag {b : Bool} : Part.Shape (.flag b) (.bool b)
  | quantities {l : List Quantity} {items : List Tree} : List.Forall₂ Quantity.Shape l items →
    Part.Shape (.quantities l) (.array items)
  | points {l : List Point} {items : List Tree} : List.Forall₂ Point.Shape l items →
    Part.Shape (.points l) (.array items)
  | segments {l : List Segment} {items : List Tree} :
    List.Forall₂ (fun s v => ObjectShape s.contents v) l items →
    Part.Shape (.segments l) (.array items)
  | elements {l : List Element} {items : List Tree} :
    List.Forall₂ (fun e v => ObjectShape e.contents v) l items →
    Part.Shape (.elements l) (.array items)

/-- The fields are written one after the other, but for some that say nothing. -/
inductive FieldsShape : Contents → List (Text × Tree) → Prop
  | nil : FieldsShape [] []
  | omitted {name : String} {part : Part} {contents : Contents} {fields : List (Text × Tree)} :
    part.isEmpty = true → FieldsShape contents fields →
    FieldsShape ((name, part) :: contents) fields
  | written {name : String} {part : Part} {v : Tree} {contents : Contents}
    {fields : List (Text × Tree)} : part.Shape v → FieldsShape contents fields →
    FieldsShape ((name, part) :: contents) ((name.toList, v) :: fields)

/-- What is said field by field is written as an object, with its fields in any order. -/
inductive ObjectShape : Contents → Tree → Prop
  | mk {contents : Contents} {fields fields' : List (Text × Tree)} : FieldsShape contents fields →
    fields.Perm fields' → ObjectShape contents (.object fields')

end

/-! ## Documents -/

/-- A declaration in full. -/
def Declaration.fullContents (value? : Option Quantity) (disabled : Bool) (comment? : Option Text) :
    Contents :=
  [("value", .quantity value?), ("disabled", .flag disabled), ("comment", .text comment?)]

/-- A declaration is written as its quantity, or in full. -/
inductive Declaration.Shape : Declaration → Tree → Prop
  | bare {q : Quantity} {v : Tree} : q.Shape v → Declaration.Shape (.bare q) v
  | full {value? : Option Quantity} {disabled : Bool} {comment? : Option Text} {v : Tree} :
    ObjectShape (fullContents value? disabled comment?) v →
    Declaration.Shape (.full value? disabled comment?) v

/-- What is declared is written as an object, in which every name declared occurs once. -/
inductive DeclarationsShape (table : Table Declaration) : Tree → Prop
  | mk {fields : List (Text × Tree)} : (fields.map Prod.fst).Nodup →
    (∀ field ∈ fields, ∃ d, table.get? field.1 = some d ∧ d.Shape field.2) →
    (∀ name, table.get? name ≠ none → name ∈ fields.map Prod.fst) →
    DeclarationsShape table (.object fields)

/-- A section of a document is one of its fields, and may be left out if it is the default. -/
inductive SectionShape (name : String) (isDefault : Prop) (shape : Tree → Prop) :
    List (Text × Tree) → Prop
  | omitted : isDefault → SectionShape name isDefault shape []
  | written {v : Tree} : shape v → SectionShape name isDefault shape [(name.toList, v)]

/-- A document is written as an object of two sections, in any order. -/
inductive Document.Shape (document : Document) : Tree → Prop
  | mk {equations svg fields : List (Text × Tree)} :
    SectionShape "equations" (∀ name, document.declarations.get? name = none)
      (DeclarationsShape document.declarations) equations →
    SectionShape "svg" (document.root = {}) (ObjectShape document.root.contents) svg →
    (equations ++ svg).Perm fields → Document.Shape document (.object fields)

/-! ## The fields of an object written -/

/-- All fields may be left out if none says anything. -/
theorem FieldsShape.of_isEmpty {contents : Contents}
    (h : ∀ entry ∈ contents, entry.2.isEmpty = true) : FieldsShape contents [] := by
  induction contents with
  | nil => exact .nil
  | cons entry contents ih =>
    obtain ⟨hempty, h⟩ := List.forall_mem_cons.1 h
    exact .omitted hempty (ih h)

/-- The names of the contents are told apart. -/
def Contents.Distinct (contents : Contents) : Prop := (contents.map Prod.fst).Nodup

/-- What is known of the fields of an object written, apart from their order. -/
structure Holds (contents : Contents) (fields : List (Text × Tree)) : Prop where
  /-- No name occurs twice. -/
  distinct : (fields.map Prod.fst).Nodup
  /-- Every field says what an entry does. -/
  known : ∀ field ∈ fields, ∃ entry ∈ contents, entry.1.toList = field.1 ∧ entry.2.Shape field.2
  /-- Every entry that says something has its field. -/
  written : ∀ entry ∈ contents, entry.2.isEmpty = true ∨ ∃ v, (entry.1.toList, v) ∈ fields

section Fields

variable {contents : Contents} {fields fields' : List (Text × Tree)} {v : Tree}

theorem FieldsShape.keys_sublist (h : FieldsShape contents fields) :
    (fields.map Prod.fst).Sublist (contents.map fun entry => entry.1.toList) := by
  induction contents generalizing fields with
  | nil =>
    cases h
    exact List.Sublist.slnil
  | cons entry contents ih =>
    cases h with
    | omitted _ h => exact (ih h).cons _
    | written _ h => exact (ih h).cons_cons _

theorem FieldsShape.known (h : FieldsShape contents fields) :
    ∀ field ∈ fields, ∃ entry ∈ contents, entry.1.toList = field.1 ∧ entry.2.Shape field.2 := by
  induction contents generalizing fields with
  | nil =>
    cases h
    exact List.forall_mem_nil _
  | cons entry contents ih =>
    -- Fields of later entries are fields of some entry, whether or not the first one has a field.
    have hlater : ∀ {fields : List (Text × Tree)}, FieldsShape contents fields →
        ∀ field ∈ fields, ∃ entry' ∈ entry :: contents,
          entry'.1.toList = field.1 ∧ entry'.2.Shape field.2 := by
      intro fields h field hfield
      obtain ⟨entry', hentry', hsays⟩ := ih h field hfield
      exact ⟨entry', List.mem_cons_of_mem _ hentry', hsays⟩
    cases h with
    | omitted _ h => exact hlater h
    | written hv h =>
      exact List.forall_mem_cons.2 ⟨⟨_, List.mem_cons_self, rfl, hv⟩, hlater h⟩

theorem FieldsShape.written_or_empty (h : FieldsShape contents fields) :
    ∀ entry ∈ contents, entry.2.isEmpty = true ∨ ∃ v, (entry.1.toList, v) ∈ fields := by
  induction contents generalizing fields with
  | nil => exact List.forall_mem_nil _
  | cons entry contents ih =>
    cases h with
    | omitted hempty h => exact List.forall_mem_cons.2 ⟨.inl hempty, ih h⟩
    | written hv h =>
      refine List.forall_mem_cons.2 ⟨.inr ⟨_, List.mem_cons_self⟩, fun entry' hentry' => ?_⟩
      exact (ih h entry' hentry').imp_right fun ⟨w, hw⟩ => ⟨w, List.mem_cons_of_mem _ hw⟩

theorem Contents.Distinct.left {own rest : Contents} (h : Contents.Distinct (own ++ rest)) :
    own.Distinct := by
  rw [Contents.Distinct, List.map_append] at h
  exact h.of_append_left

theorem Contents.Distinct.nodup_keys (h : contents.Distinct) :
    (contents.map fun entry => entry.1.toList).Nodup := by
  have := List.Nodup.map (fun _ _ => String.toList_injective) h
  rwa [List.map_map] at this

theorem FieldsShape.holds (h : FieldsShape contents fields) (hdistinct : contents.Distinct) :
    Holds contents fields where
  distinct := hdistinct.nodup_keys.sublist h.keys_sublist
  known := h.known
  written := h.written_or_empty

/-- The order of the fields does not matter. -/
theorem Holds.perm (h : Holds contents fields) (hperm : fields.Perm fields') :
    Holds contents fields' where
  distinct := (hperm.map _).nodup_iff.1 h.distinct
  known field hfield := h.known field (hperm.mem_iff.2 hfield)
  written entry hentry := (h.written entry hentry).imp_right fun ⟨v, hv⟩ => ⟨v, hperm.mem_iff.1 hv⟩

/-- Fields may be sorted out by their names. -/
theorem Holds.filter (h : Holds contents fields) (p : Text → Bool) :
    Holds (contents.filter fun entry => p entry.1.toList)
      (fields.filter fun field => p field.1) where
  distinct := h.distinct.sublist (List.filter_sublist.map _)
  known field hfield := by
    obtain ⟨hfield, hp⟩ := List.mem_filter.1 hfield
    obtain ⟨entry, hentry, hname, hsays⟩ := h.known field hfield
    exact ⟨entry, List.mem_filter.2 ⟨hentry, by rwa [hname]⟩, hname, hsays⟩
  written entry hentry := by
    obtain ⟨hentry, hp⟩ := List.mem_filter.1 hentry
    exact (h.written entry hentry).imp_right fun ⟨v, hv⟩ => ⟨v, List.mem_filter.2 ⟨hv, hp⟩⟩

/-- The field of an entry says what the entry does. -/
theorem Holds.shape (h : Holds contents fields) (hdistinct : contents.Distinct)
    {entry : String × Part} (hentry : entry ∈ contents) (hv : (entry.1.toList, v) ∈ fields) :
    entry.2.Shape v := by
  obtain ⟨entry', hentry', hname, hsays⟩ := h.known _ hv
  rwa [List.inj_on_of_nodup_map hdistinct hentry hentry' (String.toList_injective hname.symm)]

theorem ObjectShape.exists_holds (h : ObjectShape contents v) (hdistinct : contents.Distinct) :
    ∃ fields, v = .object fields ∧ Holds contents fields := by
  cases h with
  | mk hfields hperm => exact ⟨_, rfl, (hfields.holds hdistinct).perm hperm⟩

end Fields

/-! ## Numbers that can be read -/

section Readable

variable {v : Tree} {items : List Tree} {contents : Contents}

theorem Quantity.Shape.readable {q : Quantity} (h : q.Shape v) : v.Readable := by
  cases h with
  | number hx hfits => exact List.forall_mem_singleton.2 ⟨hfits, _, hx⟩
  | equation => exact List.forall_mem_nil _

/-- A list can be read if what its items stand for is what can be read. -/
theorem readable_array {α : Type} {shape : α → Tree → Prop} {l : List α}
    (h : List.Forall₂ shape l items)
    (hreadable : ∀ a, ∀ v ∈ items, shape a v → v.Readable) : (Tree.array items).Readable := by
  refine readable_array_iff.2 ?_
  induction h with
  | nil => exact List.forall_mem_nil _
  | cons hv _ ih =>
    exact List.forall_mem_cons.2 ⟨hreadable _ _ List.mem_cons_self hv,
      ih fun a w hw => hreadable a w (List.mem_cons_of_mem _ hw)⟩

theorem Point.Shape.readable {p : Point} (h : p.Shape v) : v.Readable := by
  cases h with
  | mk hx hy =>
    exact readable_array_iff.2 (List.forall_mem_cons.2
      ⟨hx.readable, List.forall_mem_singleton.2 hy.readable⟩)

theorem ViewBox.Shape.readable {viewBox : ViewBox} (h : viewBox.Shape v) : v.Readable := by
  cases h with
  | text => exact List.forall_mem_nil _
  | values hitems => exact readable_array hitems fun _ _ _ hq => hq.readable

/-- What a field says can be read if the objects in it can. -/
theorem Part.Shape.readable {part : Part} (h : part.Shape v)
    (hobjects : ∀ contents w, w.depth < v.depth → ObjectShape contents w → w.Readable) :
    v.Readable := by
  have hitem : ∀ {items : List Tree} {w : Tree}, w ∈ items → w.depth < (Tree.array items).depth :=
    fun hw => Nat.lt_succ_of_le (depth_le_of_mem_items hw)
  cases h with
  | quantity hq => exact hq.readable
  | text => exact List.forall_mem_nil _
  | viewBox hviewBox => exact hviewBox.readable
  | flag => exact List.forall_mem_nil _
  | quantities hitems => exact readable_array hitems fun _ _ _ hq => hq.readable
  | points hitems => exact readable_array hitems fun _ _ _ hp => hp.readable
  | segments hitems =>
    exact readable_array hitems fun _ w hw hs => hobjects _ w (hitem hw) hs
  | elements hitems =>
    exact readable_array hitems fun _ w hw he => hobjects _ w (hitem hw) he

/-- **What is written as an object can be read.**  The induction is on how deep it is nested. -/
theorem ObjectShape.readable (h : ObjectShape contents v) : v.Readable := by
  induction hdepth : v.depth using Nat.strongRecOn generalizing contents v with
  | ind depth ih =>
    cases h with
    | @mk _ fields fields' hfields hperm =>
      refine readable_object_iff.2 fun field hfield => ?_
      obtain ⟨entry, -, -, hsays⟩ := hfields.known field (hperm.mem_iff.2 hfield)
      refine hsays.readable fun contents w hw hobject => ih w.depth ?_ hobject rfl
      calc w.depth < field.2.depth := hw
        _ ≤ depthOfFields fields' := depth_le_of_mem_fields hfield
        _ ≤ (Tree.object fields').depth := Nat.le_succ _
        _ = depth := hdepth

end Readable

end EquationFigure
