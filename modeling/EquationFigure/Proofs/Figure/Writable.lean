import EquationFigure.Proofs.Figure.Shapes

/-!
# Every document can be written

The shapes leave no document out: if its numbers are finite, it can be written, whatever elements
are nested in it, whatever its texts are and whichever of its fields say nothing.

* `Quantity.IsFinite`, `Element.IsFinite`, `Document.IsFinite` — all numbers are finite.
* `Writable` — something of a shape can be written.
* `shape_of_denotes` — a double may be written as any number that denotes it.
* `writable_object` — an object can be written if what its fields say can be.
* `writable_element`, `writable_document` — elements and documents.
-/

set_option autoImplicit false

namespace EquationFigure

open Json

/-! ## Finite numbers -/

/-- The quantity is no number that is infinite or none. -/
def Quantity.IsFinite : Quantity → Prop
  | number x => x.isFinite = true
  | equation _ => True

instance Quantity.decidableIsFinite : (q : Quantity) → Decidable q.IsFinite
  | number x => inferInstanceAs (Decidable (x.isFinite = true))
  | equation _ => .isTrue trivial

/-- The quantities that a field says, but for those of elements in it. -/
def Part.ownQuantities : Part → List Quantity
  | quantity q? => q?.toList
  | viewBox (some (.values l)) => l
  | quantities l => l
  | points l => l.flatMap fun p => [p.x, p.y]
  | segments l => l.flatMap Segment.arguments
  | viewBox _ | text _ | flag _ | elements _ => []

/-- All quantities that the fields say are finite. -/
def Contents.AreFinite (contents : Contents) : Prop :=
  ∀ entry ∈ contents, ∀ q ∈ entry.2.ownQuantities, q.IsFinite

theorem Contents.areFinite_iff {contents : Contents} :
    contents.AreFinite ↔ ∀ q ∈ contents.flatMap fun entry => entry.2.ownQuantities, q.IsFinite :=
  List.forall_mem_flatMap.symm

/-- All numbers of an element are finite, also those of the elements in it. -/
inductive Element.IsFinite : Element → Prop
  | mk {e : Element} : e.contents.AreFinite → (∀ child ∈ e.children, child.IsFinite) → e.IsFinite

/-- All numbers of a declaration are finite. -/
def Declaration.IsFinite : Declaration → Prop
  | bare q => q.IsFinite
  | full value? disabled comment? => (fullContents value? disabled comment?).AreFinite

/-- All numbers of a document are finite. -/
structure Document.IsFinite (document : Document) : Prop where
  /-- Those declared. -/
  declarations : ∀ name d, document.declarations.get? name = some d → d.IsFinite
  /-- Those of the figure. -/
  root : document.root.contents.AreFinite
  /-- Those of its elements. -/
  children : ∀ child ∈ document.root.children, child.IsFinite

/-! ## What can be written -/

/-- Something of the shape can be written. -/
def Writable (shape : Tree → Prop) : Prop := ∃ v t, shape v ∧ v.Writes t

section Writable

variable {part : Part} {contents : Contents}

theorem Writable.mono {shape shape' : Tree → Prop} (h : Writable shape)
    (hshape : ∀ v, shape v → shape' v) : Writable shape' := by
  obtain ⟨v, t, hv, ht⟩ := h
  exact ⟨v, t, hshape v hv, ht⟩

theorem writable_string (s : Text) : Writable (· = .string s) := by
  obtain ⟨t, ht⟩ := exists_quotes s
  exact ⟨_, _, rfl, .string ht⟩

/-- A double may be written as any number that denotes it and has at most two thousand million
decimals. -/
theorem shape_of_denotes {n : Number} {x : Float} {t : Text} (h : n.Denotes x) (ht : n.Spells t)
    (hlength : n.fraction.length ≤ 2000000000) : (Quantity.number x).Shape (.number n) :=
  .number h (h.exponentFits ht hlength)

theorem writable_quantity {q : Quantity} (h : q.IsFinite) : Writable q.Shape := by
  cases q with
  | number x =>
    obtain ⟨n, t, hdenotes, hfits, hspells⟩ := exists_denotes h
    exact ⟨_, _, .number hdenotes hfits, .number hspells⟩
  | equation t => exact (writable_string t).mono fun v hv => hv ▸ .equation

/-- A list can be written if its items can. -/
theorem writable_list {α : Type} {shape : α → Tree → Prop} {l : List α}
    (h : ∀ a ∈ l, Writable (shape a)) :
    Writable fun v => ∃ items, v = .array items ∧ List.Forall₂ shape l items := by
  have hitems : ∃ items texts, List.Forall₂ shape l items ∧
      List.Forall₂ Tree.Writes items texts := by
    induction l with
    | nil => exact ⟨[], [], .nil, .nil⟩
    | cons a l ih =>
      obtain ⟨⟨v, t, hv, ht⟩, h⟩ := List.forall_mem_cons.1 h
      obtain ⟨items, texts, hitems, htexts⟩ := ih h
      exact ⟨_, _, .cons hv hitems, .cons ht htexts⟩
  obtain ⟨items, texts, hitems, htexts⟩ := hitems
  exact ⟨_, _, ⟨items, rfl, hitems⟩, writes_array htexts⟩

theorem writable_quantities {l : List Quantity} (h : ∀ q ∈ l, q.IsFinite) :
    Writable fun v => ∃ items, v = .array items ∧ List.Forall₂ Quantity.Shape l items :=
  writable_list fun q hq => writable_quantity (h q hq)

theorem writable_point {p : Point} (hx : p.x.IsFinite) (hy : p.y.IsFinite) : Writable p.Shape := by
  obtain ⟨x, tx, hx, htx⟩ := writable_quantity hx
  obtain ⟨y, ty, hy, hty⟩ := writable_quantity hy
  exact ⟨_, _, .mk hx hy, writes_array (.cons htx (.cons hty .nil))⟩

/-- **An object can be written** if what its fields say can be, but for those that say nothing. -/
theorem writable_object
    (h : ∀ entry ∈ contents, entry.2.isEmpty = true ∨ Writable entry.2.Shape) :
    Writable (ObjectShape contents) := by
  have hfields : ∃ fields texts, FieldsShape contents fields ∧
      List.Forall₂ WritesField fields texts := by
    induction contents with
    | nil => exact ⟨[], [], .nil, .nil⟩
    | cons entry contents ih =>
      obtain ⟨hentry, h⟩ := List.forall_mem_cons.1 h
      obtain ⟨fields, texts, hfields, htexts⟩ := ih h
      obtain hempty | ⟨v, t, hv, ht⟩ := hentry
      · exact ⟨_, _, .omitted hempty hfields, htexts⟩
      · obtain ⟨key, hkey⟩ := exists_quotes entry.1.toList
        exact ⟨_, _, .written hv hfields, .cons (.mk hkey ht) htexts⟩
  obtain ⟨fields, texts, hfields, htexts⟩ := hfields
  exact ⟨_, _, .mk hfields (.refl fields), writes_object htexts⟩

theorem writable_segment {s : Segment} (h : ∀ q ∈ s.arguments, q.IsFinite) :
    Writable (ObjectShape s.contents) := by
  refine writable_object (List.forall_mem_cons.2 ⟨.inr ?_, List.forall_mem_singleton.2 (.inr ?_)⟩)
  · exact (writable_string s.command).mono fun v hv => hv ▸ .text
  · exact (writable_quantities h).mono fun v ⟨items, hv, hitems⟩ => hv ▸ .quantities hitems

/-- What a field says can be written, or it says nothing. -/
theorem Part.isEmpty_or_writable (h : ∀ q ∈ part.ownQuantities, q.IsFinite)
    (helements : ∀ l, part = .elements l → ∀ e ∈ l, Writable (ObjectShape e.contents)) :
    part.isEmpty = true ∨ Writable part.Shape := by
  cases part with
  | quantity q? =>
    cases q? with
    | none => exact .inl rfl
    | some q =>
      exact .inr ((writable_quantity (h q List.mem_cons_self)).mono fun v hv => .quantity hv)
  | text t? =>
    cases t? with
    | none => exact .inl rfl
    | some t => exact .inr ((writable_string t).mono fun v hv => hv ▸ .text)
  | viewBox viewBox? =>
    match viewBox?, h with
    | none, _ => exact .inl rfl
    | some (.text t), _ =>
      exact .inr ((writable_string t).mono fun v hv => hv ▸ .viewBox .text)
    | some (.values l), h =>
      exact .inr ((writable_quantities h).mono fun v ⟨items, hv, hitems⟩ =>
        hv ▸ .viewBox (.values hitems))
  | flag b =>
    cases b with
    | false => exact .inl rfl
    | true => exact .inr ⟨_, _, .flag, .yes⟩
  | quantities l =>
    exact .inr ((writable_quantities h).mono fun v ⟨items, hv, hitems⟩ => hv ▸ .quantities hitems)
  | points l =>
    have hpoint : ∀ p ∈ l, Writable p.Shape := fun p hp =>
      writable_point (h p.x (List.mem_flatMap.2 ⟨p, hp, by simp⟩))
        (h p.y (List.mem_flatMap.2 ⟨p, hp, by simp⟩))
    exact .inr ((writable_list hpoint).mono fun v ⟨items, hv, hitems⟩ => hv ▸ .points hitems)
  | segments l =>
    have hsegment : ∀ s ∈ l, Writable (ObjectShape s.contents) := fun s hs =>
      writable_segment fun q hq => h q (List.mem_flatMap.2 ⟨s, hs, hq⟩)
    exact .inr ((writable_list hsegment).mono fun v ⟨items, hv, hitems⟩ => hv ▸ .segments hitems)
  | elements l =>
    exact .inr ((writable_list (helements l rfl)).mono fun v ⟨items, hv, hitems⟩ =>
      hv ▸ .elements hitems)

/-- An object can be written if its numbers are finite and the elements in it can be written. -/
theorem writable_of_areFinite (h : contents.AreFinite)
    (helements : ∀ entry ∈ contents, ∀ l, entry.2 = .elements l →
      ∀ e ∈ l, Writable (ObjectShape e.contents)) :
    Writable (ObjectShape contents) :=
  writable_object fun entry hentry =>
    Part.isEmpty_or_writable (h entry hentry) (helements entry hentry)

end Writable

/-! ## Elements and documents -/

section Documents

variable {e : Element} {document : Document}

/-- The only elements that an element says anything about are those in it. -/
theorem Element.eq_children {l : List Element} :
    ∀ entry ∈ e.contents, entry.2 = .elements l → l = e.children := by
  cases e <;>
    simp [contents, ownContents, measures, inner, children, Presentation.contents, common, eq_comm]

theorem Root.eq_children {root : Root} {l : List Element} :
    ∀ entry ∈ root.contents, entry.2 = .elements l → l = root.children := by
  simp [contents, ownContents, Presentation.contents, eq_comm]

/-- **Every element with finite numbers can be written**, with the elements in it. -/
theorem writable_element (h : e.IsFinite) : Writable (ObjectShape e.contents) := by
  induction h with
  | @mk e hfinite _ ih =>
    refine writable_of_areFinite hfinite fun entry hentry l hl => ?_
    rw [Element.eq_children entry hentry hl]
    exact ih

theorem writable_declaration {d : Declaration} (h : d.IsFinite) : Writable d.Shape := by
  cases d with
  | bare q => exact (writable_quantity h).mono fun v hv => .bare hv
  | full value? disabled comment? =>
    have hobject : Writable (ObjectShape (Declaration.fullContents value? disabled comment?)) :=
      writable_of_areFinite h (by simp [Declaration.fullContents])
    exact hobject.mono fun v hv => .full hv

/-- What is declared can be written under the names declared. -/
theorem writable_declarations {table : Table Declaration}
    (h : ∀ name d, table.get? name = some d → d.IsFinite) : Writable (DeclarationsShape table) := by
  have hfields : ∀ names : List Text, (∀ name ∈ names, table.get? name ≠ none) →
      ∃ fields texts, fields.map Prod.fst = names ∧
        (∀ field ∈ fields, ∃ d, table.get? field.1 = some d ∧ d.Shape field.2) ∧
        List.Forall₂ WritesField fields texts := by
    intro names hnames
    induction names with
    | nil => exact ⟨[], [], rfl, List.forall_mem_nil _, .nil⟩
    | cons name names ih =>
      obtain ⟨hname, hnames⟩ := List.forall_mem_cons.1 hnames
      obtain ⟨fields, texts, hkeys, hdeclared, htexts⟩ := ih hnames
      obtain ⟨d, hd⟩ := Option.ne_none_iff_exists'.1 hname
      obtain ⟨v, t, hv, ht⟩ := writable_declaration (h name d hd)
      obtain ⟨key, hkey⟩ := exists_quotes name
      exact ⟨(name, v) :: fields, (key, t) :: texts, congrArg _ hkeys,
        List.forall_mem_cons.2 ⟨⟨d, hd, hv⟩, hdeclared⟩, .cons (.mk hkey ht) htexts⟩
  have hnames : ∀ name ∈ table.names.dedup, table.get? name ≠ none := fun name hname hnone =>
    Table.get?_eq_none_iff.1 hnone (List.mem_dedup.1 hname)
  obtain ⟨fields, texts, hkeys, hdeclared, htexts⟩ := hfields _ hnames
  refine ⟨_, _, .mk (hkeys ▸ List.nodup_dedup _) hdeclared (fun name hname => ?_),
    writes_object htexts⟩
  rw [hkeys, List.mem_dedup]
  exact of_not_not fun hother => hname (Table.get?_eq_none_iff.2 hother)

/-- **Every document with finite numbers can be written.** -/
theorem writable_document (h : document.IsFinite) : Writable document.Shape := by
  obtain ⟨equations, t, hequations, ht⟩ := writable_declarations h.declarations
  obtain ⟨svg, t', hsvg, ht'⟩ :=
    writable_of_areFinite h.root fun entry hentry l hl =>
      Root.eq_children entry hentry hl ▸ fun e he => writable_element (h.children e he)
  obtain ⟨key, hkey⟩ := exists_quotes "equations".toList
  obtain ⟨key', hkey'⟩ := exists_quotes "svg".toList
  exact ⟨_, _, .mk (.written hequations) (.written hsvg) (.refl _),
    writes_object (.cons (.mk hkey ht) (.cons (.mk hkey' ht') .nil))⟩

end Documents

end EquationFigure
