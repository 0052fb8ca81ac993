import EquationFigure.Figure.Document
import EquationFigure.Svg.Node

/-!
# Building markup trees

Building an element evaluates its attributes one after the other.  An attribute that cannot be
evaluated is either left out and reported, or ends the building, as the options say; the reason is
the same in both cases.

* `Fault` — why an attribute cannot be evaluated; `AttributeError` — with the place of the
  attribute.
* `Builder.attributeOf` — the attribute whose text is worked out by the given evaluation.  Every
  evaluated attribute is built by it.
* `Builder.element` — the tree of an element.
-/

set_option autoImplicit false

namespace EquationFigure

/-! ## What can go wrong -/

/-- Why an attribute cannot be evaluated. -/
inductive Fault where
  /-- The view box has another number of values than four. -/
  | viewBoxLength (found : Nat)
  /-- The segment at the given place of a path is no segment. -/
  | segment (index : Nat) (cause : SegmentError)
  /-- An equation has no value. -/
  | equation (cause : EvalError)

/-- What is told of an attribute that was left out. -/
def Fault.message : Fault → String
  | viewBoxLength found => "viewBox needs 4 values, found " ++ toString found
  | segment _ cause => cause.message
  | equation cause => cause.message

/-- An attribute that cannot be evaluated. -/
structure AttributeError where
  /-- The tag of its element. -/
  element : String
  /-- Its name. -/
  name : String
  /-- The reason. -/
  fault : Fault

namespace AttributeError

/-- The kind of the reason in a few words, as it ends the diagnostic code. -/
def kind (e : AttributeError) : String :=
  match e.fault with
  | .viewBoxLength _ => "view_box"
  | .segment .. => "path"
  | .equation _ => "attribute"

/-- The diagnostic code. -/
def code (e : AttributeError) : String := "svgeq::render::" ++ e.kind

/-- What is told when building ends for it; the cause of the fault is told besides. -/
def message (e : AttributeError) : String :=
  match e.fault with
  | .viewBoxLength _ => e.fault.message
  | .segment index _ => "invalid path segment " ++ toString index
  | .equation _ => "cannot evaluate `" ++ e.name ++ "` on <" ++ e.element ++ ">"

end AttributeError

/-- What is remembered of an attribute that was left out. -/
structure Diagnostic where
  /-- The tag of its element. -/
  element : String
  /-- Its name. -/
  name : String
  /-- The reason. -/
  message : String
deriving DecidableEq, Repr

namespace Diagnostic

/-- The diagnostic in one line. -/
def text (d : Diagnostic) : String := "<" ++ d.element ++ "> " ++ d.name ++ ": " ++ d.message

/-- The lines of the diagnostics, each once, in the order in which they first occur. -/
def messages (diagnostics : List Diagnostic) : List String :=
  (diagnostics.map text).eraseDups

end Diagnostic

/-! ## The state of building -/

/-- What building remembers: the session of its evaluations and the attributes left out, in
order. -/
structure BuildState where
  /-- What evaluation remembers. -/
  session : Session := {}
  /-- The attributes left out so far. -/
  diagnostics : List Diagnostic := []

/-- Building within a session. -/
abbrev BuildM := Attempt BuildState AttributeError

/-- How figures are rendered. -/
structure RenderOptions where
  /-- How equations are evaluated. -/
  eval : EvalOptions := {}
  /-- Whether the first attribute that cannot be evaluated ends the rendering. -/
  strict : Bool := false
  /-- How many spaces each level of nesting is indented by, if tags go on lines of their own. -/
  indent? : Option Nat := none
deriving DecidableEq, Repr

/-- What building depends on. -/
structure Builder where
  /-- The variables that quantities may refer to. -/
  vars : Variables
  /-- How the figure is rendered. -/
  options : RenderOptions

namespace Builder

/-- The number that a quantity stands for. -/
def quantity (b : Builder) (q : Quantity) : EvalM Float := q.evaluate b.vars b.options.eval

/-- Leaves an attribute out, or ends the building with it. -/
def skip (b : Builder) (e : AttributeError) : BuildM Unit :=
  if b.options.strict then .fail e
  else
    .update fun s =>
      { session := { s.session with
          events := .skipped e.element e.name e.fault.message :: s.session.events }
        diagnostics := s.diagnostics ++ [⟨e.element, e.name, e.fault.message⟩] }

/-- An evaluation within building, whose failure is a value. -/
def outcome {ε α : Type} (x : Attempt Session ε α) : BuildM (Except ε α) :=
  ⟨fun s => let (r, session) := x.run s.session; (.ok r, { s with session })⟩

/-- The value of an evaluation, or `none` if it failed and its attribute was left out. -/
def evaluated? {α : Type} (b : Builder) (element name : String)
    (x : Attempt Session Fault α) : BuildM (Option α) := do
  match ← outcome x with
  | .ok a => return some a
  | .error fault =>
    b.skip ⟨element, name, fault⟩
    return none

/-- The attribute whose text the evaluation works out, or none if it was left out. -/
def attributeOf (b : Builder) (element name : String) (x : Attempt Session Fault Text) :
    BuildM (List Svg.Attribute) := do
  match ← b.evaluated? element name x with
  | some t => return [(name, t)]
  | none => return []

/-! ## The texts of attributes -/

/-- An evaluation of an equation as that of an attribute. -/
def ofEquation {α : Type} (x : EvalM α) : Attempt Session Fault α :=
  ⟨fun s =>
    match x.run s with
    | (.ok a, s) => (.ok a, s)
    | (.error e, s) => (.error (.equation e), s)⟩

/-- The text of a single number. -/
def quantityText (b : Builder) (q : Quantity) : Attempt Session Fault Text :=
  ofEquation do return numberText (← b.quantity q)

/-- The texts of points, each the two coordinates with a comma between them. -/
def pointTexts (b : Builder) : List Point → EvalM (List Text)
  | [] => return []
  | point :: rest => do
    let x ← b.quantity point.x
    let y ← b.quantity point.y
    return (numberText x ++ ',' :: numberText y) :: (← b.pointTexts rest)

/-- The numbers of quantities, evaluated in order. -/
def quantities (b : Builder) : List Quantity → EvalM (List Float)
  | [] => return []
  | q :: rest => do
    let x ← b.quantity q
    return x :: (← b.quantities rest)

/-- The segments of a path with their numbers worked out, from the one at place `index` on.  The
command of a segment is checked before its arguments are evaluated. -/
def drawnSegments (b : Builder) (index : Nat) :
    List Segment → Attempt Session Fault (List DrawnSegment)
  | [] => return []
  | segment :: rest =>
    match segment.letter with
    | .error cause => .fail (.segment index cause)
    | .ok letter => do
      let numbers ← ofEquation (b.quantities segment.arguments)
      return ⟨letter, numbers⟩ :: (← b.drawnSegments (index + 1) rest)

/-! ## Attributes -/

/-- The attribute of a quantity, if there is one. -/
def measure (b : Builder) (element name : String) : Option Quantity →
    BuildM (List Svg.Attribute)
  | none => return []
  | some q => b.attributeOf element name (b.quantityText q)

/-- The attributes of the quantities, in order. -/
def measures (b : Builder) (element : String) :
    List (String × Option Quantity) → BuildM (List Svg.Attribute)
  | [] => return []
  | (name, q?) :: rest => do
    let first ← b.measure element name q?
    return first ++ (← b.measures element rest)

/-- The attribute of a list of points, which an empty list does not have. -/
def points (b : Builder) (element : String) : List Point → BuildM (List Svg.Attribute)
  | [] => return []
  | l => b.attributeOf element "points"
    (ofEquation do return Text.joinWith [' '] (← b.pointTexts l))

/-- The attribute of a list of segments, which an empty list does not have. -/
def outline (b : Builder) (element : String) : List Segment → BuildM (List Svg.Attribute)
  | [] => return []
  | l => b.attributeOf element "d" do return outlineText (← b.drawnSegments 0 l)

/-- The attribute that passes a text on, if there is one. -/
def passOn (name : String) : Option Text → List Svg.Attribute
  | none => []
  | some t => [(name, t)]

/-- The attributes that come before those of the element itself. -/
def identity (p : Presentation) : List Svg.Attribute :=
  passOn "id" p.id? ++ passOn "class" p.class?

/-- The attributes that come after those of the element itself. -/
def style (b : Builder) (element : String) (p : Presentation) :
    BuildM (List Svg.Attribute) := do
  let strokeWidth ← b.measure element "stroke-width" p.strokeWidth?
  let opacity ← b.measure element "opacity" p.opacity?
  return passOn "fill" p.fill? ++ passOn "stroke" p.stroke? ++ strokeWidth ++ opacity ++
    passOn "transform" p.transform? ++ passOn "style" p.style?

/-- The attributes of the element itself. -/
def ownAttributes (b : Builder) (e : Element) : BuildM (List Svg.Attribute) :=
  match e with
  | .polygon _ l | .polyline _ l => b.points e.tag l
  | .path _ l => b.outline e.tag l
  | _ => b.measures e.tag e.measures

/-- All attributes of the element, in the order in which they are written and evaluated. -/
def attributes (b : Builder) (e : Element) : BuildM (List Svg.Attribute) := do
  let own ← b.ownAttributes e
  let style ← b.style e.tag e.common
  return identity e.common ++ own ++ style

/-! ## Trees -/

mutual

/-- The tree of an element. -/
def element (b : Builder) : Element → BuildM Svg.Node
  | .group common children => do
    let attributes ← b.attributes (.group common children)
    return .element "g" attributes none (← b.elements children)
  | e => do
    let attributes ← b.attributes e
    return .element e.tag attributes e.content? []

/-- The trees of elements, in order. -/
def elements (b : Builder) : List Element → BuildM (List Svg.Node)
  | [] => return []
  | e :: rest => do
    let first ← b.element e
    return first :: (← b.elements rest)

end

end Builder

end EquationFigure
