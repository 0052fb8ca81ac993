import EquationFigure.Figure.Part

/-!
# The JSON shapes of a document

A document is made of points, segments, declarations and elements, and each has its shape in JSON,
some of them more than one.

* `Point.ofJson`, `Segment.ofJson`, `ViewBox.ofJson`, `Declaration.ofJson` — what stands within
  fields.
* `Presentation.ofFields` — what every element may have.
* `ElementKind.schema` — the fields of the elements of a kind; `Element.ofJson` — an element.
-/

set_option autoImplicit false

namespace EquationFigure

open Json (Value Mismatch)

/-! ## Points -/

/-- The point that a list of two quantities says. -/
def Point.ofJson : Value → Except Mismatch Point
  | .array [] => .error (.wrongLength 0 "an array of length 2")
  | .array [x] => do
    let _ ← Quantity.ofJson x
    .error (.wrongLength 1 "an array of length 2")
  | .array (x :: y :: rest) => do
    let x ← Quantity.ofJson x
    let y ← Quantity.ofJson y
    if rest = [] then return ⟨x, y⟩
    else .error (.wrongLength (rest.length + 2) "2 elements in sequence")
  | v => .error (.wrongKind v "an array of length 2")

/-! ## Segments -/

/-- The fields of a segment. -/
def Segment.schema : Schema :=
  [("cmd", PartReader.word), ("args", PartReader.list .quantities Quantity.ofJson)]

/-- The segment that an object says, or a list of the command and the list of its arguments. -/
def Segment.ofJson : Value → Except Mismatch Segment
  | .object fields => do
    let parts ← schema.parts fields
    match parts.text? "cmd" with
    | some command => return ⟨command, parts.quantities "args"⟩
    | none => .error (.missingField "cmd")
  | .array [] => .error (.wrongLength 0 "struct PathSegment with 2 elements")
  | .array [command] => return ⟨← textOfJson command, []⟩
  | .array (command :: arguments :: rest) => do
    let command ← textOfJson command
    let arguments ← listOfJson Quantity.ofJson arguments
    if rest = [] then return ⟨command, arguments⟩
    else .error (.wrongLength (rest.length + 2) "2 elements in sequence")
  | v => .error (.wrongKind v "struct PathSegment")

/-! ## The part of the plane -/

/-- The part of the plane that a string or a list of quantities says. -/
def ViewBox.ofJson : Value → Except Mismatch ViewBox
  | .string t => .ok (.text t)
  | .array l =>
    match l.mapM Quantity.ofJson? with
    | some quantities => .ok (.values quantities)
    | none => .error (.noAlternative "ViewBox")
  | _ => .error (.noAlternative "ViewBox")

/-! ## Declarations -/

/-- The fields of a declaration in full. -/
def Declaration.schema : Schema :=
  [("value", PartReader.quantity), ("disabled", PartReader.flag), ("comment", PartReader.text)]

/-- The declaration that a quantity or an object says. -/
def Declaration.ofJson? : Value → Option Declaration
  | .object fields =>
    match schema.parts fields with
    | .ok parts =>
      some (.full (parts.quantity? "value") (parts.flag "disabled") (parts.text? "comment"))
    | .error _ => none
  | v => (Quantity.ofJson? v).map .bare

/-- The declaration that the value says. -/
def Declaration.ofJson (v : Value) : Except Mismatch Declaration :=
  match ofJson? v with
  | some d => .ok d
  | none => .error (.noAlternative "EquationEntry")

/-! ## Elements -/

/-- The fields that every element may have. -/
def Presentation.schema : Schema :=
  [("id", PartReader.text), ("class", PartReader.text), ("fill", PartReader.text),
   ("stroke", PartReader.text), ("stroke-width", PartReader.quantity),
   ("opacity", PartReader.quantity), ("transform", PartReader.text), ("style", PartReader.text)]

/-- What the fields say that every element may have. -/
def Presentation.ofFields (fields : List (Text × Value)) : Except Mismatch Presentation := do
  let parts ← schema.parts fields
  return {
    id? := parts.text? "id"
    class? := parts.text? "class"
    fill? := parts.text? "fill"
    stroke? := parts.text? "stroke"
    strokeWidth? := parts.quantity? "stroke-width"
    opacity? := parts.quantity? "opacity"
    transform? := parts.text? "transform"
    style? := parts.text? "style" }

namespace ElementKind

/-- The name of the kind in messages. -/
def typeName : ElementKind → String
  | rect => "struct Rect"
  | circle => "struct Circle"
  | ellipse => "struct Ellipse"
  | line => "struct Line"
  | polygon => "struct Polygon"
  | polyline => "struct Polyline"
  | path => "struct Path"
  | text => "struct Text"
  | group => "struct Group"

/-- The kind that a string says by its tag. -/
def ofJson : Value → Except Mismatch ElementKind
  | .string t =>
    match ofTag? t with
    | some kind => .ok kind
    | none => .error (.unknownWord t (all.map tag))
  | v => .error (.wrongKind v "variant identifier")

/-- The kind that a string says by its tag, or a whole number by its place among all kinds. -/
def ofJsonOrPlace : Value → Except Mismatch ElementKind
  | .integer (.ofNat n) =>
    match all[n]? with
    | some kind => .ok kind
    | none => .error (.wrongValue (.integer n) "variant index 0 <= i < 9")
  | v => ofJson v

/-- The fields that are attributes of a single number. -/
def measureSchema (names : List String) : Schema := names.map fun name => (name, .quantity)

/-- The fields of the elements of the kind, where `element` understands those inside. -/
def schema (element : Value → Except Mismatch Element) : ElementKind → Schema
  | rect => measureSchema ["x", "y", "width", "height", "rx", "ry"]
  | circle => measureSchema ["cx", "cy", "r"]
  | ellipse => measureSchema ["cx", "cy", "rx", "ry"]
  | line => measureSchema ["x1", "y1", "x2", "y2"]
  | polygon | polyline => [("points", PartReader.list .points Point.ofJson)]
  | path => [("d", PartReader.list .segments Segment.ofJson)]
  | text => measureSchema ["x", "y", "dx", "dy", "font-size"] ++ [("text", PartReader.text)]
  | group => [("children", PartReader.list .elements element)]

/-- The element of the kind made of the parts. -/
def assemble (common : Presentation) (parts : Parts) : ElementKind → Element
  | rect => .rect common (parts.quantity? "x") (parts.quantity? "y") (parts.quantity? "width")
    (parts.quantity? "height") (parts.quantity? "rx") (parts.quantity? "ry")
  | circle => .circle common (parts.quantity? "cx") (parts.quantity? "cy") (parts.quantity? "r")
  | ellipse => .ellipse common (parts.quantity? "cx") (parts.quantity? "cy")
    (parts.quantity? "rx") (parts.quantity? "ry")
  | line => .line common (parts.quantity? "x1") (parts.quantity? "y1") (parts.quantity? "x2")
    (parts.quantity? "y2")
  | polygon => .polygon common (parts.points "points")
  | polyline => .polyline common (parts.points "points")
  | path => .path common (parts.segments "d")
  | text => .text common (parts.quantity? "x") (parts.quantity? "y") (parts.quantity? "dx")
    (parts.quantity? "dy") (parts.quantity? "font-size") (parts.text? "text")
  | group => .group common (parts.elements "children")

end ElementKind

/-- What the fields of an element say of its kind, and the other fields. -/
structure Kinded where
  /-- The kind, if a field has said it. -/
  kind? : Option ElementKind := none
  /-- The other fields, in order. -/
  others : List (Text × Value) := []

namespace Kinded

/-- The name of the field that says the kind of an element. -/
def kindName : Text := ['t', 'y', 'p', 'e']

/-- Refuses a second field that says the kind. -/
def checkNew (kinded : Kinded) : Except Mismatch Unit :=
  if kinded.kind?.isSome then .error (.duplicateField (String.ofList kindName)) else .ok ()

/-- Takes up one more field. -/
def take (kinded : Kinded) (field : Text × Value) : Except Mismatch Kinded :=
  if field.1 = kindName then do
    kinded.checkNew
    return { kinded with kind? := some (← ElementKind.ofJsonOrPlace field.2) }
  else .ok { kinded with others := kinded.others ++ [field] }

/-- The element that the fields say, where `element` understands those inside. -/
def toElement (element : Value → Except Mismatch Element) (kinded : Kinded) :
    Except Mismatch Element :=
  match kinded.kind? with
  | none => .error (.missingField (String.ofList kindName))
  | some kind => do
    let parts ← (kind.schema element).parts kinded.others
    let common ← Presentation.ofFields parts.others
    return kind.assemble common parts

end Kinded

/-- What messages call an element. -/
def Element.typeName : String := "internally tagged enum Element"

/-- The element that an object says, with elements inside it nested less than so deep.  A list is
understood as far as the kind that it begins with, and then refused. -/
def Element.ofJson : (levels : Nat) → Value → Except Mismatch Element
  | 0, v => .error (.wrongKind v Element.typeName)
  | levels + 1, .object fields => do
    let kinded ← fields.foldlM Kinded.take {}
    kinded.toElement (Element.ofJson levels)
  | _, .array [] => .error (.missingField (String.ofList Kinded.kindName))
  | _, .array (first :: rest) => do
    let kind ← ElementKind.ofJsonOrPlace first
    .error (.wrongKind (.array rest) kind.typeName)
  | _, v => .error (.wrongKind v Element.typeName)

end EquationFigure
