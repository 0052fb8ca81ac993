import EquationFigure.Figure.Document
import EquationFigure.Json.Error

/-!
# What the fields of a JSON object say

Whatever is read as an object with fields of its own has a `Schema`, which says how the value of
each field is understood.  The fields may come in any order; those that the schema does not have are
set apart.

* `Quantity.ofJson`, `textOfJson`, `listOfJson` — the values that fields are made of.
* `Part` — what a field says; `PartReader` — how its value is understood.
* `Schema.parts` — what all the fields of an object say, each at most once.
-/

set_option autoImplicit false

namespace EquationFigure

open Json (Value Mismatch)

/-! ## Quantities and texts -/

/-- The quantity that a number or a string says. -/
def Quantity.ofJson? : Value → Option Quantity
  | .integer n => some (.number (Json.floatOfInt n))
  | .float x => some (.number x)
  | .string t => some (.equation t)
  | _ => none

/-- The quantity that the value says. -/
def Quantity.ofJson (v : Value) : Except Mismatch Quantity :=
  match ofJson? v with
  | some q => .ok q
  | none => .error (.noAlternative "Scalar")

/-- The text that the value says. -/
def textOfJson : Value → Except Mismatch Text
  | .string t => .ok t
  | v => .error (.wrongKind v "a string")

/-- What the value says, where `null` says nothing. -/
def optional {α : Type} (read : Value → Except Mismatch α) : Value → Except Mismatch (Option α)
  | .null => .ok none
  | v => some <$> read v

/-- The list of things that the value says. -/
def listOfJson {α : Type} (read : Value → Except Mismatch α) : Value → Except Mismatch (List α)
  | .array l => l.mapM read
  | v => .error (.wrongKind v "a sequence")

/-! ## Fields -/

/-- What a field of an object says. -/
inductive Part where
  /-- A quantity, or nothing. -/
  | quantity (q? : Option Quantity)
  /-- A text, or nothing. -/
  | text (t? : Option Text)
  /-- A part of the plane, or nothing. -/
  | viewBox (viewBox? : Option ViewBox)
  /-- A word for yes or no. -/
  | flag (b : Bool)
  /-- A list of quantities. -/
  | quantities (l : List Quantity)
  /-- A list of points. -/
  | points (l : List Point)
  /-- A list of segments. -/
  | segments (l : List Segment)
  /-- A list of elements. -/
  | elements (l : List Element)

/-- How the value of a field is understood. -/
abbrev PartReader := Value → Except Mismatch Part

namespace PartReader

/-- A quantity, which may be left out. -/
def quantity : PartReader := fun v => .quantity <$> optional Quantity.ofJson v

/-- A text, which may be left out. -/
def text : PartReader := fun v => .text <$> optional textOfJson v

/-- A text that may not be left out. -/
def word : PartReader := fun v => (.text ∘ some) <$> textOfJson v

/-- A word for yes or no. -/
def flag : PartReader
  | .bool b => .ok (.flag b)
  | v => .error (.wrongKind v "a boolean")

/-- A list of things. -/
def list {α : Type} (part : List α → Part) (read : Value → Except Mismatch α) : PartReader :=
  fun v => part <$> listOfJson read v

end PartReader

/-- The fields that an object may have, with how their values are understood. -/
abbrev Schema := List (String × PartReader)

/-- What the fields of an object say: those of its schema, and the others as they are, each in the
order in which they come. -/
structure Parts where
  /-- The fields of the schema. -/
  known : List (Text × Part) := []
  /-- The other fields. -/
  others : List (Text × Value) := []

namespace Parts

/-- What the field of the given name says, if there is one. -/
def get? (parts : Parts) (name : String) : Option Part := parts.known.lookup name.toList

/-- The quantity that the field says. -/
def quantity? (parts : Parts) (name : String) : Option Quantity :=
  match parts.get? name with
  | some (.quantity q?) => q?
  | _ => none

/-- The text that the field says. -/
def text? (parts : Parts) (name : String) : Option Text :=
  match parts.get? name with
  | some (.text t?) => t?
  | _ => none

/-- The part of the plane that the field says. -/
def viewBox? (parts : Parts) (name : String) : Option ViewBox :=
  match parts.get? name with
  | some (.viewBox viewBox?) => viewBox?
  | _ => none

/-- Whether the field says yes. -/
def flag (parts : Parts) (name : String) : Bool :=
  match parts.get? name with
  | some (.flag b) => b
  | _ => false

/-- The quantities that the field says. -/
def quantities (parts : Parts) (name : String) : List Quantity :=
  match parts.get? name with
  | some (.quantities l) => l
  | _ => []

/-- The points that the field says. -/
def points (parts : Parts) (name : String) : List Point :=
  match parts.get? name with
  | some (.points l) => l
  | _ => []

/-- The segments that the field says. -/
def segments (parts : Parts) (name : String) : List Segment :=
  match parts.get? name with
  | some (.segments l) => l
  | _ => []

/-- The elements that the field says. -/
def elements (parts : Parts) (name : String) : List Element :=
  match parts.get? name with
  | some (.elements l) => l
  | _ => []

/-- Refuses a second field of the name. -/
def checkNew (parts : Parts) (name : Text) : Except Mismatch Unit :=
  if (parts.known.lookup name).isSome then .error (.duplicateField (String.ofList name))
  else .ok ()

/-- The parts with what one more field of the schema says. -/
def add (parts : Parts) (name : Text) (part : Part) : Parts :=
  { parts with known := parts.known ++ [(name, part)] }

/-- The parts with one more field that the schema does not have. -/
def addOther (parts : Parts) (name : Text) (v : Value) : Parts :=
  { parts with others := parts.others ++ [(name, v)] }

end Parts

namespace Schema

/-- How the field of the name is understood, if the schema has it. -/
def reader? (schema : Schema) (name : Text) : Option PartReader :=
  (schema.find? fun entry => entry.1.toList = name).map (·.2)

/-- Takes up one more field. -/
def take (schema : Schema) (parts : Parts) (field : Text × Value) : Except Mismatch Parts :=
  match schema.reader? field.1 with
  | none => .ok (parts.addOther field.1 field.2)
  | some read => do
    parts.checkNew field.1
    return parts.add field.1 (← read field.2)

/-- What the fields say.  The first of them that cannot be understood is the one reported. -/
def parts (schema : Schema) (fields : List (Text × Value)) : Except Mismatch Parts :=
  fields.foldlM schema.take {}

end Schema

end EquationFigure
