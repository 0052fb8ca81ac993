import EquationFigure.Figure.Schema
import EquationFigure.Json.Skipping

/-!
# Reading documents

A document is a JSON object with the fields `equations` and `svg`, or a list of their values in that
order; either may be missing.  What it says is worked out while it is being read, so of several
things wrong with it the first one is reported.  Some values have to be read whole before they say
anything: an equation, an element of the figure and a field of the figure itself.

* `Reading.document` — reads a document.
* `Document.read` — reads a text that holds one.
-/

set_option autoImplicit false

namespace EquationFigure

open Json Json.Reader

namespace Reading

/-! ## Equations -/

/-- How deep the value of an equation may be nested: it stands in two objects. -/
def equationLevels : Nat := nestingLimit - 2

/-- Takes up one more declaration, in place of an earlier one of its name. -/
def declarationField (declarations : Table Declaration) (name : Text) :
    Reader (Table Declaration) := do
  let v ← afterColon (value equationLevels)
  let d ← interpreted (Declaration.ofJson v)
  return declarations.insert name d

/-- Reads what is declared. -/
def declarations : Reader (Table Declaration) :=
  byKind (refuse "a map" (.array [])) (object declarationField ∅) (refuse "a map")

/-! ## Elements -/

/-- How deep a field of an element may be nested: it stands in the document, the figure, the list of
elements and the element. -/
def elementLevels : Nat := nestingLimit - 4

/-- Reads the kind of an element. -/
def kind : Reader ElementKind :=
  byKind (unexpected "variant identifier") (unexpected "variant identifier") fun v =>
    interpreted (ElementKind.ofJson v)

/-- Takes up one more field of an element. -/
def elementField (kinded : Kinded) (name : Text) : Reader Kinded := do
  if name = Kinded.kindName then
    interpreted kinded.checkNew
    return { kinded with kind? := some (← afterColon kind) }
  else
    let v ← afterColon (value elementLevels)
    return { kinded with others := kinded.others ++ [(name, v)] }

/-- Refuses an element written as a list, once it has been read: the kind comes first in it. -/
def listedElement : Reader Element := do
  advance
  if ← hasItem true then
    let kind ← kind
    let rest ← itemsWithin (value elementLevels) false (← steps)
    advance
    refuse kind.typeName (.array rest)
  else .fail (.mismatch (.missingField (String.ofList Kinded.kindName)))

/-- Reads an element of the figure. -/
def element : Reader Element :=
  byKind listedElement
    (do
      let kinded ← object elementField {}
      interpreted (kinded.toElement (Element.ofJson nestingLimit)))
    (refuse Element.typeName)

/-- Reads the elements of the figure. -/
def elements : Reader (List Element) :=
  byKind (list element) (refuse "a sequence" (.object [])) (refuse "a sequence")

/-! ## The figure -/

/-- How deep a field of the figure may be nested: it stands in two objects. -/
def rootLevels : Nat := nestingLimit - 2

/-- The fields of the figure that are read whole, apart from those that every element may have. -/
def rootSchema : Schema :=
  [("viewBox", fun v => .viewBox <$> optional ViewBox.ofJson v), ("width", PartReader.quantity),
   ("height", PartReader.quantity)]

/-- The name of the field that holds the elements of the figure. -/
def childrenName : Text := ['c', 'h', 'i', 'l', 'd', 'r', 'e', 'n']

/-- Takes up one more field of the figure. -/
def rootField (parts : Parts) (name : Text) : Reader Parts := do
  if name = childrenName then
    interpreted (parts.checkNew name)
    return parts.add name (.elements (← afterColon elements))
  else
    match rootSchema.reader? name with
    | none => return parts.addOther name (← afterColon (value rootLevels))
    | some read =>
      interpreted (parts.checkNew name)
      let v ← afterColon (value rootLevels)
      return parts.add name (← interpreted (read v))

/-- The figure that its fields say. -/
def rootOfParts (parts : Parts) : Except Mismatch Root := do
  let common ← Presentation.ofFields parts.others
  return {
    viewBox? := parts.viewBox? "viewBox"
    width? := parts.quantity? "width"
    height? := parts.quantity? "height"
    children := parts.elements (String.ofList childrenName)
    common }

/-- Reads the figure. -/
def root : Reader Root :=
  byKind (refuse "struct SvgRoot" (.array []))
    (do interpreted (rootOfParts (← object rootField {})))
    (refuse "struct SvgRoot")

/-! ## Documents -/

/-- What has been read of a document. -/
structure Sections where
  /-- What is declared, if its field has been read. -/
  declarations? : Option (Table Declaration) := none
  /-- The figure, if its field has been read. -/
  root? : Option Root := none

/-- The document made of the sections. -/
def Sections.toDocument (s : Sections) : Document :=
  ⟨s.declarations?.getD ∅, s.root?.getD {}⟩

/-- The name of the field that holds what is declared. -/
def declarationsName : Text := ['e', 'q', 'u', 'a', 't', 'i', 'o', 'n', 's']

/-- The name of the field that holds the figure. -/
def rootName : Text := ['s', 'v', 'g']

/-- Refuses a second field of the name if there was one. -/
def checkNew (read : Bool) (name : Text) : Reader Unit :=
  if read then .fail (.mismatch (.duplicateField (String.ofList name))) else pure ()

/-- Takes up one more field of a document. -/
def documentField (s : Sections) (name : Text) : Reader Sections := do
  if name = declarationsName then
    checkNew s.declarations?.isSome name
    return { s with declarations? := some (← afterColon declarations) }
  else if name = rootName then
    checkNew s.root?.isSome name
    return { s with root? := some (← afterColon root) }
  else
    afterColon skip
    return s

/-- Reads a document written as a list. -/
def listedDocument : Reader Document := do
  advance
  if ← hasItem true then
    let declarations ← declarations
    if ← hasItem false then
      let root ← root
      closeList
      return ⟨declarations, root⟩
    else
      closeList
      return ⟨declarations, {}⟩
  else
    closeList
    return {}

/-- Reads a document. -/
def document : Reader Document :=
  byKind listedDocument (Sections.toDocument <$> object documentField {})
    (refuse "struct Document")

end Reading

/-- Reads the document that the text holds. -/
def Document.read (source : Text) : Except ReadError Document :=
  complete Reading.document source

end EquationFigure
