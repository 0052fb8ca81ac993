import EquationFigure.Figure.Path

/-!
# Documents

A document declares variables and describes a figure whose numbers are quantities over them.

* `Presentation` — what every element may carry besides its own attributes.
* `Element` — an element of the figure, of one of the nine kinds of `ElementKind`.
  `Element.measures` gives the attributes of an element that are a single number, in the order in
  which they are written.
* `Root` — the figure as a whole.
* `Document` — the figure with what is declared; `Document.vars` — the variables declared.
-/

set_option autoImplicit false

namespace EquationFigure

/-- What every element may carry besides its own attributes.  All but the two quantities is passed
on as it is. -/
structure Presentation where
  /-- The identifier. -/
  id? : Option Text := none
  /-- The class names. -/
  class? : Option Text := none
  /-- The paint inside. -/
  fill? : Option Text := none
  /-- The paint of the outline. -/
  stroke? : Option Text := none
  /-- The width of the outline. -/
  strokeWidth? : Option Quantity := none
  /-- The opacity. -/
  opacity? : Option Quantity := none
  /-- The transformation of coordinates. -/
  transform? : Option Text := none
  /-- The style declarations. -/
  style? : Option Text := none

/-- A point, as the document gives it. -/
structure Point where
  /-- The horizontal coordinate. -/
  x : Quantity
  /-- The vertical coordinate. -/
  y : Quantity

/-- An element of a figure. -/
inductive Element where
  /-- A rectangle. -/
  | rect (common : Presentation) (x? y? width? height? rx? ry? : Option Quantity)
  /-- A circle. -/
  | circle (common : Presentation) (cx? cy? r? : Option Quantity)
  /-- An ellipse. -/
  | ellipse (common : Presentation) (cx? cy? rx? ry? : Option Quantity)
  /-- A straight line. -/
  | line (common : Presentation) (x1? y1? x2? y2? : Option Quantity)
  /-- A closed line through points. -/
  | polygon (common : Presentation) (points : List Point)
  /-- An open line through points. -/
  | polyline (common : Presentation) (points : List Point)
  /-- A path. -/
  | path (common : Presentation) (segments : List Segment)
  /-- A line of text. -/
  | text (common : Presentation) (x? y? dx? dy? fontSize? : Option Quantity)
    (content? : Option Text)
  /-- Elements taken together. -/
  | group (common : Presentation) (children : List Element)

/-- The kinds of elements. -/
inductive ElementKind where
  /-- A rectangle. -/
  | rect
  /-- A circle. -/
  | circle
  /-- An ellipse. -/
  | ellipse
  /-- A straight line. -/
  | line
  /-- A closed line through points. -/
  | polygon
  /-- An open line through points. -/
  | polyline
  /-- A path. -/
  | path
  /-- A line of text. -/
  | text
  /-- Elements taken together. -/
  | group
deriving DecidableEq, Repr

namespace ElementKind

/-- All kinds, in the order in which messages list them. -/
def all : List ElementKind :=
  [rect, circle, ellipse, line, polygon, polyline, path, text, group]

theorem mem_all (kind : ElementKind) : kind ∈ all := by cases kind <;> decide

/-- The tag of the elements of the kind. -/
def tag : ElementKind → String
  | rect => "rect"
  | circle => "circle"
  | ellipse => "ellipse"
  | line => "line"
  | polygon => "polygon"
  | polyline => "polyline"
  | path => "path"
  | text => "text"
  | group => "g"

/-- The kind of the elements with the tag. -/
def ofTag? (tag : Text) : Option ElementKind := all.find? fun kind => kind.tag.toList = tag

@[simp] theorem ofTag?_tag (kind : ElementKind) : ofTag? kind.tag.toList = some kind := by
  cases kind <;> decide

end ElementKind

namespace Element

/-- The kind of the element. -/
def kind : Element → ElementKind
  | rect .. => .rect
  | circle .. => .circle
  | ellipse .. => .ellipse
  | line .. => .line
  | polygon .. => .polygon
  | polyline .. => .polyline
  | path .. => .path
  | text .. => .text
  | group .. => .group

/-- The tag of the element. -/
def tag (e : Element) : String := e.kind.tag

/-- What the element carries besides its own attributes. -/
def common : Element → Presentation
  | rect common .. | circle common .. | ellipse common .. | line common .. | polygon common ..
  | polyline common .. | path common .. | text common .. | group common .. => common

/-- The attributes of the element that are a single number, in the order in which they are
written. -/
def measures : Element → List (String × Option Quantity)
  | rect _ x? y? width? height? rx? ry? =>
    [("x", x?), ("y", y?), ("width", width?), ("height", height?), ("rx", rx?), ("ry", ry?)]
  | circle _ cx? cy? r? => [("cx", cx?), ("cy", cy?), ("r", r?)]
  | ellipse _ cx? cy? rx? ry? => [("cx", cx?), ("cy", cy?), ("rx", rx?), ("ry", ry?)]
  | line _ x1? y1? x2? y2? => [("x1", x1?), ("y1", y1?), ("x2", x2?), ("y2", y2?)]
  | text _ x? y? dx? dy? fontSize? _ =>
    [("x", x?), ("y", y?), ("dx", dx?), ("dy", dy?), ("font-size", fontSize?)]
  | polygon .. | polyline .. | path .. | group .. => []

/-- The text in the element. -/
def content? : Element → Option Text
  | text _ _ _ _ _ _ content? => content?
  | _ => none

/-- The elements in the element. -/
def children : Element → List Element
  | group _ children => children
  | _ => []

end Element

/-- The part of the plane that a figure shows, as the document gives it. -/
inductive ViewBox where
  /-- Equations in one text, separated by blanks and commas. -/
  | text (t : Text)
  /-- A list of quantities. -/
  | values (l : List Quantity)

namespace ViewBox

/-- Whether the character separates the values of a view box given as text. -/
def isSeparator (c : Char) : Bool := Text.isBlank c || c == ','

/-- The pieces of a text between separators; `piece` is the piece begun, read backwards. -/
def pieces (piece : Text) : Text → List Text
  | [] => if piece = [] then [] else [piece.reverse]
  | c :: t =>
    if isSeparator c then
      if piece = [] then pieces [] t else piece.reverse :: pieces [] t
    else pieces (c :: piece) t

/-- The values of the view box. -/
def toList : ViewBox → List Quantity
  | text t => (pieces [] t).map .equation
  | values l => l

end ViewBox

/-- A figure as a whole. -/
structure Root where
  /-- The part of the plane that is shown. -/
  viewBox? : Option ViewBox := none
  /-- The width of the figure. -/
  width? : Option Quantity := none
  /-- The height of the figure. -/
  height? : Option Quantity := none
  /-- The elements of the figure. -/
  children : List Element := []
  /-- What the figure carries besides. -/
  common : Presentation := {}

/-- What a document declares under a name. -/
inductive Declaration where
  /-- A quantity and nothing besides. -/
  | bare (q : Quantity)
  /-- A quantity, unless it is left out, whether the variable is switched off, and a remark. -/
  | full (value? : Option Quantity) (disabled : Bool) (comment? : Option Text)

/-- The variable declared. -/
def Declaration.toVariable : Declaration → Variable
  | bare q => { value? := some q.toVariableValue }
  | full value? disabled comment? =>
    { value? := value?.map Quantity.toVariableValue, disabled, comment? }

/-- A figure with the variables that its quantities may refer to. -/
structure Document where
  /-- What is declared, by name. -/
  declarations : Table Declaration := ∅
  /-- The figure. -/
  root : Root := {}

/-- The variables of the document. -/
def Document.vars (document : Document) : Variables :=
  ⟨document.declarations.entries.map fun (name, declaration) => (name, declaration.toVariable)⟩

end EquationFigure
