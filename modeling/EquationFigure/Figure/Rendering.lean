import EquationFigure.Figure.Builder
import EquationFigure.Figure.Reading
import EquationFigure.Svg.Printer

/-!
# Rendering figures

The view box is evaluated first, over the declared variables alone.  Its width and height then
become variables of their own, unless variables of those names are declared, and the figure is built
over the enlarged table with all that has been worked out so far.

* `Builder.frame?` — the four numbers of the view box, or none if there are none.
* `Variables.withFrame` — the enlarged table.
* `render` — the markup of a document and the attributes that were left out.
* `renderText` — the same from the text of the document.
-/

set_option autoImplicit false

namespace EquationFigure

/-- The name under which equations may refer to the width of the view box. -/
def viewBoxWidthName : Text := ['v', 'b', 'w']

/-- The name under which equations may refer to the height of the view box. -/
def viewBoxHeightName : Text := ['v', 'b', 'h']

/-- A view box worked out. -/
structure Frame where
  /-- The least horizontal coordinate. -/
  x : Float
  /-- The least vertical coordinate. -/
  y : Float
  /-- The width. -/
  width : Float
  /-- The height. -/
  height : Float

/-- The numbers of the frame as its attribute has them. -/
def Frame.text (f : Frame) : Text :=
  Text.joinWith [' '] [numberText f.x, numberText f.y, numberText f.width, numberText f.height]

namespace Builder

/-- The frame of a view box with four values. -/
def frame (b : Builder) (viewBox : ViewBox) : Attempt Session Fault Frame :=
  match viewBox.toList with
  | [x, y, width, height] => ofEquation do
    let x ← b.quantity x
    let y ← b.quantity y
    let width ← b.quantity width
    let height ← b.quantity height
    return ⟨x, y, width, height⟩
  | values => .fail (.viewBoxLength values.length)

/-- The frame of the figure, or `none` if it has no view box or the view box was left out. -/
def frame? (b : Builder) : Option ViewBox → BuildM (Option Frame)
  | none => return none
  | some viewBox => b.evaluated? "svg" "viewBox" (b.frame viewBox)

/-- The tree of the figure. -/
def root (b : Builder) (root : Root) (frame? : Option Frame) : BuildM Svg.Node := do
  let size ← b.measures "svg" [("width", root.width?), ("height", root.height?)]
  let style ← b.style "svg" root.common
  let attributes := ("xmlns", Svg.namespaceUri) :: identity root.common ++
    passOn "viewBox" (frame?.map Frame.text) ++ size ++ style
  return .element "svg" attributes none (← b.elements root.children)

end Builder

/-- The table with a number under the name, unless it has the name already. -/
def Variables.addNumber (vars : Variables) (name : Text) (x : Float) : Variables :=
  match vars.get? name with
  | some _ => vars
  | none => vars.insert name (.ofNumber x)

/-- The variables of the elements: those declared, and the width and height of the frame. -/
def Variables.withFrame (vars : Variables) : Option Frame → Variables
  | none => vars
  | some frame =>
    (vars.addNumber viewBoxWidthName frame.width).addNumber viewBoxHeightName frame.height

/-- The tree of a document. -/
def buildDocument (document : Document) (options : RenderOptions) : BuildM Svg.Node := do
  let frame? ← Builder.frame? ⟨document.vars, options⟩ document.root.viewBox?
  Builder.root ⟨document.vars.withFrame frame?, options⟩ document.root frame?

/-- A finished figure. -/
structure Rendered where
  /-- The markup. -/
  markup : Text
  /-- The attributes left out, in order. -/
  diagnostics : List Diagnostic

/-- Renders a document.  The events come in either case, the newest first. -/
def render (document : Document) (options : RenderOptions) :
    Except AttributeError Rendered × List Event :=
  match (buildDocument document options).run {} with
  | (.ok node, s) => (.ok ⟨node.print options.indent?, s.diagnostics⟩, s.session.events)
  | (.error e, s) => (.error e, s.session.events)

/-! ## Rendering texts -/

/-- Why a text cannot be rendered. -/
inductive RenderError where
  /-- It holds no document. -/
  | unreadable (cause : Json.ReadError)
  /-- An attribute cannot be evaluated. -/
  | unevaluated (cause : AttributeError)

namespace RenderError

/-- The message for the author of the document. -/
def message : RenderError → String
  | unreadable cause => "invalid document: " ++ cause.message
  | unevaluated cause => cause.message

/-- The diagnostic code. -/
def code : RenderError → String
  | unreadable _ => "svgeq::render::invalid_document"
  | unevaluated cause => cause.code

end RenderError

/-- Renders the document that the text holds.  The events come in either case, the newest first. -/
def renderText (source : Text) (options : RenderOptions) :
    Except RenderError Rendered × List Event :=
  match Document.read source with
  | .error e => (.error (.unreadable e), [])
  | .ok document =>
    match render document options with
    | (.ok rendered, events) => (.ok rendered, events)
    | (.error e, events) => (.error (.unevaluated e), events)

end EquationFigure
