import EquationFigure.Text.Basic

/-!
# Markup trees

A finished figure is a tree of elements, each with a tag, attributes in the order in which they are
written, and either text or more elements inside.
-/

set_option autoImplicit false

namespace EquationFigure.Svg

/-- The name of an attribute and its value. -/
abbrev Attribute := String × Text

/-- An element with all that is inside it. -/
inductive Node where
  /-- The element with the given tag, attributes, text and children.  No text is not the same as an
  empty text: an element without text and children is written as one tag. -/
  | element (tag : String) (attributes : List Attribute) (text? : Option Text)
    (children : List Node)
deriving Inhabited

namespace Node

/-- The tag of the element. -/
def tag : Node → String
  | element tag _ _ _ => tag

/-- The attributes of the element, in the order in which they are written. -/
def attributes : Node → List Attribute
  | element _ attributes _ _ => attributes

/-- The text in the element. -/
def text? : Node → Option Text
  | element _ _ text? _ => text?

/-- The elements in the element. -/
def children : Node → List Node
  | element _ _ _ children => children

/-- The value of the first attribute with the given name. -/
def get? (node : Node) (name : String) : Option Text := node.attributes.lookup name

end Node

/-- The namespace of the elements that figures are made of. -/
def namespaceUri : Text := "http://www.w3.org/2000/svg".toList

end EquationFigure.Svg
