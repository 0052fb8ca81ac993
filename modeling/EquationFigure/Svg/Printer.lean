import EquationFigure.Svg.Node
import EquationFigure.Svg.Escape

/-!
# Writing markup

`Node.print` writes a tree, on one line or indented.  With indentation every tag goes on a line of
its own, except the first one and one that comes right behind text; so text is never changed by the
layout.
-/

set_option autoImplicit false

namespace EquationFigure.Svg

/-- The end of a line and the indentation of the next one, `depth` levels deep, if tags go on lines
of their own. -/
def lineBreak (indent? : Option Nat) (depth : Nat) : Text :=
  match indent? with
  | none => []
  | some width => '\n' :: List.replicate (width * depth) ' '

/-- An attribute as it is written in a tag. -/
def printAttribute (a : Attribute) : Text :=
  ' ' :: a.1.toList ++ '=' :: '"' :: escape a.2 ++ ['"']

/-- A tag without its angle brackets. -/
def printTag (tag : String) (attributes : List Attribute) : Text :=
  tag.toList ++ attributes.flatMap printAttribute

mutual

/-- The element as it is written, without a line break before it. -/
def Node.printAt (indent? : Option Nat) (depth : Nat) : Node → Text
  | .element tag attributes none [] => '<' :: printTag tag attributes ++ ['/', '>']
  | .element tag attributes (some text) [] =>
    '<' :: printTag tag attributes ++ '>' :: escape text ++ '<' :: '/' :: tag.toList ++ ['>']
  | .element tag attributes text? (first :: rest) =>
    let inside := match text? with
      | none => lineBreak indent? (depth + 1)
      | some text => escape text
    '<' :: printTag tag attributes ++ '>' :: inside ++ first.printAt indent? (depth + 1) ++
      Node.printEach indent? (depth + 1) rest ++
      lineBreak indent? depth ++ '<' :: '/' :: tag.toList ++ ['>']

/-- The elements as they are written, with a line break before each. -/
def Node.printEach (indent? : Option Nat) (depth : Nat) : List Node → Text
  | [] => []
  | node :: rest =>
    lineBreak indent? depth ++ node.printAt indent? depth ++ Node.printEach indent? depth rest

end

/-- The tree as it is written, with the given number of spaces for each level of nesting, or on one
line. -/
def Node.print (indent? : Option Nat) (node : Node) : Text := node.printAt indent? 0

end EquationFigure.Svg
