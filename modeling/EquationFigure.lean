import EquationFigure.Attempt
import EquationFigure.Command.Args
import EquationFigure.Command.Files
import EquationFigure.Command.Run
import EquationFigure.Decimal.Binary
import EquationFigure.Decimal.Numeral
import EquationFigure.Decimal.Scientific
import EquationFigure.Decimal.Shortest
import EquationFigure.Equation.Error
import EquationFigure.Equation.Evaluation
import EquationFigure.Equation.Grouping
import EquationFigure.Equation.Operator
import EquationFigure.Equation.Reduction
import EquationFigure.Equation.Session
import EquationFigure.Equation.Substitution
import EquationFigure.Equation.Token
import EquationFigure.Equation.Variable
import EquationFigure.Figure.Builder
import EquationFigure.Figure.Document
import EquationFigure.Figure.Part
import EquationFigure.Figure.Path
import EquationFigure.Figure.Quantity
import EquationFigure.Figure.Reading
import EquationFigure.Figure.Rendering
import EquationFigure.Figure.Schema
import EquationFigure.Json.Error
import EquationFigure.Json.Number
import EquationFigure.Json.Quoted
import EquationFigure.Json.Reader
import EquationFigure.Json.Skipping
import EquationFigure.Json.Value
import EquationFigure.Main
import EquationFigure.Proofs.Attempt
import EquationFigure.Proofs.Command.Effects
import EquationFigure.Proofs.Command.Parsing
import EquationFigure.Proofs.Decimal.Bits
import EquationFigure.Proofs.Decimal.NumberText
import EquationFigure.Proofs.Decimal.RoundTrip
import EquationFigure.Proofs.Decimal.Rounding
import EquationFigure.Proofs.Decimal.Scanning
import EquationFigure.Proofs.Equation.Acceptance
import EquationFigure.Proofs.Equation.Adequacy
import EquationFigure.Proofs.Equation.Arithmetic
import EquationFigure.Proofs.Equation.AtOnce
import EquationFigure.Proofs.Equation.Caching
import EquationFigure.Proofs.Equation.Canonical
import EquationFigure.Proofs.Equation.Chains
import EquationFigure.Proofs.Equation.Cycles
import EquationFigure.Proofs.Equation.Depth
import EquationFigure.Proofs.Equation.Extension
import EquationFigure.Proofs.Equation.Flattening
import EquationFigure.Proofs.Equation.Grammar
import EquationFigure.Proofs.Equation.Groups
import EquationFigure.Proofs.Equation.Inlining
import EquationFigure.Proofs.Equation.Locality
import EquationFigure.Proofs.Equation.LookUp
import EquationFigure.Proofs.Equation.LooseGrammar
import EquationFigure.Proofs.Equation.Meaning
import EquationFigure.Proofs.Equation.Memo
import EquationFigure.Proofs.Equation.Names
import EquationFigure.Proofs.Equation.Nesting
import EquationFigure.Proofs.Equation.Once
import EquationFigure.Proofs.Equation.Overflow
import EquationFigure.Proofs.Equation.Padding
import EquationFigure.Proofs.Equation.Parentheses
import EquationFigure.Proofs.Equation.Pending
import EquationFigure.Proofs.Equation.Precedence
import EquationFigure.Proofs.Equation.Progress
import EquationFigure.Proofs.Equation.Recording
import EquationFigure.Proofs.Equation.Reducing
import EquationFigure.Proofs.Equation.Resolving
import EquationFigure.Proofs.Equation.Rewriting
import EquationFigure.Proofs.Equation.Seeding
import EquationFigure.Proofs.Equation.Separation
import EquationFigure.Proofs.Equation.Stages
import EquationFigure.Proofs.Equation.Surroundings
import EquationFigure.Proofs.Equation.Termination
import EquationFigure.Proofs.Equation.Tiers
import EquationFigure.Proofs.Equation.Tokens
import EquationFigure.Proofs.Equation.Unambiguity
import EquationFigure.Proofs.Equation.Values
import EquationFigure.Proofs.Equation.Verdict
import EquationFigure.Proofs.Figure.Building
import EquationFigure.Proofs.Figure.Carrying
import EquationFigure.Proofs.Figure.Depiction
import EquationFigure.Proofs.Figure.Diagnostics
import EquationFigure.Proofs.Figure.Modes
import EquationFigure.Proofs.Figure.Numbers
import EquationFigure.Proofs.Figure.Outcomes
import EquationFigure.Proofs.Figure.ReadBack
import EquationFigure.Proofs.Figure.Settling
import EquationFigure.Proofs.Figure.Shapes
import EquationFigure.Proofs.Figure.Splitting
import EquationFigure.Proofs.Figure.Understanding
import EquationFigure.Proofs.Figure.Writable
import EquationFigure.Proofs.Json.Compact
import EquationFigure.Proofs.Json.Numbers
import EquationFigure.Proofs.Json.Reading
import EquationFigure.Proofs.Json.Tokens
import EquationFigure.Proofs.Json.Writing
import EquationFigure.Proofs.Svg.Reading
import EquationFigure.Proofs.Text.Runs
import EquationFigure.Svg.Escape
import EquationFigure.Svg.Node
import EquationFigure.Svg.Printer
import EquationFigure.Table
import EquationFigure.Text.Basic
import EquationFigure.Text.Hidden
import EquationFigure.Text.Quoted
