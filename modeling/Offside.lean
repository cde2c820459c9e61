import Offside.Check.Expression
import Offside.Check.Fault
import Offside.Check.Function
import Offside.Check.State
import Offside.Check.Statement
import Offside.Check.Types
import Offside.Check.Unit
import Offside.Command
import Offside.Constant
import Offside.Failure
import Offside.Files
import Offside.Grammar.Cursor
import Offside.Grammar.EntryPoint
import Offside.Grammar.Expression
import Offside.Grammar.Fault
import Offside.Grammar.Statement
import Offside.Header
import Offside.Json.Basic
import Offside.Json.Encode
import Offside.Main
import Offside.Names
import Offside.Number.Decimal
import Offside.Number.Double
import Offside.Number.Shortest
import Offside.Proofs.Check.Accumulation
import Offside.Proofs.Check.Agreement
import Offside.Proofs.Check.Context
import Offside.Proofs.Check.Decoration
import Offside.Proofs.Check.Effect
import Offside.Proofs.Check.Declarations
import Offside.Proofs.Check.Statements
import Offside.Proofs.Check.Tolerance
import Offside.Proofs.Check.Gains
import Offside.Proofs.Check.Growth
import Offside.Proofs.Check.HeaderText
import Offside.Proofs.Check.Headers
import Offside.Proofs.Check.IncludeOnce
import Offside.Proofs.Check.IncludeWalk
import Offside.Proofs.Check.Reprint
import Offside.Proofs.Check.Transparency
import Offside.Proofs.Check.Typing
import Offside.Proofs.Check.TypingSound
import Offside.Proofs.Grammar.Cursor
import Offside.Proofs.Grammar.Derivation
import Offside.Proofs.Grammar.Exact
import Offside.Proofs.Grammar.Progress
import Offside.Proofs.Grammar.Reading
import Offside.Proofs.Grammar.ReadingBlocks
import Offside.Proofs.Grammar.ReadingLines
import Offside.Proofs.Grammar.Reads
import Offside.Proofs.Grammar.WellFormed
import Offside.Proofs.Number.Digits
import Offside.Proofs.Number.Grid
import Offside.Proofs.Number.ReadBack
import Offside.Proofs.Number.Rounding
import Offside.Proofs.Outcome
import Offside.Proofs.RoundTrip
import Offside.Proofs.Token.Layout
import Offside.Proofs.Token.Lexeme
import Offside.Proofs.Token.Lines
import Offside.Proofs.Token.Scanner
import Offside.Proofs.Token.Spelling
import Offside.Proofs.Token.Stream
import Offside.Proofs.Tree.Blur
import Offside.Proofs.Tree.Literals
import Offside.Proofs.Tree.Shape
import Offside.Proofs.Tree.Spelling
import Offside.Proofs.Tree.Tokens
import Offside.Proofs.Tree.WellFormed
import Offside.Proofs.Tree.Written
import Offside.Proofs.Tree.WrittenLines
import Offside.Proofs.Types.Dominance
import Offside.Proofs.Types.Relations
import Offside.Proofs.Types.Same
import Offside.Proofs.Types.Table
import Offside.Scope
import Offside.Source.Position
import Offside.Source.Report
import Offside.Text.Escape
import Offside.Text.Letter
import Offside.Token.Basic
import Offside.Token.Fault
import Offside.Token.Layout
import Offside.Token.Lexeme
import Offside.Token.Scanner
import Offside.Token.Stream
import Offside.Tree.Basic
import Offside.Tree.Equal
import Offside.Tree.Operator
import Offside.Tree.Print
import Offside.Types.Arithmetic
import Offside.Types.Assign
import Offside.Types.Basic
import Offside.Types.Table
import Offside.Proofs.Check.Abreast
import Offside.Proofs.Check.LeftOut
import Offside.Proofs.Check.HeadersAbreast
import Offside.Proofs.Check.Repeated
import Offside.Proofs.Check.RepeatedProgram
import Offside.Proofs.Check.WrittenTypes
import Offside.Proofs.Check.Chronicle
import Offside.Proofs.Check.Passage
import Offside.Proofs.Check.Upheld
import Offside.Proofs.Check.KnownTypes
import Offside.Proofs.Check.Storable
import Offside.Proofs.Check.Shadowing
import Offside.Proofs.Check.Containment
import Offside.Proofs.Token.Writing
import Offside.Proofs.Token.Coverage
import Offside.Proofs.Tree.Nodes
import Offside.Proofs.Grammar.Rows
import Offside.Proofs.Check.Numbering
import Offside.Proofs.Check.Placement
import Offside.Proofs.Check.EntryPoint
import Offside.Proofs.Token.LastLine
import Offside.Proofs.Token.BlankLines
import Offside.Proofs.Token.Places
import Offside.Proofs.Grammar.Places
import Offside.Proofs.Grammar.Readers
import Offside.Proofs.Grammar.Files
import Offside.Proofs.Check.Places
import Offside.Proofs.Constant
import Offside.Proofs.Grammar.Parentheses
import Offside.Proofs.Check.Fillings
import Offside.Proofs.Termination
