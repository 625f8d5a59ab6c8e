import Offside.Command.Outline
import Offside.Command.Request
import Offside.Command.Run
import Offside.Context
import Offside.Diagnostic
import Offside.Fault
import Offside.Haskell.Grammar.Declarations
import Offside.Haskell.Grammar.Expressions
import Offside.Haskell.Grammar.Level
import Offside.Haskell.Grammar.Modules
import Offside.Haskell.Grammar.Names
import Offside.Haskell.Grammar.Patterns
import Offside.Haskell.Grammar.Types
import Offside.Haskell.Layout
import Offside.Haskell.Lexer
import Offside.Haskell.Literal
import Offside.Haskell.Parse
import Offside.Haskell.Scan
import Offside.Json
import Offside.Language
import Offside.Lexeme
import Offside.Lexical.Lexed
import Offside.Lexical.Number
import Offside.Lexical.Reader
import Offside.Lexical.Scan
import Offside.Lexical.TokenStream
import Offside.Main
import Offside.Parser.Parse
import Offside.Parser.State
import Offside.Proofs.Parser.Ends
import Offside.Proofs.Parser.Repetition
import Offside.Proofs.Parser.Run
import Offside.Proofs.Tree.Errors
import Offside.Proofs.Tree.Marks
import Offside.Python.Indentation
import Offside.Python.Lexer
import Offside.Python.Literal
import Offside.Python.Scan
import Offside.Report
import Offside.Source.Cursor
import Offside.Source.Offset
import Offside.Source.Position
import Offside.Source.Span
import Offside.Text.Alphabetic
import Offside.Text.Blank
import Offside.Text.CodeRun
import Offside.Text.Digit
import Offside.Text.Lowercase
import Offside.Text.Numeric
import Offside.Text.Quoted
import Offside.Text.Uppercase
import Offside.Token
import Offside.TokenSource
import Offside.Tree.Encoding
import Offside.Tree.Name
import Offside.Tree.Program
import Offside.Tree.Selection
import Offside.Tree.TypeTerm
import Offside.Proofs.Grammar.Names
import Offside.Proofs.Grammar.Types
import Offside.Proofs.Grammar.Patterns
import Offside.Proofs.Grammar.Declarations
import Offside.Proofs.Grammar.Expressions
import Offside.Proofs.Grammar.Modules
import Offside.Proofs.Grammar.Programs
import Offside.Proofs.Grammar.Recovery
import Offside.Proofs.Grammar.Containment
import Offside.Proofs.Layout.Blocks
import Offside.Proofs.Layout.Braces
import Offside.Proofs.Layout.LetBlocks
import Offside.Proofs.Lexical.Recording
import Offside.Proofs.Python.Indentation
import Offside.Proofs.Lexical.Spans
import Offside.Proofs.Lexical.Finish
import Offside.Proofs.Reading.Conservation
import Offside.Proofs.Layout.Readings
import Offside.Proofs.Source.Slices
import Offside.Proofs.Lexical.Spellings
import Offside.Proofs.Lexical.Comments
import Offside.Proofs.Layout.Ahead
import Offside.Proofs.Layout.Braced
import Offside.Proofs.Layout.WrittenOut
import Offside.Proofs.Tree.Moved
import Offside.Proofs.Lockstep.Rules
import Offside.Proofs.Lockstep.Repetition
import Offside.Proofs.Lockstep.Names
import Offside.Proofs.Lockstep.Types
import Offside.Proofs.Lockstep.Declarations
import Offside.Proofs.Lockstep.Expressions
import Offside.Proofs.Lockstep.Modules
import Offside.Proofs.Layout.Joined
import Offside.Proofs.Layout.Seam
import Offside.Proofs.Parser.Sight
import Offside.Proofs.Lexical.Tiling
import Offside.Proofs.Lockstep.Contexts
import Offside.Proofs.Parser.Intake
import Offside.Proofs.Rendering.Brackets
import Offside.Proofs.Rendering.Programs
import Offside.Proofs.Lockstep.Crossing
import Offside.Proofs.Lockstep.Composition
import Offside.Proofs.Parser.Lookahead
import Offside.Proofs.Tree.Nodes
import Offside.Proofs.Parser.Reported
import Offside.Proofs.Shape.Programs
import Offside.Proofs.Layout.Adjacent
import Offside.Proofs.Spans.TopLevel
import Offside.Proofs.Spans.Programs
import Offside.Proofs.Python.Lines
import Offside.Proofs.Reports.Programs
import Offside.Proofs.Endings.Tokens
import Offside.Proofs.Layout.LineStarts
import Offside.Proofs.Derivation.Types
import Offside.Proofs.Derivation.TypeProductions
import Offside.Proofs.Derivation.Signatures
import Offside.Proofs.Derivation.Patterns
import Offside.Proofs.Derivation.PatternProductions
import Offside.Proofs.Rendering.Patterns
import Offside.Proofs.Rendering.Alternatives
import Offside.Proofs.Derivation.Findings
import Offside.Proofs.Derivation.PatternExpressions
import Offside.Proofs.Derivation.PatternFindings
import Offside.Proofs.Derivation.PatternPositions
import Offside.Proofs.Derivation.PatternPrograms
import Offside.Proofs.Extents.Declarations
import Offside.Proofs.Extents.Expressions
import Offside.Proofs.Extents.Programs
import Offside.Proofs.Python.BlankLines
import Offside.Proofs.Literals.Whole
import Offside.Proofs.Grammar.ItemEnds
import Offside.Proofs.Nesting.Budget
import Offside.Proofs.Naming.Spellings
import Offside.Proofs.Deepening.Programs
