import Bukvar.Command.Arguments
import Bukvar.Command.Report
import Bukvar.Compiler
import Bukvar.Decimal.Binary64
import Bukvar.Decimal.Digits
import Bukvar.Decimal.Integer
import Bukvar.Decimal.Reader
import Bukvar.Decimal.Shortest
import Bukvar.Decimal.Written
import Bukvar.Diagnostic.Problem
import Bukvar.Diagnostic.Rejection
import Bukvar.Fault
import Bukvar.Journal
import Bukvar.Layout
import Bukvar.Listing.Basic
import Bukvar.Listing.Expression
import Bukvar.Listing.Options
import Bukvar.Listing.Statement
import Bukvar.Main
import Bukvar.Outline
import Bukvar.Parsing.Expression
import Bukvar.Parsing.Parser
import Bukvar.Parsing.Run
import Bukvar.Parsing.Statement
import Bukvar.Program.Basic
import Bukvar.Program.Word
import Bukvar.Proofs.Compiler.Placement
import Bukvar.Proofs.Compiler.Reuse
import Bukvar.Proofs.Compiler.Sequence
import Bukvar.Proofs.Decimal.Denotation
import Bukvar.Proofs.Decimal.RoundTrip
import Bukvar.Proofs.Decimal.Shape
import Bukvar.Proofs.Diagnostic.Blame
import Bukvar.Proofs.Diagnostic.Causes
import Bukvar.Proofs.Diagnostic.OpenBlocks
import Bukvar.Proofs.Diagnostic.ReadTargets
import Bukvar.Proofs.Grammar.Bare
import Bukvar.Proofs.Grammar.Expression
import Bukvar.Proofs.Grammar.Legible
import Bukvar.Proofs.Grammar.Occurrences
import Bukvar.Proofs.Grammar.Program
import Bukvar.Proofs.Grammar.Unambiguity
import Bukvar.Proofs.Grammar.Uniqueness
import Bukvar.Proofs.Layout
import Bukvar.Proofs.Listing.Counters
import Bukvar.Proofs.Listing.Decoding
import Bukvar.Proofs.Listing.Entries
import Bukvar.Proofs.Listing.ExpressionRoundTrip
import Bukvar.Proofs.Listing.Faithfulness
import Bukvar.Proofs.Listing.Indentation
import Bukvar.Proofs.Listing.Lines
import Bukvar.Proofs.Listing.LoopCondition
import Bukvar.Proofs.Listing.NestedLoops
import Bukvar.Proofs.Listing.Nodes
import Bukvar.Proofs.Listing.Normal
import Bukvar.Proofs.Listing.Plain
import Bukvar.Proofs.Listing.Reading
import Bukvar.Proofs.Listing.Returns
import Bukvar.Proofs.Listing.Spelling
import Bukvar.Proofs.Outline.Decoding
import Bukvar.Proofs.Outline.Faithfulness
import Bukvar.Proofs.Outline.Nodes
import Bukvar.Proofs.Parsing.Account
import Bukvar.Proofs.Parsing.Ahead
import Bukvar.Proofs.Parsing.Completeness
import Bukvar.Proofs.Parsing.Endings
import Bukvar.Proofs.Parsing.Exactness
import Bukvar.Proofs.Parsing.IntegerLiterals
import Bukvar.Proofs.Parsing.Legibility
import Bukvar.Proofs.Parsing.Likeness
import Bukvar.Proofs.Parsing.Locality
import Bukvar.Proofs.Parsing.Movement
import Bukvar.Proofs.Parsing.Parallel
import Bukvar.Proofs.Parsing.Places
import Bukvar.Proofs.Parsing.ProgramCompleteness
import Bukvar.Proofs.Parsing.ProgramExactness
import Bukvar.Proofs.Parsing.ProgramLikeness
import Bukvar.Proofs.Parsing.ProgramParallel
import Bukvar.Proofs.Parsing.ProgramSafety
import Bukvar.Proofs.Parsing.ProgramSoundness
import Bukvar.Proofs.Parsing.ProgramStep
import Bukvar.Proofs.Parsing.Safety
import Bukvar.Proofs.Parsing.Soundness
import Bukvar.Proofs.Parsing.Source
import Bukvar.Proofs.Parsing.Spans
import Bukvar.Proofs.Parsing.Step
import Bukvar.Proofs.Parsing.Termination
import Bukvar.Proofs.Parsing.Watch
import Bukvar.Proofs.Source.Positions
import Bukvar.Proofs.Text.Framing
import Bukvar.Proofs.Token.Classification
import Bukvar.Proofs.Token.LineLocality
import Bukvar.Proofs.Token.Lines
import Bukvar.Proofs.Token.RuleOrder
import Bukvar.Proofs.Token.Segmentation
import Bukvar.Proofs.Token.Slices
import Bukvar.Proofs.Token.Units
import Bukvar.Source.Position
import Bukvar.Source.Span
import Bukvar.Text.Blank
import Bukvar.Text.CodePoints
import Bukvar.Text.Extending
import Bukvar.Text.Quoted
import Bukvar.Text.Unprinted
import Bukvar.Text.Utf8
import Bukvar.Token.Basic
import Bukvar.Token.Buffer
import Bukvar.Token.Kind
import Bukvar.Token.Lexeme
import Bukvar.Token.Rule
import Bukvar.Token.Stream
