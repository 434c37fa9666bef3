import Resumable.Command.Arguments
import Resumable.Command.Configuration
import Resumable.Command.Logging
import Resumable.Command.Report
import Resumable.Command.Run
import Resumable.Decimal
import Resumable.Diagnostic
import Resumable.Json.Decode
import Resumable.Json.Draft
import Resumable.Json.Fault
import Resumable.Json.Reader
import Resumable.Json.Scanner
import Resumable.Json.Value
import Resumable.Json.Writer
import Resumable.Loop.Binding
import Resumable.Loop.ForEach
import Resumable.Loop.ForIn
import Resumable.Lowering.Delegation
import Resumable.Lowering.Engine
import Resumable.Lowering.Iteration
import Resumable.Lowering.Options
import Resumable.Lowering.OptionsFormat
import Resumable.Lowering.Run
import Resumable.Main
import Resumable.NameSupply
import Resumable.Proofs.Computation
import Resumable.Proofs.Census
import Resumable.Proofs.Allotments
import Resumable.Proofs.Bodies
import Resumable.Proofs.Course
import Resumable.Proofs.Desugaring
import Resumable.Proofs.Enumeration
import Resumable.Proofs.EnumerationParts
import Resumable.Proofs.Evaluator
import Resumable.Proofs.FreshNames
import Resumable.Proofs.GeneratorBodies
import Resumable.Proofs.Hygiene
import Resumable.Proofs.IteratorWalk
import Resumable.Proofs.KeyLoops
import Resumable.Proofs.KeyWalk
import Resumable.Proofs.KeyWalkRun
import Resumable.Proofs.Lodgings
import Resumable.Proofs.LoopAllotments
import Resumable.Proofs.Mirror
import Resumable.Proofs.MixedBodies
import Resumable.Proofs.Nesting
import Resumable.Proofs.Occurrences
import Resumable.Proofs.Outline
import Resumable.Proofs.Plans
import Resumable.Proofs.Protocol
import Resumable.Proofs.Reports
import Resumable.Proofs.Resolution
import Resumable.Proofs.Reworked
import Resumable.Proofs.Pass
import Resumable.Proofs.Scope
import Resumable.Proofs.ScopeEdits
import Resumable.Proofs.Stability
import Resumable.Proofs.Survivors
import Resumable.Proofs.Suspensions
import Resumable.Proofs.Traversal
import Resumable.Span
import Resumable.Suspension.Facts
import Resumable.Suspension.FactsFormat
import Resumable.Suspension.FunctionSummary
import Resumable.Syntax.Build
import Resumable.Syntax.Decode
import Resumable.Syntax.Edit
import Resumable.Syntax.Encode
import Resumable.Syntax.Fields
import Resumable.Syntax.Form
import Resumable.Syntax.Kind
import Resumable.Syntax.Names
import Resumable.Syntax.Node
import Resumable.Syntax.Operator
import Resumable.Syntax.Print
import Resumable.Syntax.Walk
import Resumable.Text.Printable
import Resumable.Text.Quoted
import Resumable.Text.Substitute
import Resumable.Text.Word
import Resumable.Proofs.Equivariance
import Resumable.Proofs.Sharing
import Resumable.Proofs.Independence
import Resumable.Proofs.Spelling
import Resumable.Proofs.Compact
import Resumable.Proofs.Decoding
import Resumable.Proofs.RoundTrip
import Resumable.Proofs.Layout
import Resumable.Proofs.Conservation
import Resumable.Proofs.Snapshots
import Resumable.Proofs.Pretty
import Resumable.Proofs.NumberTexts
import Resumable.Proofs.Rereading
import Resumable.Proofs.Lexing
import Resumable.Proofs.Grammar
import Resumable.Proofs.Parser
import Resumable.Proofs.Unambiguity
import Resumable.Proofs.Parentheses
import Resumable.Proofs.Revision
import Resumable.Proofs.Awaits
import Resumable.Proofs.ElementLoops
import Resumable.Proofs.ScopeFacts
import Resumable.Proofs.Jumps
import Resumable.Proofs.ChangedPaths
import Resumable.Proofs.Lexemes
import Resumable.Proofs.Signs
import Resumable.Proofs.Calculations
import Resumable.Proofs.Statements
import Resumable.Proofs.StatementParser
import Resumable.Proofs.StatementTexts
import Resumable.Proofs.StatementForms
import Resumable.Proofs.Guards
import Resumable.Proofs.MissingParentheses
import Resumable.Proofs.ClearStatements
import Resumable.Proofs.Constructions
import Resumable.Proofs.Requests
import Resumable.Proofs.HelperNames
import Resumable.Proofs.Replacement
import Resumable.Proofs.Templates
import Resumable.Proofs.StringLiterals
import Resumable.Proofs.ChildOrder
import Resumable.Proofs.NameSearch
