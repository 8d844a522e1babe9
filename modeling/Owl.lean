import Owl.Bench.Coverage
import Owl.Bench.Fingerprint
import Owl.Bench.RepoTime
import Owl.Bench.Round
import Owl.Bench.SelfCheck
import Owl.Bench.Value
import Owl.Bench.Verdict
import Owl.Bench.Workload
import Owl.Builtin
import Owl.Check
import Owl.Check.Rules
import Owl.Check.State
import Owl.Cli
import Owl.Cli.Args
import Owl.Cli.Fault
import Owl.Cli.FileTree
import Owl.Cli.Path
import Owl.Cli.Report
import Owl.Code
import Owl.Code.Emit
import Owl.Compile
import Owl.Diagnostic
import Owl.Diagnostic.Code
import Owl.Diagnostic.Problem
import Owl.Diagnostic.Snippet
import Owl.Json
import Owl.Json.Reading
import Owl.Main
import Owl.Number.Binary64
import Owl.Number.Decimal
import Owl.Number.Exact
import Owl.Number.Reading
import Owl.Proofs.Checking.Accepted
import Owl.Proofs.Checking.Account
import Owl.Proofs.Checking.Congruence
import Owl.Proofs.Checking.Frames
import Owl.Proofs.Checking.Leftover
import Owl.Proofs.Checking.Once
import Owl.Proofs.Checking.Order
import Owl.Proofs.Checking.Rest
import Owl.Proofs.Checking.Tracking
import Owl.Proofs.Checking.Walk
import Owl.Proofs.Commands
import Owl.Proofs.Failing.Compiling
import Owl.Proofs.Failing.Emission
import Owl.Proofs.Failing.Starving
import Owl.Proofs.Derivation
import Owl.Proofs.Faithful
import Owl.Proofs.Files
import Owl.Proofs.Guards
import Owl.Proofs.Layout.Checking
import Owl.Proofs.Layout.Compiling
import Owl.Proofs.Layout.Emission
import Owl.Proofs.Comparison
import Owl.Proofs.Layout.Parsing
import Owl.Proofs.Layout.Trees
import Owl.Proofs.Nesting
import Owl.Proofs.Precedence
import Owl.Proofs.ReadBack.Lexing
import Owl.Proofs.ReadBack.Parsing
import Owl.Proofs.ReadBack.Program
import Owl.Proofs.ReadBack.Spelling
import Owl.Proofs.Recovery.Ending
import Owl.Proofs.Recovery.Faults
import Owl.Proofs.Recovery.FirstFault
import Owl.Proofs.Renumbering.Emission
import Owl.Proofs.Renumbering.Expressions
import Owl.Proofs.Renumbering.Text
import Owl.Proofs.ResultClasses
import Owl.Proofs.Scanning
import Owl.Proofs.Scoping.Events
import Owl.Proofs.Scoping.Framing
import Owl.Proofs.Scoping.Lexical
import Owl.Proofs.Spacing
import Owl.Proofs.Standing
import Owl.Proofs.Tiling
import Owl.Proofs.Visiting.Steps
import Owl.Proofs.Writing
import Owl.Scope
import Owl.Scope.Tables
import Owl.Span
import Owl.Text.Blank
import Owl.Text.Digest
import Owl.Text.Letter
import Owl.Text.Numeral
import Owl.Text.Printable
import Owl.Text.Quoted
import Owl.Text.Ranges
import Owl.Text.Utf8
import Owl.Text.Word
import Owl.Timing
import Owl.Timing.Clock
import Owl.Token
import Owl.Token.Lexer
import Owl.Tree
import Owl.Tree.Dump
import Owl.Tree.Grammar
import Owl.Tree.Outline
import Owl.Tree.Parser
import Owl.Tree.Same
import Owl.Ty
import Owl.Ty.Reading
import Owl.Proofs.Visiting.Coverage
import Owl.Proofs.Visiting.Placement
import Owl.Proofs.Visiting.Resolution
import Owl.Proofs.Visiting.Arguments
import Owl.Proofs.Visiting.Reports
import Owl.Proofs.Visiting.Jumps
import Owl.Proofs.Visiting.Endless
import Owl.Proofs.Visiting.Lookups
import Owl.Proofs.Visiting.Counts
import Owl.Proofs.Visiting.Locals
import Owl.Proofs.Visiting.Strangers
import Owl.Proofs.Visiting.Unused
import Owl.Proofs.Returning.Certain
import Owl.Proofs.Returning.Functions
import Owl.Proofs.Target.Spelling
import Owl.Proofs.Target.Strings
import Owl.Proofs.Target.Lines
import Owl.Proofs.Target.Blocks
import Owl.Proofs.Substitution
import Owl.Proofs.Target.Symbols
import Owl.Proofs.Target.Reading
import Owl.Proofs.Target.Phrases
import Owl.Proofs.Target.Grouping
import Owl.Proofs.Typing.Consistency
import Owl.Proofs.Typing.Lossless
import Owl.Proofs.Typing.Annotations
import Owl.Proofs.Typing.Cascades
import Owl.Proofs.Checking.Apart
import Owl.Proofs.Typing.Elements
import Owl.Proofs.Target.Evaluation
import Owl.Proofs.Typing.Soundness
import Owl.Proofs.Returning.Unreachable
import Owl.Proofs.Covering
import Owl.Proofs.Printing
import Owl.Proofs.Aggregation
