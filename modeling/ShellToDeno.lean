import ShellToDeno.Arguments.Combine
import ShellToDeno.Arguments.Groups
import ShellToDeno.Batch.Job
import ShellToDeno.Batch.Pool
import ShellToDeno.Batch.Report
import ShellToDeno.Batch.Source
import ShellToDeno.Batch.Suggest
import ShellToDeno.Batch.Watch
import ShellToDeno.Braces.Range
import ShellToDeno.Command.Flag
import ShellToDeno.Command.Help
import ShellToDeno.Command.Reach
import ShellToDeno.Command.Run
import ShellToDeno.Compile.Arithmetic
import ShellToDeno.Compile.Assignment
import ShellToDeno.Compile.Basic
import ShellToDeno.Compile.Builtins
import ShellToDeno.Compile.Call
import ShellToDeno.Compile.Context
import ShellToDeno.Compile.Control
import ShellToDeno.Compile.Log
import ShellToDeno.Compile.Node
import ShellToDeno.Compile.Pipeline
import ShellToDeno.Compile.Redirect
import ShellToDeno.Compile.Registry
import ShellToDeno.Compile.Test
import ShellToDeno.Compile.Words
import ShellToDeno.Contract
import ShellToDeno.Dax.Call
import ShellToDeno.Dax.Quoting
import ShellToDeno.Failure
import ShellToDeno.Features
import ShellToDeno.Files
import ShellToDeno.Form
import ShellToDeno.Fragment.Basic
import ShellToDeno.Fragment.Read
import ShellToDeno.Fragment.Record
import ShellToDeno.Js.Comment
import ShellToDeno.Js.Property
import ShellToDeno.Js.StringLiteral
import ShellToDeno.Js.Template
import ShellToDeno.Main
import ShellToDeno.Number.Double
import ShellToDeno.Path
import ShellToDeno.Plan
import ShellToDeno.Preamble
import ShellToDeno.Preamble.Render
import ShellToDeno.Preamble.Template
import ShellToDeno.Program
import ShellToDeno.Proofs.Batch.Entries
import ShellToDeno.Proofs.Batch.Growth
import ShellToDeno.Proofs.Batch.Outputs
import ShellToDeno.Proofs.Batch.Paths
import ShellToDeno.Proofs.Compile.Blocks
import ShellToDeno.Proofs.Compile.Calls
import ShellToDeno.Proofs.Compile.Commands
import ShellToDeno.Proofs.Compile.Compiled
import ShellToDeno.Proofs.Compile.Conditions
import ShellToDeno.Proofs.Compile.Forms
import ShellToDeno.Proofs.Compile.Marks
import ShellToDeno.Proofs.Compile.Pipelines
import ShellToDeno.Proofs.Compile.Reading
import ShellToDeno.Proofs.Compile.Safe
import ShellToDeno.Proofs.Compile.Shape
import ShellToDeno.Proofs.Compile.Steps
import ShellToDeno.Proofs.Compile.Store
import ShellToDeno.Proofs.Compile.Tests
import ShellToDeno.Proofs.Compile.Words
import ShellToDeno.Proofs.Echo.Printed
import ShellToDeno.Proofs.Fragment.Derivation
import ShellToDeno.Proofs.Fragment.Heap
import ShellToDeno.Proofs.Fragment.History
import ShellToDeno.Proofs.Fragment.Query
import ShellToDeno.Proofs.Quoting.CommandLine
import ShellToDeno.Proofs.Quoting.DoubleQuoted
import ShellToDeno.Proofs.Quoting.Joined
import ShellToDeno.Proofs.Quoting.Literals
import ShellToDeno.Proofs.Quoting.Template
import ShellToDeno.Proofs.Quoting.Words
import ShellToDeno.Proofs.Redirects
import ShellToDeno.Proofs.Settling.Contained
import ShellToDeno.Proofs.Settling.Depth
import ShellToDeno.Proofs.Settling.Levels
import ShellToDeno.Proofs.Tests.Evaluation
import ShellToDeno.Proofs.Tests.Exact
import ShellToDeno.Proofs.Tests.Grammar
import ShellToDeno.Proofs.Tests.Meaning
import ShellToDeno.Proofs.Tiling
import ShellToDeno.Proofs.Tree.Built
import ShellToDeno.Proofs.Tree.Laid
import ShellToDeno.Proofs.Tree.Queries
import ShellToDeno.Settings
import ShellToDeno.Settings.Value
import ShellToDeno.Settings.Yaml
import ShellToDeno.Settings.Yaml.Flow
import ShellToDeno.Settings.Yaml.Scalar
import ShellToDeno.Shell.Cursor
import ShellToDeno.Shell.Quoting
import ShellToDeno.Shell.Reader
import ShellToDeno.Shell.Reader.Arithmetic
import ShellToDeno.Shell.Reader.Assignment
import ShellToDeno.Shell.Reader.Basic
import ShellToDeno.Shell.Reader.Compound
import ShellToDeno.Shell.Reader.Document
import ShellToDeno.Shell.Reader.Expansion
import ShellToDeno.Shell.Reader.Lexer
import ShellToDeno.Shell.Reader.Literal
import ShellToDeno.Shell.Reader.Statement
import ShellToDeno.Shell.Reader.Test
import ShellToDeno.Shell.Reader.Word
import ShellToDeno.Shell.Script
import ShellToDeno.Shell.SyntaxError
import ShellToDeno.Shell.Token
import ShellToDeno.Style
import ShellToDeno.Text
import ShellToDeno.Text.Distance
import ShellToDeno.Text.Integer
import ShellToDeno.Text.Lowercase
import ShellToDeno.Text.Numeral
import ShellToDeno.Text.Quoted
import ShellToDeno.Text.Separated
import ShellToDeno.Text.Shown
import ShellToDeno.Text.Utf8
import ShellToDeno.Tree.Kind
import ShellToDeno.Tree.Layout
import ShellToDeno.Tree.Node
import ShellToDeno.Tree.Parse
import ShellToDeno.Tree.Preview
import ShellToDeno.Tree.Query
import ShellToDeno.Proofs.Values.Characters
import ShellToDeno.Proofs.Values.Literals
import ShellToDeno.Proofs.Values.Numbers
import ShellToDeno.Proofs.Values.Strings
import ShellToDeno.Proofs.Values.Templates
import ShellToDeno.Proofs.Batch.Cancellation
import ShellToDeno.Proofs.Batch.Interleaving
import ShellToDeno.Proofs.Batch.Walks
import ShellToDeno.Proofs.Counting
import ShellToDeno.Proofs.Vocabulary.Helpers
import ShellToDeno.Proofs.Values.Fragments
import ShellToDeno.Proofs.Tests.Strings
import ShellToDeno.Proofs.Ranges
import ShellToDeno.Proofs.Products
import ShellToDeno.Proofs.Branches
import ShellToDeno.Proofs.Comments
import ShellToDeno.Proofs.Arithmetic
import ShellToDeno.Proofs.Echo.Escapes
import ShellToDeno.Proofs.Values.Accesses
import ShellToDeno.Proofs.Grouping
import ShellToDeno.Proofs.BlockComments
