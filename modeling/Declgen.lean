import Declgen.CommandLine.Arguments
import Declgen.CommandLine.Help
import Declgen.CommandLine.Run
import Declgen.Document.Decode
import Declgen.Document.Load
import Declgen.Document.Syntax
import Declgen.Double
import Declgen.Enumeration
import Declgen.Files.Changes
import Declgen.Files.Disk
import Declgen.Files.Generated
import Declgen.Files.OutputSet
import Declgen.Files.Path
import Declgen.Files.Tree
import Declgen.GenerateError
import Declgen.Json.Number
import Declgen.Json.Parser
import Declgen.Json.Value
import Declgen.Layout.Comment
import Declgen.Layout.Line
import Declgen.Layout.Writer
import Declgen.Main
import Declgen.Manifest.Check
import Declgen.Manifest.Decode
import Declgen.Manifest.Settings
import Declgen.Manifest.Span
import Declgen.Marker
import Declgen.Model.Arena
import Declgen.Model.Descriptor
import Declgen.Model.Error
import Declgen.Options
import Declgen.Plan.Files
import Declgen.Plan.ImportSet
import Declgen.Plan.ModulePath
import Declgen.Project.Report
import Declgen.Project.Run
import Declgen.Project.Summary
import Declgen.Proofs.Alike.Conversion
import Declgen.Proofs.Alike.Members
import Declgen.Proofs.Alike.Names
import Declgen.Proofs.Alike.Replacement
import Declgen.Proofs.Alike.Runs
import Declgen.Proofs.Alike.Types
import Declgen.Proofs.Alike.Units
import Declgen.Proofs.Document.Faithful
import Declgen.Proofs.Document.Loaded
import Declgen.Proofs.Document.Loading
import Declgen.Proofs.Document.Names
import Declgen.Proofs.EraseDups
import Declgen.Proofs.Files.Ancestors
import Declgen.Proofs.Files.Cleaning
import Declgen.Proofs.Files.Contents
import Declgen.Proofs.Files.Deleting
import Declgen.Proofs.Files.Invariants
import Declgen.Proofs.Files.Linkless
import Declgen.Proofs.Files.Listing
import Declgen.Proofs.Files.Paths
import Declgen.Proofs.Files.Places
import Declgen.Proofs.Files.Pruning
import Declgen.Proofs.Files.Rewriting
import Declgen.Proofs.Files.Rounds
import Declgen.Proofs.Files.SameLinks
import Declgen.Proofs.Files.Trees
import Declgen.Proofs.Files.Unmarked
import Declgen.Proofs.Files.WellFormed
import Declgen.Proofs.Files.Writing
import Declgen.Proofs.Follows
import Declgen.Proofs.Layout.Blocks
import Declgen.Proofs.Layout.Chars
import Declgen.Proofs.Layout.Comments
import Declgen.Proofs.Layout.Documented
import Declgen.Proofs.Layout.Flush
import Declgen.Proofs.Layout.Writer
import Declgen.Proofs.Manifest.Diagnostics
import Declgen.Proofs.Manifest.Keys
import Declgen.Proofs.Manifest.Values
import Declgen.Proofs.Nullability.Conversion
import Declgen.Proofs.Nullability.Documents
import Declgen.Proofs.Nullability.Loading
import Declgen.Proofs.Nullability.Members
import Declgen.Proofs.Nullability.Trees
import Declgen.Proofs.Nullability.Walks
import Declgen.Proofs.Outcome
import Declgen.Proofs.Plan.Collecting
import Declgen.Proofs.Plan.Collisions
import Declgen.Proofs.Plan.Containment
import Declgen.Proofs.Plan.Files
import Declgen.Proofs.Plan.Imports
import Declgen.Proofs.Plan.Modules
import Declgen.Proofs.Plan.PerUnit
import Declgen.Proofs.Plan.SelfContained
import Declgen.Proofs.Plan.Specifiers
import Declgen.Proofs.Project.Agreement
import Declgen.Proofs.Room
import Declgen.Proofs.Text.Bytes
import Declgen.Proofs.Text.Camel
import Declgen.Proofs.Text.Cutting
import Declgen.Proofs.Text.Humps
import Declgen.Proofs.Text.Kebab
import Declgen.Proofs.Text.Pascal
import Declgen.Proofs.Text.Quoted
import Declgen.Proofs.Text.Scanning
import Declgen.Proofs.Text.Splitting
import Declgen.Proofs.Together
import Declgen.Proofs.TypeScript.Comparison
import Declgen.Proofs.TypeScript.Docs
import Declgen.Proofs.TypeScript.Indentation
import Declgen.Proofs.TypeScript.Leaves
import Declgen.Proofs.TypeScript.Nodes
import Declgen.Proofs.TypeScript.Reading
import Declgen.Proofs.TypeScript.Regular
import Declgen.Proofs.TypeScript.Renumbering
import Declgen.Proofs.TypeScript.Staged
import Declgen.Proofs.TypeScript.Unambiguous
import Declgen.Proofs.TypeScript.Unions
import Declgen.Proofs.TypeScript.Words
import Declgen.Proofs.Types.Instances
import Declgen.Proofs.Types.Levels
import Declgen.Proofs.Types.Members
import Declgen.Proofs.Types.Places
import Declgen.Proofs.Types.Readable
import Declgen.Proofs.Types.Replacement
import Declgen.Proofs.Types.Spelling
import Declgen.Proofs.Types.Tree
import Declgen.Proofs.Types.Unfolding
import Declgen.Proofs.Units.Changes
import Declgen.Proofs.Units.Indexed
import Declgen.Proofs.Units.Registry
import Declgen.Proofs.Units.Renumbering
import Declgen.Proofs.Walk.Applied
import Declgen.Proofs.Walk.Bases
import Declgen.Proofs.Walk.BreadthFirst
import Declgen.Proofs.Walk.Closed
import Declgen.Proofs.Walk.Dangling
import Declgen.Proofs.Walk.Declarations
import Declgen.Proofs.Walk.Depth
import Declgen.Proofs.Walk.Discovery
import Declgen.Proofs.Walk.Documents
import Declgen.Proofs.Walk.Errors
import Declgen.Proofs.Walk.Exploration
import Declgen.Proofs.Walk.Expressions
import Declgen.Proofs.Walk.Failing
import Declgen.Proofs.Walk.Flattening
import Declgen.Proofs.Walk.Ground
import Declgen.Proofs.Walk.Growth
import Declgen.Proofs.Walk.Hooks
import Declgen.Proofs.Walk.Identifiers
import Declgen.Proofs.Walk.Meaning
import Declgen.Proofs.Walk.NameBound
import Declgen.Proofs.Walk.Naming
import Declgen.Proofs.Walk.Order
import Declgen.Proofs.Walk.Prepared
import Declgen.Proofs.Walk.Preserved
import Declgen.Proofs.Walk.Renumbered
import Declgen.Proofs.Walk.RootOrder
import Declgen.Proofs.Walk.Scoping
import Declgen.Proofs.Walk.Settings
import Declgen.Proofs.Walk.Sharing
import Declgen.Proofs.Walk.Soundness
import Declgen.Proofs.Walk.Styles
import Declgen.Proofs.Walk.Substituted
import Declgen.Proofs.Walk.Succeeding
import Declgen.Proofs.Walk.Termination
import Declgen.Text.Alphanumeric
import Declgen.Text.Blank
import Declgen.Text.Bytes
import Declgen.Text.Case
import Declgen.Text.CaseMap
import Declgen.Text.Identifier
import Declgen.Text.Quoted
import Declgen.Text.Reading
import Declgen.Text.Run
import Declgen.Text.Split
import Declgen.Text.Words
import Declgen.Toml.Moment
import Declgen.Toml.Number
import Declgen.Toml.Parser
import Declgen.Toml.Quoted
import Declgen.Toml.Scalar
import Declgen.Toml.Table
import Declgen.Toml.Value
import Declgen.TypeScript.Declaration
import Declgen.TypeScript.Expr
import Declgen.TypeScript.Naming
import Declgen.TypeScript.Render
import Declgen.TypeScript.SourceFile
import Declgen.Units.Registry
import Declgen.Walk.Build
import Declgen.Walk.Conversion
import Declgen.Walk.Graph
import Declgen.Walk.Identity
import Declgen.Walk.Members
import Declgen.Walk.Run
import Declgen.Walk.Substitution
import Declgen.Word
