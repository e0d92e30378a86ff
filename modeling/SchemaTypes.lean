import SchemaTypes.CommandLine.Arguments
import SchemaTypes.CommandLine.Program
import SchemaTypes.CommandLine.Words
import SchemaTypes.Decimal
import SchemaTypes.Declaration.Document
import SchemaTypes.Declaration.Interface
import SchemaTypes.Declaration.Literal
import SchemaTypes.Fault
import SchemaTypes.FileTree.Basic
import SchemaTypes.FileTree.Search
import SchemaTypes.Generation.Events
import SchemaTypes.Generation.Output
import SchemaTypes.Generation.Result
import SchemaTypes.Generation.Writer
import SchemaTypes.Glob
import SchemaTypes.Issue
import SchemaTypes.Json.Basic
import SchemaTypes.Json.Complaint
import SchemaTypes.Json.Reader
import SchemaTypes.Json.Writer
import SchemaTypes.Log
import SchemaTypes.Main
import SchemaTypes.Model.Basic
import SchemaTypes.Model.Normalization
import SchemaTypes.Model.Record
import SchemaTypes.Mongoose.Contract
import SchemaTypes.Mongoose.Definition
import SchemaTypes.Mongoose.Introspection
import SchemaTypes.Mongoose.Module
import SchemaTypes.Path
import SchemaTypes.Prisma.Block
import SchemaTypes.Prisma.FieldLine
import SchemaTypes.Prisma.Nesting
import SchemaTypes.Prisma.Schema
import SchemaTypes.Problem
import SchemaTypes.Project
import SchemaTypes.Proofs.References.Component
import SchemaTypes.Proofs.References.Marking
import SchemaTypes.Proofs.References.Reach
import SchemaTypes.Raw.Basic
import SchemaTypes.Raw.Record
import SchemaTypes.References.Analysis
import SchemaTypes.References.Component
import SchemaTypes.References.Cycle
import SchemaTypes.References.Graph
import SchemaTypes.Scalar
import SchemaTypes.Settings
import SchemaTypes.Source
import SchemaTypes.Text.Blank
import SchemaTypes.Text.Case
import SchemaTypes.Text.CharRange
import SchemaTypes.Text.Digit
import SchemaTypes.Text.Hex
import SchemaTypes.Text.Identifier
import SchemaTypes.Text.Lines
import SchemaTypes.Text.Lower
import SchemaTypes.Text.Printable
import SchemaTypes.Text.Quoted
import SchemaTypes.Text.Word
import SchemaTypes.Proofs.References.Rotation
import SchemaTypes.Proofs.References.PlainSearch
import SchemaTypes.Proofs.References.Cycle
import SchemaTypes.Proofs.References.CycleKey
import SchemaTypes.Proofs.References.Mentions
import SchemaTypes.Proofs.References.Analysis
import SchemaTypes.Proofs.Declaration.Brackets
import SchemaTypes.Proofs.Declaration.Clearing
import SchemaTypes.Proofs.Declaration.Comments
import SchemaTypes.Proofs.Declaration.EnumOrder
import SchemaTypes.Proofs.Declaration.Imports
import SchemaTypes.Proofs.Declaration.Lines
import SchemaTypes.Proofs.Declaration.Literals
import SchemaTypes.Proofs.Declaration.Spelling
import SchemaTypes.Proofs.Declaration.TypeTree
import SchemaTypes.Proofs.Declaration.Unambiguous
import SchemaTypes.Proofs.FileTree.AnyDepth
import SchemaTypes.Proofs.FileTree.Overwriting
import SchemaTypes.Proofs.FileTree.PathText
import SchemaTypes.Proofs.FileTree.Writing
import SchemaTypes.Proofs.Generation.DeclaredNames
import SchemaTypes.Proofs.Generation.Delivery
import SchemaTypes.Proofs.Generation.Exports
import SchemaTypes.Proofs.Generation.Verification
import SchemaTypes.Proofs.Generation.Failure
import SchemaTypes.Proofs.Generation.FileNames
import SchemaTypes.Proofs.Generation.Places
import SchemaTypes.Proofs.Generation.Regeneration
import SchemaTypes.Proofs.Generation.Severity
import SchemaTypes.Proofs.Json.DistinctKeys
import SchemaTypes.Proofs.Json.Reading
import SchemaTypes.Proofs.Json.Complaint
import SchemaTypes.Proofs.Model.Accounting
import SchemaTypes.Proofs.Model.Batch
import SchemaTypes.Proofs.Model.EnumEntries
import SchemaTypes.Proofs.Model.EnumTable
import SchemaTypes.Proofs.Model.Naming
import SchemaTypes.Proofs.Model.Renormalization
import SchemaTypes.Proofs.Model.Rules
import SchemaTypes.Proofs.Model.Shapes
import SchemaTypes.Proofs.Mongoose.Arrays
import SchemaTypes.Proofs.Mongoose.Attributes
import SchemaTypes.Proofs.Mongoose.Requiredness
import SchemaTypes.Proofs.Mongoose.Wrappers
import SchemaTypes.Proofs.Prisma.Canonical
import SchemaTypes.Proofs.Prisma.Nesting
import SchemaTypes.Proofs.Prisma.Lines
import SchemaTypes.Proofs.Prisma.Blocks
import SchemaTypes.Proofs.Prisma.RoundTrip
import SchemaTypes.Proofs.Prisma.EnumValues
import SchemaTypes.Proofs.Prisma.Joining
import SchemaTypes.Proofs.Prisma.Comments
import SchemaTypes.Proofs.Prisma.Inert
import SchemaTypes.Proofs.Prisma.Quotes
import SchemaTypes.Proofs.Prisma.Flags
import SchemaTypes.Proofs.Prisma.Groups
import SchemaTypes.Proofs.Prisma.Spans
import SchemaTypes.Proofs.Prisma.Recovery
import SchemaTypes.Proofs.Prisma.Outcomes
import SchemaTypes.Proofs.Prisma.SourceOrder
import SchemaTypes.Proofs.Source.ModuleFiles
import SchemaTypes.Proofs.Source.Modules
import SchemaTypes.Proofs.Source.Shapes
