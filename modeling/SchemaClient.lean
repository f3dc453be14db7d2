import SchemaClient.Catalog.Basic
import SchemaClient.Catalog.Client
import SchemaClient.Catalog.Decoding
import SchemaClient.Catalog.Instances
import SchemaClient.Catalog.Listing
import SchemaClient.CommandLine.Arguments
import SchemaClient.CommandLine.Help
import SchemaClient.CommandLine.Run
import SchemaClient.Config.Basic
import SchemaClient.Config.Discovery
import SchemaClient.Config.Reading
import SchemaClient.DataFormat
import SchemaClient.Decimal.Notation
import SchemaClient.Decimal.Reading
import SchemaClient.Decimal.Shortest
import SchemaClient.Declaration
import SchemaClient.Error
import SchemaClient.Files.Basic
import SchemaClient.Files.Tree
import SchemaClient.Generation.Preamble
import SchemaClient.Generation.Run
import SchemaClient.Http.Retry
import SchemaClient.Http.Status
import SchemaClient.Http.Transport
import SchemaClient.Json.Basic
import SchemaClient.Json.Decoder
import SchemaClient.Json.Fault
import SchemaClient.Json.Lexeme
import SchemaClient.Json.Printer
import SchemaClient.Json.Reader
import SchemaClient.Main
import SchemaClient.Path
import SchemaClient.Proofs.Catalog.Collecting
import SchemaClient.Proofs.Catalog.Failures
import SchemaClient.Proofs.Catalog.Grouping
import SchemaClient.Proofs.Catalog.Holdings
import SchemaClient.Proofs.Catalog.Instances
import SchemaClient.Proofs.Catalog.Locations
import SchemaClient.Proofs.Catalog.Pagination
import SchemaClient.Proofs.Catalog.Requests
import SchemaClient.Proofs.CommandLine.Output
import SchemaClient.Proofs.Config.Discovery
import SchemaClient.Proofs.Emission.Constants
import SchemaClient.Proofs.Emission.Forcing
import SchemaClient.Proofs.Emission.Intact
import SchemaClient.Proofs.Emission.Naming
import SchemaClient.Proofs.Emission.Part
import SchemaClient.Proofs.Emission.Rows
import SchemaClient.Proofs.Emission.Section
import SchemaClient.Proofs.Files.Content
import SchemaClient.Proofs.Generation.Attribution
import SchemaClient.Proofs.Generation.Board
import SchemaClient.Proofs.Generation.Capacity
import SchemaClient.Proofs.Generation.Closed
import SchemaClient.Proofs.Generation.Constants
import SchemaClient.Proofs.Generation.Deferred
import SchemaClient.Proofs.Generation.Draft
import SchemaClient.Proofs.Generation.Forcing
import SchemaClient.Proofs.Generation.Intact
import SchemaClient.Proofs.Generation.Lookup
import SchemaClient.Proofs.Generation.Order
import SchemaClient.Proofs.Generation.Outcome
import SchemaClient.Proofs.Generation.Phases
import SchemaClient.Proofs.Generation.Resolved
import SchemaClient.Proofs.Generation.Resources
import SchemaClient.Proofs.Generation.Schedule
import SchemaClient.Proofs.Generation.Serial
import SchemaClient.Proofs.Generation.Served
import SchemaClient.Proofs.Generation.Specifier
import SchemaClient.Proofs.Generation.Without
import SchemaClient.Proofs.Http.Retry
import SchemaClient.Proofs.Json.Decoders
import SchemaClient.Proofs.Json.Distinct
import SchemaClient.Proofs.Json.Grammar
import SchemaClient.Proofs.Json.Lexemes
import SchemaClient.Proofs.Json.Objects
import SchemaClient.Proofs.Json.Pointer
import SchemaClient.Proofs.Json.Remainder
import SchemaClient.Proofs.Json.Strings
import SchemaClient.Proofs.Json.Text
import SchemaClient.Proofs.Json.Values
import SchemaClient.Proofs.Lowering.Canonical
import SchemaClient.Proofs.Lowering.Demands
import SchemaClient.Proofs.Lowering.Faults
import SchemaClient.Proofs.Lowering.Forms
import SchemaClient.Proofs.Lowering.Looseness
import SchemaClient.Proofs.Lowering.Misread
import SchemaClient.Proofs.Lowering.Nullability
import SchemaClient.Proofs.Lowering.Nulls
import SchemaClient.Proofs.Lowering.Parts
import SchemaClient.Proofs.Lowering.Pruning
import SchemaClient.Proofs.Lowering.References
import SchemaClient.Proofs.Lowering.Selects
import SchemaClient.Proofs.Lowering.Traversal
import SchemaClient.Proofs.Path.Ancestors
import SchemaClient.Proofs.Path.Components
import SchemaClient.Proofs.Path.Lexical
import SchemaClient.Proofs.Run.Contexts
import SchemaClient.Proofs.Run.Expressions
import SchemaClient.Proofs.Run.Faults
import SchemaClient.Proofs.Run.Output
import SchemaClient.Proofs.Run.Regular
import SchemaClient.Proofs.Schema.Kinds
import SchemaClient.Proofs.Schema.Meaning
import SchemaClient.Proofs.Schema.Nulls
import SchemaClient.Proofs.Schema.Plain
import SchemaClient.Proofs.Schema.Validity
import SchemaClient.Proofs.Section.Plan
import SchemaClient.Proofs.Section.Progress
import SchemaClient.Proofs.Section.Steps
import SchemaClient.Proofs.Sharing.Ahead
import SchemaClient.Proofs.Sharing.Calls
import SchemaClient.Proofs.Sharing.Failures
import SchemaClient.Proofs.Sharing.Growth
import SchemaClient.Proofs.Sharing.Plan
import SchemaClient.Proofs.Sharing.Transforming
import SchemaClient.Proofs.Text.Chain
import SchemaClient.Proofs.Text.Delimited
import SchemaClient.Proofs.Text.Identifier
import SchemaClient.Proofs.Text.Reading
import SchemaClient.Proofs.Text.Rows
import SchemaClient.Proofs.Text.Separated
import SchemaClient.Proofs.Text.Utf8
import SchemaClient.Proofs.Url.Endpoint
import SchemaClient.Proofs.Validator.Acceptance
import SchemaClient.Proofs.Validator.Alike
import SchemaClient.Proofs.Validator.Canonical
import SchemaClient.Proofs.Validator.Core
import SchemaClient.Proofs.Validator.Determined
import SchemaClient.Proofs.Validator.Regular
import SchemaClient.Proofs.Validator.Source
import SchemaClient.Proofs.Validator.Spelling
import SchemaClient.Proofs.Validator.Unambiguous
import SchemaClient.Proofs.Workspace.Line
import SchemaClient.Proofs.Workspace.Store
import SchemaClient.Run.Contexts
import SchemaClient.Run.Ledger
import SchemaClient.Run.Output
import SchemaClient.Run.Scope
import SchemaClient.Schema.Keywords
import SchemaClient.Schema.Lowering
import SchemaClient.Schema.Reference
import SchemaClient.Section.Basic
import SchemaClient.Section.Resources
import SchemaClient.Section.Runnables
import SchemaClient.Section.Step
import SchemaClient.Table
import SchemaClient.Text.Identifier
import SchemaClient.Text.LetterCase
import SchemaClient.Text.Parts
import SchemaClient.Text.Quoted
import SchemaClient.Text.Reading
import SchemaClient.Text.Shown
import SchemaClient.Text.Utf8
import SchemaClient.Url.Address
import SchemaClient.Url.Domain
import SchemaClient.Url.Endpoint
import SchemaClient.Url.Escape
import SchemaClient.Url.Host
import SchemaClient.Url.Origin
import SchemaClient.Url.Punycode
import SchemaClient.Validator.Basic
import SchemaClient.Validator.Source
import SchemaClient.Workspace.Store
import SchemaClient.Yaml.Cursor
import SchemaClient.Yaml.Decoder
import SchemaClient.Yaml.Document
import SchemaClient.Yaml.Fault
import SchemaClient.Yaml.Node
import SchemaClient.Yaml.Scalar
import SchemaClient.Yaml.Tag
import SchemaClient.Yaml.Token
