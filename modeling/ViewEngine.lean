import ViewEngine.Binary64.Basic
import ViewEngine.Binary64.Nearest
import ViewEngine.Binary64.Shortest
import ViewEngine.Calendar.Date
import ViewEngine.Calendar.Pattern
import ViewEngine.Calendar.Timestamp
import ViewEngine.Command.Arguments
import ViewEngine.Command.Outcome
import ViewEngine.Command.Run
import ViewEngine.Condition
import ViewEngine.Context
import ViewEngine.Decimal.Layout
import ViewEngine.Decimal.Reader
import ViewEngine.Dispatch.Basic
import ViewEngine.Dispatch.Program
import ViewEngine.Dispatch.Recording
import ViewEngine.Document.Action
import ViewEngine.Document.Component
import ViewEngine.Document.Depth
import ViewEngine.Document.Node
import ViewEngine.Document.Shape
import ViewEngine.Document.Tab
import ViewEngine.Endpoint.Basic
import ViewEngine.Endpoint.Request
import ViewEngine.Endpoint.Result
import ViewEngine.Expansion
import ViewEngine.Files.Basic
import ViewEngine.Files.Tree
import ViewEngine.Json.Basic
import ViewEngine.Json.Number
import ViewEngine.Json.Printer
import ViewEngine.Json.Reader
import ViewEngine.Json.Token
import ViewEngine.Live.Cache
import ViewEngine.Live.Fetching
import ViewEngine.Live.Interleaving
import ViewEngine.Main
import ViewEngine.Proofs.Binary64.Exact
import ViewEngine.Proofs.Binary64.Rounding
import ViewEngine.Proofs.Binary64.Shortest
import ViewEngine.Proofs.Calendar.Canonical
import ViewEngine.Proofs.Calendar.Clock
import ViewEngine.Proofs.Calendar.LateDates
import ViewEngine.Proofs.Calendar.Patterns
import ViewEngine.Proofs.Calendar.Writing
import ViewEngine.Proofs.Command.Reports
import ViewEngine.Proofs.Condition.Algebra
import ViewEngine.Proofs.Condition.Grammar
import ViewEngine.Proofs.Condition.Literals
import ViewEngine.Proofs.Context.Faults
import ViewEngine.Proofs.Context.Flattening
import ViewEngine.Proofs.Context.Mentions
import ViewEngine.Proofs.Context.Paths
import ViewEngine.Proofs.Context.Pipelines
import ViewEngine.Proofs.Context.Presence
import ViewEngine.Proofs.Context.Writing
import ViewEngine.Proofs.Decimal.Layout
import ViewEngine.Proofs.Decimal.Nearest
import ViewEngine.Proofs.Decimal.Numeral
import ViewEngine.Proofs.Decimal.Reading
import ViewEngine.Proofs.Dispatch.Answers
import ViewEngine.Proofs.Dispatch.Assignments
import ViewEngine.Proofs.Dispatch.Effects
import ViewEngine.Proofs.Dispatch.Fixtures
import ViewEngine.Proofs.Dispatch.Leaves
import ViewEngine.Proofs.Dispatch.Lockstep
import ViewEngine.Proofs.Dispatch.Moves
import ViewEngine.Proofs.Dispatch.Payloads
import ViewEngine.Proofs.Dispatch.Results
import ViewEngine.Proofs.Dispatch.Retries
import ViewEngine.Proofs.Dispatch.Run
import ViewEngine.Proofs.Dispatch.Sessions
import ViewEngine.Proofs.Dispatch.Sleeps
import ViewEngine.Proofs.Dispatch.Timing
import ViewEngine.Proofs.Dispatch.Writes
import ViewEngine.Proofs.Document.Decoding
import ViewEngine.Proofs.Document.Drafts
import ViewEngine.Proofs.Document.Encoding
import ViewEngine.Proofs.Document.Fields
import ViewEngine.Proofs.Document.Recast
import ViewEngine.Proofs.Document.RoundTrip
import ViewEngine.Proofs.Document.Texts
import ViewEngine.Proofs.Endpoint.Normalizing
import ViewEngine.Proofs.Expansion.Contents
import ViewEngine.Proofs.Expansion.Faults
import ViewEngine.Proofs.Expansion.Inlining
import ViewEngine.Proofs.Expansion.Mentions
import ViewEngine.Proofs.Expansion.Nesting
import ViewEngine.Proofs.Expansion.Walk
import ViewEngine.Proofs.Json.Grammar
import ViewEngine.Proofs.Json.Lexing
import ViewEngine.Proofs.Json.Numbers
import ViewEngine.Proofs.Json.Parts
import ViewEngine.Proofs.Json.Reading
import ViewEngine.Proofs.Json.RoundTrip
import ViewEngine.Proofs.Json.Scanning
import ViewEngine.Proofs.Json.Spelling
import ViewEngine.Proofs.Json.Stepwise
import ViewEngine.Proofs.Live.Clock
import ViewEngine.Proofs.Live.History
import ViewEngine.Proofs.Live.Independence
import ViewEngine.Proofs.Live.Loading
import ViewEngine.Proofs.Live.Marks
import ViewEngine.Proofs.Live.Orders
import ViewEngine.Proofs.Live.Turns
import ViewEngine.Proofs.Live.Waking
import ViewEngine.Proofs.Loads.Documents
import ViewEngine.Proofs.Loads.History
import ViewEngine.Proofs.Table.Order
import ViewEngine.Proofs.Text.Pieces
import ViewEngine.Proofs.Text.Splitting
import ViewEngine.Proofs.Text.Utf8
import ViewEngine.Proofs.Theme.Hexadecimal
import ViewEngine.Proofs.Transform.Durations
import ViewEngine.Proofs.Transform.Truncation
import ViewEngine.Proofs.Value.Equality
import ViewEngine.Proofs.Value.Parts
import ViewEngine.Proofs.Value.Refusal
import ViewEngine.Proofs.Value.RoundTrip
import ViewEngine.Proofs.Value.Routes
import ViewEngine.Proofs.View.Preorder
import ViewEngine.Settings
import ViewEngine.Source
import ViewEngine.Table
import ViewEngine.Text.Blank
import ViewEngine.Text.Hexadecimal
import ViewEngine.Text.LetterCase
import ViewEngine.Text.LetterTable
import ViewEngine.Text.Split
import ViewEngine.Text.Utf8
import ViewEngine.Theme.Basic
import ViewEngine.Theme.Colour
import ViewEngine.Toml.Basic
import ViewEngine.Toml.Reader
import ViewEngine.Toml.Scalar
import ViewEngine.Toml.Token
import ViewEngine.Transform
import ViewEngine.Value.Basic
import ViewEngine.Value.Codec
import ViewEngine.Value.Coercion
import ViewEngine.View
