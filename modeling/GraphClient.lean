import GraphClient.Arena
import GraphClient.Bindings.Code
import GraphClient.Bindings.Compile
import GraphClient.Bindings.Generate
import GraphClient.Bindings.Names
import GraphClient.Document.Cursor
import GraphClient.Document.Diagnostic
import GraphClient.Document.Lexer
import GraphClient.Document.LiteralText
import GraphClient.Document.Parser
import GraphClient.Document.Token
import GraphClient.Document.Tree
import GraphClient.Json.Basic
import GraphClient.Json.Reader
import GraphClient.Json.Record
import GraphClient.Json.Writer
import GraphClient.Live.Client
import GraphClient.Live.Handler
import GraphClient.Live.Heap
import GraphClient.Live.Increasing
import GraphClient.Live.Message
import GraphClient.Live.Patch
import GraphClient.Live.Plan
import GraphClient.Live.Reorder
import GraphClient.Live.Summary
import GraphClient.Live.Watch
import GraphClient.Main
import GraphClient.Number.Binary64
import GraphClient.Number.Shortest
import GraphClient.Operation.Bind
import GraphClient.Operation.Selected
import GraphClient.Project.Arguments
import GraphClient.Project.Commands
import GraphClient.Project.Config
import GraphClient.Project.Folder
import GraphClient.Project.Path
import GraphClient.Proofs.Bindings.Accessors
import GraphClient.Proofs.Bindings.Descriptions
import GraphClient.Proofs.Bindings.Emitting
import GraphClient.Proofs.Bindings.Expressions
import GraphClient.Proofs.Bindings.Getters
import GraphClient.Proofs.Bindings.MemberNames
import GraphClient.Proofs.Bindings.MethodNames
import GraphClient.Proofs.Bindings.TypeNames
import GraphClient.Proofs.Bindings.Verbatim
import GraphClient.Proofs.Document.Acceptance
import GraphClient.Proofs.Document.Balance
import GraphClient.Proofs.Document.Bare
import GraphClient.Proofs.Document.Calls
import GraphClient.Proofs.Document.Covering
import GraphClient.Proofs.Document.Cutting
import GraphClient.Proofs.Document.Definitions
import GraphClient.Proofs.Document.Derivation
import GraphClient.Proofs.Document.Escapes
import GraphClient.Proofs.Document.Grammar
import GraphClient.Proofs.Document.Joining
import GraphClient.Proofs.Document.Lexing
import GraphClient.Proofs.Document.Outline
import GraphClient.Proofs.Document.Pieces
import GraphClient.Proofs.Document.Placing
import GraphClient.Proofs.Document.Progress
import GraphClient.Proofs.Document.Reading
import GraphClient.Proofs.Document.Recovery
import GraphClient.Proofs.Document.Spacing
import GraphClient.Proofs.Document.Steps
import GraphClient.Proofs.Json.Canonical
import GraphClient.Proofs.Live.Apart
import GraphClient.Proofs.Live.Applying
import GraphClient.Proofs.Live.Conformance
import GraphClient.Proofs.Live.Contents
import GraphClient.Proofs.Live.Diff
import GraphClient.Proofs.Live.Evolution
import GraphClient.Proofs.Live.Forest
import GraphClient.Proofs.Live.Frame
import GraphClient.Proofs.Live.Framing
import GraphClient.Proofs.Live.Heap
import GraphClient.Proofs.Live.Identity
import GraphClient.Proofs.Live.Increasing
import GraphClient.Proofs.Live.Invariant
import GraphClient.Proofs.Live.Isolation
import GraphClient.Proofs.Live.Lifecycle
import GraphClient.Proofs.Live.Listings
import GraphClient.Proofs.Live.Matching
import GraphClient.Proofs.Live.Merge
import GraphClient.Proofs.Live.Messages
import GraphClient.Proofs.Live.Moves
import GraphClient.Proofs.Live.Ownership
import GraphClient.Proofs.Live.Plans
import GraphClient.Proofs.Live.Refinement
import GraphClient.Proofs.Live.Refusal
import GraphClient.Proofs.Live.Reordering
import GraphClient.Proofs.Live.Repetition
import GraphClient.Proofs.Live.Replay
import GraphClient.Proofs.Live.Scripts
import GraphClient.Proofs.Live.Settled
import GraphClient.Proofs.Live.Shadowing
import GraphClient.Proofs.Live.Snapshot
import GraphClient.Proofs.Live.Subscriptions
import GraphClient.Proofs.Live.Survivors
import GraphClient.Proofs.Live.Tails
import GraphClient.Proofs.Live.Typing
import GraphClient.Proofs.Live.Writing
import GraphClient.Proofs.Number.Rounding
import GraphClient.Proofs.Operation.Binding
import GraphClient.Proofs.Operation.Cycles
import GraphClient.Proofs.Operation.Extension
import GraphClient.Proofs.Operation.Gathering
import GraphClient.Proofs.Operation.Labels
import GraphClient.Proofs.Operation.Nesting
import GraphClient.Proofs.Operation.Paths
import GraphClient.Proofs.Operation.Rebinding
import GraphClient.Proofs.Operation.Spreading
import GraphClient.Proofs.Operation.Typing
import GraphClient.Proofs.Operation.Unfolding
import GraphClient.Proofs.Operation.Variables
import GraphClient.Proofs.Project.Folder
import GraphClient.Proofs.Project.Pipeline
import GraphClient.Proofs.Scalar.Calendar
import GraphClient.Proofs.Scalar.Filling
import GraphClient.Proofs.Scalar.Numerals
import GraphClient.Proofs.Scalar.RoundTrip
import GraphClient.Proofs.Scalar.Uuid
import GraphClient.Proofs.Schema.Build
import GraphClient.Proofs.Schema.Closed
import GraphClient.Proofs.Schema.Order
import GraphClient.Proofs.Schema.References
import GraphClient.Proofs.Table
import GraphClient.Proofs.Text.Words
import GraphClient.Scalar.Calendar
import GraphClient.Scalar.Converter
import GraphClient.Scalar.Decimal
import GraphClient.Scalar.Registry
import GraphClient.Scalar.Uuid
import GraphClient.Scalar.Value
import GraphClient.Schema.Build
import GraphClient.Schema.Describe
import GraphClient.Schema.Introspection
import GraphClient.Schema.TypeGraph
import GraphClient.Table
import GraphClient.Text.Casing
import GraphClient.Text.Characters
import GraphClient.Text.Digits
import GraphClient.Text.Span
import GraphClient.Text.Unassigned
import GraphClient.Text.Visible
