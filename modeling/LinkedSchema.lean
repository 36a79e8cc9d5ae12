import LinkedSchema.Binary64
import LinkedSchema.Binary64.Shortest
import LinkedSchema.Catalog
import LinkedSchema.Conformity
import LinkedSchema.Context
import LinkedSchema.Directory
import LinkedSchema.Document
import LinkedSchema.Document.Keys
import LinkedSchema.Export
import LinkedSchema.Identifier
import LinkedSchema.Interruption
import LinkedSchema.Introspection
import LinkedSchema.Journal
import LinkedSchema.Json.Basic
import LinkedSchema.Json.Draft
import LinkedSchema.Json.Lexeme
import LinkedSchema.Json.Number
import LinkedSchema.Json.Pointer
import LinkedSchema.Json.Printer
import LinkedSchema.Json.ReadError
import LinkedSchema.Json.Reader
import LinkedSchema.Json.Record
import LinkedSchema.Json.Token
import LinkedSchema.Json.Token.Numeral
import LinkedSchema.Json.Token.Text
import LinkedSchema.Kind.Basic
import LinkedSchema.Kind.Normal
import LinkedSchema.Kind.Wire
import LinkedSchema.Metadata
import LinkedSchema.Model
import LinkedSchema.Registry
import LinkedSchema.Remaining
import LinkedSchema.Sample.Relaxation
import LinkedSchema.Schema
import LinkedSchema.Scope
import LinkedSchema.Table
import LinkedSchema.Text.Blank
import LinkedSchema.Text.Hidden
import LinkedSchema.Text.Quoted
import LinkedSchema.Tree
import LinkedSchema.Walk
import LinkedSchema.Proofs.Kind.Members
import LinkedSchema.Proofs.Kind.References
import LinkedSchema.Proofs.Kind.Normal
import LinkedSchema.Proofs.Introspection.References
import LinkedSchema.Proofs.Introspection.Run
import LinkedSchema.Proofs.Introspection.Reached
import LinkedSchema.Proofs.Introspection.DirectLoops
import LinkedSchema.Proofs.Introspection.Tree
import LinkedSchema.Proofs.Context.Memo
import LinkedSchema.Proofs.Context.Filling
import LinkedSchema.Proofs.Context.Run
import LinkedSchema.Proofs.Context.Resolution
import LinkedSchema.Proofs.Schema.Validity
import LinkedSchema.Proofs.Conformity.Check
import LinkedSchema.Proofs.Conformity.Closed
import LinkedSchema.Proofs.Conformity.Agreement
import LinkedSchema.Proofs.Document.Data
import LinkedSchema.Proofs.Introspection.Closure
import LinkedSchema.Proofs.Document.Omission
import LinkedSchema.Proofs.Context.Origin
import LinkedSchema.Proofs.Context.Content
import LinkedSchema.Proofs.Introspection.Refusal
import LinkedSchema.Proofs.Introspection.Reordering
import LinkedSchema.Proofs.Conformity.Reordering
import LinkedSchema.Proofs.Context.Refusal
import LinkedSchema.Proofs.Context.Agreement
import LinkedSchema.Proofs.Context.Reordering
import LinkedSchema.Proofs.Document.Reordering
import LinkedSchema.Proofs.Identifier.Form
import LinkedSchema.Proofs.Registry.Registration
import LinkedSchema.Proofs.Registry.History
import LinkedSchema.Proofs.Registry.Answers
import LinkedSchema.Proofs.Document.Extension
import LinkedSchema.Proofs.Json.UriFragment
import LinkedSchema.Proofs.Schema.References
import LinkedSchema.Proofs.Document.Members
import LinkedSchema.Proofs.Document.References
import LinkedSchema.Proofs.Json.Parts
import LinkedSchema.Proofs.Json.Spelling
import LinkedSchema.Proofs.Json.Tokens
import LinkedSchema.Proofs.Json.Reading
import LinkedSchema.Proofs.Schema.Everywhere
import LinkedSchema.Proofs.Document.Everywhere
import LinkedSchema.Proofs.Document.Text
import LinkedSchema.Proofs.Conformity.Refusal
import LinkedSchema.Proofs.Document.Instance
import LinkedSchema.Proofs.Introspection.Locality
import LinkedSchema.Proofs.Context.Locality
import LinkedSchema.Proofs.Document.Locality
import LinkedSchema.Proofs.Document.Channels
import LinkedSchema.Proofs.Json.Equality
import LinkedSchema.Proofs.Conformity.Normal
import LinkedSchema.Proofs.Registry.Replay
import LinkedSchema.Proofs.Document.Definitions
import LinkedSchema.Proofs.Json.Codec
import LinkedSchema.Proofs.Kind.Wire
import LinkedSchema.Proofs.Catalog.Wire
import LinkedSchema.Proofs.Context.Nesting
import LinkedSchema.Proofs.Document.Culprit
import LinkedSchema.Proofs.Kind.NormalForm
import LinkedSchema.Proofs.Introspection.Course
import LinkedSchema.Proofs.Identifier.Characters
import LinkedSchema.Proofs.Context.Identifiers
import LinkedSchema.Proofs.Context.Bindings
import LinkedSchema.Proofs.Schema.Discernment
import LinkedSchema.Proofs.Conformity.Null
import LinkedSchema.Proofs.Context.FirstMeaning
