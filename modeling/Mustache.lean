import Mustache.Text
import Mustache.Text.Space
import Mustache.Text.Lines
import Mustache.Text.Entity
import Mustache.Span
import Mustache.Error
import Mustache.Delimiters
import Mustache.Path
import Mustache.Tag
import Mustache.Token
import Mustache.Node
import Mustache.Node.Parser
import Mustache.Decimal
import Mustache.Decimal.Shortest
import Mustache.Floating
import Mustache.Address
import Mustache.Data
import Mustache.Value
import Mustache.Context
import Mustache.Escaper
import Mustache.Partials
import Mustache.Sink
import Mustache.Sink.Stream
import Mustache.Rendering
import Mustache.Template
import Mustache.Proofs.RaisedErrors
import Mustache.Proofs.SectionStack
import Mustache.Proofs.StandaloneLine
import Mustache.Proofs.Partition
import Mustache.Proofs.Places
import Mustache.Proofs.Output
import Mustache.Proofs.BoundedSink
import Mustache.Proofs.Indentation
import Mustache.Proofs.IndentedTags
import Mustache.Proofs.Occurrence
import Mustache.Proofs.HtmlSafety
import Mustache.Proofs.IndentedNodes
import Mustache.Proofs.Relocation
import Mustache.Proofs.TagForm
import Mustache.Proofs.PartialDepth
import Mustache.Proofs.Extension
import Mustache.Proofs.Concatenation
import Mustache.Proofs.Redelimited
import Mustache.Proofs.RenderingMachine
import Mustache.Proofs.Nesting
import Mustache.Proofs.Similarity
import Mustache.Proofs.Wrappers
import Mustache.Proofs.DynamicData
import Mustache.Proofs.Failures
import Mustache.Proofs.Streaming
import Mustache.Proofs.EntryOrder
import Mustache.Proofs.TagGrammar
import Mustache.Proofs.ErrorPlaces
import Mustache.Proofs.Slices
import Mustache.Proofs.TrimmedLines
import Mustache.Proofs.OuterScopes
import Mustache.Proofs.SectionRounds
import Mustache.Proofs.DottedNames
import Mustache.Proofs.Escaping
import Mustache.Proofs.NestedPartials
import Mustache.Proofs.CommentLines
import Mustache.Proofs.TokenStream
import Mustache.Proofs.RejectedTags
import Mustache.Proofs.OpenSections
import Mustache.Proofs.SettledErrors
import Mustache.Proofs.WholeTags
import Mustache.Proofs.PartialTables
import Mustache.Proofs.IndentedLines
import Mustache.Proofs.TagNames
