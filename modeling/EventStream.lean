import EventStream.Channel.Basic
import EventStream.Channel.Gate
import EventStream.Config.Channel
import EventStream.Config.Duration
import EventStream.Config.Error
import EventStream.Config.Fraction
import EventStream.Config.Joiner
import EventStream.Config.ListenAddr
import EventStream.Config.Runtime
import EventStream.Config.Settings
import EventStream.Config.Subscription
import EventStream.Double.Arithmetic
import EventStream.Double.Basic
import EventStream.Double.Decimal
import EventStream.Double.Layout
import EventStream.Double.Rounding
import EventStream.Double.Shortest
import EventStream.Entries
import EventStream.Event.Basic
import EventStream.Event.CloudEvent
import EventStream.Event.Decode
import EventStream.Event.IngestError
import EventStream.Expr.Bindings
import EventStream.Expr.Builtin
import EventStream.Expr.Depth
import EventStream.Expr.Error
import EventStream.Expr.Eval
import EventStream.Expr.Lexer
import EventStream.Expr.Ownership
import EventStream.Expr.Parser
import EventStream.Expr.Program
import EventStream.Expr.Token
import EventStream.Expr.Tree
import EventStream.Expr.Typing
import EventStream.Expr.Value
import EventStream.HostName.Address
import EventStream.HostName.Basic
import EventStream.HostName.Direction
import EventStream.HostName.Folding
import EventStream.HostName.Joining
import EventStream.HostName.Letters
import EventStream.HostName.Punycode
import EventStream.Json.Basic
import EventStream.Json.Reader
import EventStream.Json.Writer
import EventStream.Metrics.Basic
import EventStream.Metrics.Exposition
import EventStream.Output.Lines
import EventStream.Output.Router
import EventStream.Output.Sidecar
import EventStream.Output.Transport
import EventStream.Output.Url
import EventStream.Payload
import EventStream.Pipeline.Basic
import EventStream.Pipeline.Settle
import EventStream.Processor.Expression
import EventStream.Processor.Stage
import EventStream.ProcessorError
import EventStream.Proofs.Channel.Batches
import EventStream.Proofs.Channel.CountTriggers
import EventStream.Proofs.Channel.EventAccounts
import EventStream.Proofs.Channel.GateHistory
import EventStream.Proofs.Channel.Objects
import EventStream.Proofs.Channel.Steps
import EventStream.Proofs.Channel.WholeEvents
import EventStream.Proofs.Config.Durations
import EventStream.Proofs.Config.Fractions
import EventStream.Proofs.Config.Pieces
import EventStream.Proofs.Config.Runs
import EventStream.Proofs.Config.Segments
import EventStream.Proofs.Config.Splitting
import EventStream.Proofs.Config.WellFormed
import EventStream.Proofs.Double.Order
import EventStream.Proofs.Entries
import EventStream.Proofs.Expr.CanonicalJson
import EventStream.Proofs.Expr.Comparisons
import EventStream.Proofs.Expr.Connectives
import EventStream.Proofs.Expr.Environments
import EventStream.Proofs.Expr.Equality
import EventStream.Proofs.Expr.FieldAccess
import EventStream.Proofs.Expr.Insertions
import EventStream.Proofs.Expr.Integers
import EventStream.Proofs.Expr.JsonValues
import EventStream.Proofs.Expr.Keys
import EventStream.Proofs.Expr.Operations
import EventStream.Proofs.Expr.Ownership
import EventStream.Proofs.Expr.Parts
import EventStream.Proofs.Expr.Refusals
import EventStream.Proofs.Expr.Tables
import EventStream.Proofs.Expr.TypeSoundness
import EventStream.Proofs.Expr.TypedPrograms
import EventStream.Proofs.Output.Calls
import EventStream.Proofs.Pipeline.Accounts
import EventStream.Proofs.Pipeline.ChannelRuns
import EventStream.Proofs.Pipeline.Dispatches
import EventStream.Proofs.Pipeline.JoinerRuns
import EventStream.Proofs.Pipeline.Progress
import EventStream.Proofs.Pipeline.Runs
import EventStream.Proofs.Pipeline.ServiceRuns
import EventStream.Proofs.Pipeline.Transcripts
import EventStream.Proofs.Server.Admission
import EventStream.Proofs.Server.EnvelopeForms
import EventStream.Proofs.Server.Envelopes
import EventStream.Proofs.Server.Exchanges
import EventStream.Proofs.Server.Origins
import EventStream.Proofs.Server.Routes
import EventStream.Proofs.Syntax.Accepted
import EventStream.Proofs.Syntax.Adjacent
import EventStream.Proofs.Syntax.Consumption
import EventStream.Proofs.Syntax.Depth
import EventStream.Proofs.Syntax.Derived
import EventStream.Proofs.Syntax.Enclosed
import EventStream.Proofs.Syntax.Escapes
import EventStream.Proofs.Syntax.Failures
import EventStream.Proofs.Syntax.Grammar
import EventStream.Proofs.Syntax.IntegerTexts
import EventStream.Proofs.Syntax.Literals
import EventStream.Proofs.Syntax.Locality
import EventStream.Proofs.Syntax.Names
import EventStream.Proofs.Syntax.Numerals
import EventStream.Proofs.Syntax.Operators
import EventStream.Proofs.Syntax.Outline
import EventStream.Proofs.Syntax.Siblings
import EventStream.Proofs.Syntax.Tiling
import EventStream.Proofs.Syntax.Words
import EventStream.Proofs.Syntax.Written
import EventStream.Proofs.Targets
import EventStream.Proofs.Text.Trimming
import EventStream.Proofs.Traversal
import EventStream.Proofs.Window.CrossJoin
import EventStream.Proofs.Window.Independence
import EventStream.Proofs.Window.StoreHistory
import EventStream.Proofs.Window.Transposed
import EventStream.Queue
import EventStream.Server.Http
import EventStream.Server.Ingest
import EventStream.Server.Path
import EventStream.Server.Scrape
import EventStream.Service
import EventStream.Target
import EventStream.Text.Base64
import EventStream.Text.Blank
import EventStream.Text.Bytes
import EventStream.Text.CharRuns
import EventStream.Text.Numeral
import EventStream.Text.Size
import EventStream.Window.Join
import EventStream.Window.Joiner
import EventStream.Window.Outcome
import EventStream.Window.Schedule
import EventStream.Window.Store
