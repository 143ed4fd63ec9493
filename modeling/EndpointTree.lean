import EndpointTree.ApiError
import EndpointTree.AuthContext
import EndpointTree.Chain
import EndpointTree.Channel.Event
import EndpointTree.Channel.Fold
import EndpointTree.Channel.Frame
import EndpointTree.Channel.Observe
import EndpointTree.Channel.Pattern
import EndpointTree.Channel.Session
import EndpointTree.Channel.Socket
import EndpointTree.Channel.Table
import EndpointTree.CommandLine.Arguments
import EndpointTree.CommandLine.Commands
import EndpointTree.CommandLine.Report
import EndpointTree.Declaration.Access
import EndpointTree.Declaration.Cors
import EndpointTree.Declaration.Endpoint
import EndpointTree.Declaration.Fault
import EndpointTree.Declaration.Handlers
import EndpointTree.Declaration.Names
import EndpointTree.Declaration.Rule
import EndpointTree.Dict
import EndpointTree.Digest.Sha256
import EndpointTree.Endpoint.AuthTable
import EndpointTree.Endpoint.Basic
import EndpointTree.Endpoint.Compile
import EndpointTree.Endpoint.CorsOptions
import EndpointTree.Gate
import EndpointTree.Handling.Authenticate
import EndpointTree.Handling.Crud
import EndpointTree.Handling.Handler
import EndpointTree.Handling.Registry
import EndpointTree.Http.CrossOrigin
import EndpointTree.Http.Form
import EndpointTree.Http.Headers
import EndpointTree.Http.Message
import EndpointTree.Http.PathPattern
import EndpointTree.Http.RouteTree
import EndpointTree.Http.Target
import EndpointTree.Http.Upgrade
import EndpointTree.Json.Binary64
import EndpointTree.Json.Fault
import EndpointTree.Json.Merge
import EndpointTree.Json.Number
import EndpointTree.Json.Parser
import EndpointTree.Json.Printer
import EndpointTree.Json.Record
import EndpointTree.Json.Value
import EndpointTree.Main
import EndpointTree.Method
import EndpointTree.ModelFile
import EndpointTree.Pairs
import EndpointTree.Path
import EndpointTree.Proofs.Addresses
import EndpointTree.Proofs.Channel.Calls
import EndpointTree.Proofs.Channel.Closing
import EndpointTree.Proofs.Channel.Composition
import EndpointTree.Proofs.Channel.Delivery
import EndpointTree.Proofs.Channel.Expression
import EndpointTree.Proofs.Channel.Forgetting
import EndpointTree.Proofs.Channel.Frames
import EndpointTree.Proofs.Channel.Handshake
import EndpointTree.Proofs.Channel.Listing
import EndpointTree.Proofs.Channel.Routing
import EndpointTree.Proofs.Channel.Segments
import EndpointTree.Proofs.Channel.SilentSubtrees
import EndpointTree.Proofs.Channel.Sockets
import EndpointTree.Proofs.Channel.Subscribing
import EndpointTree.Proofs.Channel.Transcript
import EndpointTree.Proofs.Channel.Visits
import EndpointTree.Proofs.CommandLine.Hours
import EndpointTree.Proofs.Continuations
import EndpointTree.Proofs.Endpoint.Acceptance
import EndpointTree.Proofs.Endpoint.Checks
import EndpointTree.Proofs.Endpoint.CorsSections
import EndpointTree.Proofs.Endpoint.FailClosed
import EndpointTree.Proofs.Endpoint.Fields
import EndpointTree.Proofs.Endpoint.Handlers
import EndpointTree.Proofs.Endpoint.Inheritance
import EndpointTree.Proofs.Endpoint.KeyOrder
import EndpointTree.Proofs.Endpoint.Lineage
import EndpointTree.Proofs.Endpoint.Precedence
import EndpointTree.Proofs.Endpoint.References
import EndpointTree.Proofs.Endpoint.Rules
import EndpointTree.Proofs.Endpoint.Sites
import EndpointTree.Proofs.Endpoint.Sources
import EndpointTree.Proofs.Endpoint.Ways
import EndpointTree.Proofs.Enforcement
import EndpointTree.Proofs.Faults
import EndpointTree.Proofs.Gate
import EndpointTree.Proofs.Http.Allow
import EndpointTree.Proofs.Http.PlainText
import EndpointTree.Proofs.Http.RouteTree
import EndpointTree.Proofs.Json.Deletion
import EndpointTree.Proofs.Json.Fragments
import EndpointTree.Proofs.Json.Members
import EndpointTree.Proofs.Json.Numbers
import EndpointTree.Proofs.Json.Places
import EndpointTree.Proofs.Json.RoundTrip
import EndpointTree.Proofs.Json.Strings
import EndpointTree.Proofs.Pairs
import EndpointTree.Proofs.Privilege
import EndpointTree.Proofs.Redaction
import EndpointTree.Proofs.Redaction.Report
import EndpointTree.Proofs.Serving.Admission
import EndpointTree.Proofs.Serving.Atomicity
import EndpointTree.Proofs.Serving.Chains
import EndpointTree.Proofs.Serving.Confidentiality
import EndpointTree.Proofs.Serving.FieldBoundary
import EndpointTree.Proofs.Serving.Observation
import EndpointTree.Proofs.Serving.Policies
import EndpointTree.Proofs.Serving.Progress
import EndpointTree.Proofs.Serving.Provenance
import EndpointTree.Proofs.Serving.Refusals
import EndpointTree.Proofs.Serving.Routability
import EndpointTree.Proofs.Serving.Sockets
import EndpointTree.Proofs.Serving.Subscriptions
import EndpointTree.Proofs.Serving.WriteProtection
import EndpointTree.Proofs.Store.ChangeLog
import EndpointTree.Proofs.Store.Independence
import EndpointTree.Proofs.Store.Operations
import EndpointTree.Proofs.Store.Paging
import EndpointTree.Proofs.Store.Records
import EndpointTree.Proofs.Text.Base64Url
import EndpointTree.Proofs.Text.Unsigned
import EndpointTree.Proofs.Token.Expiry
import EndpointTree.Proofs.Token.Lifetime
import EndpointTree.Proofs.Token.RoundTrip
import EndpointTree.Proofs.Token.Soundness
import EndpointTree.Redaction
import EndpointTree.Roles
import EndpointTree.Serving.Application
import EndpointTree.Serving.Dispatch
import EndpointTree.Serving.Live
import EndpointTree.Serving.Routes
import EndpointTree.Settings
import EndpointTree.Store.Basic
import EndpointTree.Store.Change
import EndpointTree.Store.Query
import EndpointTree.Text.Base64Url
import EndpointTree.Text.Blank
import EndpointTree.Text.Lossy
import EndpointTree.Text.Quoted
import EndpointTree.Text.Unsigned
import EndpointTree.Text.Visible
import EndpointTree.Token.Bearer
import EndpointTree.Token.Claims
import EndpointTree.Token.Header
import EndpointTree.Token.Lifetime
import EndpointTree.Token.Signed
import EndpointTree.Tree
import EndpointTree.Yaml.Cursor
import EndpointTree.Yaml.Document
import EndpointTree.Yaml.Node
import EndpointTree.Yaml.Scalar
import EndpointTree.Yaml.Scalars
import EndpointTree.Yaml.Tag
import EndpointTree.Yaml.Token.Basic
import EndpointTree.Yaml.Token.Scan
