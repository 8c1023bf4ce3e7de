import DeclaredApi.Arguments.Expected
import DeclaredApi.Arguments.Merge
import DeclaredApi.Arguments.Parts
import DeclaredApi.Arguments.Report
import DeclaredApi.Cache.Basic
import DeclaredApi.Cache.Entry
import DeclaredApi.Cache.Key
import DeclaredApi.Client.Basic
import DeclaredApi.Client.Batch
import DeclaredApi.Client.Encode
import DeclaredApi.Command.Files
import DeclaredApi.Command.Run
import DeclaredApi.Decimal.Double
import DeclaredApi.Decimal.Scaling
import DeclaredApi.Decimal.Shortest
import DeclaredApi.Dict
import DeclaredApi.Digest.Sha256
import DeclaredApi.Dotenv
import DeclaredApi.Http.Exchange
import DeclaredApi.Http.Header
import DeclaredApi.Http.Target
import DeclaredApi.Json.Basic
import DeclaredApi.Json.Document
import DeclaredApi.Json.Number
import DeclaredApi.Json.Record
import DeclaredApi.Json.Token
import DeclaredApi.Main
import DeclaredApi.Path.Basic
import DeclaredApi.Path.Place
import DeclaredApi.Proofs.Arguments.Expected
import DeclaredApi.Proofs.Arguments.Merge
import DeclaredApi.Proofs.Arguments.Parts
import DeclaredApi.Proofs.Arguments.Query
import DeclaredApi.Proofs.Arguments.Report
import DeclaredApi.Proofs.Cache.Clearing
import DeclaredApi.Proofs.Cache.Effect
import DeclaredApi.Proofs.Cache.Expiry
import DeclaredApi.Proofs.Cache.Failure
import DeclaredApi.Proofs.Cache.History
import DeclaredApi.Proofs.Cache.Identity
import DeclaredApi.Proofs.Cache.Log
import DeclaredApi.Proofs.Cache.Reopen
import DeclaredApi.Proofs.Cache.Store
import DeclaredApi.Proofs.Client.Alias
import DeclaredApi.Proofs.Client.Call
import DeclaredApi.Proofs.Client.Frame
import DeclaredApi.Proofs.Client.Rotation
import DeclaredApi.Proofs.Client.Served
import DeclaredApi.Proofs.Client.Session
import DeclaredApi.Proofs.Decimal.Reading
import DeclaredApi.Proofs.Dict
import DeclaredApi.Proofs.Except
import DeclaredApi.Proofs.Http.Steps
import DeclaredApi.Proofs.Json.NumberText
import DeclaredApi.Proofs.Json.Record
import DeclaredApi.Proofs.Json.RoundTrip
import DeclaredApi.Proofs.Json.Same
import DeclaredApi.Proofs.Json.TokenText
import DeclaredApi.Proofs.Json.Value
import DeclaredApi.Proofs.Path.Basic
import DeclaredApi.Proofs.Path.Delete
import DeclaredApi.Proofs.Path.Joined
import DeclaredApi.Proofs.Path.Leaves
import DeclaredApi.Proofs.Path.Levels
import DeclaredApi.Proofs.Path.Markers
import DeclaredApi.Proofs.Path.Place
import DeclaredApi.Proofs.Path.Slot
import DeclaredApi.Proofs.Path.Write
import DeclaredApi.Proofs.Request.Carried
import DeclaredApi.Proofs.Request.Headers
import DeclaredApi.Proofs.Request.Segments
import DeclaredApi.Proofs.Request.Valid
import DeclaredApi.Proofs.Service.Lookup
import DeclaredApi.Proofs.Service.Names
import DeclaredApi.Proofs.Service.RoundTrip
import DeclaredApi.Proofs.Template
import DeclaredApi.Proofs.Template.Filling
import DeclaredApi.Proofs.Template.Grammar
import DeclaredApi.Proofs.Template.Segments
import DeclaredApi.Proofs.Text.Cut
import DeclaredApi.Proofs.Text.Percent
import DeclaredApi.Proofs.Transform.Again
import DeclaredApi.Proofs.Transform.Elements
import DeclaredApi.Proofs.Transform.Excerpt
import DeclaredApi.Proofs.Transform.Fits
import DeclaredApi.Proofs.Transform.InTurn
import DeclaredApi.Proofs.Transform.Landing
import DeclaredApi.Proofs.Transform.Leaves
import DeclaredApi.Proofs.Transform.Move
import DeclaredApi.Proofs.Transform.Repeats
import DeclaredApi.Proofs.Transform.Run
import DeclaredApi.Proofs.Transform.Settles
import DeclaredApi.Proofs.Transform.Step
import DeclaredApi.Proofs.Transform.Together
import DeclaredApi.Request.Basic
import DeclaredApi.Request.Credentials
import DeclaredApi.Request.Prepare
import DeclaredApi.Service.Basic
import DeclaredApi.Service.Check
import DeclaredApi.Service.Decode
import DeclaredApi.Service.Encode
import DeclaredApi.Service.Names
import DeclaredApi.Settings
import DeclaredApi.Template
import DeclaredApi.Text.Alphanumeric
import DeclaredApi.Text.Base64
import DeclaredApi.Text.Blank
import DeclaredApi.Text.Cut
import DeclaredApi.Text.Percent
import DeclaredApi.Text.Utf8
import DeclaredApi.Toml.Document
import DeclaredApi.Toml.Scalar
import DeclaredApi.Toml.Value
import DeclaredApi.Transform.Basic
import DeclaredApi.Transform.Extract
import DeclaredApi.Transform.Pipeline
import DeclaredApi.Transform.Rename
import DeclaredApi.Proofs.Path.Obstacle
import DeclaredApi.Proofs.Path.Diverge
import DeclaredApi.Proofs.Path.Replace
import DeclaredApi.Proofs.Path.Removal
import DeclaredApi.Proofs.Path.Projection
import DeclaredApi.Proofs.Transform.ElementStep
import DeclaredApi.Proofs.Transform.EachRule
import DeclaredApi.Proofs.Transform.MemberRule
import DeclaredApi.Proofs.Path.Commute
import DeclaredApi.Proofs.Transform.Skipping
import DeclaredApi.Proofs.Transform.Through
import DeclaredApi.Proofs.Client.Batch
import DeclaredApi.Proofs.Service.Violations
