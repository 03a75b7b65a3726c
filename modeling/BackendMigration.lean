import BackendMigration.Adaptation.Body
import BackendMigration.Adaptation.Call
import BackendMigration.Adaptation.Rule
import BackendMigration.Adaptation.Segment
import BackendMigration.Base64
import BackendMigration.Cancellation
import BackendMigration.Command.Call
import BackendMigration.Command.Grammar
import BackendMigration.Command.Run
import BackendMigration.Command.Snapshot
import BackendMigration.Decimal.Double
import BackendMigration.Decimal.Notation
import BackendMigration.Decimal.Number
import BackendMigration.Decimal.Shortest
import BackendMigration.Document.Encoding
import BackendMigration.Document.Identity
import BackendMigration.Document.Inspect
import BackendMigration.Document.Integer
import BackendMigration.Document.Setting
import BackendMigration.Document.Tagged
import BackendMigration.Document.Value
import BackendMigration.EdgeFunction.Generator
import BackendMigration.EdgeFunction.Page
import BackendMigration.EdgeFunction.Schedule
import BackendMigration.EdgeFunction.Table
import BackendMigration.Environment
import BackendMigration.Export.Action
import BackendMigration.Export.Exporter
import BackendMigration.Export.HookFiles
import BackendMigration.Export.Plan
import BackendMigration.Export.Result
import BackendMigration.Export.Settings
import BackendMigration.Export.Store
import BackendMigration.Export.Walk
import BackendMigration.File.Contents
import BackendMigration.File.Path
import BackendMigration.File.Tree
import BackendMigration.Function.Form
import BackendMigration.Function.Record
import BackendMigration.Function.Trigger
import BackendMigration.Inventory.Deployed
import BackendMigration.Inventory.Directory
import BackendMigration.Inventory.Extraction
import BackendMigration.Inventory.Listing
import BackendMigration.Json.Basic
import BackendMigration.Json.Extent
import BackendMigration.Json.Lexeme
import BackendMigration.Json.Printer
import BackendMigration.Json.Reader
import BackendMigration.Keyed
import BackendMigration.Load.Exchange
import BackendMigration.Load.Loader
import BackendMigration.Load.Order
import BackendMigration.Main
import BackendMigration.Migration.Order
import BackendMigration.Migration.Output
import BackendMigration.Migration.Report
import BackendMigration.Migration.Run
import BackendMigration.Pattern.Basic
import BackendMigration.Pattern.Class
import BackendMigration.Pattern.Match
import BackendMigration.Proofs.Adaptation.Answered
import BackendMigration.Proofs.Adaptation.Answers
import BackendMigration.Proofs.Adaptation.Balance
import BackendMigration.Proofs.Adaptation.Calls
import BackendMigration.Proofs.Adaptation.Inner
import BackendMigration.Proofs.Adaptation.Leftover
import BackendMigration.Proofs.Adaptation.Members
import BackendMigration.Proofs.Adaptation.Payload
import BackendMigration.Proofs.Adaptation.Rewrites
import BackendMigration.Proofs.Adaptation.Statements
import BackendMigration.Proofs.Adaptation.Whole
import BackendMigration.Proofs.Adaptation.Words
import BackendMigration.Proofs.Decimal.Notation
import BackendMigration.Proofs.Document.Entries
import BackendMigration.Proofs.Document.Identity
import BackendMigration.Proofs.EdgeFunction.Comment
import BackendMigration.Proofs.EdgeFunction.Firing
import BackendMigration.Proofs.EdgeFunction.Headers
import BackendMigration.Proofs.EdgeFunction.Identifiers
import BackendMigration.Proofs.EdgeFunction.Page
import BackendMigration.Proofs.EdgeFunction.Phrase
import BackendMigration.Proofs.EdgeFunction.Route
import BackendMigration.Proofs.EdgeFunction.Schedule
import BackendMigration.Proofs.Export.Behind
import BackendMigration.Proofs.Export.Bounds
import BackendMigration.Proofs.Export.Cancelled
import BackendMigration.Proofs.Export.Carried
import BackendMigration.Proofs.Export.Chains
import BackendMigration.Proofs.Export.Complete
import BackendMigration.Proofs.Export.Conservation
import BackendMigration.Proofs.Export.Course
import BackendMigration.Proofs.Export.Enumeration
import BackendMigration.Proofs.Export.Flatten
import BackendMigration.Proofs.Export.Identity
import BackendMigration.Proofs.Export.Independent
import BackendMigration.Proofs.Export.Inherited
import BackendMigration.Proofs.Export.Mirror
import BackendMigration.Proofs.Export.Nested
import BackendMigration.Proofs.Export.Order
import BackendMigration.Proofs.Export.Outcome
import BackendMigration.Proofs.Export.Parentage
import BackendMigration.Proofs.Export.Parting
import BackendMigration.Proofs.Export.Plain
import BackendMigration.Proofs.Export.Progress
import BackendMigration.Proofs.Export.Pruned
import BackendMigration.Proofs.Export.Record
import BackendMigration.Proofs.Export.Repeats
import BackendMigration.Proofs.Export.Shape
import BackendMigration.Proofs.Export.Steady
import BackendMigration.Proofs.Export.Step
import BackendMigration.Proofs.Export.Telling
import BackendMigration.Proofs.Export.Trace
import BackendMigration.Proofs.Export.Unnest
import BackendMigration.Proofs.Export.Visit
import BackendMigration.Proofs.Export.Walk
import BackendMigration.Proofs.File.Closed
import BackendMigration.Proofs.File.Filled
import BackendMigration.Proofs.File.Listing
import BackendMigration.Proofs.File.Tree
import BackendMigration.Proofs.File.Way
import BackendMigration.Proofs.Inventory.Address
import BackendMigration.Proofs.Inventory.Deployed
import BackendMigration.Proofs.Inventory.Extraction
import BackendMigration.Proofs.Inventory.Forms
import BackendMigration.Proofs.Inventory.Table
import BackendMigration.Proofs.Inventory.Walk
import BackendMigration.Proofs.Json.Finite
import BackendMigration.Proofs.Json.Lexeme
import BackendMigration.Proofs.Json.Printer
import BackendMigration.Proofs.Json.Reader
import BackendMigration.Proofs.Json.Standard
import BackendMigration.Proofs.Keyed
import BackendMigration.Proofs.Load.Chunks
import BackendMigration.Proofs.Load.Directory
import BackendMigration.Proofs.Load.Faulty
import BackendMigration.Proofs.Load.Standard
import BackendMigration.Proofs.Load.Transfer
import BackendMigration.Proofs.Migration.Account
import BackendMigration.Proofs.Migration.Collapse
import BackendMigration.Proofs.Migration.Delivery
import BackendMigration.Proofs.Migration.Fate
import BackendMigration.Proofs.Migration.Review
import BackendMigration.Proofs.Migration.Unit
import BackendMigration.Proofs.Pattern.Breaks
import BackendMigration.Proofs.Pattern.Local
import BackendMigration.Proofs.Pattern.Matches
import BackendMigration.Proofs.Pattern.Occurs
import BackendMigration.Proofs.Pattern.Spells
import BackendMigration.Proofs.Pattern.Takes
import BackendMigration.Proofs.Pattern.Whole
import BackendMigration.Proofs.Recognition.Body
import BackendMigration.Proofs.Recognition.Handler
import BackendMigration.Proofs.Recognition.Names
import BackendMigration.Proofs.Recognition.Selection
import BackendMigration.Proofs.Recognition.Ties
import BackendMigration.Proofs.Relation.Beside
import BackendMigration.Proofs.Relation.Listing
import BackendMigration.Proofs.Relation.Log
import BackendMigration.Proofs.Relation.Reader
import BackendMigration.Proofs.Relation.Run
import BackendMigration.Proofs.Relation.Usage
import BackendMigration.Proofs.Relation.Writer
import BackendMigration.Proofs.Source.Arguments
import BackendMigration.Proofs.Source.Arrow
import BackendMigration.Proofs.Source.Block
import BackendMigration.Proofs.Source.Extent
import BackendMigration.Proofs.Source.Literals
import BackendMigration.Proofs.Source.Nesting
import BackendMigration.Proofs.Source.Parts
import BackendMigration.Proofs.Source.Tokens
import BackendMigration.Proofs.Text.Occurrence
import BackendMigration.Proofs.Text.Pieces
import BackendMigration.Proofs.Text.Utf8
import BackendMigration.Recognition.Catalogue
import BackendMigration.Recognition.Form
import BackendMigration.Recognition.Registry
import BackendMigration.Recognition.Rule
import BackendMigration.Recognition.Scan
import BackendMigration.Recognition.Selection
import BackendMigration.Relation.Reader
import BackendMigration.Relation.Writer
import BackendMigration.Service.Address
import BackendMigration.Service.Body
import BackendMigration.Service.Routes
import BackendMigration.Source.Arguments
import BackendMigration.Source.Block
import BackendMigration.Source.Body
import BackendMigration.Text.Blank
import BackendMigration.Text.Integer
import BackendMigration.Text.Lines
import BackendMigration.Text.Printable
import BackendMigration.Text.Quoted
import BackendMigration.Text.Search
import BackendMigration.Text.Utf8
import BackendMigration.Text.Word
import BackendMigration.Time.Calendar
import BackendMigration.Time.Form
import BackendMigration.Time.Timestamp
