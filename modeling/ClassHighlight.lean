import ClassHighlight.Buffer.Basic
import ClassHighlight.Buffer.InPlace
import ClassHighlight.Buffer.Lookup
import ClassHighlight.Buffer.Position
import ClassHighlight.Buffer.WrittenPosition
import ClassHighlight.Category
import ClassHighlight.ClassString.Classified
import ClassHighlight.ClassString.ClassifiedPass
import ClassHighlight.ClassString.Nesting
import ClassHighlight.ClassString.Template
import ClassHighlight.ClassString.TemplateSearch
import ClassHighlight.ClassString.Token
import ClassHighlight.ClassString.TokenPass
import ClassHighlight.Cli.Arguments
import ClassHighlight.Cli.InPlace
import ClassHighlight.Cli.Run
import ClassHighlight.Color.Basic
import ClassHighlight.Color.Preset
import ClassHighlight.Color.Reading
import ClassHighlight.Color.Resolution
import ClassHighlight.Config.Basic
import ClassHighlight.Config.File
import ClassHighlight.Highlight
import ClassHighlight.InPlace
import ClassHighlight.Json.Codec
import ClassHighlight.Json.Record
import ClassHighlight.Json.Value
import ClassHighlight.Main
import ClassHighlight.Mode
import ClassHighlight.Nat64
import ClassHighlight.Paint.Call
import ClassHighlight.Paint.Canvas
import ClassHighlight.Paint.InPlace
import ClassHighlight.Paint.Listing
import ClassHighlight.Paint.Overlay
import ClassHighlight.Paint.Terminal
import ClassHighlight.Session.Basic
import ClassHighlight.Session.Broadcast
import ClassHighlight.Session.Event
import ClassHighlight.Session.EventBus
import ClassHighlight.Session.InPlace
import ClassHighlight.Session.Preview
import ClassHighlight.Source.Basic
import ClassHighlight.Source.Call
import ClassHighlight.Source.Candidate
import ClassHighlight.Source.CommentMap
import ClassHighlight.Source.Mark
import ClassHighlight.Source.Quote
import ClassHighlight.Source.Region
import ClassHighlight.Source.Selection
import ClassHighlight.Span
import ClassHighlight.Style
import ClassHighlight.Text.Basic
import ClassHighlight.Text.Blank
import ClassHighlight.Text.Decimal
import ClassHighlight.Text.Hexadecimal
import ClassHighlight.Text.Line
import ClassHighlight.Text.Printable
import ClassHighlight.Text.Quoted
import ClassHighlight.Toml.Document
import ClassHighlight.Toml.Number
import ClassHighlight.Toml.Reader
import ClassHighlight.Toml.StringForm
import ClassHighlight.Toml.Value
import ClassHighlight.Proofs.Source.Mark
import ClassHighlight.Proofs.Source.Region
import ClassHighlight.Proofs.Source.RegionWalk
import ClassHighlight.Proofs.Source.CommentMap
import ClassHighlight.Proofs.Source.Arguments
import ClassHighlight.Proofs.Source.Call
import ClassHighlight.Proofs.Source.Code
import ClassHighlight.Proofs.Source.Coverage
import ClassHighlight.Proofs.Paint.Overlay
import ClassHighlight.Proofs.Session.Painting
import ClassHighlight.Proofs.ClassString.Token
import ClassHighlight.Proofs.ClassString.TokenPass
import ClassHighlight.Proofs.ClassString.ClassifiedPass
import ClassHighlight.Proofs.ClassString.Template
import ClassHighlight.Proofs.Highlight
import ClassHighlight.Proofs.Source.Quoted
import ClassHighlight.Proofs.Paint.Lifecycle
import ClassHighlight.Proofs.ClassString.Order
import ClassHighlight.Proofs.Source.Attributes
import ClassHighlight.Proofs.HighlightOrder
import ClassHighlight.Proofs.Selection
import ClassHighlight.Proofs.Session.Operation
import ClassHighlight.Proofs.Session.Observer
import ClassHighlight.Proofs.Session.Refusal
import ClassHighlight.Proofs.Session.Document
import ClassHighlight.Proofs.Session.Isolation
import ClassHighlight.Proofs.ClassString.Nesting
import ClassHighlight.Proofs.Source.Escape
import ClassHighlight.Proofs.ClassString.Brackets
import ClassHighlight.Proofs.Buffer.Position
import ClassHighlight.Proofs.Buffer.InPlace
import ClassHighlight.Proofs.Buffer.Editing
import ClassHighlight.Proofs.Session.InPlace
import ClassHighlight.Proofs.ClassString.Layout
import ClassHighlight.Proofs.Source.Balance
import ClassHighlight.Proofs.Source.Search
import ClassHighlight.Proofs.Source.CallSearch
import ClassHighlight.Proofs.Source.AttributeSearch
import ClassHighlight.Proofs.ClassString.Concatenation
import ClassHighlight.Proofs.ClassString.Division
import ClassHighlight.Proofs.ClassString.TemplateSearch
import ClassHighlight.Proofs.Interpolation
import ClassHighlight.Proofs.ClassString.BracketCount
import ClassHighlight.Proofs.ClassString.Classification
import ClassHighlight.Proofs.Source.LookAhead
import ClassHighlight.Proofs.SelectionOrder
import ClassHighlight.Proofs.Text.Lookup
import ClassHighlight.Proofs.Buffer.Lookup
import ClassHighlight.Proofs.Paint.Canvas
import ClassHighlight.Proofs.Paint.Layer
import ClassHighlight.Proofs.Paint.Screen
import ClassHighlight.Proofs.Paint.Rendering
import ClassHighlight.Proofs.Toml.StringForm
import ClassHighlight.Proofs.Toml.Document
import ClassHighlight.Proofs.Config.File
import ClassHighlight.Proofs.Paint.Painter
import ClassHighlight.Proofs.Cli.Run
import ClassHighlight.Proofs.Session.Broadcast
import ClassHighlight.Proofs.Session.EventBus
import ClassHighlight.Proofs.Session.Delivery
import ClassHighlight.Proofs.Text.Trim
import ClassHighlight.Proofs.Text.Hexadecimal
import ClassHighlight.Proofs.Color.Written
import ClassHighlight.Proofs.Color.Resolution
import ClassHighlight.Proofs.Name
import ClassHighlight.Proofs.Json.Codec
import ClassHighlight.Proofs.Paint.Listing
import ClassHighlight.Proofs.Text.Decimal
import ClassHighlight.Proofs.Buffer.WrittenPosition
import ClassHighlight.Proofs.Escapes
