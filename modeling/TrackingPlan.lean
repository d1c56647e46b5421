import TrackingPlan.Build
import TrackingPlan.Command.Arguments
import TrackingPlan.Command.Run
import TrackingPlan.Emission.Client
import TrackingPlan.Emission.Options
import TrackingPlan.Emission.Preview
import TrackingPlan.Emission.Trace
import TrackingPlan.Emission.Walk
import TrackingPlan.Event.Call
import TrackingPlan.Event.Section
import TrackingPlan.Fault
import TrackingPlan.Json.Equality
import TrackingPlan.Json.Literal
import TrackingPlan.Json.Reader
import TrackingPlan.Json.Value
import TrackingPlan.Json.Writer
import TrackingPlan.Ledger
import TrackingPlan.Log.Record
import TrackingPlan.Log.Setup
import TrackingPlan.Main
import TrackingPlan.Naming.Dialect
import TrackingPlan.Naming.Namer
import TrackingPlan.Naming.Reserved
import TrackingPlan.Number.Double
import TrackingPlan.Number.Numeral
import TrackingPlan.Number.Shortest
import TrackingPlan.Resolver
import TrackingPlan.Resolver.Definitions
import TrackingPlan.Schema.Equality
import TrackingPlan.Schema.Error
import TrackingPlan.Schema.Handmade
import TrackingPlan.Schema.Keywords
import TrackingPlan.Schema.Kind
import TrackingPlan.Schema.Node
import TrackingPlan.Schema.Parser
import TrackingPlan.Schema.Pointer
import TrackingPlan.Schema.Record
import TrackingPlan.Schema.Script
import TrackingPlan.Table
import TrackingPlan.Text.Casing
import TrackingPlan.Text.Quoted
import TrackingPlan.Text.Template
import TrackingPlan.Text.Template.Layout
import TrackingPlan.Text.Template.Value
import TrackingPlan.Text.Terminal
import TrackingPlan.Text.Unicode.Cased
import TrackingPlan.Text.Unicode.Digit
import TrackingPlan.Text.Unicode.Lower
import TrackingPlan.Text.Unicode.Printable
import TrackingPlan.Text.Unicode.Upper
import TrackingPlan.Text.Words
import TrackingPlan.Proofs.Node
import TrackingPlan.Proofs.Parser.Site
import TrackingPlan.Proofs.Script
import TrackingPlan.Proofs.Script.Answer
import TrackingPlan.Proofs.Parser.Course
import TrackingPlan.Proofs.Build.Preparation
import TrackingPlan.Proofs.Resolver.Moments
import TrackingPlan.Proofs.Naming.Run
import TrackingPlan.Proofs.Build.Contents
import TrackingPlan.Proofs.Event.Section
import TrackingPlan.Proofs.Parser.Shape
import TrackingPlan.Proofs.Build.References
import TrackingPlan.Proofs.Script.Alike
import TrackingPlan.Proofs.Parser.Elsewhere
import TrackingPlan.Proofs.Build.Preview
import TrackingPlan.Proofs.Resolver.Transparency
import TrackingPlan.Proofs.Naming.Usable
import TrackingPlan.Proofs.Naming.Verbatim
import TrackingPlan.Proofs.Resolver.Ring
import TrackingPlan.Proofs.Build.Cycle
import TrackingPlan.Proofs.Payload
import TrackingPlan.Proofs.Parser.Admission
import TrackingPlan.Proofs.Build.Parts
import TrackingPlan.Proofs.Resolver.Faults
import TrackingPlan.Proofs.Resolver.Stop
import TrackingPlan.Proofs.Resolver.Blame
import TrackingPlan.Proofs.Build.Place
import TrackingPlan.Proofs.Resolver.Owner
import TrackingPlan.Proofs.Parser.Order
import TrackingPlan.Proofs.Build.Order
import TrackingPlan.Proofs.Parser.Source
import TrackingPlan.Proofs.Parser.Results
import TrackingPlan.Proofs.Parser.Faithful
import TrackingPlan.Proofs.Parser.Properties
import TrackingPlan.Proofs.Parser.Nullability
import TrackingPlan.Proofs.Naming.Scopes
import TrackingPlan.Proofs.Emission.Paths
import TrackingPlan.Proofs.Naming.Backticks
import TrackingPlan.Proofs.Naming.Least
import TrackingPlan.Proofs.Parser.Retyped
import TrackingPlan.Proofs.Parser.Anywhere
import TrackingPlan.Proofs.Parser.Enum
import TrackingPlan.Proofs.Emission.Enum
import TrackingPlan.Proofs.Emission.Options
import TrackingPlan.Proofs.Json.Text
import TrackingPlan.Proofs.Number.Digits
import TrackingPlan.Proofs.Number.Interval
import TrackingPlan.Proofs.Number.Numeral
import TrackingPlan.Proofs.Number.Shortest
import TrackingPlan.Proofs.Record
import TrackingPlan.Proofs.Resolver.Reached
import TrackingPlan.Proofs.Text.Separated
import TrackingPlan.Proofs.Naming.Literal
import TrackingPlan.Proofs.Text.Words
import TrackingPlan.Proofs.Text.Casing
import TrackingPlan.Proofs.Json.Equality
import TrackingPlan.Proofs.Json.Scalar
import TrackingPlan.Proofs.Equality
