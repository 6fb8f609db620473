import HvacModel.Archetype.Basic
import HvacModel.Archetype.Config
import HvacModel.Archetype.Footprint
import HvacModel.Archetype.Params
import HvacModel.Attribute
import HvacModel.Catalog
import HvacModel.CommandLine.Arguments
import HvacModel.CommandLine.Command
import HvacModel.CommandLine.Outcome
import HvacModel.Component.Arena
import HvacModel.ConfigFile
import HvacModel.Decimal.Layout
import HvacModel.Decimal.Nearest
import HvacModel.Decimal.Scaling
import HvacModel.Decimal.Shortest
import HvacModel.Decimal.Text
import HvacModel.Digest.Sha256
import HvacModel.Document.Basic
import HvacModel.Document.Decode
import HvacModel.Document.Encode
import HvacModel.Document.Issue
import HvacModel.Document.Read
import HvacModel.Document.Read.Components
import HvacModel.Document.Read.Fields
import HvacModel.Document.Read.Measures
import HvacModel.Document.Read.Records
import HvacModel.Document.Read.Schedules
import HvacModel.Document.Read.Systems
import HvacModel.Handle
import HvacModel.Json.Printer
import HvacModel.Json.Reader
import HvacModel.Json.Token
import HvacModel.Main
import HvacModel.Measure.Apply
import HvacModel.Measure.Target
import HvacModel.Model.Basic
import HvacModel.Model.Compile
import HvacModel.Model.Diagnostic
import HvacModel.NameIndex
import HvacModel.NameMap
import HvacModel.Proofs.Archetype.Compile
import HvacModel.Proofs.Archetype.Document
import HvacModel.Proofs.Archetype.Params
import HvacModel.Proofs.Archetype.Reading
import HvacModel.Proofs.Component.Arena
import HvacModel.Proofs.Component.Extension
import HvacModel.Proofs.Component.Reference
import HvacModel.Proofs.Component.Representation
import HvacModel.Proofs.Component.Subtree
import HvacModel.Proofs.Decimal.Integers
import HvacModel.Proofs.Decimal.Magnitude
import HvacModel.Proofs.Decimal.Nearest
import HvacModel.Proofs.Decimal.Shortest
import HvacModel.Proofs.Decimal.Written
import HvacModel.Proofs.Extension.Compile
import HvacModel.Proofs.Extension.Reading
import HvacModel.Proofs.Extension.Skeleton
import HvacModel.Proofs.Grammar
import HvacModel.Proofs.Json.Compact
import HvacModel.Proofs.Keys
import HvacModel.Proofs.Measure.Agreement
import HvacModel.Proofs.Measure.Apply
import HvacModel.Proofs.Measure.Clashes
import HvacModel.Proofs.Measure.Conflicts
import HvacModel.Proofs.Measure.Overlap
import HvacModel.Proofs.Measure.Separate
import HvacModel.Proofs.Measure.Targeted
import HvacModel.Proofs.Model.Compile
import HvacModel.Proofs.Model.Encode
import HvacModel.Proofs.Model.Fingerprint
import HvacModel.Proofs.Model.Gating
import HvacModel.Proofs.Model.Handles
import HvacModel.Proofs.Model.Positions
import HvacModel.Proofs.Model.Summary
import HvacModel.Proofs.Model.Unstaged
import HvacModel.Proofs.NameIndex
import HvacModel.Proofs.NameIndex.Table
import HvacModel.Proofs.NameMap
import HvacModel.Proofs.Reading.Components
import HvacModel.Proofs.Reading.Document
import HvacModel.Proofs.Reading.Exact
import HvacModel.Proofs.Reading.Fields
import HvacModel.Proofs.Reading.Issues
import HvacModel.Proofs.Reading.Located
import HvacModel.Proofs.Reading.Places
import HvacModel.Proofs.Reading.Records
import HvacModel.Proofs.Reading.ScheduleDays
import HvacModel.Proofs.Reading.Schedules
import HvacModel.Proofs.Reading.Systems
import HvacModel.Proofs.Reading.TimeKeys
import HvacModel.Proofs.Reading.Truthful
import HvacModel.Proofs.Rearrangement.Basic
import HvacModel.Proofs.Rearrangement.Compile
import HvacModel.Proofs.Rearrangement.Reading
import HvacModel.Proofs.Related
import HvacModel.Proofs.Renaming.Arena
import HvacModel.Proofs.Renaming.Compile
import HvacModel.Proofs.Renaming.Skeleton
import HvacModel.Proofs.Report
import HvacModel.Proofs.RoundTrip.Basic
import HvacModel.Proofs.RoundTrip.Document
import HvacModel.Proofs.Schedule.Calendar
import HvacModel.Proofs.Schedule.Coverage
import HvacModel.Proofs.Schedule.DayProfile
import HvacModel.Proofs.Schedule.Days
import HvacModel.Proofs.Schedule.Declared
import HvacModel.Proofs.Schedule.DesignDays
import HvacModel.Proofs.Schedule.Places
import HvacModel.Proofs.Schedule.Query
import HvacModel.Proofs.Schedule.StepFunction
import HvacModel.Proofs.Schedule.Week
import HvacModel.Proofs.Schema.Model
import HvacModel.Proofs.Schema.Reading
import HvacModel.Proofs.Schema.Tables
import HvacModel.Proofs.Skeleton.AirLoops
import HvacModel.Proofs.Skeleton.Dangling
import HvacModel.Proofs.Skeleton.Errors
import HvacModel.Proofs.Skeleton.Handles
import HvacModel.Proofs.Skeleton.Nodes
import HvacModel.Proofs.Skeleton.PlantLoops
import HvacModel.Proofs.Skeleton.Positions
import HvacModel.Proofs.Skeleton.Reference
import HvacModel.Proofs.Skeleton.Resolve
import HvacModel.Proofs.TimeOfDay
import HvacModel.Proofs.Transcript.Document
import HvacModel.Proofs.Transcript.Fields
import HvacModel.Proofs.Transcript.Names
import HvacModel.Proofs.Transcript.PassedThrough
import HvacModel.Proofs.Transcript.Relations
import HvacModel.Proofs.Transcript.Schedules
import HvacModel.Proofs.Transcript.Systems
import HvacModel.Proofs.Yaml.Entries
import HvacModel.Proofs.Yaml.Expansion
import HvacModel.Report
import HvacModel.Schedule.Compile
import HvacModel.Schedule.DayProfile
import HvacModel.Schedule.Week
import HvacModel.Skeleton.Basic
import HvacModel.Skeleton.LoopShape
import HvacModel.Skeleton.Resolve
import HvacModel.TimeOfDay
import HvacModel.Value
import HvacModel.Weekday
import HvacModel.Yaml.Expansion
import HvacModel.Yaml.Node
import HvacModel.Yaml.Printer
import HvacModel.Yaml.Reader
import HvacModel.Yaml.Scalar
import HvacModel.Yaml.Style
import HvacModel.Yaml.Tag
import HvacModel.Yaml.Text
import HvacModel.Yaml.Token
import HvacModel.Yaml.Token.BlockScalar
import HvacModel.Yaml.Token.Folded
import HvacModel.Yaml.Token.Layout
import HvacModel.Yaml.Token.Property
import HvacModel.Yaml.Tree
import HvacModel.Yaml.Tree.Grammar
