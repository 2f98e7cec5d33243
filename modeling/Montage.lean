import Montage.CommandLine.Commands
import Montage.CommandLine.Display
import Montage.CommandLine.Grammar
import Montage.CommandLine.Host
import Montage.CommandLine.Invocation
import Montage.CommandLine.Scan
import Montage.CommandLine.Session
import Montage.Compile.Assembly
import Montage.Compile.Basic
import Montage.Error
import Montage.Export.Command
import Montage.Export.Destination
import Montage.Export.Diagnostics
import Montage.Export.Exporter
import Montage.Export.Progress
import Montage.Export.Run
import Montage.Export.Status
import Montage.Files.Disk
import Montage.Files.FileSystem
import Montage.Files.OsError
import Montage.Files.Path
import Montage.Graph.Chain
import Montage.Graph.Filter
import Montage.Json.Numeral
import Montage.Json.Quoted
import Montage.Json.Record
import Montage.Json.Text
import Montage.Json.Token
import Montage.Json.Tree
import Montage.Main
import Montage.Media.Asset
import Montage.Media.Catalog
import Montage.Media.IdMap
import Montage.Media.Probe
import Montage.Media.Report
import Montage.Media.Sha256
import Montage.Number.Binary64
import Montage.Number.Fixed
import Montage.Number.Numeral
import Montage.Number.Seconds
import Montage.Number.Shortest
import Montage.Number.Word
import Montage.Project.Document
import Montage.Project.Instant
import Montage.Project.Settings
import Montage.Project.SettingsStore
import Montage.Project.Store
import Montage.Proofs.Compile.Frame
import Montage.Proofs.Compile.Labels
import Montage.Proofs.Compile.Playing
import Montage.Proofs.Compile.Sides
import Montage.Proofs.Compile.Sync
import Montage.Proofs.Compile.WellFormed
import Montage.Proofs.Export.Excerpt
import Montage.Proofs.Export.Interleaving
import Montage.Proofs.Export.Isolation
import Montage.Proofs.Export.Outcome
import Montage.Proofs.Export.Percent
import Montage.Proofs.Export.Scale
import Montage.Proofs.Export.Reporting
import Montage.Proofs.Export.WorkerProgram
import Montage.Proofs.Files.Running
import Montage.Proofs.Files.Written
import Montage.Proofs.Graph.Linking
import Montage.Proofs.Json.Fields
import Montage.Proofs.Json.Literal
import Montage.Proofs.Json.Reading
import Montage.Proofs.Json.Scanning
import Montage.Proofs.Media.IdMap
import Montage.Proofs.Number.Decoding
import Montage.Proofs.Number.Digits
import Montage.Proofs.Number.FloatValue
import Montage.Proofs.Number.Layout
import Montage.Proofs.Number.Rounding
import Montage.Proofs.Project.Capture
import Montage.Proofs.Project.InstantText
import Montage.Proofs.Project.Records
import Montage.Proofs.Project.Reopening
import Montage.Proofs.Timeline.Accounting
import Montage.Proofs.Timeline.Filler
import Montage.Proofs.Timeline.LaneOrder
import Montage.Proofs.Timeline.Placing
import Montage.Proofs.Timeline.Stages
import Montage.Proofs.Timeline.ValidClip
import Montage.Text.Blank
import Montage.Text.Bytes
import Montage.Text.Clock
import Montage.Text.Upper
import Montage.Timeline.BackToBack
import Montage.Timeline.Basic
import Montage.Timeline.Lane
import Montage.Timeline.Placement
import Montage.Timeline.Record
import Montage.Timeline.Speed
import Montage.Proofs.Compile.Verdict
import Montage.Proofs.Export.Arguments
import Montage.Proofs.Graph.Decoding
import Montage.Proofs.Compile.GraphText
import Montage.Proofs.Number.Finite
import Montage.Proofs.Json.ReadNumber
import Montage.Proofs.Project.ReadRecords
import Montage.Proofs.Project.Stability
import Montage.Proofs.Project.Opening
import Montage.Proofs.Export.Starting
import Montage.Proofs.Number.Bounds
import Montage.Proofs.Media.Milliseconds
import Montage.Proofs.Timeline.EndToEnd
import Montage.Proofs.CommandLine.Ingesting
import Montage.Proofs.Files.Naming
import Montage.Proofs.Files.Tree
import Montage.Proofs.Json.FloatLiteral
import Montage.Proofs.Project.Listing
import Montage.Proofs.Project.Saving
import Montage.Proofs.Export.Lifecycle
import Montage.Proofs.Timeline.LaneSet
import Montage.Proofs.Timeline.Tempo
import Montage.Proofs.Number.Identity
import Montage.Proofs.Number.Halving
import Montage.Proofs.Compile.Retiming
import Montage.Proofs.Export.Furthest
import Montage.Proofs.Export.LastLines
import Montage.Proofs.Compile.SoundApart
import Montage.Proofs.Compile.FrameSize
import Montage.Proofs.Compile.Builds
import Montage.Proofs.Number.Printing
import Montage.Proofs.Number.Differences
import Montage.Proofs.Number.Reciprocal
import Montage.Proofs.Graph.Parts
import Montage.Proofs.Timeline.FiniteGaps
import Montage.Proofs.Compile.PrintedNumbers
import Montage.Proofs.Timeline.TrimTolerance
import Montage.Proofs.Files.Joining
import Montage.Proofs.Export.DefaultDestination
import Montage.Proofs.Timeline.Runs
import Montage.Proofs.Compile.Seamless
import Montage.Proofs.Files.Growing
import Montage.Proofs.Project.Overlays
import Montage.Proofs.CommandLine.ChangingSettings
import Montage.Proofs.Number.WholePart
import Montage.Proofs.Number.Signs
import Montage.Proofs.Number.Numerals
import Montage.Proofs.Text.Occurrences
import Montage.Proofs.Text.Marker
import Montage.Proofs.Text.WrittenClock
import Montage.Proofs.Text.NegativeClock
import Montage.Proofs.Export.BeforeZero
import Montage.Proofs.Media.OneRecord
import Montage.Proofs.Media.StreamSummary
import Montage.Proofs.Text.ByteCounts
