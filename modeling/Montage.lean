import Montage.Chunk.Basic
import Montage.Chunk.Cache
import Montage.Chunk.Manifest
import Montage.Chunk.Partition
import Montage.Command.Basic
import Montage.Command.ConcatList
import Montage.Complexity
import Montage.Compose.Audio
import Montage.Compose.Basic
import Montage.Compose.Concat
import Montage.Compose.Overlay
import Montage.Config
import Montage.ContentHash
import Montage.Decode.Basic
import Montage.Decode.Manifest
import Montage.Decode.Timeline
import Montage.Encode.Chunk
import Montage.Encode.Composition
import Montage.Encode.Manifest
import Montage.Encode.Report
import Montage.Encode.Timeline
import Montage.Export.Job
import Montage.Export.Options
import Montage.Failure
import Montage.Files.Path
import Montage.Files.Tree
import Montage.Filter.Basic
import Montage.Filter.Graph
import Montage.Json.Basic
import Montage.Json.Reader
import Montage.Json.Writer
import Montage.Media
import Montage.Media.Proxy
import Montage.Number.Double
import Montage.Number.Fixed
import Montage.Number.Rounding
import Montage.Number.Scalar
import Montage.Number.Shortest
import Montage.OutputFormat
import Montage.Preview.Full
import Montage.Preview.Report
import Montage.Preview.Session
import Montage.Probe.Media
import Montage.Proofs.Action
import Montage.Proofs.Chunk.Account
import Montage.Proofs.Chunk.Action
import Montage.Proofs.Chunk.Cache
import Montage.Proofs.Chunk.Change
import Montage.Proofs.Chunk.Clear
import Montage.Proofs.Chunk.Coherence
import Montage.Proofs.Chunk.Demotion
import Montage.Proofs.Chunk.Disk
import Montage.Proofs.Chunk.Effect
import Montage.Proofs.Chunk.Invalidation
import Montage.Proofs.Chunk.Landing
import Montage.Proofs.Chunk.Manifest
import Montage.Proofs.Chunk.Naming
import Montage.Proofs.Chunk.Opening
import Montage.Proofs.Chunk.Partition
import Montage.Proofs.Chunk.Record
import Montage.Proofs.Chunk.Refusal
import Montage.Proofs.Chunk.Reopen
import Montage.Proofs.Chunk.Repartition
import Montage.Proofs.Chunk.Restore
import Montage.Proofs.Chunk.Reuse
import Montage.Proofs.Chunk.Save
import Montage.Proofs.Chunk.Stock
import Montage.Proofs.Chunk.Sweep
import Montage.Proofs.Chunk.Truthful
import Montage.Proofs.Chunk.Upkeep
import Montage.Proofs.Chunk.Wipe
import Montage.Proofs.Command.ConcatList
import Montage.Proofs.Complexity
import Montage.Proofs.Compose.Agreement
import Montage.Proofs.Compose.Concat
import Montage.Proofs.Compose.Coverage
import Montage.Proofs.Compose.Drift
import Montage.Proofs.Compose.Footprint
import Montage.Proofs.Compose.Gather
import Montage.Proofs.Compose.Layers
import Montage.Proofs.Compose.Mix
import Montage.Proofs.Compose.Overlay
import Montage.Proofs.Compose.Playlist
import Montage.Proofs.Compose.Readers
import Montage.Proofs.Compose.Reasons
import Montage.Proofs.Compose.Sequence
import Montage.Proofs.Compose.Sources
import Montage.Proofs.Compose.Stream
import Montage.Proofs.Compose.Tiling
import Montage.Proofs.Compose.WellFormed
import Montage.Proofs.ContentHash
import Montage.Proofs.Export.Status
import Montage.Proofs.Files.Folder
import Montage.Proofs.Files.Remove
import Montage.Proofs.Files.Write
import Montage.Proofs.Filter.Labels
import Montage.Proofs.Filter.Plumbing
import Montage.Proofs.Filter.Reading
import Montage.Proofs.Json.Compact
import Montage.Proofs.Json.Number
import Montage.Proofs.Json.Quote
import Montage.Proofs.Json.RoundTrip
import Montage.Proofs.Lists
import Montage.Proofs.Media.Proxy
import Montage.Proofs.Number.Exact
import Montage.Proofs.Number.Fixed
import Montage.Proofs.Number.Order
import Montage.Proofs.Number.Quotient
import Montage.Proofs.Number.Range
import Montage.Proofs.Number.Share
import Montage.Proofs.Number.Shortest
import Montage.Proofs.Preview.Attendance
import Montage.Proofs.Preview.Bar
import Montage.Proofs.Preview.Clearing
import Montage.Proofs.Preview.Coherence
import Montage.Proofs.Preview.Cost
import Montage.Proofs.Preview.Durable
import Montage.Proofs.Preview.Edit
import Montage.Proofs.Preview.GivenUp
import Montage.Proofs.Preview.Housing
import Montage.Proofs.Preview.Lookup
import Montage.Proofs.Preview.Playhead
import Montage.Proofs.Preview.Renewal
import Montage.Proofs.Preview.Retry
import Montage.Proofs.Preview.Run
import Montage.Proofs.Preview.Shop
import Montage.Proofs.Preview.Sound
import Montage.Proofs.Preview.Stock
import Montage.Proofs.Preview.Stop
import Montage.Proofs.Preview.Takes
import Montage.Proofs.Preview.Windows
import Montage.Proofs.Preview.Work
import Montage.Proofs.Preview.Worker
import Montage.Proofs.Probe.Fault
import Montage.Proofs.Probe.Streams
import Montage.Proofs.Probe.Values
import Montage.Proofs.Run.Desertion
import Montage.Proofs.Run.Fault
import Montage.Proofs.Run.Holder
import Montage.Proofs.Run.Lines
import Montage.Proofs.Run.Listing
import Montage.Proofs.Run.Notice
import Montage.Proofs.Run.Playback
import Montage.Proofs.Run.Process
import Montage.Proofs.Run.Progress
import Montage.Proofs.Run.Registry
import Montage.Proofs.Run.Starts
import Montage.Proofs.Run.TailBuffer
import Montage.Proofs.Run.Traffic
import Montage.Proofs.Run.Values
import Montage.Proofs.Runs
import Montage.Proofs.Schedule.Admission
import Montage.Proofs.Schedule.Attendance
import Montage.Proofs.Schedule.Await
import Montage.Proofs.Schedule.Conclusion
import Montage.Proofs.Schedule.Exclusion
import Montage.Proofs.Schedule.Faithful
import Montage.Proofs.Schedule.Flow
import Montage.Proofs.Schedule.Front
import Montage.Proofs.Schedule.GivenUp
import Montage.Proofs.Schedule.Lines
import Montage.Proofs.Schedule.Lobby
import Montage.Proofs.Schedule.Order
import Montage.Proofs.Schedule.Refusal
import Montage.Proofs.Schedule.Steering
import Montage.Proofs.Schedule.Step
import Montage.Proofs.Schedule.Stop
import Montage.Proofs.Schedule.Turn
import Montage.Proofs.Text.Digits
import Montage.Proofs.Text.Numeral
import Montage.Proofs.Text.Utf8
import Montage.Proofs.Timeline
import Montage.Proofs.Timestamp
import Montage.Run.Encoder
import Montage.Run.Lines
import Montage.Run.Outcome
import Montage.Run.Process
import Montage.Run.Progress
import Montage.Run.Registry
import Montage.Run.Station
import Montage.Run.TailBuffer
import Montage.Schedule.Basic
import Montage.Schedule.Queue
import Montage.Schedule.Run
import Montage.Service.Cache
import Montage.Service.Compose
import Montage.Service.Graph
import Montage.Service.Model
import Montage.Service.Request
import Montage.Service.Timeline
import Montage.Service.Tools
import Montage.Slice
import Montage.Text.Character
import Montage.Text.Md5
import Montage.Text.Numeral
import Montage.Text.Utf8
import Montage.Timeline
import Montage.Timestamp
import Montage.Window
