import VoyageLog.Text.Basic
import VoyageLog.Text.Blank
import VoyageLog.Text.Digits
import VoyageLog.Text.Utf8
import VoyageLog.Binary64.Basic
import VoyageLog.Binary64.Arithmetic
import VoyageLog.Binary64.Whole
import VoyageLog.Binary64.Bits
import VoyageLog.Decimal.Shortest
import VoyageLog.Decimal.Notation
import VoyageLog.Decimal.Read
import VoyageLog.Calendar.Date
import VoyageLog.Calendar.Instant
import VoyageLog.Calendar.Rfc3339
import VoyageLog.Calendar.Iso8601
import VoyageLog.Sentence.Kind
import VoyageLog.Sentence.Header
import VoyageLog.Sentence.UtcTime
import VoyageLog.TimeSource.Basic
import VoyageLog.TimeSource.Inventory
import VoyageLog.TimeSource.Listener
import VoyageLog.Recording.Log
import VoyageLog.Recording.Csv
import VoyageLog.Recording.Layout
import VoyageLog.Recording.Clock
import VoyageLog.Recording.Scan
import VoyageLog.Playback.Config
import VoyageLog.Playback.Speed
import VoyageLog.Playback.Timer
import VoyageLog.Playback.Player
import VoyageLog.Playback.Tick
import VoyageLog.Playback.Control
import VoyageLog.Playback.Seek
import VoyageLog.Playback.Command
import VoyageLog.Playback.EventLoop
import VoyageLog.Playback.Session
import VoyageLog.Playback.Framing
import VoyageLog.Json.Number
import VoyageLog.Json.Token
import VoyageLog.Json.Value
import VoyageLog.Json.Pretty
import VoyageLog.Settings
import VoyageLog.CommandLine.Arguments
import VoyageLog.CommandLine.Report
import VoyageLog.CommandLine.Program
import VoyageLog.Main
import VoyageLog.Proofs.Calendar.Date
import VoyageLog.Proofs.TimeSource.Hearing
import VoyageLog.Proofs.TimeSource.Memory
import VoyageLog.Proofs.TimeSource.Inventory
import VoyageLog.Proofs.TimeSource.Ranking
import VoyageLog.Proofs.Recording.Stretch
import VoyageLog.Proofs.Recording.Timings
import VoyageLog.Proofs.Recording.Sightings
import VoyageLog.Proofs.Recording.Pacing
import VoyageLog.Proofs.Recording.Rows
import VoyageLog.Proofs.Playback.Step
import VoyageLog.Proofs.Playback.Reads
import VoyageLog.Proofs.Playback.Commands
import VoyageLog.Proofs.Playback.Run
import VoyageLog.Proofs.Playback.Interruption
import VoyageLog.Proofs.Playback.Timer
import VoyageLog.Proofs.Playback.WakeUps
import VoyageLog.Proofs.Playback.Dates
import VoyageLog.Proofs.Playback.States
import VoyageLog.Proofs.Playback.TableClock
import VoyageLog.Proofs.Playback.Framing
import VoyageLog.Proofs.Recording.Copy
import VoyageLog.Proofs.Playback.Unabridged
import VoyageLog.Proofs.Playback.Replay
import VoyageLog.Proofs.Playback.Landings
import VoyageLog.Proofs.Playback.Ticks
import VoyageLog.Proofs.Playback.Anchors
import VoyageLog.Proofs.Playback.Header
import VoyageLog.Proofs.Playback.Frames
import VoyageLog.Proofs.Playback.Rescan
import VoyageLog.Proofs.Playback.News
import VoyageLog.Proofs.Playback.Ending
import VoyageLog.Proofs.Playback.Outset
import VoyageLog.Proofs.Calendar.Civil
import VoyageLog.Proofs.Calendar.Rfc3339
import VoyageLog.Proofs.Recording.Csv
import VoyageLog.Proofs.Recording.Columns
import VoyageLog.Proofs.Recording.Table
import VoyageLog.Proofs.Playback.Tables
import VoyageLog.Proofs.Json.Number
import VoyageLog.Proofs.Json.Pretty
import VoyageLog.Proofs.Binary64.Rounding
import VoyageLog.Proofs.Decimal.Shortest
import VoyageLog.Proofs.Decimal.Notation
import VoyageLog.Proofs.Json.Finite
import VoyageLog.Proofs.Binary64.Exact
import VoyageLog.Proofs.Json.Scale
import VoyageLog.Proofs.Settings
import VoyageLog.Proofs.Playback.Stopping
import VoyageLog.Proofs.Binary64.Share
import VoyageLog.Proofs.Calendar.Span
import VoyageLog.Proofs.Playback.Faults
import VoyageLog.Proofs.Recording.Observations
import VoyageLog.Proofs.Recording.Drops
import VoyageLog.Proofs.Playback.Scans
import VoyageLog.Proofs.Calendar.Moves
import VoyageLog.Proofs.Playback.Searches
import VoyageLog.Proofs.Playback.WithinRange
import VoyageLog.Proofs.Playback.Resuming
import VoyageLog.Proofs.Playback.Refusals
import VoyageLog.Proofs.Playback.Schedule
import VoyageLog.Proofs.Playback.Appointments
import VoyageLog.Proofs.Playback.Cadence
import VoyageLog.Proofs.Playback.Batches
import VoyageLog.Proofs.Playback.Progress
import VoyageLog.Proofs.Calendar.LeapSeconds
import VoyageLog.Proofs.Playback.Elapsed
import VoyageLog.Proofs.Text.Bytes
import VoyageLog.Proofs.TimeSource.Catalogue
import VoyageLog.Proofs.Sentence.Header
import VoyageLog.Proofs.Sentence.Soundness
import VoyageLog.Proofs.Sentence.Pairs
import VoyageLog.Proofs.Sentence.UtcTime
import VoyageLog.Proofs.Sentence.Date
import VoyageLog.Proofs.Recording.Cursor
import VoyageLog.Proofs.Recording.Loading
import VoyageLog.Proofs.Calendar.Iso8601
import VoyageLog.Proofs.Playback.Holdings
import VoyageLog.Proofs.Playback.Output
import VoyageLog.Proofs.Recording.LooseClock
import VoyageLog.Proofs.Recording.Survey
import VoyageLog.Proofs.Playback.Lateness
import VoyageLog.Proofs.Playback.Deck
import VoyageLog.Proofs.Playback.Refinement
