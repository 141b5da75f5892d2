import MediaPreview.Lib.Binary64
import MediaPreview.Lib.Ranking
import MediaPreview.Lib.Window
import MediaPreview.Lib.Tally
import MediaPreview.Lib.Vectors
import MediaPreview.Lib.Table
import MediaPreview.Lib.Text
import MediaPreview.Lib.Separators
import MediaPreview.Lib.Parties
import MediaPreview.Lib.Runs
import MediaPreview.Lib.Calendar
import MediaPreview.Lib.Isoformat
import MediaPreview.Audio.Points
import MediaPreview.Audio.Matcher
import MediaPreview.Audio.Reference
import MediaPreview.Audio.Hits
import MediaPreview.Audio.TopShifts
import MediaPreview.Audio.NoIntro
import MediaPreview.Markers.Models
import MediaPreview.Markers.Speed
import MediaPreview.Markers.Sanity
import MediaPreview.Markers.Agreement
import MediaPreview.Markers.Clock
import MediaPreview.Markers.Cluster
import MediaPreview.Markers.Rules
import MediaPreview.Markers.Decide
import MediaPreview.Markers.Outcome
import MediaPreview.Markers.Provenance
import MediaPreview.Markers.Guard
import MediaPreview.Markers.FrameRate
import MediaPreview.Markers.Order
import MediaPreview.Markers.CarryOver
import MediaPreview.Store.Schema
import MediaPreview.Store.Evidence
import MediaPreview.Store.Season
import MediaPreview.Store.Files
import MediaPreview.Store.Decisions
import MediaPreview.Store.Run
import MediaPreview.Store.Effects
import MediaPreview.Store.Locks
import MediaPreview.Store.Alignment
import MediaPreview.Store.Freshness
import MediaPreview.Store.Series
import MediaPreview.Store.Pauses
import MediaPreview.Publishers.Versions
import MediaPreview.Publishers.Records
import MediaPreview.Publishers.Publish
import MediaPreview.Publishers.Basis
import MediaPreview.Publishers.Siblings
import MediaPreview.Plex.Values
import MediaPreview.Plex.Stored
import MediaPreview.Plex.Merge
import MediaPreview.Plex.Kept
import MediaPreview.Plex.Plan
import MediaPreview.Plex.Write
import MediaPreview.Plex.Group
import MediaPreview.Plex.KeepPlex
import MediaPreview.Plex.Numbering
import MediaPreview.Plex.Serves
import MediaPreview.Plex.Settle
import MediaPreview.Plex.RefreshQueue
import MediaPreview.Plex.RefreshRuns
import MediaPreview.Bridge.Chapters
import MediaPreview.Bridge.Shown
import MediaPreview.Bridge.Writes
import MediaPreview.Bridge.Completed
import MediaPreview.Plex.Lock
import MediaPreview.Servers.Paths
import MediaPreview.Servers.Ownership
import MediaPreview.Jobs.Gate
import MediaPreview.Jobs.Queue
import MediaPreview.Jobs.Admission
import MediaPreview.Jobs.Dispatcher
import MediaPreview.Jobs.Flights
import MediaPreview.Jobs.Accounts
import MediaPreview.Jobs.Cancels
import MediaPreview.Nodes.Tasks
import MediaPreview.Nodes.Deleted
import MediaPreview.Nodes.TempDirs
import MediaPreview.Previews.Journal
import MediaPreview.Previews.Publish
import MediaPreview.Lib.Ledger
import MediaPreview.Sources.Ratelimit
import MediaPreview.Sources.Pacing
import MediaPreview.Sources.Slots
import MediaPreview.Sources.Budget
import MediaPreview.Sources.Usage
import MediaPreview.Sources.Interleavings
import MediaPreview.Nodes.Registry
import MediaPreview.Nodes.Health
import MediaPreview.Nodes.Moves
import MediaPreview.Nodes.Reports
import MediaPreview.Nodes.Identity
import MediaPreview.Markers.Locks
import MediaPreview.Lib.LittleEndian
import MediaPreview.Previews.Bif
import MediaPreview.Previews.BifRoundTrip
import MediaPreview.Lib.Lines
import MediaPreview.Markers.ShowNames
import MediaPreview.Markers.ShowSearch
import MediaPreview.Jobs.CpuWorkers
import MediaPreview.Lib.Stages
import MediaPreview.Previews.Trickplay
import MediaPreview.Previews.TrickplaySwap
import MediaPreview.Settings.Changes
import MediaPreview.Jobs.Handovers
import MediaPreview.Store.ReadMemo
import MediaPreview.Jobs.Capacity
import MediaPreview.Jobs.GroupSettings
import MediaPreview.Jobs.QuietHours
import MediaPreview.Credits.ReachBack
import MediaPreview.Credits.LookBack
import MediaPreview.Store.Sweeps
import MediaPreview.Lib.Json
import MediaPreview.Lib.JsonStrings
import MediaPreview.Lib.JsonSpelling
import MediaPreview.Plex.ExtraData
import MediaPreview.Plex.TitleControls
import MediaPreview.Plex.LiteralTitle
import MediaPreview.Servers.Translators
import MediaPreview.Jobs.Claims
import MediaPreview.Jobs.FirstFree
import MediaPreview.Audio.PairRuns
import MediaPreview.Credits.CoarseStart
import MediaPreview.Credits.CreditsEnd
import MediaPreview.Credits.RefineStart
import MediaPreview.Lib.Cliques
import MediaPreview.Markers.Cliques
import MediaPreview.Loudness.Completions
import MediaPreview.Loudness.Resume
import MediaPreview.Markers.EpisodeNames
import MediaPreview.Audio.SeasonGroup
import MediaPreview.Lib.Pieces
import MediaPreview.Nodes.Suggestions
import MediaPreview.Nodes.SuggestedRow
import MediaPreview.Lib.Cursor
import MediaPreview.Nodes.Relay
import MediaPreview.Nodes.Controls
import MediaPreview.Lib.Trim
import MediaPreview.Previews.FrameCache
import MediaPreview.Previews.SlotLocks
import MediaPreview.Previews.CachedFrames
import MediaPreview.Previews.CacheCaps
import MediaPreview.Lib.Numeral
