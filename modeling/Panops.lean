import Panops.Lib.Runs
import Panops.Lib.Tiles
import Panops.Lib.Buckets
import Panops.Lib.Machine
import Panops.Lib.Text
import Panops.Lib.TextLines
import Panops.Lib.ByteSlices
import Panops.Lib.Decimal
import Panops.Lib.Serde
import Panops.Lib.Codable
import Panops.Lib.Dialogue
import Panops.Lib.MergeTree
import Panops.Lib.Copies
import Panops.Lib.Disk
import Panops.Lib.Script
import Panops.Lib.Spans
import Panops.Lib.Fallible
import Panops.Lib.Database
import Panops.Lib.Transitions
import Panops.Lib.Simulation
import Panops.Lib.Broadcast
import Panops.Lib.Watch
import Panops.Lib.Semaphore
import Panops.Lib.HashMap
import Panops.Lib.Mirror
import Panops.Lib.Sorting
import Panops.Lib.Scans
import Panops.Lib.Clusters
import Panops.Lib.InPlace
import Panops.Lib.Numbering
import Panops.Lib.Symlinks
import Panops.Lib.FileCalls
import Panops.Lib.Confinement
import Panops.Lib.Bytes
import Panops.Lib.Streams
import Panops.Segment
import Panops.Json
import Panops.Llm
import Panops.Notes.Ir
import Panops.Notes.Prompts
import Panops.Notes.Chunking
import Panops.Notes.ChunkSizes
import Panops.Notes.Merge
import Panops.Notes.TopicSegmentation
import Panops.Notes.TopicBoundaries
import Panops.Notes.TopicGuarantees
import Panops.Notes.ScreenshotAnchoring
import Panops.Notes.AnchoringGuarantees
import Panops.Notes.SpeakerRefs
import Panops.Notes.Verifier
import Panops.Notes.RawTranscript
import Panops.Notes.Section
import Panops.Notes.Generate
import Panops.Notes.Outcome
import Panops.Notes.OutputLanguage
import Panops.Export.Speakers
import Panops.Export.SpeakerRewriting
import Panops.Export.Yaml
import Panops.Export.YamlReading
import Panops.Export.Markdown
import Panops.App.MarkdownText
import Panops.App.InlineMarkdown
import Panops.Lib.Pushing
import Panops.Lib.PartialWrites
import Panops.Lib.Loops
import Panops.Lib.Grid
import Panops.Lib.EditDistance
import Panops.Lib.Search
import Panops.Lib.Fences
import Panops.App.MarkdownFences
import Panops.App.MarkdownBlocks
import Panops.App.ContainerTags
import Panops.App.ParseBlocks
import Panops.Export.Attribution
import Panops.Export.Assets
import Panops.Export.Framing
import Panops.Engine.Screenshots
import Panops.Engine.Regenerate
import Panops.Audio.TwoTracks
import Panops.Audio.Regions
import Panops.Audio.RegionMerging
import Panops.Audio.SherpaDiarizer
import Panops.Audio.DiarizedTurns
import Panops.Audio.RecursiveAsr
import Panops.Audio.RecursiveTiling
import Panops.Audio.Wer
import Panops.Engine.Transcribe
import Panops.Lib.Catalog
import Panops.Lib.Recovery
import Panops.Storage.Schema
import Panops.Storage.Port
import Panops.Storage.Tables
import Panops.Storage.Rusqlite
import Panops.Storage.Registry
import Panops.Storage.Statements
import Panops.Storage.Organisation
import Panops.Storage.Atomicity
import Panops.Storage.InMemory
import Panops.Storage.Renaming
import Panops.Storage.Simulation.Relation
import Panops.Storage.Simulation.Meetings
import Panops.Storage.Simulation.Places
import Panops.Storage.Simulation.Tags
import Panops.Storage.Simulation.Listings
import Panops.Storage.Simulation.Run
import Panops.Storage.Positions
import Panops.Lib.Timestamps
import Panops.Storage.StartTimes
import Panops.Content.Port
import Panops.Content.Stores
import Panops.Content.Runs
import Panops.Content.Simulation
import Panops.Content.Agreement
import Panops.Engine.Ipc
import Panops.Engine.Paths
import Panops.Engine.MeetingDir
import Panops.Engine.Registration
import Panops.Engine.SocketLifecycle
import Panops.Protocol.Events
import Panops.Engine.NotesJobs
import Panops.Engine.NotesSave
import Panops.Engine.NotesJson
import Panops.Engine.Recording
import Panops.Engine.RecordingAgreement
import Panops.Engine.NotesTasks
import Panops.Engine.Events
import Panops.Engine.Shutdown
import Panops.App.Models
import Panops.App.EventDecoding
import Panops.App.EventStream
import Panops.App.JobTracking
import Panops.App.JobSteps
import Panops.App.JobOrder
import Panops.App.JobEndings
import Panops.App.JobEvents
import Panops.App.JobLimit
import Panops.App.Sidebar
import Panops.App.DetailPane
import Panops.App.WsFrame
import Panops.App.WsStream
import Panops.Lib.Occurrences
import Panops.App.HttpResponse
import Panops.App.HttpRoundTrip
import Panops.App.TitleEdit
import Panops.App.CaptureController
import Panops.App.CapturePreview
import Panops.App.CaptureSource
import Panops.App.CropMath
import Panops.App.NotesEditing
import Panops.App.ActiveRecording
import Panops.Models.Ensure
import Panops.Models.Integrity
import Panops.Models.Diarization
import Panops.Lib.Lines
import Panops.Mac.Sidecar
import Panops.Mac.Pairing
import Panops.Mac.BoundedReads
import Panops.Lib.Unrolling
import Panops.Mac.Codecs
import Panops.Mac.SchemaMeaning
import Panops.Mac.SchemaNames
import Panops.Mac.Transcriber
import Panops.Capture.Screenshots
import Panops.Capture.ScreenshotClock
import Panops.Capture.ChangeDetection
import Panops.Engine.ScreenshotTimes
import Panops.Capture.Wav
import Panops.Capture.WavIntegrity
import Panops.Capture.Recorder
import Panops.Capture.Tracks
import Panops.Mac.CaptureStart
import Panops.Protocol.Recording
import Panops.App.RecordingRequest
import Panops.Capture.Codecs
import Panops.Capture.StreamSource
import Panops.Capture.Server
import Panops.Capture.Route
import Panops.Capture.Replies
import Panops.Capture.Calls
import Panops.Capture.VideoWriter
