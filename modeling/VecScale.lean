import VecScale.Coordinator.Answers
import VecScale.Coordinator.App
import VecScale.Coordinator.Dispatch
import VecScale.Coordinator.Election
import VecScale.Coordinator.Gather
import VecScale.Coordinator.Json
import VecScale.Coordinator.Lead
import VecScale.Coordinator.Lease
import VecScale.Coordinator.Metadata
import VecScale.Coordinator.MetadataStore
import VecScale.Coordinator.PublishedSnapshot
import VecScale.Coordinator.Quiet
import VecScale.Coordinator.Registry
import VecScale.Coordinator.Replicated
import VecScale.Coordinator.Ring
import VecScale.Coordinator.ScatterGather
import VecScale.Coordinator.Watch
import VecScale.Index.IvfFlat
import VecScale.Index.Segment
import VecScale.Lib.ChangeFeed
import VecScale.Lib.Dict
import VecScale.Lib.Expiring
import VecScale.Lib.Exposition
import VecScale.Lib.Frames
import VecScale.Lib.HashRing
import VecScale.Lib.JsonFields
import VecScale.Lib.JsonInts
import VecScale.Lib.LateFilter
import VecScale.Lib.Nearest
import VecScale.Lib.NearestParts
import VecScale.Lib.NearestTies
import VecScale.Lib.Pool
import VecScale.Lib.Quoting
import VecScale.Lib.Recency
import VecScale.Lib.Retries
import VecScale.Lib.RoundRobin
import VecScale.Lib.Runs
import VecScale.Models
import VecScale.Observability
import VecScale.Reader.Cache
import VecScale.Reader.Deployment
import VecScale.Reader.Eviction
import VecScale.Reader.FailedRefresh
import VecScale.Reader.FilteredSearch
import VecScale.Reader.Fleet
import VecScale.Reader.FullCache
import VecScale.Reader.Newest
import VecScale.Reader.Order
import VecScale.Reader.Publishing
import VecScale.Reader.Reach
import VecScale.Reader.Replica
import VecScale.Reader.Resurrection
import VecScale.Reader.Shelves
import VecScale.Reader.SnapshotRead
import VecScale.Reader.TombstoneReplacement
import VecScale.Reader.VisibilityIndex
import VecScale.Reader.World
import VecScale.Service.Overlapping
import VecScale.Service.ReaderApp
import VecScale.Service.Requests
import VecScale.Service.SingleNode
import VecScale.Service.WriterApp
import VecScale.Storage.AbstractLog
import VecScale.Storage.Backed
import VecScale.Storage.Calls
import VecScale.Storage.Clock
import VecScale.Storage.Compaction
import VecScale.Storage.Consistent
import VecScale.Storage.Counters
import VecScale.Storage.Crash
import VecScale.Storage.CutLog
import VecScale.Storage.EngineInvariant
import VecScale.Storage.EngineMap
import VecScale.Storage.FlushCrash
import VecScale.Storage.Layout
import VecScale.Storage.Lsm
import VecScale.Storage.MemTable
import VecScale.Storage.MergeCrash
import VecScale.Storage.MergeEffects
import VecScale.Storage.MergeGroups
import VecScale.Storage.Merging
import VecScale.Storage.Recovery
import VecScale.Storage.Replay
import VecScale.Storage.Resting
import VecScale.Storage.Results
import VecScale.Storage.Retrieval
import VecScale.Storage.Search
import VecScale.Storage.Snapshot
import VecScale.Storage.SnapshotStability
import VecScale.Storage.SnapshotView
import VecScale.Storage.TornTail
import VecScale.Storage.UnfilledSlots
import VecScale.Storage.Visible
import VecScale.Storage.Wal
import VecScale.Storage.WalEffects
import VecScale.Storage.WalRecord
import VecScale.Writer.Client
import VecScale.Writer.Completes
import VecScale.Writer.InForce
import VecScale.Writer.Passes
import VecScale.Writer.Pipeline
import VecScale.Writer.Reconcile
import VecScale.Writer.Registration
import VecScale.Writer.Sections
import VecScale.Writer.ShardTombstones
import VecScale.Writer.Shards
import VecScale.Writer.TombstoneFile
import VecScale.Writer.Transparent
