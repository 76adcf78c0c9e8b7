import MetricStore.Common.Bytes
import MetricStore.Common.Csv
import MetricStore.Common.Duration
import MetricStore.Common.FilePath
import MetricStore.Common.Float64
import MetricStore.Common.GoMap
import MetricStore.Common.HttpForm
import MetricStore.Common.Merge
import MetricStore.Common.Regexp
import MetricStore.Common.Run
import MetricStore.Common.Slice
import MetricStore.Common.Sort
import MetricStore.Handoff.Segment
import MetricStore.Handoff.SegmentCursor
import MetricStore.Handoff.Queue
import MetricStore.Handoff.QueueMoves
import MetricStore.Handoff.QueueShape
import MetricStore.Handoff.AppendErrors
import MetricStore.Handoff.QueueRep
import MetricStore.Handoff.QueueFifo
import MetricStore.Handoff.WriteReplayer
import MetricStore.Handoff.Progress
import MetricStore.Handoff.Reopen
import MetricStore.Handoff.Rejections
import MetricStore.Handoff.SegmentIDs
import MetricStore.Handoff.DiskBudget
import MetricStore.Handoff.Readable
import MetricStore.Handoff.Purge
import MetricStore.Handoff.TornAppend
import MetricStore.Handoff.Cells
import MetricStore.Handoff.CorruptFiles
import MetricStore.Handoff.ReplayLoop
import MetricStore.Leanstreams.TcpClient
import MetricStore.Leanstreams.TcpListener
import MetricStore.Leanstreams.ReadBuffers
import MetricStore.Auth.QueryParser
import MetricStore.Auth.Middleware
import MetricStore.Auth.SelectedSeries
import MetricStore.Auth.CapiClient
import MetricStore.Auth.Pagination
import MetricStore.Auth.UaaClient
import MetricStore.Auth.TokenReader
import MetricStore.Auth.RefreshThrottle
import MetricStore.Auth.CapiOutage
import MetricStore.Influx.Point
import MetricStore.Persistence.PointTranslator
import MetricStore.Persistence.InfluxAdapter
import MetricStore.Persistence.Appender
import MetricStore.Persistence.FilterTranslator
import MetricStore.Persistence.Shards
import MetricStore.Persistence.ContiguousShards
import MetricStore.Persistence.ShardDeletion
import MetricStore.Persistence.AdapterRestart
import MetricStore.Persistence.Querier
import MetricStore.Persistence.SelectFrame
import MetricStore.Persistence.SeriesSet
import MetricStore.Persistence.Retention
import MetricStore.Persistence.ShardRaces
import MetricStore.Routing.RoutingTable
import MetricStore.Storage.Listeners
import MetricStore.Storage.SharedAppender
import MetricStore.Storage.Replicas
import MetricStore.Storage.LabelCollisions
import MetricStore.Storage.LabelValues
import MetricStore.Storage.Placement
import MetricStore.Storage.RetryTicker
import MetricStore.Batch.Batcher
import MetricStore.Ingress.Nozzle
import MetricStore.Ingress.RollupKeys
import MetricStore.Ingress.Rollup
import MetricStore.Ingress.MessageSize
import MetricStore.Rules.Config
import MetricStore.Rules.Files
import MetricStore.Rules.Replicated
import MetricStore.Rules.Restart
import MetricStore.Rules.RuleGroup
import MetricStore.Rules.Evaluation
import MetricStore.Rules.LocalRuleManager
import MetricStore.Rules.Atomicity
import MetricStore.Rules.Interference
import MetricStore.Rules.ReplicaErrors
import MetricStore.Rules.ManagerPaths
import MetricStore.Rules.Reload
import MetricStore.Rules.RemoteRuleManager
import MetricStore.Diodes.OneToOne
import MetricStore.Storage.RemotePipeline
import MetricStore.Leanstreams.Reconnect
import MetricStore.Leanstreams.ListenerLifecycle
import MetricStore.Common.Rounding
import MetricStore.Routing.JumpHash
import MetricStore.Common.Utf8
import MetricStore.Storage.RemoteRead
import MetricStore.Storage.ClusterRead
import MetricStore.Ingress.NozzlePipeline
import MetricStore.Common.Window
import MetricStore.Persistence.Expiry
import MetricStore.Common.Scan
import MetricStore.Influx.SeriesKey
import MetricStore.Influx.TagSets
import MetricStore.Storage.StoredSeries
