import VideoPipeline.Lib.Machine
import VideoPipeline.Lib.Channel
import VideoPipeline.Lib.Family
import VideoPipeline.Lib.BestApprox
import VideoPipeline.Lib.Store
import VideoPipeline.Lib.Expiry
import VideoPipeline.Lib.FileTree
import VideoPipeline.Common.Identity
import VideoPipeline.Common.Messages
import VideoPipeline.Common.Settings
import VideoPipeline.Common.Repositories
import VideoPipeline.Common.Interchange
import VideoPipeline.Common.JobExpiry
import VideoPipeline.Common.FrameStore
import VideoPipeline.Common.Broker
import VideoPipeline.Common.Publisher
import VideoPipeline.Detector.Batcher
import VideoPipeline.Detector.BatcherRun
import VideoPipeline.Detector.BatcherStop
import VideoPipeline.Detector.BatcherDeadline
import VideoPipeline.Detector.Worker
import VideoPipeline.Detector.Output
import VideoPipeline.Detector.Replica
import VideoPipeline.Detector.ConsumeLoop
import VideoPipeline.Detector.Settlement
import VideoPipeline.Detector.Partitions
import VideoPipeline.Detector.Prefetch
import VideoPipeline.Detector.Flow
import VideoPipeline.Detector.Shutdown
import VideoPipeline.Detector.Fleet
import VideoPipeline.Detector.Retry
import VideoPipeline.Detector.NoLoss
import VideoPipeline.Detector.AtMostOnce
import VideoPipeline.Detector.Processed
import VideoPipeline.Detector.Ordering
import VideoPipeline.Detector.Origin
import VideoPipeline.Detector.Fate
import VideoPipeline.Detector.Drain
import VideoPipeline.Detector.Topology
import VideoPipeline.Detector.PartitionLine
import VideoPipeline.Detector.VideoOrder
import VideoPipeline.Sampling.Sampler
import VideoPipeline.Sampling.Cursor
import VideoPipeline.Sampling.Drift
import VideoPipeline.Sampling.Source
import VideoPipeline.Sampling.Seek
import VideoPipeline.Analyzer.Pipeline
import VideoPipeline.Analyzer.Flow
import VideoPipeline.Analyzer.Backpressure
import VideoPipeline.Analyzer.Cancellation
import VideoPipeline.Analyzer.Progress
import VideoPipeline.Analyzer.PublishOrder
import VideoPipeline.Analyzer.Service
import VideoPipeline.Analyzer.Finish
import VideoPipeline.Analyzer.Outcome
import VideoPipeline.Analyzer.Blobs
import VideoPipeline.Analyzer.Admission
import VideoPipeline.Analyzer.Replicas
import VideoPipeline.Analyzer.Chain
import VideoPipeline.Analyzer.NoGap
import VideoPipeline.Analyzer.Monotone
import VideoPipeline.Analyzer.Counters
import VideoPipeline.Analyzer.Paths
import VideoPipeline.Analyzer.Disclosure
import VideoPipeline.System.Deployment
import VideoPipeline.System.ClaimCheck
import VideoPipeline.System.Window
import VideoPipeline.System.EndToEnd
import VideoPipeline.System.Progress
import VideoPipeline.System.DeadLetters
import VideoPipeline.System.Completeness
