import OneSpark.Tensors
import OneSpark.RingSlots
import OneSpark.VerifyRuns
import OneSpark.GraphLayout
import OneSpark.TextEdits
import OneSpark.PatchTexts
import OneSpark.Patchers
import OneSpark.FileStore
import OneSpark.PatchRuns
import OneSpark.Checkpoint
import OneSpark.CheckpointRuns
import OneSpark.Artifact
import OneSpark.ArtifactRuns
import OneSpark.Overlay
import OneSpark.OverlayRuns
import OneSpark.Blocks
import OneSpark.Scatter
import OneSpark.Longs
import OneSpark.HashBuild
import OneSpark.HashMeans
import OneSpark.HashGather
import OneSpark.NGramIds
import OneSpark.HashRows
import OneSpark.Windows
import OneSpark.PleLayout
import OneSpark.PleCommit
import OneSpark.ShortConv
import OneSpark.Snapshots
import OneSpark.NGramReference
import OneSpark.NGramRuns
import OneSpark.SilentConv
import OneSpark.PleLayer
import OneSpark.PleOff
import OneSpark.WritePlan
import OneSpark.PlanRuns
import OneSpark.CompressedSlots
import OneSpark.GraphRefresh
import OneSpark.PackedGather
import OneSpark.DirectGather
import OneSpark.ContainerRuns
import OneSpark.Fp8Codes
import OneSpark.RowChunks
import OneSpark.Fp8Weights
import OneSpark.Nvfp4Rows
import OneSpark.SplitMix
import OneSpark.GroupScales
import OneSpark.RowWrites
import OneSpark.PleShards
import OneSpark.ShardRuns
import OneSpark.SharedIndices
import OneSpark.SharedCaptures
import OneSpark.StreamingSoftmax
import OneSpark.SparsePrefill
import OneSpark.ExtendForwards
import OneSpark.CompressedCache
import OneSpark.CacheReads
import OneSpark.Streams
import OneSpark.Prefetch
import OneSpark.PrefetchRuns
import OneSpark.PleRanks
import OneSpark.GraphRuns
import OneSpark.DraftSteps
import OneSpark.WeightLoads
import OneSpark.WeightRuns
import OneSpark.WeightOrders
import OneSpark.StagedLens
import OneSpark.NGramParams
import OneSpark.PoolBuffers
