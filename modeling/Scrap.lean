import Scrap.Index.QuarantineList
import Scrap.Shard.Overhang
import Scrap.Shard.Truncations
import Scrap.Shard.RepairFiles
import Scrap.Shard.TwoMembers
import Scrap.Shard.RebuildWindow
import Scrap.Shard.ProjectionSwap
import Scrap.Shard.ReplicaRepair
import Scrap.Scrub.Light
import Scrap.Shard.BlockDistance
import Scrap.Scrub.Checkpoint
import Scrap.Shard.EvictionApply
import Scrap.Shard.UploadFence
import Scrap.Shard.WriteCalls
import Scrap.Shard.ByteReady
import Scrap.Shard.Scanner
import Scrap.Block.IdxReplace
import Scrap.Block.VerifyBytes
import Scrap.Shard.EncryptedReads
import Scrap.Shard.CutBody
import Scrap.Shard.UploadConcurrency
import Scrap.Store.BodyReader
import Scrap.Security.RateLimit
import Scrap.Admission.Budget
import Scrap.Shard.CommitCounts
import Scrap.Shard.RestoreCalls
