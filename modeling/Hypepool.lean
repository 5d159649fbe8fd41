import Hypepool.Base.AdvancingCell
import Hypepool.Base.Archive
import Hypepool.Base.BigEndian
import Hypepool.Base.BlockCode
import Hypepool.Base.Effect
import Hypepool.Base.Framing
import Hypepool.Base.Ledger
import Hypepool.Base.MerkleTree
import Hypepool.Base.Positional
import Hypepool.Base.Run
import Hypepool.Base.SharedCell
import Hypepool.Net.BitConverter
import Hypepool.Net.DateTime
import Hypepool.Net.Runtime
import Hypepool.Cryptonote.Address
import Hypepool.Cryptonote.Base58
import Hypepool.Cryptonote.BinaryArchive
import Hypepool.Cryptonote.Block
import Hypepool.Cryptonote.BlockHashing
import Hypepool.Cryptonote.IntUtil
import Hypepool.Cryptonote.Keccak
import Hypepool.Cryptonote.Transaction
import Hypepool.Cryptonote.TreeHash
import Hypepool.Cryptonote.Varint
import Hypepool.Common.BlobConversion
import Hypepool.Common.Buffers
import Hypepool.Common.DaemonClient
import Hypepool.Common.Hex
import Hypepool.Common.HexCodec
import Hypepool.Common.JobCounter
import Hypepool.Common.JobIds
import Hypepool.Common.LibCryptonote
import Hypepool.Common.NativeLibrary
import Hypepool.Common.Stratum
import Hypepool.Common.ZombieCheck
import Hypepool.Core.ClientRegistry
import Hypepool.Core.ConnectionIds
import Hypepool.Core.CorrelationIdGenerator
import Hypepool.Core.InboundFlooding
import Hypepool.Core.PooledLineBuffer
import Hypepool.Core.PooledLineBufferFraming
import Hypepool.Core.PooledLineBufferLimits
import Hypepool.Core.PooledLineBufferMoments
import Hypepool.Core.PooledLineBufferOwnership
import Hypepool.Core.SendQueueMessages
import Hypepool.Core.SendQueueOwnership
import Hypepool.Core.StratumClientSend
import Hypepool.Core.StratumServer
import Hypepool.Monero.Authorization
import Hypepool.Monero.BlobInjection
import Hypepool.Monero.CompactTarget
import Hypepool.Monero.DaemonSynching
import Hypepool.Monero.ErrorAnswers
import Hypepool.Monero.ExtraNonce
import Hypepool.Monero.JobBroadcast
import Hypepool.Monero.JobPublication
import Hypepool.Monero.LoginParsing
import Hypepool.Monero.LoginReplies
import Hypepool.Monero.MinerAddresses
import Hypepool.Monero.MoneroJob
import Hypepool.Monero.MoneroJobManager
import Hypepool.Monero.MoneroPool
import Hypepool.Monero.MoneroWorker
import Hypepool.Monero.PipelinedRequests
import Hypepool.Monero.PoolStartup
import Hypepool.Monero.StartupSafety
import Hypepool.Monero.TipFollowing
import Hypepool.Monero.WorkerBlobs
