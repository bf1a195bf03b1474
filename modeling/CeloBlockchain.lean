import CeloBlockchain.Lib.Run
import CeloBlockchain.Lib.Words
import CeloBlockchain.Lib.HashChain
import CeloBlockchain.Lib.BigEndian
import CeloBlockchain.Lib.Codec
import CeloBlockchain.Lib.Rlp
import CeloBlockchain.Lib.Bitmap
import CeloBlockchain.Lib.AssocMap
import CeloBlockchain.Lib.DescendingScan
import CeloBlockchain.Lib.PopOrder
import CeloBlockchain.Lib.KvBatch
import CeloBlockchain.Ibft.Types
import CeloBlockchain.Ibft.RoundState
import CeloBlockchain.Ibft.RoundChangeSet
import CeloBlockchain.Ibft.RoundChangeSetSpec
import CeloBlockchain.Ibft.Core
import CeloBlockchain.Ibft.Network
import CeloBlockchain.Ibft.Quorum
import CeloBlockchain.Ibft.Invariant
import CeloBlockchain.Ibft.Certificate
import CeloBlockchain.Ibft.RoundStateDb
import CeloBlockchain.Ibft.RoundStateDbSpec
import CeloBlockchain.Ibft.ValidatorSetDiff
import CeloBlockchain.Ibft.ProposerSelection
import CeloBlockchain.Ibft.AggregatedSeal
import CeloBlockchain.Ibft.Backlog
import CeloBlockchain.Ibft.BacklogInvariant
import CeloBlockchain.Ibft.BacklogSpec
import CeloBlockchain.Ibft.Wire
import CeloBlockchain.Ibft.WireSpec
import CeloBlockchain.Backend.Extra
import CeloBlockchain.Backend.ExtraSpec
import CeloBlockchain.Replica.State
import CeloBlockchain.Replica.StateSpec
import CeloBlockchain.Uptime.Monitor
import CeloBlockchain.Uptime.Tally
import CeloBlockchain.Uptime.MonitorSpec
import CeloBlockchain.Uptime.AutoFix
import CeloBlockchain.Uptime.AutoFixSpec
import CeloBlockchain.Backend.Snapshot
import CeloBlockchain.Backend.SnapshotSpec
import CeloBlockchain.Backend.SnapshotComplete
import CeloBlockchain.Backend.EpochTransition
import CeloBlockchain.Vm.FractionMulExp
import CeloBlockchain.Vm.FractionMulExpSpec
import CeloBlockchain.Core.Currency
import CeloBlockchain.Core.StateTransition
import CeloBlockchain.Core.StateTransitionSpec
import CeloBlockchain.Core.PriceHeap
import CeloBlockchain.Core.PriceHeapSpec
import CeloBlockchain.Core.TxsByPrice
import CeloBlockchain.Core.TxsByPriceSpec
import CeloBlockchain.Core.TxList
import CeloBlockchain.Core.TxListSpec
import CeloBlockchain.Core.TxSortedMapSpec
import CeloBlockchain.Proxy.ProxySet
import CeloBlockchain.Proxy.ProxySetSpec
import CeloBlockchain.Announce.ValEnodeDB
import CeloBlockchain.Announce.ValEnodeDBSpec
import CeloBlockchain.Announce.VersionCertificateDBSpec
import CeloBlockchain.Backend.VerifyHeader
import CeloBlockchain.Backend.VerifyHeaderSpec
