import Khala.StorageMap
import Khala.U64F64
import Khala.Outcome
import Khala.Reach
import Khala.Balance
import Khala.Types
import Khala.Pool
import Khala.Books
import Khala.Mining
import Khala.StakePool
import Khala.PoolFacts
import Khala.Moves
import Khala.Changes
import Khala.FinalStake
import Khala.Bindings
import Khala.Timetable
import Khala.Effects
import Khala.Cases
import Khala.Stakers
import Khala.Sound
import Khala.Benchmarks
import Khala.Agreement
import Khala.Requests
import Khala.Shutdown
import Khala.Budget
import Khala.ExpiredPools
import Khala.Lifecycle
import Khala.Releasing
import Khala.Payouts
import Khala.Waiting
import Khala.Queues
import Khala.Covering
import Khala.Call
import Khala.Mq
import Khala.MqDelivery
import Khala.Merging
import Khala.Dispatcher
import Khala.Delivering
import Khala.Receivers
import Khala.Select
import Khala.Desks
import Khala.Shares
import Khala.Ledger
import Khala.Unlocking
import Khala.QueueEnds
import Khala.Bridge
import Khala.BridgeVoting
import Khala.Locations
import Khala.BridgeTransfer
import Khala.TransferAtomicity
import Khala.XcmHelper
import Khala.Deposits
import Khala.Reserves
import Khala.ReserveBacking
import Khala.DepositNonces
import Khala.DepositAtomicity
import Khala.AssetRegistry
import Khala.Migration
import Khala.Accruing
import Khala.Rewards
import Khala.RewardRuns
import Khala.Expiry
import Khala.Fees
import Khala.Origins
import Khala.Bytes
import Khala.MqSeq
import Khala.StorageChanges
import Khala.StorageWalk
import Khala.Fat
import Khala.Clusters
import Khala.XcmTransfer
import Khala.TransferRoutes
import Khala.LazySlash
import Khala.ShareValue
import Khala.Withdrawal
import Khala.StakeAccounts
import Khala.Backing
import Khala.Panics
import Khala.DustFree
import Khala.Serving
import Khala.ContractIds
import Khala.Scale
import Khala.SignedBytes
import Khala.MemoryDb
import Khala.TrieStorage
import Khala.PowTarget
import Khala.Format
import Khala.ScaleFormats
import Khala.Messaging
import Khala.Attestation
import Khala.PhalaRegistry
import Khala.Runtime
import Khala.RegistryWrites
import Khala.RuntimeSteps
import Khala.RegistryFrame
import Khala.RuntimeRefines
import Khala.Gatekeepers
import Khala.Authenticity
import Khala.Provenance
import Khala.BlockBuilding
import Khala.Decay
import Khala.Tokenomics
import Khala.Halving
import Khala.ContractIndex
