import Kinet.BlockTree.ArrivalOrder
import Kinet.BlockTree.Queries
import Kinet.ConsensusState.Network
import Kinet.ConsensusState.Proposals
import Kinet.ConsensusState.VoteCollection
import Kinet.ConsensusState.Prefilter
import Kinet.Wire.RoundTrip
import Kinet.Eth.NonceReplay
import Kinet.Mcp.Pools
import Kinet.Mcp.Windows
import Kinet.Mcp.Decided
import Kinet.Merkle.Tree
import Kinet.Wireauth.Agreement
import Kinet.Wireauth.NoReplay
import Kinet.Wireauth.NoHandshakeReplay
import Kinet.Wireauth.Disconnect
import Kinet.LeanUdp.RoundTrip
import Kinet.LeanUdp.Isolation
import Kinet.FairQueue.Conservation
import Kinet.StateSync.Tracking
import Kinet.StateSync.Server
import Kinet.StateSync.BlockBuffer
import Kinet.BlockPersist.Crash
import Kinet.Archive.Workers
import Kinet.Validator.Restart
import Kinet.PeerDiscovery.Refresh
import Kinet.PeerDiscovery.Records
import Kinet.Eth.ExecutionStateReadCache
import Kinet.Raptorcast.PublishedRounds
import Kinet.Wal.Reader
import Kinet.TxPool.Forward
