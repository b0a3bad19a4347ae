import Smoldb.Lib.LastWrite
import Smoldb.Lib.Interleave
import Smoldb.Lib.Grouping
import Smoldb.Lib.HashRing
import Smoldb.Lib.Loop
import Smoldb.Lib.Runs
import Smoldb.Lib.Locality
import Smoldb.Lib.BufWriter
import Smoldb.Lib.Ticks
import Smoldb.Lib.Chunks
import Smoldb.Lib.History
import Smoldb.Lib.WriteBehind
import Smoldb.Types
import Smoldb.Storage.SegmentMap
import Smoldb.Storage.Replicas
import Smoldb.Storage.Collection
import Smoldb.Storage.Upsert
import Smoldb.Storage.Retrieve
import Smoldb.Storage.Routing
import Smoldb.Http
import Smoldb.Cluster.Replication
import Smoldb.Cluster.Convergence
import Smoldb.Cluster.Retry
import Smoldb.Cluster.Remote
import Smoldb.Cluster.Lists
import Smoldb.Cluster.Batches
import Smoldb.Consensus.Covering
import Smoldb.Consensus.Identity
import Smoldb.Consensus.Addresses
import Smoldb.Consensus.Thread
import Smoldb.Consensus.ReceiverLoop
import Smoldb.Consensus.Pace
import Smoldb.Consensus.Joining
import Smoldb.Handlers
import Smoldb.Cluster.Locks
import Smoldb.Disk.Restart
import Smoldb.Disk.Faults
import Smoldb.Disk.Isolation
import Smoldb.Disk.Crash
import Smoldb.Disk.Concurrent
import Smoldb.Disk.Saving
import Smoldb.Channels
import Smoldb.Api.Refinement
import Smoldb.Api.ClusterInfo
import Smoldb.Live.Replicas
import Smoldb.Smolbench.Args
import Smoldb.Smolbench.Upsert
import Smoldb.Smolbench.Against
