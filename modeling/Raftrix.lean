import Raftrix.Cluster.StableLeader
import Raftrix.Cluster.StateMachine
import Raftrix.Cluster.Waiters
import Raftrix.Node.Lifetime
import Raftrix.Node.Replay
import Raftrix.Node.Install
import Raftrix.Node.Resume
import Raftrix.Cluster.Leadership
import Raftrix.Cluster.Notification
import Raftrix.Log.Boundary
import Raftrix.Cluster.Compaction
import Raftrix.Cluster.SnapshotData
import Raftrix.Lib.Simulation
import Raftrix.Node.Engines
import Raftrix.Node.Majority
import Raftrix.Lib.BigEndian
import Raftrix.Lib.KeyCode
import Raftrix.Model.LogFile
import Raftrix.Log.File
import Raftrix.Log.Refinement
import Raftrix.Node.Vote
import Raftrix.Cluster.Roles
import Raftrix.Cluster.Sending
import Raftrix.Log.Compacted
import Raftrix.Node.Late
import Raftrix.Node.ApplyLoop
import Raftrix.Cluster.Candidacy
import Raftrix.Model.Api
import Raftrix.Node.MapStore
import Raftrix.Node.Persisted
import Raftrix.Node.Snapshots
import Raftrix.Model.MapVar
import Raftrix.Node.Restore
import Raftrix.Model.Config
import Raftrix.Node.Timers
import Raftrix.Lib.Cursor
import Raftrix.Log.Keys
import Raftrix.Cluster.Linearizability
import Raftrix.Cluster.EventLoop
import Raftrix.Cluster.LoopRefinement
import Raftrix.Cluster.Availability
import Raftrix.Model.Server
import Raftrix.Cluster.Server
import Raftrix.Cluster.Sessions
import Raftrix.Lib.Base64
import Raftrix.Lib.Json
import Raftrix.Lib.JsonRecord
import Raftrix.Model.Wire
import Raftrix.Wire.Messages
import Raftrix.Lib.BucketMap
import Raftrix.Model.BoltLog
import Raftrix.Wire.LogText
import Raftrix.Model.Transport
import Raftrix.Cluster.Counters
import Raftrix.Wire.Http
import Raftrix.Wire.Files
import Raftrix.Wire.Health
