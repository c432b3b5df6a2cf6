/-!
# The configuration and the timers (`config/config.go`, `internal/consensus/raft.go`)

`Load` after the YAML text is parsed: `applyDefaults` fills in what is zero or empty, and `validate` checks
the result, with its error texts. A Go `int` is 64 bits wide and wraps.

The two timers take their durations, in nanoseconds, from the configuration. `rand.Intn(n)` panics for
`n ≤ 0` and returns some number in `[0, n)` otherwise; which one is an argument here.
-/

namespace Raftrix

/-- `NodeConfig`. -/
structure NodeConfig where
  id : String
  addr : String
  deriving Repr, DecidableEq

/-- `RaftConfig`. -/
structure RaftConfig where
  electionTimeoutMinMs : Int64
  electionTimeoutMaxMs : Int64
  heartbeatIntervalMs : Int64
  snapshotThreshold : Int64
  deriving Repr, DecidableEq

/-- `StorageConfig`. -/
structure StorageConfig where
  type : String
  dataDir : String
  deriving Repr, DecidableEq

/-- `ServerConfig`. -/
structure ServerConfig where
  addr : String
  deriving Repr, DecidableEq

/-- `Config`. -/
structure Config where
  node : NodeConfig
  peers : List NodeConfig
  raft : RaftConfig
  storage : StorageConfig
  server : ServerConfig
  deriving Repr, DecidableEq

namespace Config

/-- A zero value is replaced by its default. -/
def orDefault {α : Type} [DecidableEq α] (zero default x : α) : α := if x = zero then default else x

/-- `applyDefaults`. -/
def applyDefaults (cfg : Config) : Config :=
  { cfg with
    raft :=
      { electionTimeoutMinMs := orDefault 0 150 cfg.raft.electionTimeoutMinMs
        electionTimeoutMaxMs := orDefault 0 300 cfg.raft.electionTimeoutMaxMs
        heartbeatIntervalMs := orDefault 0 50 cfg.raft.heartbeatIntervalMs
        snapshotThreshold := orDefault 0 10000 cfg.raft.snapshotThreshold }
    storage :=
      { type := orDefault "" "persistent" cfg.storage.type
        dataDir := orDefault "" "./data" cfg.storage.dataDir }
    server := { addr := orDefault "" ":8080" cfg.server.addr } }

/-- `validate`: the text of the first check that fails. -/
def validate (cfg : Config) : Option String :=
  if cfg.node.id = "" then some "node.id is required"
  else if cfg.node.addr = "" then some "node.addr is required"
  else if cfg.raft.electionTimeoutMinMs ≥ cfg.raft.electionTimeoutMaxMs then
    some "election_timeout_min_ms must be < election_timeout_max_ms"
  else if cfg.raft.heartbeatIntervalMs ≥ cfg.raft.electionTimeoutMinMs then
    some "heartbeat_interval_ms must be < election_timeout_min_ms"
  else none

/-- `Load` of a parsed configuration. -/
def load (cfg : Config) : Except String Config :=
  match cfg.applyDefaults.validate with
  | some err => .error err
  | none => .ok cfg.applyDefaults

end Config

namespace RaftConfig

/-- `time.Millisecond`. -/
def millisecond : Int64 := 1000000

/-- `rand.Intn(n)`. `none` when it panics. -/
def intn (n : Int64) (seed : Nat) : Option Int64 :=
  if n ≤ 0 then none else some (Int64.ofInt (seed % n.toInt))

/-- The timeout `resetElectionTimer` draws. `none` when it panics. -/
def electionTimeout (cfg : RaftConfig) (seed : Nat) : Option Int64 :=
  (intn (cfg.electionTimeoutMaxMs - cfg.electionTimeoutMinMs) seed).map fun r =>
    (cfg.electionTimeoutMinMs + r) * millisecond

/-- The interval `resetHeartbeatTimer` sets. -/
def heartbeatInterval (cfg : RaftConfig) : Int64 := cfg.heartbeatIntervalMs * millisecond

end RaftConfig

end Raftrix
