import Raftrix.Lib.Bytes

/-!
# The shared types (`pkg/types/types.go`)

Node identifiers, terms, indices, commands, log entries and the request and response structs of
the three RPCs, under the source's names. A Go `string` and a Go `[]byte` are both byte lists
(`Bytes`): nothing modelled here tells a nil slice from an empty one, and the empty string is the
"nobody" of `votedFor` and `leaderID`. `Term` and `LogIndex` are natural numbers. In the source
they are `uint64` values, and the only sums that can wrap are `currentTerm++` and `LastIndex() + 1`. In
a cluster that takes `2^64` steps (`Cluster.Reaches.counted`); a single node that gets requests from
anywhere may get term `2^64 - 1` in one of them, so `Node/Vote.lean` wraps the term.

`LogEntry.stored` is the entry that comes back from the JSON text the log keeps: keys and op
strings are text there, byte slices are base64 (`encoding/json`).
-/

namespace Raftrix

/-- A Go `string` or `[]byte`. -/
abbrev Bytes := List UInt8

/-- `NodeID`. The empty string names nobody. -/
abbrev NodeID := Bytes

/-- `NodeState`: the role of a node. -/
inductive NodeState where
  | follower
  | candidate
  | leader
  deriving Repr, DecidableEq

/-- `OpType`: the four op strings, and any other string. -/
inductive OpType where
  | put
  | delete
  | cas
  | noop
  | other (op : Bytes)
  deriving Repr, DecidableEq

/-- `Command`. -/
structure Command where
  op : OpType
  key : Bytes
  value : Bytes
  prevValue : Bytes
  deriving Repr, DecidableEq

/-- The no-op a new leader appends: `Command{Op: OpNoop}`. -/
def Command.noop : Command := ⟨.noop, [], [], []⟩

/-- `LogEntry`. -/
structure LogEntry where
  index : Nat
  term : Nat
  command : Command
  deriving Repr, DecidableEq

/-- `Peer`, without its network address. -/
structure Peer where
  id : NodeID
  deriving Repr, DecidableEq

/-- `AppendEntriesRequest`. -/
structure AppendEntriesRequest where
  term : Nat
  leaderID : NodeID
  prevLogIndex : Nat
  prevLogTerm : Nat
  entries : List LogEntry
  leaderCommit : Nat
  deriving Repr, DecidableEq

/-- `AppendEntriesResponse`. -/
structure AppendEntriesResponse where
  term : Nat
  success : Bool := false
  followerID : NodeID
  matchIndex : Nat := 0
  conflictIndex : Nat := 0
  conflictTerm : Nat := 0
  deriving Repr, DecidableEq

/-- `RequestVoteRequest`. -/
structure RequestVoteRequest where
  term : Nat
  candidateID : NodeID
  lastLogIndex : Nat
  lastLogTerm : Nat
  deriving Repr, DecidableEq

/-- `RequestVoteResponse`. -/
structure RequestVoteResponse where
  term : Nat
  voteGranted : Bool := false
  voterID : NodeID
  deriving Repr, DecidableEq

/-- `InstallSnapshotRequest`. -/
structure InstallSnapshotRequest where
  term : Nat
  leaderID : NodeID
  lastIncludedIndex : Nat
  lastIncludedTerm : Nat
  data : Bytes
  deriving Repr, DecidableEq

/-- `InstallSnapshotResponse`. -/
structure InstallSnapshotResponse where
  term : Nat
  followerID : NodeID
  success : Bool := false
  deriving Repr, DecidableEq

/-! ## What the JSON text of an entry gives back -/

/-- The op string after encoding and decoding. -/
def OpType.stored : OpType → OpType
  | .other op => .other (Lib.Utf8.coerceUtf8 op)
  | op => op

/-- The command after encoding and decoding. -/
def Command.stored (c : Command) : Command :=
  { c with op := c.op.stored, key := Lib.Utf8.coerceUtf8 c.key }

/-- The entry after encoding and decoding. -/
def LogEntry.stored (e : LogEntry) : LogEntry :=
  { e with command := e.command.stored }

@[simp] theorem LogEntry.stored_index (e : LogEntry) : e.stored.index = e.index := rfl

@[simp] theorem LogEntry.stored_term (e : LogEntry) : e.stored.term = e.term := rfl

/-- Storing a command read from a log changes nothing. -/
@[simp] theorem Command.stored_stored (c : Command) : c.stored.stored = c.stored := by
  obtain ⟨op, k, v, p⟩ := c
  cases op <;> simp [Command.stored, OpType.stored, Lib.Utf8.coerceUtf8_idem]

/-- Storing an entry read from a log changes nothing. -/
@[simp] theorem LogEntry.stored_stored (e : LogEntry) : e.stored.stored = e.stored := by
  simp [LogEntry.stored]

end Raftrix
