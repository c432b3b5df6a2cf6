import Raftrix.Lib.JsonRecord
import Raftrix.Model.MapVar

/-!
# The JSON of the shared types and of the snapshots (`pkg/types/types.go`, `internal/storage`)

The field tags of the source, as the members `json.Marshal` writes (`toJson`) and the fields
`json.Unmarshal` sets (`fields`). Members with `omitempty` are left out when empty. A nil slice without
`omitempty` is written as `null` and an empty one as `[]` or `""`; the types of `Model/Types.lean` do not
tell them apart, so the writer is told (`isNil`).

`mapJson` is `encoding/json` on the type of the stores, `map[string][]byte`. The engines store copies, so
an empty value is written as `""`.
-/

namespace Raftrix

open Lib.Json (Value RecordField ascii)

/-! ## Commands and entries -/

/-- The op string. -/
def OpType.text : OpType → Bytes
  | .put => ascii "PUT"
  | .delete => ascii "DELETE"
  | .cas => ascii "CAS"
  | .noop => ascii "NOOP"
  | .other op => op

/-- The op of a string. -/
def OpType.ofText (op : Bytes) : OpType :=
  if op = ascii "PUT" then .put
  else if op = ascii "DELETE" then .delete
  else if op = ascii "CAS" then .cas
  else if op = ascii "NOOP" then .noop
  else .other op

def Command.toJson (c : Command) : Value :=
  .object ([(ascii "op", .string c.op.text), (ascii "key", .string c.key)] ++
    (Lib.Json.omitEmpty (ascii "value") c.value ++ Lib.Json.omitEmpty (ascii "prev_value") c.prevValue))

def Command.fields : List (RecordField Command) :=
  [⟨ascii "op", fun c v => (Lib.Json.text c.op.text v).map fun s => { c with op := .ofText s }⟩,
   ⟨ascii "key", fun c v => (Lib.Json.text c.key v).map fun s => { c with key := s }⟩,
   ⟨ascii "value", fun c v => (Lib.Json.bytes v).map fun b => { c with value := b }⟩,
   ⟨ascii "prev_value", fun c v => (Lib.Json.bytes v).map fun b => { c with prevValue := b }⟩]

/-- The zero value of `Command`: its op is the empty string. -/
def Command.zero : Command := ⟨.other [], [], [], []⟩

def LogEntry.toJson (e : LogEntry) : Value :=
  .object [(ascii "index", .nat e.index), (ascii "term", .nat e.term),
    (ascii "command", e.command.toJson)]

def LogEntry.fields : List (RecordField LogEntry) :=
  [⟨ascii "index", fun e v => (Lib.Json.uint64 e.index v).map fun n => { e with index := n }⟩,
   ⟨ascii "term", fun e v => (Lib.Json.uint64 e.term v).map fun n => { e with term := n }⟩,
   ⟨ascii "command", fun e v =>
     (Lib.Json.record Command.fields e.command v).map fun c => { e with command := c }⟩]

def LogEntry.zero : LogEntry := ⟨0, 0, .zero⟩

def LogEntry.ofJson (v : Value) : Option LogEntry := Lib.Json.record LogEntry.fields .zero v

/-! ## Requests and responses -/

def AppendEntriesRequest.toJson (isNil : Bool) (req : AppendEntriesRequest) : Value :=
  .object [(ascii "term", .nat req.term), (ascii "leader_id", .string req.leaderID),
    (ascii "prev_log_index", .nat req.prevLogIndex), (ascii "prev_log_term", .nat req.prevLogTerm),
    (ascii "entries", if req.entries = [] ∧ isNil then .null else .array (req.entries.map LogEntry.toJson)),
    (ascii "leader_commit", .nat req.leaderCommit)]

def AppendEntriesRequest.fields : List (RecordField AppendEntriesRequest) :=
  [⟨ascii "term", fun r v => (Lib.Json.uint64 r.term v).map fun n => { r with term := n }⟩,
   ⟨ascii "leader_id", fun r v => (Lib.Json.text r.leaderID v).map fun s => { r with leaderID := s }⟩,
   ⟨ascii "prev_log_index", fun r v =>
     (Lib.Json.uint64 r.prevLogIndex v).map fun n => { r with prevLogIndex := n }⟩,
   ⟨ascii "prev_log_term", fun r v =>
     (Lib.Json.uint64 r.prevLogTerm v).map fun n => { r with prevLogTerm := n }⟩,
   ⟨ascii "entries", fun r v =>
     (Lib.Json.slice LogEntry.ofJson v).map fun es => { r with entries := es }⟩,
   ⟨ascii "leader_commit", fun r v =>
     (Lib.Json.uint64 r.leaderCommit v).map fun n => { r with leaderCommit := n }⟩]

def AppendEntriesRequest.ofJson (v : Value) : Option AppendEntriesRequest :=
  Lib.Json.record fields ⟨0, [], 0, 0, [], 0⟩ v

def AppendEntriesResponse.toJson (resp : AppendEntriesResponse) : Value :=
  .object ([(ascii "term", .nat resp.term), (ascii "success", .bool resp.success),
    (ascii "follower_id", .string resp.followerID), (ascii "match_index", .nat resp.matchIndex)] ++
    (Lib.Json.omitZero (ascii "conflict_index") resp.conflictIndex ++
      Lib.Json.omitZero (ascii "conflict_term") resp.conflictTerm))

def AppendEntriesResponse.fields : List (RecordField AppendEntriesResponse) :=
  [⟨ascii "term", fun r v => (Lib.Json.uint64 r.term v).map fun n => { r with term := n }⟩,
   ⟨ascii "success", fun r v => (Lib.Json.truth r.success v).map fun b => { r with success := b }⟩,
   ⟨ascii "follower_id", fun r v =>
     (Lib.Json.text r.followerID v).map fun s => { r with followerID := s }⟩,
   ⟨ascii "match_index", fun r v =>
     (Lib.Json.uint64 r.matchIndex v).map fun n => { r with matchIndex := n }⟩,
   ⟨ascii "conflict_index", fun r v =>
     (Lib.Json.uint64 r.conflictIndex v).map fun n => { r with conflictIndex := n }⟩,
   ⟨ascii "conflict_term", fun r v =>
     (Lib.Json.uint64 r.conflictTerm v).map fun n => { r with conflictTerm := n }⟩]

def AppendEntriesResponse.ofJson (v : Value) : Option AppendEntriesResponse :=
  Lib.Json.record fields ⟨0, false, [], 0, 0, 0⟩ v

def RequestVoteRequest.toJson (req : RequestVoteRequest) : Value :=
  .object [(ascii "term", .nat req.term), (ascii "candidate_id", .string req.candidateID),
    (ascii "last_log_index", .nat req.lastLogIndex), (ascii "last_log_term", .nat req.lastLogTerm)]

def RequestVoteRequest.fields : List (RecordField RequestVoteRequest) :=
  [⟨ascii "term", fun r v => (Lib.Json.uint64 r.term v).map fun n => { r with term := n }⟩,
   ⟨ascii "candidate_id", fun r v =>
     (Lib.Json.text r.candidateID v).map fun s => { r with candidateID := s }⟩,
   ⟨ascii "last_log_index", fun r v =>
     (Lib.Json.uint64 r.lastLogIndex v).map fun n => { r with lastLogIndex := n }⟩,
   ⟨ascii "last_log_term", fun r v =>
     (Lib.Json.uint64 r.lastLogTerm v).map fun n => { r with lastLogTerm := n }⟩]

def RequestVoteRequest.ofJson (v : Value) : Option RequestVoteRequest :=
  Lib.Json.record fields ⟨0, [], 0, 0⟩ v

def RequestVoteResponse.toJson (resp : RequestVoteResponse) : Value :=
  .object [(ascii "term", .nat resp.term), (ascii "vote_granted", .bool resp.voteGranted),
    (ascii "voter_id", .string resp.voterID)]

def RequestVoteResponse.fields : List (RecordField RequestVoteResponse) :=
  [⟨ascii "term", fun r v => (Lib.Json.uint64 r.term v).map fun n => { r with term := n }⟩,
   ⟨ascii "vote_granted", fun r v =>
     (Lib.Json.truth r.voteGranted v).map fun b => { r with voteGranted := b }⟩,
   ⟨ascii "voter_id", fun r v => (Lib.Json.text r.voterID v).map fun s => { r with voterID := s }⟩]

def RequestVoteResponse.ofJson (v : Value) : Option RequestVoteResponse :=
  Lib.Json.record fields ⟨0, false, []⟩ v

def InstallSnapshotRequest.toJson (isNil : Bool) (req : InstallSnapshotRequest) : Value :=
  .object [(ascii "term", .nat req.term), (ascii "leader_id", .string req.leaderID),
    (ascii "last_included_index", .nat req.lastIncludedIndex),
    (ascii "last_included_term", .nat req.lastIncludedTerm),
    (ascii "data", if req.data = [] ∧ isNil then .null else .bytes req.data)]

def InstallSnapshotRequest.fields : List (RecordField InstallSnapshotRequest) :=
  [⟨ascii "term", fun r v => (Lib.Json.uint64 r.term v).map fun n => { r with term := n }⟩,
   ⟨ascii "leader_id", fun r v => (Lib.Json.text r.leaderID v).map fun s => { r with leaderID := s }⟩,
   ⟨ascii "last_included_index", fun r v =>
     (Lib.Json.uint64 r.lastIncludedIndex v).map fun n => { r with lastIncludedIndex := n }⟩,
   ⟨ascii "last_included_term", fun r v =>
     (Lib.Json.uint64 r.lastIncludedTerm v).map fun n => { r with lastIncludedTerm := n }⟩,
   ⟨ascii "data", fun r v => (Lib.Json.bytes v).map fun b => { r with data := b }⟩]

def InstallSnapshotRequest.ofJson (v : Value) : Option InstallSnapshotRequest :=
  Lib.Json.record fields ⟨0, [], 0, 0, []⟩ v

def InstallSnapshotResponse.toJson (resp : InstallSnapshotResponse) : Value :=
  .object [(ascii "term", .nat resp.term), (ascii "follower_id", .string resp.followerID),
    (ascii "success", .bool resp.success)]

def InstallSnapshotResponse.fields : List (RecordField InstallSnapshotResponse) :=
  [⟨ascii "term", fun r v => (Lib.Json.uint64 r.term v).map fun n => { r with term := n }⟩,
   ⟨ascii "follower_id", fun r v =>
     (Lib.Json.text r.followerID v).map fun s => { r with followerID := s }⟩,
   ⟨ascii "success", fun r v => (Lib.Json.truth r.success v).map fun b => { r with success := b }⟩]

def InstallSnapshotResponse.ofJson (v : Value) : Option InstallSnapshotResponse :=
  Lib.Json.record fields ⟨0, [], false⟩ v

/-! ## Snapshots -/

/-- What decoding into a variable of type `map[string][]byte` makes of a value: of members with one key the
last one counts. -/
def mapOfJson : Value → Decoded
  | .null => .null
  | .object ms =>
    match ms.foldlM (fun b m => (Lib.Json.bytes m.2).map fun v => b.put m.1 v) Lib.Bucket.empty with
    | none => .error
    | some b => .map b
  | _ => .error

/-- `encoding/json` on variables of type `map[string][]byte`. Keys are written in their order. -/
def mapJson : VarCodec where
  marshal
    | none => Lib.Json.print .null
    | some b => Lib.Json.print (.object (b.pairs.map fun p => (p.1, .bytes p.2)))
  unmarshal data :=
    match Lib.Json.unmarshal data with
    | none => .error
    | some v => mapOfJson v

end Raftrix
