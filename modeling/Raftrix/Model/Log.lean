import Mathlib.Data.Nat.Basic
import Raftrix.Lib.Bucket
import Raftrix.Model.Types

/-!
# The Raft log (`internal/consensus/log.go`)

`RaftLog` is one bolt file with two buckets and a cached snapshot boundary. The log bucket is an
ordered bucket keyed by index (the source's keys are the big-endian bytes of the index, whose byte
order is the numeric one); the two records of the meta bucket are the fields `meta` and `snapshot`.
Every function that writes is one bolt transaction. A transaction that fails changes nothing, and
its outcome is an argument: `none` is the returned error.

`Compact` writes the boundary record and leaves the cached `snapshotIndex` and `snapshotTerm` as
they were; only `newRaftLog` reads the record back.
-/

namespace Raftrix

/-- `RaftLog`: the bolt file and the cached snapshot boundary. -/
structure RaftLog where
  /-- The log bucket. -/
  log : Lib.Bucket Nat LogEntry
  /-- The record `state` of the meta bucket: term and vote. -/
  metaState : Option (Nat × NodeID)
  /-- The record `snapshot` of the meta bucket: index and term of the boundary. -/
  metaSnapshot : Option (Nat × Nat)
  snapshotIndex : Nat
  snapshotTerm : Nat

namespace RaftLog

/-- A file that was just created. -/
def fresh : RaftLog := ⟨.empty, none, none, 0, 0⟩

/-- `newRaftLog` on an existing file: the buckets as they are, the boundary from its record. -/
def newRaftLog (rl : RaftLog) : RaftLog :=
  match rl.metaSnapshot with
  | none => { rl with snapshotIndex := 0, snapshotTerm := 0 }
  | some (index, term) => { rl with snapshotIndex := index, snapshotTerm := term }

/-- `SaveMeta`. The record is JSON text, which does not keep an id that is not valid UTF-8. All callers
drop the error. -/
def saveMeta (ok : Bool) (rl : RaftLog) (term : Nat) (votedFor : NodeID) : RaftLog :=
  if ok then { rl with metaState := some (term, Lib.Utf8.coerceUtf8 votedFor) } else rl

/-- `LoadMeta`: zero values when nothing has been saved. -/
def loadMeta (rl : RaftLog) : Nat × NodeID := rl.metaState.getD (0, [])

/-- `Append`: one `Put` at the entry's own index. -/
def append (ok : Bool) (rl : RaftLog) (entry : LogEntry) : Option RaftLog :=
  if ok then some { rl with log := rl.log.put entry.index entry.stored } else none

/-- `AppendBatch`: one transaction with a `Put` for each entry, none for no entry. -/
def appendBatch (ok : Bool) (rl : RaftLog) (entries : List LogEntry) : Option RaftLog :=
  if entries = [] then some rl
  else if ok then
    some { rl with log := entries.foldl (fun log e => log.put e.index e.stored) rl.log }
  else none

/-- `Get`. -/
def get (rl : RaftLog) (index : Nat) : Option LogEntry := rl.log.get index

/-- The loop of `GetRange` over `n` indices from `i` on: it stops at the first missing one. -/
def getRangeFrom (rl : RaftLog) : Nat → Nat → List LogEntry
  | 0, _ => []
  | n + 1, i =>
    match rl.get i with
    | none => []
    | some e => e :: getRangeFrom rl n (i + 1)

/-- `GetRange(from, to)`, bounds inclusive. -/
def getRange (rl : RaftLog) (first last : Nat) : List LogEntry :=
  rl.getRangeFrom (last + 1 - first) first

/-- `TruncateFrom`: delete along the cursor from `Seek` on. -/
def truncateFrom (ok : Bool) (rl : RaftLog) (index : Nat) : Option RaftLog :=
  if ok then some { rl with log := rl.log.deleteAll (rl.log.seek index) } else none

/-- `LastIndex`: the last key, or the cached boundary when the bucket is empty. -/
def lastIndex (rl : RaftLog) : Nat :=
  match rl.log.last with
  | some (k, _) => k
  | none => rl.snapshotIndex

/-- `LastTerm`. -/
def lastTerm (rl : RaftLog) : Nat :=
  if rl.lastIndex = 0 then 0
  else if rl.lastIndex = rl.snapshotIndex then rl.snapshotTerm
  else
    match rl.get rl.lastIndex with
    | some e => e.term
    | none => rl.snapshotTerm

/-- `TermAt`: `0` for index `0` and for an index that is not stored. -/
def termAt (rl : RaftLog) (index : Nat) : Nat :=
  if index = 0 then 0
  else if index = rl.snapshotIndex then rl.snapshotTerm
  else
    match rl.get index with
    | some e => e.term
    | none => 0

/-- `Compact`: delete up to the new boundary and write its record. -/
def compact (ok : Bool) (rl : RaftLog) (index : Nat) (term : Nat) : Option RaftLog :=
  if ok then
    some { rl with
      log := rl.log.deleteAll (rl.log.upTo index), metaSnapshot := some (index, term) }
  else none

end RaftLog

end Raftrix
