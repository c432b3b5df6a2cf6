import Raftrix.Lib.BigEndian
import Raftrix.Lib.Cursor
import Raftrix.Model.Types

/-!
# The log file, key by key (`internal/consensus/log.go`)

`LogFile` is the `RaftLog` of the source with the keys it really uses: the log bucket is ordered by byte
strings, and an entry is kept under the eight big-endian bytes of its index. All functions are those of
`Model/Log.lean` with `indexKey` and `bytesToIndex` where the source has them.
-/

namespace Raftrix

/-- `indexKey`. -/
def indexKey (index : Nat) : Bytes := Lib.BigEndian.encode 8 index

/-- `bytesToIndex`, for the eight bytes of a key. -/
def bytesToIndex (key : Bytes) : Nat := Lib.BigEndian.decode key

/-- `RaftLog`: the bolt file and the cached snapshot boundary. -/
structure LogFile where
  /-- The log bucket. -/
  log : Lib.Bucket Bytes LogEntry
  /-- The record `state` of the meta bucket. -/
  metaState : Option (Nat × NodeID)
  /-- The record `snapshot` of the meta bucket. -/
  metaSnapshot : Option (Nat × Nat)
  snapshotIndex : Nat
  snapshotTerm : Nat

namespace LogFile

/-- `newRaftLog` on an existing file. -/
def newRaftLog (rl : LogFile) : LogFile :=
  match rl.metaSnapshot with
  | none => { rl with snapshotIndex := 0, snapshotTerm := 0 }
  | some (index, term) => { rl with snapshotIndex := index, snapshotTerm := term }

/-- `Append`. -/
def append (ok : Bool) (rl : LogFile) (entry : LogEntry) : Option LogFile :=
  if ok then some { rl with log := rl.log.put (indexKey entry.index) entry.stored } else none

/-- `AppendBatch`. -/
def appendBatch (ok : Bool) (rl : LogFile) (entries : List LogEntry) : Option LogFile :=
  if entries = [] then some rl
  else if ok then
    some { rl with log := entries.foldl (fun log e => log.put (indexKey e.index) e.stored) rl.log }
  else none

/-- `Get`. -/
def get (rl : LogFile) (index : Nat) : Option LogEntry := rl.log.get (indexKey index)

/-- The loop of `GetRange` over `n` indices from `i` on. -/
def getRangeFrom (rl : LogFile) : Nat → Nat → List LogEntry
  | 0, _ => []
  | n + 1, i =>
    match rl.get i with
    | none => []
    | some e => e :: getRangeFrom rl n (i + 1)

/-- `GetRange(from, to)`, bounds inclusive. -/
def getRange (rl : LogFile) (first last : Nat) : List LogEntry :=
  rl.getRangeFrom (last + 1 - first) first

/-- `TruncateFrom`: delete along the cursor from `Seek(indexKey(from))` on. -/
def truncateFrom (ok : Bool) (rl : LogFile) (index : Nat) : Option LogFile :=
  if ok then some { rl with log := rl.log.deleteAll (rl.log.seek (indexKey index)) } else none

/-- The loop of `TruncateFrom`, round by round: the pairs it deletes and the bucket it leaves. -/
def truncateLoop (rl : LogFile) (index : Nat) :
    List (Bytes × LogEntry) × Lib.Bucket Bytes LogEntry :=
  Lib.Bucket.deleteWhile (fun _ => true) rl.log.pairs.length rl.log (rl.log.seekFirst (indexKey index))

/-- `LastIndex`. -/
def lastIndex (rl : LogFile) : Nat :=
  match rl.log.last with
  | some (k, _) => bytesToIndex k
  | none => rl.snapshotIndex

/-- `LastTerm`. -/
def lastTerm (rl : LogFile) : Nat :=
  if rl.lastIndex = 0 then 0
  else if rl.lastIndex = rl.snapshotIndex then rl.snapshotTerm
  else
    match rl.get rl.lastIndex with
    | some e => e.term
    | none => rl.snapshotTerm

/-- `TermAt`. -/
def termAt (rl : LogFile) (index : Nat) : Nat :=
  if index = 0 then 0
  else if index = rl.snapshotIndex then rl.snapshotTerm
  else
    match rl.get index with
    | some e => e.term
    | none => 0

/-- `Compact`: the loop reads the index back from each key and stops at the first one beyond. -/
def compact (ok : Bool) (rl : LogFile) (index : Nat) (term : Nat) : Option LogFile :=
  if ok then
    some { rl with
      log := rl.log.deleteAll (rl.log.pairs.takeWhile fun p => bytesToIndex p.1 ≤ index)
      metaSnapshot := some (index, term) }
  else none

/-- The loop of `Compact`, round by round. -/
def compactLoop (rl : LogFile) (index : Nat) :
    List (Bytes × LogEntry) × Lib.Bucket Bytes LogEntry :=
  Lib.Bucket.deleteWhile (fun k => bytesToIndex k ≤ index) rl.log.pairs.length rl.log rl.log.first

end LogFile

end Raftrix
