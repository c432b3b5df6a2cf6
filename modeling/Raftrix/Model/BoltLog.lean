import Raftrix.Model.Log
import Raftrix.Model.LogFile
import Raftrix.Model.Wire

/-!
# The log file, byte by byte (`internal/consensus/log.go`)

`BoltLog` is the `RaftLog` of the source with the bytes it really writes: in the log bucket the JSON of an
entry under the eight bytes of its index, in the meta bucket two JSON records. Reading decodes; where the
source returns the error of `json.Unmarshal`, so do the functions here. The loops of `TruncateFrom` and
`Compact` go along a cursor while the bucket changes under it.

`FileCall` has every function of the log as one call with an answer, and `RaftLog.call` and `BoltLog.call`
run a call on the log of `Model/Log.lean` and on the bytes.
-/

namespace Raftrix

open Lib.Json (Value RecordField ascii)

/-- The errors of reading an entry. -/
inductive LogError where
  /-- `ErrLogEntryNotFound`. -/
  | notFound
  /-- The error of `json.Unmarshal`. -/
  | invalid
  deriving Repr, DecidableEq

/-! ## The records of the meta bucket -/

/-- The JSON of the record `state`. -/
def stateJson (term : Nat) (votedFor : NodeID) : Value :=
  .object [(ascii "term", .nat term), (ascii "voted_for", .string votedFor)]

def stateFields : List (RecordField (Nat × NodeID)) :=
  [⟨ascii "term", fun s v => (Lib.Json.uint64 s.1 v).map fun n => (n, s.2)⟩,
   ⟨ascii "voted_for", fun s v => (Lib.Json.text s.2 v).map fun id => (s.1, id)⟩]

/-- The JSON of the record `snapshot`. -/
def snapshotJson (index term : Nat) : Value :=
  .object [(ascii "index", .nat index), (ascii "term", .nat term)]

def snapshotFields : List (RecordField (Nat × Nat)) :=
  [⟨ascii "index", fun s v => (Lib.Json.uint64 s.1 v).map fun n => (n, s.2)⟩,
   ⟨ascii "term", fun s v => (Lib.Json.uint64 s.2 v).map fun n => (s.1, n)⟩]

/-- The key `metaKey`. -/
def metaKey : Bytes := ascii "state"

/-- The key of the record `snapshot`. -/
def snapshotKey : Bytes := ascii "snapshot"

/-- `json.Unmarshal` into a `LogEntry`. -/
def readEntry (data : Bytes) : Option LogEntry := (Lib.Json.unmarshal data).bind LogEntry.ofJson

/-- `json.Unmarshal` into the record `state`. -/
def readState (data : Bytes) : Option (Nat × NodeID) :=
  (Lib.Json.unmarshal data).bind (Lib.Json.record stateFields (0, []))

/-- `json.Unmarshal` into the record `snapshot`. -/
def readSnapshot (data : Bytes) : Option (Nat × Nat) :=
  (Lib.Json.unmarshal data).bind (Lib.Json.record snapshotFields (0, 0))

/-! ## The log -/

/-- `RaftLog`: the two buckets of the bolt file and the cached snapshot boundary. -/
structure BoltLog where
  logBucket : Lib.Bucket Bytes Bytes
  metaBucket : Lib.Bucket Bytes Bytes
  snapshotIndex : Nat
  snapshotTerm : Nat

namespace BoltLog

/-- A file that was just created. -/
def fresh : BoltLog := ⟨.empty, .empty, 0, 0⟩

/-- `newRaftLog` on an existing file: a boundary record that cannot be read is passed over. -/
def newRaftLog (rl : BoltLog) : BoltLog :=
  match (rl.metaBucket.get snapshotKey).bind readSnapshot with
  | none => { rl with snapshotIndex := 0, snapshotTerm := 0 }
  | some (index, term) => { rl with snapshotIndex := index, snapshotTerm := term }

/-- `SaveMeta`. -/
def saveMeta (ok : Bool) (rl : BoltLog) (term : Nat) (votedFor : NodeID) : BoltLog :=
  if ok then
    { rl with metaBucket := rl.metaBucket.put metaKey (Lib.Json.print (stateJson term votedFor)) }
  else rl

/-- `LoadMeta`. -/
def loadMeta (rl : BoltLog) : Option (Nat × NodeID) :=
  match rl.metaBucket.get metaKey with
  | none => some (0, [])
  | some data => readState data

/-- `Append`. -/
def append (ok : Bool) (rl : BoltLog) (entry : LogEntry) : Option BoltLog :=
  if ok then
    some { rl with logBucket := rl.logBucket.put (indexKey entry.index) (Lib.Json.print entry.toJson) }
  else none

/-- `AppendBatch`. -/
def appendBatch (ok : Bool) (rl : BoltLog) (entries : List LogEntry) : Option BoltLog :=
  if entries = [] then some rl
  else if ok then
    some { rl with
      logBucket := entries.foldl (fun b e => b.put (indexKey e.index) (Lib.Json.print e.toJson))
        rl.logBucket }
  else none

/-- `Get`. -/
def get (rl : BoltLog) (index : Nat) : Except LogError LogEntry :=
  match rl.logBucket.get (indexKey index) with
  | none => .error .notFound
  | some data =>
    match readEntry data with
    | none => .error .invalid
    | some e => .ok e

/-- The loop of `GetRange` over `n` indices from `i` on. -/
def getRangeFrom (rl : BoltLog) : Nat → Nat → Except LogError (List LogEntry)
  | 0, _ => .ok []
  | n + 1, i =>
    match rl.get i with
    | .error .notFound => .ok []
    | .error .invalid => .error .invalid
    | .ok e =>
      match rl.getRangeFrom n (i + 1) with
      | .error err => .error err
      | .ok es => .ok (e :: es)

/-- `GetRange(from, to)`, bounds inclusive. -/
def getRange (rl : BoltLog) (first last : Nat) : Except LogError (List LogEntry) :=
  rl.getRangeFrom (last + 1 - first) first

/-- `TruncateFrom`. -/
def truncateFrom (ok : Bool) (rl : BoltLog) (index : Nat) : Option BoltLog :=
  if ok then
    some { rl with
      logBucket := (Lib.Bucket.deleteWhile (fun _ => true) rl.logBucket.pairs.length rl.logBucket
        (rl.logBucket.seekFirst (indexKey index))).2 }
  else none

/-- `LastIndex`. -/
def lastIndex (rl : BoltLog) : Nat :=
  match rl.logBucket.last with
  | some (k, _) => bytesToIndex k
  | none => rl.snapshotIndex

/-- `LastTerm`. -/
def lastTerm (rl : BoltLog) : Nat :=
  if rl.lastIndex = 0 then 0
  else if rl.lastIndex = rl.snapshotIndex then rl.snapshotTerm
  else
    match rl.get rl.lastIndex with
    | .ok e => e.term
    | .error _ => rl.snapshotTerm

/-- `TermAt`. -/
def termAt (rl : BoltLog) (index : Nat) : Nat :=
  if index = 0 then 0
  else if index = rl.snapshotIndex then rl.snapshotTerm
  else
    match rl.get index with
    | .ok e => e.term
    | .error _ => 0

/-- `Compact`. -/
def compact (ok : Bool) (rl : BoltLog) (index term : Nat) : Option BoltLog :=
  if ok then
    some { rl with
      logBucket := (Lib.Bucket.deleteWhile (fun k => bytesToIndex k ≤ index) rl.logBucket.pairs.length
        rl.logBucket rl.logBucket.first).2
      metaBucket := rl.metaBucket.put snapshotKey (Lib.Json.print (snapshotJson index term)) }
  else none

end BoltLog

/-! ## Calls -/

/-- A call on the log. The last one ends the process; the next one opens the file. -/
inductive FileCall where
  | append (entry : LogEntry)
  | appendBatch (entries : List LogEntry)
  | truncateFrom (index : Nat)
  | compact (index term : Nat)
  | saveMeta (term : Nat) (votedFor : NodeID)
  | loadMeta
  | get (index : Nat)
  | getRange (first last : Nat)
  | lastIndex
  | lastTerm
  | termAt (index : Nat)
  | reopen
  deriving DecidableEq

/-- What it returns. -/
inductive FileAnswer where
  | nothing
  /-- The error of a write. -/
  | failed
  | state (r : Option (Nat × NodeID))
  | entry (r : Except LogError LogEntry)
  | entries (r : Except LogError (List LogEntry))
  | number (n : Nat)
  deriving DecidableEq

/-- A write that leaves the log as it was on an error. -/
def FileAnswer.ofWrite {τ : Type} (rl : τ) : Option τ → τ × FileAnswer
  | none => (rl, .failed)
  | some rl' => (rl', .nothing)

/-- What `Get` returns of a stored entry, or of none. -/
def FileAnswer.ofGet : Option LogEntry → Except LogError LogEntry
  | none => .error .notFound
  | some e => .ok e

/-- A call on the log of `Model/Log.lean`; `written` is the outcome of its transaction. -/
def RaftLog.call (rl : RaftLog) : FileCall × Bool → RaftLog × FileAnswer
  | (.append entry, written) => FileAnswer.ofWrite rl (rl.append written entry)
  | (.appendBatch entries, written) => FileAnswer.ofWrite rl (rl.appendBatch written entries)
  | (.truncateFrom index, written) => FileAnswer.ofWrite rl (rl.truncateFrom written index)
  | (.compact index term, written) => FileAnswer.ofWrite rl (rl.compact written index term)
  | (.saveMeta term votedFor, written) =>
    (rl.saveMeta written term votedFor, if written then .nothing else .failed)
  | (.loadMeta, _) => (rl, .state (some rl.loadMeta))
  | (.get index, _) => (rl, .entry (FileAnswer.ofGet (rl.get index)))
  | (.getRange first last, _) => (rl, .entries (.ok (rl.getRange first last)))
  | (.lastIndex, _) => (rl, .number rl.lastIndex)
  | (.lastTerm, _) => (rl, .number rl.lastTerm)
  | (.termAt index, _) => (rl, .number (rl.termAt index))
  | (.reopen, _) => (rl.newRaftLog, .nothing)

/-- A call on the bytes. -/
def BoltLog.call (rl : BoltLog) : FileCall × Bool → BoltLog × FileAnswer
  | (.append entry, written) => FileAnswer.ofWrite rl (rl.append written entry)
  | (.appendBatch entries, written) => FileAnswer.ofWrite rl (rl.appendBatch written entries)
  | (.truncateFrom index, written) => FileAnswer.ofWrite rl (rl.truncateFrom written index)
  | (.compact index term, written) => FileAnswer.ofWrite rl (rl.compact written index term)
  | (.saveMeta term votedFor, written) =>
    (rl.saveMeta written term votedFor, if written then .nothing else .failed)
  | (.loadMeta, _) => (rl, .state rl.loadMeta)
  | (.get index, _) => (rl, .entry (rl.get index))
  | (.getRange first last, _) => (rl, .entries (rl.getRange first last))
  | (.lastIndex, _) => (rl, .number rl.lastIndex)
  | (.lastTerm, _) => (rl, .number rl.lastTerm)
  | (.termAt index, _) => (rl, .number (rl.termAt index))
  | (.reopen, _) => (rl.newRaftLog, .nothing)

end Raftrix
