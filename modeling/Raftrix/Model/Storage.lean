import Mathlib.Data.List.AList
import Raftrix.Lib.Bucket
import Raftrix.Model.Types

/-!
# The state machine (`internal/storage`, `applyCommand`)

`Engine` is the Go interface as the consensus package uses it, over an arbitrary type of store
contents; `reopen` is what a new process finds (the same contents for a file, nothing for a map in
memory). `applyCommand` is generic in it. `BoltEngine` is the file-backed implementation: one
ordered bucket, with bbolt's own checks on keys and values in `Put`. `MemoryEngine` is the Go map.
`Scan`, which only the API calls, is added in `ScanEngine`.

Every write is one transaction whose outcome is an argument, as in `Model/Log.lean`.
-/

namespace Raftrix

/-- The errors an engine returns. -/
inductive EngineError where
  /-- `storage.ErrKeyNotFound`. -/
  | keyNotFound
  /-- `bolt.ErrKeyRequired`. -/
  | keyRequired
  /-- `bolt.ErrKeyTooLarge`. -/
  | keyTooLarge
  /-- `bolt.ErrValueTooLarge`. -/
  | valueTooLarge
  /-- The snapshot bytes are not the JSON of a key-value map. -/
  | invalidSnapshot
  /-- The transaction failed. -/
  | disk
  deriving Repr, DecidableEq

/-- `storage.Engine`, the part the consensus package calls, over store contents `σ`. -/
structure Engine (σ : Type) where
  get : σ → Bytes → Except EngineError Bytes
  put : σ → Bytes → Bytes → Except EngineError σ
  delete : σ → Bytes → Except EngineError σ
  snapshot : σ → Except EngineError Bytes
  restoreSnapshot : σ → Bytes → Except EngineError σ
  /-- What the next process opens. -/
  reopen : σ → σ

/-- The errors of `applyCommand`. -/
inductive ApplyError where
  | engine (err : EngineError)
  /-- `CAS failed: value mismatch`. -/
  | casMismatch
  /-- `unknown op: ...`. -/
  | unknownOp (op : Bytes)
  deriving Repr, DecidableEq

variable {σ : Type}

/-- A write transaction: on an error the contents stay as they were. -/
def commitWrite (ok : Bool) (store : σ) (write : Except EngineError σ) : σ × Option ApplyError :=
  match write with
  | .error err => (store, some (.engine err))
  | .ok store' => if ok then (store', none) else (store, some (.engine .disk))

/-- `applyCommand`: the contents after the command, and the error it returns. -/
def applyCommand (E : Engine σ) (ok : Bool) (store : σ) (cmd : Command) : σ × Option ApplyError :=
  match cmd.op with
  | .noop => (store, none)
  | .put => commitWrite ok store (E.put store cmd.key cmd.value)
  | .delete => commitWrite ok store (E.delete store cmd.key)
  | .cas =>
    -- an absent key counts as the empty value
    match E.get store cmd.key with
    | .error .keyNotFound =>
      if [] = cmd.prevValue then commitWrite ok store (E.put store cmd.key cmd.value)
      else (store, some .casMismatch)
    | .error err => (store, some (.engine err))
    | .ok existing =>
      if existing = cmd.prevValue then commitWrite ok store (E.put store cmd.key cmd.value)
      else (store, some .casMismatch)
  | .other op => (store, some (.unknownOp op))

/-! ## The file-backed engine -/

/-- `BoltEngine`: its bucket `kv`. -/
abbrev BoltEngine := Lib.Bucket Bytes Bytes

/-- `encoding/json` on maps from strings to byte slices. -/
structure MapCodec where
  marshal : Lib.Bucket Bytes Bytes → Bytes
  unmarshal : Bytes → Option (Lib.Bucket Bytes Bytes)

namespace BoltEngine

/-- `bolt.MaxKeySize`. -/
def maxKeySize : Nat := 32768

/-- `bolt.MaxValueSize`. -/
def maxValueSize : Nat := 2147483646

/-- `BoltEngine.Get`. -/
def get (b : BoltEngine) (key : Bytes) : Except EngineError Bytes :=
  match Lib.Bucket.get b key with
  | none => .error .keyNotFound
  | some value => .ok value

/-- `BoltEngine.Put`. -/
def put (b : BoltEngine) (key value : Bytes) : Except EngineError BoltEngine :=
  if key = [] then .error .keyRequired
  else if maxKeySize < key.length then .error .keyTooLarge
  else if maxValueSize < value.length then .error .valueTooLarge
  else .ok (Lib.Bucket.put b key value)

/-- `BoltEngine.Delete`: a no-op on an absent key. -/
def delete (b : BoltEngine) (key : Bytes) : Except EngineError BoltEngine :=
  .ok (Lib.Bucket.delete b key)

/-- `BoltEngine.RestoreSnapshot`: a fresh bucket filled pair by pair, all in one transaction. -/
def restoreSnapshot (json : MapCodec) (data : Bytes) : Except EngineError BoltEngine :=
  match json.unmarshal data with
  | none => .error .invalidSnapshot
  | some m => m.pairs.foldlM (fun b p => put b p.1 p.2) Lib.Bucket.empty

/-- `BoltEngine` as an engine. The file survives the process. -/
def engine (json : MapCodec) : Engine BoltEngine where
  get := get
  put := put
  delete := delete
  snapshot b := .ok (json.marshal b)
  restoreSnapshot _ data := restoreSnapshot json data
  reopen b := b

end BoltEngine

/-! ## The engine in memory -/

/-- A Go map from strings to byte slices. -/
abbrev StringMap := AList (fun _ : Bytes => Bytes)

namespace StringMap

/-- What `range` visits, in one of its orders. -/
def pairs (m : StringMap) : List (Bytes × Bytes) := m.entries.map fun p => (p.1, p.2)

/-- The map filled pair by pair. -/
def ofPairs (l : List (Bytes × Bytes)) : StringMap := l.foldl (fun m p => m.insert p.1 p.2) ∅

/-- The loop of `Scan`: collect the pairs whose key starts with `start`. -/
def collect (start : Bytes) (l : List (Bytes × Bytes)) : StringMap :=
  ofPairs (l.filter fun p => start.isPrefixOf p.1)

end StringMap

/-- `storage.Engine` with `Scan`. -/
structure ScanEngine (σ : Type) extends Engine σ where
  scan : σ → Bytes → StringMap

/-- `BoltEngine` with `Scan`. -/
def BoltEngine.scanEngine (json : MapCodec) : ScanEngine BoltEngine where
  toEngine := engine json
  scan b start := .collect start b.pairs

/-- `MemoryEngine`: its map `data`. -/
abbrev MemoryEngine := StringMap

namespace MemoryEngine

/-- `MemoryEngine.Get`. -/
def get (m : MemoryEngine) (key : Bytes) : Except EngineError Bytes :=
  match m.lookup key with
  | none => .error .keyNotFound
  | some value => .ok value

/-- `MemoryEngine.Put`. -/
def put (m : MemoryEngine) (key value : Bytes) : Except EngineError MemoryEngine :=
  .ok (m.insert key value)

/-- `MemoryEngine.Delete`. -/
def delete (m : MemoryEngine) (key : Bytes) : Except EngineError MemoryEngine := .ok (m.erase key)

/-- `MemoryEngine.Snapshot`: `encoding/json` writes a map in the order of its keys. -/
def snapshot (json : MapCodec) (m : MemoryEngine) : Except EngineError Bytes :=
  .ok (json.marshal (.ofPairs m.pairs))

/-- `MemoryEngine.RestoreSnapshot`. -/
def restoreSnapshot (json : MapCodec) (data : Bytes) : Except EngineError MemoryEngine :=
  match json.unmarshal data with
  | none => .error .invalidSnapshot
  | some b => .ok (.ofPairs b.pairs)

/-- `MemoryEngine` as an engine. A new process finds nothing. -/
def scanEngine (json : MapCodec) : ScanEngine MemoryEngine where
  get := get
  put := put
  delete := delete
  snapshot := snapshot json
  restoreSnapshot _ data := restoreSnapshot json data
  reopen _ := ∅
  scan m start := .collect start m.pairs

end MemoryEngine

end Raftrix
