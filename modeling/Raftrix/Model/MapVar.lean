import Raftrix.Model.Storage

/-!
# The engines call by call (`internal/storage`)

The field `data` of `MemoryEngine` is a variable of a Go map type, and such a variable may be nil. Reading
and deleting from a nil map is like reading and deleting from an empty one, a write panics, and
`json.Unmarshal` of the text `null` sets the variable to nil. `Model/Storage.lean` has the maps only; here
the variable is modelled (`MapVar`), and each call on it either panics or has an answer
(`MapVar.call`). `BoltEngine` decodes into a variable of its own and only ranges over it, which a nil map
allows, so its calls are those of `Model/Storage.lean` (`BoltEngine.call`).
-/

namespace Raftrix

/-- What `json.Unmarshal` makes of a text and a variable of type `map[string][]byte`. -/
inductive Decoded where
  /-- It returns an error. -/
  | error
  /-- The variable is nil. -/
  | null
  | map (b : Lib.Bucket Bytes Bytes)

/-- `encoding/json` on variables of type `map[string][]byte`. -/
structure VarCodec where
  /-- `none` is a nil map. -/
  marshal : Option (Lib.Bucket Bytes Bytes) → Bytes
  unmarshal : Bytes → Decoded

/-- The codec of the maps alone: a nil map has no pairs. -/
def VarCodec.maps (json : VarCodec) : MapCodec where
  marshal b := json.marshal (some b)
  unmarshal data :=
    match json.unmarshal data with
    | .error => none
    | .null => some .empty
    | .map b => some b

/-- A call on an engine. -/
inductive EngineCall where
  | get (key : Bytes)
  | put (key value : Bytes)
  | delete (key : Bytes)
  | scan (start : Bytes)
  | snapshot
  | restoreSnapshot (data : Bytes)
  deriving Repr, DecidableEq

/-- What it returns. -/
inductive Answer where
  | value (v : Except EngineError Bytes)
  | done (err : Option EngineError)
  | contents (m : StringMap)
  | text (data : Bytes)

/-- A variable of a Go map type: nil or a map. -/
abbrev MapVar := Option StringMap

namespace MapVar

/-- What reading the variable finds. -/
def entries (v : MapVar) : StringMap := v.getD ∅

/-- A call on `MemoryEngine`. `none` when it panics. -/
def call (json : VarCodec) (v : MapVar) : EngineCall → Option (MapVar × Answer)
  | .get key => some (v, .value (MemoryEngine.get v.entries key))
  | .put key value =>
    match v with
    -- assignment to entry in nil map
    | none => none
    | some m => some (some (m.insert key value), .done none)
  | .delete key => some (v.map (·.erase key), .done none)
  | .scan start => some (v, .contents (.collect start v.entries.pairs))
  | .snapshot => some (v, .text (json.marshal (v.map fun m => .ofPairs m.pairs)))
  | .restoreSnapshot data =>
    match json.unmarshal data with
    | .error => some (v, .done (some .invalidSnapshot))
    | .null => some (none, .done none)
    | .map b => some (some (.ofPairs b.pairs), .done none)

/-- On a map that is not nil the calls are those of `MemoryEngine` in `Model/Storage.lean`, up to the nil
map that a restored `null` leaves, which has the same entries. -/
theorem call_of_map (json : VarCodec) (m : StringMap) :
    let E := MemoryEngine.scanEngine json.maps
    (∀ key, call json (some m) (.get key) = some (some m, .value (E.get m key))) ∧
      (∀ key value, ∃ m', E.put m key value = .ok m' ∧
        call json (some m) (.put key value) = some (some m', .done none)) ∧
      (∀ key, ∃ m', E.delete m key = .ok m' ∧
        call json (some m) (.delete key) = some (some m', .done none)) ∧
      (∀ start, call json (some m) (.scan start) = some (some m, .contents (E.scan m start))) ∧
      (∃ data, E.snapshot m = .ok data ∧ call json (some m) .snapshot = some (some m, .text data)) ∧
      ∀ data, (∃ err, E.restoreSnapshot m data = .error err ∧
          call json (some m) (.restoreSnapshot data) = some (some m, .done (some err))) ∨
        ∃ m' v', E.restoreSnapshot m data = .ok m' ∧
          call json (some m) (.restoreSnapshot data) = some (v', .done none) ∧ v'.entries = m' := by
  refine ⟨fun _ => rfl, fun _ _ => ⟨_, rfl, rfl⟩, fun _ => ⟨_, rfl, rfl⟩, fun _ => rfl, ⟨_, rfl, rfl⟩,
    fun data => ?_⟩
  simp only [MemoryEngine.scanEngine, MemoryEngine.restoreSnapshot, VarCodec.maps, call]
  cases json.unmarshal data with
  | error => exact Or.inl ⟨_, rfl, rfl⟩
  | null => exact Or.inr ⟨_, _, rfl, rfl, rfl⟩
  | map b => exact Or.inr ⟨_, _, rfl, rfl, rfl⟩

end MapVar

/-- The end of a write transaction. -/
def BoltEngine.commit (written : Bool) (b : BoltEngine) :
    Except EngineError BoltEngine → BoltEngine × Answer
  | .error err => (b, .done (some err))
  | .ok b' => if written then (b', .done none) else (b, .done (some .disk))

/-- A call on `BoltEngine`, with the outcome of its transaction. -/
def BoltEngine.call (json : VarCodec) (b : BoltEngine) (written : Bool) :
    EngineCall → BoltEngine × Answer
  | .get key => (b, .value (get b key))
  | .put key value => commit written b (put b key value)
  | .delete key => commit written b (delete b key)
  | .scan start => (b, .contents (.collect start b.pairs))
  | .snapshot => (b, .text (json.maps.marshal b))
  | .restoreSnapshot data => commit written b (restoreSnapshot json.maps data)

end Raftrix
