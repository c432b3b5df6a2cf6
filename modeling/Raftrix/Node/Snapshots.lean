import Raftrix.Model.Wire
import Raftrix.Node.MapStore

/-!
# Snapshots of a store

`Snapshot` writes the whole store as JSON and `RestoreSnapshot` replaces the whole store by what the text
holds. On a store that commands with valid UTF-8 keys have filled, the two are exact
(**`snapshot_exact`**): restored on any other state of the engine, the snapshot leaves one that answers
`Get`, `Scan` and all commands to come as the original does (`Restored`).

The invariant is `Sound`: every key is valid UTF-8, so that the text of the map reads back, and every
pair is one the engine accepts, so that the pairs can be written again. Commands keep it
(`sound_run`, `sound_after`).
-/

namespace Raftrix

/-- `encoding/json` reads back the map it has written, if the keys are valid UTF-8. -/
def MapCodec.RoundTrips (json : MapCodec) : Prop :=
  ∀ b : Lib.Bucket Bytes Bytes, (∀ p ∈ b.pairs, Lib.Utf8.coerceUtf8 p.1 = p.1) →
    json.unmarshal (json.marshal b) = some b

/-- The members of the object that a map is written as are put back one after another. -/
theorem foldlM_members (ps : List (Bytes × Bytes)) (b : Lib.Bucket Bytes Bytes) :
    (ps.map fun p => (p.1, Lib.Json.Value.bytes p.2)).foldlM
      (fun b m => (Lib.Json.bytes m.2).map fun v => b.put m.1 v) b =
        some (ps.foldl (fun b p => b.put p.1 p.2) b) := by
  induction ps generalizing b with
  | nil => rfl
  | cons p ps ih =>
    rw [List.map_cons, List.foldlM_cons, Lib.Json.map_bytes]
    exact ih (b.put p.1 p.2)

/-- **The maps of the stores are read back.** -/
theorem mapJson_roundTrips : mapJson.maps.RoundTrips := by
  intro b hkeys
  have hmembers : (Lib.Json.Value.object (b.pairs.map fun p => (p.1, .bytes p.2))).coerce =
      .object (b.pairs.map fun p => (p.1, .bytes p.2)) := by
    rw [Lib.Json.coerce_object, List.map_map]
    refine congrArg _ (List.map_congr_left fun p hp => ?_)
    rw [Function.comp_apply, hkeys p hp, Lib.Json.coerce_bytes]
  have hread : mapJson.unmarshal (mapJson.marshal (some b)) = .map b := by
    unfold mapJson
    dsimp only
    rw [Lib.Json.unmarshal_print, hmembers]
    dsimp only [mapOfJson]
    rw [foldlM_members]
    exact congrArg Decoded.map (Lib.Bucket.ofPairs_pairs b)
  unfold VarCodec.maps
  dsimp only
  rw [hread]

/-- The state answers as the other one does, now and after any commands. -/
structure Restored {σ : Type} (E : ScanEngine σ) (s r : σ) : Prop where
  get : ∀ key, E.get r key = E.get s key
  scan : ∀ start key, (E.scan r start).lookup key = (E.scan s start).lookup key
  outcomes : ∀ cmds, Lib.observe E.run r cmds = Lib.observe E.run s cmds

/-- Two states with one contents. -/
theorem MapEngine.restored {σ : Type} {E : ScanEngine σ} (L : MapEngine E) {s r : σ}
    (h : L.contents r = L.contents s) : Restored E s r where
  get key := by rw [L.get_eq, L.get_eq, h]
  scan start key := by rw [L.scan_eq, L.scan_eq, h]
  outcomes cmds := L.observe_eq h cmds

namespace StorageType

variable {json : MapCodec} {t : StorageType}

/-- The states reached from a new engine by commands with valid UTF-8 keys. -/
def Reached (json : MapCodec) (t : StorageType) (s : t.State) : Prop :=
  ∃ cmds : List (Command × Bool), (∀ c ∈ cmds, Lib.Utf8.coerceUtf8 c.1.key = c.1.key) ∧
    s = (t.engine json).after t.empty cmds

/-- Every key is valid UTF-8, and every pair is one the engine accepts. -/
def Sound (json : MapCodec) (t : StorageType) (s : t.State) : Prop :=
  ∀ key value, (t.mapEngine json).contents s key = some value →
    Lib.Utf8.coerceUtf8 key = key ∧ t.Accepts key value

theorem sound_empty : ∀ t : StorageType, t.Sound json t.empty
  | memory => fun _ _ h => by cases h
  | persistent => fun _ _ h => by cases h

theorem sound_run {s : t.State} {c : Command × Bool} (hs : t.Sound json s)
    (hkey : Lib.Utf8.coerceUtf8 c.1.key = c.1.key) : t.Sound json ((t.engine json).run s c).1 := by
  have hends := (t.mapEngine json).ends s c
  unfold Sound
  generalize (t.mapEngine json).contents ((t.engine json).run s c).1 = after,
    ((t.engine json).run s c).2 = result at hends ⊢
  cases hends with
  | idle _ => exact hs
  | stored _ _ hok _ =>
    intro key value h
    by_cases hk : key = c.1.key
    · subst hk
      rw [Function.update_self] at h
      cases h
      exact ⟨hkey, refusal_eq_none.mp hok⟩
    · rw [Function.update_of_ne hk] at h
      exact hs key value h
  | deleted _ _ =>
    intro key value h
    by_cases hk : key = c.1.key
    · subst hk
      rw [Function.update_self] at h
      cases h
    · rw [Function.update_of_ne hk] at h
      exact hs key value h
  | failed _ => exact hs

theorem sound_after {cmds : List (Command × Bool)}
    (hkeys : ∀ c ∈ cmds, Lib.Utf8.coerceUtf8 c.1.key = c.1.key) {s : t.State} (hs : t.Sound json s) :
    t.Sound json ((t.engine json).after s cmds) := by
  induction cmds generalizing s with
  | nil => exact hs
  | cons c rest ih =>
    obtain ⟨hkey, hrest⟩ := List.forall_mem_cons.mp hkeys
    exact ih hrest (sound_run hs hkey)

theorem Reached.sound {s : t.State} (h : t.Reached json s) : t.Sound json s := by
  obtain ⟨cmds, hkeys, rfl⟩ := h
  exact sound_after hkeys (sound_empty t)

/-- The snapshot of a sound state is restored to its contents. -/
theorem restore_snapshot (hjson : json.RoundTrips) : ∀ {t : StorageType} {s : t.State},
    t.Sound json s → ∀ other : t.State, ∃ data r, (t.engine json).snapshot s = .ok data ∧
      (t.engine json).restoreSnapshot other data = .ok r ∧
      (t.mapEngine json).contents r = (t.mapEngine json).contents s
  | memory, m, hs, _ => by
    have hget : ∀ key value, Lib.Bucket.get (Lib.Bucket.ofPairs (StringMap.pairs m)) key = some value ↔
        AList.lookup key m = some value := by
      intro key value
      rw [Lib.Bucket.get_ofPairs (StringMap.nodup_keys m), StringMap.mem_pairs]
    have htext := hjson (Lib.Bucket.ofPairs (StringMap.pairs m)) fun p hp =>
      (hs p.1 p.2 ((hget p.1 p.2).mp (Lib.Bucket.get_eq_some_iff.mpr hp))).1
    refine ⟨_, StringMap.ofPairs (Lib.Bucket.ofPairs (StringMap.pairs m)).pairs, rfl, ?_, ?_⟩
    · change MemoryEngine.restoreSnapshot json _ = _
      rw [MemoryEngine.restoreSnapshot, htext]
    · funext key
      change (StringMap.ofPairs _).lookup key = AList.lookup key m
      rw [lookup_ofPairs_pairs]
      ext value
      exact hget key value
  | persistent, b, hs, _ => by
    have hpairs : ∀ p ∈ b.pairs, Lib.Utf8.coerceUtf8 p.1 = p.1 ∧ Writable p.1 p.2 := fun p hp =>
      hs p.1 p.2 (Lib.Bucket.get_eq_some_iff.mpr hp)
    refine ⟨_, b, rfl, ?_, rfl⟩
    change BoltEngine.restoreSnapshot json (json.marshal b) = _
    rw [BoltEngine.restoreSnapshot, hjson b fun p hp => (hpairs p hp).1]
    change List.foldlM _ _ _ = _
    rw [BoltEngine.foldlM_put fun p hp => (hpairs p hp).2]
    exact congrArg Except.ok (Lib.Bucket.ofPairs_pairs b)

/-- **Snapshot and restore are exact.** For either engine, every state reached by commands with valid
UTF-8 keys, and every other state it is restored on. -/
theorem snapshot_exact (hjson : json.RoundTrips) {s : t.State} (hs : t.Reached json s)
    (other : t.State) :
    ∃ data r, (t.engine json).snapshot s = .ok data ∧
      (t.engine json).restoreSnapshot other data = .ok r ∧ Restored (t.engine json) s r := by
  obtain ⟨data, r, hdata, hr, heq⟩ := restore_snapshot hjson hs.sound other
  exact ⟨data, r, hdata, hr, (t.mapEngine json).restored heq⟩

/-- A store with the pairs `"k"`, `""` and `"é"`, `0xFF`; the second key is not ASCII. -/
def withPairs (t : StorageType) : t.State :=
  (t.engine Shipped.json).after t.empty
    [(⟨.put, [107], [], []⟩, true), (⟨.put, [0xC3, 0xA9], [0xFF], []⟩, true)]

/-- Restored on a store that has the first of the keys with another value, and another key. -/
theorem snapshot_exact_withPairs :
    let E := persistent.engine Shipped.json
    let other := E.after persistent.empty
      [(⟨.put, [107], [1], []⟩, true), (⟨.put, [108], [2], []⟩, true)]
    ∃ data r, E.snapshot persistent.withPairs = .ok data ∧ E.restoreSnapshot other data = .ok r ∧
      Restored E persistent.withPairs r :=
  snapshot_exact mapJson_roundTrips ⟨_, by decide, rfl⟩ _

end StorageType

end Raftrix
