import Raftrix.Cluster.Shipped
import Raftrix.Lib.Simulation
import Raftrix.Node.Replay

/-!
# The two engines side by side

A node may run on the Go map of `MemoryEngine` or on the file of `BoltEngine`. `StoreOp` is what a store
is asked to do: commands through `applyCommand`, `Get`, `Scan`, `Snapshot`, and `RestoreSnapshot` of a
snapshot the engine made itself. Both engines run the same operations (`StoreOp.run`), and the two
contents correspond as long as they answer every lookup alike (`Alike`).

`Put` of the map never fails; that of the file does for keys and values bbolt does not accept. So the
engines are interchangeable on exactly the sequences in which no such pair is ever to be written
(**`engines_alike_iff`**): not by a PUT, not by a CAS whose comparison succeeds, and not by the restoring
of a snapshot, where a key may have grown by the replacement of bytes that are not UTF-8.
-/

namespace Raftrix

/-! ## Go maps -/

namespace StringMap

variable {l : List (Bytes × Bytes)} {k v : Bytes}

/-- A map filled with distinct keys has exactly their pairs. -/
theorem lookup_ofPairs (hl : (l.map Prod.fst).Nodup) :
    (ofPairs l).lookup k = some v ↔ (k, v) ∈ l :=
  Lib.Bucket.foldl_put_eq_some_iff (fun (m : StringMap) k => m.lookup k) (fun m k v => m.insert k v)
    (fun _ => AList.lookup_empty _) (fun _ _ _ => AList.lookup_insert _)
    (fun _ _ _ _ => AList.lookup_insert_ne) hl

theorem lookup_collect (hl : (l.map Prod.fst).Nodup) (start : Bytes) :
    (collect start l).lookup k = some v ↔ (k, v) ∈ l ∧ start <+: k := by
  rw [collect, lookup_ofPairs (hl.sublist (List.filter_sublist.map _)), List.mem_filter,
    List.isPrefixOf_iff_prefix]

theorem mem_pairs (m : StringMap) : (k, v) ∈ m.pairs ↔ m.lookup k = some v := by
  rw [← Option.mem_def, AList.mem_lookup_iff, pairs, List.mem_map]
  constructor
  · rintro ⟨p, hp, heq⟩
    cases heq
    exact hp
  · intro h
    exact ⟨_, h, rfl⟩

theorem nodup_keys (m : StringMap) : (m.pairs.map Prod.fst).Nodup := by
  rw [pairs, List.map_map]
  exact m.nodupKeys

end StringMap

/-! ## Running an engine -/

/-- What a store is asked to do. -/
inductive StoreOp where
  | apply (cmd : Command)
  | get (key : Bytes)
  | scan (start : Bytes)
  | snapshot
  /-- `RestoreSnapshot` with the `k`-th snapshot that was taken. -/
  | restore (k : Nat)

/-- What the caller sees. -/
inductive Observation where
  /-- Whether the call succeeded. -/
  | outcome (ok : Bool)
  | value (v : Except EngineError Bytes)
  | contents (m : StringMap)

/-- The caller sees the same; maps are compared key by key. -/
def Observation.Same : Observation → Observation → Prop
  | outcome a, outcome b => a = b
  | value a, value b => a = b
  | contents m, contents m' => ∀ k, m.lookup k = m'.lookup k
  | _, _ => False

/-- A store and the snapshots taken of it. -/
structure Storing (σ : Type) where
  store : σ
  snapshots : List Bytes

/-- One operation. Transactions succeed; `RestoreSnapshot` needs a snapshot. -/
def StoreOp.run {σ : Type} (E : ScanEngine σ) (s : Storing σ) : StoreOp → Storing σ × Observation
  | .apply cmd =>
    let r := applyCommand E.toEngine true s.store cmd
    ({ s with store := r.1 }, .outcome r.2.isNone)
  | .get key => (s, .value (E.get s.store key))
  | .scan start => (s, .contents (E.scan s.store start))
  | .snapshot =>
    match E.snapshot s.store with
    | .error _ => (s, .outcome false)
    | .ok data => ({ s with snapshots := s.snapshots ++ [data] }, .outcome true)
  | .restore k =>
    match s.snapshots[k]? with
    | none => (s, .outcome false)
    | some data =>
      match E.restoreSnapshot s.store data with
      | .error _ => (s, .outcome false)
      | .ok store => ({ s with store := store }, .outcome true)

section Restore

variable {σ : Type} {E : ScanEngine σ} {s : Storing σ} {k : Nat} {data : Bytes}

theorem run_restore_none (h : s.snapshots[k]? = none) :
    StoreOp.run E s (.restore k) = (s, .outcome false) := by
  simp [StoreOp.run, h]

theorem run_restore_error (h : s.snapshots[k]? = some data) {err : EngineError}
    (hr : E.restoreSnapshot s.store data = .error err) :
    StoreOp.run E s (.restore k) = (s, .outcome false) := by
  simp [StoreOp.run, h, hr]

theorem run_restore_ok (h : s.snapshots[k]? = some data) {store : σ}
    (hr : E.restoreSnapshot s.store data = .ok store) :
    StoreOp.run E s (.restore k) = ({ s with store := store }, .outcome true) := by
  simp [StoreOp.run, h, hr]

end Restore

/-- The map and the file answer every lookup alike, and the same snapshots have been taken. -/
structure Alike (s : Storing MemoryEngine) (t : Storing BoltEngine) : Prop where
  lookup : ∀ k, s.store.lookup k = Lib.Bucket.get t.store k
  snapshots : s.snapshots = t.snapshots

/-- The command writes its pair where it finds `found`: a PUT, or a CAS that expects it. -/
def Command.Writes (cmd : Command) (found : Option Bytes) : Prop :=
  match cmd.op with
  | .put => True
  | .cas => found.getD [] = cmd.prevValue
  | _ => False

instance (cmd : Command) (found : Option Bytes) : Decidable (cmd.Writes found) :=
  decidable_of_iff ((match cmd.op with
    | .put => true
    | .cas => decide (found.getD [] = cmd.prevValue)
    | _ => false) = true) (by unfold Command.Writes; split <;> simp)

/-- Every pair the operation writes is one bbolt accepts. -/
def Storable (json : MapCodec) (t : Storing BoltEngine) : StoreOp → Prop
  | .apply cmd => cmd.Writes (Lib.Bucket.get t.store cmd.key) → Writable cmd.key cmd.value
  | .restore k => ∀ data ∈ t.snapshots[k]?, ∀ b ∈ json.unmarshal data, ∀ p ∈ b.pairs, Writable p.1 p.2
  | _ => True

/-! ## Commands -/

/-- What `Get` returns for a key with this value. -/
def found? : Option Bytes → Except EngineError Bytes
  | none => .error .keyNotFound
  | some value => .ok value

/-- The error of a command that neither writes nor deletes. -/
def Command.refusal (cmd : Command) : Option ApplyError :=
  match cmd.op with
  | .cas => some .casMismatch
  | .other op => some (.unknownOp op)
  | _ => none

section Commands

variable {σ : Type} {E : Engine σ} {store : σ} {cmd : Command} {found : Option Bytes}

theorem applyCommand_writes (hget : E.get store cmd.key = found? found) (h : cmd.Writes found) :
    applyCommand E true store cmd = commitWrite true store (E.put store cmd.key cmd.value) := by
  unfold Command.Writes at h
  unfold applyCommand
  split at h
  · rename_i hop
    rw [hop]
  · rename_i hop
    rw [hop, hget]
    cases found <;> simp_all [found?]
  · exact h.elim

theorem applyCommand_idle (hget : E.get store cmd.key = found? found) (h : ¬ cmd.Writes found)
    (hop : cmd.op ≠ .delete) : applyCommand E true store cmd = (store, cmd.refusal) := by
  unfold Command.Writes at h
  unfold applyCommand Command.refusal
  cases hcmd : cmd.op with
  | noop => rfl
  | put => simp [hcmd] at h
  | delete => exact absurd hcmd hop
  | cas =>
    rw [hget]
    cases found <;> simp_all [found?]
  | other op => rfl

theorem applyCommand_delete (hop : cmd.op = .delete) :
    applyCommand E true store cmd = commitWrite true store (E.delete store cmd.key) := by
  unfold applyCommand
  rw [hop]

end Commands

section Lockstep

variable {json : MapCodec} {s : Storing MemoryEngine} {t : Storing BoltEngine} {cmd : Command}
  {op : StoreOp}

theorem Alike.get_memory (h : Alike s t) (key : Bytes) :
    (MemoryEngine.scanEngine json).get s.store key = found? (Lib.Bucket.get t.store key) := by
  rw [← h.lookup]
  rfl

/-- A command that writes nothing but what bbolt accepts. -/
theorem Alike.apply (h : Alike s t)
    (hw : cmd.Writes (Lib.Bucket.get t.store cmd.key) → Writable cmd.key cmd.value) :
    (applyCommand (MemoryEngine.scanEngine json).toEngine true s.store cmd).2 =
        (applyCommand (BoltEngine.engine json) true t.store cmd).2 ∧
      ∀ k, AList.lookup k
          (applyCommand (MemoryEngine.scanEngine json).toEngine true s.store cmd).1 =
        Lib.Bucket.get (applyCommand (BoltEngine.engine json) true t.store cmd).1 k := by
  by_cases hwrites : cmd.Writes (Lib.Bucket.get t.store cmd.key)
  · rw [applyCommand_writes (h.get_memory _) hwrites,
      applyCommand_writes (E := BoltEngine.engine json) rfl hwrites]
    rcases t.store.put_eq cmd.key cmd.value with ⟨_, hput⟩ | ⟨hno, _⟩
    · have hbolt : (BoltEngine.engine json).put t.store cmd.key cmd.value =
          .ok (Lib.Bucket.put t.store cmd.key cmd.value) := hput
      rw [hbolt]
      refine ⟨rfl, fun k => ?_⟩
      change AList.lookup k (s.store.insert cmd.key cmd.value) =
        Lib.Bucket.get (Lib.Bucket.put t.store cmd.key cmd.value) k
      by_cases hk : k = cmd.key
      · subst hk
        simp [Lib.Bucket.get_put]
      · simp [Lib.Bucket.get_put, hk, h.lookup]
    · exact absurd (hw hwrites) hno
  · by_cases hop : cmd.op = .delete
    · rw [applyCommand_delete hop, applyCommand_delete hop]
      refine ⟨rfl, fun k => ?_⟩
      change AList.lookup k (s.store.erase cmd.key) =
        Lib.Bucket.get (Lib.Bucket.delete t.store cmd.key) k
      by_cases hk : k = cmd.key
      · subst hk
        simp [Lib.Bucket.get_delete]
      · simp [Lib.Bucket.get_delete, hk, h.lookup]
    · rw [applyCommand_idle (h.get_memory _) hwrites hop,
        applyCommand_idle (E := BoltEngine.engine json) rfl hwrites hop]
      exact ⟨rfl, h.lookup⟩

/-- A command that writes what bbolt does not accept succeeds on the map only. -/
theorem Alike.apply_differs (h : Alike s t) (hwrites : cmd.Writes (Lib.Bucket.get t.store cmd.key))
    (hno : ¬ Writable cmd.key cmd.value) :
    (applyCommand (MemoryEngine.scanEngine json).toEngine true s.store cmd).2.isNone = true ∧
      (applyCommand (BoltEngine.engine json) true t.store cmd).2.isNone = false := by
  rw [applyCommand_writes (h.get_memory _) hwrites,
    applyCommand_writes (E := BoltEngine.engine json) rfl hwrites]
  rcases t.store.put_eq cmd.key cmd.value with ⟨hyes, _⟩ | ⟨_, err, hput⟩
  · exact absurd hyes hno
  · have hbolt : (BoltEngine.engine json).put t.store cmd.key cmd.value = .error err := hput
    rw [hbolt]
    exact ⟨rfl, rfl⟩

/-- The two contents have the same pairs. -/
theorem Alike.ofPairs (h : Alike s t) : Lib.Bucket.ofPairs s.store.pairs = t.store := by
  refine Lib.Bucket.ext_get fun k => ?_
  ext v
  rw [Lib.Bucket.get_ofPairs s.store.nodup_keys, StringMap.mem_pairs, h.lookup]

theorem Alike.scan (h : Alike s t) (start k : Bytes) :
    (StringMap.collect start s.store.pairs).lookup k =
      (StringMap.collect start (Lib.Bucket.pairs t.store)).lookup k := by
  ext v
  rw [StringMap.lookup_collect s.store.nodup_keys,
    StringMap.lookup_collect (Lib.Bucket.nodup_keys t.store), StringMap.mem_pairs, h.lookup,
    Lib.Bucket.get_eq_some_iff]

/-- A map restored from a snapshot is the one it encodes. -/
theorem lookup_ofPairs_pairs (b : BoltEngine) (k : Bytes) :
    (StringMap.ofPairs (Lib.Bucket.pairs b)).lookup k = Lib.Bucket.get b k := by
  ext v
  rw [StringMap.lookup_ofPairs (Lib.Bucket.nodup_keys b), Lib.Bucket.get_eq_some_iff]

theorem Alike.restore (h : Alike s t) {k : Nat} (hok : Storable json t (.restore k)) :
    (StoreOp.run (MemoryEngine.scanEngine json) s (.restore k)).2.Same
        (StoreOp.run (BoltEngine.scanEngine json) t (.restore k)).2 ∧
      Alike (StoreOp.run (MemoryEngine.scanEngine json) s (.restore k)).1
        (StoreOp.run (BoltEngine.scanEngine json) t (.restore k)).1 := by
  cases hk : t.snapshots[k]? with
  | none =>
    rw [run_restore_none (by rw [h.snapshots]; exact hk), run_restore_none hk]
    exact ⟨rfl, h⟩
  | some data =>
    have hk' : s.snapshots[k]? = some data := by
      rw [h.snapshots]
      exact hk
    cases hb : json.unmarshal data with
    | none =>
      have hmem : MemoryEngine.restoreSnapshot json data = .error .invalidSnapshot := by
        rw [MemoryEngine.restoreSnapshot, hb]
      have hbolt : BoltEngine.restoreSnapshot json data = .error .invalidSnapshot := by
        rw [BoltEngine.restoreSnapshot, hb]
      rw [run_restore_error hk' hmem, run_restore_error hk hbolt]
      exact ⟨rfl, h⟩
    | some b =>
      have hmem : MemoryEngine.restoreSnapshot json data = .ok (.ofPairs b.pairs) := by
        rw [MemoryEngine.restoreSnapshot, hb]
      have hbolt : BoltEngine.restoreSnapshot json data = .ok b := by
        rw [BoltEngine.restoreSnapshot, hb]
        change List.foldlM _ _ _ = _
        rw [BoltEngine.foldlM_put (hok data hk b hb)]
        exact congrArg Except.ok (Lib.Bucket.ofPairs_pairs b)
      rw [run_restore_ok hk' hmem, run_restore_ok hk hbolt]
      exact ⟨rfl, lookup_ofPairs_pairs b, h.snapshots⟩

/-- **One operation** that writes nothing but what bbolt accepts. -/
theorem Alike.step (h : Alike s t) (hok : Storable json t op) :
    (op.run (MemoryEngine.scanEngine json) s).2.Same (op.run (BoltEngine.scanEngine json) t).2 ∧
      Alike (op.run (MemoryEngine.scanEngine json) s).1 (op.run (BoltEngine.scanEngine json) t).1 := by
  cases op with
  | apply cmd =>
    obtain ⟨hresult, hlookup⟩ := h.apply hok
    exact ⟨congrArg Option.isNone hresult, hlookup, h.snapshots⟩
  | get key => exact ⟨h.get_memory key, h⟩
  | scan start => exact ⟨h.scan start, h⟩
  | snapshot =>
    refine ⟨rfl, h.lookup, ?_⟩
    change s.snapshots ++ [json.marshal (.ofPairs s.store.pairs)] =
      t.snapshots ++ [json.marshal t.store]
    rw [h.snapshots, h.ofPairs]
  | restore k => exact h.restore hok

/-- **One operation** that writes a pair bbolt does not accept succeeds on the map only. -/
theorem Alike.differs (h : Alike s t) (hno : ¬ Storable json t op) :
    ¬ (op.run (MemoryEngine.scanEngine json) s).2.Same (op.run (BoltEngine.scanEngine json) t).2 := by
  cases op with
  | apply cmd =>
    simp only [Storable, not_forall] at hno
    obtain ⟨hwrites, hno⟩ := hno
    obtain ⟨hmem, hbolt⟩ := h.apply_differs hwrites hno
    intro hsame
    have hsame : (applyCommand (MemoryEngine.scanEngine json).toEngine true s.store cmd).2.isNone =
      (applyCommand (BoltEngine.engine json) true t.store cmd).2.isNone := hsame
    rw [hmem, hbolt] at hsame
    exact absurd hsame (by simp)
  | restore k =>
    simp only [Storable, not_forall] at hno
    obtain ⟨data, hk, b, hb, p, hp, hno⟩ := hno
    have hmem : (MemoryEngine.scanEngine json).restoreSnapshot s.store data =
        .ok (.ofPairs b.pairs) := by
      change MemoryEngine.restoreSnapshot json data = _
      rw [MemoryEngine.restoreSnapshot, Option.mem_def.mp hb]
    obtain ⟨err, herr⟩ := BoltEngine.foldlM_put_error (fun hall => hno (hall p hp)) .empty
    have hbolt : (BoltEngine.scanEngine json).restoreSnapshot t.store data = .error err := by
      change BoltEngine.restoreSnapshot json data = _
      rw [BoltEngine.restoreSnapshot, Option.mem_def.mp hb]
      exact herr
    rw [run_restore_ok (by rw [h.snapshots]; exact hk) hmem, run_restore_error hk hbolt]
    simp [Observation.Same]
  | get key => exact absurd trivial hno
  | scan start => exact absurd trivial hno
  | snapshot => exact absurd trivial hno

/-- The engines are interchangeable on the operations. -/
def Interchangeable (json : MapCodec) (ops : List StoreOp) : Prop :=
  List.Forall₂ Observation.Same
    (Lib.observe (StoreOp.run (MemoryEngine.scanEngine json)) ⟨∅, []⟩ ops)
    (Lib.observe (StoreOp.run (BoltEngine.scanEngine json)) ⟨Lib.Bucket.empty, []⟩ ops)

/-- **The two engines are interchangeable exactly as long as no pair is to be written that bbolt does
not accept.** For every text of maps and every sequence of operations on two empty stores. -/
theorem engines_alike_iff (json : MapCodec) (ops : List StoreOp) :
    Interchangeable json ops ↔
      Lib.Always (StoreOp.run (BoltEngine.scanEngine json)) (Storable json) ⟨Lib.Bucket.empty, []⟩
        ops := by
  have hstart : Alike ⟨∅, []⟩ ⟨Lib.Bucket.empty, []⟩ := ⟨fun _ => rfl, rfl⟩
  unfold Interchangeable
  refine Lib.forall₂_observe_iff (fun s t op h hok => ?_) (fun s t op h hno => ?_) hstart ops
  · exact h.step hok
  · exact h.differs hno

/-- `PUT "" "v"`, which a transaction of the API lets through. -/
def putEmptyKey : Command := ⟨.put, [], [118], []⟩

/-- **An empty key parts the engines.** The map stores it and answers with its value; the file refuses
the command and does not find the key. -/
theorem empty_key_parts_engines :
    ¬ Interchangeable Shipped.json [.apply putEmptyKey, .get []] ∧
      (applyCommand (MemoryEngine.scanEngine Shipped.json).toEngine true ∅ putEmptyKey).2 = none ∧
      (applyCommand Shipped.engine true .empty putEmptyKey).2 = some (.engine .keyRequired) ∧
      MemoryEngine.get (applyCommand (MemoryEngine.scanEngine Shipped.json).toEngine true ∅
        putEmptyKey).1 [] = .ok [118] ∧
      BoltEngine.get (applyCommand Shipped.engine true .empty putEmptyKey).1 [] =
        .error .keyNotFound := by
  refine ⟨fun h => ?_, rfl, rfl, rfl, rfl⟩
  cases h with
  | cons hsame _ => exact absurd hsame (by simp [Observation.Same, StoreOp.run]; decide)

end Lockstep

end Raftrix
