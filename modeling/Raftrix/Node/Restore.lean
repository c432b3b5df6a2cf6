import Raftrix.Model.Wire
import Raftrix.Node.MapStore

/-!
# Restoring any text

The bytes of a snapshot come from the network, so `RestoreSnapshot` has to be safe for every text
(`RestoreSafe`): it fails and no `Get` or `Scan` sees a difference, or it succeeds, and then every sequence
of calls runs through without a panic and with the answers of a map (`Completes`, over `MapStep`).

`BoltEngine` is safe. `MemoryEngine` takes over what the text leaves in its variable, and `null` leaves a nil
map, on which everything but `Put` works. **`restore_safe_iff`**: it is safe exactly if no `Put` comes
while the last text restored is `null` (`PutsOnNil`). `null_snapshot_panics`: the next `Put` panics.
-/

namespace Raftrix

/-! ## What a call should do -/

/-- A call on a map with contents `c`, which accepts the given pairs. A write may fail if its pair is not
accepted or its transaction fails. -/
inductive MapStep (json : VarCodec) (accepts : Bytes → Bytes → Prop) (written : Bool) (c : Contents) :
    EngineCall → Contents → Answer → Prop
  | get {key : Bytes} : MapStep json accepts written c (.get key) c (.value (found? (c key)))
  | put {key value : Bytes} (h : accepts key value) :
      MapStep json accepts written c (.put key value) (Function.update c key (some value)) (.done none)
  | putFailed {key value : Bytes} {err : EngineError} (h : written = true → ¬ accepts key value) :
      MapStep json accepts written c (.put key value) c (.done (some err))
  | delete {key : Bytes} :
      MapStep json accepts written c (.delete key) (Function.update c key none) (.done none)
  | deleteFailed {key : Bytes} {err : EngineError} (h : written = false) :
      MapStep json accepts written c (.delete key) c (.done (some err))
  | scan {start : Bytes} {m : StringMap}
      (h : ∀ key, m.lookup key = if start <+: key then c key else none) :
      MapStep json accepts written c (.scan start) c (.contents m)
  | snapshot {w : Option (Lib.Bucket Bytes Bytes)} (h : ∀ key, (w.getD .empty).get key = c key) :
      MapStep json accepts written c .snapshot c (.text (json.marshal w))
  | restored {data : Bytes} {b : Lib.Bucket Bytes Bytes} (hdata : json.maps.unmarshal data = some b)
      (hpairs : ∀ p ∈ b.pairs, accepts p.1 p.2) :
      MapStep json accepts written c (.restoreSnapshot data) (Lib.Bucket.get b) (.done none)
  | restoreFailed {data : Bytes} {err : EngineError}
      (h : written = true → ∀ b, json.maps.unmarshal data = some b → ¬ ∀ p ∈ b.pairs, accepts p.1 p.2) :
      MapStep json accepts written c (.restoreSnapshot data) c (.done (some err))

section Safety

variable {τ : Type} (json : VarCodec) (accepts : Bytes → Bytes → Prop)
  (call : τ → EngineCall × Bool → Option (τ × Answer)) (contents : τ → Contents)

/-- The calls, each with the outcome of its transaction, run through with the answers of a map. -/
def Completes : τ → Contents → List (EngineCall × Bool) → Prop
  | _, _, [] => True
  | s, c, x :: rest => ∃ s' answer c', call s x = some (s', answer) ∧
      MapStep json accepts x.2 c x.1 c' answer ∧ Completes s' c' rest

/-- No `Get` and no `Scan` sees a difference. -/
def Unseen (s s' : τ) : Prop :=
  ∀ x : EngineCall × Bool, (∃ key, x.1 = .get key) ∨ (∃ start, x.1 = .scan start) →
    (call s' x).map Prod.snd = (call s x).map Prod.snd

/-- `RestoreSnapshot` of the text is safe, as far as the calls after it show. -/
def RestoreSafe (s : τ) (data : Bytes) (written : Bool) (rest : List (EngineCall × Bool)) : Prop :=
  ∃ s' err, call s (.restoreSnapshot data, written) = some (s', .done err) ∧
    (err ≠ none → Unseen call s s') ∧
    (err = none →
      MapStep json accepts written (contents s) (.restoreSnapshot data) (contents s') (.done none) ∧
        Completes json accepts call s' (contents s') rest)

end Safety

/-- Whether the variable of `MemoryEngine` is nil after a call. -/
def nilAfter (json : VarCodec) (nil : Bool) : EngineCall → Bool
  | .restoreSnapshot data =>
    match json.unmarshal data with
    | .error => nil
    | .null => true
    | .map _ => false
  | _ => nil

/-- A `Put` comes while the last text restored is `null`. -/
def PutsOnNil (json : VarCodec) : Bool → List (EngineCall × Bool) → Prop
  | _, [] => False
  | nil, x :: rest =>
    (nil = true ∧ ∃ key value, x.1 = .put key value) ∨ PutsOnNil json (nilAfter json nil x.1) rest

/-! ## The map variable -/

namespace MapVar

variable {json : VarCodec} {v v' : MapVar} {x : EngineCall} {answer : Answer} {written : Bool}

/-- What the variable holds. -/
def contents (v : MapVar) : Contents := fun key => AList.lookup key v.entries

/-- A call of `MemoryEngine`, which writes no file. -/
def memoryCall (json : VarCodec) (v : MapVar) (x : EngineCall × Bool) : Option (MapVar × Answer) :=
  v.call json x.1

section Restore

variable {data : Bytes}

theorem call_restore_error (h : json.unmarshal data = .error) :
    v.call json (.restoreSnapshot data) = some (v, .done (some .invalidSnapshot)) := by
  simp [call, h]

theorem call_restore_null (h : json.unmarshal data = .null) :
    v.call json (.restoreSnapshot data) = some (none, .done none) := by
  simp [call, h]

theorem call_restore_map {b : Lib.Bucket Bytes Bytes} (h : json.unmarshal data = .map b) :
    v.call json (.restoreSnapshot data) = some (some (.ofPairs b.pairs), .done none) := by
  simp [call, h]

end Restore

/-- Only a `Put` on a nil map panics. -/
theorem call_eq_none : v.call json x = none ↔ v.isNone = true ∧ ∃ key value, x = .put key value := by
  cases x with
  | put key value =>
    cases v with
    | none => simp [call]
    | some m => simp [call]
  | restoreSnapshot data =>
    cases hd : json.unmarshal data with
    | error => simp [call_restore_error hd]
    | null => simp [call_restore_null hd]
    | map b => simp [call_restore_map hd]
  | _ => simp [call]

theorem isNone_call (h : v.call json x = some (v', answer)) : v'.isNone = nilAfter json v.isNone x := by
  cases x with
  | put key value =>
    cases v with
    | none => cases h
    | some m =>
      cases h
      rfl
  | delete key =>
    cases h
    simp [nilAfter]
  | restoreSnapshot data =>
    cases hd : json.unmarshal data with
    | error =>
      rw [call_restore_error hd] at h
      cases h
      simp [nilAfter, hd]
    | null =>
      rw [call_restore_null hd] at h
      cases h
      simp [nilAfter, hd]
    | map b =>
      rw [call_restore_map hd] at h
      cases h
      simp [nilAfter, hd]
  | get key => cases h; rfl
  | scan start => cases h; rfl
  | snapshot => cases h; rfl

theorem contents_ofPairs (b : Lib.Bucket Bytes Bytes) :
    contents (some (.ofPairs b.pairs)) = Lib.Bucket.get b :=
  funext fun key => lookup_ofPairs_pairs b key

theorem contents_nil : contents none = Lib.Bucket.get (.empty : Lib.Bucket Bytes Bytes) := rfl

theorem contents_delete (v : MapVar) (key : Bytes) :
    contents (v.map (·.erase key)) = Function.update v.contents key none := by
  cases v with
  | none => exact (Function.update_eq_self_iff.mpr rfl).symm
  | some m => exact StringMap.lookup_erase_eq m key

theorem contents_put (m : StringMap) (key value : Bytes) :
    contents (some (m.insert key value)) = Function.update (contents (some m)) key (some value) :=
  StringMap.lookup_insert_eq m key value

/-- **A call that does not panic answers as a map does.** -/
theorem mapStep_call (h : v.call json x = some (v', answer)) :
    MapStep json StorageType.memory.Accepts written v.contents x v'.contents answer := by
  cases x with
  | get key =>
    cases h
    exact .get
  | put key value =>
    cases v with
    | none => cases h
    | some m =>
      cases h
      rw [contents_put]
      exact .put trivial
  | delete key =>
    cases h
    rw [contents_delete]
    exact .delete
  | scan start =>
    cases h
    refine .scan fun key => ?_
    ext value
    rw [StringMap.lookup_collect v.entries.nodup_keys, StringMap.mem_pairs]
    unfold contents
    split <;> simp_all
  | snapshot =>
    cases h
    refine .snapshot fun key => ?_
    cases v with
    | none => rfl
    | some m =>
      ext value
      change (Lib.Bucket.ofPairs m.pairs).get key = some value ↔ m.lookup key = some value
      rw [Lib.Bucket.get_ofPairs m.nodup_keys, StringMap.mem_pairs]
  | restoreSnapshot data =>
    cases hd : json.unmarshal data with
    | error =>
      rw [call_restore_error hd] at h
      cases h
      exact .restoreFailed fun _ b hb => by simp [VarCodec.maps, hd] at hb
    | null =>
      rw [call_restore_null hd] at h
      cases h
      rw [contents_nil]
      exact .restored (by simp [VarCodec.maps, hd]) fun _ _ => trivial
    | map b =>
      rw [call_restore_map hd] at h
      cases h
      rw [contents_ofPairs]
      exact .restored (by simp [VarCodec.maps, hd]) fun _ _ => trivial

/-- A sequence of calls that completes puts nothing on a nil map. -/
theorem not_putsOnNil {rest : List (EngineCall × Bool)} {c : Contents}
    (h : Completes json StorageType.memory.Accepts (memoryCall json) v c rest) :
    ¬ PutsOnNil json v.isNone rest := by
  induction rest generalizing v c with
  | nil => exact id
  | cons x rest ih =>
    obtain ⟨v', answer, c', hcall, _, hrest⟩ := h
    rintro (hput | hlater)
    · rw [memoryCall, call_eq_none.mpr hput] at hcall
      cases hcall
    · rw [← isNone_call hcall] at hlater
      exact ih hrest hlater

/-- And one that puts nothing on a nil map completes. -/
theorem completes {rest : List (EngineCall × Bool)} (h : ¬ PutsOnNil json v.isNone rest) :
    Completes json StorageType.memory.Accepts (memoryCall json) v v.contents rest := by
  induction rest generalizing v with
  | nil => trivial
  | cons x rest ih =>
    rw [PutsOnNil, not_or] at h
    cases hcall : v.call json x.1 with
    | none => exact absurd (call_eq_none.mp hcall) h.1
    | some r =>
      obtain ⟨v', answer⟩ := r
      refine ⟨v', answer, v'.contents, hcall, mapStep_call hcall, ih ?_⟩
      rw [isNone_call hcall]
      exact h.2

/-- `MemoryEngine` is safe for the text exactly if no `Put` meets the nil map. -/
theorem restoreSafe_iff (v : MapVar) (data : Bytes) (written : Bool)
    (rest : List (EngineCall × Bool)) :
    RestoreSafe json StorageType.memory.Accepts (memoryCall json) contents v data written rest ↔
      json.unmarshal data = .error ∨
        ¬ PutsOnNil json false ((.restoreSnapshot data, written) :: rest) := by
  have hcons : PutsOnNil json false ((.restoreSnapshot data, written) :: rest) ↔
      PutsOnNil json (nilAfter json false (.restoreSnapshot data)) rest := by
    simp [PutsOnNil]
  rw [hcons]
  have hsuccess : ∀ v', v.call json (.restoreSnapshot data) = some (v', .done none) →
      v'.isNone = nilAfter json false (.restoreSnapshot data) →
      (RestoreSafe json StorageType.memory.Accepts (memoryCall json) contents v data written rest ↔
        ¬ PutsOnNil json (nilAfter json false (.restoreSnapshot data)) rest) := by
    intro v' hcall hnil
    rw [← hnil]
    constructor
    · rintro ⟨s', err, hs', _, hok⟩
      rw [memoryCall, hcall] at hs'
      cases hs'
      exact not_putsOnNil (hok rfl).2
    · intro h
      exact ⟨v', none, hcall, fun hne => absurd rfl hne, fun _ => ⟨mapStep_call hcall, completes h⟩⟩
  cases hd : json.unmarshal data with
  | error =>
    refine iff_of_true ⟨v, _, call_restore_error hd, fun _ _ _ => rfl, fun h => by cases h⟩ (Or.inl rfl)
  | null =>
    rw [hsuccess none (call_restore_null hd) (by simp [nilAfter, hd])]
    simp
  | map b =>
    rw [hsuccess _ (call_restore_map hd) (by simp [nilAfter, hd])]
    simp

end MapVar

/-! ## The file -/

namespace BoltEngine

variable {json : VarCodec} {x : EngineCall} {written : Bool}

/-- A call of `BoltEngine`, which never panics. -/
def fileCall (json : VarCodec) (b : BoltEngine) (x : EngineCall × Bool) :
    Option (BoltEngine × Answer) :=
  some (b.call json x.2 x.1)

theorem restoreSnapshot_cases (json : MapCodec) (data : Bytes) :
    (∃ b, json.unmarshal data = some b ∧ (∀ p ∈ b.pairs, Writable p.1 p.2) ∧
        restoreSnapshot json data = .ok b) ∨
      ∃ err, restoreSnapshot json data = .error err ∧
        ∀ b, json.unmarshal data = some b → ¬ ∀ p ∈ b.pairs, Writable p.1 p.2 := by
  unfold restoreSnapshot
  cases hd : json.unmarshal data with
  | none => exact Or.inr ⟨_, rfl, fun b hb => by cases hb⟩
  | some b =>
    by_cases hall : ∀ p ∈ b.pairs, Writable p.1 p.2
    · refine Or.inl ⟨b, rfl, hall, ?_⟩
      dsimp only
      rw [foldlM_put hall]
      exact congrArg Except.ok (Lib.Bucket.ofPairs_pairs b)
    · obtain ⟨err, herr⟩ := foldlM_put_error hall Lib.Bucket.empty
      refine Or.inr ⟨err, herr, fun b' hb' => ?_⟩
      cases hb'
      exact hall

/-- **Every call answers as a map does.** -/
theorem mapStep_call (b : BoltEngine) (x : EngineCall × Bool) :
    MapStep json Writable x.2 (Lib.Bucket.get b) x.1 (Lib.Bucket.get (b.call json x.2 x.1).1)
      (b.call json x.2 x.1).2 := by
  obtain ⟨x, written⟩ := x
  cases x with
  | get key => exact .get
  | put key value =>
    unfold call
    dsimp only
    rcases b.put_eq key value with ⟨hyes, hput⟩ | ⟨hno, err, hput⟩
    · rw [hput]
      cases written with
      | false => exact .putFailed fun h => by cases h
      | true =>
        change MapStep _ _ _ _ _ (Lib.Bucket.get (Lib.Bucket.put b key value)) (.done none)
        rw [get_put_eq]
        exact .put hyes
    · rw [hput]
      exact .putFailed fun _ => hno
  | delete key =>
    cases written with
    | false => exact .deleteFailed rfl
    | true =>
      change MapStep _ _ _ _ _ (Lib.Bucket.get (Lib.Bucket.delete b key)) (.done none)
      rw [get_delete_eq]
      exact .delete
  | scan start => exact .scan fun key => (StorageType.persistentMap json.maps).scan_eq b start key
  | snapshot => exact .snapshot fun key => rfl
  | restoreSnapshot data =>
    unfold call
    dsimp only
    rcases restoreSnapshot_cases json.maps data with ⟨b', hdata, hpairs, hr⟩ | ⟨err, hr, hno⟩
    · rw [hr]
      cases written with
      | false => exact .restoreFailed fun h => by cases h
      | true => exact .restored hdata hpairs
    · rw [hr]
      exact .restoreFailed fun _ => hno

theorem completes (b : BoltEngine) (rest : List (EngineCall × Bool)) :
    Completes json Writable (fileCall json) b (Lib.Bucket.get b) rest := by
  induction rest generalizing b with
  | nil => trivial
  | cons x rest ih => exact ⟨_, _, _, rfl, mapStep_call b x, ih _⟩

/-- A transaction commits, or it leaves the file alone. -/
theorem commit_cases (written : Bool) (b : BoltEngine) (write : Except EngineError BoltEngine) :
    (∃ b', commit written b write = (b', .done none)) ∨
      ∃ err, commit written b write = (b, .done (some err)) := by
  cases write with
  | error err => exact Or.inr ⟨err, rfl⟩
  | ok b' =>
    cases written with
    | false => exact Or.inr ⟨_, rfl⟩
    | true => exact Or.inl ⟨b', rfl⟩

/-- `BoltEngine` is safe for every text. -/
theorem restoreSafe (b : BoltEngine) (data : Bytes) (written : Bool) (rest : List (EngineCall × Bool)) :
    RestoreSafe json Writable (fileCall json) Lib.Bucket.get b data written rest := by
  have hstep : MapStep json Writable written (Lib.Bucket.get b) (.restoreSnapshot data)
      (Lib.Bucket.get (commit written b (restoreSnapshot json.maps data)).1)
      (commit written b (restoreSnapshot json.maps data)).2 :=
    mapStep_call b (.restoreSnapshot data, written)
  rcases commit_cases written b (restoreSnapshot json.maps data) with ⟨b', hcall⟩ | ⟨err, hcall⟩
  · rw [hcall] at hstep
    exact ⟨b', none, congrArg some hcall, fun hne => absurd rfl hne,
      fun _ => ⟨hstep, completes b' rest⟩⟩
  · exact ⟨b, some err, congrArg some hcall, fun _ _ _ => rfl, fun h => by cases h⟩

end BoltEngine

/-! ## Both engines -/

/-- **`RestoreSnapshot` is safe on the file for every text, and on the map exactly if no `Put` comes while
the last text restored is `null`.** For every state of either engine, every text, the outcome of every
transaction, and all calls that may follow. -/
theorem restore_safe_iff (json : VarCodec) (data : Bytes) (written : Bool)
    (rest : List (EngineCall × Bool)) :
    (∀ v : MapVar,
      RestoreSafe json StorageType.memory.Accepts (MapVar.memoryCall json) MapVar.contents v data
          written rest ↔
        json.unmarshal data = .error ∨
          ¬ PutsOnNil json false ((.restoreSnapshot data, written) :: rest)) ∧
    ∀ b : BoltEngine,
      RestoreSafe json StorageType.persistent.Accepts (BoltEngine.fileCall json) Lib.Bucket.get b data
        written rest :=
  ⟨fun v => v.restoreSafe_iff data written rest, fun b => b.restoreSafe data written rest⟩

/-- `null`. -/
def nullText : Bytes := [110, 117, 108, 108]

/-- **A snapshot `null` makes the next `Put` panic.** `RestoreSnapshot` of a new `MemoryEngine` succeeds and
leaves a nil map. -/
theorem null_snapshot_panics :
    MapVar.call mapJson (some ∅) (.restoreSnapshot nullText) = some (none, .done none) ∧
      MapVar.call mapJson none (.put [107] [118]) = none ∧
      ¬ RestoreSafe mapJson StorageType.memory.Accepts (MapVar.memoryCall mapJson)
        MapVar.contents (some ∅) nullText true [(.put [107] [118], true)] := by
  refine ⟨rfl, rfl, fun h => ?_⟩
  obtain ⟨v', err, hcall, _, hok⟩ := h
  cases hcall
  obtain ⟨_, _, _, hput, _⟩ := (hok rfl).2
  cases hput

end Raftrix
