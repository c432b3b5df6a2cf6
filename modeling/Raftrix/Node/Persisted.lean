import Raftrix.Log.Stored
import Raftrix.Model.Api
import Raftrix.Node.MapStore

/-!
# What a command means after the log

A command is applied after it has been through the JSON text of its log entry. It should then do what
it would have done before (`KeepsMeaning`), on both engines and on every store, and a PUT that is
acknowledged should be found under its key.

Byte slices come back as they were; a key comes back with every byte that is not UTF-8 replaced. So
**`persisted_command_iff`**: of the commands the API proposes, those keep their meaning whose key is valid
UTF-8. `acknowledged_put_not_found`: a key of the path that is not.
-/

namespace Raftrix

variable {σ : Type}

/-- `cmd'` does on the engine what `cmd` does; a PUT that succeeds is found under the key of `cmd`. -/
structure KeepsMeaning (E : ScanEngine σ) (cmd cmd' : Command) : Prop where
  outcome : ∀ s written, (E.run s (cmd', written)).2 = (E.run s (cmd, written)).2
  store : ∀ s written key,
    E.get (E.run s (cmd', written)).1 key = E.get (E.run s (cmd, written)).1 key
  acknowledged : ∀ s written, cmd.op = .put → (E.run s (cmd', written)).2 = none →
    E.get (E.run s (cmd', written)).1 cmd.key = .ok cmd.value

/-- The command `Get` returns after `Append` does what the command does. -/
def Persists (cmd : Command) : Prop :=
  ∀ (rl rl' : RaftLog) (written : Bool) (index term : Nat),
    rl.append written ⟨index, term, cmd⟩ = some rl' →
    ∃ e, rl'.get index = some e ∧
      ∀ (json : MapCodec) (t : StorageType), KeepsMeaning (t.engine json) cmd e.command

/-- The entry comes back as `stored`. -/
theorem persists_iff {cmd : Command} : Persists cmd ↔
    ∀ (json : MapCodec) (t : StorageType), KeepsMeaning (t.engine json) cmd cmd.stored := by
  constructor
  · intro h
    obtain ⟨rl', ha⟩ : ∃ rl', RaftLog.append true ⟨.empty, none, none, 0, 0⟩ ⟨1, 1, cmd⟩ = some rl' :=
      ⟨_, rfl⟩
    obtain ⟨e, he, hkeeps⟩ := h _ rl' true 1 1 ha
    rw [RaftLog.get_append ha, if_pos rfl] at he
    cases he
    exact hkeeps
  · intro h rl rl' written index term ha
    refine ⟨LogEntry.stored ⟨index, term, cmd⟩, ?_, h⟩
    rw [RaftLog.get_append ha, if_pos rfl]

/-- An unchanged command keeps its meaning. -/
theorem KeepsMeaning.refl (json : MapCodec) (t : StorageType) (cmd : Command) :
    KeepsMeaning (t.engine json) cmd cmd where
  outcome _ _ := rfl
  store _ _ _ := rfl
  acknowledged s written hop h := (commands_atomic json t).stored s (cmd, written) h (Or.inl hop)

/-- A command of a path is stored unchanged exactly if its key is valid UTF-8. -/
theorem stored_eq_iff {cmd : Command} (hop : cmd.op = .put ∨ cmd.op = .delete ∨ cmd.op = .cas) :
    cmd.stored = cmd ↔ Lib.Utf8.coerceUtf8 cmd.key = cmd.key := by
  obtain ⟨op, key, value, prev⟩ := cmd
  rcases hop with rfl | rfl | rfl <;> simp [Command.stored, OpType.stored]

section Moved

variable {json : MapCodec} {cmd cmd' : Command}

/-- The command with another key. -/
structure Moved (cmd cmd' : Command) : Prop where
  key : cmd'.key ≠ cmd.key
  op : cmd'.op = cmd.op
  prevValue : cmd'.prevValue = cmd.prevValue

/-- A PUT goes to the other key. -/
theorem Moved.put (h : Moved cmd cmd') (hop : cmd.op = .put) :
    ¬ KeepsMeaning (StorageType.memory.engine json) cmd cmd' := by
  intro hkeeps
  have hok : ((StorageType.memory.engine json).run ∅ (cmd', true)).2 = none := by
    unfold ScanEngine.run applyCommand
    rw [h.op, hop]
    rfl
  have hfound := hkeeps.acknowledged ∅ true hop hok
  have hframe := (commands_atomic json .memory).frame ∅ (cmd', true) cmd.key hok h.key.symm
  rw [hfound] at hframe
  cases hframe

/-- A DELETE leaves a pair with the key itself. -/
theorem Moved.delete (h : Moved cmd cmd') (hop : cmd.op = .delete) :
    ¬ KeepsMeaning (StorageType.memory.engine json) cmd cmd' := by
  intro hkeeps
  have hok : ∀ c : Command, c.op = .delete → ∀ m : StringMap,
      ((StorageType.memory.engine json).run m (c, true)).2 = none := by
    intro c hc m
    unfold ScanEngine.run applyCommand
    rw [hc]
    rfl
  let m : StringMap := AList.insert cmd.key [] ∅
  have hgone := (commands_atomic json .memory).deleted m (cmd, true) (hok _ hop m) hop
  have hframe := (commands_atomic json .memory).frame m (cmd', true) cmd.key
    (hok _ (h.op.trans hop) m) h.key.symm
  have hthere : (StorageType.memory.engine json).get m cmd.key = found? (AList.lookup cmd.key m) := rfl
  rw [hkeeps.store m true, hgone, hthere, AList.lookup_insert] at hframe
  cases hframe

/-- A CAS compares with the value of the other key. -/
theorem Moved.cas (h : Moved cmd cmd') (hop : cmd.op = .cas) :
    ¬ KeepsMeaning (StorageType.memory.engine json) cmd cmd' := by
  intro hkeeps
  let L := StorageType.memoryMap json
  let m : StringMap := AList.insert cmd.key cmd.prevValue (AList.insert cmd'.key (0 :: cmd.prevValue) ∅)
  have hcurrent : ∀ key, (StorageType.memory.engine json).current m key =
      (AList.lookup key m).getD [] := L.current_eq m
  have hyes : ((StorageType.memory.engine json).run m (cmd, true)).2 = none := by
    rw [L.cas_iff hop rfl, hcurrent, AList.lookup_insert]
    exact ⟨rfl, rfl⟩
  have hno : ¬ ((StorageType.memory.engine json).run m (cmd', true)).2 = none := by
    rw [L.cas_iff (h.op.trans hop) rfl, hcurrent, AList.lookup_insert_ne h.key, AList.lookup_insert,
      h.prevValue]
    simp
  exact hno ((hkeeps.outcome m true).trans hyes)

end Moved

/-- **A command keeps its meaning in the log exactly if its key is valid UTF-8.** For every command the
API can propose, every log it is appended to, and every state of either engine. -/
theorem persisted_command_iff {cmd : Command} (h : Api.Proposes cmd) :
    Persists cmd ↔ Lib.Utf8.coerceUtf8 cmd.key = cmd.key := by
  rw [persists_iff]
  constructor
  · intro hkeeps
    rcases Api.proposes_cases h with ⟨hop, _⟩ | hstored
    · by_contra hkey
      have hmoved : Moved cmd cmd.stored := by
        refine ⟨hkey, ?_, rfl⟩
        obtain ⟨op, key, value, prev⟩ := cmd
        rcases hop with rfl | rfl | rfl <;> rfl
      rcases hop with hput | hdelete | hcas
      · exact hmoved.put hput (hkeeps Shipped.json .memory)
      · exact hmoved.delete hdelete (hkeeps Shipped.json .memory)
      · exact hmoved.cas hcas (hkeeps Shipped.json .memory)
    · exact congrArg Command.key hstored
  · intro hkey
    have hstored : cmd.stored = cmd := by
      rcases Api.proposes_cases h with ⟨hop, _⟩ | hstored
      · exact (stored_eq_iff hop).mpr hkey
      · exact hstored
    intro json t
    rw [hstored]
    exact .refl json t cmd

/-- `PUT /v1/keys/k` with the value `"v"`. -/
def putK : Api.Request := .key .put (Api.keysPath ++ [107]) (some [118])

theorem persisted_command_putK :
    (Api.handle putK).commands = [⟨.put, [107], [118], []⟩] ∧ Persists ⟨.put, [107], [118], []⟩ :=
  ⟨by decide, (persisted_command_iff ⟨putK, by decide⟩).mpr (by decide)⟩

/-- `PUT /v1/keys/%FF` with the value `"v"`. -/
def putInvalid : Api.Request := .key .put (Api.keysPath ++ [0xFF]) (some [118])

/-- **An acknowledged PUT is not found.** The key of the path is one byte that is not UTF-8; both engines
store the pair under U+FFFD, where every such key goes, and do not have the key that was put. -/
theorem acknowledged_put_not_found :
    let cmd : Command := ⟨.put, [0xFF], [118], []⟩
    let memory := StorageType.memory.engine Shipped.json
    let persistent := StorageType.persistent.engine Shipped.json
    (Api.handle putInvalid).commands = [cmd] ∧
      ((RaftLog.append true ⟨.empty, none, none, 0, 0⟩ ⟨1, 1, cmd⟩).bind fun rl => rl.get 1) =
        some ⟨1, 1, cmd.stored⟩ ∧
      cmd.stored.key = [0xEF, 0xBF, 0xBD] ∧ (Command.mk .put [0xFE] [118] []).stored.key = cmd.stored.key ∧
      (memory.run (StorageType.empty .memory) (cmd.stored, true)).2 = none ∧
      memory.get (memory.run (StorageType.empty .memory) (cmd.stored, true)).1 [0xFF] =
        .error .keyNotFound ∧
      (persistent.run (StorageType.empty .persistent) (cmd.stored, true)).2 = none ∧
      persistent.get (persistent.run (StorageType.empty .persistent) (cmd.stored, true)).1 [0xFF] =
        .error .keyNotFound := by
  decide

end Raftrix
