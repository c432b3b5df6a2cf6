import Raftrix.Lib.BucketMap
import Raftrix.Lib.Simulation
import Raftrix.Log.Keys
import Raftrix.Model.BoltLog
import Raftrix.Wire.Messages

/-!
# The bytes of the log file

Every function of `log.go` on the bytes of its file does what the log of `Model/Log.lean` does
(**`BoltLog.same_answers`**): any calls, in any order, with any outcomes of their transactions and
with restarts in between, get the same answers. What is asked of the calls is that numbers are `uint64`
values, which in the source they are by their type. `LoadMeta` returns a vote as the JSON text has kept it
(`BoltLog.loadMeta_saveMeta`).

The file is followed through the decoder to the file of `Model/LogFile.lean`, which has the same keys and
entries instead of texts (`Texts`), and from there to the log (`LogFile.Encodes`).
-/

namespace Raftrix

open Lib.Json (Value record record_coerce record_cons map_uint64)
open Lib.Utf8 (coerceUtf8)

/-! ## The three records are read back -/

theorem readEntry_print {e : LogEntry} (h : e.Writable) :
    readEntry (Lib.Json.print e.toJson) = some e.stored := by
  rw [readEntry, Lib.Json.unmarshal_print, Option.bind_some, LogEntry.ofJson_toJson h]

theorem readState_print {term : Nat} (h : IsIndex term) (votedFor : NodeID) :
    readState (Lib.Json.print (stateJson term votedFor)) = some (term, coerceUtf8 votedFor) := by
  rw [readState, Lib.Json.unmarshal_print, Option.bind_some, stateJson, record_coerce]
  refine (record_cons rfl (map_uint64 h _ _) _).trans ?_
  exact record_cons rfl rfl _

theorem readSnapshot_print {index term : Nat} (hi : IsIndex index) (ht : IsIndex term) :
    readSnapshot (Lib.Json.print (snapshotJson index term)) = some (index, term) := by
  rw [readSnapshot, Lib.Json.unmarshal_print, Option.bind_some, snapshotJson, record_coerce]
  refine (record_cons rfl (map_uint64 hi _ _) _).trans ?_
  exact record_cons rfl (map_uint64 ht _ _) _

namespace BoltLog

/-- The file `f` has what the texts of `t` say. -/
structure Texts (t : BoltLog) (f : LogFile) : Prop where
  log : t.logBucket.map readEntry = f.log.map some
  metaState : (t.metaBucket.get metaKey).map readState = f.metaState.map some
  metaSnapshot : (t.metaBucket.get snapshotKey).map readSnapshot = f.metaSnapshot.map some
  snapshotIndex : t.snapshotIndex = f.snapshotIndex
  snapshotTerm : t.snapshotTerm = f.snapshotTerm

variable {t : BoltLog} {f : LogFile} {index : Nat}

namespace Texts

/-! ## Reading -/

theorem get (h : Texts t f) (index : Nat) : t.get index = FileAnswer.ofGet (f.get index) := by
  have hget : (t.logBucket.get (indexKey index)).map readEntry =
      (f.log.get (indexKey index)).map some := by
    rw [← Lib.Bucket.get_map, ← Lib.Bucket.get_map, h.log]
  unfold BoltLog.get LogFile.get
  cases hdata : t.logBucket.get (indexKey index) with
  | none =>
    rw [hdata] at hget
    rw [Option.map_eq_none_iff.mp hget.symm]
    rfl
  | some data =>
    rw [hdata] at hget
    obtain ⟨e, he, hread⟩ := Option.map_eq_some_iff.mp hget.symm
    simp only [he, ← hread, FileAnswer.ofGet]

theorem getRangeFrom (h : Texts t f) : ∀ n first : Nat,
    t.getRangeFrom n first = .ok (f.getRangeFrom n first)
  | 0, _ => rfl
  | n + 1, first => by
    rw [BoltLog.getRangeFrom, LogFile.getRangeFrom, h.get first]
    cases f.get first with
    | none => rfl
    | some e => simp only [FileAnswer.ofGet, h.getRangeFrom n (first + 1)]

theorem getRange (h : Texts t f) (first last : Nat) :
    t.getRange first last = .ok (f.getRange first last) :=
  h.getRangeFrom _ _

theorem lastIndex (h : Texts t f) : t.lastIndex = f.lastIndex := by
  have hlast : t.logBucket.last.map (fun p => (p.1, readEntry p.2)) =
      f.log.last.map fun p => (p.1, some p.2) := by
    rw [← Lib.Bucket.last_map, ← Lib.Bucket.last_map, h.log]
  unfold BoltLog.lastIndex LogFile.lastIndex
  cases htext : t.logBucket.last with
  | none =>
    rw [htext] at hlast
    rw [Option.map_eq_none_iff.mp hlast.symm]
    exact h.snapshotIndex
  | some p =>
    rw [htext] at hlast
    obtain ⟨q, hq, heq⟩ := Option.map_eq_some_iff.mp hlast.symm
    simp only [hq, (Prod.mk.inj heq).1]

theorem lastTerm (h : Texts t f) : t.lastTerm = f.lastTerm := by
  unfold BoltLog.lastTerm LogFile.lastTerm
  rw [h.lastIndex, h.snapshotIndex, h.snapshotTerm, h.get]
  cases f.get f.lastIndex <;> rfl

theorem termAt (h : Texts t f) (index : Nat) : t.termAt index = f.termAt index := by
  unfold BoltLog.termAt LogFile.termAt
  rw [h.snapshotIndex, h.snapshotTerm, h.get]
  cases f.get index <;> rfl

theorem loadMeta (h : Texts t f) : t.loadMeta = some (f.metaState.getD (0, [])) := by
  have hstate := h.metaState
  unfold BoltLog.loadMeta
  cases hdata : t.metaBucket.get metaKey with
  | none =>
    rw [hdata] at hstate
    rw [Option.map_eq_none_iff.mp hstate.symm]
    rfl
  | some data =>
    rw [hdata] at hstate
    obtain ⟨s, hs, hread⟩ := Option.map_eq_some_iff.mp hstate.symm
    simp only [hs, ← hread, Option.getD_some]

/-! ## Writing -/

/-- Other buckets in place of the log. -/
theorem with_log (h : Texts t f) {b : Lib.Bucket Bytes Bytes} {c : Lib.Bucket Bytes LogEntry}
    (hlog : b.map readEntry = c.map some) : Texts { t with logBucket := b } { f with log := c } :=
  { h with log := hlog }

theorem map_put {b : Lib.Bucket Bytes Bytes} {c : Lib.Bucket Bytes LogEntry}
    (h : b.map readEntry = c.map some) {e : LogEntry} (he : e.Writable) :
    (b.put (indexKey e.index) (Lib.Json.print e.toJson)).map readEntry =
      (c.put (indexKey e.index) e.stored).map some := by
  rw [Lib.Bucket.map_put, Lib.Bucket.map_put, readEntry_print he, h]

theorem append (h : Texts t f) (ok : Bool) {e : LogEntry} (he : e.Writable) :
    Option.Rel Texts (t.append ok e) (f.append ok e) := by
  unfold BoltLog.append LogFile.append
  cases ok with
  | false => exact .none
  | true => exact .some (h.with_log (map_put h.log he))

/-- The loop of `AppendBatch`. -/
theorem map_foldl {es : List LogEntry} (hes : ∀ e ∈ es, e.Writable) {b : Lib.Bucket Bytes Bytes}
    {c : Lib.Bucket Bytes LogEntry} (h : b.map readEntry = c.map some) :
    (es.foldl (fun b e => b.put (indexKey e.index) (Lib.Json.print e.toJson)) b).map readEntry =
      (es.foldl (fun c e => c.put (indexKey e.index) e.stored) c).map some := by
  induction es generalizing b c with
  | nil => exact h
  | cons e es ih =>
    obtain ⟨he, hes⟩ := List.forall_mem_cons.mp hes
    exact ih hes (map_put h he)

theorem appendBatch (h : Texts t f) (ok : Bool) {es : List LogEntry} (hes : ∀ e ∈ es, e.Writable) :
    Option.Rel Texts (t.appendBatch ok es) (f.appendBatch ok es) := by
  unfold BoltLog.appendBatch LogFile.appendBatch
  by_cases hnil : es = []
  · rw [if_pos hnil, if_pos hnil]
    exact .some h
  · rw [if_neg hnil, if_neg hnil]
    cases ok with
    | false => exact .none
    | true => exact .some (h.with_log (map_foldl hes h.log))

/-- A loop along the cursor deletes the same keys on both sides. -/
theorem map_deleteAll {b : Lib.Bucket Bytes Bytes} {c : Lib.Bucket Bytes LogEntry}
    (h : b.map readEntry = c.map some) {walk : List (Bytes × Bytes)} {walk' : List (Bytes × LogEntry)}
    (hwalk : walk.map (fun p => (p.1, readEntry p.2)) = walk'.map fun p => (p.1, some p.2)) :
    (b.deleteAll walk).map readEntry = (c.deleteAll walk').map some := by
  rw [Lib.Bucket.map_deleteAll, Lib.Bucket.map_deleteAll, h, hwalk]

theorem truncateFrom (h : Texts t f) (ok : Bool) (index : Nat) :
    Option.Rel Texts (t.truncateFrom ok index) (f.truncateFrom ok index) := by
  unfold BoltLog.truncateFrom LogFile.truncateFrom
  cases ok with
  | false => exact .none
  | true =>
    refine .some (h.with_log ?_)
    have hall : (t.logBucket.seek (indexKey index)).takeWhile (fun _ => true) =
        t.logBucket.seek (indexKey index) := List.takeWhile_eq_self_iff.mpr fun _ _ => rfl
    rw [Lib.Bucket.deleteWhile_seekFirst, hall]
    refine map_deleteAll h.log ?_
    rw [← Lib.Bucket.seek_map, ← Lib.Bucket.seek_map, h.log]

/-- The metadata of another key are as before. -/
theorem get_put_ne {key key' : Bytes} (hne : key ≠ key') (b : Lib.Bucket Bytes Bytes) (data : Bytes) :
    (b.put key' data).get key = b.get key := by
  rw [Lib.Bucket.get_put, if_neg hne]

theorem compact (h : Texts t f) (ok : Bool) {term : Nat} (hi : IsIndex index) (ht : IsIndex term) :
    Option.Rel Texts (t.compact ok index term) (f.compact ok index term) := by
  unfold BoltLog.compact LogFile.compact
  cases ok with
  | false => exact .none
  | true =>
    refine .some { h with log := ?_, metaState := ?_, metaSnapshot := ?_ }
    · rw [Lib.Bucket.deleteWhile_first]
      refine map_deleteAll h.log ?_
      have hpairs : t.logBucket.pairs.map (fun p => (p.1, readEntry p.2)) =
          f.log.pairs.map fun p => (p.1, some p.2) := congrArg Lib.Bucket.pairs h.log
      have hwhile := congrArg
        (List.takeWhile fun p : Bytes × Option LogEntry => decide (bytesToIndex p.1 ≤ index)) hpairs
      rw [List.takeWhile_map, List.takeWhile_map] at hwhile
      exact hwhile
    · rw [get_put_ne (by decide)]
      exact h.metaState
    · rw [Lib.Bucket.get_put, if_pos rfl, Option.map_some, readSnapshot_print hi ht]
      rfl

theorem saveMeta (h : Texts t f) (ok : Bool) {term : Nat} (ht : IsIndex term) (votedFor : NodeID) :
    Texts (t.saveMeta ok term votedFor)
      (if ok then { f with metaState := some (term, coerceUtf8 votedFor) } else f) := by
  unfold BoltLog.saveMeta
  cases ok with
  | false => exact h
  | true =>
    rw [if_pos rfl, if_pos rfl]
    refine { h with metaState := ?_, metaSnapshot := ?_ }
    · rw [Lib.Bucket.get_put, if_pos rfl, Option.map_some, readState_print ht]
      rfl
    · rw [get_put_ne (by decide)]
      exact h.metaSnapshot

theorem newRaftLog (h : Texts t f) : Texts t.newRaftLog f.newRaftLog := by
  have hsnap := h.metaSnapshot
  unfold BoltLog.newRaftLog LogFile.newRaftLog
  cases hdata : t.metaBucket.get snapshotKey with
  | none =>
    rw [hdata] at hsnap
    rw [Option.map_eq_none_iff.mp hsnap.symm]
    exact ⟨h.log, h.metaState, congrArg (Option.map readSnapshot) hdata, rfl, rfl⟩
  | some data =>
    rw [hdata] at hsnap
    obtain ⟨b, hb, hread⟩ := Option.map_eq_some_iff.mp hsnap.symm
    rw [hb, Option.bind_some, ← hread]
    refine ⟨h.log, h.metaState, (congrArg (Option.map readSnapshot) hdata).trans ?_, rfl, rfl⟩
    rw [Option.map_some, ← hread]
    rfl

end Texts

/-- The id that comes back of a vote. -/
theorem loadMeta_saveMeta (t : BoltLog) {term : Nat} (h : IsIndex term) (votedFor : NodeID) :
    (t.saveMeta true term votedFor).loadMeta = some (term, coerceUtf8 votedFor) := by
  rw [BoltLog.saveMeta, if_pos rfl, BoltLog.loadMeta, Lib.Bucket.get_put, if_pos rfl]
  exact readState_print h votedFor

/-! ## Whole runs -/

/-- The bytes of a log. -/
def Writes (t : BoltLog) (rl : RaftLog) : Prop := ∃ f, Texts t f ∧ f.Encodes rl

theorem writes_fresh : Writes fresh RaftLog.fresh :=
  ⟨⟨.empty, none, none, 0, 0⟩, ⟨rfl, rfl, rfl, rfl, rfl⟩, ⟨.empty, rfl, rfl, rfl, rfl⟩⟩

end BoltLog

/-- The numbers of a call are `uint64` values. -/
def FileCall.InRange : FileCall → Prop
  | .append entry => entry.Writable
  | .appendBatch entries => ∀ e ∈ entries, e.Writable
  | .truncateFrom index | .get index | .termAt index => IsIndex index
  | .compact index term => IsIndex index ∧ IsIndex term
  | .saveMeta term _ => IsIndex term
  | .getRange first last => IsIndex first ∧ IsIndex last
  | .loadMeta | .lastIndex | .lastTerm | .reopen => True

namespace BoltLog

/-- A write on both sides. -/
theorem ofWrite_same {t : BoltLog} {rl : RaftLog} (h : Writes t rl) {r : Option BoltLog}
    {r' : Option LogFile} {r'' : Option RaftLog} (htext : Option.Rel Texts r r')
    (hfile : Option.Rel LogFile.Encodes r' r'') :
    (FileAnswer.ofWrite t r).2 = (FileAnswer.ofWrite rl r'').2 ∧
      Writes (FileAnswer.ofWrite t r).1 (FileAnswer.ofWrite rl r'').1 := by
  cases htext with
  | none =>
    cases hfile
    exact ⟨rfl, h⟩
  | some ht =>
    cases hfile with
    | some hf => exact ⟨rfl, _, ht, hf⟩

/-- **One call.** -/
theorem call_same {t : BoltLog} {rl : RaftLog} {c : FileCall × Bool} (h : Writes t rl)
    (hc : c.1.InRange) : (t.call c).2 = (rl.call c).2 ∧ Writes (t.call c).1 (rl.call c).1 := by
  obtain ⟨f, ht, hf⟩ := h
  obtain ⟨c, written⟩ := c
  cases c with
  | append e => exact ofWrite_same ⟨f, ht, hf⟩ (ht.append written hc) (hf.append written hc.index)
  | appendBatch es =>
    exact ofWrite_same ⟨f, ht, hf⟩ (ht.appendBatch written hc)
      (hf.appendBatch written fun e he => (hc e he).index)
  | truncateFrom index =>
    exact ofWrite_same ⟨f, ht, hf⟩ (ht.truncateFrom written index) (hf.truncateFrom written hc)
  | compact index term =>
    exact ofWrite_same ⟨f, ht, hf⟩ (ht.compact written hc.1 hc.2) (hf.compact written hc.1 term)
  | saveMeta term votedFor =>
    refine ⟨rfl, _, ht.saveMeta written hc votedFor, ?_⟩
    cases written with
    | false => exact hf
    | true => exact { hf with metaState := rfl }
  | loadMeta =>
    refine ⟨?_, f, ht, hf⟩
    simp only [BoltLog.call, RaftLog.call, ht.loadMeta, hf.metaState, RaftLog.loadMeta]
  | get index =>
    refine ⟨?_, f, ht, hf⟩
    simp only [BoltLog.call, RaftLog.call, ht.get, hf.get hc]
  | getRange first last =>
    refine ⟨?_, f, ht, hf⟩
    simp only [BoltLog.call, RaftLog.call, ht.getRange, hf.getRange hc.1 hc.2]
  | lastIndex =>
    refine ⟨?_, f, ht, hf⟩
    simp only [BoltLog.call, RaftLog.call, ht.lastIndex, hf.lastIndex]
  | lastTerm =>
    refine ⟨?_, f, ht, hf⟩
    simp only [BoltLog.call, RaftLog.call, ht.lastTerm, hf.lastTerm]
  | termAt index =>
    refine ⟨?_, f, ht, hf⟩
    simp only [BoltLog.call, RaftLog.call, ht.termAt, hf.termAt hc]
  | reopen => exact ⟨rfl, _, ht.newRaftLog, hf.newRaftLog⟩

section Runs

variable {t : BoltLog} {rl : RaftLog} {calls : List (FileCall × Bool)}

/-- The bytes of a log answer as the log does. -/
theorem Writes.observe (h : Writes t rl) (hcalls : ∀ c ∈ calls, c.1.InRange) :
    Lib.observe BoltLog.call t calls = Lib.observe RaftLog.call rl calls := by
  have hall : List.Forall₂ (· = ·) (Lib.observe BoltLog.call t calls)
      (Lib.observe RaftLog.call rl calls) :=
    Lib.forall₂_observe (fun _ _ _ => call_same) h (Lib.always_of_forall hcalls _)
  exact List.forall₂_eq_eq_eq ▸ hall

/-- They remain the bytes of the log. -/
theorem Writes.after (h : Writes t rl) (hcalls : ∀ c ∈ calls, c.1.InRange) :
    Writes (Lib.after BoltLog.call t calls) (Lib.after RaftLog.call rl calls) :=
  Lib.rel_after (fun _ _ _ => call_same) h (Lib.always_of_forall hcalls _)

end Runs

/-- The text of an entry, and the vote for an id that is not valid UTF-8. -/
example :
    Lib.Json.print (LogEntry.toJson ⟨1, 2, ⟨.put, [107], [118], []⟩⟩) = Lib.Json.ascii
      "\x7b\"index\":1,\"term\":2,\"command\":\x7b\"op\":\"PUT\",\"key\":\"k\",\"value\":\"dg==\"\x7d\x7d" ∧
    (fresh.saveMeta true 1 [0xFF]).loadMeta = some (1, [0xEF, 0xBF, 0xBD]) := by
  decide

end BoltLog

end Raftrix
