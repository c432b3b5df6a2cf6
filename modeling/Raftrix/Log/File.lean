import Mathlib.Data.Option.Defs
import Raftrix.Lib.KeyCode
import Raftrix.Model.Log
import Raftrix.Model.LogFile

/-!
# The log file is the log

The eight big-endian bytes of an index below `2 ^ 64` are ordered as the index is, so `keyCode` is a
`Lib.KeyCode`, and a file that `Encodes` a log keeps doing so under every write: `append`,
`appendBatch`, `truncateFrom`, `compact`, `newRaftLog`. All reads answer alike. The rest of the
development therefore works with `RaftLog`, whose keys are the indices themselves.
-/

namespace Raftrix

/-- Indices are `uint64` values. -/
def IsIndex (index : Nat) : Prop := index < 2 ^ 64

instance (index : Nat) : Decidable (IsIndex index) :=
  inferInstanceAs (Decidable (index < 2 ^ 64))

/-- `indexKey` keeps the order of indices. -/
def keyCode : Lib.KeyCode Nat Bytes where
  encode := indexKey
  valid := IsIndex
  lt_iff hx hy := Lib.BigEndian.encode_lt_encode_iff (w := 8) hx hy

theorem bytesToIndex_indexKey {index : Nat} (h : IsIndex index) :
    bytesToIndex (indexKey index) = index :=
  Lib.BigEndian.decode_encode (w := 8) h

namespace LogFile

/-- The file of a log. -/
structure Encodes (f : LogFile) (rl : RaftLog) : Prop where
  log : keyCode.Codes rl.log f.log
  metaState : f.metaState = rl.metaState
  metaSnapshot : f.metaSnapshot = rl.metaSnapshot
  snapshotIndex : f.snapshotIndex = rl.snapshotIndex
  snapshotTerm : f.snapshotTerm = rl.snapshotTerm

variable {f : LogFile} {rl : RaftLog} {index : Nat}

namespace Encodes

/-! ## Reading -/

theorem get (h : Encodes f rl) (hi : IsIndex index) : f.get index = rl.get index := h.log.get index hi

theorem getRangeFrom (h : Encodes f rl) : ∀ (n first : Nat), first + n ≤ 2 ^ 64 →
    f.getRangeFrom n first = rl.getRangeFrom n first
  | 0, _, _ => rfl
  | n + 1, first, hle => by
    have hi : IsIndex first := by
      unfold IsIndex
      omega
    rw [LogFile.getRangeFrom, RaftLog.getRangeFrom, h.get hi]
    cases rl.get first with
    | none => rfl
    | some e => exact congrArg (e :: ·) (getRangeFrom h n (first + 1) (by omega))

theorem getRange (h : Encodes f rl) {first last : Nat} (hf : IsIndex first) (hl : IsIndex last) :
    f.getRange first last = rl.getRange first last := by
  unfold IsIndex at hf hl
  exact h.getRangeFrom _ _ (by omega)

theorem lastIndex (h : Encodes f rl) : f.lastIndex = rl.lastIndex := by
  rw [LogFile.lastIndex, RaftLog.lastIndex, h.log.last]
  cases hlast : rl.log.last with
  | none => exact h.snapshotIndex
  | some p => exact bytesToIndex_indexKey (h.log.keys _ _ (Lib.Bucket.get_last hlast).1)

/-- An index that is not the boundary's is read from the bucket. -/
theorem get_lastIndex (h : Encodes f rl) (hne : rl.lastIndex ≠ rl.snapshotIndex) :
    f.get rl.lastIndex = rl.get rl.lastIndex := by
  refine h.get ?_
  unfold RaftLog.lastIndex at hne ⊢
  cases hlast : rl.log.last with
  | none =>
    rw [hlast] at hne
    exact absurd rfl hne
  | some p => exact h.log.keys _ _ (Lib.Bucket.get_last hlast).1

theorem lastTerm (h : Encodes f rl) : f.lastTerm = rl.lastTerm := by
  unfold LogFile.lastTerm RaftLog.lastTerm
  rw [h.lastIndex, h.snapshotIndex, h.snapshotTerm]
  by_cases heq : rl.lastIndex = rl.snapshotIndex
  · simp only [heq, if_true]
  · have hget := h.get_lastIndex heq
    cases hlast : rl.get rl.lastIndex <;> simp only [hget, hlast]

theorem termAt (h : Encodes f rl) (hi : IsIndex index) : f.termAt index = rl.termAt index := by
  unfold LogFile.termAt RaftLog.termAt
  rw [h.snapshotIndex, h.snapshotTerm]
  cases hget : rl.get index <;> simp only [h.get hi, hget]

/-! ## Writing -/

/-- Another bucket in place of the log. -/
theorem with_log (h : Encodes f rl) {b : Lib.Bucket Nat LogEntry} {c : Lib.Bucket Bytes LogEntry}
    (hlog : keyCode.Codes b c) : Encodes { f with log := c } { rl with log := b } :=
  { h with log := hlog }

theorem append (h : Encodes f rl) (ok : Bool) {e : LogEntry} (he : IsIndex e.index) :
    Option.Rel Encodes (f.append ok e) (rl.append ok e) := by
  unfold LogFile.append RaftLog.append
  cases ok with
  | false => exact .none
  | true => exact .some (h.with_log (h.log.put he))

/-- The loop of `AppendBatch`. -/
theorem codes_foldl {es : List LogEntry} (hes : ∀ e ∈ es, IsIndex e.index)
    {b : Lib.Bucket Nat LogEntry} {c : Lib.Bucket Bytes LogEntry} (h : keyCode.Codes b c) :
    keyCode.Codes (es.foldl (fun log e => log.put e.index e.stored) b)
      (es.foldl (fun log e => log.put (indexKey e.index) e.stored) c) := by
  induction es generalizing b c with
  | nil => exact h
  | cons e es ih =>
    obtain ⟨he, hes⟩ := List.forall_mem_cons.mp hes
    exact ih hes (h.put he)

theorem appendBatch (h : Encodes f rl) (ok : Bool) {es : List LogEntry}
    (hes : ∀ e ∈ es, IsIndex e.index) :
    Option.Rel Encodes (f.appendBatch ok es) (rl.appendBatch ok es) := by
  unfold LogFile.appendBatch RaftLog.appendBatch
  by_cases hnil : es = []
  · rw [if_pos hnil, if_pos hnil]
    exact .some h
  · rw [if_neg hnil, if_neg hnil]
    cases ok with
    | false => exact .none
    | true => exact .some (h.with_log (codes_foldl hes h.log))

theorem truncateFrom (h : Encodes f rl) (ok : Bool) (hi : IsIndex index) :
    Option.Rel Encodes (f.truncateFrom ok index) (rl.truncateFrom ok index) := by
  unfold LogFile.truncateFrom RaftLog.truncateFrom
  cases ok with
  | false => exact .none
  | true => exact .some (h.with_log (h.log.deleteAll_seek hi))

/-- `Compact` compares indices; comparing keys comes to the same. -/
theorem takeWhile_eq (h : Encodes f rl) (hi : IsIndex index) :
    (f.log.pairs.takeWhile fun p => bytesToIndex p.1 ≤ index) = f.log.upTo (indexKey index) := by
  have hkey : ∀ p ∈ f.log.pairs, (bytesToIndex p.1 ≤ index ↔ p.1 ≤ indexKey index) := by
    intro p hp
    obtain ⟨k, hk, heq⟩ := h.log.onto p.1 p.2 (Lib.Bucket.get_eq_some_iff.mpr hp)
    have hread : bytesToIndex p.1 = k := heq ▸ bytesToIndex_indexKey hk
    rw [hread, ← heq]
    exact (keyCode.le_iff hk hi).symm
  unfold Lib.Bucket.upTo
  generalize f.log.pairs = ps at hkey ⊢
  induction ps with
  | nil => rfl
  | cons p rest ih =>
    obtain ⟨hp, hrest⟩ := List.forall_mem_cons.mp hkey
    rw [List.takeWhile_cons, List.takeWhile_cons, ih hrest]
    simp only [hp]

theorem compact (h : Encodes f rl) (ok : Bool) (hi : IsIndex index) (term : Nat) :
    Option.Rel Encodes (f.compact ok index term) (rl.compact ok index term) := by
  unfold LogFile.compact RaftLog.compact
  cases ok with
  | false => exact .none
  | true =>
    refine .some { h with log := ?_, metaSnapshot := rfl }
    rw [h.takeWhile_eq hi]
    exact h.log.deleteAll_upTo hi

theorem newRaftLog (h : Encodes f rl) : Encodes f.newRaftLog rl.newRaftLog := by
  unfold LogFile.newRaftLog RaftLog.newRaftLog
  rw [h.metaSnapshot]
  cases rl.metaSnapshot with
  | none => exact ⟨h.log, h.metaState, rfl, rfl, rfl⟩
  | some p => exact ⟨h.log, h.metaState, rfl, rfl, rfl⟩

end Encodes

end LogFile

end Raftrix
