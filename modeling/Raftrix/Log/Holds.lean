import Mathlib.Data.List.GetD
import Raftrix.Model.Log

/-!
# The log as a list

A log that was never compacted and has no gap is a list: the entry of index `i` is the list's
element `i - 1`. `Holds rl es` says so, with the conditions every entry written by this program
meets (`Listed`): it carries its own index, its term is at least `1`, and it is what the JSON
encoding gives back. The reading functions answer as on the list, and each write is a list
operation:

* `Holds.lastIndex`, `Holds.termAt`, `Holds.lastTerm`, `Holds.getRange`;
* `Holds.append` needs the index to be `LastIndex() + 1`; `Holds.truncateFrom` is `take`.

`entries` reads the list off the bucket (`Holds.entries_eq`).
-/

namespace Raftrix

/-- A well-formed list of entries, the first one having index `1`. -/
def Listed (es : List LogEntry) : Prop :=
  ∀ k e, es[k]? = some e → e.index = k + 1 ∧ 1 ≤ e.term ∧ e.stored = e

/-- The term at index `i` of a list of entries, `0` when there is none. -/
def termOf (es : List LogEntry) (i : Nat) : Nat :=
  if i = 0 then 0 else ((es[i - 1]?).map LogEntry.term).getD 0

theorem Listed.nil : Listed [] := fun k e h => by simp at h

theorem Listed.of_le {es es' : List LogEntry} (h : Listed es') (hle : es <+: es') : Listed es := by
  intro k e hk
  obtain ⟨t, rfl⟩ := hle
  have hlt : k < es.length := (List.getElem?_eq_some_iff.mp hk).1
  exact h k e (by rw [List.getElem?_append_left hlt]; exact hk)

theorem Listed.term_pos {es : List LogEntry} (h : Listed es) {e : LogEntry} (he : e ∈ es) :
    1 ≤ e.term := by
  obtain ⟨k, hk, rfl⟩ := List.mem_iff_getElem.mp he
  exact (h k _ (List.getElem?_eq_getElem hk)).2.1

/-- What is read from a list with one more element at its end. -/
theorem getElem?_concat_cases {α : Type} {l : List α} {x y : α} {k : Nat}
    (h : (l ++ [x])[k]? = some y) : l[k]? = some y ∨ k = l.length ∧ y = x := by
  rcases Nat.lt_or_ge k l.length with hlt | hge
  · rw [List.getElem?_append_left hlt] at h
    exact Or.inl h
  · have hlt := (List.getElem?_eq_some_iff.mp h).1
    rw [List.length_append, List.length_singleton] at hlt
    obtain rfl : k = l.length := by omega
    rw [List.getElem?_concat_length] at h
    exact Or.inr ⟨rfl, (Option.some.inj h).symm⟩

theorem Listed.concat {es : List LogEntry} (h : Listed es) {e : LogEntry}
    (hi : e.index = es.length + 1) (ht : 1 ≤ e.term) (hs : e.stored = e) : Listed (es ++ [e]) := by
  intro k x hk
  rcases getElem?_concat_cases hk with hk | ⟨rfl, rfl⟩
  · exact h k x hk
  · exact ⟨hi, ht, hs⟩

theorem termOf_pos {es : List LogEntry} (h : Listed es) {i : Nat} :
    termOf es i = 0 ↔ i = 0 ∨ es.length < i := by
  unfold termOf
  split
  · rename_i h0
    simp [h0]
  · rename_i h0
    rcases Nat.lt_or_ge (i - 1) es.length with hlt | hge
    · rw [List.getElem?_eq_getElem hlt]
      have := h.term_pos (List.getElem_mem hlt)
      simp only [Option.map_some, Option.getD_some]
      omega
    · rw [List.getElem?_eq_none hge]
      simp only [Option.map_none, Option.getD_none, true_iff]
      omega

theorem termOf_eq {es : List LogEntry} {k : Nat} {e : LogEntry} (h : es[k]? = some e) :
    termOf es (k + 1) = e.term := by
  simp [termOf, h]

theorem termOf_take {es : List LogEntry} {n i : Nat} (h : i ≤ n) :
    termOf (es.take n) i = termOf es i := by
  unfold termOf
  split
  · rfl
  · rw [List.getElem?_take, if_pos (by omega)]

namespace RaftLog

/-- The entries of the bucket, by ascending index. -/
def entries (rl : RaftLog) : List LogEntry := rl.log.pairs.map Prod.snd

/-- The log is exactly the list `es`, starting at index `1`, and was never compacted. -/
structure Holds (rl : RaftLog) (es : List LogEntry) : Prop where
  get : ∀ i, rl.get i = if i = 0 then none else es[i - 1]?
  listed : Listed es
  boundary : rl.snapshotIndex = 0
  record : rl.metaSnapshot = none

/-- The bucket of a list of entries. -/
def bucketOf (es : List LogEntry) : Lib.Bucket Nat LogEntry where
  pairs := es.mapIdx fun k e => (k + 1, e)
  sorted := by
    rw [List.pairwise_iff_getElem]
    intro i j hi hj hij
    simp only [List.getElem_mapIdx]
    omega

theorem get_bucketOf (es : List LogEntry) (i : Nat) :
    (bucketOf es).get i = if i = 0 then none else es[i - 1]? := by
  ext e
  rw [Lib.Bucket.get_eq_some_iff, bucketOf, List.mem_mapIdx]
  constructor
  · rintro ⟨k, hk, heq⟩
    obtain ⟨rfl, rfl⟩ := Prod.mk.inj heq
    rw [if_neg (by omega), Nat.add_sub_cancel, List.getElem?_eq_getElem hk]
  · intro h
    split at h
    · exact absurd h (by simp)
    · rename_i h0
      obtain ⟨hk, rfl⟩ := List.getElem?_eq_some_iff.mp h
      exact ⟨i - 1, hk, by rw [Nat.sub_add_cancel (Nat.pos_of_ne_zero h0)]⟩

variable {rl : RaftLog} {es : List LogEntry}

theorem Holds.bucket (h : rl.Holds es) : rl.log = bucketOf es :=
  Lib.Bucket.ext_get fun i => by rw [get_bucketOf]; exact h.get i

theorem Holds.entries_eq (h : rl.Holds es) : rl.entries = es := by
  rw [entries, h.bucket, bucketOf]
  apply List.ext_getElem?
  intro k
  rw [List.getElem?_map, List.getElem?_mapIdx]
  cases es[k]? <;> rfl

/-! ## Reading -/

theorem Holds.get_succ (h : rl.Holds es) (k : Nat) : rl.get (k + 1) = es[k]? := by
  rw [h.get, if_neg (by omega), Nat.add_sub_cancel]

theorem Holds.lastIndex (h : rl.Holds es) : rl.lastIndex = es.length := by
  rw [RaftLog.lastIndex, h.bucket, Lib.Bucket.last, bucketOf]
  rcases List.eq_nil_or_concat es with rfl | ⟨init, e, rfl⟩
  · simp [h.boundary]
  · simp [List.mapIdx_append]

theorem Holds.termAt (h : rl.Holds es) (i : Nat) : rl.termAt i = termOf es i := by
  unfold RaftLog.termAt termOf
  split
  · rfl
  · rename_i h0
    rw [if_neg (by rw [h.boundary]; exact h0), h.get, if_neg h0]
    cases es[i - 1]? <;> rfl

/-- The term read at an index that is taken. -/
theorem Holds.termAt_taken (h : rl.Holds es) {k : Nat} {e : LogEntry} (he : es[k]? = some e) :
    rl.termAt (k + 1) = e.term ∧ rl.termAt (k + 1) ≠ 0 := by
  have hread : rl.termAt (k + 1) = e.term := by rw [h.termAt, termOf_eq he]
  have := h.listed.term_pos (List.mem_of_getElem? he)
  exact ⟨hread, by omega⟩

/-- The term read above the end. -/
theorem Holds.termAt_missing (h : rl.Holds es) {k : Nat} (hk : es.length ≤ k) :
    rl.termAt (k + 1) = 0 := by
  rw [h.termAt, termOf_pos h.listed]
  omega

theorem Holds.lastTerm (h : rl.Holds es) : rl.lastTerm = termOf es es.length := by
  unfold RaftLog.lastTerm
  rw [h.lastIndex, h.boundary, h.get]
  unfold termOf
  split
  · rfl
  · rename_i h0
    have hlt : es.length - 1 < es.length := by omega
    rw [List.getElem?_eq_getElem hlt]
    rfl

theorem Holds.getRangeFrom (h : rl.Holds es) (n k : Nat) :
    rl.getRangeFrom n (k + 1) = (es.drop k).take n := by
  induction n generalizing k with
  | zero => rfl
  | succ n ih =>
    simp only [RaftLog.getRangeFrom, h.get_succ]
    rcases Nat.lt_or_ge k es.length with hlt | hge
    · rw [List.getElem?_eq_getElem hlt, List.drop_eq_getElem_cons hlt, List.take_succ_cons]
      simp only [ih]
    · rw [List.getElem?_eq_none hge, List.drop_eq_nil_of_le hge, List.take_nil]

/-- The entries a leader sends: everything from `first` on. -/
theorem Holds.getRange (h : rl.Holds es) {first : Nat} (hf : 1 ≤ first) :
    rl.getRange first rl.lastIndex = es.drop (first - 1) := by
  obtain ⟨k, rfl⟩ : ∃ k, first = k + 1 := ⟨first - 1, by omega⟩
  rw [RaftLog.getRange, h.getRangeFrom, h.lastIndex, Nat.add_sub_cancel, List.take_of_length_le]
  rw [List.length_drop]
  omega

/-! ## Writing -/

theorem holds_fresh : fresh.Holds [] where
  get i := by simp [RaftLog.get, fresh]
  listed := .nil
  boundary := rfl
  record := rfl

theorem Holds.saveMeta (h : rl.Holds es) (ok : Bool) (term : Nat) (vote : NodeID) :
    (rl.saveMeta ok term vote).Holds es := by
  cases ok with
  | false => exact h
  | true => exact ⟨h.get, h.listed, h.boundary, h.record⟩

theorem Holds.newRaftLog (h : rl.Holds es) : rl.newRaftLog.Holds es := by
  unfold RaftLog.newRaftLog
  rw [h.record]
  exact ⟨h.get, h.listed, rfl, rfl⟩

/-- **`Append` at `LastIndex() + 1` adds the entry.** -/
theorem Holds.append (h : rl.Holds es) {e : LogEntry} (hi : e.index = es.length + 1)
    (ht : 1 ≤ e.term) {ok : Bool} {rl' : RaftLog} (ha : rl.append ok e = some rl') :
    rl'.Holds (es ++ [e.stored]) := by
  unfold RaftLog.append at ha
  split at ha
  · cases ha
    refine ⟨fun i => ?_, h.listed.concat hi ht e.stored_stored, h.boundary, h.record⟩
    have hget : rl.log.get i = if i = 0 then none else es[i - 1]? := h.get i
    rw [RaftLog.get, Lib.Bucket.get_put, hget, hi]
    by_cases hlast : i = es.length + 1
    · subst hlast
      simp
    · rw [if_neg hlast]
      split
      · rfl
      · rcases Nat.lt_or_ge (i - 1) es.length with hlt | hge
        · rw [List.getElem?_append_left hlt]
        · rw [List.getElem?_eq_none hge, List.getElem?_eq_none (by
            rw [List.length_append, List.length_singleton]; omega)]
  · cases ha

/-- **`TruncateFrom` keeps what is below the index.** -/
theorem Holds.truncateFrom (h : rl.Holds es) {i : Nat} {ok : Bool} {rl' : RaftLog}
    (ht : rl.truncateFrom ok i = some rl') : rl'.Holds (es.take (i - 1)) := by
  unfold RaftLog.truncateFrom at ht
  split at ht
  · cases ht
    refine ⟨fun j => ?_, h.listed.of_le (List.take_prefix _ _), h.boundary, h.record⟩
    have hget : rl.log.get j = if j = 0 then none else es[j - 1]? := h.get j
    rw [RaftLog.get, Lib.Bucket.get_deleteAll_seek, hget, List.getElem?_take]
    by_cases h0 : j = 0
    · simp [h0]
    · simp only [if_neg h0]
      by_cases hj : j < i
      · rw [if_pos hj, if_pos (by omega)]
      · rw [if_neg hj, if_neg (by omega)]
  · cases ht

end RaftLog

end Raftrix
