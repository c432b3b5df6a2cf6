import Raftrix.Log.Merge

/-!
# What a log stores after its operations

One lemma for each operation of `RaftLog` and each question: `Get`, `TermAt`, `LastIndex`. They ask
nothing of the log: it may have holes, entries at or below the snapshot boundary, and a cached
boundary that the last compaction has left behind.

`LastIndex()` is the last stored index, or the cached boundary if nothing is stored
(`get_lastIndex`). So `Compact` keeps it if something above the new boundary is stored, and otherwise
sets it back to the boundary cached at start (`lastIndex_compact`).
-/

namespace Raftrix

namespace RaftLog

variable {rl rl' : RaftLog} {written : Bool}

theorem get_append {e : LogEntry} (h : rl.append written e = some rl') (k : Nat) :
    rl'.get k = if k = e.index then some e.stored else rl.get k := by
  unfold append at h
  split at h
  · cases h
    exact Lib.Bucket.get_put _ _ _ _
  · cases h

theorem termAt_append {e : LogEntry} (h : rl.append written e = some rl') {k : Nat}
    (hk : k ≠ e.index) : rl'.termAt k = rl.termAt k := by
  have hget := get_append h k
  rw [if_neg hk] at hget
  unfold termAt
  rw [hget]
  unfold append at h
  split at h
  · cases h
    rfl
  · cases h

theorem get_truncateFrom {index : Nat} (h : rl.truncateFrom written index = some rl') (k : Nat) :
    rl'.get k = if k < index then rl.get k else none := by
  unfold truncateFrom at h
  split at h
  · cases h
    exact Lib.Bucket.get_deleteAll_seek _ _ _
  · cases h

theorem get_compact {index term : Nat} (h : rl.compact written index term = some rl') (k : Nat) :
    rl'.get k = if index < k then rl.get k else none := by
  unfold compact at h
  split at h
  · cases h
    exact Lib.Bucket.get_deleteAll_upTo _ _ _
  · cases h

theorem get_saveMeta (term : Nat) (vote : NodeID) : (rl.saveMeta written term vote).get = rl.get := by
  cases written <;> rfl

theorem get_newRaftLog : rl.newRaftLog.get = rl.get := by
  unfold newRaftLog
  split <;> rfl

/-- What is stored is stored at or below `LastIndex()`. -/
theorem le_lastIndex {k : Nat} {e : LogEntry} (h : rl.get k = some e) : k ≤ rl.lastIndex := by
  unfold lastIndex
  cases hl : rl.log.last with
  | none =>
    have hnone : rl.get k = none := Lib.Bucket.last_eq_none_iff.mp hl k
    rw [h] at hnone
    exact absurd hnone (by simp)
  | some p =>
    by_contra hlt
    have hnone : rl.get k = none := (Lib.Bucket.get_last hl).2 k (Nat.not_le.mp hlt)
    rw [h] at hnone
    exact absurd hnone (by simp)

theorem get_eq_none_of_lt {k : Nat} (h : rl.lastIndex < k) : rl.get k = none := by
  cases hget : rl.get k with
  | none => rfl
  | some e => exact absurd (le_lastIndex hget) (by omega)

/-- `LastIndex()` is stored, or nothing is and it is the cached boundary. -/
theorem get_lastIndex (rl : RaftLog) : (∃ e, rl.get rl.lastIndex = some e) ∨
    (∀ k, rl.get k = none) ∧ rl.lastIndex = rl.snapshotIndex := by
  unfold lastIndex
  cases hl : rl.log.last with
  | none => exact Or.inr ⟨Lib.Bucket.last_eq_none_iff.mp hl, rfl⟩
  | some p => exact Or.inl ⟨p.2, (Lib.Bucket.get_last hl).1⟩

/-- `LastTerm()` is the term at `LastIndex()`. -/
theorem lastTerm_eq_termAt (rl : RaftLog) : rl.lastTerm = rl.termAt rl.lastIndex := by
  unfold lastTerm termAt
  rcases get_lastIndex rl with ⟨e, he⟩ | ⟨_, heq⟩
  · rw [he]
  · rw [if_pos heq, if_pos heq]

theorem lastIndex_eq_of_get {k : Nat} {e : LogEntry} (hk : rl.get k = some e)
    (habove : ∀ j, k < j → rl.get j = none) : rl.lastIndex = k := by
  refine le_antisymm ?_ (le_lastIndex hk)
  by_contra hlt
  rcases get_lastIndex rl with ⟨d, hd⟩ | ⟨hnone, _⟩
  · rw [habove _ (Nat.not_le.mp hlt)] at hd
    exact absurd hd (by simp)
  · rw [hnone] at hk
    exact absurd hk (by simp)

theorem lastIndex_eq_of_empty (h : ∀ k, rl.get k = none) : rl.lastIndex = rl.snapshotIndex := by
  rcases get_lastIndex rl with ⟨e, he⟩ | ⟨_, heq⟩
  · rw [h] at he
    exact absurd he (by simp)
  · exact heq

/-- Above the cached boundary, an index with a term is stored. -/
theorem get_of_termAt {k : Nat} (hk : rl.snapshotIndex < k) (ht : rl.termAt k ≠ 0) :
    ∃ e, rl.get k = some e ∧ e.term = rl.termAt k := by
  unfold termAt at ht ⊢
  rw [if_neg (by omega), if_neg (by omega)] at ht ⊢
  cases he : rl.get k with
  | none =>
    rw [he] at ht
    exact absurd rfl ht
  | some e => exact ⟨e, rfl, rfl⟩

section Compaction

variable {index term : Nat}

/-- `Compact` leaves the cached boundary as it was. -/
theorem cached_compact (h : rl.compact written index term = some rl') :
    rl'.snapshotIndex = rl.snapshotIndex ∧ rl'.snapshotTerm = rl.snapshotTerm := by
  unfold compact at h
  split at h
  · cases h
    exact ⟨rfl, rfl⟩
  · cases h

/-- `TermAt` at or below the new boundary: only the cached one is known. -/
theorem termAt_compact_of_le (h : rl.compact written index term = some rl') {k : Nat}
    (hk : k ≤ index) (h0 : k ≠ 0) :
    rl'.termAt k = if k = rl.snapshotIndex then rl.snapshotTerm else 0 := by
  have hget := get_compact h k
  rw [if_neg (by omega)] at hget
  unfold termAt
  rw [hget, if_neg h0, (cached_compact h).1, (cached_compact h).2]

/-- **`LastIndex()` after `Compact`.** -/
theorem lastIndex_compact (h : rl.compact written index term = some rl') :
    rl'.lastIndex = if index < rl.lastIndex then rl.lastIndex else rl.snapshotIndex := by
  have hget := get_compact h
  split
  · rename_i hlt
    rcases get_lastIndex rl with ⟨e, he⟩ | ⟨hnone, heq⟩
    · refine lastIndex_eq_of_get (e := e) (by rw [hget, if_pos hlt, he]) fun j hj => ?_
      rw [hget, get_eq_none_of_lt hj, ite_self]
    · rw [lastIndex_eq_of_empty fun k => by rw [hget, hnone, ite_self], heq, (cached_compact h).1]
  · rename_i hle
    rw [lastIndex_eq_of_empty fun k => ?_, (cached_compact h).1]
    rw [hget]
    split
    · exact get_eq_none_of_lt (by omega)
    · rfl

end Compaction

/-- Every entry is stored under its own index. -/
def Keyed (rl : RaftLog) : Prop := ∀ k e, rl.get k = some e → e.index = k

/-- The entries of a request carry the indices from `prev + 1` on. -/
def Indexed (prev : Nat) (qs : List LogEntry) : Prop :=
  ∀ j q, qs[j]? = some q → q.index = prev + j + 1

theorem Keyed.append {e : LogEntry} (h : rl.Keyed) (ha : rl.append written e = some rl') :
    rl'.Keyed := by
  intro k d hd
  rw [get_append ha] at hd
  split at hd
  · rename_i hk
    obtain rfl := Option.some.inj hd
    exact hk.symm
  · exact h k d hd

theorem Keyed.truncateFrom {index : Nat} (h : rl.Keyed)
    (ht : rl.truncateFrom written index = some rl') : rl'.Keyed := by
  intro k d hd
  rw [get_truncateFrom ht] at hd
  split at hd
  · exact h k d hd
  · exact absurd hd (by simp)

/-- What a range has is stored. -/
theorem get_of_mem_getRangeFrom {n first : Nat} {q : LogEntry} (h : q ∈ rl.getRangeFrom n first) :
    ∃ k, rl.get k = some q := by
  induction n generalizing first with
  | zero => exact absurd h List.not_mem_nil
  | succ n ih =>
    rw [getRangeFrom] at h
    cases hget : rl.get first with
    | none =>
      rw [hget] at h
      exact absurd h List.not_mem_nil
    | some e =>
      rw [hget] at h
      rcases List.mem_cons.mp h with rfl | h
      · exact ⟨first, hget⟩
      · exact ih h

/-- The entries of a range carry their indices. -/
theorem Keyed.getRangeFrom (h : rl.Keyed) : ∀ (n first j : Nat) (q : LogEntry),
    (rl.getRangeFrom n first)[j]? = some q → q.index = first + j
  | 0, _, j, q, hq => absurd hq (by simp [RaftLog.getRangeFrom])
  | n + 1, first, j, q, hq => by
    rw [RaftLog.getRangeFrom] at hq
    cases hget : rl.get first with
    | none =>
      rw [hget] at hq
      exact absurd hq (by simp)
    | some e =>
      rw [hget] at hq
      cases j with
      | zero =>
        obtain rfl : e = q := by simpa using hq
        exact h first e hget
      | succ j =>
        have := Keyed.getRangeFrom h n (first + 1) j q (by simpa using hq)
        omega

/-! ## The loop of `HandleAppendEntries`, round by round -/

/-- One round of the loop that changes the log or skips its entry `q` at index `idx`. -/
inductive Round (rl : RaftLog) (idx : Nat) (q : LogEntry) : RaftLog → Prop
  | skipped (h0 : rl.termAt idx ≠ 0) (ht : rl.termAt idx = q.term) : Round rl idx q rl
  | appended {written : Bool} {rl' : RaftLog} (h0 : rl.termAt idx = 0)
      (ha : rl.append written q = some rl') : Round rl idx q rl'
  | cut {written : Bool} {rl' : RaftLog} (h0 : rl.termAt idx ≠ 0) (ht : rl.termAt idx ≠ q.term)
      (htr : rl.truncateFrom written idx = some rl') : Round rl idx q rl'

section Rounds

variable {disk : Disk} {prev : Nat} {qs : List LogEntry}

/-- The loop stops at a write that fails, or goes on after a round. -/
theorem appendEntries_cons (disk : Disk) (prev i : Nat) (rl : RaftLog) (q : LogEntry)
    (qs : List LogEntry) :
    ((rl.appendEntries disk prev i (q :: qs)).log = rl ∧
      (rl.appendEntries disk prev i (q :: qs)).ok = false) ∨
    ∃ rl', Round rl (prev + i + 1) q rl' ∧
      (rl.appendEntries disk prev i (q :: qs)).log = (rl'.appendEntries disk prev (i + 1) qs).log ∧
      (rl.appendEntries disk prev i (q :: qs)).ok = (rl'.appendEntries disk prev (i + 1) qs).ok := by
  by_cases h0 : rl.termAt (prev + i + 1) = 0
  · rw [appendEntries_missing h0]
    cases ha : rl.append (disk (i + 1)) q with
    | none => exact Or.inl ⟨rfl, rfl⟩
    | some rl' => exact Or.inr ⟨rl', .appended h0 ha, rfl, rfl⟩
  · by_cases ht : rl.termAt (prev + i + 1) = q.term
    · rw [appendEntries_skip h0 ht]
      exact Or.inr ⟨rl, .skipped h0 ht, rfl, rfl⟩
    · rw [appendEntries_conflict h0 ht]
      cases htr : rl.truncateFrom (disk (i + 1)) (prev + i + 1) with
      | none => exact Or.inl ⟨rfl, rfl⟩
      | some rl' => exact Or.inr ⟨rl', .cut h0 ht htr, rfl, rfl⟩

theorem appendEntries_rounds_from (disk : Disk) (prev : Nat) {P : Nat → RaftLog → Prop} :
    ∀ (qs : List LogEntry) (i : Nat) (rl : RaftLog), P i rl →
    (∀ j q m m', qs[j]? = some q → P (i + j) m → Round m (prev + (i + j) + 1) q m' →
      P (i + j + 1) m') →
    ∃ j ≤ qs.length, P (i + j) (rl.appendEntries disk prev i qs).log ∧
      ((rl.appendEntries disk prev i qs).ok = true → j = qs.length)
  | [], i, rl, h, _ => ⟨0, le_refl _, h, fun _ => rfl⟩
  | q :: qs, i, rl, h, hround => by
    rcases appendEntries_cons disk prev i rl q qs with ⟨hlog, hok⟩ | ⟨rl', hr, hlog, hok⟩
    · rw [hlog, hok]
      exact ⟨0, Nat.zero_le _, h, fun h => absurd h (by simp)⟩
    · rw [hlog, hok]
      obtain ⟨j, hj, hP, hall⟩ := appendEntries_rounds_from disk prev qs (i + 1) rl'
        (hround 0 q rl rl' rfl h hr) fun j r m m' hr' => by
          rw [show i + 1 + j = i + (j + 1) by omega]
          exact hround (j + 1) r m m' (by rw [List.getElem?_cons_succ]; exact hr')
      rw [show i + 1 + j = i + (j + 1) by omega] at hP
      exact ⟨j + 1, Nat.succ_le_succ hj, hP, fun h => congrArg Nat.succ (hall h)⟩

/-- **The rule for the loop of `HandleAppendEntries`.** What holds of the log at the start and is kept
by the round for each entry holds at the end, for the number of entries the loop got through: all of
them unless a write failed. -/
theorem appendEntries_rounds (disk : Disk) (prev : Nat) (qs : List LogEntry)
    {P : Nat → RaftLog → Prop} (h : P 0 rl)
    (hround : ∀ j q m m', qs[j]? = some q → P j m → Round m (prev + j + 1) q m' → P (j + 1) m') :
    ∃ j ≤ qs.length, P j (rl.appendEntries disk prev 0 qs).log ∧
      ((rl.appendEntries disk prev 0 qs).ok = true → j = qs.length) := by
  obtain ⟨j, hj, hP, hall⟩ := appendEntries_rounds_from disk prev qs 0 rl h fun j q m m' hq => by
    rw [Nat.zero_add]
    exact hround j q m m' hq
  rw [Nat.zero_add] at hP
  exact ⟨j, hj, hP, hall⟩

theorem Keyed.appendEntries (h : rl.Keyed) : (rl.appendEntries disk prev 0 qs).log.Keyed := by
  obtain ⟨_, _, hkeyed, _⟩ := appendEntries_rounds disk prev qs (P := fun _ m => m.Keyed) h
    fun _ _ _ _ _ hm hr => by
      cases hr with
      | skipped _ _ => exact hm
      | appended _ ha => exact hm.append ha
      | cut _ _ htr => exact hm.truncateFrom htr
  exact hkeyed

/-- Above its index a round leaves the terms alone, or the log has nothing there any more. -/
theorem Round.get_above {idx : Nat} {q : LogEntry} (h : Round rl idx q rl') (hq : q.index = idx)
    {k : Nat} (hk : idx < k) : rl'.get k = rl.get k ∨ rl'.get k = none := by
  cases h with
  | skipped _ _ => exact Or.inl rfl
  | appended _ ha =>
    rw [get_append ha, if_neg (by omega)]
    exact Or.inl rfl
  | cut _ _ htr =>
    rw [get_truncateFrom htr, if_neg (by omega)]
    exact Or.inr rfl

/-- **The loop of `HandleAppendEntries` spares an index** at or below which nothing conflicts. -/
theorem get_appendEntries_spared {index : Nat}
    (hidx : Indexed prev qs)
    (hspare : ∀ j q, qs[j]? = some q → prev + j + 1 ≤ index →
      rl.termAt (prev + j + 1) ≠ 0 ∧ rl.termAt (prev + j + 1) = q.term ∨
        rl.termAt (prev + j + 1) = 0 ∧ prev + j + 1 ≠ index) :
    (rl.appendEntries disk prev 0 qs).log.get index = rl.get index := by
  have hrun := appendEntries_rounds disk prev qs (P := fun j m => m.get index = rl.get index ∧
    ∀ k, prev + j < k → k ≤ index → m.termAt k = rl.termAt k) ⟨rfl, fun _ _ _ => rfl⟩ ?_
  · obtain ⟨_, _, ⟨hget, _⟩, _⟩ := hrun
    exact hget
  · rintro j q m m' hq ⟨hget, hterm⟩ hr
    have hindex := hidx j q hq
    cases hr with
    | skipped _ _ => exact ⟨hget, fun k hk => hterm k (by omega)⟩
    | appended h0 ha =>
      refine ⟨?_, fun k hk hle => (termAt_append ha (by omega)).trans (hterm k (by omega) hle)⟩
      rw [get_append ha, if_neg, hget]
      intro heq
      rw [hterm _ (by omega) (by omega)] at h0
      rcases hspare j q hq (by omega) with ⟨hne, _⟩ | ⟨_, hne⟩
      · exact hne h0
      · exact hne (by omega)
    | cut h0 ht htr =>
      -- the truncation starts above the index
      have hlt : index < prev + j + 1 := by
        by_contra hle
        rw [hterm _ (by omega) (by omega)] at h0 ht
        rcases hspare j q hq (by omega) with ⟨_, heq⟩ | ⟨hzero, _⟩
        · exact ht heq
        · exact h0 hzero
      refine ⟨?_, fun k hk hle => absurd hk (by omega)⟩
      rw [get_truncateFrom htr, if_pos hlt, hget]

end Rounds

end RaftLog

end Raftrix
