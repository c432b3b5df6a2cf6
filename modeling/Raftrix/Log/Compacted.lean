import Raftrix.Log.Boundary

/-!
# What a compaction changes of the log's answers

`Compact(i, t)` discards the entries up to `i` and is meant to leave every other answer as it was: the
boundary is `(i, t)`, `LastIndex()` and `LastTerm()` are the old ones, and so is `TermAt` from `i` on
(`KeepsAnswers`). The five observers read the boundary from the struct, and `Compact` writes it to the
file only.

* After a restart the law holds for every contiguous log and every `i` between its boundary and its end
  (`keepsAnswers_reopened`): for part of the log, for all of it, and for none.
* In the running process it holds exactly if the boundary does not move (**`compact_keeps_answers_iff`**).
-/

namespace Raftrix

namespace RaftLog

variable {rl rl' : RaftLog} {written : Bool} {index term : Nat}

/-- The stored entries are those between the cached boundary and `LastIndex()`. -/
structure Contiguous (rl : RaftLog) : Prop where
  above : ∀ k e, rl.get k = some e → rl.snapshotIndex < k
  filled : ∀ k, rl.snapshotIndex < k → k ≤ rl.lastIndex → (rl.get k).isSome = true

theorem Contiguous.get_of_le (h : rl.Contiguous) {k : Nat} (hk : k ≤ rl.snapshotIndex) :
    rl.get k = none := by
  cases hget : rl.get k with
  | none => rfl
  | some e => exact absurd (h.above k e hget) (Nat.not_lt.mpr hk)

theorem Contiguous.snapshotIndex_le (h : rl.Contiguous) : rl.snapshotIndex ≤ rl.lastIndex := by
  rcases get_lastIndex rl with ⟨e, he⟩ | ⟨_, heq⟩
  · exact Nat.le_of_lt (h.above _ e he)
  · exact heq.ge

/-- The observers answer as those of `rl`, with the boundary at `index`. -/
structure KeepsAnswers (rl rl' : RaftLog) (index term : Nat) : Prop where
  snapshotIndex : rl'.snapshotIndex = index
  snapshotTerm : rl'.snapshotTerm = term
  lastIndex : rl'.lastIndex = rl.lastIndex
  lastTerm : rl'.lastTerm = rl.lastTerm
  termAt : ∀ j, index ≤ j → rl'.termAt j = rl.termAt j
  get : ∀ j, index < j → rl'.get j = rl.get j
  gone : ∀ j ≤ index, rl'.get j = none

/-- A log with the boundary at `index`, the entries above it and nothing else answers like `rl`. -/
theorem KeepsAnswers.of_get (h : rl.Contiguous) (hlo : rl.snapshotIndex ≤ index)
    (hhi : index ≤ rl.lastIndex) (hindex : rl'.snapshotIndex = index)
    (hterm : rl'.snapshotTerm = rl.termAt index)
    (hget : ∀ k, rl'.get k = if index < k then rl.get k else none) :
    KeepsAnswers rl rl' index (rl.termAt index) := by
  have hkept : ∀ j, index < j → rl'.get j = rl.get j := fun j hj => by rw [hget, if_pos hj]
  have hgone : ∀ j ≤ index, rl'.get j = none := fun j hj => by rw [hget, if_neg (Nat.not_lt.mpr hj)]
  have hlast : rl'.lastIndex = rl.lastIndex := by
    by_cases hpart : index < rl.lastIndex
    · -- the last entry is still there
      obtain ⟨e, he⟩ := Option.isSome_iff_exists.mp (h.filled rl.lastIndex (by omega) (le_refl _))
      refine lastIndex_eq_of_get ((hkept _ hpart).trans he) fun j hj => ?_
      rw [hkept j (by omega)]
      exact get_eq_none_of_lt hj
    · -- nothing is left, and the boundary is the end
      rw [lastIndex_eq_of_empty fun k => ?_, hindex]
      · omega
      · by_cases hk : index < k
        · rw [hkept k hk]
          exact get_eq_none_of_lt (by omega)
        · exact hgone k (Nat.not_lt.mp hk)
  have htermAt : ∀ j, index ≤ j → rl'.termAt j = rl.termAt j := by
    intro j hj
    by_cases hi : j = index
    · subst hi
      by_cases h0 : j = 0
      · rw [RaftLog.termAt, RaftLog.termAt, if_pos h0, if_pos h0]
      · rw [RaftLog.termAt, if_neg h0, if_pos hindex.symm, hterm]
    · rw [RaftLog.termAt, RaftLog.termAt, if_neg (by omega), if_neg (by omega), if_neg (by omega),
        if_neg (by omega), hkept j (by omega)]
  refine ⟨hindex, hterm, hlast, ?_, htermAt, hkept, hgone⟩
  rw [lastTerm_eq_termAt, lastTerm_eq_termAt, hlast, htermAt _ hhi]

/-- **After a restart** every compaction keeps the answers. -/
theorem keepsAnswers_reopened (h : rl.Contiguous) (hlo : rl.snapshotIndex ≤ index)
    (hhi : index ≤ rl.lastIndex) (hc : rl.compact written index (rl.termAt index) = some rl') :
    KeepsAnswers rl rl'.newRaftLog index (rl.termAt index) := by
  have hbounds : rl'.newRaftLog.cached = (index, rl.termAt index) :=
    rl'.bounds_newRaftLog.2.trans (bounds_compact hc).1
  obtain ⟨hindex, hterm⟩ := Prod.mk.inj hbounds
  refine .of_get h hlo hhi hindex hterm fun k => ?_
  rw [get_newRaftLog]
  exact get_compact hc k

/-- **`Compact` keeps the log's answers after a restart, and in the running process exactly if the
boundary stays where it is.** For every contiguous log and every index from its boundary to its end. -/
theorem compact_keeps_answers_iff (h : rl.Contiguous) (hlo : rl.snapshotIndex ≤ index)
    (hhi : index ≤ rl.lastIndex) (hc : rl.compact written index (rl.termAt index) = some rl') :
    KeepsAnswers rl rl'.newRaftLog index (rl.termAt index) ∧
      (KeepsAnswers rl rl' index (rl.termAt index) ↔
        index = rl.snapshotIndex ∧ (rl.snapshotIndex = 0 → rl.snapshotTerm = 0)) := by
  refine ⟨keepsAnswers_reopened h hlo hhi hc, ?_⟩
  obtain ⟨hindex, hterm⟩ := cached_compact hc
  constructor
  · intro hkeeps
    have hsame : index = rl.snapshotIndex := hkeeps.snapshotIndex.symm.trans hindex
    refine ⟨hsame, fun h0 => ?_⟩
    rw [← hterm, hkeeps.snapshotTerm, hsame, h0]
    rfl
  · rintro ⟨rfl, hzero⟩
    refine .of_get h hlo hhi hindex ?_ (get_compact hc)
    rw [hterm, RaftLog.termAt]
    split
    · exact hzero (by assumption)
    · rw [if_pos rfl]

/-- A log that was opened at the boundary `(3, 2)` and has two entries. -/
def afterThree : RaftLog where
  log := (Lib.Bucket.empty.put 4 ⟨4, 2, .noop⟩).put 5 ⟨5, 3, .noop⟩
  metaState := none
  metaSnapshot := some (3, 2)
  snapshotIndex := 3
  snapshotTerm := 2

theorem contiguous_afterThree : afterThree.Contiguous := by
  have hget : ∀ k, afterThree.get k =
      if k = 5 then some ⟨5, 3, .noop⟩ else if k = 4 then some ⟨4, 2, .noop⟩ else none := by
    intro k
    change Lib.Bucket.get ((Lib.Bucket.empty.put 4 _).put 5 _) k = _
    rw [Lib.Bucket.get_put, Lib.Bucket.get_put, Lib.Bucket.get_empty]
  have hlast : afterThree.lastIndex = 5 := by decide
  refine ⟨fun k e he => ?_, fun k hk hle => ?_⟩
  · rw [hget] at he
    change 3 < k
    split_ifs at he <;> omega
  · rw [hlast] at hle
    rw [hget]
    have hk : 3 < k := hk
    obtain rfl | rfl : k = 4 ∨ k = 5 := by omega
    · rfl
    · rfl

/-- A compaction at the boundary itself. -/
theorem compact_keeps_answers_afterThree : ∃ rl', afterThree.compact true 3 2 = some rl' ∧
    KeepsAnswers afterThree rl'.newRaftLog 3 2 ∧ KeepsAnswers afterThree rl' 3 2 := by
  obtain ⟨rl', hc⟩ : ∃ rl', afterThree.compact true 3 (afterThree.termAt 3) = some rl' := ⟨_, rfl⟩
  obtain ⟨hreopened, hiff⟩ := compact_keeps_answers_iff contiguous_afterThree (by decide) (by decide) hc
  have hterm : afterThree.termAt 3 = 2 := by decide
  rw [hterm] at hc hreopened hiff
  exact ⟨rl', hc, hreopened, hiff.mpr ⟨rfl, by decide⟩⟩

/-- **A compaction of the whole log sets the running log back.** `LastIndex()` was 5 and is the old
boundary again, and the term of the new one is not known. -/
theorem compact_forgets_log : ∃ rl', afterThree.compact true 5 3 = some rl' ∧
    afterThree.termAt 5 = 3 ∧ afterThree.lastIndex = 5 ∧ rl'.snapshotIndex = 3 ∧ rl'.lastIndex = 3 ∧
    rl'.termAt 5 = 0 ∧ ¬ KeepsAnswers afterThree rl' 5 3 := by
  refine ⟨_, rfl, by decide, by decide, rfl, by decide, by decide, fun h => ?_⟩
  exact absurd h.snapshotIndex (by decide)

end RaftLog

end Raftrix
