import Mathlib.Data.Finset.Card
import Mathlib.Order.Bounds.Defs
import Raftrix.Log.Holds
import Raftrix.Model.Node

/-!
# The leader's bookkeeping

What the functions of `state.go` and the two ends of `replicateToPeer` do, over a log without gaps.

* `nextIndex` is at least `1` for every peer from the start (`newLeaderState_nextIndex`) and after
  every answer (`acknowledge_nextIndex`, `backUp_nextIndex`), so a leader that never compacted asks
  for no snapshot and sends a slice of its log up to the end (**`peerRequest_eq`**).
* `matchIndex` has the peers as keys (`mem_newLeaderState`, `mem_acknowledge`) and changes for the
  answering peer only, upwards (`acknowledge_matchIndex`).
* **`commitCandidate_spec`**: a positive candidate is above the commit index, within the log, of the
  current term and counted on a majority; `card_holders` turns the count into a set of nodes.
  `commitCandidate_eq_zero_iff`: it is `0` exactly if no index qualifies.
  **`commitCandidate_greatest`**: it is the greatest index that does, and does not go down when a
  peer's `matchIndex` goes up.
-/

namespace Raftrix

theorem IndexMap.at_insert (m : IndexMap) (k j : NodeID) (v : Nat) :
    IndexMap.at (m.insert k v) j = if j = k then v else m.at j := by
  unfold IndexMap.at
  split
  · rename_i h
    rw [h, AList.lookup_insert]
    rfl
  · rename_i h
    rw [AList.lookup_insert_ne h]

/-- The map `newLeaderState` builds with one value for all peers. -/
theorem at_foldl_insert (peers : List Peer) (v : Nat) (m : IndexMap) (j : NodeID) :
    IndexMap.at (peers.foldl (fun m p => m.insert p.id v) m) j =
      if j ∈ peers.map Peer.id then v else m.at j := by
  induction peers generalizing m with
  | nil => simp
  | cons p ps ih =>
    rw [List.foldl_cons, ih, IndexMap.at_insert]
    by_cases hj : j ∈ ps.map Peer.id
    · simp [hj]
    · by_cases hp : j = p.id <;> simp [hj, hp]

theorem mem_foldl_insert (peers : List Peer) (v : Nat) (m : IndexMap) (j : NodeID) :
    j ∈ peers.foldl (fun (m : IndexMap) p => m.insert p.id v) m ↔
      j ∈ peers.map Peer.id ∨ j ∈ m := by
  induction peers generalizing m with
  | nil => simp
  | cons p ps ih =>
    rw [List.foldl_cons, ih, AList.mem_insert]
    simp only [List.map_cons, List.mem_cons]
    tauto

namespace LeaderState

variable {ls : LeaderState} {peer j : NodeID} {index : Nat}

theorem newLeaderState_nextIndex {peers : List Peer} (lastIndex : Nat)
    (hj : j ∈ peers.map Peer.id) :
    (newLeaderState peers lastIndex).nextIndex.at j = lastIndex + 1 := by
  rw [newLeaderState, at_foldl_insert, if_pos hj]

theorem newLeaderState_matchIndex (peers : List Peer) (lastIndex : Nat) (j : NodeID) :
    (newLeaderState peers lastIndex).matchIndex.at j = 0 := by
  rw [newLeaderState, at_foldl_insert]
  split <;> rfl

theorem mem_newLeaderState (peers : List Peer) (lastIndex : Nat) (j : NodeID) :
    j ∈ (newLeaderState peers lastIndex).matchIndex ↔ j ∈ peers.map Peer.id := by
  rw [newLeaderState, mem_foldl_insert]
  exact or_iff_left (AList.notMem_empty j)

theorem acknowledge_matchIndex (ls : LeaderState) (peer : NodeID) (index : Nat) (j : NodeID) :
    (ls.acknowledge peer index).matchIndex.at j =
      if j = peer then max (ls.matchIndex.at j) index else ls.matchIndex.at j := by
  unfold acknowledge
  dsimp only
  split
  · rename_i hgt
    rw [IndexMap.at_insert]
    split
    · rename_i h
      subst h
      exact (Nat.max_eq_right (Nat.le_of_lt hgt)).symm
    · rfl
  · rename_i hle
    split
    · rename_i h
      subst h
      exact (Nat.max_eq_left (Nat.le_of_not_lt hle)).symm
    · rfl

theorem acknowledge_nextIndex (ls : LeaderState) (peer : NodeID) (index : Nat) (j : NodeID) :
    (ls.acknowledge peer index).nextIndex.at j =
      if j = peer then (ls.acknowledge peer index).matchIndex.at peer + 1
      else ls.nextIndex.at j := by
  unfold acknowledge
  exact IndexMap.at_insert _ _ _ _

theorem mem_acknowledge (hpeer : peer ∈ ls.matchIndex) :
    j ∈ (ls.acknowledge peer index).matchIndex ↔ j ∈ ls.matchIndex := by
  unfold acknowledge
  dsimp only
  split
  · rw [AList.mem_insert]
    exact or_iff_right_of_imp fun h => h ▸ hpeer
  · exact Iff.rfl

theorem backUp_matchIndex (ls : LeaderState) (peer : NodeID) (index : Nat) :
    (ls.backUp peer index).matchIndex = ls.matchIndex := by
  unfold backUp
  split
  · rfl
  · split <;> rfl

/-- A rejection moves the peer's `nextIndex` to the hint or one back, never below `1`. -/
theorem backUp_nextIndex (ls : LeaderState) (peer : NodeID) (index : Nat) (j : NodeID) :
    (ls.backUp peer index).nextIndex.at j = ls.nextIndex.at j ∨
      j = peer ∧ 1 ≤ (ls.backUp peer index).nextIndex.at j ∧
        ((ls.backUp peer index).nextIndex.at j = index ∨
          (ls.backUp peer index).nextIndex.at j = ls.nextIndex.at j - 1) := by
  unfold backUp
  split
  · rename_i hpos
    rw [IndexMap.at_insert]
    split
    · rename_i h
      exact Or.inr ⟨h, hpos, Or.inl rfl⟩
    · exact Or.inl rfl
  · split
    · rename_i hgt
      rw [IndexMap.at_insert]
      split
      · rename_i h
        subst h
        exact Or.inr ⟨rfl, by omega, Or.inr rfl⟩
      · exact Or.inl rfl
    · exact Or.inl rfl

/-! ## The commit rule -/

theorem commitCandidateFrom_spec {commit term : Nat} {termAt : Nat → Nat} : ∀ {n r : Nat},
    ls.commitCandidateFrom commit term termAt n = r → 0 < r →
    commit < r ∧ r ≤ n ∧ termAt r = term ∧ ls.majority ≤ ls.count r
  | 0, r, h, hr => by
    rw [commitCandidateFrom] at h
    omega
  | n + 1, r, h, hr => by
    rw [commitCandidateFrom] at h
    split at h
    · omega
    · rename_i hgt
      split at h
      · obtain ⟨h1, h2, h3⟩ := commitCandidateFrom_spec h hr
        exact ⟨h1, by omega, h3⟩
      · rename_i hterm
        split at h
        · rename_i hcount
          subst h
          exact ⟨by omega, le_refl _, not_not.mp hterm, hcount⟩
        · obtain ⟨h1, h2, h3⟩ := commitCandidateFrom_spec h hr
          exact ⟨h1, by omega, h3⟩

/-- **The commit rule.** -/
theorem commitCandidate_spec {commit lastIndex term r : Nat} {termAt : Nat → Nat}
    (h : r = ls.commitCandidate commit lastIndex term termAt) (hr : 0 < r) :
    commit < r ∧ r ≤ lastIndex ∧ termAt r = term ∧ ls.majority ≤ ls.count r :=
  commitCandidateFrom_spec h.symm hr

theorem commitCandidateFrom_eq_zero_iff {commit term : Nat} {termAt : Nat → Nat} (n : Nat) :
    ls.commitCandidateFrom commit term termAt n = 0 ↔
      ∀ k ≤ n, commit < k → termAt k = term → ls.count k < ls.majority := by
  induction n with
  | zero => exact iff_of_true rfl fun k hk hlt => absurd hlt (by omega)
  | succ n ih =>
    rw [commitCandidateFrom]
    split
    · exact iff_of_true rfl fun k hk hlt => absurd hlt (by omega)
    · rename_i hgt
      -- the loop goes on below `n + 1` exactly if `n + 1` itself does not qualify
      have hdown : (termAt (n + 1) = term → ls.count (n + 1) < ls.majority) →
          (ls.commitCandidateFrom commit term termAt n = 0 ↔
            ∀ k ≤ n + 1, commit < k → termAt k = term → ls.count k < ls.majority) := by
        intro htop
        rw [ih]
        constructor
        · intro h k hk hlt ht
          rcases Nat.le_succ_iff.mp hk with hk | rfl
          · exact h k hk hlt ht
          · exact htop ht
        · exact fun h k hk => h k (hk.trans (Nat.le_succ n))
      split
      · rename_i hterm
        exact hdown fun ht => absurd ht hterm
      · rename_i hterm
        split
        · rename_i hcount
          refine iff_of_false (by omega) fun h => ?_
          exact absurd (h (n + 1) (le_refl _) (by omega) (not_not.mp hterm)) (by omega)
        · rename_i hcount
          exact hdown fun _ => by omega

/-- **No candidate** means that no index above the commit index qualifies. -/
theorem commitCandidate_eq_zero_iff {commit lastIndex term : Nat} {termAt : Nat → Nat} :
    ls.commitCandidate commit lastIndex term termAt = 0 ↔
      ∀ k ≤ lastIndex, commit < k → termAt k = term → ls.count k < ls.majority :=
  commitCandidateFrom_eq_zero_iff lastIndex

/-- The peers known to hold `n`. -/
def holders (ls : LeaderState) (n : Nat) : Finset NodeID :=
  (ls.matchIndex.keys.filter fun p => decide (n ≤ ls.matchIndex.at p)).toFinset

theorem mem_holders {n : Nat} {p : NodeID} :
    p ∈ ls.holders n ↔ p ∈ ls.matchIndex ∧ n ≤ ls.matchIndex.at p := by
  rw [holders, List.mem_toFinset, List.mem_filter, decide_eq_true_iff, AList.mem_keys]

theorem at_of_mem_entries {m : IndexMap} {p : Sigma fun _ : NodeID => Nat} (hp : p ∈ m.entries) :
    m.at p.1 = p.2 := by
  have h : p.2 ∈ m.lookup p.1 := AList.mem_lookup_iff.mpr hp
  rw [IndexMap.at, Option.mem_def.mp h]
  rfl

theorem card_holders (ls : LeaderState) (n : Nat) : (ls.holders n).card + 1 = ls.count n := by
  have hfilter : ls.matchIndex.keys.filter (fun p => decide (n ≤ ls.matchIndex.at p)) =
      (ls.matchIndex.entries.filter fun p => decide (n ≤ p.2)).map Sigma.fst := by
    rw [AList.keys, List.keys, List.filter_map]
    congr 1
    refine List.filter_congr fun p hp => ?_
    rw [Function.comp_apply, at_of_mem_entries hp]
  have hnodup : ls.matchIndex.keys.Nodup := AList.keys_nodup _
  unfold holders count
  rw [List.toFinset_card_of_nodup (hnodup.filter _), hfilter,
    List.length_map, List.countP_eq_length_filter, Nat.add_comm]

/-! ## The greatest candidate -/

/-- `n` meets the conditions in the comment of `commitCandidate`: above the commit index and within
the log, of the current term, and held by more than half of the leader and its peers. -/
structure Committable (ls : LeaderState) (currentCommit lastIndex currentTerm : Nat)
    (termAt : Nat → Nat) (n : Nat) : Prop where
  above : currentCommit < n
  within : n ≤ lastIndex
  current : termAt n = currentTerm
  held : ls.matchIndex.keys.length + 1 < 2 * ((ls.holders n).card + 1)

theorem length_keys (m : IndexMap) : m.keys.length = m.entries.length := by
  rw [AList.keys, List.keys, List.length_map]

/-- Reaching `majority` is being more than half. -/
theorem majority_le_count_iff (ls : LeaderState) (n : Nat) :
    ls.majority ≤ ls.count n ↔ ls.matchIndex.keys.length + 1 < 2 * ((ls.holders n).card + 1) := by
  rw [card_holders, majority, length_keys]
  omega

section Greatest

variable {commit last term k : Nat} {termAt : Nat → Nat}

/-- The loop does not go past an index that qualifies. -/
theorem le_commitCandidateFrom (hcommit : commit < k) (hterm : termAt k = term)
    (hcount : ls.majority ≤ ls.count k) {n : Nat} (hk : k ≤ n) :
    k ≤ ls.commitCandidateFrom commit term termAt n := by
  induction n with
  | zero => omega
  | succ n ih =>
    rw [commitCandidateFrom, if_neg (by omega)]
    by_cases htop : k = n + 1
    · subst htop
      rw [if_neg (not_not.mpr hterm), if_pos hcount]
    · have hrest := ih (by omega)
      split
      · exact hrest
      · split
        · exact hk
        · exact hrest

theorem le_commitCandidate (h : ls.Committable commit last term termAt k) :
    k ≤ ls.commitCandidate commit last term termAt :=
  le_commitCandidateFrom h.above h.current ((ls.majority_le_count_iff k).mpr h.held) h.within

theorem committable_commitCandidate (h : 0 < ls.commitCandidate commit last term termAt) :
    ls.Committable commit last term termAt (ls.commitCandidate commit last term termAt) := by
  obtain ⟨habove, hwithin, hcurrent, hcount⟩ := commitCandidate_spec rfl h
  exact ⟨habove, hwithin, hcurrent, (ls.majority_le_count_iff _).mp hcount⟩

/-- `matchIndex[peer] = index`. -/
def setMatchIndex (ls : LeaderState) (peer : NodeID) (index : Nat) : LeaderState :=
  { ls with matchIndex := ls.matchIndex.insert peer index }

theorem length_setMatchIndex (hpeer : peer ∈ ls.matchIndex) (index : Nat) :
    (ls.setMatchIndex peer index).matchIndex.keys.length = ls.matchIndex.keys.length := by
  refine ((List.perm_ext_iff_of_nodup (AList.keys_nodup _) (AList.keys_nodup _)).mpr
    fun j => ?_).length_eq
  rw [← AList.mem_keys, ← AList.mem_keys, setMatchIndex, AList.mem_insert]
  exact or_iff_right_of_imp fun h => h ▸ hpeer

/-- A raised entry only adds holders. -/
theorem holders_subset_setMatchIndex (hraise : ls.matchIndex.at peer ≤ index) (n : Nat) :
    ls.holders n ⊆ (ls.setMatchIndex peer index).holders n := by
  intro j hj
  obtain ⟨hmem, hn⟩ := mem_holders.mp hj
  refine mem_holders.mpr ⟨(AList.mem_insert _).mpr (Or.inr hmem), ?_⟩
  rw [setMatchIndex, IndexMap.at_insert]
  split
  · rename_i h
    rw [h] at hn
    exact hn.trans hraise
  · exact hn

theorem Committable.setMatchIndex (h : ls.Committable commit last term termAt k)
    (hpeer : peer ∈ ls.matchIndex) (hraise : ls.matchIndex.at peer ≤ index) :
    (ls.setMatchIndex peer index).Committable commit last term termAt k where
  above := h.above
  within := h.within
  current := h.current
  held := by
    have hsub : ls.holders k ⊆ (ls.setMatchIndex peer index).holders k :=
      holders_subset_setMatchIndex hraise k
    have hcard := Finset.card_le_card hsub
    have hheld := h.held
    rw [length_setMatchIndex hpeer]
    omega

end Greatest

/-- **`commitCandidate` meets its comment**: a positive answer is the greatest index that meets the
conditions, `0` means that there is none, and a raised `matchIndex` entry never lowers the answer. -/
theorem commitCandidate_greatest (ls : LeaderState) (currentCommit lastIndex currentTerm : Nat)
    (termAt : Nat → Nat) :
    (0 < ls.commitCandidate currentCommit lastIndex currentTerm termAt →
      IsGreatest {n | ls.Committable currentCommit lastIndex currentTerm termAt n}
        (ls.commitCandidate currentCommit lastIndex currentTerm termAt)) ∧
    (ls.commitCandidate currentCommit lastIndex currentTerm termAt = 0 ↔
      ¬ ∃ n, ls.Committable currentCommit lastIndex currentTerm termAt n) ∧
    ∀ peer ∈ ls.matchIndex, ∀ index ≥ ls.matchIndex.at peer,
      ls.commitCandidate currentCommit lastIndex currentTerm termAt ≤
        (ls.setMatchIndex peer index).commitCandidate currentCommit lastIndex currentTerm termAt := by
  refine ⟨fun hpos => ⟨committable_commitCandidate hpos, fun n hn => le_commitCandidate hn⟩,
    ⟨?_, ?_⟩, ?_⟩
  · rintro hzero ⟨n, hn⟩
    have := le_commitCandidate hn
    have := hn.above
    omega
  · intro hnone
    by_contra hne
    exact hnone ⟨_, committable_commitCandidate (Nat.pos_of_ne_zero hne)⟩
  · intro peer hpeer index hraise
    rcases Nat.eq_zero_or_pos (ls.commitCandidate currentCommit lastIndex currentTerm termAt)
      with hzero | hpos
    · rw [hzero]
      exact Nat.zero_le _
    · exact le_commitCandidate ((committable_commitCandidate hpos).setMatchIndex hpeer hraise)

end LeaderState

/-! ## The request -/

namespace RaftNode

variable {σ : Type} {n : RaftNode σ} {es : List LogEntry} {ls : LeaderState} {peer : NodeID}

/-- `nextIndex[p]` of a leader. -/
def nextIndexOf (n : RaftNode σ) (p : NodeID) : Nat :=
  match n.leader with
  | some ls => ls.nextIndex.at p
  | none => 0

/-- `matchIndex[p]` of a leader. -/
def matchIndexOf (n : RaftNode σ) (p : NodeID) : Nat :=
  match n.leader with
  | some ls => ls.matchIndex.at p
  | none => 0

theorem nextIndexOf_eq (h : n.leader = some ls) (p : NodeID) :
    n.nextIndexOf p = ls.nextIndex.at p := by
  rw [nextIndexOf, h]

theorem matchIndexOf_eq (h : n.leader = some ls) (p : NodeID) :
    n.matchIndexOf p = ls.matchIndex.at p := by
  rw [matchIndexOf, h]

/-- A snapshot is sent to a peer at or below the cached boundary. -/
theorem of_peerRequest_installSnapshot {req : InstallSnapshotRequest}
    (h : n.peerRequest ls peer = .installSnapshot req) :
    ls.nextIndex.at peer ≤ n.raftLog.snapshotIndex ∧
      req = { term := n.currentTerm
              leaderID := n.id
              lastIncludedIndex := n.raftLog.snapshotIndex
              lastIncludedTerm := n.raftLog.snapshotTerm
              data := n.snapshotData } := by
  unfold peerRequest at h
  dsimp only at h
  split at h
  · rename_i hle
    exact ⟨hle, (PeerRequest.installSnapshot.inj h).symm⟩
  · exact absurd h (by simp)

/-- Entries are read from `nextIndex` on, up to the end of the log. -/
theorem of_peerRequest_appendEntries {req : AppendEntriesRequest}
    (h : n.peerRequest ls peer = .appendEntries req) :
    req.prevLogIndex = ls.nextIndex.at peer - 1 ∧
      (req.entries = [] ∨
        req.entries = n.raftLog.getRange (ls.nextIndex.at peer) n.raftLog.lastIndex) := by
  unfold peerRequest at h
  dsimp only at h
  split at h
  · exact absurd h (by simp)
  · rw [← PeerRequest.appendEntries.inj h]
    refine ⟨rfl, ?_⟩
    dsimp only
    split
    · exact Or.inr rfl
    · exact Or.inl rfl

/-- **What a leader sends**: the slice of its log from `nextIndex` to the end. -/
theorem peerRequest_eq (h : n.raftLog.Holds es) (hnext : 1 ≤ ls.nextIndex.at peer) :
    n.peerRequest ls peer = .appendEntries
      { term := n.currentTerm
        leaderID := n.id
        prevLogIndex := ls.nextIndex.at peer - 1
        prevLogTerm := termOf es (ls.nextIndex.at peer - 1)
        entries := es.drop (ls.nextIndex.at peer - 1)
        leaderCommit := n.commitIndex } := by
  unfold peerRequest
  dsimp only
  rw [if_neg (by rw [h.boundary]; omega), h.termAt]
  congr 2
  split
  · exact h.getRange hnext
  · rename_i hlt
    rw [h.lastIndex] at hlt
    exact (List.drop_eq_nil_of_le (by omega)).symm

end RaftNode

/-- `SaveMeta` does not touch what the consistency check reads. -/
theorem RaftLog.conflictStart_saveMeta (rl : RaftLog) (ok : Bool) (term : Nat) (vote : NodeID)
    (prevTerm k : Nat) :
    (rl.saveMeta ok term vote).conflictStart prevTerm k = rl.conflictStart prevTerm k := by
  induction k with
  | zero => rfl
  | succ k ih =>
    rw [conflictStart, conflictStart, ih]
    cases ok <;> rfl

theorem RaftLog.checkPrev_saveMeta (rl : RaftLog) (ok : Bool) (term : Nat) (vote : NodeID)
    (req : AppendEntriesRequest) :
    (rl.saveMeta ok term vote).checkPrev req = rl.checkPrev req := by
  unfold RaftLog.checkPrev
  simp only [conflictStart_saveMeta]
  cases ok <;> rfl

/-- The consistency check passes. -/
theorem RaftLog.checkPrev_eq_none_iff (rl : RaftLog) (req : AppendEntriesRequest) :
    rl.checkPrev req = none ↔ req.prevLogIndex = 0 ∨
      req.prevLogIndex ≤ rl.lastIndex ∧ rl.termAt req.prevLogIndex = req.prevLogTerm := by
  unfold RaftLog.checkPrev
  by_cases h0 : req.prevLogIndex > 0
  · rw [if_pos h0]
    by_cases hlen : req.prevLogIndex > rl.lastIndex
    · simp only [hlen, if_true]
      constructor
      · exact fun h => absurd h (by simp)
      · rintro (h | ⟨h, _⟩) <;> omega
    · rw [if_neg hlen]
      by_cases ht : rl.termAt req.prevLogIndex = req.prevLogTerm
      · simp only [ht, ne_eq, not_true_eq_false, if_false, true_iff]
        exact Or.inr ⟨by omega, trivial⟩
      · simp only [ne_eq, ht, not_false_eq_true, if_true, and_false, or_false]
        constructor
        · exact fun h => absurd h (by simp)
        · intro h
          omega
  · rw [if_neg h0]
    simp only [true_iff]
    exact Or.inl (by omega)

/-- **The consistency check on a list**: the entry at `PrevLogIndex` is there and has the right
term. -/
theorem RaftLog.Holds.checkPrev {rl : RaftLog} {es : List LogEntry} (h : rl.Holds es)
    (req : AppendEntriesRequest) :
    rl.checkPrev req = none ↔ req.prevLogIndex = 0 ∨
      req.prevLogIndex ≤ es.length ∧ termOf es req.prevLogIndex = req.prevLogTerm := by
  rw [rl.checkPrev_eq_none_iff, h.lastIndex, h.termAt]

end Raftrix
