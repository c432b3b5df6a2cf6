import Raftrix.Cluster.LogChange
import Raftrix.Node.Lifetime
import Raftrix.Node.Receiver

/-!
# What `HandleInstallSnapshot` leaves behind

A snapshot stands for the log up to its boundary `(i, t)`. `Cluster.Installed` lists the ways a call
can end. Two things must hold of a follower that has installed a snapshot, for every store, log and
disk:

* the follower has **caught up** to the boundary (`CaughtUp`): `LastIndex()` reaches it, `TermAt(i)`
  is its term, and the next AppendEntries of the same leader at `(i, t)` is not turned away;
* entries above the boundary stay only if they **follow** it (`TailFollows`): the log held the entry
  `(i, t)`, or had its own boundary there.

`Compact` writes the boundary record and leaves the cached boundary as the process found it at start,
and all answers come from the cache; and it keeps everything above the new boundary, whatever was
below. So both hold in exactly the cases named by `KnowsBoundary` (**`install_catches_up_iff`**) and by
`Held` or an empty tail (**`install_tail_follows_iff`**).

A call that fails should change nothing (`LeavesAlone`). The store is a database of its own, written
before the log, so a compaction that fails comes too late (**`failed_install_changes_nothing_iff`**).
-/

namespace Raftrix

variable {σ : Type}

namespace RaftNode

variable {E : Engine σ} {disk : Disk} {n : RaftNode σ}

/-- **What `HandleInstallSnapshot` leaves when it answers `Success`**: the struct with the term taken
over, the store replaced and the log compacted. -/
theorem handleInstallSnapshot_success {req : InstallSnapshotRequest}
    (h : (n.handleInstallSnapshot E disk req).2.success = true) :
    ∃ m rl, Cluster.Joins (disk 0) n req.term m ∧
      m.raftLog.compact (disk 2) req.lastIncludedIndex req.lastIncludedTerm = some rl ∧
      (n.handleInstallSnapshot E disk req).1.raftLog = rl ∧
      (n.handleInstallSnapshot E disk req).1.currentTerm = req.term := by
  have hcases := Cluster.installed E disk n req
  generalize n.handleInstallSnapshot E disk req = r at hcases h ⊢
  cases hcases with
  | stale => cases h
  | unrestored => cases h
  | uncompacted => cases h
  | done hm _ _ _ hrl => exact ⟨_, _, hm, hrl, rfl, hm.term_eq⟩

end RaftNode

namespace Install

variable {E : Engine σ} {disk : Disk} {n n' : RaftNode σ} {req : InstallSnapshotRequest}

/-! ## Catching up -/

/-- The next AppendEntries of the same leader at the boundary passes the consistency check: its answer
carries no conflict hint, and it is a success unless a write fails. -/
def NextPasses (n' : RaftNode σ) (req : InstallSnapshotRequest) : Prop :=
  ∀ (next : AppendEntriesRequest) (disk : Disk), next.term = req.term → next.leaderID = req.leaderID →
    next.prevLogIndex = req.lastIncludedIndex → next.prevLogTerm = req.lastIncludedTerm →
    (n'.handleAppendEntries disk next).2.conflictIndex = 0 ∧
      ((∀ k, disk k = true) → (n'.handleAppendEntries disk next).2.success = true)

/-- The node has caught up to the boundary of the snapshot. -/
structure CaughtUp (n' : RaftNode σ) (req : InstallSnapshotRequest) : Prop where
  last : req.lastIncludedIndex ≤ n'.raftLog.lastIndex
  term : n'.raftLog.termAt req.lastIncludedIndex = req.lastIncludedTerm
  next : NextPasses n' req

/-- The boundary of the snapshot is the one the process has cached at start. (At any other index
`TermAt` answers `0` afterwards, which is right for term `0` only, and then the log has to reach beyond
the boundary by itself.) -/
def KnowsBoundary (rl : RaftLog) (req : InstallSnapshotRequest) : Prop :=
  if req.lastIncludedIndex = rl.snapshotIndex then req.lastIncludedTerm = rl.snapshotTerm
  else req.lastIncludedTerm = 0 ∧
    (req.lastIncludedIndex < rl.lastIndex ∨ req.lastIncludedIndex < rl.snapshotIndex)

instance (rl : RaftLog) (req : InstallSnapshotRequest) : Decidable (KnowsBoundary rl req) := by
  unfold KnowsBoundary
  infer_instance

/-- A log that reaches the boundary and has its term there lets the next request pass. -/
theorem nextPasses_of_term (hterm : n'.currentTerm = req.term)
    (hlast : req.lastIncludedIndex ≤ n'.raftLog.lastIndex)
    (ht : n'.raftLog.termAt req.lastIncludedIndex = req.lastIncludedTerm) : NextPasses n' req := by
  intro next disk hnext _ hindex hprev
  refine RaftNode.handleAppendEntries_passes (hnext.trans hterm.symm) ?_
  rw [RaftLog.checkPrev_eq_none_iff, hindex, hprev]
  exact Or.inr ⟨hlast, ht⟩

/-- **A follower that has installed a snapshot has caught up exactly if the boundary is the one it
already knew.** For every node, request, engine and outcome of the writes with which
`HandleInstallSnapshot` answers `Success` for a boundary `i ≥ 1`: `LastIndex() ≥ i`, `TermAt(i)` is the
boundary's term and the next AppendEntries at the boundary passes, if and only if `KnowsBoundary` held
before. -/
theorem install_catches_up_iff (h : (n.handleInstallSnapshot E disk req).2.success = true)
    (hpos : 1 ≤ req.lastIncludedIndex) :
    CaughtUp (n.handleInstallSnapshot E disk req).1 req ↔ KnowsBoundary n.raftLog req := by
  obtain ⟨m, rl, hm, hrl, hlog, hterm⟩ := RaftNode.handleInstallSnapshot_success h
  have hlast := RaftLog.lastIndex_compact hrl
  have ht := RaftLog.termAt_compact_of_le hrl (le_refl req.lastIncludedIndex) (by omega)
  rw [hm.lastIndex, hm.boundary.1] at hlast
  rw [hm.boundary.1, hm.boundary.2.1] at ht
  have hiff : CaughtUp (n.handleInstallSnapshot E disk req).1 req ↔
      req.lastIncludedIndex ≤ rl.lastIndex ∧ rl.termAt req.lastIncludedIndex = req.lastIncludedTerm := by
    rw [← hlog]
    exact ⟨fun hc => ⟨hc.last, hc.term⟩, fun hc => ⟨hc.1, hc.2, nextPasses_of_term hterm hc.1 hc.2⟩⟩
  rw [hiff, hlast, ht]
  unfold KnowsBoundary
  by_cases hcached : req.lastIncludedIndex = n.raftLog.snapshotIndex
  · rw [if_pos hcached, if_pos hcached]
    constructor
    · exact fun hc => hc.2.symm
    · intro hc
      refine ⟨?_, hc.symm⟩
      split <;> omega
  · rw [if_neg hcached, if_neg hcached]
    constructor
    · rintro ⟨hle, hzero⟩
      refine ⟨hzero.symm, ?_⟩
      split at hle <;> omega
    · rintro ⟨hzero, hle⟩
      refine ⟨?_, hzero.symm⟩
      split <;> omega

/-- A node that has just been restarted on a log compacted up to index 3. -/
def restartedAtThree : RaftNode BoltEngine :=
  ((Lifetime.followFive (Shipped.start.node Shipped.node2)).compactLog (fun _ => true) 3 1
    Shipped.emptySnapshot).newRaftNode Shipped.engine

/-- The snapshot the node has restarted from, sent once more. -/
theorem install_catches_up_restartedAtThree :
    (restartedAtThree.handleInstallSnapshot Shipped.engine (fun _ => true)
      (Lifetime.snapshotUpTo 3)).2.success = true ∧
    CaughtUp (restartedAtThree.handleInstallSnapshot Shipped.engine (fun _ => true)
      (Lifetime.snapshotUpTo 3)).1 (Lifetime.snapshotUpTo 3) :=
  ⟨by decide, (install_catches_up_iff (by decide) (by decide)).mpr (by decide)⟩

/-- The AppendEntries a leader sends after a snapshot up to `index`. -/
def heartbeatAt (index : Nat) : AppendEntriesRequest where
  term := 1
  leaderID := Shipped.node1
  prevLogIndex := index
  prevLogTerm := 1
  entries := []
  leaderCommit := index

/-- **A snapshot that does not help.** A fresh follower installs a snapshot up to index 5 and answers
`Success`; its log still ends at 0, and the next AppendEntries is turned away with the hint to start
over at index 1, which makes the leader send the snapshot again. -/
theorem installed_snapshot_forgotten :
    let n := (Shipped.start.node Shipped.node2).handleInstallSnapshot Shipped.engine (fun _ => true)
      (Lifetime.snapshotUpTo 5)
    n.2.success = true ∧ n.1.commitIndex = 5 ∧ n.1.raftLog.lastIndex = 0 ∧
      n.1.raftLog.termAt 5 = 0 ∧
      (n.1.handleAppendEntries (fun _ => true) (heartbeatAt 5)).2.success = false ∧
      (n.1.handleAppendEntries (fun _ => true) (heartbeatAt 5)).2.conflictIndex = 1 := by
  decide

/-! ## The entries above the boundary -/

/-- The log has the entry `(index, term)`, or its own boundary, cached or recorded, is there. -/
def Held (rl : RaftLog) (index term : Nat) : Prop :=
  (∃ e, rl.get index = some e ∧ e.term = term) ∨
    (rl.snapshotIndex = index ∧ rl.snapshotTerm = term) ∨ rl.metaSnapshot = some (index, term)

/-- If an entry above the boundary is stored after the call, the log held the boundary before it. -/
def TailFollows (n n' : RaftNode σ) (req : InstallSnapshotRequest) : Prop :=
  (∃ k e, req.lastIncludedIndex < k ∧ n'.raftLog.get k = some e) →
    Held n.raftLog req.lastIncludedIndex req.lastIncludedTerm

/-- **The entries that survive a snapshot follow it exactly if the log held its boundary, or had
nothing above it.** For every node, request, engine and outcome of the writes with which
`HandleInstallSnapshot` answers `Success`. -/
theorem install_tail_follows_iff (h : (n.handleInstallSnapshot E disk req).2.success = true) :
    TailFollows n (n.handleInstallSnapshot E disk req).1 req ↔
      Held n.raftLog req.lastIncludedIndex req.lastIncludedTerm ∨
        ∀ k, req.lastIncludedIndex < k → n.raftLog.get k = none := by
  obtain ⟨m, rl, hm, hrl, hlog, _⟩ := RaftNode.handleInstallSnapshot_success h
  -- above the boundary nothing has changed
  have habove : ∀ k, req.lastIncludedIndex < k → rl.get k = n.raftLog.get k := by
    intro k hk
    rw [RaftLog.get_compact hrl, if_pos hk, hm.get]
  unfold TailFollows
  rw [hlog]
  constructor
  · intro hfollows
    by_cases htail : ∃ k e, req.lastIncludedIndex < k ∧ rl.get k = some e
    · exact Or.inl (hfollows htail)
    · refine Or.inr fun k hk => ?_
      rw [← habove k hk]
      cases hget : rl.get k with
      | none => rfl
      | some e => exact absurd ⟨k, e, hk, hget⟩ htail
  · rintro (hheld | hnone) ⟨k, e, hk, he⟩
    · exact hheld
    · rw [habove k hk, hnone k hk] at he
      exact absurd he (by simp)

/-- A snapshot of term `term` up to index 3. -/
def snapshotOfTerm (term : Nat) : InstallSnapshotRequest where
  term := 2
  leaderID := Shipped.node1
  lastIncludedIndex := 3
  lastIncludedTerm := term
  data := Shipped.emptySnapshot

/-- The follower has the entry of term 1 at index 3; entries 4 and 5 stay. -/
theorem install_tail_follows_termOne :
    ((Lifetime.followFive (Shipped.start.node Shipped.node2)).handleInstallSnapshot Shipped.engine
      (fun _ => true) (snapshotOfTerm 1)).2.success = true ∧
    TailFollows (Lifetime.followFive (Shipped.start.node Shipped.node2))
      ((Lifetime.followFive (Shipped.start.node Shipped.node2)).handleInstallSnapshot Shipped.engine
        (fun _ => true) (snapshotOfTerm 1)).1 (snapshotOfTerm 1) :=
  ⟨by decide, (install_tail_follows_iff (by decide)).mpr
    (Or.inl (Or.inl ⟨⟨3, 1, .noop⟩, by decide, rfl⟩))⟩

/-- **A foreign tail survives.** A follower has five entries of term 1 and installs a snapshot whose
entry at index 3 is of term 2; the entries 4 and 5 of the other history stay. -/
theorem foreign_tail_survives :
    let n := Lifetime.followFive (Shipped.start.node Shipped.node2)
    let n' := n.handleInstallSnapshot Shipped.engine (fun _ => true) (snapshotOfTerm 2)
    n'.2.success = true ∧ n.raftLog.get 3 = some ⟨3, 1, .noop⟩ ∧ n.raftLog.snapshotIndex = 0 ∧
      n.raftLog.metaSnapshot = none ∧ n'.1.raftLog.get 4 = some ⟨4, 1, .noop⟩ ∧
      n'.1.raftLog.get 5 = some ⟨5, 1, .noop⟩ := by
  decide

/-! ## A failed install -/

/-- Everything the snapshot is about is as it was: the store, the log up to the saved term and vote, both
indices and the snapshot's bytes. -/
structure LeavesAlone (E : Engine σ) (n n' : RaftNode σ) : Prop where
  store : ∀ key, E.get n'.storage key = E.get n.storage key
  log : n'.raftLog = { n.raftLog with metaState := n'.raftLog.metaState }
  commitIndex : n'.commitIndex = n.commitIndex
  lastApplied : n'.lastApplied = n.lastApplied
  snapshotData : n'.snapshotData = n.snapshotData

/-- Taking over the term leaves it alone. -/
theorem LeavesAlone.of_joins {written : Bool} {term : Nat} {m : RaftNode σ} (leaderID : NodeID)
    (hm : Cluster.Joins written n term m) : LeavesAlone E n { m with leaderID := leaderID } := by
  cases hm with
  | same _ => exact ⟨fun _ => rfl, rfl, rfl, rfl, rfl⟩
  | down _ =>
    refine ⟨fun _ => rfl, ?_, rfl, rfl, rfl⟩
    unfold RaftNode.becomeFollower RaftLog.saveMeta
    dsimp only
    split <;> rfl

/-- The bytes hold what the store has, or they cannot be restored at all. -/
def Restores (E : Engine σ) (store : σ) (data : Bytes) : Prop :=
  ∀ store', E.restoreSnapshot store data = .ok store' → ∀ key, E.get store' key = E.get store key

/-- **A failed install changes nothing exactly if the store was not replaced before the failure.** For
every node, request, engine and outcome of the writes: an answer without `Success` leaves the store, the
log, both indices and the snapshot alone if and only if the term is stale, or the restore is not
committed, or the compaction is, or the restored contents are the ones the store had. -/
theorem failed_install_changes_nothing_iff (E : Engine σ) (disk : Disk) (n : RaftNode σ)
    (req : InstallSnapshotRequest) :
    ((n.handleInstallSnapshot E disk req).2.success = false →
      LeavesAlone E n (n.handleInstallSnapshot E disk req).1) ↔
    req.term < n.currentTerm ∨ disk 1 = false ∨ disk 2 = true ∨ Restores E n.storage req.data := by
  have hcases := Cluster.installed E disk n req
  generalize n.handleInstallSnapshot E disk req = r at hcases ⊢
  cases hcases with
  | stale hlt => exact ⟨fun _ => Or.inl hlt, fun _ _ => ⟨fun _ => rfl, rfl, rfl, rfl, rfl⟩⟩
  | unrestored hm hfail =>
    refine ⟨fun _ => ?_, fun _ _ => .of_joins _ hm⟩
    cases hwritten : disk 1 with
    | false => exact Or.inr (Or.inl rfl)
    | true =>
      obtain ⟨err, herr⟩ := hfail hwritten
      refine Or.inr (Or.inr (Or.inr fun store' hstore' => ?_))
      rw [herr] at hstore'
      cases hstore'
  | uncompacted hm hwritten hstore hlost =>
    constructor
    · -- the store is the restored one, and it answers as before
      intro h
      refine Or.inr (Or.inr (Or.inr fun store' hstore' => ?_))
      rw [hstore] at hstore'
      cases hstore'
      exact (h rfl).store
    · rintro (hlt | hfail | hkept | hsame) -
      · exact absurd hlt (Nat.not_lt.mpr hm.le)
      · rw [hwritten] at hfail
        cases hfail
      · rw [hlost] at hkept
        cases hkept
      · have h : LeavesAlone E n _ := .of_joins req.leaderID hm
        exact ⟨hsame _ hstore, h.log, h.commitIndex, h.lastApplied, h.snapshotData⟩
  | done _ _ _ hkept _ => exact ⟨fun _ => Or.inr (Or.inr (Or.inl hkept)), fun _ h => by cases h⟩

/-- A snapshot up to index 5 with the pair `"k"`, `"v"`. -/
def snapshotWithPair : InstallSnapshotRequest :=
  { Lifetime.snapshotUpTo 5 with data := Shipped.json.marshal (Lib.Bucket.empty.put [107] [118]) }

/-- **A failed install replaces the store.** The compaction fails after the restore: the answer is not a
success and the node has applied nothing, but its store has the pair of the snapshot. -/
theorem failed_install_replaces_store :
    let n := Shipped.start.node Shipped.node2
    let n' := n.handleInstallSnapshot Shipped.engine (fun k => k ≠ 2) snapshotWithPair
    n'.2.success = false ∧ n'.1.lastApplied = 0 ∧ n'.1.raftLog.metaSnapshot = none ∧
      Shipped.engine.get n.storage [107] = .error .keyNotFound ∧
      Shipped.engine.get n'.1.storage [107] = .ok [118] := by
  decide

end Install

end Raftrix
