import Raftrix.Cluster.Apply
import Raftrix.Node.BackOff
import Raftrix.Node.Lifetime

/-!
# The numbers of a run

Terms and indices are `uint64` in the source and natural numbers in the model. The two agree because they
grow slowly: **`Reaches.counted`**: in every run, with failing disks, crashes and any messages, no number of a
node, a request or a response is larger than the number of steps taken. So nothing wraps around in a run of
less than `2^64` steps, and everything that is written as JSON is in the range of its type.

`Counted b` says of each kind of thing that its numbers are at most `b`. The functions of the log and of the
node keep the bound, except for the four that count on (`startElection`, `becomeLeader`, `Propose` and the
answers to `replicateToPeer`), which raise it by one; `Op.counted` has one case for each. A response may be
one above the bound too: the conflict index of a log that is too short is the index after its end.
-/

namespace Raftrix

variable {σ : Type}

/-! ## The log -/

/-- The numbers of an entry. -/
structure LogEntry.Counted (b : Nat) (e : LogEntry) : Prop where
  index : e.index ≤ b
  term : e.term ≤ b

/-- The numbers of a log. -/
structure RaftLog.Counted (b : Nat) (rl : RaftLog) : Prop where
  entry : ∀ k e, rl.get k = some e → k ≤ b ∧ e.Counted b
  loadMeta : rl.loadMeta.1 ≤ b
  metaSnapshot : ∀ p, rl.metaSnapshot = some p → p.1 ≤ b ∧ p.2 ≤ b
  snapshotIndex : rl.snapshotIndex ≤ b
  snapshotTerm : rl.snapshotTerm ≤ b

namespace RaftLog.Counted

variable {b c : Nat} {rl rl' : RaftLog} {written : Bool} {index term : Nat}

theorem fresh : RaftLog.fresh.Counted b where
  entry _ _ h := by cases h
  loadMeta := Nat.zero_le b
  metaSnapshot _ h := by cases h
  snapshotIndex := Nat.zero_le b
  snapshotTerm := Nat.zero_le b

theorem mono (h : rl.Counted b) (hle : b ≤ c) : rl.Counted c where
  entry k e he :=
    have hold := h.entry k e he
    ⟨hold.1.trans hle, hold.2.index.trans hle, hold.2.term.trans hle⟩
  loadMeta := h.loadMeta.trans hle
  metaSnapshot p hp := ⟨(h.metaSnapshot p hp).1.trans hle, (h.metaSnapshot p hp).2.trans hle⟩
  snapshotIndex := h.snapshotIndex.trans hle
  snapshotTerm := h.snapshotTerm.trans hle

theorem lastIndex (h : rl.Counted b) : rl.lastIndex ≤ b := by
  rcases rl.get_lastIndex with ⟨e, he⟩ | ⟨_, heq⟩
  · exact (h.entry _ e he).1
  · rw [heq]
    exact h.snapshotIndex

theorem termAt (h : rl.Counted b) (index : Nat) : rl.termAt index ≤ b := by
  unfold RaftLog.termAt
  split
  · exact Nat.zero_le b
  · split
    · exact h.snapshotTerm
    · cases he : rl.get index with
      | none => exact Nat.zero_le b
      | some e => exact (h.entry index e he).2.term

theorem lastTerm (h : rl.Counted b) : rl.lastTerm ≤ b := by
  rw [lastTerm_eq_termAt]
  exact h.termAt _

/-- An index with a term. -/
theorem le_of_termAt (h : rl.Counted b) (h0 : rl.termAt index ≠ 0) : index ≤ b := by
  rcases Nat.lt_or_ge rl.snapshotIndex index with hlt | hle
  · obtain ⟨e, he⟩ := get_of_termAt hlt h0
    exact (h.entry index e he.1).1
  · exact hle.trans h.snapshotIndex

/-- Another bucket in place of the log's. -/
theorem with_log (h : rl.Counted b) {log : Lib.Bucket Nat LogEntry}
    (hentry : ∀ k e, ({ rl with log := log } : RaftLog).get k = some e → k ≤ b ∧ e.Counted b) :
    ({ rl with log := log } : RaftLog).Counted b :=
  { h with entry := hentry }

theorem append (h : rl.Counted b) {e : LogEntry} (he : e.Counted b)
    (ha : rl.append written e = some rl') : rl'.Counted b := by
  have hget := get_append ha
  unfold RaftLog.append at ha
  split at ha
  · cases ha
    refine h.with_log fun k d hd => ?_
    rw [hget] at hd
    split at hd
    · rename_i hk
      cases hd
      exact ⟨hk.le.trans he.index, he.index, he.term⟩
    · exact h.entry k d hd
  · cases ha

theorem truncateFrom (h : rl.Counted b) (ht : rl.truncateFrom written index = some rl') :
    rl'.Counted b := by
  have hget := get_truncateFrom ht
  unfold RaftLog.truncateFrom at ht
  split at ht
  · cases ht
    refine h.with_log fun k d hd => ?_
    rw [hget] at hd
    split at hd
    · exact h.entry k d hd
    · cases hd
  · cases ht

theorem compact (h : rl.Counted b) (hi : index ≤ b) (ht : term ≤ b)
    (hc : rl.compact written index term = some rl') : rl'.Counted b := by
  have hget := get_compact hc
  unfold RaftLog.compact at hc
  split at hc
  · cases hc
    refine { h with entry := fun k d hd => ?_, metaSnapshot := fun p hp => ?_ }
    · rw [hget] at hd
      split at hd
      · exact h.entry k d hd
      · cases hd
    · cases hp
      exact ⟨hi, ht⟩
  · cases hc

theorem saveMeta (h : rl.Counted b) (ht : term ≤ b) (votedFor : NodeID) :
    (rl.saveMeta written term votedFor).Counted b := by
  unfold RaftLog.saveMeta
  split
  · exact { h with loadMeta := ht }
  · exact h

theorem newRaftLog (h : rl.Counted b) : rl.newRaftLog.Counted b := by
  unfold RaftLog.newRaftLog
  cases hsnap : rl.metaSnapshot with
  | none =>
    exact { h with
      metaSnapshot := fun q hq => h.metaSnapshot q (hsnap.symm ▸ hq)
      snapshotIndex := Nat.zero_le b
      snapshotTerm := Nat.zero_le b }
  | some p =>
    have hp := h.metaSnapshot p hsnap
    exact { h with
      metaSnapshot := fun q hq => h.metaSnapshot q (hsnap.symm ▸ hq)
      snapshotIndex := hp.1
      snapshotTerm := hp.2 }

theorem appendEntries (h : rl.Counted b) (disk : Disk) (prev : Nat) {es : List LogEntry}
    (hes : ∀ e ∈ es, e.Counted b) : (rl.appendEntries disk prev 0 es).log.Counted b := by
  obtain ⟨_, _, hall, _⟩ := appendEntries_rounds disk prev es (P := fun _ rl => rl.Counted b) h
    fun _ q rl rl' hq hrl hround => by
      cases hround with
      | skipped _ _ => exact hrl
      | appended _ ha => exact hrl.append (hes q (List.mem_of_getElem? hq)) ha
      | cut _ _ htr => exact hrl.truncateFrom htr
  exact hall

end RaftLog.Counted

/-! ## The messages -/

structure RequestVoteRequest.Counted (b : Nat) (req : RequestVoteRequest) : Prop where
  term : req.term ≤ b
  lastLogIndex : req.lastLogIndex ≤ b
  lastLogTerm : req.lastLogTerm ≤ b

structure AppendEntriesRequest.Counted (b : Nat) (req : AppendEntriesRequest) : Prop where
  term : req.term ≤ b
  prevLogIndex : req.prevLogIndex ≤ b
  prevLogTerm : req.prevLogTerm ≤ b
  entries : ∀ e ∈ req.entries, e.Counted b
  leaderCommit : req.leaderCommit ≤ b

structure InstallSnapshotRequest.Counted (b : Nat) (req : InstallSnapshotRequest) : Prop where
  term : req.term ≤ b
  lastIncludedIndex : req.lastIncludedIndex ≤ b
  lastIncludedTerm : req.lastIncludedTerm ≤ b

structure AppendEntriesResponse.Counted (b : Nat) (resp : AppendEntriesResponse) : Prop where
  term : resp.term ≤ b
  matchIndex : resp.matchIndex ≤ b
  conflictIndex : resp.conflictIndex ≤ b
  conflictTerm : resp.conflictTerm ≤ b

section Mono

variable {b c : Nat} (hle : b ≤ c)
include hle

theorem RequestVoteRequest.Counted.mono {req : RequestVoteRequest} (h : req.Counted b) :
    req.Counted c :=
  ⟨h.term.trans hle, h.lastLogIndex.trans hle, h.lastLogTerm.trans hle⟩

theorem AppendEntriesRequest.Counted.mono {req : AppendEntriesRequest} (h : req.Counted b) :
    req.Counted c :=
  ⟨h.term.trans hle, h.prevLogIndex.trans hle, h.prevLogTerm.trans hle,
    fun e he => ⟨(h.entries e he).index.trans hle, (h.entries e he).term.trans hle⟩,
    h.leaderCommit.trans hle⟩

theorem InstallSnapshotRequest.Counted.mono {req : InstallSnapshotRequest} (h : req.Counted b) :
    req.Counted c :=
  ⟨h.term.trans hle, h.lastIncludedIndex.trans hle, h.lastIncludedTerm.trans hle⟩

theorem AppendEntriesResponse.Counted.mono {resp : AppendEntriesResponse} (h : resp.Counted b) :
    resp.Counted c :=
  ⟨h.term.trans hle, h.matchIndex.trans hle, h.conflictIndex.trans hle, h.conflictTerm.trans hle⟩

end Mono

/-! ## The node -/

/-- The numbers of a leader. -/
def LeaderState.Counted (b : Nat) (ls : LeaderState) : Prop :=
  ∀ peer, ls.nextIndex.at peer ≤ b ∧ ls.matchIndex.at peer ≤ b

/-- The numbers of a goroutine. -/
def Goroutine.Counted (b : Nat) : Goroutine → Prop
  | .applyCommitted => True
  | .takeSnapshot index term | .compactLog index term _ => index ≤ b ∧ term ≤ b

theorem Goroutine.Counted.mono {b c : Nat} (hle : b ≤ c) {g : Goroutine} (h : g.Counted b) :
    g.Counted c := by
  cases g with
  | applyCommitted => trivial
  | takeSnapshot index term => exact ⟨h.1.trans hle, h.2.trans hle⟩
  | compactLog index term data => exact ⟨h.1.trans hle, h.2.trans hle⟩

/-- The numbers of a node. -/
structure RaftNode.Counted (b : Nat) (n : RaftNode σ) : Prop where
  raftLog : n.raftLog.Counted b
  currentTerm : n.currentTerm ≤ b
  commitIndex : n.commitIndex ≤ b
  lastApplied : n.lastApplied ≤ b
  leader : ∀ ls ∈ n.leader, ls.Counted b
  goroutines : ∀ g ∈ n.goroutines, g.Counted b

namespace RaftNode.Counted

variable {b c : Nat} {n m : RaftNode σ} {disk : Disk}

theorem mono (h : n.Counted b) (hle : b ≤ c) : n.Counted c where
  raftLog := h.raftLog.mono hle
  currentTerm := h.currentTerm.trans hle
  commitIndex := h.commitIndex.trans hle
  lastApplied := h.lastApplied.trans hle
  leader ls hls peer := ⟨(h.leader ls hls peer).1.trans hle, (h.leader ls hls peer).2.trans hle⟩
  goroutines g hg := (h.goroutines g hg).mono hle

theorem becomeFollower (h : n.Counted b) (written : Bool) {term : Nat} (ht : term ≤ b) :
    (n.becomeFollower written term).Counted b where
  raftLog := h.raftLog.saveMeta ht []
  currentTerm := ht
  commitIndex := h.commitIndex
  lastApplied := h.lastApplied
  leader _ hls := by cases hls
  goroutines := h.goroutines

theorem joins (h : n.Counted b) {written : Bool} {term : Nat} (ht : term ≤ b)
    (hm : Cluster.Joins written n term m) : m.Counted b := by
  cases hm with
  | same _ => exact h
  | down _ => exact h.becomeFollower written ht

theorem newRaftNode (h : n.Counted b) (E : Engine σ) : (n.newRaftNode E).Counted b where
  raftLog := h.raftLog.newRaftLog
  currentTerm := h.raftLog.loadMeta
  commitIndex := Nat.zero_le b
  lastApplied := Nat.zero_le b
  leader _ hls := by cases hls
  goroutines _ hg := absurd hg List.not_mem_nil

theorem startElection (h : n.Counted b) : (n.startElection disk).1.Counted (b + 1) where
  raftLog := (h.raftLog.mono (Nat.le_succ b)).saveMeta (Nat.succ_le_succ h.currentTerm) n.id
  currentTerm := Nat.succ_le_succ h.currentTerm
  commitIndex := h.commitIndex.trans (Nat.le_succ b)
  lastApplied := h.lastApplied.trans (Nat.le_succ b)
  leader := (h.mono (Nat.le_succ b)).leader
  goroutines := (h.mono (Nat.le_succ b)).goroutines

theorem handleRequestVote (h : n.Counted b) {req : RequestVoteRequest} (hreq : req.Counted b) :
    (n.handleRequestVote disk req).1.Counted b ∧ (n.handleRequestVote disk req).2.term ≤ b := by
  unfold RaftNode.handleRequestVote
  split
  · exact ⟨h, h.currentTerm⟩
  · rename_i hge
    have hjoin := h.joins hreq.term (Cluster.joins_of_not_lt (disk 0) hge)
    dsimp only
    generalize (if req.term > n.currentTerm then n.becomeFollower (disk 0) req.term else n) = m
      at hjoin ⊢
    split
    · exact ⟨hjoin, hjoin.currentTerm⟩
    · split
      · exact ⟨hjoin, hjoin.currentTerm⟩
      · exact ⟨{ hjoin with raftLog := hjoin.raftLog.saveMeta hjoin.currentTerm _ },
          hjoin.currentTerm⟩

theorem voteResponse (h : n.Counted b) (el : RaftNode.Election) {resp : RequestVoteResponse}
    (ht : resp.term ≤ b) : (n.voteResponse disk el resp).1.Counted b := by
  unfold RaftNode.voteResponse
  split
  · exact h.becomeFollower _ ht
  · split <;> exact h

/-- An entry at the next index, of the current term. -/
theorem append_next (h : n.Counted b) {written : Bool} {e : LogEntry} {rl : RaftLog}
    (hindex : e.index = n.raftLog.lastIndex + 1) (hterm : e.term = n.currentTerm)
    (ha : n.raftLog.append written e = some rl) : rl.Counted (b + 1) :=
  (h.raftLog.mono (Nat.le_succ b)).append
    ⟨hindex.le.trans (Nat.succ_le_succ h.raftLog.lastIndex),
      hterm.le.trans (h.currentTerm.trans (Nat.le_succ b))⟩ ha

theorem becomeLeader (h : n.Counted b) : (n.becomeLeader disk).Counted (b + 1) := by
  have hup := h.mono (Nat.le_succ b)
  unfold RaftNode.becomeLeader
  split
  · exact hup
  · have hlog : ((n.raftLog.append (disk 0) n.noopEntry).getD n.raftLog).Counted (b + 1) := by
      cases ha : n.raftLog.append (disk 0) n.noopEntry with
      | none => exact hup.raftLog
      | some rl => exact h.append_next rfl rfl ha
    refine { hup with raftLog := hlog, leader := fun ls hls peer => ?_ }
    cases hls
    rw [LeaderState.newLeaderState, at_foldl_insert, at_foldl_insert]
    constructor
    · split
      · exact Nat.succ_le_succ h.raftLog.lastIndex
      · exact Nat.zero_le _
    · split <;> exact Nat.zero_le _

theorem propose (h : n.Counted b) (cmd : Command) : (n.propose disk cmd).1.Counted (b + 1) := by
  have hup := h.mono (Nat.le_succ b)
  unfold RaftNode.propose
  split
  · exact hup
  · dsimp only
    split
    · exact hup
    · rename_i rl ha
      exact { hup with raftLog := h.append_next rfl rfl ha }

theorem advanceCommit (h : n.Counted b) {req : AppendEntriesRequest} (hc : req.leaderCommit ≤ b) :
    (n.advanceCommit req).Counted b := by
  obtain ⟨commit, gs, heq, hcommit, hgs⟩ := Cluster.advanceCommit_cases n req
  have hle : commit ≤ b := by
    rcases hcommit with rfl | ⟨_, rfl⟩
    · exact h.commitIndex
    · exact (Nat.min_le_right _ _).trans hc
  rw [heq]
  refine { h with commitIndex := hle, goroutines := fun g hg => ?_ }
  rcases hgs g hg with hold | rfl
  · exact h.goroutines g hold
  · trivial

/-- The hint of a rejection. -/
theorem checkPrev (h : n.Counted b) {req : AppendEntriesRequest} (hreq : req.Counted b) {i t : Nat}
    (hprev : n.raftLog.checkPrev req = some (i, t)) : i ≤ b + 1 ∧ t ≤ b + 1 := by
  unfold RaftLog.checkPrev at hprev
  split at hprev
  · split at hprev
    · cases hprev
      exact ⟨Nat.succ_le_succ h.raftLog.lastIndex, Nat.zero_le _⟩
    · dsimp only at hprev
      split at hprev
      · cases hprev
        exact ⟨((RaftLog.conflictStart_le _ _ _).trans hreq.prevLogIndex).trans (Nat.le_succ b),
          (h.raftLog.termAt _).trans (Nat.le_succ b)⟩
      · cases hprev
  · cases hprev

theorem handleAppendEntries (h : n.Counted b) {req : AppendEntriesRequest} (hreq : req.Counted b) :
    (n.handleAppendEntries disk req).1.Counted b ∧
      (n.handleAppendEntries disk req).2.Counted (b + 1) := by
  have hterm : ∀ {m : RaftNode σ}, m.Counted b → m.currentTerm ≤ b + 1 :=
    fun hm => hm.currentTerm.trans (Nat.le_succ b)
  have hcases := RaftNode.received disk n req
  generalize n.handleAppendEntries disk req = r at hcases ⊢
  cases hcases with
  | stale _ => exact ⟨h, hterm h, Nat.zero_le _, Nat.zero_le _, Nat.zero_le _⟩
  | rejected hm hprev =>
    have hjoin := h.joins hreq.term hm
    obtain ⟨hi, ht⟩ := h.checkPrev hreq hprev
    exact ⟨{ hjoin with }, hterm hjoin, Nat.zero_le _, hi, ht⟩
  | failed hm _ _ =>
    have hjoin := h.joins hreq.term hm
    exact ⟨{ hjoin with raftLog := hjoin.raftLog.appendEntries disk _ hreq.entries }, hterm hjoin,
      Nat.zero_le _, Nat.zero_le _, Nat.zero_le _⟩
  | done hm _ _ =>
    have hjoin := h.joins hreq.term hm
    have hlog := hjoin.raftLog.appendEntries disk req.prevLogIndex hreq.entries
    refine ⟨advanceCommit ?_ hreq.leaderCommit, hterm hjoin, hlog.lastIndex.trans (Nat.le_succ b),
      Nat.zero_le _, Nat.zero_le _⟩
    exact { hjoin with raftLog := hlog }

theorem commitAcked (h : n.Counted b) (ls : LeaderState) : (n.commitAcked ls).Counted b := by
  unfold RaftNode.commitAcked
  dsimp only
  split
  · rename_i hpos
    have hlast := (LeaderState.commitCandidate_spec rfl hpos).2.1
    refine { h with commitIndex := hlast.trans h.raftLog.lastIndex, goroutines := fun g hg => ?_ }
    rcases Cluster.mem_append_apply g hg with hold | rfl
    · exact h.goroutines g hold
    · trivial
  · exact h

theorem appendResponse (h : n.Counted b) {peer : NodeID} {resp : AppendEntriesResponse}
    (hresp : resp.Counted b) (hn : n.appendResponse disk peer resp = some m) : m.Counted (b + 1) := by
  have hup := h.mono (Nat.le_succ b)
  unfold RaftNode.appendResponse at hn
  split at hn
  · cases hn
    exact hup
  · split at hn
    · cases hn
      exact hup.becomeFollower _ (hresp.term.trans (Nat.le_succ b))
    · split at hn
      · cases hn
      · rename_i ls hls
        have hold := h.leader ls hls
        split at hn
        · cases hn
          refine commitAcked ?_ _
          refine { hup with leader := fun ls' hls' p => ?_ }
          cases hls'
          -- the peer's `matchIndex` is at most `b`, and its `nextIndex` one more
          have hmatch : ∀ q, (ls.acknowledge peer resp.matchIndex).matchIndex.at q ≤ b := by
            intro q
            rw [LeaderState.acknowledge_matchIndex]
            split
            · exact Nat.max_le.mpr ⟨(hold q).2, hresp.matchIndex⟩
            · exact (hold q).2
          refine ⟨?_, (hmatch p).trans (Nat.le_succ b)⟩
          rw [LeaderState.acknowledge_nextIndex]
          split
          · exact Nat.succ_le_succ (hmatch peer)
          · exact (hold p).1.trans (Nat.le_succ b)
        · cases hn
          refine { hup with leader := fun ls' hls' p => ?_ }
          cases hls'
          rw [LeaderState.backUp_matchIndex]
          refine ⟨?_, (hold p).2.trans (Nat.le_succ b)⟩
          have hconflict := hresp.conflictIndex
          have hnext := (hold p).1
          rcases LeaderState.backUp_nextIndex ls peer resp.conflictIndex p with heq | ⟨_, _, heq | heq⟩ <;>
            omega

theorem handleInstallSnapshot (h : n.Counted b) (E : Engine σ) {req : InstallSnapshotRequest}
    (hreq : req.Counted b) :
    (n.handleInstallSnapshot E disk req).1.Counted b ∧
      (n.handleInstallSnapshot E disk req).2.term ≤ b := by
  have hcases := Cluster.installed E disk n req
  generalize n.handleInstallSnapshot E disk req = r at hcases ⊢
  cases hcases with
  | stale _ => exact ⟨h, h.currentTerm⟩
  | unrestored hm _ => exact ⟨{ h.joins hreq.term hm with }, h.currentTerm⟩
  | uncompacted hm _ _ _ => exact ⟨{ h.joins hreq.term hm with }, h.currentTerm⟩
  | done hm _ _ _ hrl =>
    have hjoin := h.joins hreq.term hm
    exact ⟨{ hjoin with
      raftLog := hjoin.raftLog.compact hreq.lastIncludedIndex hreq.lastIncludedTerm hrl
      commitIndex := hreq.lastIncludedIndex
      lastApplied := hreq.lastIncludedIndex }, h.currentTerm⟩

theorem snapshotResponse (h : n.Counted b) {peer : NodeID} {index : Nat} (hindex : index ≤ b)
    {resp : InstallSnapshotResponse} (ht : resp.term ≤ b)
    (hn : n.snapshotResponse disk peer index resp = some m) : m.Counted (b + 1) := by
  have hup := h.mono (Nat.le_succ b)
  unfold RaftNode.snapshotResponse at hn
  split at hn
  · cases hn
    exact hup.becomeFollower _ (ht.trans (Nat.le_succ b))
  · split at hn
    · split at hn
      · cases hn
      · rename_i ls hls
        cases hn
        refine { hup with leader := fun ls' hls' p => ?_ }
        cases hls'
        have hold := hup.leader ls hls p
        dsimp only
        rw [IndexMap.at_insert, IndexMap.at_insert]
        constructor
        · split
          · exact Nat.succ_le_succ hindex
          · exact hold.1
        · split
          · exact hindex.trans (Nat.le_succ b)
          · exact hold.2
    · cases hn
      exact hup

theorem applyEntry (h : n.Counted b) (E : Engine σ) (written : Bool) {e : LogEntry}
    (he : e.term ≤ b) : (n.applyEntry E written e).1.Counted b := by
  have hgs : ∀ g ∈ n.goroutines ++ [.takeSnapshot n.lastApplied e.term], g.Counted b := by
    intro g hg
    rcases List.mem_append.mp hg with hold | hnew
    · exact h.goroutines g hold
    · rw [List.mem_singleton.mp hnew]
      exact ⟨h.lastApplied, he⟩
  unfold RaftNode.applyEntry
  dsimp only
  split <;> split
  · exact { h with goroutines := hgs }
  · exact { h with }
  · exact { h with goroutines := hgs }
  · exact { h with }

theorem applyCommitted (h : n.Counted b) (E : Engine σ) : (n.applyCommitted E disk).1.Counted b := by
  have hle : max n.commitIndex n.lastApplied ≤ b := Nat.max_le.mpr ⟨h.commitIndex, h.lastApplied⟩
  have hmoved : ∀ {m : RaftNode σ}, m.lastApplied < max n.commitIndex n.lastApplied → m.Counted b →
      ({ m with lastApplied := m.lastApplied + 1 } : RaftNode σ).Counted b :=
    fun hlt hm => { hm with lastApplied := Nat.succ_le_of_lt (hlt.trans_le hle) }
  refine Cluster.applyCommitted_rounds E disk (P := fun m _ => m.Counted b) ?_ ?_ h
  · intro written m e _ hget hlt hm
    exact (hmoved hlt hm).applyEntry E written (hm.raftLog.entry _ e hget).2.term
  · exact fun m _ _ hlt hm => hmoved hlt hm

theorem compactLog (h : n.Counted b) {index term : Nat} (hi : index ≤ b) (ht : term ≤ b)
    (data : Bytes) : (n.compactLog disk index term data).Counted b := by
  unfold RaftNode.compactLog
  split
  · exact h
  · rename_i rl hrl
    exact { h with raftLog := h.raftLog.compact hi ht hrl }

end RaftNode.Counted

/-- The numbers of the message a critical section works on. -/
def Op.Counted (b : Nat) : Op → Prop
  | .handleRequestVote req => req.Counted b
  | .voteResponse _ resp => resp.term ≤ b
  | .handleAppendEntries req => req.Counted b
  | .appendResponse _ resp => resp.Counted b
  | .handleInstallSnapshot req => req.Counted b
  | .snapshotResponse _ snapshotIdx resp => snapshotIdx ≤ b ∧ resp.term ≤ b
  | .takeSnapshot index term _ => index ≤ b ∧ term ≤ b
  | _ => True

/-- **A critical section raises the bound by one at most.** -/
theorem Op.counted {b : Nat} {E : Engine σ} {disk : Disk} {n m : RaftNode σ} {op : Op}
    (h : n.Counted b) (hop : op.Counted b) (hm : op.run E disk n = some m) : m.Counted (b + 1) := by
  cases op with
  | appendResponse peer resp => exact h.appendResponse hop hm
  | snapshotResponse peer index resp => exact h.snapshotResponse hop.1 hop.2 hm
  | startElection =>
    cases hm
    exact h.startElection
  | handleRequestVote req =>
    cases hm
    exact (h.handleRequestVote hop).1.mono (Nat.le_succ b)
  | voteResponse el resp =>
    cases hm
    exact (h.voteResponse el hop).mono (Nat.le_succ b)
  | becomeLeader =>
    cases hm
    exact h.becomeLeader
  | propose cmd =>
    cases hm
    exact h.propose cmd
  | release id =>
    cases hm
    exact { h.mono (Nat.le_succ b) with }
  | cancel id index =>
    cases hm
    exact { h.mono (Nat.le_succ b) with }
  | handleAppendEntries req =>
    cases hm
    exact (h.handleAppendEntries hop).1.mono (Nat.le_succ b)
  | handleInstallSnapshot req =>
    cases hm
    exact (h.handleInstallSnapshot E hop).1.mono (Nat.le_succ b)
  | applyCommitted =>
    cases hm
    exact (h.applyCommitted E).mono (Nat.le_succ b)
  | takeSnapshot index term data =>
    cases hm
    exact (h.compactLog hop.1 hop.2 data).mono (Nat.le_succ b)

/-! ## The cluster -/

/-- A condition on the request of a call, and one on its response. -/
def Call.Meets {ρ τ : Type} (P : ρ → Prop) (Q : τ → Prop) (c : Call ρ τ) : Prop :=
  P c.req ∧ ∀ resp, c.reply = .answered resp → Q resp

/-- The calls after a step meet the conditions if those before it do, what is sent does, and so does the
answer that is given. -/
theorem CallAfter.meets {ρ τ : Type} {P P' : ρ → Prop} {Q Q' : τ → Prop} {calls : Calls ρ τ}
    {answer : Nat → Call ρ τ → τ → Prop} {sent : Call ρ τ → Prop} {k : Nat} {c' : Call ρ τ}
    (h : CallAfter calls answer sent k c') (hP : ∀ req, P req → P' req) (hQ : ∀ resp, Q resp → Q' resp)
    (hold : ∀ c ∈ calls, c.Meets P Q) (hanswer : ∀ c ∈ calls, ∀ resp, answer k c resp → Q' resp)
    (hsent : sent c' → P' c'.req) : c'.Meets P' Q' := by
  cases h with
  | @old c hk hf =>
    obtain ⟨hreq, hreply⟩ := hold c (List.mem_of_getElem? hk)
    refine ⟨by rw [hf.req]; exact hP _ hreq, fun resp hr => ?_⟩
    rcases hf.reply with hsame | hlost
    · exact hQ resp (hreply resp (hsame.symm.trans hr))
    · rw [hlost] at hr
      cases hr
  | @answered c resp hk _ ha hc =>
    subst hc
    have hc := List.mem_of_getElem? hk
    refine ⟨hP _ (hold c hc).1, fun resp' hr => ?_⟩
    cases hr
    exact hanswer c hc resp ha
  | new hs hp =>
    refine ⟨hsent hs, fun resp hr => ?_⟩
    rw [hp] at hr
    cases hr

namespace Cluster

variable {E : Engine σ} {M : Membership} {disk : Disk} {s s' : Cluster σ} {st : Step} {i : NodeID}
  {b : Nat}

/-- The numbers of a cluster. -/
structure Counted (b : Nat) (s : Cluster σ) : Prop where
  node : ∀ i, (s.node i).Counted b
  voteCalls : ∀ c ∈ s.voteCalls, c.Meets (·.Counted b) (·.term ≤ b)
  appendCalls : ∀ c ∈ s.appendCalls, c.Meets (·.Counted b) (·.Counted b)
  snapshotCalls : ∀ c ∈ s.snapshotCalls, c.Meets (·.Counted b) (·.term ≤ b)

theorem Counted.supplies (h : s.Counted b) {op : Op} (hop : Supplies s i op) : op.Counted b := by
  cases op with
  | handleRequestVote req =>
    obtain ⟨c, hc, _, rfl⟩ := hop
    exact (h.voteCalls c hc).1
  | voteResponse el resp =>
    obtain ⟨c, hc, _, hr⟩ := hop
    exact (h.voteCalls c hc).2 resp hr
  | handleAppendEntries req =>
    obtain ⟨c, hc, _, rfl⟩ := hop
    exact (h.appendCalls c hc).1
  | appendResponse peer resp =>
    obtain ⟨c, hc, _, _, hr⟩ := hop
    exact (h.appendCalls c hc).2 resp hr
  | handleInstallSnapshot req =>
    obtain ⟨c, hc, _, rfl⟩ := hop
    exact (h.snapshotCalls c hc).1
  | snapshotResponse peer index resp =>
    obtain ⟨c, hc, _, _, rfl, hr⟩ := hop
    exact ⟨(h.snapshotCalls c hc).1.lastIncludedIndex, (h.snapshotCalls c hc).2 resp hr⟩
  | takeSnapshot index term data => exact (h.node i).goroutines _ hop
  | _ => trivial

/-- Other goroutines, with the numbers of those there were. -/
theorem Counted.scheduled {n : RaftNode σ} (h : n.Counted b) {gs : List Goroutine}
    (hgs : Scheduled n gs) : ({ n with goroutines := gs } : RaftNode σ).Counted b := by
  refine { h with goroutines := fun g hg => ?_ }
  rcases hgs g hg with hold | ⟨index, term, data, rfl, htake⟩
  · exact h.goroutines g hold
  · exact h.goroutines (.takeSnapshot index term) htake

theorem Counted.lives (h : s.Counted b) {n : RaftNode σ} (hn : Lives E disk s i n) :
    n.Counted (b + 1) := by
  cases hn with
  | ran gs op hgs hop hrun =>
    exact Op.counted (Counted.scheduled (h.node i) fun g hg => Or.inl (hgs g hg)) (h.supplies hop) hrun
  | scheduled gs hgs hn =>
    subst hn
    exact (Counted.scheduled (h.node i) hgs).mono (Nat.le_succ b)
  | ended hn =>
    subst hn
    exact ((h.node i).newRaftNode E).mono (Nat.le_succ b)

/-- The goroutines that reads during `applyCommitted` leave. -/
theorem scheduled_goroutinesAfter (E : Engine σ) (disk : Disk) (s : Cluster σ) (i : NodeID) (k : Nat)
    (reads : Nat → Option Nat) :
    Scheduled ((s.runGoroutine E disk i k .applyCommitted).node i)
      (s.goroutinesAfter E disk i k reads) := by
  rw [runGoroutine_apply]
  intro g hg
  obtain ⟨⟨g₀, j⟩, hmem, hread⟩ := List.mem_filterMap.mp hg
  have hold := List.fst_mem_of_mem_zipIdx hmem
  dsimp only at hread hold
  unfold readMeanwhile at hread
  split at hread
  · split at hread
    · split at hread
      · cases hread
      · cases hread
        exact Or.inr ⟨_, _, _, rfl, hold⟩
    · cases hread
      exact Or.inl hold
  · cases hread
    exact Or.inl hold

theorem Counted.step_node (h : s.Counted b) (hs : s.step E M st = some s') (i : NodeID) :
    (s'.node i).Counted (b + 1) := by
  have hsame : ∀ i, (s.node i).Counted (b + 1) := fun i => (h.node i).mono (Nat.le_succ b)
  cases step_cases hs with
  | @crash j =>
    by_cases hij : i = j
    · subst hij
      rw [restart_self]
      exact (hsame i).newRaftNode E
    · rw [restart_other _ hij]
      exact hsame i
  | @crashDuring a cut j s₁ _ _ hx =>
    by_cases hij : i = j
    · subst hij
      rw [restart_self]
      exact (h.lives (hx.lifetime i)).newRaftNode E
    · rw [restart_other _ hij, lose_node]
      exact hsame i
  | @applyRead disk j k reads hg =>
    have hx : Exec E M disk s (.resume j k) (s.runGoroutine E disk j k .applyCommitted) := .resumed hg
    have hrun := h.lives (hx.lifetime i)
    by_cases hij : i = j
    · subst hij
      rw [setNode_self]
      exact Counted.scheduled hrun (scheduled_goroutinesAfter E disk s i k reads)
    · rw [setNode_other _ _ _ hij]
      exact hrun
  | act hx => exact h.lives (hx.lifetime i)

/-- What a leader sends. -/
theorem counted_of_peerRequest {n : RaftNode σ} (h : n.Counted b) {ls : LeaderState}
    (hls : n.leader = some ls) (peer : NodeID) :
    (∀ req, n.peerRequest ls peer = .appendEntries req → req.Counted b) ∧
      ∀ req, n.peerRequest ls peer = .installSnapshot req → req.Counted b := by
  have hnext := (h.leader ls hls peer).1
  unfold RaftNode.peerRequest
  dsimp only
  split
  · refine ⟨fun _ hreq => (by cases hreq), fun req hreq => ?_⟩
    cases hreq
    exact ⟨h.currentTerm, h.raftLog.snapshotIndex, h.raftLog.snapshotTerm⟩
  · refine ⟨fun req hreq => ?_, fun _ hreq => (by cases hreq)⟩
    cases hreq
    refine ⟨h.currentTerm, (Nat.sub_le _ _).trans hnext, h.raftLog.termAt _, fun e he => ?_,
      h.commitIndex⟩
    dsimp only at he
    split at he
    · obtain ⟨k, hk⟩ := RaftLog.get_of_mem_getRangeFrom he
      exact (h.raftLog.entry k e hk).2
    · exact absurd he List.not_mem_nil

/-- **A step raises the bound by one at most.** -/
theorem Counted.step (h : s.Counted b) (hs : s.step E M st = some s') : s'.Counted (b + 1) where
  node := h.step_node hs
  voteCalls c' hc' := by
    obtain ⟨k, hk⟩ := List.mem_iff_getElem?.mp hc'
    refine (step_voteCall hs hk).meets (fun _ hreq => hreq.mono (Nat.le_succ b))
      (fun _ ht => ht.trans (Nat.le_succ b)) h.voteCalls ?_ ?_
    · rintro c hc resp ⟨disk, _, rfl⟩
      exact ((h.node c.dst).handleRequestVote (h.voteCalls c hc).1).2.trans (Nat.le_succ b)
    · rintro ⟨disk, j, p, _, _, _, rfl⟩
      exact ⟨Nat.succ_le_succ (h.node j).currentTerm,
        (h.node j).raftLog.lastIndex.trans (Nat.le_succ b),
        (h.node j).raftLog.lastTerm.trans (Nat.le_succ b)⟩
  appendCalls c' hc' := by
    obtain ⟨k, hk⟩ := List.mem_iff_getElem?.mp hc'
    refine (step_appendCall hs hk).meets (fun _ hreq => hreq.mono (Nat.le_succ b))
      (fun _ hresp => hresp.mono (Nat.le_succ b)) h.appendCalls ?_ ?_
    · rintro c hc resp ⟨disk, _, rfl⟩
      exact ((h.node c.dst).handleAppendEntries (h.appendCalls c hc).1).2
    · rintro ⟨ls, _, _, _, hls, hreq⟩
      exact ((counted_of_peerRequest (h.node c'.src) hls c'.dst).1 _ hreq).mono (Nat.le_succ b)
  snapshotCalls c' hc' := by
    obtain ⟨k, hk⟩ := List.mem_iff_getElem?.mp hc'
    refine (step_snapshotCall hs hk).meets (fun _ hreq => hreq.mono (Nat.le_succ b))
      (fun _ ht => ht.trans (Nat.le_succ b)) h.snapshotCalls ?_ ?_
    · rintro c hc resp ⟨disk, _, rfl⟩
      exact ((h.node c.dst).handleInstallSnapshot E (h.snapshotCalls c hc).1).2.trans (Nat.le_succ b)
    · rintro ⟨disk, ls, _, _, _, hls, hreq⟩
      exact ((counted_of_peerRequest (h.node c'.src) hls c'.dst).2 _ hreq).mono (Nat.le_succ b)

/-- **No number is larger than the number of steps taken.** -/
theorem Reaches.counted {store : NodeID → σ} {threshold : NodeID → Int}
    {ok : Cluster σ → Step → Prop} {past : List (Cluster σ × Step)}
    (h : Reaches E M store threshold ok past s) : s.Counted past.length := by
  refine Reaches.invariant (P := fun past s => s.Counted past.length) ?_ ?_ h
  · exact ⟨fun _ => ⟨.fresh, le_refl _, le_refl _, le_refl _, fun _ hls => (by cases hls),
      fun _ hg => absurd hg List.not_mem_nil⟩, fun _ hc => absurd hc List.not_mem_nil,
      fun _ hc => absurd hc List.not_mem_nil, fun _ hc => absurd hc List.not_mem_nil⟩
  · exact fun _ _ _ _ _ hinv _ hs => hinv.step hs

end Cluster

end Raftrix
