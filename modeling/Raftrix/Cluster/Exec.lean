import Raftrix.Lib.Run
import Raftrix.Model.Cluster

/-!
# What a step can do

The step function read backwards, once for all invariants.

* `Exec` lists the outcomes of a critical section on the whole cluster, `exec_cases` that there are
  no others.
* `Move` is the part of it that concerns the acting node: which function of `Model/Node.lean` made
  the new struct. **`Moved`** adds the crashes, and `step_moved` says that a step moves one node and
  leaves the others alone.
* `CallAfter` says where a call found after a step comes from: it was there before, with the same
  ends and the same request, or it has just been sent. `step_voteCall`, `step_appendCall` and
  `step_snapshotCall` are the three instances.
-/

namespace Raftrix

variable {σ : Type}

/-- The critical section of a step, cut short or not. -/
def Step.action? : Step → Option Action
  | .act _ a | .crashDuring a _ => some a
  | .applyRead _ i k _ => some (.resume i k)
  | .crash _ => none

namespace Cluster

section Nodes

variable (s : Cluster σ) (i : NodeID) (n : RaftNode σ) (el : Option RaftNode.Election)

@[simp] theorem setNode_self : (s.setNode i n).node i = n := if_pos rfl

theorem setNode_other {j : NodeID} (h : j ≠ i) : (s.setNode i n).node j = s.node j := if_neg h

@[simp] theorem setElection_self : (s.setElection i el).election i = el := if_pos rfl

theorem setElection_other {j : NodeID} (h : j ≠ i) :
    (s.setElection i el).election j = s.election j := if_neg h

end Nodes

/-! ## Critical sections -/

/-- The outcomes of a critical section. -/
inductive Exec (E : Engine σ) (M : Membership) (disk : Disk) (s : Cluster σ) :
    Action → Cluster σ → Prop
  | timeout {i : NodeID} (hi : i ∈ M.ids) (hrole : (s.node i).state ≠ .leader)
      (hfree : s.election i = none) : Exec E M disk s (.electionTimeout i) (s.timeout disk i)
  | vote {k : Nat} {c : VoteCall}
      (hk : s.voteCalls[k]? = some c) (hp : c.reply = .pending) :
      Exec E M disk s (.handleVote k)
        { s.setNode c.dst ((s.node c.dst).handleRequestVote disk c.req).1 with
          voteCalls :=
            s.voteCalls.setReply k (.answered ((s.node c.dst).handleRequestVote disk c.req).2) }
  | voted {k : Nat} {c : VoteCall} {resp : RequestVoteResponse}
      {el : RaftNode.Election} (hk : s.voteCalls[k]? = some c) (hr : c.reply = .answered resp)
      (hw : c.waiting = true) (hel : s.election c.src = some el) :
      Exec E M disk s (.voteReturn k)
        { (s.setNode c.src ((s.node c.src).voteResponse disk el resp).1).setElection c.src
            (some ((s.node c.src).voteResponse disk el resp).2) with
          voteCalls := s.voteCalls.settle k }
  | voteFailed {k : Nat} {c : VoteCall}
      (hk : s.voteCalls[k]? = some c) (hw : c.waiting = true) :
      Exec E M disk s (.voteFail k) { s with voteCalls := s.voteCalls.settle k }
  | finished {i : NodeID} {el : RaftNode.Election} (hel : s.election i = some el)
      (hdone : ∀ c ∈ s.voteCalls, c.src = i → c.waiting = false) :
      Exec E M disk s (.finishElection i) (s.endElection disk i el)
  | proposed {i : NodeID} {cmd : Command} (hi : i ∈ M.ids) :
      Exec E M disk s (.propose i cmd) (s.setNode i ((s.node i).propose disk cmd).1)
  | received {i : NodeID} {id : Nat} {p : Proposal} (hp : (s.node i).proposals[id]? = some p)
      (hw : p.waiting = true) (hd : p.done ≠ none) :
      Exec E M disk s (.receive i id) (s.setNode i ((s.node i).release id))
  | cancelled {i : NodeID} {id : Nat} {p : Proposal} (hp : (s.node i).proposals[id]? = some p)
      (hw : p.waiting = true) :
      Exec E M disk s (.cancel i id) (s.setNode i ((s.node i).cancel id p.index))
  | sent {i peer : NodeID} {ls : LeaderState} (hi : i ∈ M.ids)
      (hpeer : peer ∈ (s.node i).peers.map Peer.id) (hrole : (s.node i).state = .leader)
      (hls : (s.node i).leader = some ls) :
      Exec E M disk s (.replicate i peer) (s.sendTo i peer ls)
  | sendPanic {i peer : NodeID} (hrole : (s.node i).state = .leader)
      (hls : (s.node i).leader = none) :
      Exec E M disk s (.replicate i peer) (s.restart E i (s.node i))
  | append {k : Nat} {c : AppendCall}
      (hk : s.appendCalls[k]? = some c) (hp : c.reply = .pending) :
      Exec E M disk s (.handleAppend k)
        { s.setNode c.dst ((s.node c.dst).handleAppendEntries disk c.req).1 with
          appendCalls :=
            s.appendCalls.setReply k
              (.answered ((s.node c.dst).handleAppendEntries disk c.req).2) }
  | appended {k : Nat} {c : AppendCall}
      {resp : AppendEntriesResponse} {n : RaftNode σ} (hk : s.appendCalls[k]? = some c)
      (hr : c.reply = .answered resp) (hw : c.waiting = true)
      (hn : (s.node c.src).appendResponse disk c.dst resp = some n) :
      Exec E M disk s (.appendReturn k)
        { s.setNode c.src n with appendCalls := s.appendCalls.settle k }
  | appendPanic {k : Nat} {c : AppendCall}
      (hk : s.appendCalls[k]? = some c) :
      Exec E M disk s (.appendReturn k)
        { s.restart E c.src (s.node c.src) with
          appendCalls := (s.appendCalls.orphan c.src).settle k }
  | appendFailed {k : Nat} {c : AppendCall}
      (hk : s.appendCalls[k]? = some c) :
      Exec E M disk s (.appendFail k) { s with appendCalls := s.appendCalls.settle k }
  | snapshot {k : Nat} {c : SnapshotCall}
      (hk : s.snapshotCalls[k]? = some c) (hp : c.reply = .pending) :
      Exec E M disk s (.handleSnapshot k)
        { s.setNode c.dst ((s.node c.dst).handleInstallSnapshot E disk c.req).1 with
          snapshotCalls :=
            s.snapshotCalls.setReply k
              (.answered ((s.node c.dst).handleInstallSnapshot E disk c.req).2) }
  | installed {k : Nat} {c : SnapshotCall}
      {resp : InstallSnapshotResponse} {n : RaftNode σ} (hk : s.snapshotCalls[k]? = some c)
      (hr : c.reply = .answered resp) (hw : c.waiting = true)
      (hn : (s.node c.src).snapshotResponse disk c.dst c.req.lastIncludedIndex resp = some n) :
      Exec E M disk s (.snapshotReturn k)
        { s.setNode c.src n with snapshotCalls := s.snapshotCalls.settle k }
  | installPanic {k : Nat} {c : SnapshotCall}
      (hk : s.snapshotCalls[k]? = some c) :
      Exec E M disk s (.snapshotReturn k)
        { s.restart E c.src (s.node c.src) with
          snapshotCalls := (s.snapshotCalls.orphan c.src).settle k }
  | snapshotFailed {k : Nat} {c : SnapshotCall}
      (hk : s.snapshotCalls[k]? = some c) :
      Exec E M disk s (.snapshotFail k) { s with snapshotCalls := s.snapshotCalls.settle k }
  | resumed {i : NodeID} {k : Nat} {g : Goroutine} (hg : (s.node i).goroutines[k]? = some g) :
      Exec E M disk s (.resume i k) (s.runGoroutine E disk i k g)

variable {E : Engine σ} {M : Membership} {disk : Disk} {s s' : Cluster σ} {a : Action}

/-- **There are no other outcomes.** -/
theorem exec_cases (h : s.exec E M disk a = some s') : Exec E M disk s a s' := by
  cases a with
  | electionTimeout i =>
    simp only [exec] at h
    split at h
    · rename_i hc
      cases h
      exact .timeout hc.1 hc.2.1 hc.2.2
    · cases h
  | handleVote k =>
    simp only [exec] at h
    split at h
    · rename_i hk
      cases h
      exact .vote hk rfl
    · cases h
  | voteReturn k =>
    simp only [exec] at h
    split at h
    · rename_i hk
      split at h
      · rename_i hel
        cases h
        exact .voted hk rfl rfl hel
      · cases h
    · cases h
  | voteFail k =>
    simp only [exec] at h
    split at h
    · rename_i hk
      cases h
      exact .voteFailed hk rfl
    · cases h
  | finishElection i =>
    simp only [exec] at h
    split at h
    · rename_i hel
      split at h
      · cases h
      · rename_i hany
        cases h
        refine .finished hel fun c hc hsrc => ?_
        by_contra hw
        refine hany (List.any_eq_true.mpr ⟨c, hc, ?_⟩)
        simpa [hsrc] using hw
    · cases h
  | propose i cmd =>
    simp only [exec] at h
    split at h
    · rename_i hi
      cases h
      exact .proposed hi
    · cases h
  | receive i id =>
    simp only [exec] at h
    split at h
    · rename_i hp
      split at h
      · rename_i hc
        cases h
        exact .received hp hc.1 hc.2
      · cases h
    · cases h
  | cancel i id =>
    simp only [exec] at h
    split at h
    · rename_i hp
      split at h
      · rename_i hw
        cases h
        exact .cancelled hp hw
      · cases h
    · cases h
  | replicate i peer =>
    simp only [exec] at h
    split at h
    · rename_i hc
      split at h
      · rename_i hls
        cases h
        exact .sent hc.1 hc.2.1 hc.2.2 hls
      · rename_i hls
        cases h
        exact .sendPanic hc.2.2 hls
    · cases h
  | handleAppend k =>
    simp only [exec] at h
    split at h
    · rename_i hk
      cases h
      exact .append hk rfl
    · cases h
  | appendReturn k =>
    simp only [exec] at h
    split at h
    · rename_i src dst req resp hk
      cases h
      cases hn : (s.node src).appendResponse disk dst resp with
      | some n => exact .appended hk rfl rfl hn
      | none => exact .appendPanic hk
    · cases h
  | appendFail k =>
    simp only [exec] at h
    split at h
    · rename_i hk
      cases h
      exact .appendFailed hk
    · cases h
  | handleSnapshot k =>
    simp only [exec] at h
    split at h
    · rename_i hk
      cases h
      exact .snapshot hk rfl
    · cases h
  | snapshotReturn k =>
    simp only [exec] at h
    split at h
    · rename_i src dst req resp hk
      cases h
      cases hn : (s.node src).snapshotResponse disk dst req.lastIncludedIndex resp with
      | some n => exact .installed hk rfl rfl hn
      | none => exact .installPanic hk
    · cases h
  | snapshotFail k =>
    simp only [exec] at h
    split at h
    · rename_i hk
      cases h
      exact .snapshotFailed hk
    · cases h
  | resume i k =>
    simp only [exec] at h
    split at h
    · rename_i hg
      cases h
      exact .resumed hg
    · cases h

/-! ## The acting node -/

/-- How many `SaveMeta` transactions a critical section can make; they come first. -/
def metaWrites : Action → Nat
  | .handleVote _ => 2
  | .electionTimeout _ | .voteReturn _ | .handleAppend _ | .appendReturn _ | .handleSnapshot _
  | .snapshotReturn _ => 1
  | _ => 0

/-- The term rule shared by the three RPC handlers, for a term that is not stale. -/
inductive Joins (ok : Bool) (n : RaftNode σ) (term : Nat) : RaftNode σ → Prop
  | same (h : n.currentTerm = term) : Joins ok n term n
  | down (h : n.currentTerm < term) : Joins ok n term (n.becomeFollower ok term)

theorem Joins.le {ok : Bool} {n m : RaftNode σ} {term : Nat} (h : Joins ok n term m) :
    n.currentTerm ≤ term := by
  cases h with
  | same h => exact Nat.le_of_eq h
  | down h => exact Nat.le_of_lt h

/-- What a critical section does to the struct of the node that runs it. -/
inductive Move (E : Engine σ) (M : Membership) (disk : Disk) (s : Cluster σ) :
    Action → NodeID → RaftNode σ → Prop
  | idle {a : Action} {i : NodeID} : Move E M disk s a i (s.node i)
  /-- A nil dereference ends the process. -/
  | panic {a : Action} {i : NodeID} : Move E M disk s a i ((s.node i).newRaftNode E)
  /-- A newer term was seen. -/
  | down {a : Action} {i : NodeID} {term : Nat} (ha : 0 < metaWrites a)
      (ht : (s.node i).currentTerm < term) :
      Move E M disk s a i ((s.node i).becomeFollower (disk 0) term)
  | timeout {i : NodeID} (hi : i ∈ M.ids) (hrole : (s.node i).state ≠ .leader)
      (hfree : s.election i = none) :
      Move E M disk s (.electionTimeout i) i ((s.node i).startElection disk).1
  | grant {k : Nat} {c : VoteCall} {m : RaftNode σ}
      (hk : s.voteCalls[k]? = some c) (hp : c.reply = .pending)
      (hm : Joins (disk 0) (s.node c.dst) c.req.term m)
      (hfree : m.votedFor = [] ∨ m.votedFor = c.req.candidateID)
      (hup : RaftNode.candidateUpToDate m.raftLog c.req) :
      Move E M disk s (.handleVote k) c.dst
        { m with
          votedFor := c.req.candidateID
          raftLog := m.raftLog.saveMeta (disk 1) m.currentTerm c.req.candidateID }
  | lead {i : NodeID} {el : RaftNode.Election} (hel : s.election i = some el)
      (hwon : el.won = true) (hrole : (s.node i).state = .candidate) :
      Move E M disk s (.finishElection i) i
        { s.node i with
          state := .leader
          leaderID := (s.node i).id
          leader := some (.newLeaderState (s.node i).peers (s.node i).raftLog.lastIndex)
          raftLog :=
            ((s.node i).raftLog.append (disk 0) (s.node i).noopEntry).getD (s.node i).raftLog }
  | propose {i : NodeID} {cmd : Command} {rl : RaftLog} (hrole : (s.node i).state = .leader)
      (hrl : (s.node i).raftLog.append (disk 0) ((s.node i).proposalEntry cmd) = some rl) :
      Move E M disk s (.propose i cmd) i
        { s.node i with
          raftLog := rl
          pending := (s.node i).pending.insert ((s.node i).proposalEntry cmd).index
            (s.node i).proposals.length
          proposals := (s.node i).proposals ++
            [{ index := ((s.node i).proposalEntry cmd).index
               term := ((s.node i).proposalEntry cmd).term
               command := cmd }] }
  | receive {i : NodeID} {id : Nat} : Move E M disk s (.receive i id) i ((s.node i).release id)
  | cancel {i : NodeID} {id : Nat} {p : Proposal} (hp : (s.node i).proposals[id]? = some p) :
      Move E M disk s (.cancel i id) i ((s.node i).cancel id p.index)
  /-- The log does not match the request. -/
  | mismatch {k : Nat} {c : AppendCall} {m : RaftNode σ}
      (hk : s.appendCalls[k]? = some c) (hp : c.reply = .pending)
      (hm : Joins (disk 0) (s.node c.dst) c.req.term m) :
      Move E M disk s (.handleAppend k) c.dst { m with leaderID := c.req.leaderID }
  /-- The log matches the request and takes over its entries; the commit index may follow. -/
  | splice {k : Nat} {c : AppendCall} {m : RaftNode σ}
      {commit : Nat} {gs : List Goroutine}
      (hk : s.appendCalls[k]? = some c) (hp : c.reply = .pending)
      (hm : Joins (disk 0) (s.node c.dst) c.req.term m)
      (hprev : m.raftLog.checkPrev c.req = none)
      (hcommit : commit = m.commitIndex ∨
        (m.raftLog.appendEntries disk c.req.prevLogIndex 0 c.req.entries).ok = true ∧
          m.commitIndex < commit ∧
          commit = min (c.req.prevLogIndex + c.req.entries.length) c.req.leaderCommit)
      (hgs : ∀ g ∈ gs, g ∈ m.goroutines ∨ g = .applyCommitted) :
      Move E M disk s (.handleAppend k) c.dst
        { m with
          leaderID := c.req.leaderID
          raftLog := (m.raftLog.appendEntries disk c.req.prevLogIndex 0 c.req.entries).log
          commitIndex := commit
          goroutines := gs }
  /-- A leader counts an acknowledgement; the commit index may rise. -/
  | acked {k : Nat} {c : AppendCall}
      {resp : AppendEntriesResponse} {ls : LeaderState} {commit : Nat} {gs : List Goroutine}
      (hk : s.appendCalls[k]? = some c) (hr : c.reply = .answered resp) (hw : c.waiting = true)
      (hrole : (s.node c.src).state = .leader) (hterm : resp.term ≤ (s.node c.src).currentTerm)
      (hls : (s.node c.src).leader = some ls) (hs : resp.success = true)
      (hcommit : commit = (s.node c.src).commitIndex ∨ 0 < commit ∧
        commit = (ls.acknowledge c.dst resp.matchIndex).commitCandidate (s.node c.src).commitIndex
          (s.node c.src).raftLog.lastIndex (s.node c.src).currentTerm
          (s.node c.src).raftLog.termAt)
      (hgs : ∀ g ∈ gs, g ∈ (s.node c.src).goroutines ∨ g = .applyCommitted) :
      Move E M disk s (.appendReturn k) c.src
        { s.node c.src with
          leader := some (ls.acknowledge c.dst resp.matchIndex)
          commitIndex := commit
          goroutines := gs }
  | backedUp {k : Nat} {c : AppendCall}
      {resp : AppendEntriesResponse} {ls : LeaderState}
      (hk : s.appendCalls[k]? = some c) (hr : c.reply = .answered resp)
      (hrole : (s.node c.src).state = .leader) (hls : (s.node c.src).leader = some ls) :
      Move E M disk s (.appendReturn k) c.src
        { s.node c.src with leader := some (ls.backUp c.dst resp.conflictIndex) }
  /-- `HandleInstallSnapshot` up to the compaction. -/
  | restore {k : Nat} {c : SnapshotCall} {m : RaftNode σ}
      {store : σ} (hk : s.snapshotCalls[k]? = some c)
      (hm : Joins (disk 0) (s.node c.dst) c.req.term m) :
      Move E M disk s (.handleSnapshot k) c.dst
        { m with leaderID := c.req.leaderID, storage := store }
  | install {k : Nat} {c : SnapshotCall} {m : RaftNode σ}
      {store : σ} {rl : RaftLog} (hk : s.snapshotCalls[k]? = some c)
      (hm : Joins (disk 0) (s.node c.dst) c.req.term m)
      (hrl : m.raftLog.compact (disk 2) c.req.lastIncludedIndex c.req.lastIncludedTerm =
        some rl) :
      Move E M disk s (.handleSnapshot k) c.dst
        { m with
          leaderID := c.req.leaderID
          storage := store
          raftLog := rl
          commitIndex := c.req.lastIncludedIndex
          lastApplied := c.req.lastIncludedIndex
          snapshotData := c.req.data }
  | snapshotAcked {k : Nat} {c : SnapshotCall}
      {ls : LeaderState} (hk : s.snapshotCalls[k]? = some c)
      (hls : (s.node c.src).leader = some ls) :
      Move E M disk s (.snapshotReturn k) c.src
        { s.node c.src with
          leader := some
            { nextIndex := ls.nextIndex.insert c.dst (c.req.lastIncludedIndex + 1)
              matchIndex := ls.matchIndex.insert c.dst c.req.lastIncludedIndex } }
  | apply {i : NodeID} {k : Nat} {gs : List Goroutine}
      (hgs : ∀ g ∈ gs, g ∈ (s.node i).goroutines) :
      Move E M disk s (.resume i k) i (({ s.node i with goroutines := gs }).applyCommitted E disk).1
  /-- `takeSnapshot` has read the store, or a part of it has failed. -/
  | read {i : NodeID} {k : Nat} {gs : List Goroutine}
      (hgs : ∀ g ∈ gs, g ∈ (s.node i).goroutines ∨ ∃ index term data,
        g = .compactLog index term data ∧
        (s.node i).goroutines[k]? = some (.takeSnapshot index term) ∧
        E.snapshot (s.node i).storage = .ok data) :
      Move E M disk s (.resume i k) i { s.node i with goroutines := gs }
  | compact {i : NodeID} {k index term : Nat} {data : Bytes} {gs : List Goroutine} {rl : RaftLog}
      (hg : (s.node i).goroutines[k]? = some (.compactLog index term data))
      (hrl : (s.node i).raftLog.compact (disk 0) index term = some rl)
      (hgs : ∀ g ∈ gs, g ∈ (s.node i).goroutines) :
      Move E M disk s (.resume i k) i
        { s.node i with goroutines := gs, raftLog := rl, snapshotData := data }

/-! The moves of the functions with several ends. -/

theorem mem_append_apply {gs : List Goroutine} :
    ∀ g ∈ gs ++ [.applyCommitted], g ∈ gs ∨ g = .applyCommitted := by
  intro g hg
  exact (List.mem_append.mp hg).imp_right List.mem_singleton.mp

theorem joins_of_not_lt (ok : Bool) {n : RaftNode σ} {term : Nat} (h : ¬ term < n.currentTerm) :
    Joins ok n term (if term > n.currentTerm then n.becomeFollower ok term else n) := by
  split
  · rename_i hlt
    exact .down hlt
  · exact .same (by omega)

theorem move_vote {k : Nat} {c : VoteCall}
    (hk : s.voteCalls[k]? = some c) (hp : c.reply = .pending) :
    Move E M disk s (.handleVote k) c.dst ((s.node c.dst).handleRequestVote disk c.req).1 := by
  unfold RaftNode.handleRequestVote
  split
  · exact .idle
  · rename_i hge
    have hm := joins_of_not_lt (disk 0) hge
    have hdenied : Move E M disk s (.handleVote k) c.dst
        (if c.req.term > (s.node c.dst).currentTerm then
          (s.node c.dst).becomeFollower (disk 0) c.req.term else s.node c.dst) := by
      split
      · rename_i hlt
        exact .down (Nat.succ_pos 1) hlt
      · exact .idle
    dsimp only
    generalize (if c.req.term > (s.node c.dst).currentTerm then
      (s.node c.dst).becomeFollower (disk 0) c.req.term else s.node c.dst) = m at hm hdenied ⊢
    split
    · exact hdenied
    · rename_i hfree
      split
      · exact hdenied
      · rename_i hup
        refine .grant hk hp hm ?_ (not_not.mp hup)
        by_contra hno
        rw [not_or] at hno
        exact hfree hno

theorem move_voted {k : Nat} {i : NodeID} {el : RaftNode.Election} {resp : RequestVoteResponse} :
    Move E M disk s (.voteReturn k) i ((s.node i).voteResponse disk el resp).1 := by
  unfold RaftNode.voteResponse
  split
  · rename_i hlt
    exact .down (Nat.succ_pos 0) hlt
  · split <;> exact .idle

theorem move_lead {i : NodeID} {el : RaftNode.Election} (hel : s.election i = some el)
    (hwon : el.won = true) :
    Move E M disk s (.finishElection i) i ((s.node i).becomeLeader disk) := by
  unfold RaftNode.becomeLeader
  split
  · exact .idle
  · rename_i hrole
    exact .lead hel hwon (not_not.mp hrole)

theorem move_propose {i : NodeID} {cmd : Command} :
    Move E M disk s (.propose i cmd) i ((s.node i).propose disk cmd).1 := by
  unfold RaftNode.propose
  split
  · exact .idle
  · rename_i hrole
    simp only
    split
    · exact .idle
    · rename_i rl hrl
      exact .propose (not_not.mp hrole) hrl

theorem advanceCommit_cases (n : RaftNode σ) (req : AppendEntriesRequest) :
    ∃ commit gs, n.advanceCommit req = { n with commitIndex := commit, goroutines := gs } ∧
      (commit = n.commitIndex ∨ n.commitIndex < commit ∧
        commit = min (req.prevLogIndex + req.entries.length) req.leaderCommit) ∧
      ∀ g ∈ gs, g ∈ n.goroutines ∨ g = .applyCommitted := by
  have hmin : (if req.prevLogIndex + req.entries.length < req.leaderCommit then
      req.prevLogIndex + req.entries.length else req.leaderCommit) =
      min (req.prevLogIndex + req.entries.length) req.leaderCommit := by
    split <;> omega
  unfold RaftNode.advanceCommit
  dsimp only
  rw [hmin]
  split
  · split
    · rename_i hlt
      exact ⟨_, _, rfl, Or.inr ⟨hlt, rfl⟩, mem_append_apply⟩
    · exact ⟨n.commitIndex, n.goroutines, rfl, Or.inl rfl, fun _ => Or.inl⟩
  · exact ⟨n.commitIndex, n.goroutines, rfl, Or.inl rfl, fun _ => Or.inl⟩

theorem move_append {k : Nat} {c : AppendCall}
    (hk : s.appendCalls[k]? = some c) (hp : c.reply = .pending) :
    Move E M disk s (.handleAppend k) c.dst ((s.node c.dst).handleAppendEntries disk c.req).1 := by
  unfold RaftNode.handleAppendEntries
  split
  · exact .idle
  · rename_i hge
    have hm := joins_of_not_lt (disk 0) hge
    unfold RaftNode.acceptEntries RaftNode.acceptLeader
    dsimp only
    generalize (if c.req.term > (s.node c.dst).currentTerm then
      (s.node c.dst).becomeFollower (disk 0) c.req.term else s.node c.dst) = m at hm ⊢
    split
    · exact .mismatch hk hp hm
    · rename_i hprev
      split
      · rename_i hok
        obtain ⟨commit, gs, heq, hcommit, hgs⟩ := advanceCommit_cases
          { m with
            leaderID := c.req.leaderID
            raftLog := (m.raftLog.appendEntries disk c.req.prevLogIndex 0 c.req.entries).log }
          c.req
        rw [heq]
        exact .splice hk hp hm hprev (hcommit.imp id fun h => ⟨hok, h⟩) hgs
      · exact .splice hk hp hm hprev (Or.inl rfl) fun _ => Or.inl

theorem move_appended {k : Nat} {c : AppendCall}
    {resp : AppendEntriesResponse} {n : RaftNode σ} (hk : s.appendCalls[k]? = some c)
    (hr : c.reply = .answered resp) (hw : c.waiting = true)
    (hn : (s.node c.src).appendResponse disk c.dst resp = some n) :
    Move E M disk s (.appendReturn k) c.src n := by
  unfold RaftNode.appendResponse at hn
  split at hn
  · cases hn
    exact .idle
  · rename_i hrole
    have hrole := not_not.mp hrole
    split at hn
    · rename_i hlt
      cases hn
      exact .down (Nat.succ_pos 0) hlt
    · rename_i hterm
      split at hn
      · cases hn
      · rename_i ls hls
        split at hn
        · rename_i hs
          cases hn
          unfold RaftNode.commitAcked
          simp only
          split
          · rename_i hpos
            exact .acked hk hr hw hrole (by omega) hls hs (Or.inr ⟨hpos, rfl⟩) mem_append_apply
          · exact .acked hk hr hw hrole (by omega) hls hs (Or.inl rfl) fun _ => Or.inl
        · cases hn
          exact .backedUp hk hr hrole hls

/-- How `HandleInstallSnapshot` ends: the struct it leaves and its answer. -/
inductive Installed (E : Engine σ) (disk : Disk) (n : RaftNode σ) (req : InstallSnapshotRequest) :
    RaftNode σ × InstallSnapshotResponse → Prop
  | stale (h : req.term < n.currentTerm) :
      Installed E disk n req (n, { followerID := n.id, term := n.currentTerm })
  | unrestored {m : RaftNode σ} (hm : Joins (disk 0) n req.term m)
      (hfail : disk 1 = true → ∃ err, E.restoreSnapshot n.storage req.data = .error err) :
      Installed E disk n req
        ({ m with leaderID := req.leaderID }, { followerID := n.id, term := n.currentTerm })
  | uncompacted {m : RaftNode σ} {store : σ} (hm : Joins (disk 0) n req.term m)
      (hwritten : disk 1 = true) (hstore : E.restoreSnapshot n.storage req.data = .ok store)
      (hlost : disk 2 = false) :
      Installed E disk n req
        ({ m with leaderID := req.leaderID, storage := store },
          { followerID := n.id, term := n.currentTerm })
  | done {m : RaftNode σ} {store : σ} {rl : RaftLog} (hm : Joins (disk 0) n req.term m)
      (hwritten : disk 1 = true) (hstore : E.restoreSnapshot n.storage req.data = .ok store)
      (hkept : disk 2 = true)
      (hrl : m.raftLog.compact (disk 2) req.lastIncludedIndex req.lastIncludedTerm = some rl) :
      Installed E disk n req
        ({ m with
            leaderID := req.leaderID
            storage := store
            raftLog := rl
            commitIndex := req.lastIncludedIndex
            lastApplied := req.lastIncludedIndex
            snapshotData := req.data },
          { followerID := n.id, term := n.currentTerm, success := true })

theorem installed (E : Engine σ) (disk : Disk) (n : RaftNode σ) (req : InstallSnapshotRequest) :
    Installed E disk n req (n.handleInstallSnapshot E disk req) := by
  unfold RaftNode.handleInstallSnapshot
  dsimp only
  split
  · rename_i hlt
    exact .stale hlt
  · rename_i hge
    have hm := joins_of_not_lt (disk 0) hge
    have hstorage : (if req.term > n.currentTerm then n.becomeFollower (disk 0) req.term else n).storage
        = n.storage := by
      split <;> rfl
    generalize (if req.term > n.currentTerm then n.becomeFollower (disk 0) req.term else n) = m
      at hm hstorage ⊢
    cases hstore : E.restoreSnapshot m.storage req.data with
    | error err =>
      rw [hstorage] at hstore
      exact .unrestored hm fun _ => ⟨err, hstore⟩
    | ok store =>
      rw [hstorage] at hstore
      cases hwritten : disk 1 with
      | false => exact .unrestored hm fun h => by rw [hwritten] at h; cases h
      | true =>
        cases hkept : disk 2 with
        | false => exact .uncompacted hm hwritten hstore hkept
        | true => exact .done hm hwritten hstore hkept (by rw [hkept]; rfl)

theorem move_snapshot {k : Nat} {c : SnapshotCall}
    (hk : s.snapshotCalls[k]? = some c) :
    Move E M disk s (.handleSnapshot k) c.dst
      ((s.node c.dst).handleInstallSnapshot E disk c.req).1 := by
  have hcases := installed E disk (s.node c.dst) c.req
  generalize (s.node c.dst).handleInstallSnapshot E disk c.req = r at hcases ⊢
  cases hcases with
  | stale _ => exact .idle
  | unrestored hm _ => exact .restore hk hm
  | uncompacted hm _ _ _ => exact .restore hk hm
  | done hm _ _ _ hrl => exact .install hk hm hrl

theorem move_installed {k : Nat} {c : SnapshotCall}
    {resp : InstallSnapshotResponse} {n : RaftNode σ} (hk : s.snapshotCalls[k]? = some c)
    (hn : (s.node c.src).snapshotResponse disk c.dst c.req.lastIncludedIndex resp = some n) :
    Move E M disk s (.snapshotReturn k) c.src n := by
  unfold RaftNode.snapshotResponse at hn
  split at hn
  · rename_i hlt
    cases hn
    exact .down (Nat.succ_pos 0) hlt
  · split at hn
    · split at hn
      · cases hn
      · rename_i ls hls
        cases hn
        exact .snapshotAcked hk hls
    · cases hn
      exact .idle

theorem move_compact {i : NodeID} {k index term : Nat} {data : Bytes} {gs : List Goroutine}
    (hg : (s.node i).goroutines[k]? = some (.compactLog index term data))
    (hgs : ∀ g ∈ gs, g ∈ (s.node i).goroutines) :
    Move E M disk s (.resume i k) i
      (({ s.node i with goroutines := gs }).compactLog disk index term data) := by
  unfold RaftNode.compactLog
  split
  · exact .read fun g hg => Or.inl (hgs g hg)
  · rename_i rl hrl
    exact .compact hg hrl hgs

theorem restart_self (i : NodeID) (n : RaftNode σ) :
    (s.restart E i n).node i = n.newRaftNode E := if_pos rfl

theorem restart_other {i j : NodeID} (n : RaftNode σ) (h : j ≠ i) :
    (s.restart E i n).node j = s.node j := if_neg h

/-- A critical section that replaces the struct of one node and nothing else in `node`. -/
theorem move_of_setNode {i : NodeID} {n : RaftNode σ} (hnode : s'.node = (s.setNode i n).node)
    (hactor : s.actor a = some i) (hmove : Move E M disk s a i n) :
    ∃ i, s.actor a = some i ∧ Move E M disk s a i (s'.node i) ∧
      ∀ j, j ≠ i → s'.node j = s.node j := by
  refine ⟨i, hactor, ?_, fun j hj => ?_⟩
  · rw [hnode, setNode_self]
    exact hmove
  · rw [hnode, setNode_other _ _ _ hj]

theorem move_of_same {i : NodeID} (hnode : s'.node = s.node) (hactor : s.actor a = some i) :
    ∃ i, s.actor a = some i ∧ Move E M disk s a i (s'.node i) ∧
      ∀ j, j ≠ i → s'.node j = s.node j :=
  ⟨i, hactor, by rw [hnode]; exact .idle, fun j _ => by rw [hnode]⟩

/-- **A critical section moves its actor.** -/
theorem Exec.move (h : Exec E M disk s a s') :
    ∃ i, s.actor a = some i ∧ Move E M disk s a i (s'.node i) ∧
      ∀ j, j ≠ i → s'.node j = s.node j := by
  cases h with
  | timeout hi hrole hfree => exact move_of_setNode rfl rfl (.timeout hi hrole hfree)
  | vote hk hp => exact move_of_setNode rfl (by rw [actor, hk]; rfl) (move_vote hk hp)
  | voted hk _ _ _ => exact move_of_setNode rfl (by rw [actor, hk]; rfl) move_voted
  | voteFailed hk _ => exact move_of_same rfl (by rw [actor, hk]; rfl)
  | @finished i el hel _ =>
    by_cases hwon : el.won = true
    · refine move_of_setNode ?_ rfl (move_lead hel hwon)
      rw [endElection, if_pos hwon]
      rfl
    · refine move_of_same ?_ rfl
      rw [endElection, if_neg hwon]
      rfl
  | proposed _ => exact move_of_setNode rfl rfl move_propose
  | received _ _ _ => exact move_of_setNode rfl rfl .receive
  | cancelled hp _ => exact move_of_setNode rfl rfl (.cancel hp)
  | @sent i peer ls _ _ _ _ =>
    refine move_of_same ?_ rfl
    unfold sendTo
    split <;> rfl
  | sendPanic _ _ => exact move_of_setNode rfl rfl .panic
  | append hk hp => exact move_of_setNode rfl (by rw [actor, hk]; rfl) (move_append hk hp)
  | appended hk hr hw hn =>
    exact move_of_setNode rfl (by rw [actor, hk]; rfl) (move_appended hk hr hw hn)
  | appendPanic hk => exact move_of_setNode rfl (by rw [actor, hk]; rfl) .panic
  | appendFailed hk => exact move_of_same rfl (by rw [actor, hk]; rfl)
  | snapshot hk _ => exact move_of_setNode rfl (by rw [actor, hk]; rfl) (move_snapshot hk)
  | installed hk _ _ hn => exact move_of_setNode rfl (by rw [actor, hk]; rfl) (move_installed hk hn)
  | installPanic hk => exact move_of_setNode rfl (by rw [actor, hk]; rfl) .panic
  | snapshotFailed hk => exact move_of_same rfl (by rw [actor, hk]; rfl)
  | @resumed i k g hg =>
    have hrest : ∀ g ∈ (s.node i).goroutines.eraseIdx k, g ∈ (s.node i).goroutines :=
      fun _ => List.mem_of_mem_eraseIdx
    cases g with
    | applyCommitted => exact move_of_setNode rfl rfl (.apply hrest)
    | takeSnapshot index term =>
      simp only [runGoroutine]
      split
      · exact move_of_setNode rfl rfl (.read fun g hg => Or.inl (hrest g hg))
      · rename_i data hdata
        refine move_of_setNode rfl rfl (.read fun g' hg' => ?_)
        rcases List.mem_append.mp hg' with hold | hnew
        · exact Or.inl (hrest g' hold)
        · exact Or.inr ⟨index, term, data, List.mem_singleton.mp hnew, hg, hdata⟩
    | compactLog index term data => exact move_of_setNode rfl rfl (move_compact hg hrest)

/-- What a step does to the struct of the node it concerns. -/
inductive Moved (E : Engine σ) (M : Membership) (s : Cluster σ) :
    Step → NodeID → RaftNode σ → Prop
  | act {disk : Disk} {a : Action} {i : NodeID} {n : RaftNode σ} (h : Move E M disk s a i n) :
      Moved E M s (.act disk a) i n
  | crash {i : NodeID} : Moved E M s (.crash i) i ((s.node i).newRaftNode E)
  | crashDuring {a : Action} {cut : Nat} {i : NodeID} {n : RaftNode σ}
      (ha : a.isAtomic = false) (h : Move E M (upTo cut) s a i n) :
      Moved E M s (.crashDuring a cut) i (n.newRaftNode E)
  /-- `applyCommitted` with reads meanwhile, which only change the goroutines. -/
  | applyRead {disk : Disk} {i : NodeID} {k : Nat} {reads : Nat → Option Nat} {n : RaftNode σ}
      {gs gs' : List Goroutine} (h : Move E M disk s (.resume i k) i n)
      (hn : n = (({ s.node i with goroutines := gs }).applyCommitted E disk).1) :
      Moved E M s (.applyRead disk i k reads) i { n with goroutines := gs' }

/-- The outcomes of a step on the whole cluster. -/
inductive Stepped (E : Engine σ) (M : Membership) (s : Cluster σ) : Step → Cluster σ → Prop
  | act {disk : Disk} {a : Action} {s' : Cluster σ} (h : Exec E M disk s a s') :
      Stepped E M s (.act disk a) s'
  | crash {i : NodeID} : Stepped E M s (.crash i) (s.restart E i (s.node i))
  | crashDuring {a : Action} {cut : Nat} {i : NodeID} {s' : Cluster σ}
      (ha : a.isAtomic = false) (hi : s.actor a = some i) (h : Exec E M (upTo cut) s a s') :
      Stepped E M s (.crashDuring a cut) ((s.lose a).restart E i (s'.node i))
  | applyRead {disk : Disk} {i : NodeID} {k : Nat} {reads : Nat → Option Nat}
      (hg : (s.node i).goroutines[k]? = some .applyCommitted) :
      Stepped E M s (.applyRead disk i k reads)
        ((s.runGoroutine E disk i k .applyCommitted).setNode i
          { (s.runGoroutine E disk i k .applyCommitted).node i with
            goroutines := s.goroutinesAfter E disk i k reads })

variable {st : Step}

theorem step_cases (h : s.step E M st = some s') : Stepped E M s st s' := by
  cases st with
  | act disk a => exact .act (exec_cases h)
  | crash i =>
    simp only [step] at h
    split at h
    · cases h
      exact .crash
    · cases h
  | crashDuring a cut =>
    simp only [step] at h
    split at h
    · cases h
    · rename_i ha
      split at h
      · rename_i hi hx
        cases h
        exact .crashDuring (Bool.eq_false_iff.mpr ha) hi (exec_cases hx)
      · cases h
  | applyRead disk i k reads =>
    simp only [step] at h
    split at h
    · rename_i hg
      cases h
      exact .applyRead hg
    · cases h

theorem lose_node (a : Action) : (s.lose a).node = s.node := by
  cases a <;> rfl

theorem runGoroutine_apply {i : NodeID} {k : Nat} :
    (s.runGoroutine E disk i k .applyCommitted).node i =
      ({ s.node i with goroutines := (s.node i).goroutines.eraseIdx k }.applyCommitted E disk).1 :=
  setNode_self _ _ _

/-- **A step moves one node.** -/
theorem step_moved (h : s.step E M st = some s') :
    ∃ i, Moved E M s st i (s'.node i) ∧ ∀ j, j ≠ i → s'.node j = s.node j := by
  cases step_cases h with
  | act h =>
    obtain ⟨i, _, hmove, hother⟩ := h.move
    exact ⟨i, .act hmove, hother⟩
  | @crash i =>
    exact ⟨i, by rw [restart_self]; exact .crash, fun j hj => restart_other _ hj⟩
  | @crashDuring a cut i s₁ ha hi hx =>
    obtain ⟨i', hi', hmove, _⟩ := hx.move
    obtain rfl : i = i' := by rw [hi, Option.some.injEq] at hi'; exact hi'
    refine ⟨i, by rw [restart_self]; exact .crashDuring ha hmove, fun j hj => ?_⟩
    rw [restart_other _ hj, lose_node]
  | @applyRead disk i k reads hg =>
    refine ⟨i, by rw [setNode_self, runGoroutine_apply]; exact .applyRead (.apply fun _ =>
      List.mem_of_mem_eraseIdx) rfl, fun j hj => ?_⟩
    rw [setNode_other _ _ _ hj]
    exact setNode_other _ _ _ hj

/-- What holds of every node before a step and of the moved node after it holds of every node. -/
theorem forall_node_of_moved {P : NodeID → RaftNode σ → Prop} (h : s.step E M st = some s')
    (hP : ∀ i, P i (s.node i)) (hmoved : ∀ i n, Moved E M s st i n → P i n) (i : NodeID) :
    P i (s'.node i) := by
  obtain ⟨j, hmove, hother⟩ := step_moved h
  by_cases hij : i = j
  · subst hij
    exact hmoved _ _ hmove
  · rw [hother i hij]
    exact hP i

/-- Every bolt transaction succeeds. -/
def DiskOk (_ : Cluster σ) : Step → Prop
  | .act disk _ | .applyRead disk _ _ _ => ∀ k, disk k = true
  | _ => True

/-- The runs of a cluster from its initial state, over the steps `ok` allows. -/
abbrev Reaches (E : Engine σ) (M : Membership) (store : NodeID → σ) (threshold : NodeID → Int)
    (ok : Cluster σ → Step → Prop) :=
  Lib.Run (fun s => s = init M store threshold) (step E M) ok

/-- The invariant rule for runs of a cluster. -/
theorem Reaches.invariant {store : NodeID → σ} {threshold : NodeID → Int}
    {ok : Cluster σ → Step → Prop} {past : List (Cluster σ × Step)}
    {P : List (Cluster σ × Step) → Cluster σ → Prop} (h0 : P [] (init M store threshold))
    (hstep : ∀ past s st s', Reaches E M store threshold ok past s → P past s → ok s st →
      s.step E M st = some s' → P ((s, st) :: past) s')
    (h : Reaches E M store threshold ok past s) : P past s :=
  Lib.Run.invariant (fun _ hs => by rw [hs]; exact h0) hstep h

/-- The invariant rule for a property of single nodes. -/
theorem Reaches.forall_node {store : NodeID → σ} {threshold : NodeID → Int}
    {ok : Cluster σ → Step → Prop} {past : List (Cluster σ × Step)}
    {P : NodeID → RaftNode σ → Prop} (h0 : ∀ i, P i ((init M store threshold).node i))
    (hmoved : ∀ past s st i n, Reaches E M store threshold ok past s →
      (∀ j, P j (s.node j)) → ok s st → Moved E M s st i n → P i n)
    (h : Reaches E M store threshold ok past s) (i : NodeID) : P i (s.node i) := by
  refine Reaches.invariant (P := fun _ s => ∀ i, P i (s.node i)) h0 ?_ h i
  intro past s st s' hr hinv hok hs
  exact forall_node_of_moved hs hinv fun i n hm => hmoved past s st i n hr hinv hok hm

end Cluster

/-! ## The calls -/

section Calls

variable {ρ τ : Type}

/-- A call later on: the caller may have resumed, the callee may have died over it. -/
structure Call.Fades (c c' : Call ρ τ) : Prop where
  src : c'.src = c.src
  dst : c'.dst = c.dst
  req : c'.req = c.req
  waiting : c'.waiting = true → c.waiting = true
  reply : c'.reply = c.reply ∨ c'.reply = .lost

theorem Call.Fades.refl (c : Call ρ τ) : c.Fades c := ⟨rfl, rfl, rfl, id, Or.inl rfl⟩

theorem Call.Fades.trans {c c' c'' : Call ρ τ} (h : c.Fades c') (h' : c'.Fades c'') :
    c.Fades c'' where
  src := h'.src.trans h.src
  dst := h'.dst.trans h.dst
  req := h'.req.trans h.req
  waiting hw := h.waiting (h'.waiting hw)
  reply := by
    rcases h'.reply with hr | hr
    · rw [hr]
      exact h.reply
    · exact Or.inr hr

namespace Calls

/-- Every call of the second list is a faded one of the first. -/
def Fades (calls calls' : Calls ρ τ) : Prop :=
  ∀ (k : Nat) (c' : Call ρ τ), calls'[k]? = some c' →
    ∃ c : Call ρ τ, calls[k]? = some c ∧ c.Fades c'

theorem Fades.refl (calls : Calls ρ τ) : calls.Fades calls := fun _ c' h => ⟨c', h, .refl c'⟩

theorem Fades.trans {a b c : Calls ρ τ} (h : a.Fades b) (h' : b.Fades c) : a.Fades c := by
  intro k c'' hk
  obtain ⟨c', hk', hf'⟩ := h' k c'' hk
  obtain ⟨c, hk, hf⟩ := h k c' hk'
  exact ⟨c, hk, hf.trans hf'⟩

/-- Changing the `k`-th call only. -/
theorem getElem?_modify_cases {calls : Calls ρ τ} {k j : Nat} {f : Call ρ τ → Call ρ τ}
    {c' : Call ρ τ} (h : (calls.modify k f)[j]? = some c') :
    ∃ c, calls[j]? = some c ∧ (j = k ∧ c' = f c ∨ j ≠ k ∧ c' = c) := by
  rw [List.getElem?_modify] at h
  obtain ⟨c, hc, hf⟩ := Option.map_eq_some_iff.mp h
  refine ⟨c, hc, ?_⟩
  by_cases hkj : k = j
  · rw [if_pos hkj] at hf
    exact Or.inl ⟨hkj.symm, hf.symm⟩
  · rw [if_neg hkj] at hf
    exact Or.inr ⟨fun h => hkj h.symm, hf.symm⟩

theorem fades_modify (calls : Calls ρ τ) (k : Nat) {f : Call ρ τ → Call ρ τ}
    (hf : ∀ c : Call ρ τ, c.Fades (f c)) : calls.Fades (calls.modify k f) := by
  intro j c' hj
  obtain ⟨c, hc, ⟨_, rfl⟩ | ⟨_, rfl⟩⟩ := getElem?_modify_cases hj
  · exact ⟨c, hc, hf c⟩
  · exact ⟨_, hc, .refl _⟩

theorem fades_settle (calls : Calls ρ τ) (k : Nat) : calls.Fades (calls.settle k) :=
  fades_modify calls k fun _ => ⟨rfl, rfl, rfl, fun h => absurd h (by simp), Or.inl rfl⟩

theorem fades_lost (calls : Calls ρ τ) (k : Nat) : calls.Fades (calls.setReply k .lost) :=
  fades_modify calls k fun _ => ⟨rfl, rfl, rfl, id, Or.inr rfl⟩

theorem getElem?_orphan_cases {calls : Calls ρ τ} {i : NodeID} {k : Nat} {c' : Call ρ τ}
    (h : (calls.orphan i)[k]? = some c') :
    ∃ c, calls[k]? = some c ∧
      (c.src = i ∧ c' = { c with waiting := false } ∨ c.src ≠ i ∧ c' = c) := by
  rw [orphan, List.getElem?_map] at h
  obtain ⟨c, hc, hf⟩ := Option.map_eq_some_iff.mp h
  refine ⟨c, hc, ?_⟩
  by_cases hsrc : c.src = i
  · rw [if_pos hsrc] at hf
    exact Or.inl ⟨hsrc, hf.symm⟩
  · rw [if_neg hsrc] at hf
    exact Or.inr ⟨hsrc, hf.symm⟩

theorem fades_orphan (calls : Calls ρ τ) (i : NodeID) : calls.Fades (calls.orphan i) := by
  intro k c' hk
  obtain ⟨c, hc, ⟨_, rfl⟩ | ⟨_, rfl⟩⟩ := getElem?_orphan_cases hk
  · exact ⟨c, hc, rfl, rfl, rfl, fun h => absurd h (by simp), Or.inl rfl⟩
  · exact ⟨_, hc, .refl _⟩

theorem foldl_send (peers : List Peer) (i : NodeID) (req : ρ) (calls : Calls ρ τ) :
    peers.foldl (fun calls p => calls.send i p.id req) calls =
      calls ++ peers.map fun p => ⟨i, p.id, req, .pending, true⟩ := by
  induction peers generalizing calls with
  | nil => simp
  | cons p ps ih =>
    rw [List.foldl_cons, ih, send, List.append_assoc]
    rfl

end Calls

/-- Where the `k`-th call after a step comes from. -/
inductive CallAfter (calls : Calls ρ τ) (answer : Nat → Call ρ τ → τ → Prop)
    (sent : Call ρ τ → Prop) (k : Nat) (c' : Call ρ τ) : Prop
  | old {c : Call ρ τ} (hk : calls[k]? = some c) (hf : c.Fades c')
  | answered {c : Call ρ τ} {resp : τ} (hk : calls[k]? = some c) (hp : c.reply = .pending)
      (ha : answer k c resp) (hc : c' = { c with reply := .answered resp })
  | new (hs : sent c') (hp : c'.reply = .pending)

namespace CallAfter

variable {calls calls' : Calls ρ τ} {answer : Nat → Call ρ τ → τ → Prop}
  {sent : Call ρ τ → Prop} {k : Nat} {c c' : Call ρ τ}

theorem of_fades (h : calls.Fades calls') (hk : calls'[k]? = some c') :
    CallAfter calls answer sent k c' := by
  obtain ⟨c, hc, hf⟩ := h k c' hk
  exact .old hc hf

theorem of_setReply {j : Nat} {resp : τ} (hj : calls[j]? = some c) (hp : c.reply = .pending)
    (ha : answer j c resp) (hk : (calls.setReply j (.answered resp))[k]? = some c') :
    CallAfter calls answer sent k c' := by
  obtain ⟨d, hd, ⟨rfl, rfl⟩ | ⟨_, rfl⟩⟩ := Calls.getElem?_modify_cases hk
  · obtain rfl : c = d := by rw [hj, Option.some.injEq] at hd; exact hd
    exact .answered hj hp ha rfl
  · exact .old hd (.refl _)

theorem of_append (new : Calls ρ τ) (hnew : ∀ c ∈ new, sent c ∧ c.reply = .pending)
    (hk : (calls ++ new)[k]? = some c') : CallAfter calls answer sent k c' := by
  rcases Nat.lt_or_ge k calls.length with hlt | hge
  · rw [List.getElem?_append_left hlt] at hk
    exact .old hk (.refl _)
  · rw [List.getElem?_append_right hge] at hk
    obtain ⟨hs, hp⟩ := hnew c' (List.mem_of_getElem? hk)
    exact .new hs hp

/-- The ends and the request of a call are as they were when it was sent. -/
theorem origin (h : CallAfter calls answer sent k c') :
    (∃ c ∈ calls, c'.src = c.src ∧ c'.dst = c.dst ∧ c'.req = c.req) ∨ sent c' := by
  cases h with
  | old hk hf => exact Or.inl ⟨_, List.mem_of_getElem? hk, hf.src, hf.dst, hf.req⟩
  | answered hk _ _ hc =>
    subst hc
    exact Or.inl ⟨_, List.mem_of_getElem? hk, rfl, rfl, rfl⟩
  | new hs _ => exact Or.inr hs

end CallAfter

end Calls

namespace Cluster

variable {E : Engine σ} {M : Membership} {s s' : Cluster σ} {st : Step} {k : Nat}

/-- The step is the handling of the `k`-th RequestVote call. -/
def VoteAnswer (s : Cluster σ) (st : Step) (k : Nat)
    (c : VoteCall) (resp : RequestVoteResponse) : Prop :=
  ∃ disk, st = .act disk (.handleVote k) ∧ resp = ((s.node c.dst).handleRequestVote disk c.req).2

/-- The step is the start of an election that sends `c`. -/
def VoteSent (M : Membership) (s : Cluster σ) (st : Step)
    (c : VoteCall) : Prop :=
  ∃ disk i p, st = .act disk (.electionTimeout i) ∧ i ∈ M.ids ∧ p ∈ (s.node i).peers ∧
    c = ⟨i, p.id, ((s.node i).startElection disk).2, .pending, true⟩

/-- The step is the handling of the `k`-th AppendEntries call. -/
def AppendAnswer (s : Cluster σ) (st : Step) (k : Nat)
    (c : AppendCall) (resp : AppendEntriesResponse) : Prop :=
  ∃ disk, st = .act disk (.handleAppend k) ∧
    resp = ((s.node c.dst).handleAppendEntries disk c.req).2

/-- The step is the sending of `c` by a leader. -/
def AppendSent (M : Membership) (s : Cluster σ)
    (c : AppendCall) : Prop :=
  ∃ ls, c.src ∈ M.ids ∧ c.dst ∈ (s.node c.src).peers.map Peer.id ∧
    (s.node c.src).state = .leader ∧ (s.node c.src).leader = some ls ∧
    (s.node c.src).peerRequest ls c.dst = .appendEntries c.req

/-- The step is the handling of the `k`-th InstallSnapshot call. -/
def SnapshotAnswer (E : Engine σ) (s : Cluster σ) (st : Step) (k : Nat)
    (c : SnapshotCall) (resp : InstallSnapshotResponse) : Prop :=
  ∃ disk, st = .act disk (.handleSnapshot k) ∧
    resp = ((s.node c.dst).handleInstallSnapshot E disk c.req).2

/-- The step is the sending of `c` by a leader. -/
def SnapshotSent (s : Cluster σ) (st : Step) (c : SnapshotCall) : Prop :=
  ∃ disk ls, st = .act disk (.replicate c.src c.dst) ∧
    c.dst ∈ (s.node c.src).peers.map Peer.id ∧ (s.node c.src).state = .leader ∧
    (s.node c.src).leader = some ls ∧
    (s.node c.src).peerRequest ls c.dst = .installSnapshot c.req

section Fields

variable (disk : Disk) (i : NodeID)

@[simp] theorem endElection_voteCalls (el : RaftNode.Election) :
    (s.endElection disk i el).voteCalls = s.voteCalls := by
  unfold endElection; split <;> rfl

@[simp] theorem endElection_appendCalls (el : RaftNode.Election) :
    (s.endElection disk i el).appendCalls = s.appendCalls := by
  unfold endElection; split <;> rfl

@[simp] theorem endElection_snapshotCalls (el : RaftNode.Election) :
    (s.endElection disk i el).snapshotCalls = s.snapshotCalls := by
  unfold endElection; split <;> rfl

@[simp] theorem endElection_trace (el : RaftNode.Election) :
    (s.endElection disk i el).trace = s.trace := by
  unfold endElection; split <;> rfl

@[simp] theorem sendTo_voteCalls (peer : NodeID) (ls : LeaderState) :
    (s.sendTo i peer ls).voteCalls = s.voteCalls := by
  unfold sendTo; split <;> rfl

@[simp] theorem sendTo_election (peer : NodeID) (ls : LeaderState) :
    (s.sendTo i peer ls).election = s.election := by
  unfold sendTo; split <;> rfl

@[simp] theorem sendTo_trace (peer : NodeID) (ls : LeaderState) :
    (s.sendTo i peer ls).trace = s.trace := by
  unfold sendTo; split <;> rfl

@[simp] theorem runGoroutine_voteCalls (k : Nat) (g : Goroutine) :
    (s.runGoroutine E disk i k g).voteCalls = s.voteCalls := by
  unfold runGoroutine; cases g <;> simp only <;> (try split) <;> rfl

@[simp] theorem runGoroutine_election (k : Nat) (g : Goroutine) :
    (s.runGoroutine E disk i k g).election = s.election := by
  unfold runGoroutine; cases g <;> simp only <;> (try split) <;> rfl

@[simp] theorem runGoroutine_appendCalls (k : Nat) (g : Goroutine) :
    (s.runGoroutine E disk i k g).appendCalls = s.appendCalls := by
  unfold runGoroutine; cases g <;> simp only <;> (try split) <;> rfl

@[simp] theorem runGoroutine_snapshotCalls (k : Nat) (g : Goroutine) :
    (s.runGoroutine E disk i k g).snapshotCalls = s.snapshotCalls := by
  unfold runGoroutine; cases g <;> simp only <;> (try split) <;> rfl

end Fields

/-- A request the process dies over is lost, and its own calls are orphaned. -/
theorem fades_lose (a : Action) : s.voteCalls.Fades (s.lose a).voteCalls ∧
    s.appendCalls.Fades (s.lose a).appendCalls ∧
    s.snapshotCalls.Fades (s.lose a).snapshotCalls := by
  cases a with
  | handleVote k => exact ⟨Calls.fades_lost _ k, .refl _, .refl _⟩
  | handleAppend k => exact ⟨.refl _, Calls.fades_lost _ k, .refl _⟩
  | handleSnapshot k => exact ⟨.refl _, .refl _, Calls.fades_lost _ k⟩
  | _ => exact ⟨.refl _, .refl _, .refl _⟩

/-- **Where a RequestVote call comes from.** -/
theorem step_voteCall (h : s.step E M st = some s')
    {c' : VoteCall} (hk : s'.voteCalls[k]? = some c') :
    CallAfter s.voteCalls (VoteAnswer s st) (VoteSent M s st) k c' := by
  cases step_cases h with
  | crash => exact .of_fades (Calls.fades_orphan _ _) hk
  | crashDuring _ _ _ =>
    exact .of_fades ((fades_lose _).1.trans (Calls.fades_orphan _ _)) hk
  | applyRead _ => exact .of_fades (.refl _) hk
  | @act disk a _ hx =>
    cases hx with
    | @timeout i hi _ _ =>
      rw [timeout, Calls.foldl_send] at hk
      refine .of_append _ (fun c hc => ?_) hk
      obtain ⟨p, hp, rfl⟩ := List.mem_map.mp hc
      exact ⟨⟨disk, i, p, rfl, hi, hp, rfl⟩, rfl⟩
    | vote hj hp => exact .of_setReply hj hp ⟨disk, rfl, rfl⟩ hk
    | voted _ _ _ _ => exact .of_fades (Calls.fades_settle _ _) hk
    | voteFailed _ _ => exact .of_fades (Calls.fades_settle _ _) hk
    | sendPanic _ _ => exact .of_fades (Calls.fades_orphan _ _) hk
    | appendPanic _ => exact .of_fades (Calls.fades_orphan _ _) hk
    | installPanic _ => exact .of_fades (Calls.fades_orphan _ _) hk
    | finished _ _ => rw [endElection_voteCalls] at hk; exact .of_fades (.refl _) hk
    | sent _ _ _ _ => rw [sendTo_voteCalls] at hk; exact .of_fades (.refl _) hk
    | resumed _ => rw [runGoroutine_voteCalls] at hk; exact .of_fades (.refl _) hk
    | _ => exact .of_fades (.refl _) hk

/-- **Where an AppendEntries call comes from.** -/
theorem step_appendCall (h : s.step E M st = some s')
    {c' : AppendCall} (hk : s'.appendCalls[k]? = some c') :
    CallAfter s.appendCalls (AppendAnswer s st) (AppendSent M s) k c' := by
  cases step_cases h with
  | crash => exact .of_fades (Calls.fades_orphan _ _) hk
  | crashDuring _ _ _ =>
    exact .of_fades ((fades_lose _).2.1.trans (Calls.fades_orphan _ _)) hk
  | applyRead _ => exact .of_fades (.refl _) hk
  | @act disk a _ hx =>
    cases hx with
    | append hj hp => exact .of_setReply hj hp ⟨disk, rfl, rfl⟩ hk
    | appended _ _ _ _ => exact .of_fades (Calls.fades_settle _ _) hk
    | appendFailed _ => exact .of_fades (Calls.fades_settle _ _) hk
    | sendPanic _ _ => exact .of_fades (Calls.fades_orphan _ _) hk
    | appendPanic _ =>
      exact .of_fades ((Calls.fades_orphan _ _).trans (Calls.fades_settle _ _)) hk
    | installPanic _ => exact .of_fades (Calls.fades_orphan _ _) hk
    | finished _ _ => rw [endElection_appendCalls] at hk; exact .of_fades (.refl _) hk
    | @sent i peer ls hi hpeer hrole hls =>
      unfold sendTo at hk
      split at hk
      · rename_i req hreq
        refine .of_append [⟨i, peer, req, .pending, true⟩] (fun c hc => ?_) hk
        rw [List.mem_singleton.mp hc]
        exact ⟨⟨ls, hi, hpeer, hrole, hls, hreq⟩, rfl⟩
      · exact .of_fades (.refl _) hk
    | resumed _ => rw [runGoroutine_appendCalls] at hk; exact .of_fades (.refl _) hk
    | _ => exact .of_fades (.refl _) hk

/-- **Where an InstallSnapshot call comes from.** -/
theorem step_snapshotCall (h : s.step E M st = some s')
    {c' : SnapshotCall}
    (hk : s'.snapshotCalls[k]? = some c') :
    CallAfter s.snapshotCalls (SnapshotAnswer E s st) (SnapshotSent s st) k c' := by
  cases step_cases h with
  | crash => exact .of_fades (Calls.fades_orphan _ _) hk
  | crashDuring _ _ _ =>
    exact .of_fades ((fades_lose _).2.2.trans (Calls.fades_orphan _ _)) hk
  | applyRead _ => exact .of_fades (.refl _) hk
  | @act disk a _ hx =>
    cases hx with
    | snapshot hj hp => exact .of_setReply hj hp ⟨disk, rfl, rfl⟩ hk
    | installed _ _ _ _ => exact .of_fades (Calls.fades_settle _ _) hk
    | snapshotFailed _ => exact .of_fades (Calls.fades_settle _ _) hk
    | sendPanic _ _ => exact .of_fades (Calls.fades_orphan _ _) hk
    | appendPanic _ => exact .of_fades (Calls.fades_orphan _ _) hk
    | installPanic _ =>
      exact .of_fades ((Calls.fades_orphan _ _).trans (Calls.fades_settle _ _)) hk
    | finished _ _ => rw [endElection_snapshotCalls] at hk; exact .of_fades (.refl _) hk
    | @sent i peer ls _ hpeer hrole hls =>
      unfold sendTo at hk
      split at hk
      · exact .of_fades (.refl _) hk
      · rename_i req hreq
        refine .of_append [⟨i, peer, req, .pending, true⟩] (fun c hc => ?_) hk
        rw [List.mem_singleton.mp hc]
        exact ⟨⟨disk, ls, rfl, hpeer, hrole, hls, hreq⟩, rfl⟩
    | resumed _ => rw [runGoroutine_snapshotCalls] at hk; exact .of_fades (.refl _) hk
    | _ => exact .of_fades (.refl _) hk

end Cluster

end Raftrix
