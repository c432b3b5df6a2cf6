import Mathlib.Data.List.AList
import Raftrix.Model.Log
import Raftrix.Model.Storage

/-!
# One Raft node (`internal/consensus/raft.go`, `state.go`)

`RaftNode` is the Go struct without its timers, channels and transport, and every function is what
the source does between taking the node's lock and releasing it. A function that the source
splits over several critical sections is split the same way: `startElection` up to the sending of
the requests, `voteResponse` for each answer, `becomeLeader` at the end; `replicateToPeer` up to the
sending and `appendResponse` / `snapshotResponse` for the answer; `takeSnapshot` around its unlocked
read of the store.

* A `go` statement appends to `goroutines`; the goroutine runs as a later step.
* A `Propose` call that waits is a `Proposal`; its channel is the position in `proposals`, and
  `pending` maps an index to that position.
* The bolt transactions of one call succeed or fail as the argument `disk` says, numbered in the
  order the call makes them.
* A nil dereference of `n.leader` is the result `none`.
-/

namespace Raftrix

/-- The outcomes of the bolt transactions of one call, in the order it makes them. -/
abbrev Disk := Nat → Bool

/-- A Go map from node ids to log indices. -/
abbrev IndexMap := AList (fun _ : NodeID => Nat)

/-- `m[id]`: the zero value for a missing key. -/
def IndexMap.at (m : IndexMap) (id : NodeID) : Nat := (m.lookup id).getD 0

/-- `leaderState`. -/
structure LeaderState where
  nextIndex : IndexMap
  matchIndex : IndexMap

namespace LeaderState

/-- `newLeaderState`. -/
def newLeaderState (peers : List Peer) (lastIndex : Nat) : LeaderState where
  nextIndex := peers.foldl (fun m p => m.insert p.id (lastIndex + 1)) ∅
  matchIndex := peers.foldl (fun m p => m.insert p.id 0) ∅

/-- `majority` in `commitCandidate`. -/
def majority (ls : LeaderState) : Nat := (ls.matchIndex.entries.length + 1) / 2 + 1

/-- `count` in `commitCandidate`: the leader and the peers known to hold `n`. -/
def count (ls : LeaderState) (n : Nat) : Nat :=
  1 + ls.matchIndex.entries.countP fun p => decide (n ≤ p.2)

/-- The loop of `commitCandidate`, downwards from `n`. -/
def commitCandidateFrom (ls : LeaderState) (currentCommit : Nat) (currentTerm : Nat)
    (termAt : Nat → Nat) : Nat → Nat
  | 0 => 0
  | n + 1 =>
    if n + 1 ≤ currentCommit then 0
    else if termAt (n + 1) ≠ currentTerm then
      commitCandidateFrom ls currentCommit currentTerm termAt n
    else if ls.majority ≤ ls.count (n + 1) then n + 1
    else commitCandidateFrom ls currentCommit currentTerm termAt n

/-- `commitCandidate`. -/
def commitCandidate (ls : LeaderState) (currentCommit lastIndex : Nat) (currentTerm : Nat)
    (termAt : Nat → Nat) : Nat :=
  ls.commitCandidateFrom currentCommit currentTerm termAt lastIndex

/-- The update of `replicateToPeer` for an acknowledgement: `matchIndex` never goes down, and
`nextIndex` follows it. -/
def acknowledge (ls : LeaderState) (peer : NodeID) (index : Nat) : LeaderState :=
  let m : IndexMap :=
    if index > ls.matchIndex.at peer then ls.matchIndex.insert peer index else ls.matchIndex
  { nextIndex := ls.nextIndex.insert peer (m.at peer + 1), matchIndex := m }

/-- The update of `replicateToPeer` for a rejection: `nextIndex` follows the hint, or goes one
back. -/
def backUp (ls : LeaderState) (peer : NodeID) (conflictIndex : Nat) : LeaderState :=
  if conflictIndex > 0 then { ls with nextIndex := ls.nextIndex.insert peer conflictIndex }
  else if ls.nextIndex.at peer > 1 then
    { ls with nextIndex := ls.nextIndex.insert peer (ls.nextIndex.at peer - 1) }
  else ls

end LeaderState

/-- A `Propose` call: the entry it appended and what its channel `doneCh` holds. -/
structure Proposal where
  index : Nat
  term : Nat
  command : Command
  /-- The error sent on `doneCh`, once one has been. -/
  done : Option (Option ApplyError) := none
  /-- The call has not returned yet. -/
  waiting : Bool := true
  deriving Repr, DecidableEq

/-- A goroutine started by a `go` statement, with the local state it resumes in. -/
inductive Goroutine where
  | applyCommitted
  | takeSnapshot (index : Nat) (term : Nat)
  /-- `takeSnapshot` with the store's bytes read and the lock still to be taken. -/
  | compactLog (index : Nat) (term : Nat) (data : Bytes)
  deriving Repr, DecidableEq

/-- `RaftNode`, over the contents `σ` of its storage engine. -/
structure RaftNode (σ : Type) where
  id : NodeID
  peers : List Peer
  raftLog : RaftLog
  currentTerm : Nat
  votedFor : NodeID
  state : NodeState
  commitIndex : Nat
  lastApplied : Nat
  leaderID : NodeID
  leader : Option LeaderState
  storage : σ
  pending : AList (fun _ : Nat => Nat)
  snapshotData : Bytes
  /-- `cfg.Raft.SnapshotThreshold`. -/
  snapshotThreshold : Int
  /-- The `Propose` calls of this process. -/
  proposals : List Proposal
  /-- The goroutines of this process that have not finished. -/
  goroutines : List Goroutine

/-- What `applyCommitted` did with one entry. -/
structure Applied (σ : Type) where
  /-- The index it was read at. -/
  index : Nat
  entry : LogEntry
  /-- The store before the command. -/
  store : σ
  result : Option ApplyError
  /-- The `Propose` call whose channel got the result. -/
  waiter : Option Nat

/-- What `appendEntries` leaves: the log, whether every write succeeded, and each call of `Append`
with the log it was made on. -/
structure Spliced where
  log : RaftLog
  ok : Bool
  appends : List (RaftLog × LogEntry)

namespace RaftLog

/-- Rules 3 and 4 of `HandleAppendEntries`: the loop over the entries, from the `i`-th on. The term
at the entry's index is read before the truncation and decides about the append after it. -/
def appendEntries (disk : Disk) (prevLogIndex : Nat) :
    Nat → RaftLog → List LogEntry → Spliced
  | _, rl, [] => ⟨rl, true, []⟩
  | i, rl, entry :: rest =>
    let idx := prevLogIndex + i + 1
    let existingTerm := rl.termAt idx
    let truncated :=
      if existingTerm ≠ 0 ∧ existingTerm ≠ entry.term then rl.truncateFrom (disk (i + 1)) idx
      else some rl
    match truncated with
    | none => ⟨rl, false, []⟩
    | some rl₁ =>
      if existingTerm = 0 then
        match rl₁.append (disk (i + 1)) entry with
        | none => ⟨rl₁, false, [(rl₁, entry)]⟩
        | some rl₂ =>
          let r := appendEntries disk prevLogIndex (i + 1) rl₂ rest
          ⟨r.log, r.ok, (rl₁, entry) :: r.appends⟩
      else appendEntries disk prevLogIndex (i + 1) rl₁ rest

/-- The scan for the first index of the conflicting term, downwards from `k`. -/
def conflictStart (rl : RaftLog) (prevTerm : Nat) : Nat → Nat
  | 0 => 0
  | k + 1 =>
    if k + 1 > rl.snapshotIndex + 1 ∧ rl.termAt k = prevTerm then conflictStart rl prevTerm k
    else k + 1

/-- Rule 2 of `HandleAppendEntries`: the conflict index and term of a rejection. -/
def checkPrev (rl : RaftLog) (req : AppendEntriesRequest) : Option (Nat × Nat) :=
  if req.prevLogIndex > 0 then
    if req.prevLogIndex > rl.lastIndex then some (rl.lastIndex + 1, 0)
    else
      let prevTerm := rl.termAt req.prevLogIndex
      if prevTerm ≠ req.prevLogTerm then
        some (rl.conflictStart prevTerm req.prevLogIndex, prevTerm)
      else none
  else none

end RaftLog

namespace RaftNode

variable {σ : Type}

/-- `NewRaftNode` on the file and the store a process left behind. -/
def newRaftNode (E : Engine σ) (n : RaftNode σ) : RaftNode σ where
  id := n.id
  peers := n.peers
  raftLog := n.raftLog.newRaftLog
  currentTerm := n.raftLog.loadMeta.1
  votedFor := n.raftLog.loadMeta.2
  state := .follower
  commitIndex := 0
  lastApplied := 0
  leaderID := []
  leader := none
  storage := E.reopen n.storage
  pending := ∅
  snapshotData := []
  snapshotThreshold := n.snapshotThreshold
  proposals := []
  goroutines := []

/-- `becomeFollower`. -/
def becomeFollower (ok : Bool) (n : RaftNode σ) (term : Nat) : RaftNode σ :=
  { n with
    state := .follower
    currentTerm := term
    votedFor := []
    leader := none
    raftLog := n.raftLog.saveMeta ok term [] }

@[simp] theorem state_newRaftNode (E : Engine σ) (n : RaftNode σ) :
    (n.newRaftNode E).state = .follower := rfl

@[simp] theorem leader_newRaftNode (E : Engine σ) (n : RaftNode σ) :
    (n.newRaftNode E).leader = none := rfl

@[simp] theorem state_becomeFollower (ok : Bool) (n : RaftNode σ) (term : Nat) :
    (n.becomeFollower ok term).state = .follower := rfl

@[simp] theorem leader_becomeFollower (ok : Bool) (n : RaftNode σ) (term : Nat) :
    (n.becomeFollower ok term).leader = none := rfl

/-! ## RPC handlers -/

/-- Rule 5 of `HandleAppendEntries`. -/
def advanceCommit (n : RaftNode σ) (req : AppendEntriesRequest) : RaftNode σ :=
  if req.leaderCommit > n.commitIndex then
    let lastNew := req.prevLogIndex + req.entries.length
    let newCommit := if lastNew < req.leaderCommit then lastNew else req.leaderCommit
    if newCommit > n.commitIndex then
      { n with commitIndex := newCommit, goroutines := n.goroutines ++ [.applyCommitted] }
    else n
  else n

/-- `HandleAppendEntries` after the term rules. -/
def acceptEntries (disk : Disk) (n : RaftNode σ) (req : AppendEntriesRequest) :
    RaftNode σ × AppendEntriesResponse :=
  let resp : AppendEntriesResponse := { followerID := n.id, term := n.currentTerm }
  match n.raftLog.checkPrev req with
  | some (index, term) => (n, { resp with conflictIndex := index, conflictTerm := term })
  | none =>
    let spliced := n.raftLog.appendEntries disk req.prevLogIndex 0 req.entries
    let n := { n with raftLog := spliced.log }
    if spliced.ok then
      (n.advanceCommit req, { resp with success := true, matchIndex := n.raftLog.lastIndex })
    else (n, resp)

/-- The term rules of `HandleAppendEntries` for a term that is not stale: step down to a newer one,
note the leader. -/
def acceptLeader (disk : Disk) (n : RaftNode σ) (req : AppendEntriesRequest) : RaftNode σ :=
  let n := if req.term > n.currentTerm then n.becomeFollower (disk 0) req.term else n
  { n with leaderID := req.leaderID }

/-- `HandleAppendEntries`. -/
def handleAppendEntries (disk : Disk) (n : RaftNode σ) (req : AppendEntriesRequest) :
    RaftNode σ × AppendEntriesResponse :=
  if req.term < n.currentTerm then (n, { followerID := n.id, term := n.currentTerm })
  else (n.acceptLeader disk req).acceptEntries disk req

/-- `candidateUpToDate` in `HandleRequestVote`. -/
def candidateUpToDate (rl : RaftLog) (req : RequestVoteRequest) : Prop :=
  req.lastLogTerm > rl.lastTerm ∨
    (req.lastLogTerm = rl.lastTerm ∧ req.lastLogIndex ≥ rl.lastIndex)

instance (rl : RaftLog) (req : RequestVoteRequest) : Decidable (candidateUpToDate rl req) := by
  unfold candidateUpToDate; infer_instance

/-- `HandleRequestVote`. -/
def handleRequestVote (disk : Disk) (n : RaftNode σ) (req : RequestVoteRequest) :
    RaftNode σ × RequestVoteResponse :=
  if req.term < n.currentTerm then (n, { voterID := n.id, term := n.currentTerm })
  else
    let n := if req.term > n.currentTerm then n.becomeFollower (disk 0) req.term else n
    let resp : RequestVoteResponse := { voterID := n.id, term := n.currentTerm }
    if n.votedFor ≠ [] ∧ n.votedFor ≠ req.candidateID then (n, resp)
    else if ¬ candidateUpToDate n.raftLog req then (n, resp)
    else
      ({ n with
          votedFor := req.candidateID
          raftLog := n.raftLog.saveMeta (disk 1) n.currentTerm req.candidateID },
        { resp with voteGranted := true })

/-- `HandleInstallSnapshot`. The response keeps the term from before stepping down. -/
def handleInstallSnapshot (E : Engine σ) (disk : Disk) (n : RaftNode σ)
    (req : InstallSnapshotRequest) : RaftNode σ × InstallSnapshotResponse :=
  let resp : InstallSnapshotResponse := { followerID := n.id, term := n.currentTerm }
  if req.term < n.currentTerm then (n, resp)
  else
    let n := if req.term > n.currentTerm then n.becomeFollower (disk 0) req.term else n
    let n := { n with leaderID := req.leaderID }
    match commitWrite (disk 1) n.storage (E.restoreSnapshot n.storage req.data) with
    | (_, some _) => (n, resp)
    | (store, none) =>
      let n := { n with storage := store }
      match n.raftLog.compact (disk 2) req.lastIncludedIndex req.lastIncludedTerm with
      | none => (n, resp)
      | some rl =>
        ({ n with
            raftLog := rl
            commitIndex := req.lastIncludedIndex
            lastApplied := req.lastIncludedIndex
            snapshotData := req.data },
          { resp with success := true })

/-! ## Elections -/

/-- The last value of a `uint64`. -/
def maxTerm : Nat := 18446744073709551615

/-- `currentTerm++`. -/
def nextTerm (term : Nat) : Nat := if term = maxTerm then 0 else term + 1

/-- `startElection` up to the sending of the requests, with the value that `currentTerm++` gives. -/
@[simp] def startElectionIn (term : Nat) (disk : Disk) (n : RaftNode σ) :
    RaftNode σ × RequestVoteRequest :=
  ({ n with
      state := .candidate
      currentTerm := term
      votedFor := n.id
      raftLog := n.raftLog.saveMeta (disk 0) term n.id },
    { term := term
      candidateID := n.id
      lastLogIndex := n.raftLog.lastIndex
      lastLogTerm := n.raftLog.lastTerm })

/-- `startElection` up to the sending of the requests, in a term below the last one. -/
def startElection (disk : Disk) (n : RaftNode σ) : RaftNode σ × RequestVoteRequest :=
  n.startElectionIn (n.currentTerm + 1) disk

/-- The local variables of a running `startElection`: the term of its requests, `votes`, and
whether `wonCh` holds a value. -/
structure Election where
  term : Nat
  votes : Nat
  won : Bool
  deriving Repr, DecidableEq

/-- `quorum` in `startElection`. -/
def quorum (n : RaftNode σ) : Nat := n.peers.length / 2 + 1

/-- The goroutine of `startElection` that asked one peer, with its answer. -/
def voteResponse (disk : Disk) (n : RaftNode σ) (el : Election) (resp : RequestVoteResponse) :
    RaftNode σ × Election :=
  if resp.term > n.currentTerm then (n.becomeFollower (disk 0) resp.term, el)
  else if resp.voteGranted then
    (n, { el with votes := el.votes + 1, won := el.won || decide (n.quorum ≤ el.votes + 1) })
  else (n, el)

/-- The no-op of `becomeLeader`. -/
def noopEntry (n : RaftNode σ) : LogEntry := ⟨n.raftLog.lastIndex + 1, n.currentTerm, .noop⟩

/-- `becomeLeader`. The error of the append is dropped. -/
def becomeLeader (disk : Disk) (n : RaftNode σ) : RaftNode σ :=
  if n.state ≠ .candidate then n
  else
    { n with
      state := .leader
      leaderID := n.id
      leader := some (.newLeaderState n.peers n.raftLog.lastIndex)
      raftLog := (n.raftLog.append (disk 0) n.noopEntry).getD n.raftLog }

/-! ## Client writes -/

/-- How the first part of `Propose` ends. -/
inductive ProposeOutcome where
  /-- `NotLeaderError`. -/
  | notLeader (leaderID : NodeID)
  | appendFailed
  /-- The call waits on the channel at this position. -/
  | waiting (id : Nat)
  deriving Repr, DecidableEq

/-- The entry `Propose` appends. -/
def proposalEntry (n : RaftNode σ) (cmd : Command) : LogEntry :=
  ⟨n.raftLog.lastIndex + 1, n.currentTerm, cmd⟩

/-- `Propose` until it waits. -/
def propose (disk : Disk) (n : RaftNode σ) (cmd : Command) : RaftNode σ × ProposeOutcome :=
  if n.state ≠ .leader then (n, .notLeader n.leaderID)
  else
    let entry := n.proposalEntry cmd
    match n.raftLog.append (disk 0) entry with
    | none => (n, .appendFailed)
    | some rl =>
      ({ n with
          raftLog := rl
          pending := n.pending.insert entry.index n.proposals.length
          proposals := n.proposals ++ [{ index := entry.index, term := entry.term, command := cmd }] },
        .waiting n.proposals.length)

/-- The `Propose` call at position `id` returns. -/
def release (n : RaftNode σ) (id : Nat) : RaftNode σ :=
  { n with proposals := n.proposals.modify id fun p => { p with waiting := false } }

/-- The `Propose` call at position `id` returns because its context has ended: it first drops
whatever channel is registered for its index. -/
def cancel (n : RaftNode σ) (id index : Nat) : RaftNode σ :=
  { n with pending := n.pending.erase index }.release id

/-! ## Replication -/

/-- What `replicateToPeer` sends. -/
inductive PeerRequest where
  | appendEntries (req : AppendEntriesRequest)
  | installSnapshot (req : InstallSnapshotRequest)

/-- The request `replicateToPeer` builds from the leader state. -/
def peerRequest (n : RaftNode σ) (ls : LeaderState) (peer : NodeID) : PeerRequest :=
  let nextIdx := ls.nextIndex.at peer
  let snapshotIdx := n.raftLog.snapshotIndex
  if nextIdx ≤ snapshotIdx then
    .installSnapshot
      { term := n.currentTerm
        leaderID := n.id
        lastIncludedIndex := snapshotIdx
        lastIncludedTerm := n.raftLog.snapshotTerm
        data := n.snapshotData }
  else
    .appendEntries
      { term := n.currentTerm
        leaderID := n.id
        prevLogIndex := nextIdx - 1
        prevLogTerm := n.raftLog.termAt (nextIdx - 1)
        entries :=
          if n.raftLog.lastIndex ≥ nextIdx then n.raftLog.getRange nextIdx n.raftLog.lastIndex
          else []
        leaderCommit := n.commitIndex }

/-- The commit step of `replicateToPeer` after an acknowledgement. -/
def commitAcked (n : RaftNode σ) (ls : LeaderState) : RaftNode σ :=
  let newCommit :=
    ls.commitCandidate n.commitIndex n.raftLog.lastIndex n.currentTerm n.raftLog.termAt
  if newCommit > 0 then
    { n with commitIndex := newCommit, goroutines := n.goroutines ++ [.applyCommitted] }
  else n

/-- `replicateToPeer` with the answer to an AppendEntries request. -/
def appendResponse (disk : Disk) (n : RaftNode σ) (peer : NodeID) (resp : AppendEntriesResponse) :
    Option (RaftNode σ) :=
  if n.state ≠ .leader then some n
  else if resp.term > n.currentTerm then some (n.becomeFollower (disk 0) resp.term)
  else
    match n.leader with
    | none => none
    | some ls =>
      if resp.success then
        let ls := ls.acknowledge peer resp.matchIndex
        some ({ n with leader := some ls }.commitAcked ls)
      else some { n with leader := some (ls.backUp peer resp.conflictIndex) }

/-- `replicateToPeer` with the answer to an InstallSnapshot request for `snapshotIdx`. The role is
not checked again. -/
def snapshotResponse (disk : Disk) (n : RaftNode σ) (peer : NodeID) (snapshotIdx : Nat)
    (resp : InstallSnapshotResponse) : Option (RaftNode σ) :=
  if resp.term > n.currentTerm then some (n.becomeFollower (disk 0) resp.term)
  else if resp.success then
    match n.leader with
    | none => none
    | some ls =>
      some { n with
        leader := some
          { nextIndex := ls.nextIndex.insert peer (snapshotIdx + 1)
            matchIndex := ls.matchIndex.insert peer snapshotIdx } }
  else some n

/-! ## The state machine -/

/-- One round of the loop of `applyCommitted`, for the entry read at `lastApplied`. -/
def applyEntry (E : Engine σ) (ok : Bool) (n : RaftNode σ) (entry : LogEntry) :
    RaftNode σ × Applied σ :=
  let (store, result) := applyCommand E ok n.storage entry.command
  let waiter := n.pending.lookup n.lastApplied
  let applied : Applied σ := ⟨n.lastApplied, entry, n.storage, result, waiter⟩
  let n := { n with storage := store }
  let n :=
    match waiter with
    | none => n
    | some id =>
      { n with
        proposals := n.proposals.modify id fun p => { p with done := some result }
        pending := n.pending.erase n.lastApplied }
  let n :=
    if (n.lastApplied : Int) - n.raftLog.snapshotIndex ≥ n.snapshotThreshold then
      { n with goroutines := n.goroutines ++ [.takeSnapshot n.lastApplied entry.term] }
    else n
  (n, applied)

/-- The loop of `applyCommitted`, for `fuel` more indices. A missing entry ends it with
`lastApplied` already moved past the gap. -/
def applyFrom (E : Engine σ) (disk : Disk) : Nat → Nat → RaftNode σ → RaftNode σ × List (Applied σ)
  | _, 0, n => (n, [])
  | k, fuel + 1, n =>
    let n := { n with lastApplied := n.lastApplied + 1 }
    match n.raftLog.get n.lastApplied with
    | none => (n, [])
    | some entry =>
      let (n, applied) := n.applyEntry E (disk k) entry
      let (n, rest) := applyFrom E disk (k + 1) fuel n
      (n, applied :: rest)

/-- `applyCommitted`. -/
def applyCommitted (E : Engine σ) (disk : Disk) (n : RaftNode σ) : RaftNode σ × List (Applied σ) :=
  n.applyFrom E disk 0 (n.commitIndex - n.lastApplied)

/-- The locked part of `takeSnapshot`. -/
def compactLog (disk : Disk) (n : RaftNode σ) (index : Nat) (term : Nat) (data : Bytes) :
    RaftNode σ :=
  match n.raftLog.compact (disk 0) index term with
  | none => n
  | some rl => { n with raftLog := rl, snapshotData := data }

end RaftNode

end Raftrix
