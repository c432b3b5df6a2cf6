import Raftrix.Model.Node

/-!
# A cluster of nodes

The processes of a cluster and the RPCs between them, as a step function on one state.

An RPC is a goroutine of its caller blocked in the transport (`Call`): the request travels, the
callee handles it, the answer travels back. Requests and answers may be delayed, overtake each
other and get lost in every way, but the transport duplicates nothing: a request is handled at most
once and a caller resumes at most once. A caller also resumes when the transport gives up
(`voteFail`, `appendFail`, `snapshotFail`); its request may still arrive afterwards.

The steps are the critical sections of `Model/Node.lean` under every schedule:
* timers may fire at any moment, so an election may start in any state other than leader, and a
  leader may start `replicateToPeer` for any peer at any time. The goroutine of `run` is busy while
  `startElection` waits for its answers (`election`), so a node runs one election at a time;
* `startElection` ends when none of its calls is waiting any more (`wg.Wait`);
* a crash ends the process and `NewRaftNode` starts the next one. A crash may also cut a critical
  section after any number of its bolt transactions (`crashDuring`); nothing is sent then. `Propose`
  and `becomeLeader` make one transaction and send nothing, so dying inside one of them is dying
  before or after it;
* `takeSnapshot` reads the store without the node's lock, so it may read between two commands of a
  run of `applyCommitted` (`applyRead`). The other critical sections change the store once at most:
  a read during one of them is a read before or after it.

`trace` lists what the nodes have applied so far. No node reads it.
-/

namespace Raftrix

/-- The configuration of a cluster: its node ids, and each node's peer list, which names exactly the
others. -/
structure Roster where
  ids : List NodeID
  peers : NodeID → List Peer
  nodup : ids.Nodup
  nonempty : [] ∉ ids
  peers_perm : ∀ i ∈ ids, ((peers i).map Peer.id).Perm (ids.erase i)

/-- A cluster whose ids are valid UTF-8. Only such ids come back from the JSON text of a request or of the
record of `SaveMeta` as they were; the configuration checks no more than that they are not empty. -/
structure Membership extends Roster where
  utf8 : ∀ i ∈ ids, Lib.Utf8.coerceUtf8 i = i

instance : Coe Membership Roster := ⟨Membership.toRoster⟩

/-- What has become of a request. -/
inductive Reply (τ : Type) where
  /-- On its way. -/
  | pending
  /-- Handled; the answer is on its way back. -/
  | answered (resp : τ)
  /-- The callee died over it. -/
  | lost
  deriving DecidableEq

/-- One RPC. -/
structure Call (ρ τ : Type) where
  src : NodeID
  dst : NodeID
  req : ρ
  reply : Reply τ
  /-- The caller is still blocked in the transport. -/
  waiting : Bool

/-- A RequestVote call. -/
abbrev VoteCall := Call RequestVoteRequest RequestVoteResponse

/-- An AppendEntries call. -/
abbrev AppendCall := Call AppendEntriesRequest AppendEntriesResponse

/-- An InstallSnapshot call. -/
abbrev SnapshotCall := Call InstallSnapshotRequest InstallSnapshotResponse

/-- The RPCs of one kind, in the order they were started. -/
abbrev Calls (ρ τ : Type) := List (Call ρ τ)

namespace Calls

variable {ρ τ : Type}

/-- Start a call. -/
def send (calls : Calls ρ τ) (src dst : NodeID) (req : ρ) : Calls ρ τ :=
  calls ++ [⟨src, dst, req, .pending, true⟩]

/-- The callee of the `k`-th call has finished with it. -/
def setReply (calls : Calls ρ τ) (k : Nat) (reply : Reply τ) : Calls ρ τ :=
  calls.modify k fun c => { c with reply := reply }

/-- The caller of the `k`-th call has resumed. -/
def settle (calls : Calls ρ τ) (k : Nat) : Calls ρ τ :=
  calls.modify k fun c => { c with waiting := false }

/-- The process `i` has died, and its goroutines with it. -/
def orphan (calls : Calls ρ τ) (i : NodeID) : Calls ρ τ :=
  calls.map fun c => if c.src = i then { c with waiting := false } else c

end Calls

/-- The state of a cluster. -/
structure Cluster (σ : Type) where
  node : NodeID → RaftNode σ
  /-- The `startElection` the node's `run` goroutine is in. -/
  election : NodeID → Option RaftNode.Election
  voteCalls : Calls RequestVoteRequest RequestVoteResponse
  appendCalls : Calls AppendEntriesRequest AppendEntriesResponse
  snapshotCalls : Calls InstallSnapshotRequest InstallSnapshotResponse
  /-- What `applyCommitted` has done so far, over all nodes. -/
  trace : List (NodeID × Applied σ)

/-- A critical section, or the end of an RPC. A number names a call or a goroutine by its position
in its list. -/
inductive Action where
  | electionTimeout (i : NodeID)
  | handleVote (k : Nat)
  | voteReturn (k : Nat)
  | voteFail (k : Nat)
  | finishElection (i : NodeID)
  | propose (i : NodeID) (cmd : Command)
  /-- `Propose` receives from its channel. -/
  | receive (i : NodeID) (id : Nat)
  /-- The context of a `Propose` ends first. -/
  | cancel (i : NodeID) (id : Nat)
  | replicate (i peer : NodeID)
  | handleAppend (k : Nat)
  | appendReturn (k : Nat)
  | appendFail (k : Nat)
  | handleSnapshot (k : Nat)
  | snapshotReturn (k : Nat)
  | snapshotFail (k : Nat)
  /-- A goroutine started by a `go` statement runs. -/
  | resume (i : NodeID) (k : Nat)
  deriving DecidableEq

/-- The critical sections that make one transaction and send nothing. -/
def Action.isAtomic : Action → Bool
  | .propose _ _ | .finishElection _ => true
  | _ => false

/-- A step of the cluster. -/
inductive Step where
  | act (disk : Disk) (a : Action)
  | crash (i : NodeID)
  /-- The process dies inside the critical section, `cut` of its transactions being committed. -/
  | crashDuring (a : Action) (cut : Nat)
  /-- `applyCommitted`, the `k`-th goroutine of node `i`, runs, and meanwhile goroutines of the node
  that are in `takeSnapshot` read the store: the `j`-th of those there are then after `reads j`
  rounds. -/
  | applyRead (disk : Disk) (i : NodeID) (k : Nat) (reads : Nat → Option Nat)

namespace Cluster

variable {σ : Type}

/-- Replace the struct of node `i`. -/
def setNode (s : Cluster σ) (i : NodeID) (n : RaftNode σ) : Cluster σ :=
  { s with node := fun j => if j = i then n else s.node j }

/-- Replace the running election of node `i`. -/
def setElection (s : Cluster σ) (i : NodeID) (el : Option RaftNode.Election) : Cluster σ :=
  { s with election := fun j => if j = i then el else s.election j }

/-- The process `i` dies, its file and store being as in `n`, and the next one starts. -/
def restart (E : Engine σ) (s : Cluster σ) (i : NodeID) (n : RaftNode σ) : Cluster σ :=
  { (s.setNode i (n.newRaftNode E)).setElection i none with
    voteCalls := s.voteCalls.orphan i
    appendCalls := s.appendCalls.orphan i
    snapshotCalls := s.snapshotCalls.orphan i }

/-- A cluster that has never run: empty files, the given stores and snapshot thresholds. -/
def init (R : Roster) (store : NodeID → σ) (threshold : NodeID → Int) : Cluster σ where
  node i :=
    { id := i
      peers := R.peers i
      raftLog := .fresh
      currentTerm := 0
      votedFor := []
      state := .follower
      commitIndex := 0
      lastApplied := 0
      leaderID := []
      leader := none
      storage := store i
      pending := ∅
      snapshotData := []
      snapshotThreshold := threshold i
      proposals := []
      goroutines := [] }
  election _ := none
  voteCalls := []
  appendCalls := []
  snapshotCalls := []
  trace := []

/-- `run` when the election timer fires: `startElection` up to its requests. -/
def timeout (disk : Disk) (s : Cluster σ) (i : NodeID) : Cluster σ :=
  let r := (s.node i).startElection disk
  { (s.setNode i r.1).setElection i (some ⟨r.2.term, 1, false⟩) with
    voteCalls := (s.node i).peers.foldl (fun calls p => calls.send i p.id r.2) s.voteCalls }

/-- The end of `startElection`: become leader if `wonCh` holds a value. -/
def endElection (disk : Disk) (s : Cluster σ) (i : NodeID) (el : RaftNode.Election) : Cluster σ :=
  (if el.won then s.setNode i ((s.node i).becomeLeader disk) else s).setElection i none

/-- `replicateToPeer` up to its request. -/
def sendTo (s : Cluster σ) (i peer : NodeID) (ls : LeaderState) : Cluster σ :=
  match (s.node i).peerRequest ls peer with
  | .appendEntries req => { s with appendCalls := s.appendCalls.send i peer req }
  | .installSnapshot req => { s with snapshotCalls := s.snapshotCalls.send i peer req }

/-- The node after a critical section that may dereference nil: a panic ends the process. -/
def setOrPanic (E : Engine σ) (s : Cluster σ) (i : NodeID) (r : Option (RaftNode σ)) : Cluster σ :=
  match r with
  | some n => s.setNode i n
  | none => s.restart E i (s.node i)

/-- The `k`-th goroutine of node `i` runs, from the local state `g`. -/
def runGoroutine (E : Engine σ) (disk : Disk) (s : Cluster σ) (i : NodeID) (k : Nat)
    (g : Goroutine) : Cluster σ :=
  let n := { s.node i with goroutines := (s.node i).goroutines.eraseIdx k }
  match g with
  | .applyCommitted =>
    let r := n.applyCommitted E disk
    { s.setNode i r.1 with trace := s.trace ++ r.2.map fun a => (i, a) }
  | .takeSnapshot index term =>
    match E.snapshot n.storage with
    | .error _ => s.setNode i n
    | .ok data => s.setNode i { n with goroutines := n.goroutines ++ [.compactLog index term data] }
  | .compactLog index term data => s.setNode i (n.compactLog disk index term data)

/-- What becomes of the `j`-th goroutine, `g`, of those that `r`, the run of `applyCommitted` from `n`,
leaves, if it reads the store after `reads j` rounds. It was started before the run, or by one of the
rounds before it reads. -/
def readMeanwhile (E : Engine σ) (n : RaftNode σ) (r : RaftNode σ × List (Applied σ))
    (reads : Nat → Option Nat) (g : Goroutine) (j : Nat) : Option Goroutine :=
  match g, reads j with
  | .takeSnapshot index term, some rounds =>
    if j < n.goroutines.length ∨ index ≤ n.lastApplied + rounds then
      match E.snapshot ((r.2[rounds]?.map Applied.store).getD r.1.storage) with
      | .error _ => none
      | .ok data => some (.compactLog index term data)
    else some g
  | _, _ => some g

/-- The goroutines of node `i` after the `k`-th, `applyCommitted`, has run with reads of its store. -/
def goroutinesAfter (E : Engine σ) (disk : Disk) (s : Cluster σ) (i : NodeID) (k : Nat)
    (reads : Nat → Option Nat) : List Goroutine :=
  let n := { s.node i with goroutines := (s.node i).goroutines.eraseIdx k }
  let r := n.applyCommitted E disk
  r.1.goroutines.zipIdx.filterMap fun p => readMeanwhile E n r reads p.1 p.2

/-- One critical section. `none` when it cannot run now. The callee gets the request as the caller made
it; `Model/Http.lean` has the texts that travel in between. -/
def exec (E : Engine σ) (R : Roster) (disk : Disk) (s : Cluster σ) :
    Action → Option (Cluster σ)
  | .electionTimeout i =>
    if i ∈ R.ids ∧ (s.node i).state ≠ .leader ∧ s.election i = none then some (s.timeout disk i)
    else none
  | .handleVote k =>
    match s.voteCalls[k]? with
    | some ⟨_, dst, req, .pending, _⟩ =>
      let r := (s.node dst).handleRequestVote disk req
      some { s.setNode dst r.1 with voteCalls := s.voteCalls.setReply k (.answered r.2) }
    | _ => none
  | .voteReturn k =>
    match s.voteCalls[k]? with
    | some ⟨src, _, _, .answered resp, true⟩ =>
      match s.election src with
      | some el =>
        let r := (s.node src).voteResponse disk el resp
        some { (s.setNode src r.1).setElection src (some r.2) with
          voteCalls := s.voteCalls.settle k }
      | none => none
    | _ => none
  | .voteFail k =>
    match s.voteCalls[k]? with
    | some ⟨_, _, _, _, true⟩ => some { s with voteCalls := s.voteCalls.settle k }
    | _ => none
  | .finishElection i =>
    match s.election i with
    | some el =>
      if s.voteCalls.any (fun c => decide (c.src = i) && c.waiting) then none
      else some (s.endElection disk i el)
    | none => none
  | .propose i cmd =>
    if i ∈ R.ids then some (s.setNode i ((s.node i).propose disk cmd).1) else none
  | .receive i id =>
    match (s.node i).proposals[id]? with
    | some p =>
      if p.waiting ∧ p.done ≠ none then some (s.setNode i ((s.node i).release id)) else none
    | none => none
  | .cancel i id =>
    match (s.node i).proposals[id]? with
    | some p =>
      if p.waiting then some (s.setNode i ((s.node i).cancel id p.index)) else none
    | none => none
  | .replicate i peer =>
    if i ∈ R.ids ∧ peer ∈ (s.node i).peers.map Peer.id ∧ (s.node i).state = .leader then
      match (s.node i).leader with
      | some ls => some (s.sendTo i peer ls)
      | none => some (s.restart E i (s.node i))
    else none
  | .handleAppend k =>
    match s.appendCalls[k]? with
    | some ⟨_, dst, req, .pending, _⟩ =>
      let r := (s.node dst).handleAppendEntries disk req
      some { s.setNode dst r.1 with appendCalls := s.appendCalls.setReply k (.answered r.2) }
    | _ => none
  | .appendReturn k =>
    match s.appendCalls[k]? with
    | some ⟨src, dst, _, .answered resp, true⟩ =>
      some { s.setOrPanic E src ((s.node src).appendResponse disk dst resp) with
        appendCalls :=
          (s.setOrPanic E src ((s.node src).appendResponse disk dst resp)).appendCalls.settle k }
    | _ => none
  | .appendFail k =>
    match s.appendCalls[k]? with
    | some ⟨_, _, _, _, true⟩ => some { s with appendCalls := s.appendCalls.settle k }
    | _ => none
  | .handleSnapshot k =>
    match s.snapshotCalls[k]? with
    | some ⟨_, dst, req, .pending, _⟩ =>
      let r := (s.node dst).handleInstallSnapshot E disk req
      some { s.setNode dst r.1 with snapshotCalls := s.snapshotCalls.setReply k (.answered r.2) }
    | _ => none
  | .snapshotReturn k =>
    match s.snapshotCalls[k]? with
    | some ⟨src, dst, req, .answered resp, true⟩ =>
      let r := (s.node src).snapshotResponse disk dst req.lastIncludedIndex resp
      some { s.setOrPanic E src r with
        snapshotCalls := (s.setOrPanic E src r).snapshotCalls.settle k }
    | _ => none
  | .snapshotFail k =>
    match s.snapshotCalls[k]? with
    | some ⟨_, _, _, _, true⟩ => some { s with snapshotCalls := s.snapshotCalls.settle k }
    | _ => none
  | .resume i k =>
    match (s.node i).goroutines[k]? with
    | some g => some (s.runGoroutine E disk i k g)
    | none => none

/-- The node whose critical section it is. -/
def actor (s : Cluster σ) : Action → Option NodeID
  | .electionTimeout i | .finishElection i | .propose i _ | .receive i _ | .cancel i _
  | .replicate i _ | .resume i _ => some i
  | .handleVote k => (s.voteCalls[k]?).map Call.dst
  | .voteReturn k | .voteFail k => (s.voteCalls[k]?).map Call.src
  | .handleAppend k => (s.appendCalls[k]?).map Call.dst
  | .appendReturn k | .appendFail k => (s.appendCalls[k]?).map Call.src
  | .handleSnapshot k => (s.snapshotCalls[k]?).map Call.dst
  | .snapshotReturn k | .snapshotFail k => (s.snapshotCalls[k]?).map Call.src

/-- A request whose handler dies is lost. -/
def lose (s : Cluster σ) : Action → Cluster σ
  | .handleVote k => { s with voteCalls := s.voteCalls.setReply k .lost }
  | .handleAppend k => { s with appendCalls := s.appendCalls.setReply k .lost }
  | .handleSnapshot k => { s with snapshotCalls := s.snapshotCalls.setReply k .lost }
  | _ => s

/-- The first `cut` transactions succeed. -/
def upTo (cut : Nat) : Disk := fun k => decide (k < cut)

/-- **The step function.** -/
def step (E : Engine σ) (R : Roster) (s : Cluster σ) : Step → Option (Cluster σ)
  | .act disk a => s.exec E R disk a
  | .crash i => if i ∈ R.ids then some (s.restart E i (s.node i)) else none
  | .crashDuring a cut =>
    if a.isAtomic then none
    else
      match s.actor a, s.exec E R (upTo cut) a with
      | some i, some s' => some ((s.lose a).restart E i (s'.node i))
      | _, _ => none
  | .applyRead disk i k reads =>
    match (s.node i).goroutines[k]? with
    | some .applyCommitted =>
      let s' := s.runGoroutine E disk i k .applyCommitted
      some (s'.setNode i { s'.node i with goroutines := s.goroutinesAfter E disk i k reads })
    | _ => none

end Cluster

end Raftrix
