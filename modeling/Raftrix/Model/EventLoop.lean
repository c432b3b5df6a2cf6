import Raftrix.Model.Cluster

/-!
# The event loop (`internal/consensus/raft.go`: `Start`, `Stop`, `run`, `broadcastAppendEntries`, the timers)

In `Model/Cluster.lean` an election may start and a request may leave at any moment. Here is the code that
decides when: `run` waits in a `select` for the ticks of two timers, and what it does with a tick it does
outside the critical section that looks at the role. A process (`Process`) is

* the position of its `run` goroutine (`LoopPos`);
* its two timers. `resetElectionTimer` and `resetHeartbeatTimer` arm them, when a tick comes is open;
* the `replicateToPeer` goroutines that `broadcastAppendEntries` has started and that have not run, and the
  `Propose` calls that have appended their entry and not called `broadcastAppendEntries` yet;
* how far `Stop` has come. When `run` has returned too, the process ends, which is a `crash` of the cluster.

`Runtime` is a cluster with a process for each node. A step of it is a step of one process (`LoopStep`,
`StopStep`) or a step of the cluster for which the process has a goroutine (`admits`). `startElection` does
not look at the role again, so it is taken without the guards of `Cluster.exec`.

`rand.Intn` in `resetElectionTimer` panics unless the configured bounds are in order
(`Model/Config.lean`); that they are is assumed here.
-/

namespace Raftrix

/-- Look the id up. -/
local instance (i : NodeID) (ids : List NodeID) : Decidable (i ∈ ids) :=
  decidable_of_iff (ids.elem i = true) List.elem_iff

/-- A `*time.Timer`. In the Go version of `go.mod`, `Stop` and `Reset` also discard a tick that has not
been received. -/
inductive Timer where
  /-- nil. -/
  | unset
  /-- Stopped, or expired with its tick received. -/
  | stopped
  | armed
  /-- Expired; the tick is in the channel. -/
  | fired
  deriving Repr, DecidableEq

namespace Timer

/-- `resetElectionTimer`, `resetHeartbeatTimer`: `NewTimer`, or `Stop`, drain and `Reset`. -/
def reset (_ : Timer) : Timer := .armed

/-- `Stop`, of a timer that there is. -/
def stop : Timer → Timer
  | .unset => .unset
  | _ => .stopped

/-- The time has come. -/
def expire : Timer → Option Timer
  | .armed => some .fired
  | _ => none

/-- A receive from the channel. -/
def receive : Timer → Option Timer
  | .fired => some .stopped
  | _ => none

/-- A tick has come or will come. -/
def ticks : Timer → Bool
  | .armed | .fired => true
  | _ => false

end Timer

/-- Where the `run` goroutine is. -/
inductive LoopPos where
  /-- Before the `select`. -/
  | top
  /-- In the `select`. Its third channel is that of the heartbeat timer, or nil. -/
  | waiting (heartbeat : Bool)
  /-- A tick of the election timer has been received, the lock is still to be taken. -/
  | electionTick
  /-- The node was found not to be leader, the lock has been released, `startElection` is called. -/
  | starting
  /-- In `startElection`, after its requests have been sent. -/
  | electing
  /-- A tick of the heartbeat timer has been received, the lock is still to be taken. -/
  | heartbeatTick
  /-- The heartbeat timer has been set again, `broadcastAppendEntries` is called. -/
  | broadcasting
  | returned
  deriving Repr, DecidableEq

/-- How far `Stop` has come. -/
inductive Stopping where
  | running
  /-- `stopCh` is closed. -/
  | closed
  /-- The timers are stopped; `Stop` waits for `run`. -/
  | timersStopped
  deriving Repr, DecidableEq

/-- What a process has besides the struct `RaftNode`. -/
structure Process where
  loop : LoopPos
  electionTimer : Timer
  heartbeatTimer : Timer
  stopping : Stopping
  /-- The `Propose` calls between their append and their `broadcastAppendEntries`. -/
  announcing : List Nat
  /-- The `Propose` calls that have returned since the node has stopped. -/
  gaveUp : List Nat
  /-- The peers whose `replicateToPeer` goroutine has been started and has not run. -/
  sends : List NodeID
  deriving Repr, DecidableEq

/-- A step of the `run` goroutine, of a timer, or of a goroutine that sends. -/
inductive LoopStep where
  | expireElection
  | expireHeartbeat
  /-- The channels of the `select` are evaluated. -/
  | select
  | receiveElection
  | receiveHeartbeat
  /-- `run` after a tick of the election timer. -/
  | checkElection
  /-- `run` after a tick of the heartbeat timer. -/
  | checkHeartbeat
  /-- `broadcastAppendEntries`, called by `run`. -/
  | broadcast
  /-- `broadcastAppendEntries`, called by a `Propose`. -/
  | announce (id : Nat)
  /-- `replicateToPeer` finds that the node is not leader any more. -/
  | skip (peer : NodeID)
  deriving Repr, DecidableEq

/-- A step of `Stop`, or of what waits for it. -/
inductive StopStep where
  | close
  | stopTimers
  /-- `run` receives from `stopCh`. -/
  | leave
  /-- A `Propose` receives from `stopCh`. -/
  | giveUp (id : Nat)
  deriving Repr, DecidableEq

namespace Process

variable {σ : Type}

/-- `Start`, on a new node. -/
def start : Process where
  loop := .top
  electionTimer := Timer.unset.reset
  heartbeatTimer := .unset
  stopping := .running
  announcing := []
  gaveUp := []
  sends := []

/-- `broadcastAppendEntries`. -/
def broadcastAppendEntries (n : RaftNode σ) (p : Process) : Process :=
  if n.state ≠ .leader then p else { p with sends := p.sends ++ n.peers.map Peer.id }

/-- One step of the loop. `none` when it cannot be taken now. -/
def loopStep (n : RaftNode σ) (p : Process) : LoopStep → Option Process
  | .expireElection => p.electionTimer.expire.map fun t => { p with electionTimer := t }
  | .expireHeartbeat => p.heartbeatTimer.expire.map fun t => { p with heartbeatTimer := t }
  | .select =>
    if p.loop = .top then some { p with loop := .waiting (decide (p.heartbeatTimer ≠ .unset)) } else none
  | .receiveElection =>
    match p.loop with
    | .waiting _ =>
      p.electionTimer.receive.map fun t => { p with loop := .electionTick, electionTimer := t }
    | _ => none
  | .receiveHeartbeat =>
    match p.loop with
    | .waiting true =>
      p.heartbeatTimer.receive.map fun t => { p with loop := .heartbeatTick, heartbeatTimer := t }
    | _ => none
  | .checkElection =>
    if p.loop = .electionTick then
      if n.state ≠ .leader then some { p with loop := .starting }
      else some { p with loop := .top, electionTimer := p.electionTimer.reset }
    else none
  | .checkHeartbeat =>
    if p.loop = .heartbeatTick then
      if n.state = .leader then
        some { p with loop := .broadcasting, heartbeatTimer := p.heartbeatTimer.reset }
      else some { p with loop := .top }
    else none
  | .broadcast =>
    if p.loop = .broadcasting then some { p.broadcastAppendEntries n with loop := .top } else none
  | .announce id =>
    if id ∈ p.announcing then
      some { p.broadcastAppendEntries n with announcing := p.announcing.erase id }
    else none
  | .skip peer =>
    if peer ∈ p.sends ∧ n.state ≠ .leader then some { p with sends := p.sends.erase peer } else none

/-- Steps of the loop, one after another. -/
def loopSteps (n : RaftNode σ) (p : Process) : List LoopStep → Option Process
  | [] => some p
  | l :: ls => (p.loopStep n l).bind fun p' => p'.loopSteps n ls

/-- One step of `Stop`. -/
def stopStep (n : RaftNode σ) (p : Process) : StopStep → Option Process
  | .close => if p.stopping = .running then some { p with stopping := .closed } else none
  | .stopTimers =>
    if p.stopping = .closed then
      some { p with
        stopping := .timersStopped
        electionTimer := p.electionTimer.stop
        heartbeatTimer := p.heartbeatTimer.stop }
    else none
  | .leave =>
    match p.loop with
    | .waiting _ => if p.stopping ≠ .running then some { p with loop := .returned } else none
    | _ => none
  | .giveUp id =>
    match n.proposals[id]? with
    | some proposal =>
      if proposal.waiting ∧ p.stopping ≠ .running ∧ id ∉ p.announcing ∧ id ∉ p.gaveUp then
        some { p with gaveUp := p.gaveUp ++ [id] }
      else none
    | none => none

end Process

namespace Cluster

variable {σ : Type}

/-- The critical section resets the election timer: a request of a leader that is not stale, a newer term
(`becomeFollower`), a vote. -/
def resetsElection (disk : Disk) (s : Cluster σ) : Action → Bool
  | .handleVote k =>
    match s.voteCalls[k]? with
    | some c => decide ((s.node c.dst).currentTerm < c.req.term) ||
        ((s.node c.dst).handleRequestVote disk c.req).2.voteGranted
    | none => false
  | .voteReturn k =>
    match s.voteCalls[k]? with
    | some ⟨src, _, _, .answered resp, _⟩ => decide ((s.node src).currentTerm < resp.term)
    | _ => false
  | .handleAppend k =>
    match s.appendCalls[k]? with
    | some c => decide ((s.node c.dst).currentTerm ≤ c.req.term)
    | none => false
  | .appendReturn k =>
    match s.appendCalls[k]? with
    | some ⟨src, _, _, .answered resp, _⟩ =>
      decide ((s.node src).state = .leader ∧ (s.node src).currentTerm < resp.term)
    | _ => false
  | .handleSnapshot k =>
    match s.snapshotCalls[k]? with
    | some c => decide ((s.node c.dst).currentTerm ≤ c.req.term)
    | none => false
  | .snapshotReturn k =>
    match s.snapshotCalls[k]? with
    | some ⟨src, _, _, .answered resp, _⟩ => decide ((s.node src).currentTerm < resp.term)
    | _ => false
  | _ => false

/-- The critical section dereferences a nil `n.leader`, and the process ends. -/
def panics (disk : Disk) (s : Cluster σ) : Action → Bool
  | .replicate i _ => (s.node i).leader.isNone
  | .appendReturn k =>
    match s.appendCalls[k]? with
    | some ⟨src, dst, _, .answered resp, _⟩ => ((s.node src).appendResponse disk dst resp).isNone
    | _ => false
  | .snapshotReturn k =>
    match s.snapshotCalls[k]? with
    | some ⟨src, dst, req, .answered resp, _⟩ =>
      ((s.node src).snapshotResponse disk dst req.lastIncludedIndex resp).isNone
    | _ => false
  | _ => false

end Cluster

/-- The process after a critical section of it that has run from `s`. -/
def Process.after {σ : Type} (disk : Disk) (s : Cluster σ) (p : Process) : Action → Process
  | .electionTimeout _ => { p with loop := .electing, electionTimer := p.electionTimer.reset }
  | .finishElection i =>
    if (s.election i).any RaftNode.Election.won ∧ (s.node i).state = .candidate then
      -- `becomeLeader`
      { p with
        loop := .top
        electionTimer := p.electionTimer.stop
        heartbeatTimer := p.heartbeatTimer.reset }
    else { p with loop := .top }
  | .replicate _ peer => { p with sends := p.sends.erase peer }
  | .propose i cmd =>
    match ((s.node i).propose disk cmd).2 with
    | .waiting id => { p with announcing := p.announcing ++ [id] }
    | _ => p
  | a => if s.resetsElection disk a then { p with electionTimer := p.electionTimer.reset } else p

/-- A cluster and its processes. -/
structure Runtime (σ : Type) where
  cluster : Cluster σ
  proc : NodeID → Process

/-- A step of a runtime. -/
inductive RuntimeStep where
  | loop (i : NodeID) (l : LoopStep)
  | stop (i : NodeID) (l : StopStep)
  | cluster (st : Step)

/-- The step of the cluster. -/
def RuntimeStep.shows : RuntimeStep → Option Step
  | .cluster st => some st
  | _ => none

namespace Runtime

variable {σ : Type}

/-- Replace the process of node `i`. -/
def setProc (w : Runtime σ) (i : NodeID) (p : Process) : Runtime σ :=
  { w with proc := fun j => if j = i then p else w.proc j }

/-- A cluster that has never run, every node just started. -/
def init (M : Membership) (store : NodeID → σ) (threshold : NodeID → Int) : Runtime σ where
  cluster := .init M store threshold
  proc _ := .start

/-- A goroutine of the process is about to enter the critical section. -/
def admits (w : Runtime σ) : Action → Prop
  | .electionTimeout i => (w.proc i).loop = .starting
  | .finishElection i => (w.proc i).loop = .electing
  | .replicate i peer => peer ∈ (w.proc i).sends
  | .receive i id | .cancel i id => id ∉ (w.proc i).announcing ∧ id ∉ (w.proc i).gaveUp
  | _ => True

instance (w : Runtime σ) (a : Action) : Decidable (w.admits a) := by
  unfold admits; split <;> infer_instance

/-- What the step makes of the cluster. -/
def clusterStep (E : Engine σ) (M : Membership) (w : Runtime σ) : Step → Option (Cluster σ)
  | .act disk (.electionTimeout i) => some (w.cluster.timeout disk i)
  | .crashDuring (.electionTimeout i) cut =>
    some (w.cluster.restart E i ((w.cluster.timeout (Cluster.upTo cut) i).node i))
  | st => w.cluster.step E M st

/-- What the step makes of the processes. -/
def procAfter (w : Runtime σ) : Step → NodeID → Process
  | .act disk a, j =>
    if w.cluster.actor a = some j then
      if w.cluster.panics disk a then .start else (w.proc j).after disk w.cluster a
    else w.proc j
  | .crash i, j => if j = i then .start else w.proc j
  | .crashDuring a _, j => if w.cluster.actor a = some j then .start else w.proc j
  | .applyRead _ _ _ _, j => w.proc j

/-- The critical section of a step, if there is a goroutine that is about to enter it. -/
def admitsStep (w : Runtime σ) : Step → Prop
  | .act _ a | .crashDuring a _ => w.admits a
  | _ => True

instance (w : Runtime σ) (st : Step) : Decidable (w.admitsStep st) := by
  unfold admitsStep; split <;> infer_instance

/-- **The step function.** -/
def step (E : Engine σ) (M : Membership) (w : Runtime σ) : RuntimeStep → Option (Runtime σ)
  | .loop i l =>
    if i ∈ M.ids then ((w.proc i).loopStep (w.cluster.node i) l).map (w.setProc i) else none
  | .stop i l =>
    if i ∈ M.ids then ((w.proc i).stopStep (w.cluster.node i) l).map (w.setProc i) else none
  | .cluster st =>
    if w.admitsStep st then (w.clusterStep E M st).map fun s => ⟨s, w.procAfter st⟩ else none

end Runtime

end Raftrix
