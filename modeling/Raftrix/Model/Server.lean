import Raftrix.Model.Api
import Raftrix.Model.EventLoop

/-!
# The servers (`pkg/api/v1/kvstore.go`, `internal/transaction`)

`Model/Api.lean` says what a handler proposes. Here is what becomes of it: a request is a goroutine
(`Session`) that proposes its commands one after another, waits in `Propose` for each, and answers. A
`Deployment` is a runtime with the requests its servers have got. A step of it is

* a request that arrives (`request`). A handler that proposes nothing answers at once, `getKey` and
  `handleScan` from the store, without the node's lock;
* a step of the `Propose` call of a request (`call`): the critical section, the receive from `doneCh`, the
  end of the context (the client has gone, or the five seconds of `propose` are over), or `stopCh`;
* any other step of the runtime (`other`). A run of `applyCommitted` may be read from in between, as
  `takeSnapshot` may (`Model/Cluster.lean`). When the process of a node ends, so do its requests.

`Manager.Commit` of `internal/transaction` is the loop of `handleTxn` for a caller in the process; nothing
in the repository calls it. An error is the value it was made from: its text is what `Error` makes of that.
A body is what `writeJSON` gets.

`opened`, `process`, `told`, the prefix lengths of `query` and the times are what the proofs speak about. No
server reads them, except for the length of `told`, which is the loop variable.
-/

namespace Raftrix

namespace Api

variable {σ : Type}

/-! ## Answers -/

/-- The errors of `Propose`. -/
inductive ProposeError where
  /-- `NotLeaderError`. -/
  | notLeader (leaderID : NodeID)
  /-- `appending to log: ...`. -/
  | appendFailed
  /-- What `applyCommand` has returned. -/
  | apply (err : ApplyError)
  /-- `ctx.Err()`. -/
  | contextEnded
  /-- `node stopped`. -/
  | nodeStopped
  deriving Repr, DecidableEq

/-- What an error is wrapped in. -/
inductive Place where
  | plain
  /-- `op[%d]: %w`. -/
  | op (i : Nat)
  /-- `txn op[%d] (%s %q): %w`. -/
  | txnOp (i : Nat) (op : OpType) (key : Bytes)
  deriving Repr, DecidableEq

/-- An error of `Propose`, wrapped. -/
structure Failure where
  place : Place
  err : ProposeError
  deriving Repr, DecidableEq

/-- What `writeJSON` and `http.Error` write. -/
inductive Body where
  /-- `writeError` with a text of the handler, or `http.Error`. -/
  | message (text : String)
  /-- `writeError` with the text of the error. -/
  | failure (f : Failure)
  | engineError (err : EngineError)
  /-- `{"error": "not leader", "leader_id": ...}`. -/
  | notLeader (leaderID : NodeID)
  /-- `{"ok": true}`. -/
  | ok
  /-- `{"key": ..., "value": ...}`. -/
  | value (key value : Bytes)
  /-- `{"keys": ...}`. -/
  | keys (contents : StringMap)
  deriving DecidableEq

structure Response where
  status : Nat
  body : Body
  deriving DecidableEq

/-- `handleProposeError`. `errors.As` looks through the wrapping. -/
def handleProposeError (f : Failure) : Response :=
  match f.err with
  | .notLeader leaderID => ⟨307, .notLeader leaderID⟩
  | _ => ⟨500, .failure f⟩

/-- `getKey`. -/
def getKey (E : Engine σ) (store : σ) (key : Bytes) : Response :=
  match E.get store key with
  | .error .keyNotFound => ⟨404, .message "key not found"⟩
  | .error err => ⟨500, .engineError err⟩
  | .ok value => ⟨200, .value key value⟩

/-- `handleScan`, for an engine whose `Scan` does not fail. -/
def handleScan (E : ScanEngine σ) (store : σ) (start : Bytes) : Response :=
  ⟨200, .keys (E.scan store start)⟩

/-- A question to the store. -/
inductive Query where
  | get (key : Bytes)
  | scan (start : Bytes)
  deriving Repr, DecidableEq

/-- Its answer. -/
def Query.answer (E : ScanEngine σ) (store : σ) : Query → Response
  | .get key => getKey E.toEngine store key
  | .scan start => handleScan E store start

/-! ## Transactions -/

/-- `Txn`: the commands that `Put`, `Delete` and `CAS` have listed. -/
structure Txn where
  ops : List Command

/-! ## Requests -/

/-- Who proposes. -/
inductive Caller where
  /-- `putKey`, `deleteKey`, `handleCAS`. -/
  | single
  /-- `handleTxn`. -/
  | txn
  /-- `Manager.Commit`. -/
  | manager
  deriving Repr, DecidableEq

/-- What a caller gets. -/
inductive Result where
  | http (resp : Response)
  /-- `Manager.Commit` returns. -/
  | returned (err : Option Failure)
  deriving DecidableEq

namespace Caller

/-- Every `Propose` has returned nil. -/
def succeed : Caller → Result
  | .manager => .returned none
  | _ => .http ⟨200, .ok⟩

/-- The `Propose` of the `i`-th command has returned an error. -/
def fail (cmds : List Command) (i : Nat) (err : ProposeError) : Caller → Result
  | .single => .http (handleProposeError ⟨.plain, err⟩)
  | .txn => .http (handleProposeError ⟨.op i, err⟩)
  | .manager =>
    .returned (some ⟨match cmds[i]? with
      | some cmd => .txnOp i cmd.op cmd.key
      | none => .plain, err⟩)

end Caller

/-- What a server is asked. -/
inductive Incoming where
  /-- `/v1/keys/`, `/v1/cas/`, `/v1/txn`. -/
  | client (req : Request)
  /-- `/v1/scan`. -/
  | scan (start : Bytes)
  /-- `Manager.Commit`. -/
  | commit (txn : Txn)

/-- What there is to do. -/
inductive Work where
  | reply (resp : Response)
  | query (q : Query)
  | propose (caller : Caller) (cmds : List Command)

def Request.caller : Request → Caller
  | .txn _ _ => .txn
  | _ => .single

def Incoming.work : Incoming → Work
  | .client req =>
    match handle req with
    | .error status message => .reply ⟨status, .message message⟩
    | .read key => .query (.get key)
    | .propose cmds => .propose req.caller cmds
  | .scan start => .query (.scan start)
  | .commit txn => .propose .manager txn.ops

/-- Where the goroutine of a request is. -/
inductive Stage where
  /-- About to call `Propose`. -/
  | ready
  /-- In `Propose`, at this position of `proposals`. -/
  | proposing (id : Nat)
  | answered (result : Result) (time : Nat)
  /-- The process has ended. -/
  | cut
  deriving DecidableEq

/-- A `Propose` call that has received from `doneCh`. -/
structure Told where
  id : Nat
  index : Nat
  result : Option ApplyError
  deriving Repr, DecidableEq

/-- A request. -/
structure Session where
  node : NodeID
  caller : Caller
  cmds : List Command
  /-- The calls that have received their results, in the order of `cmds`. -/
  told : List Told
  stage : Stage
  /-- The question, and how many entries the store had applied. -/
  query : Option (Query × Nat)
  opened : Nat
  process : Nat
  deriving DecidableEq

namespace Session

/-- The loop goes on, or the handler answers. -/
def proceed (now : Nat) (x : Session) : Session :=
  if x.told.length < x.cmds.length then { x with stage := .ready }
  else { x with stage := .answered x.caller.succeed now }

/-- The `Propose` of the `i`-th command has failed. -/
def fail (now : Nat) (x : Session) (i : Nat) (err : ProposeError) : Session :=
  { x with stage := .answered (x.caller.fail x.cmds i err) now }

/-- `Propose` has left its critical section. -/
def proposed (now : Nat) (x : Session) : RaftNode.ProposeOutcome → Session
  | .notLeader leaderID => x.fail now x.told.length (.notLeader leaderID)
  | .appendFailed => x.fail now x.told.length .appendFailed
  | .waiting id => { x with stage := .proposing id }

/-- `Propose` has received from `doneCh`. -/
def received (now : Nat) (x : Session) (t : Told) : Session :=
  match t.result with
  | none => { x with told := x.told ++ [t] }.proceed now
  | some err => { x with told := x.told ++ [t] }.fail now x.told.length (.apply err)

/-- A request at node `i`, answered from `store`, to which `applied` entries have been applied. -/
def start (E : ScanEngine σ) (now process : Nat) (i : NodeID) (store : σ) (applied : Nat) :
    Work → Session
  | .reply resp => ⟨i, .single, [], [], .answered (.http resp) now, none, now, process⟩
  | .query q =>
    ⟨i, .single, [], [], .answered (.http (q.answer E store)) now, some (q, applied), now, process⟩
  | .propose caller cmds =>
    Session.proceed now ⟨i, caller, cmds, [], .ready, none, now, process⟩

/-- The process of the node has ended. -/
def cutOff (x : Session) : Session :=
  match x.stage with
  | .answered _ _ => x
  | _ => { x with stage := .cut }

/-- The step is the next one of the `Propose` call of the request. -/
def takes (x : Session) : RuntimeStep → Prop
  | .cluster (.act _ (.propose i cmd)) =>
    x.stage = .ready ∧ x.node = i ∧ x.cmds[x.told.length]? = some cmd
  | .cluster (.act _ (.receive i id)) | .cluster (.act _ (.cancel i id)) | .stop i (.giveUp id) =>
    x.stage = .proposing id ∧ x.node = i
  | _ => False

instance (x : Session) (b : RuntimeStep) : Decidable (x.takes b) := by
  unfold takes; split <;> infer_instance

/-- The request after that step, which was taken from `w`. -/
def after (now : Nat) (w : Runtime σ) (x : Session) : RuntimeStep → Session
  | .cluster (.act disk (.propose i cmd)) => x.proposed now ((w.cluster.node i).propose disk cmd).2
  | .cluster (.act _ (.receive i id)) =>
    match (w.cluster.node i).proposals[id]? with
    | some ⟨index, _, _, some result, _⟩ => x.received now ⟨id, index, result⟩
    | _ => x
  | .cluster (.act _ (.cancel _ _)) => x.fail now x.told.length .contextEnded
  | .stop _ (.giveUp _) => x.fail now x.told.length .nodeStopped
  | _ => x

end Session

end Api

namespace RuntimeStep

/-- The step is one of a `Propose` call. -/
def isCall : RuntimeStep → Bool
  | .cluster (.act _ (.propose _ _)) | .cluster (.act _ (.receive _ _))
  | .cluster (.act _ (.cancel _ _)) | .stop _ (.giveUp _) => true
  | _ => false

end RuntimeStep

/-- The step ends the process of the node. -/
def Runtime.ends {σ : Type} (w : Runtime σ) : RuntimeStep → NodeID → Bool
  | .cluster (.crash i), j => decide (i = j)
  | .cluster (.crashDuring a _), j => decide (w.cluster.actor a = some j)
  | .cluster (.act disk a), j => decide (w.cluster.actor a = some j) && w.cluster.panics disk a
  | _, _ => false

/-- A runtime and the requests of its servers. -/
structure Deployment (σ : Type) where
  runtime : Runtime σ
  sessions : List Api.Session
  /-- The number of steps. -/
  clock : Nat
  /-- How often the process of the node has ended. -/
  restarts : NodeID → Nat

/-- A step of a deployment. -/
inductive DeploymentStep where
  /-- A request arrives. -/
  | request (i : NodeID) (req : Api.Incoming)
  /-- The `k`-th request takes a step of its `Propose` call. -/
  | call (k : Nat) (b : RuntimeStep)
  /-- Another step. Every request of `reads` arrives meanwhile and reads the store before the given one of
  the commands that are applied. -/
  | other (b : RuntimeStep) (reads : List (Api.Incoming × Nat))

/-- The step of the runtime. -/
def DeploymentStep.shows : DeploymentStep → Option RuntimeStep
  | .request _ _ => none
  | .call _ b | .other b _ => some b

namespace Deployment

variable {σ : Type}

/-- Servers that have never run. -/
def init (M : Membership) (store : NodeID → σ) (threshold : NodeID → Int) : Deployment σ where
  runtime := .init M store threshold
  sessions := []
  clock := 0
  restarts _ := 0

/-- A request that arrives at node `i`. -/
def accept (E : ScanEngine σ) (v : Deployment σ) (i : NodeID) (req : Api.Incoming) : Api.Session :=
  .start E v.clock (v.restarts i) i (v.runtime.cluster.node i).storage
    (v.runtime.cluster.node i).lastApplied req.work

/-- A request that reads the store before the `r`-th of the commands that have been applied. -/
def readMeanwhile (E : ScanEngine σ) (v : Deployment σ) (applied : List (NodeID × Applied σ)) :
    Api.Incoming × Nat → Option Api.Session
  | (req, r) =>
    match applied[r]?, req.work with
    | some (i, a), .query q =>
      some (.start E v.clock (v.restarts i) i a.store (a.index - 1) (.query q))
    | _, _ => none

/-- **The step function.** -/
def step (E : ScanEngine σ) (M : Membership) (v : Deployment σ) :
    DeploymentStep → Option (Deployment σ)
  | .request i req =>
    if M.ids.contains i then
      some { v with sessions := v.sessions ++ [v.accept E i req], clock := v.clock + 1 }
    else none
  | .call k b =>
    match v.sessions[k]? with
    | some x =>
      if x.takes b then
        (v.runtime.step E.toEngine M b).map fun w =>
          { v with
            runtime := w
            sessions := v.sessions.set k (x.after v.clock v.runtime b)
            clock := v.clock + 1 }
      else none
    | none => none
  | .other b reads =>
    if b.isCall then none
    else
      (v.runtime.step E.toEngine M b).map fun w =>
        { runtime := w
          sessions :=
            v.sessions.map (fun x => if v.runtime.ends b x.node then x.cutOff else x) ++
              reads.filterMap
                (v.readMeanwhile E (w.cluster.trace.drop v.runtime.cluster.trace.length))
          clock := v.clock + 1
          restarts := fun i => if v.runtime.ends b i then v.restarts i + 1 else v.restarts i }

end Deployment

end Raftrix
