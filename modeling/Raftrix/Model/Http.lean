import Raftrix.Lib.Run
import Raftrix.Model.Cluster
import Raftrix.Model.Transport

/-!
# A cluster over HTTP

The cluster of `Model/Cluster.lean` with the texts that its nodes exchange: a request is posted as the
JSON that its caller writes, the handler of the callee works on what it decodes of the body, and the caller
resumes with what it decodes of the response (`execHttp`). An RPC whose response is an error of any kind is
one without an answer: its caller can only fail. Everything else is as there.

The ids are whatever the configuration has (`Roster`).
-/

namespace Raftrix

/-- What becomes of a call whose `rpc` returns `r`. -/
def Reply.heard {τ : Type} (r : Except RpcError τ) : Reply τ :=
  match r with
  | .ok resp => .answered resp
  | .error _ => .lost

/-- What the structs do not settle about the texts of a step: whether an empty slice of the request is nil,
and what the error of a decoder says. -/
structure Wording where
  isNil : Bool
  msg : Bytes

namespace Cluster

variable {σ : Type}

/-- One critical section, its request and its answer being texts. -/
def execHttp (E : Engine σ) (R : Roster) (w : Wording) (disk : Disk) (s : Cluster σ) :
    Action → Option (Cluster σ)
  | .handleVote k =>
    match s.voteCalls[k]? with
    | some ⟨_, dst, req, .pending, _⟩ =>
      let r := Server.handleRequestVote disk w.msg (s.node dst) (Lib.Json.print req.toJson)
      some { s.setNode dst r.1 with
        voteCalls := s.voteCalls.setReply k (.heard (HTTPTransport.requestVote ⟨dst⟩ r.2)) }
    | _ => none
  | .handleAppend k =>
    match s.appendCalls[k]? with
    | some ⟨_, dst, req, .pending, _⟩ =>
      let r := Server.handleAppendEntries disk w.msg (s.node dst) (Lib.Json.print (req.toJson w.isNil))
      some { s.setNode dst r.1 with
        appendCalls := s.appendCalls.setReply k (.heard (HTTPTransport.appendEntries ⟨dst⟩ r.2)) }
    | _ => none
  | .handleSnapshot k =>
    match s.snapshotCalls[k]? with
    | some ⟨_, dst, req, .pending, _⟩ =>
      let r := Server.handleInstallSnapshot E disk w.msg (s.node dst)
        (Lib.Json.print (req.toJson w.isNil))
      some { s.setNode dst r.1 with
        snapshotCalls := s.snapshotCalls.setReply k (.heard (HTTPTransport.installSnapshot ⟨dst⟩ r.2)) }
    | _ => none
  | a => s.exec E R disk a

/-- **The step function over HTTP.** -/
def stepHttp (E : Engine σ) (R : Roster) (s : Cluster σ) (x : Step × Wording) : Option (Cluster σ) :=
  match x.1 with
  | .act disk a => s.execHttp E R x.2 disk a
  | .crashDuring a cut =>
    if a.isAtomic then none
    else
      match s.actor a, s.execHttp E R x.2 (upTo cut) a with
      | some i, some s' => some ((s.lose a).restart E i (s'.node i))
      | _, _ => none
  | st => s.step E R st

/-- The runs of a cluster over HTTP from its initial state, over the steps `ok` allows. -/
abbrev HttpReaches (E : Engine σ) (R : Roster) (store : NodeID → σ) (threshold : NodeID → Int)
    (ok : Cluster σ → Step × Wording → Prop) :=
  Lib.Run (fun s => s = init R store threshold) (stepHttp E R) ok

end Cluster

end Raftrix
