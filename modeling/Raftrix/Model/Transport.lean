import Mathlib.Data.List.AList
import Raftrix.Model.Node
import Raftrix.Model.Wire

/-!
# RPCs over HTTP (`internal/cluster`, the Raft handlers of `pkg/api/v1/kvstore.go`)

One RPC is one HTTP request. The caller writes its request as JSON, posts it and decodes the response
(`HTTPTransport.answer`); the handler of the callee decodes the body, calls the node and writes the answer
(`Server.handleRPC`). The network gives the caller an error or a response (`HttpOutcome`).

The transport keeps a `Member` for every peer: its health after the RPCs so far. A failure to decode a
response counts neither for the peer nor against it. `HeartbeatTracker` reads the members.
-/

namespace Raftrix

open Lib.Json (Value ascii)

/-! ## Members -/

/-- `PeerState`. -/
inductive PeerState where
  | alive
  | unreachable
  | dead
  deriving Repr, DecidableEq

/-- `Member`. Times are nanoseconds from an arbitrary moment. -/
structure Member where
  peer : Peer
  state : PeerState
  lastSeen : Nat
  missedRPCs : Nat
  deriving Repr, DecidableEq

namespace Member

/-- `NewMember`. -/
def newMember (now : Nat) (peer : Peer) : Member := ⟨peer, .alive, now, 0⟩

/-- `RecordSuccess`. -/
def recordSuccess (now : Nat) (m : Member) : Member :=
  { m with state := .alive, lastSeen := now, missedRPCs := 0 }

/-- `RecordFailure`. -/
def recordFailure (m : Member) : Member :=
  { m with
    missedRPCs := m.missedRPCs + 1
    state :=
      if 5 ≤ m.missedRPCs + 1 then .dead
      else if 2 ≤ m.missedRPCs + 1 then .unreachable
      -- the first failure changes nothing
      else m.state }

/-- `IsAlive`. -/
def isAlive (m : Member) : Bool := m.state == .alive

end Member

/-! ## The caller -/

/-- `HTTPTransport`: its members by id. -/
structure HTTPTransport where
  members : AList fun _ : NodeID => Member

/-- What comes of posting a request. -/
inductive HttpOutcome where
  /-- No request could be made of the URL. -/
  | invalid
  /-- `client.Do` returns an error: no connection, a timeout, a cancelled context. -/
  | failed
  | response (status : Nat) (body : Bytes)

/-- The errors of `rpc`. -/
inductive RpcError where
  | request
  /-- `rpc %s to %s: %w`. -/
  | post (path : Bytes) (peer : NodeID)
  /-- `rpc %s to %s: status %d`. -/
  | status (path : Bytes) (peer : NodeID) (status : Nat)
  /-- `decoding response from %s: %w`. -/
  | decoding (peer : NodeID)
  deriving DecidableEq

namespace HTTPTransport

/-- `NewHTTPTransport`: of peers with one id the last one counts. -/
def newHTTPTransport (now : Nat) (peers : List Peer) : HTTPTransport :=
  ⟨peers.foldl (fun members p => members.insert p.id (.newMember now p)) ∅⟩

/-- Change the member of an id, if there is one. -/
def update (t : HTTPTransport) (id : NodeID) (f : Member → Member) : HTTPTransport :=
  match t.members.lookup id with
  | none => t
  | some m => ⟨t.members.insert id (f m)⟩

/-- `recordSuccess`. -/
def recordSuccess (t : HTTPTransport) (now : Nat) (id : NodeID) : HTTPTransport :=
  t.update id (Member.recordSuccess now)

/-- `recordFailure`. -/
def recordFailure (t : HTTPTransport) (id : NodeID) : HTTPTransport := t.update id Member.recordFailure

/-- What `rpc` returns, once the request has been posted. -/
def answer {α : Type} (ofJson : Value → Option α) (path : Bytes) (peer : Peer) :
    HttpOutcome → Except RpcError α
  | .invalid => .error .request
  | .failed => .error (.post path peer.id)
  | .response status body =>
    if status ≠ 200 then .error (.status path peer.id status)
    else
      match (Lib.Json.decode body).bind ofJson with
      | none => .error (.decoding peer.id)
      | some resp => .ok resp

/-- What `rpc` records about the peer, at the time `now`. -/
def record {α : Type} (t : HTTPTransport) (now : Nat) (id : NodeID) : Except RpcError α → HTTPTransport
  | .ok _ => t.recordSuccess now id
  | .error (.post _ _) | .error (.status _ _ _) => t.recordFailure id
  | .error .request | .error (.decoding _) => t

/-- `rpc`, once the request has been posted, at the time `now`. -/
def rpc {α : Type} (ofJson : Value → Option α) (path : Bytes) (t : HTTPTransport) (now : Nat)
    (peer : Peer) (outcome : HttpOutcome) : HTTPTransport × Except RpcError α :=
  (t.record now peer.id (answer ofJson path peer outcome), answer ofJson path peer outcome)

/-- `AppendEntries`. -/
def appendEntries : Peer → HttpOutcome → Except RpcError AppendEntriesResponse :=
  answer AppendEntriesResponse.ofJson (ascii "/raft/append-entries")

/-- `RequestVote`. -/
def requestVote : Peer → HttpOutcome → Except RpcError RequestVoteResponse :=
  answer RequestVoteResponse.ofJson (ascii "/raft/request-vote")

/-- `InstallSnapshot`. -/
def installSnapshot : Peer → HttpOutcome → Except RpcError InstallSnapshotResponse :=
  answer InstallSnapshotResponse.ofJson (ascii "/raft/install-snapshot")

end HTTPTransport

/-! ## The callee -/

namespace Server

variable {σ : Type}

/-- `writeJSON`: the encoder ends its text with a line break. -/
def writeJSON (status : Nat) (v : Value) : HttpOutcome := .response status (Lib.Json.print v ++ [10])

/-- `writeError`. -/
def writeError (status : Nat) (msg : Bytes) : HttpOutcome :=
  writeJSON status (.object [(ascii "error", .string msg)])

/-- A Raft handler on a body; `msg` is the text of the decoder's error, if it has one. -/
def handleRPC {ρ τ : Type} (ofJson : Value → Option ρ) (toJson : τ → Value)
    (handle : RaftNode σ → ρ → RaftNode σ × τ) (msg : Bytes) (n : RaftNode σ) (body : Bytes) :
    RaftNode σ × HttpOutcome :=
  match (Lib.Json.decode body).bind ofJson with
  | none => (n, writeError 400 msg)
  | some req => ((handle n req).1, writeJSON 200 (toJson (handle n req).2))

/-- `handleAppendEntries`. -/
def handleAppendEntries (disk : Disk) : Bytes → RaftNode σ → Bytes → RaftNode σ × HttpOutcome :=
  handleRPC AppendEntriesRequest.ofJson AppendEntriesResponse.toJson (·.handleAppendEntries disk)

/-- `handleRequestVote`. -/
def handleRequestVote (disk : Disk) : Bytes → RaftNode σ → Bytes → RaftNode σ × HttpOutcome :=
  handleRPC RequestVoteRequest.ofJson RequestVoteResponse.toJson (·.handleRequestVote disk)

/-- `handleInstallSnapshot`. -/
def handleInstallSnapshot (E : Engine σ) (disk : Disk) :
    Bytes → RaftNode σ → Bytes → RaftNode σ × HttpOutcome :=
  handleRPC InstallSnapshotRequest.ofJson InstallSnapshotResponse.toJson
    (·.handleInstallSnapshot E disk)

end Server

/-! ## The health tracker -/

/-- `HeartbeatTracker`: the ids of the members it was given. The members are the transport's own. -/
structure HeartbeatTracker where
  members : List NodeID

namespace HeartbeatTracker

/-- `deadThreshold`. -/
def deadThreshold : Nat := 30000000000

/-- `LivePeers`. -/
def livePeers (h : HeartbeatTracker) (t : HTTPTransport) : List NodeID :=
  h.members.filter fun id => (t.members.lookup id).any Member.isAlive

/-- `check`: the peers it warns about at the time `now`. -/
def check (h : HeartbeatTracker) (t : HTTPTransport) (now : Nat) : List NodeID :=
  h.members.filter fun id =>
    (t.members.lookup id).any fun m => decide (deadThreshold < now - m.lastSeen) && m.state != .dead

end HeartbeatTracker

end Raftrix
