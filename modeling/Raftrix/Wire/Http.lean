import Raftrix.Cluster.Counters
import Raftrix.Cluster.Reign
import Raftrix.Model.Http
import Raftrix.Wire.Messages

/-!
# An RPC over HTTP is a call

`Model/Cluster.lean` hands a request to the callee and the answer to the caller as they are; the processes
exchange JSON texts (`Model/Http.lean`). The two clusters have the same runs:

* `rpc_over_http`: one RPC. If the request and the answer come back from their texts, the callee works on the
  request and the caller gets the answer; nothing depends on how the texts are worded.
* `Reaches.execHttp_eq`: in a reachable state of a cluster whose ids are valid UTF-8 they do come back. Their
  numbers are `uint64` values because they are bounded by the number of steps (`Reaches.counted`), their
  commands have been through the JSON text of a log already (`Reaches.forall_command`), and their ids are ids
  of members (`Addressed`).
* **`httpReaches_iff`**: a run of less than `2^64` steps is one over HTTP exactly if it is one of
  `Model/Cluster.lean`. What is proved of those runs holds of the processes and their texts.

With other ids it does not hold: see `two_leaders_over_http`.
-/

namespace Raftrix

open Lib.Json (Value)
open Lib.Utf8 (coerceUtf8)

variable {σ : Type}

/-! ## One RPC -/

/-- The answer to a request, from its text to the text of the response. -/
theorem Server.handleRPC_print {ρ τ : Type} {ofJson : Value → Option ρ} {toJson : τ → Value}
    {handle : RaftNode σ → ρ → RaftNode σ × τ} {n : RaftNode σ} {body : Value} {req : ρ}
    (hreq : ofJson body.coerce = some req) (msg : Bytes) :
    Server.handleRPC ofJson toJson handle msg n (Lib.Json.print body) =
      ((handle n req).1, Server.writeJSON 200 (toJson (handle n req).2)) := by
  have hdecode := Lib.Json.decode_print body [] Lib.Json.ends_nil
  rw [List.append_nil] at hdecode
  rw [Server.handleRPC, hdecode, Option.bind_some, hreq]

/-- What the caller makes of the text of a response, line break included. -/
theorem HTTPTransport.answer_writeJSON {τ : Type} {ofJson : Value → Option τ} {v : Value} {resp : τ}
    (hresp : ofJson v.coerce = some resp) (path : Bytes) (peer : Peer) :
    HTTPTransport.answer ofJson path peer (Server.writeJSON 200 v) = .ok resp := by
  have hdecode := Lib.Json.decode_print v [10] (Lib.Json.ends_cons (by decide))
  rw [Server.writeJSON, HTTPTransport.answer, if_neg (by decide), hdecode, Option.bind_some, hresp]

/-- **One RPC over HTTP.** -/
theorem rpc_over_http {ρ τ : Type} {ofReq : Value → Option ρ} {toResp : τ → Value}
    {ofResp : Value → Option τ} {handle : RaftNode σ → ρ → RaftNode σ × τ} {n : RaftNode σ} {body : Value}
    {req : ρ} (hreq : ofReq body.coerce = some req)
    (hresp : ofResp (toResp (handle n req).2).coerce = some (handle n req).2)
    (msg path : Bytes) (peer : Peer) :
    (Server.handleRPC ofReq toResp handle msg n (Lib.Json.print body)).1 = (handle n req).1 ∧
      Reply.heard (HTTPTransport.answer ofResp path peer
        (Server.handleRPC ofReq toResp handle msg n (Lib.Json.print body)).2) =
          .answered (handle n req).2 := by
  rw [Server.handleRPC_print hreq]
  refine ⟨rfl, ?_⟩
  rw [HTTPTransport.answer_writeJSON hresp]
  rfl

/-! ## The ids of the answers -/

theorem RaftNode.voterID_handleRequestVote (disk : Disk) (n : RaftNode σ) (req : RequestVoteRequest) :
    (n.handleRequestVote disk req).2.voterID = n.id := by
  unfold RaftNode.handleRequestVote
  split
  · rfl
  · have hid : (if req.term > n.currentTerm then n.becomeFollower (disk 0) req.term else n).id = n.id := by
      split <;> rfl
    dsimp only
    generalize (if req.term > n.currentTerm then n.becomeFollower (disk 0) req.term else n) = m at hid ⊢
    split
    · exact hid
    · split <;> exact hid

theorem RaftNode.followerID_handleAppendEntries (disk : Disk) (n : RaftNode σ)
    (req : AppendEntriesRequest) : (n.handleAppendEntries disk req).2.followerID = n.id := by
  have hcases := RaftNode.received disk n req
  generalize n.handleAppendEntries disk req = r at hcases ⊢
  cases hcases with
  | stale _ => rfl
  | rejected hm _ => exact hm.identity.1
  | failed hm _ _ => exact hm.identity.1
  | done hm _ _ => exact hm.identity.1

theorem RaftNode.followerID_handleInstallSnapshot (E : Engine σ) (disk : Disk) (n : RaftNode σ)
    (req : InstallSnapshotRequest) : (n.handleInstallSnapshot E disk req).2.followerID = n.id := by
  have hcases := Cluster.installed E disk n req
  generalize n.handleInstallSnapshot E disk req = r at hcases ⊢
  cases hcases <;> rfl

theorem isIndex_of_lt {b k : Nat} (hb : b + 1 < 2 ^ 64) (hk : k ≤ b + 1) : IsIndex k :=
  lt_of_le_of_lt hk hb

theorem isIndex_of_le {b k : Nat} (hb : b + 1 < 2 ^ 64) (hk : k ≤ b) : IsIndex k :=
  isIndex_of_lt hb (hk.trans (Nat.le_succ b))

namespace Cluster

variable {E : Engine σ} {M : Membership} {s : Cluster σ} {store : NodeID → σ} {threshold : NodeID → Int}
  {ok : Cluster σ → Step → Prop} {past : List (Cluster σ × Step)}

/-! ## What is on its way -/

/-- The requests name members and go to members. -/
structure Addressed (M : Membership) (s : Cluster σ) : Prop where
  vote : ∀ c ∈ s.voteCalls, c.req.candidateID ∈ M.ids ∧ c.dst ∈ M.ids
  append : ∀ c ∈ s.appendCalls, c.req.leaderID ∈ M.ids ∧ c.dst ∈ M.ids
  snapshot : ∀ c ∈ s.snapshotCalls, c.req.leaderID ∈ M.ids ∧ c.dst ∈ M.ids

theorem Reaches.addressed (h : Reaches E M store threshold ok past s) : Addressed M s where
  vote c hc := by
    obtain ⟨hsrc, hdst, hid⟩ := h.voteCall_ends hc
    rw [hid]
    exact ⟨hsrc, (mem_peers hsrc hdst).1⟩
  append c hc := by
    obtain ⟨hsrc, hdst⟩ := h.appendCall_ends hc
    rw [(h.appendCall_led hc).2]
    exact ⟨hsrc, (mem_peers hsrc hdst).1⟩
  snapshot c hc := by
    obtain ⟨hled, hid, hdst, _⟩ := h.snapshotCall_led hc
    rw [hid]
    exact ⟨h.ledTerm_mem hled, hdst⟩

/-- A proposed op is the one that its string names. In the source it is the string. -/
def ProperProposal (_ : Cluster σ) (st : Step) : Prop :=
  match st.action? with
  | some (.propose _ cmd) => cmd.op.Proper
  | _ => True

instance (s : Cluster σ) (st : Step) : Decidable (ProperProposal s st) :=
  decidable_of_iff ((match st.action? with
    | some (.propose _ cmd) => decide cmd.op.Proper
    | _ => true) = true) (by unfold ProperProposal; split <;> simp)

/-- The commands of the logs and of the requests: their ops are known by their strings, and their texts give
them back. -/
theorem Reaches.commands_written (hproper : ∀ s st, ok s st → ProperProposal s st)
    (h : Reaches E M store threshold ok past s) :
    (∀ i k e, (s.node i).raftLog.get k = some e → e.command.op.Proper ∧ e.command.stored = e.command) ∧
      ∀ c ∈ s.appendCalls, ∀ e ∈ c.req.entries, e.command.op.Proper ∧ e.command.stored = e.command := by
  refine Reaches.forall_command (P := fun c => c.op.Proper ∧ c.stored = c) ?_ (by decide) ?_ h
  · exact fun c hc => ⟨hc.1.stored, c.stored_stored⟩
  · intro s st i c hok hst
    have hop := hproper s st hok
    unfold ProperProposal at hop
    rw [hst] at hop
    exact ⟨hop.stored, c.stored_stored⟩

/-! ## The same steps -/

section Same

variable (hproper : ∀ s st, ok s st → ProperProposal s st)
  (h : Reaches E M store threshold ok past s) (hlen : past.length + 1 < 2 ^ 64)
include h hlen

/-- RequestVote. -/
theorem Reaches.vote_over_http {c : VoteCall} (hc : c ∈ s.voteCalls) (msg : Bytes) (disk : Disk) :
    (Server.handleRequestVote disk msg (s.node c.dst) (Lib.Json.print c.req.toJson)).1 =
        ((s.node c.dst).handleRequestVote disk c.req).1 ∧
      Reply.heard (HTTPTransport.requestVote ⟨c.dst⟩
        (Server.handleRequestVote disk msg (s.node c.dst) (Lib.Json.print c.req.toJson)).2) =
          .answered ((s.node c.dst).handleRequestVote disk c.req).2 := by
  obtain ⟨hid, hdst⟩ := h.addressed.vote c hc
  have hcount := (h.counted.voteCalls c hc).1
  have hreq : c.req.Writable :=
    ⟨isIndex_of_le hlen hcount.term, M.utf8 _ hid, isIndex_of_le hlen hcount.lastLogIndex,
      isIndex_of_le hlen hcount.lastLogTerm⟩
  have hresp : ((s.node c.dst).handleRequestVote disk c.req).2.Writable := by
    refine ⟨isIndex_of_le hlen ((h.counted.node c.dst).handleRequestVote hcount).2, ?_⟩
    rw [RaftNode.voterID_handleRequestVote, (h.identity c.dst).1]
    exact M.utf8 _ hdst
  exact rpc_over_http (RequestVoteRequest.ofJson_toJson hreq) (RequestVoteResponse.ofJson_toJson hresp) _ _ _

/-- InstallSnapshot. -/
theorem Reaches.snapshot_over_http {c : SnapshotCall} (hc : c ∈ s.snapshotCalls) (w : Wording)
    (disk : Disk) :
    (Server.handleInstallSnapshot E disk w.msg (s.node c.dst)
        (Lib.Json.print (c.req.toJson w.isNil))).1 =
          ((s.node c.dst).handleInstallSnapshot E disk c.req).1 ∧
      Reply.heard (HTTPTransport.installSnapshot ⟨c.dst⟩ (Server.handleInstallSnapshot E disk w.msg
        (s.node c.dst) (Lib.Json.print (c.req.toJson w.isNil))).2) =
          .answered ((s.node c.dst).handleInstallSnapshot E disk c.req).2 := by
  obtain ⟨hid, hdst⟩ := h.addressed.snapshot c hc
  have hcount := (h.counted.snapshotCalls c hc).1
  have hreq : c.req.Writable :=
    ⟨isIndex_of_le hlen hcount.term, M.utf8 _ hid, isIndex_of_le hlen hcount.lastIncludedIndex,
      isIndex_of_le hlen hcount.lastIncludedTerm⟩
  have hresp : ((s.node c.dst).handleInstallSnapshot E disk c.req).2.Writable := by
    refine ⟨isIndex_of_le hlen ((h.counted.node c.dst).handleInstallSnapshot E hcount).2, ?_⟩
    rw [RaftNode.followerID_handleInstallSnapshot, (h.identity c.dst).1]
    exact M.utf8 _ hdst
  exact rpc_over_http (InstallSnapshotRequest.ofJson_toJson hreq _)
    (InstallSnapshotResponse.ofJson_toJson hresp) _ _ _

include hproper

/-- AppendEntries. -/
theorem Reaches.append_over_http {c : AppendCall} (hc : c ∈ s.appendCalls) (w : Wording) (disk : Disk) :
    (Server.handleAppendEntries disk w.msg (s.node c.dst) (Lib.Json.print (c.req.toJson w.isNil))).1 =
        ((s.node c.dst).handleAppendEntries disk c.req).1 ∧
      Reply.heard (HTTPTransport.appendEntries ⟨c.dst⟩ (Server.handleAppendEntries disk w.msg
        (s.node c.dst) (Lib.Json.print (c.req.toJson w.isNil))).2) =
          .answered ((s.node c.dst).handleAppendEntries disk c.req).2 := by
  obtain ⟨hid, hdst⟩ := h.addressed.append c hc
  have hcount := (h.counted.appendCalls c hc).1
  have hreq : c.req.Writable := by
    refine ⟨isIndex_of_le hlen hcount.term, M.utf8 _ hid, isIndex_of_le hlen hcount.prevLogIndex,
      isIndex_of_le hlen hcount.prevLogTerm, fun e he => ?_, isIndex_of_le hlen hcount.leaderCommit⟩
    obtain ⟨hop, hstored⟩ := (h.commands_written hproper).2 c hc e he
    have hnumbers := hcount.entries e he
    refine ⟨⟨isIndex_of_le hlen hnumbers.index, isIndex_of_le hlen hnumbers.term, hop⟩, ?_⟩
    rw [LogEntry.stored, hstored]
  have hresp : ((s.node c.dst).handleAppendEntries disk c.req).2.Writable := by
    have hcount' : ((s.node c.dst).handleAppendEntries disk c.req).2.Counted _ :=
      ((h.counted.node c.dst).handleAppendEntries hcount).2
    refine ⟨isIndex_of_lt hlen hcount'.term, ?_, isIndex_of_lt hlen hcount'.matchIndex,
      isIndex_of_lt hlen hcount'.conflictIndex, isIndex_of_lt hlen hcount'.conflictTerm⟩
    rw [RaftNode.followerID_handleAppendEntries, (h.identity c.dst).1]
    exact M.utf8 _ hdst
  exact rpc_over_http (AppendEntriesRequest.ofJson_toJson hreq _)
    (AppendEntriesResponse.ofJson_toJson hresp) _ _ _

theorem Reaches.execHttp_eq (w : Wording) (disk : Disk) (a : Action) :
    s.execHttp E M w disk a = s.exec E M disk a := by
  cases a with
  | handleVote k =>
    rw [execHttp, exec]
    cases hk : s.voteCalls[k]? with
    | none => rfl
    | some c =>
      have hrpc := h.vote_over_http hlen (List.mem_of_getElem? hk) w.msg disk
      obtain ⟨src, dst, req, reply, waiting⟩ := c
      cases reply with
      | pending =>
        dsimp only at hrpc ⊢
        rw [hrpc.1, hrpc.2]
      | answered _ => rfl
      | lost => rfl
  | handleAppend k =>
    rw [execHttp, exec]
    cases hk : s.appendCalls[k]? with
    | none => rfl
    | some c =>
      have hrpc := h.append_over_http hproper hlen (List.mem_of_getElem? hk) w disk
      obtain ⟨src, dst, req, reply, waiting⟩ := c
      cases reply with
      | pending =>
        dsimp only at hrpc ⊢
        rw [hrpc.1, hrpc.2]
      | answered _ => rfl
      | lost => rfl
  | handleSnapshot k =>
    rw [execHttp, exec]
    cases hk : s.snapshotCalls[k]? with
    | none => rfl
    | some c =>
      have hrpc := h.snapshot_over_http hlen (List.mem_of_getElem? hk) w disk
      obtain ⟨src, dst, req, reply, waiting⟩ := c
      cases reply with
      | pending =>
        dsimp only at hrpc ⊢
        rw [hrpc.1, hrpc.2]
      | answered _ => rfl
      | lost => rfl
  | _ => rfl

/-- The step functions agree on reachable states. -/
theorem Reaches.stepHttp_eq (x : Step × Wording) : s.stepHttp E M x = s.step E M x.1 := by
  obtain ⟨st, w⟩ := x
  cases st with
  | act disk a => exact h.execHttp_eq hproper hlen w disk a
  | crashDuring a cut =>
    have hexec := h.execHttp_eq hproper hlen w (upTo cut) a
    unfold stepHttp step
    dsimp only
    generalize s.execHttp E M w (upTo cut) a = r at hexec ⊢
    subst hexec
    rfl
  | crash i => rfl
  | applyRead disk i k reads => rfl

end Same

/-- **The runs over HTTP are the runs of the cluster**, whatever the texts leave open. -/
theorem httpReaches_iff (hproper : ∀ s st, ok s st → ProperProposal s st)
    {past : List (Cluster σ × (Step × Wording))} (hlen : past.length < 2 ^ 64) :
    HttpReaches E M store threshold (fun s x => ok s x.1) past s ↔
      Reaches E M store threshold ok (past.map fun x => (x.1, x.2.1)) s :=
  Lib.Run.relabel (n := 2 ^ 64 - 1)
    (fun _ _ x hr hlt => Reaches.stepHttp_eq hproper hr (by omega) x) (by omega)

open Shipped (node1 node2 termOne) in
/-- A leader's `PUT` reaches `node-2` and is acknowledged. -/
theorem httpReaches_putAcknowledged :
    let r := Shipped.play ProperProposal
      (termOne ++ [.replicate node1 node2, .handleAppend 0, .appendReturn 0])
    let past := r.1.map fun x => (x.1, x.2, (⟨true, []⟩ : Wording))
    HttpReaches Shipped.engine Shipped.membership (fun _ => .empty) (fun _ => 10000)
        (fun s x => ProperProposal s x.1 ∧ DiskOk s x.1) past r.2 ∧
      past.length = 9 ∧ (r.2.node node1).commitIndex = 2 ∧
      (r.2.node node2).raftLog.get 2 = some ⟨2, 1, ⟨.put, [1], [1], []⟩⟩ := by
  intro r past
  have hlength : past.length = 9 := by decide +kernel
  have hproper : ∀ (s : Cluster BoltEngine) st, ProperProposal s st ∧ DiskOk s st → ProperProposal s st :=
    fun _ _ hok => hok.1
  refine ⟨(httpReaches_iff hproper (by omega)).mpr ?_, hlength, by decide +kernel, by decide +kernel⟩
  have hpast : (past.map fun x => (x.1, x.2.1)) = r.1 := by
    rw [List.map_map]
    exact List.map_id r.1
  rw [hpast]
  exact Shipped.reaches_play ProperProposal _

end Cluster

end Raftrix
