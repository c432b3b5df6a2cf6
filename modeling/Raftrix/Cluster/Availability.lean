import Mathlib.Data.Finset.Max
import Mathlib.Data.Prod.Lex
import Raftrix.Cluster.ElectionSafety
import Raftrix.Cluster.Leadership

/-!
# A leader can always be elected

No reachable state is a dead end: whatever disks, messages and crashes have done before, from every state of
a cluster of two or more nodes there is a way on, with working disks and without a crash, to a leader whose
term no member exceeds (**`leader_possible_iff`**). The way is the one the code takes:

* every running `startElection` gives up its calls and returns (`Goes.idle`);
* of the members, one with a log at least as up to date as every other is the candidate. If it leads in a
  term that a member has left behind, an answer of that member makes it step down (`Goes.stepDown`);
* it starts elections that nobody answers until its next term is new to all (`Goes.bump`), and then one that
  all peers answer, which grant their votes (`Goes.canvass`).

In a cluster of one node the way is closed: `startElection` only looks at `votes` in the goroutine of a peer,
so a node without peers never becomes leader (`Reaches.alone`).
-/

namespace Raftrix

theorem modify_append_length {α : Type} (f : α → α) (l : List α) (a : α) (r : List α) :
    (l ++ a :: r).modify l.length f = l ++ f a :: r := by
  have h := List.modifyTailIdx_add (List.modifyHead f) 0 l (a :: r)
  exact h

/-! ## A vote -/

namespace RaftNode

variable {σ : Type} {n : RaftNode σ}

/-- The log order of `HandleRequestVote`: a newer last term, or the same and at least as long. -/
def upToDate (rl : RaftLog) : Nat ×ₗ Nat := toLex (rl.lastTerm, rl.lastIndex)

theorem candidateUpToDate_iff {rl : RaftLog} {req : RequestVoteRequest} :
    candidateUpToDate rl req ↔ upToDate rl ≤ toLex (req.lastLogTerm, req.lastLogIndex) := by
  unfold candidateUpToDate upToDate
  rw [Prod.Lex.toLex_le_toLex]
  exact or_congr Iff.rfl (and_congr eq_comm Iff.rfl)

theorem upToDate_saveMeta (ok : Bool) (rl : RaftLog) (term : Nat) (vote : NodeID) :
    upToDate (rl.saveMeta ok term vote) = upToDate rl := by
  cases ok <;> rfl

/-- A request of a newer term from a candidate that is up to date gets the vote. -/
theorem vote_granted (disk : Disk) {req : RequestVoteRequest} (hterm : n.currentTerm < req.term)
    (hup : upToDate n.raftLog ≤ toLex (req.lastLogTerm, req.lastLogIndex)) :
    (n.handleRequestVote disk req).2.voteGranted = true ∧
      (n.handleRequestVote disk req).2.term = req.term ∧
      (n.handleRequestVote disk req).1.currentTerm = req.term := by
  have hcand : candidateUpToDate (n.becomeFollower (disk 0) req.term).raftLog req := by
    rw [candidateUpToDate_iff]
    exact (upToDate_saveMeta _ _ _ _).le.trans hup
  unfold handleRequestVote
  rw [if_neg (by omega), if_pos hterm]
  dsimp only
  rw [if_neg (by simp [becomeFollower]), if_neg (not_not.mpr hcand)]
  exact ⟨rfl, rfl, rfl⟩

end RaftNode

namespace Cluster

variable {σ : Type} {E : Engine σ} {M : Membership} {s s' s₀ : Cluster σ} {i j : NodeID}
  {store : NodeID → σ} {threshold : NodeID → Int} {ok : Cluster σ → Step → Prop}
  {past : List (Cluster σ × Step)}

/-- A disk that works. -/
def written : Disk := fun _ => true

/-- Critical sections on working disks, one after another. -/
def Goes (E : Engine σ) (M : Membership) : Cluster σ → Cluster σ → Prop :=
  Relation.ReflTransGen fun s s' => ∃ a, s.exec E M written a = some s'

theorem Goes.single {a : Action} (h : s.exec E M written a = some s') : Goes E M s s' :=
  Relation.ReflTransGen.single ⟨a, h⟩

theorem Goes.trans {s'' : Cluster σ} (h : Goes E M s s') (h' : Goes E M s' s'') : Goes E M s s'' :=
  Relation.ReflTransGen.trans h h'

/-- The run goes on. -/
theorem Reaches.goes (h : Reaches E M store threshold ok past s) (hgoes : Goes E M s s') :
    ∃ past', Reaches E M store threshold (fun _ _ => True) past' s' := by
  induction hgoes with
  | refl => exact ⟨past, h.mono fun _ _ _ => trivial⟩
  | tail _ hstep ih =>
    obtain ⟨past', hr⟩ := ih
    obtain ⟨a, ha⟩ := hstep
    exact ⟨_, .next hr trivial (show step E M _ (.act written a) = _ from ha)⟩

/-- Nothing but node `j` and its election have changed. -/
def OnlyAt (j : NodeID) (s s' : Cluster σ) : Prop :=
  ∀ i, i ≠ j → s'.node i = s.node i ∧ s'.election i = s.election i

theorem OnlyAt.trans {s'' : Cluster σ} (h : OnlyAt j s s') (h' : OnlyAt j s' s'') : OnlyAt j s s'' :=
  fun i hi => ⟨((h' i hi).1).trans (h i hi).1, ((h' i hi).2).trans (h i hi).2⟩

/-! ## Elections come to an end -/

/-- The calls of `startElection` time out, one after another. -/
theorem Goes.settle (s : Cluster σ) (j : NodeID) : ∀ m : Nat,
    ∃ calls : Calls RequestVoteRequest RequestVoteResponse, Goes E M s { s with voteCalls := calls } ∧
      calls.length = s.voteCalls.length ∧
      ∀ (k : Nat) (c : VoteCall), k < m → calls[k]? = some c → c.src = j → c.waiting = false
  | 0 => ⟨s.voteCalls, .refl, rfl, fun _ _ hk => absurd hk (Nat.not_lt_zero _)⟩
  | m + 1 => by
    obtain ⟨calls, hgoes, hlen, hdone⟩ := Goes.settle s j m
    cases hm : calls[m]? with
    | none =>
      refine ⟨calls, hgoes, hlen, fun k c hk hc hsrc => ?_⟩
      rcases Nat.lt_succ_iff_lt_or_eq.mp hk with hlt | rfl
      · exact hdone k c hlt hc hsrc
      · rw [hm] at hc
        cases hc
    | some c =>
      obtain ⟨src, dst, req, reply, waiting⟩ := c
      cases waiting with
      | false =>
        refine ⟨calls, hgoes, hlen, fun k c hk hc hsrc => ?_⟩
        rcases Nat.lt_succ_iff_lt_or_eq.mp hk with hlt | rfl
        · exact hdone k c hlt hc hsrc
        · rw [hm] at hc
          rw [← Option.some.inj hc]
      | true =>
        have hfail : ({ s with voteCalls := calls } : Cluster σ).exec E M written (.voteFail m) =
            some { s with voteCalls := calls.settle m } := by
          simp only [exec, hm]
        refine ⟨calls.settle m, hgoes.trans (.single hfail), ?_, fun k c hk hc hsrc => ?_⟩
        · exact (List.length_modify _ _ _).trans hlen
        · obtain ⟨c', hc', ⟨_, rfl⟩ | ⟨hne, rfl⟩⟩ := Calls.getElem?_modify_cases hc
          · rfl
          · exact hdone k c (by omega) hc' hsrc

/-- **`startElection` can return.** -/
theorem Goes.finish {el : RaftNode.Election} (hel : s.election j = some el) :
    ∃ s', Goes E M s s' ∧ s'.election j = none ∧ OnlyAt j s s' ∧
      s'.node j = if el.won then (s.node j).becomeLeader written else s.node j := by
  obtain ⟨calls, hgoes, hlen, hdone⟩ := Goes.settle (E := E) (M := M) s j s.voteCalls.length
  have hquiet : (calls.any fun c => decide (c.src = j) && c.waiting) = false := by
    rw [List.any_eq_false]
    intro c hc
    obtain ⟨k, hk⟩ := List.mem_iff_getElem?.mp hc
    have hlt : k < s.voteCalls.length := by
      rw [← hlen]
      exact (List.getElem?_eq_some_iff.mp hk).1
    by_cases hsrc : c.src = j
    · simp [hdone k c hlt hk hsrc]
    · simp [hsrc]
  have hfin : ({ s with voteCalls := calls } : Cluster σ).exec E M written (.finishElection j) =
      some (({ s with voteCalls := calls } : Cluster σ).endElection written j el) := by
    simp only [exec, hel, hquiet]
    rfl
  refine ⟨_, hgoes.trans (.single hfin), setElection_self _ _ _, fun i hi => ⟨?_, ?_⟩, ?_⟩
  · unfold endElection
    split
    · exact setNode_other _ _ _ hi
    · rfl
  · refine (setElection_other _ _ _ hi).trans ?_
    split <;> rfl
  · unfold endElection
    split
    · exact setNode_self _ _ _
    · rfl

/-- Every `startElection` of the listed nodes has returned. -/
theorem Goes.idle (s : Cluster σ) : ∀ ids : List NodeID,
    ∃ s', Goes E M s s' ∧ ∀ i ∈ ids, s'.election i = none
  | [] => ⟨s, .refl, fun _ h => absurd h List.not_mem_nil⟩
  | j :: ids => by
    obtain ⟨s', hgoes, hidle⟩ := Goes.idle s ids
    cases hel : s'.election j with
    | none =>
      refine ⟨s', hgoes, fun i hi => ?_⟩
      rcases List.mem_cons.mp hi with rfl | hi
      · exact hel
      · exact hidle i hi
    | some el =>
      obtain ⟨s'', hgoes', hnone, honly, _⟩ := Goes.finish (E := E) (M := M) hel
      refine ⟨s'', hgoes.trans hgoes', fun i hi => ?_⟩
      by_cases hij : i = j
      · rw [hij]
        exact hnone
      · rw [(honly i hij).2]
        exact hidle i ((List.mem_cons.mp hi).resolve_left hij)

/-- An election that nobody answers: the term is one higher, the log and everything else as before. -/
theorem Goes.bumpOne (hj : j ∈ M.ids) (hrole : (s.node j).state ≠ .leader) (hfree : s.election j = none) :
    ∃ s', Goes E M s s' ∧ s'.election j = none ∧ OnlyAt j s s' ∧
      s'.node j = ((s.node j).startElection written).1 := by
  have htimeout : s.exec E M written (.electionTimeout j) = some (s.timeout written j) := by
    rw [exec, if_pos ⟨hj, hrole, hfree⟩]
  have hel : (s.timeout written j).election j = some ⟨(s.node j).currentTerm + 1, 1, false⟩ :=
    setElection_self _ _ _
  obtain ⟨s', hgoes, hnone, honly, hnode⟩ := Goes.finish (E := E) (M := M) hel
  have hstart : OnlyAt j s (s.timeout written j) :=
    fun i hi => ⟨setNode_other _ _ _ hi, setElection_other _ _ _ hi⟩
  refine ⟨s', (Goes.single htimeout).trans hgoes, hnone, hstart.trans honly, hnode.trans ?_⟩
  exact setNode_self _ _ _

/-- **The term can rise by any amount.** -/
theorem Goes.bump (hj : j ∈ M.ids) (hrole : (s.node j).state ≠ .leader) (hfree : s.election j = none) :
    ∀ m : Nat, ∃ s', Goes E M s s' ∧ s'.election j = none ∧ OnlyAt j s s' ∧
      (s'.node j).state ≠ .leader ∧ (s'.node j).currentTerm = (s.node j).currentTerm + m ∧
      RaftNode.upToDate (s'.node j).raftLog = RaftNode.upToDate (s.node j).raftLog
  | 0 => ⟨s, .refl, hfree, fun _ _ => ⟨rfl, rfl⟩, hrole, rfl, rfl⟩
  | m + 1 => by
    obtain ⟨s', hgoes, hfree', honly, hrole', hterm, hlog⟩ := Goes.bump hj hrole hfree m
    obtain ⟨s'', hgoes', hfree'', honly', hnode⟩ := Goes.bumpOne (E := E) hj hrole' hfree'
    refine ⟨s'', hgoes.trans hgoes', hfree'', honly.trans honly', ?_, ?_, ?_⟩
    · rw [hnode]
      simp [RaftNode.startElection]
    · rw [hnode]
      exact congrArg (· + 1) hterm
    · rw [hnode, ← hlog]
      exact RaftNode.upToDate_saveMeta _ _ _ _

/-! ## A leader of an old term steps down -/

/-- The calls after a call has been sent, handled and settled. -/
theorem getElem?_send {ρ τ : Type} (calls : Calls ρ τ) (src dst : NodeID) (req : ρ) :
    (calls.send src dst req)[calls.length]? = some ⟨src, dst, req, .pending, true⟩ := by
  simp [Calls.send]

theorem getElem?_setReply_send {ρ τ : Type} (calls : Calls ρ τ) (src dst : NodeID) (req : ρ)
    (reply : Reply τ) : ((calls.send src dst req).setReply calls.length reply)[calls.length]? =
      some ⟨src, dst, req, reply, true⟩ := by
  rw [Calls.send, Calls.setReply, modify_append_length]
  simp

/-- The term of a request. -/
def requestTerm : RaftNode.PeerRequest → Nat
  | .appendEntries req => req.term
  | .installSnapshot req => req.term

theorem requestTerm_peerRequest (n : RaftNode σ) (ls : LeaderState) (peer : NodeID) :
    requestTerm (n.peerRequest ls peer) = n.currentTerm := by
  unfold RaftNode.peerRequest
  dsimp only
  split <;> rfl

theorem node_setNode_same {p : NodeID} {n : RaftNode σ} (hi : i ≠ j) :
    ((s.setNode p (s.node p)).setNode j n).node i = s.node i := by
  refine (setNode_other _ _ _ hi).trans ?_
  by_cases hip : i = p
  · rw [hip]
    exact setNode_self _ _ _
  · exact setNode_other _ _ _ hip

/-- The round trip of an AppendEntries request that is stale where it arrives. -/
theorem Goes.staleAppend {p : NodeID} {req : AppendEntriesRequest} (hne : p ≠ j)
    (hl : (s.node j).state = .leader) (hreq : req.term < (s.node p).currentTerm)
    (hterm : (s.node j).currentTerm < (s.node p).currentTerm) :
    ∃ s', Goes E M { s with appendCalls := s.appendCalls.send j p req } s' ∧ OnlyAt j s s' ∧
      s'.election j = s.election j ∧
      s'.node j = (s.node j).becomeFollower true (s.node p).currentTerm := by
  let resp : AppendEntriesResponse := { followerID := (s.node p).id, term := (s.node p).currentTerm }
  let calls := (s.appendCalls.send j p req).setReply s.appendCalls.length (.answered resp)
  have hhandle : ({ s with appendCalls := s.appendCalls.send j p req } : Cluster σ).exec E M written
      (.handleAppend s.appendCalls.length) = some { s.setNode p (s.node p) with appendCalls := calls } := by
    simp only [exec, getElem?_send, RaftNode.handleAppendEntries, if_pos hreq]
    rfl
  have hresponse : (s.node j).appendResponse written p resp =
      some ((s.node j).becomeFollower true (s.node p).currentTerm) := by
    rw [RaftNode.appendResponse, if_neg (not_not.mpr hl), if_pos hterm]
    rfl
  have hnode : (s.setNode p (s.node p)).node j = s.node j := setNode_other _ _ _ hne.symm
  have hreturn : ({ s.setNode p (s.node p) with appendCalls := calls } : Cluster σ).exec E M written
      (.appendReturn s.appendCalls.length) =
      some { (s.setNode p (s.node p)).setNode j ((s.node j).becomeFollower true (s.node p).currentTerm) with
        appendCalls := calls.settle s.appendCalls.length } := by
    simp only [exec, calls, getElem?_setReply_send, hnode, hresponse]
    rfl
  exact ⟨_, (Goes.single hhandle).trans (.single hreturn), fun i hi => ⟨node_setNode_same hi, rfl⟩, rfl,
    setNode_self _ _ _⟩

/-- The same for an InstallSnapshot request. -/
theorem Goes.staleSnapshot {p : NodeID} {req : InstallSnapshotRequest} (hne : p ≠ j)
    (hreq : req.term < (s.node p).currentTerm)
    (hterm : (s.node j).currentTerm < (s.node p).currentTerm) :
    ∃ s', Goes E M { s with snapshotCalls := s.snapshotCalls.send j p req } s' ∧ OnlyAt j s s' ∧
      s'.election j = s.election j ∧
      s'.node j = (s.node j).becomeFollower true (s.node p).currentTerm := by
  let resp : InstallSnapshotResponse := { followerID := (s.node p).id, term := (s.node p).currentTerm }
  let calls := (s.snapshotCalls.send j p req).setReply s.snapshotCalls.length (.answered resp)
  have hhandle : ({ s with snapshotCalls := s.snapshotCalls.send j p req } : Cluster σ).exec E M written
      (.handleSnapshot s.snapshotCalls.length) =
      some { s.setNode p (s.node p) with snapshotCalls := calls } := by
    simp only [exec, getElem?_send, RaftNode.handleInstallSnapshot, if_pos hreq]
    rfl
  have hresponse : (s.node j).snapshotResponse written p req.lastIncludedIndex resp =
      some ((s.node j).becomeFollower true (s.node p).currentTerm) := by
    rw [RaftNode.snapshotResponse, if_pos hterm]
    rfl
  have hnode : (s.setNode p (s.node p)).node j = s.node j := setNode_other _ _ _ hne.symm
  have hreturn : ({ s.setNode p (s.node p) with snapshotCalls := calls } : Cluster σ).exec E M written
      (.snapshotReturn s.snapshotCalls.length) =
      some { (s.setNode p (s.node p)).setNode j ((s.node j).becomeFollower true (s.node p).currentTerm) with
        snapshotCalls := calls.settle s.snapshotCalls.length } := by
    simp only [exec, calls, getElem?_setReply_send, hnode, hresponse]
    rfl
  exact ⟨_, (Goes.single hhandle).trans (.single hreturn), fun i hi => ⟨node_setNode_same hi, rfl⟩, rfl,
    setNode_self _ _ _⟩

/-- **A request to a member of a newer term ends the leadership.** -/
theorem Goes.stepDown {p : NodeID} {ls : LeaderState} (hj : j ∈ M.ids)
    (hp : p ∈ (s.node j).peers.map Peer.id) (hne : p ≠ j) (hl : (s.node j).state = .leader)
    (hls : (s.node j).leader = some ls) (hterm : (s.node j).currentTerm < (s.node p).currentTerm) :
    ∃ s', Goes E M s s' ∧ OnlyAt j s s' ∧ s'.election j = s.election j ∧
      s'.node j = (s.node j).becomeFollower true (s.node p).currentTerm := by
  have hsend : s.exec E M written (.replicate j p) = some (s.sendTo j p ls) := by
    rw [exec, if_pos ⟨hj, hp, hl⟩, hls]
  have hreq := (requestTerm_peerRequest (s.node j) ls p).trans_lt hterm
  unfold sendTo at hsend
  cases hkind : (s.node j).peerRequest ls p with
  | appendEntries req =>
    rw [hkind] at hsend hreq
    obtain ⟨s', hgoes, hrest⟩ := Goes.staleAppend (E := E) (M := M) hne hl hreq hterm
    exact ⟨s', (Goes.single hsend).trans hgoes, hrest⟩
  | installSnapshot req =>
    rw [hkind] at hsend hreq
    obtain ⟨s', hgoes, hrest⟩ := Goes.staleSnapshot (E := E) (M := M) hne hreq hterm
    exact ⟨s', (Goes.single hsend).trans hgoes, hrest⟩

/-! ## All peers vote -/

/-- The request of an election that starts in `s`. -/
def voteRequest (s : Cluster σ) (j : NodeID) : RequestVoteRequest := ((s.node j).startElection written).2

/-- The election of `j`, started in `s₀`, in the state `s`: the peers `voted` have granted their votes, the
requests to the peers `rest` are on their way. -/
structure Canvass (s₀ : Cluster σ) (j : NodeID) (voted rest : List Peer) (s : Cluster σ) : Prop where
  calls : ∃ old : Calls RequestVoteRequest RequestVoteResponse,
    s.voteCalls = old ++ rest.map (fun p => ⟨j, p.id, voteRequest s₀ j, .pending, true⟩) ∧
      ∀ c ∈ old, c.src = j → c.waiting = false
  election : ∃ won, s.election j = some ⟨(voteRequest s₀ j).term, 1 + voted.length, won⟩ ∧
    (voted ≠ [] → (s₀.node j).quorum ≤ 1 + voted.length → won = true)
  candidate : s.node j = ((s₀.node j).startElection written).1
  waiting : ∀ p ∈ rest, s.node p.id = s₀.node p.id
  voters : ∀ p ∈ voted, (s.node p.id).currentTerm = (voteRequest s₀ j).term

/-- One peer grants its vote. -/
theorem Canvass.next {voted rest : List Peer} {p : Peer} (h : Canvass s₀ j voted (p :: rest) s)
    (hne : p.id ≠ j) (hrest : ∀ q ∈ rest, q.id ≠ p.id ∧ q.id ≠ j)
    (hvoted : ∀ q ∈ voted, q.id ≠ p.id ∧ q.id ≠ j)
    (hterm : (s₀.node p.id).currentTerm < (voteRequest s₀ j).term)
    (hup : RaftNode.upToDate (s₀.node p.id).raftLog ≤ RaftNode.upToDate (s₀.node j).raftLog) :
    ∃ s', Goes E M s s' ∧ Canvass s₀ j (voted ++ [p]) rest s' := by
  obtain ⟨old, hcalls, hold⟩ := h.calls
  obtain ⟨won, hel, hwon⟩ := h.election
  have hsame := h.waiting p List.mem_cons_self
  obtain ⟨hgranted, hrespTerm, hafter⟩ :=
    RaftNode.vote_granted (n := s₀.node p.id) written hterm hup
  let asks : List VoteCall := rest.map fun p => ⟨j, p.id, voteRequest s₀ j, .pending, true⟩
  let r := (s₀.node p.id).handleRequestVote written (voteRequest s₀ j)
  let el : RaftNode.Election := ⟨(voteRequest s₀ j).term, 1 + voted.length + 1,
    won || decide ((s₀.node j).quorum ≤ 1 + voted.length + 1)⟩
  -- the peer handles the request
  let s₁ : Cluster σ := { s.setNode p.id r.1 with
    voteCalls := old ++ ⟨j, p.id, voteRequest s₀ j, .answered r.2, true⟩ :: asks }
  have hk : s.voteCalls[old.length]? = some ⟨j, p.id, voteRequest s₀ j, .pending, true⟩ := by
    rw [hcalls]
    simp
  have hhandle : s.exec E M written (.handleVote old.length) = some s₁ := by
    simp only [exec, hk, hsame]
    rw [hcalls, List.map_cons, Calls.setReply, modify_append_length]
  -- the candidate counts the answer
  have hnode : s₁.node j = ((s₀.node j).startElection written).1 :=
    (setNode_other _ _ _ hne.symm).trans h.candidate
  have hresponse : (s₁.node j).voteResponse written
      ⟨(voteRequest s₀ j).term, 1 + voted.length, won⟩ r.2 = (s₁.node j, el) := by
    have hold : ¬ r.2.term > (s₁.node j).currentTerm := by
      rw [hrespTerm, hnode]
      exact Nat.lt_irrefl _
    rw [RaftNode.voteResponse, if_neg hold, if_pos hgranted, hnode]
    rfl
  have hreturn : s₁.exec E M written (.voteReturn old.length) =
      some { (s₁.setNode j (s₁.node j)).setElection j (some el) with
        voteCalls := (old ++ [⟨j, p.id, voteRequest s₀ j, .answered r.2, false⟩]) ++ asks } := by
    have hk₁ : s₁.voteCalls[old.length]? = some ⟨j, p.id, voteRequest s₀ j, .answered r.2, true⟩ := by
      simp [s₁]
    have hel₁ : s₁.election j = some ⟨(voteRequest s₀ j).term, 1 + voted.length, won⟩ := hel
    simp only [exec, hk₁, hel₁, hresponse]
    rw [Calls.settle, modify_append_length, List.append_assoc]
    rfl
  refine ⟨_, (Goes.single hhandle).trans (.single hreturn), ⟨_, rfl, ?_⟩, ⟨el.won, ?_, ?_⟩, ?_,
    ?_, ?_⟩
  · intro c hc hsrc
    rcases List.mem_append.mp hc with hc | hc
    · exact hold c hc hsrc
    · rw [List.mem_singleton.mp hc]
  · rw [List.length_append]
    exact setElection_self _ _ _
  · intro _ hquorum
    rw [List.length_append] at hquorum
    exact Bool.or_eq_true_iff.mpr (Or.inr (decide_eq_true hquorum))
  · exact (setNode_self _ _ _).trans hnode
  · intro q hq
    obtain ⟨hqp, hqj⟩ := hrest q hq
    refine (setNode_other _ _ _ hqj).trans ((setNode_other _ _ _ hqp).trans ?_)
    exact h.waiting q (List.mem_cons_of_mem _ hq)
  · intro q hq
    rcases List.mem_append.mp hq with hq | hq
    · obtain ⟨hqp, hqj⟩ := hvoted q hq
      refine (congrArg RaftNode.currentTerm ?_).trans (h.voters q hq)
      exact (setNode_other _ _ _ hqj).trans (setNode_other _ _ _ hqp)
    · rw [List.mem_singleton.mp hq]
      refine (congrArg RaftNode.currentTerm ?_).trans hafter
      exact (setNode_other _ _ _ hne).trans (setNode_self _ _ _)

/-- **All peers grant their votes.** -/
theorem Canvass.all (hnodup : ((s₀.node j).peers.map Peer.id).Nodup)
    (hother : ∀ p ∈ (s₀.node j).peers, p.id ≠ j)
    (hterm : ∀ p ∈ (s₀.node j).peers, (s₀.node p.id).currentTerm < (voteRequest s₀ j).term)
    (hup : ∀ p ∈ (s₀.node j).peers,
      RaftNode.upToDate (s₀.node p.id).raftLog ≤ RaftNode.upToDate (s₀.node j).raftLog) :
    ∀ (rest voted : List Peer) (s : Cluster σ), (s₀.node j).peers = voted ++ rest →
      Canvass s₀ j voted rest s → ∃ s', Goes E M s s' ∧ Canvass s₀ j (s₀.node j).peers [] s'
  | [], voted, s, hsplit, h => ⟨s, .refl, by rw [hsplit, List.append_nil]; exact h⟩
  | p :: rest, voted, s, hsplit, h => by
    have hmem : ∀ {q : Peer}, q ∈ voted ∨ q ∈ p :: rest → q ∈ (s₀.node j).peers := by
      intro q hq
      rw [hsplit]
      exact List.mem_append.mpr hq
    have hp := hmem (Or.inr List.mem_cons_self)
    have hsplitIds := hnodup
    rw [hsplit, List.map_append, List.map_cons] at hsplitIds
    obtain ⟨_, hright, hdisj⟩ := List.nodup_append.mp hsplitIds
    have hrest : ∀ q ∈ rest, q.id ≠ p.id ∧ q.id ≠ j := fun q hq =>
      ⟨fun heq => (List.nodup_cons.mp hright).1 (heq ▸ List.mem_map_of_mem hq),
        hother q (hmem (Or.inr (List.mem_cons_of_mem _ hq)))⟩
    have hvoted : ∀ q ∈ voted, q.id ≠ p.id ∧ q.id ≠ j := fun q hq =>
      ⟨hdisj _ (List.mem_map_of_mem hq) _ List.mem_cons_self, hother q (hmem (Or.inl hq))⟩
    obtain ⟨s₁, hgoes, h₁⟩ := h.next (E := E) (M := M) (hother p hp) hrest hvoted (hterm p hp) (hup p hp)
    obtain ⟨s', hgoes', h'⟩ := Canvass.all hnodup hother hterm hup rest (voted ++ [p]) s₁
      (by rw [hsplit, List.append_assoc]; rfl) h₁
    exact ⟨s', hgoes.trans hgoes', h'⟩

/-- **The election is won.** -/
theorem Canvass.won (hpeers : (s₀.node j).peers ≠ []) (h : Canvass s₀ j (s₀.node j).peers [] s) :
    ∃ s', Goes E M s s' ∧ (s'.node j).state = .leader ∧
      (s'.node j).currentTerm = (voteRequest s₀ j).term ∧
      ∀ p ∈ (s₀.node j).peers, p.id ≠ j → (s'.node p.id).currentTerm = (voteRequest s₀ j).term := by
  obtain ⟨won, hel, hwon⟩ := h.election
  have hquorum : (s₀.node j).quorum ≤ 1 + (s₀.node j).peers.length := by
    unfold RaftNode.quorum
    omega
  rw [hwon hpeers hquorum] at hel
  obtain ⟨s', hgoes, _, honly, hnode⟩ := Goes.finish (E := E) (M := M) hel
  rw [if_pos rfl, h.candidate] at hnode
  refine ⟨s', hgoes, ?_, ?_, fun p hp hne => ?_⟩
  · rw [hnode]
    rfl
  · rw [hnode]
    rfl
  · rw [(honly p.id hne).1]
    exact h.voters p hp

/-- **An election that everybody answers.** A node that does not lead, whose term no peer exceeds and whose
log is at least as up to date as that of every peer, can become leader. -/
theorem Reaches.canvass (h : Reaches E M store threshold ok past s) (hsize : 2 ≤ M.ids.length)
    (hj : j ∈ M.ids) (hrole : (s.node j).state ≠ .leader) (hfree : s.election j = none)
    (hterm : ∀ i ∈ M.ids, (s.node i).currentTerm ≤ (s.node j).currentTerm)
    (hup : ∀ i ∈ M.ids, RaftNode.upToDate (s.node i).raftLog ≤ RaftNode.upToDate (s.node j).raftLog) :
    ∃ s', Goes E M s s' ∧ (s'.node j).state = .leader ∧
      ∀ i ∈ M.ids, (s'.node i).currentTerm ≤ (s'.node j).currentTerm := by
  have hpeers := (h.identity j).2
  have hpeer : ∀ {p : Peer}, p ∈ (s.node j).peers → p.id ∈ M.ids ∧ p.id ≠ j := by
    intro p hp
    rw [hpeers] at hp
    exact mem_peers hj (List.mem_map_of_mem hp)
  have hnodup : ((s.node j).peers.map Peer.id).Nodup := by
    rw [hpeers, (M.peers_perm j hj).nodup_iff]
    exact M.nodup.erase j
  have hne : (s.node j).peers ≠ [] := by
    intro hnil
    have hlen := length_peers hj
    rw [← hpeers, hnil, List.length_nil] at hlen
    omega
  have htimeout : s.exec E M written (.electionTimeout j) = some (s.timeout written j) := by
    rw [exec, if_pos ⟨hj, hrole, hfree⟩]
  have hstart : Canvass s j [] (s.node j).peers (s.timeout written j) :=
    { calls := ⟨s.voteCalls, Calls.foldl_send _ _ _ _, fun c hc hsrc => h.idle hfree hc hsrc⟩
      election := ⟨false, setElection_self _ _ _, fun hnil => absurd rfl hnil⟩
      candidate := setNode_self _ _ _
      waiting := fun p hp => setNode_other _ _ _ (hpeer hp).2
      voters := fun p hp => absurd hp List.not_mem_nil }
  obtain ⟨s₁, hgoes₁, hall⟩ := Canvass.all (E := E) (M := M) hnodup (fun p hp => (hpeer hp).2)
    (fun p hp => Nat.lt_succ_of_le (hterm p.id (hpeer hp).1)) (fun p hp => hup p.id (hpeer hp).1)
    _ [] _ rfl hstart
  obtain ⟨s₂, hgoes₂, hlead, hown, hvoters⟩ := hall.won (E := E) (M := M) hne
  refine ⟨s₂, (Goes.single htimeout).trans (hgoes₁.trans hgoes₂), hlead, fun i hi => ?_⟩
  by_cases hij : i = j
  · rw [hij]
  · have hmem : i ∈ (s.node j).peers.map Peer.id := by
      rw [hpeers]
      exact (M.peers_perm j hj).mem_iff.mpr ((List.mem_erase_of_ne hij).mpr hi)
    obtain ⟨p, hp, rfl⟩ := List.mem_map.mp hmem
    rw [hvoters p hp (hpeer hp).2, hown]

/-- A node that leads an old term, if it leads at all, can come to lead none, and keeps its log. -/
theorem Reaches.unled (h : Reaches E M store threshold ok past s) (hj : j ∈ M.ids)
    (hfree : s.election j = none)
    (hold : (s.node j).state = .leader → ∃ i ∈ M.ids, (s.node j).currentTerm < (s.node i).currentTerm) :
    ∃ s', Goes E M s s' ∧ s'.election j = none ∧ OnlyAt j s s' ∧ (s'.node j).state ≠ .leader ∧
      RaftNode.upToDate (s'.node j).raftLog = RaftNode.upToDate (s.node j).raftLog := by
  by_cases hl : (s.node j).state = .leader
  · obtain ⟨p, hp, hterm⟩ := hold hl
    have hne : p ≠ j := by
      rintro rfl
      exact Nat.lt_irrefl _ hterm
    have hpeer : p ∈ (s.node j).peers.map Peer.id := by
      rw [(h.identity j).2]
      exact (M.peers_perm j hj).mem_iff.mpr ((List.mem_erase_of_ne hne).mpr hp)
    obtain ⟨ls, hls⟩ := (h.leaderSet j).exists hl
    obtain ⟨s', hgoes, honly, hel, hnode⟩ := Goes.stepDown (E := E) hj hpeer hne hl hls hterm
    refine ⟨s', hgoes, hel.trans hfree, honly, by rw [hnode]; simp, ?_⟩
    rw [hnode]
    exact RaftNode.upToDate_saveMeta _ _ _ _
  · exact ⟨s, .refl, hfree, fun _ _ => ⟨rfl, rfl⟩, hl, rfl⟩

theorem Reaches.leader_possible (h : Reaches E M store threshold ok past s) (hsize : 2 ≤ M.ids.length) :
    ∃ s' i, Goes E M s s' ∧ i ∈ M.ids ∧ (s'.node i).state = .leader ∧
      ∀ k ∈ M.ids, (s'.node k).currentTerm ≤ (s'.node i).currentTerm := by
  obtain ⟨s₁, hgoes₁, hidle⟩ := Goes.idle (E := E) (M := M) s M.ids
  obtain ⟨past₁, h₁⟩ := h.goes hgoes₁
  have hnonempty : M.ids.toFinset.Nonempty := by
    rw [List.toFinset_nonempty_iff]
    exact List.ne_nil_of_length_pos (by omega)
  obtain ⟨j, hj, hmax⟩ := Finset.exists_max_image M.ids.toFinset
    (fun i => RaftNode.upToDate (s₁.node i).raftLog) hnonempty
  obtain ⟨q, _, hnewest⟩ := Finset.exists_max_image M.ids.toFinset
    (fun i => (s₁.node i).currentTerm) hnonempty
  simp only [List.mem_toFinset] at hj hmax hnewest
  by_cases hdone : (s₁.node j).state = .leader ∧
      ∀ i ∈ M.ids, (s₁.node i).currentTerm ≤ (s₁.node j).currentTerm
  · exact ⟨s₁, j, hgoes₁, hj, hdone.1, hdone.2⟩
  · -- `j` stops leading, passes every term and wins
    obtain ⟨s₂, hgoes₂, hfree₂, honly₂, hrole₂, hlog₂⟩ := h₁.unled hj (hidle j hj) (by
      intro hl
      by_contra hno
      exact hdone ⟨hl, fun i hi => Nat.le_of_not_lt fun hlt => hno ⟨i, hi, hlt⟩⟩)
    obtain ⟨s₃, hgoes₃, hfree₃, honly₃, hrole₃, hterm₃, hlog₃⟩ :=
      Goes.bump (E := E) hj hrole₂ hfree₂ (s₁.node q).currentTerm
    obtain ⟨past₃, h₃⟩ := h₁.goes (hgoes₂.trans hgoes₃)
    have honly := honly₂.trans honly₃
    obtain ⟨s₄, hgoes₄, hlead, hall⟩ := h₃.canvass hsize hj hrole₃ hfree₃ (fun i hi => by
        by_cases hij : i = j
        · rw [hij]
        · rw [(honly i hij).1, hterm₃]
          exact (hnewest i hi).trans (Nat.le_add_left _ _)) fun i hi => by
        by_cases hij : i = j
        · rw [hij]
        · rw [(honly i hij).1, hlog₃, hlog₂]
          exact hmax i hi
    exact ⟨s₄, j, hgoes₁.trans (hgoes₂.trans (hgoes₃.trans hgoes₄)), hj, hlead, hall⟩

/-! ## A node without peers -/

/-- In a cluster of one node nobody is asked, and nobody has won or leads. -/
structure Alone (s : Cluster σ) : Prop where
  calls : s.voteCalls = []
  lost : ∀ i el, s.election i = some el → el.won = false
  led : ∀ i, (s.node i).state ≠ .leader

theorem Reaches.alone (h : Reaches E M store threshold ok past s) (hsize : M.ids.length ≤ 1) : Alone s := by
  refine Reaches.invariant (P := fun _ s => Alone s) ?_ ?_ h
  · exact ⟨rfl, fun _ _ hel => absurd hel (by simp [init]), fun _ => by simp [init]⟩
  · intro past s st s' hr hinv _ hs
    have hother : ∀ {j : NodeID} {x : Option RaftNode.Election}, (∀ el, x = some el → el.won = false) →
        s'.election = (s.setElection j x).election → ∀ i el, s'.election i = some el → el.won = false := by
      intro j x hx hel i el hi
      rw [hel] at hi
      by_cases hij : i = j
      · rw [hij, setElection_self] at hi
        exact hx el hi
      · rw [setElection_other _ _ _ hij] at hi
        exact hinv.lost i el hi
    have hpolled : s'.voteCalls = [] ∧ ∀ i el, s'.election i = some el → el.won = false := by
      cases step_polled hs with
      | quiet hel hcalls => exact ⟨hcalls.trans hinv.calls, by rw [hel]; exact hinv.lost⟩
      | @timeout disk i hst _ _ hel hcalls =>
        subst hst
        have hnone : (s.node i).peers = [] := by
          cases step_cases hs with
          | act hx =>
            cases hx with
            | timeout hi _ _ =>
              have hlen := length_peers hi
              rw [(hr.identity i).2]
              exact List.length_eq_zero_iff.mp (by omega)
        rw [hinv.calls, hnone] at hcalls
        refine ⟨hcalls, hother ?_ hel⟩
        rintro el ⟨⟩
        rfl
      | vote hel hcalls =>
        exact ⟨by rw [hcalls, hinv.calls]; exact List.modify_nil _ _, by rw [hel]; exact hinv.lost⟩
      | voted hk _ _ _ _ _ =>
        rw [hinv.calls] at hk
        cases hk
      | voteFailed hel hcalls =>
        exact ⟨by rw [hcalls, hinv.calls]; exact List.modify_nil _ _, by rw [hel]; exact hinv.lost⟩
      | finished _ hel hcalls => exact ⟨hcalls.trans hinv.calls, hother (fun _ h => by cases h) hel⟩
      | @restart _ calls hf hel hcalls =>
        refine ⟨?_, hother (fun _ h => by cases h) hel⟩
        have hnone : calls = [] := by
          refine List.eq_nil_iff_forall_not_mem.mpr fun c hc => ?_
          obtain ⟨k, hk⟩ := List.mem_iff_getElem?.mp hc
          obtain ⟨c, hc, _⟩ := hf k c hk
          rw [hinv.calls] at hc
          cases hc
        rw [hcalls, hnone]
        rfl
    refine ⟨hpolled.1, hpolled.2, fun i hlead => ?_⟩
    cases step_leads hs hlead with
    | still hold _ => exact hinv.led i hold
    | elected _ hel hwon _ _ =>
      rw [hinv.lost i _ hel] at hwon
      cases hwon

/-- **A leader can be elected from every reachable state of a cluster of two or more nodes, and from none of
a smaller one.** Nothing is asked of the run before: its disks may have failed, its logs may have holes. The
leader's term is one that no member exceeds. -/
theorem leader_possible_iff (h : Reaches E M store threshold ok past s) :
    (∃ s' i, Goes E M s s' ∧ i ∈ M.ids ∧ (s'.node i).state = .leader ∧
      ∀ k ∈ M.ids, (s'.node k).currentTerm ≤ (s'.node i).currentTerm) ↔ 2 ≤ M.ids.length := by
  refine ⟨fun ⟨s', i, hgoes, _, hlead, _⟩ => ?_, h.leader_possible⟩
  by_contra hsize
  obtain ⟨past', h'⟩ := h.goes hgoes
  exact (h'.alone (by omega)).led i hlead

open Shipped (node1 node2 twoLeaders)

/-- `node-1` and `node-2` lead terms 1 and 2. -/
theorem leader_possible_iff_twoLeaders : ∃ past s, Shipped.Reaches (fun _ _ => True) past s ∧
    (s.node node1).state = .leader ∧ (s.node node2).state = .leader ∧
    (s.node node1).currentTerm = 1 ∧ (s.node node2).currentTerm = 2 ∧
    ∃ s' i, Goes Shipped.engine Shipped.membership s s' ∧ i ∈ Shipped.membership.ids ∧
      (s'.node i).state = .leader ∧
      ∀ k ∈ Shipped.membership.ids, (s'.node k).currentTerm ≤ (s'.node i).currentTerm := by
  have hrun : Shipped.Reaches (fun _ _ => True) (Shipped.play (fun _ _ => True) (twoLeaders [])).1
      (Shipped.play (fun _ _ => True) (twoLeaders [])).2 :=
    (Shipped.reaches_play (fun _ _ => True) (twoLeaders [])).mono fun _ _ _ => trivial
  exact ⟨_, _, hrun, by decide +kernel, by decide +kernel, by decide +kernel, by decide +kernel,
    (leader_possible_iff hrun).mpr (by decide)⟩

end Cluster

end Raftrix
