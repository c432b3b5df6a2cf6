import Mathlib.Logic.Relation
import Raftrix.Cluster.Shipped
import Raftrix.Node.Receiver

/-!
# Backing up to the point of agreement

A follower that turns a request away for log inconsistency sends a hint, and the leader takes it over
as the peer's `nextIndex`.

* `Hint` says what the hint is worth: it lies between `1` and `PrevLogIndex`, and where the follower
  has an entry of another term at `PrevLogIndex`, it is the start of the run of entries of that term
  (`checkPrev_hint`).
* `Exchange` is one round of `replicateToPeer` and `HandleAppendEntries` between a leader and one follower:
  the request, the answer and both structs afterwards. `replicate` carries out a round
  (`replicate_cases`), `replicateUntil` repeats it while it ends in a rejection. A rejection lowers
  `nextIndex` and keeps it positive (`Replicating.replicate`), so the rounds come to an end
  (`Replicating.replicateUntil`): the follower accepts the leader's request, or the snapshot is due
  (`EndsWith`).

**`backOff_exact`** is both.
-/

namespace Raftrix

variable {σ : Type}

/-! ## The hint of a rejection -/

namespace RaftLog

variable {rl : RaftLog} {req : AppendEntriesRequest} {index term prevTerm : Nat}

/-- The scan stays at or below its start, and stops above `0`. -/
theorem conflictStart_le (rl : RaftLog) (prevTerm k : Nat) : rl.conflictStart prevTerm k ≤ k := by
  induction k with
  | zero => exact le_refl _
  | succ k ih =>
    rw [conflictStart]
    split
    · exact ih.trans (Nat.le_succ k)
    · exact le_refl _

theorem conflictStart_pos (rl : RaftLog) (prevTerm : Nat) {k : Nat} (hk : 0 < k) :
    0 < rl.conflictStart prevTerm k := by
  induction k with
  | zero => exact hk
  | succ k ih =>
    rw [conflictStart]
    split
    · rename_i h
      exact ih (by omega)
    · exact hk

/-- Every index the scan has passed has the term it looks for. -/
theorem termAt_conflictStart {k j : Nat} (hj : rl.conflictStart prevTerm k ≤ j) (hlt : j < k) :
    rl.termAt j = prevTerm := by
  induction k with
  | zero => omega
  | succ k ih =>
    rw [conflictStart] at hj
    split at hj
    · rename_i h
      rcases Nat.lt_succ_iff_lt_or_eq.mp hlt with hlt | rfl
      · exact ih hj hlt
      · exact h.2
    · omega

/-- From above the boundary the scan stops right above it, or at an entry of another term. -/
theorem conflictStart_stops {k : Nat} (hk : rl.snapshotIndex < k) :
    rl.conflictStart prevTerm k = rl.snapshotIndex + 1 ∨
      rl.termAt (rl.conflictStart prevTerm k - 1) ≠ prevTerm := by
  induction k with
  | zero => omega
  | succ k ih =>
    rw [conflictStart]
    split
    · rename_i h
      exact ih (by omega)
    · rename_i h
      rcases Nat.eq_or_lt_of_le hk with heq | hlt
      · exact Or.inl heq.symm
      · exact Or.inr fun ht => h ⟨by omega, ht⟩

/-- **The two rejections of the consistency check.** -/
theorem checkPrev_eq_some (h : rl.checkPrev req = some (index, term)) :
    0 < req.prevLogIndex ∧
      (rl.lastIndex < req.prevLogIndex ∧ index = rl.lastIndex + 1 ∧ term = 0 ∨
        req.prevLogIndex ≤ rl.lastIndex ∧ term = rl.termAt req.prevLogIndex ∧
          index = rl.conflictStart term req.prevLogIndex) := by
  unfold checkPrev at h
  split at h
  · rename_i hpos
    refine ⟨hpos, ?_⟩
    split at h
    · rename_i hlt
      cases h
      exact Or.inl ⟨hlt, rfl, rfl⟩
    · rename_i hle
      dsimp only at h
      split at h
      · cases h
        exact Or.inr ⟨Nat.le_of_not_lt hle, rfl, rfl⟩
      · cases h
  · cases h

theorem checkPrev_le (h : rl.checkPrev req = some (index, term)) : index ≤ rl.lastIndex + 1 := by
  obtain ⟨_, ⟨_, rfl, _⟩ | ⟨hle, _, rfl⟩⟩ := checkPrev_eq_some h
  · exact le_refl _
  · have := rl.conflictStart_le term req.prevLogIndex
    omega

end RaftLog

/-- What the hint `(index, term)` of a rejection tells about the follower's log. -/
structure Hint (rl : RaftLog) (req : AppendEntriesRequest) (index term : Nat) : Prop where
  pos : 1 ≤ index
  le : index ≤ req.prevLogIndex
  /-- All entries from the hint on have the conflicting term. -/
  run : rl.snapshotIndex < req.prevLogIndex → req.prevLogIndex ≤ rl.lastIndex →
    ∀ j, index ≤ j → j ≤ req.prevLogIndex → rl.termAt j = term
  /-- The entry before the hint has another one, unless the hint is next to the boundary. -/
  first : rl.snapshotIndex < req.prevLogIndex → req.prevLogIndex ≤ rl.lastIndex →
    index = rl.snapshotIndex + 1 ∨ rl.termAt (index - 1) ≠ term

theorem checkPrev_hint {rl : RaftLog} {req : AppendEntriesRequest} {index term : Nat}
    (h : rl.checkPrev req = some (index, term)) : Hint rl req index term := by
  obtain ⟨hpos, ⟨hlt, rfl, rfl⟩ | ⟨hle, hterm, rfl⟩⟩ := RaftLog.checkPrev_eq_some h
  · exact ⟨by omega, by omega, fun _ hle => by omega, fun _ hle => by omega⟩
  · refine ⟨rl.conflictStart_pos term hpos, rl.conflictStart_le _ _, fun _ _ j hj hjle => ?_,
      fun hs _ => RaftLog.conflictStart_stops hs⟩
    rcases Nat.eq_or_lt_of_le hjle with rfl | hjlt
    · exact hterm.symm
    · exact RaftLog.termAt_conflictStart hj hjlt

namespace RaftNode

/-! ## Rounds -/

/-- How one round of `replicateToPeer` ends. -/
inductive Replicated (σ : Type) where
  | installSnapshot (req : InstallSnapshotRequest)
  | success (leader follower : RaftNode σ)
  | rejected (leader follower : RaftNode σ)
  /-- The sender is not leader, or dereferences a nil `leader`. -/
  | stopped

/-- One round of `replicateToPeer` and, for AppendEntries, of `HandleAppendEntries`, with the answer
delivered and every write successful. -/
def replicate (leader follower : RaftNode σ) : Replicated σ :=
  if leader.state ≠ .leader then .stopped
  else
    match leader.leader with
    | none => .stopped
    | some ls =>
      match leader.peerRequest ls follower.id with
      | .installSnapshot req => .installSnapshot req
      | .appendEntries req =>
        let (follower', resp) := follower.handleAppendEntries (fun _ => true) req
        match leader.appendResponse (fun _ => true) follower.id resp with
        | none => .stopped
        | some leader' =>
          if resp.success then .success leader' follower' else .rejected leader' follower'

/-- Rounds as long as they end in rejections, at most `k` of them. -/
def replicateUntil : Nat → RaftNode σ → RaftNode σ → Option (Replicated σ)
  | 0, _, _ => none
  | k + 1, leader, follower =>
    match leader.replicate follower with
    | .rejected leader' follower' => replicateUntil k leader' follower'
    | r => some r

/-- A leader and a follower of one term between two rounds. -/
structure Replicating (leader follower : RaftNode σ) : Prop where
  leads : leader.state = .leader
  terms : leader.currentTerm = follower.currentTerm
  next : 1 ≤ leader.nextIndexOf follower.id

section Rounds

variable {leader follower leader' follower' : RaftNode σ}

/-- A positive `nextIndex` is one of a leader state. -/
theorem Replicating.books (h : Replicating leader follower) : ∃ ls, leader.leader = some ls := by
  have hnext := h.next
  unfold nextIndexOf at hnext
  cases hls : leader.leader with
  | none =>
    rw [hls] at hnext
    exact absurd hnext (by simp)
  | some ls => exact ⟨ls, rfl⟩

/-- What `replicateToPeer` sends, as far as the term and the position are concerned. -/
theorem peerRequest_cases (n : RaftNode σ) (ls : LeaderState) (peer : NodeID) :
    (∃ req, n.peerRequest ls peer = .installSnapshot req) ∨
      ∃ req, n.peerRequest ls peer = .appendEntries req ∧ req.term = n.currentTerm ∧
        req.prevLogIndex = ls.nextIndex.at peer - 1 := by
  unfold peerRequest
  dsimp only
  split
  · exact Or.inl ⟨_, rfl⟩
  · exact Or.inr ⟨_, rfl, rfl, rfl⟩

/-- A leader that learns of a rejection takes over the hint. -/
theorem appendResponse_rejected {disk : Disk} {n : RaftNode σ} {ls : LeaderState} {peer : NodeID}
    {resp : AppendEntriesResponse} (hstate : n.state = .leader) (hls : n.leader = some ls)
    (hterm : resp.term ≤ n.currentTerm) (hfail : resp.success = false) :
    n.appendResponse disk peer resp =
      some { n with leader := some (ls.backUp peer resp.conflictIndex) } := by
  unfold appendResponse
  rw [if_neg (not_not.mpr hstate), if_neg (Nat.not_lt.mpr hterm)]
  simp [hls, hfail]

theorem appendResponse_success {disk : Disk} {n : RaftNode σ} {ls : LeaderState} {peer : NodeID}
    {resp : AppendEntriesResponse} (hstate : n.state = .leader) (hls : n.leader = some ls)
    (hterm : resp.term ≤ n.currentTerm) (hsucc : resp.success = true) :
    n.appendResponse disk peer resp =
      some (commitAcked { n with leader := some (ls.acknowledge peer resp.matchIndex) }
        (ls.acknowledge peer resp.matchIndex)) := by
  unfold appendResponse
  rw [if_neg (not_not.mpr hstate), if_neg (Nat.not_lt.mpr hterm)]
  simp [hls, hsucc]

/-- **One round**: a snapshot, a success, or a rejection that lowers `nextIndex` and keeps it
positive. -/
theorem Replicating.replicate (h : Replicating leader follower) :
    (∃ req, leader.replicate follower = .installSnapshot req) ∨
    (∃ leader' follower', leader.replicate follower = .success leader' follower') ∨
    ∃ leader' follower', leader.replicate follower = .rejected leader' follower' ∧
      Replicating leader' follower' ∧ follower'.id = follower.id ∧
      leader'.nextIndexOf follower.id < leader.nextIndexOf follower.id := by
  obtain ⟨ls, hls⟩ := h.books
  have hnext := nextIndexOf_eq hls follower.id
  have hpos := h.next
  unfold RaftNode.replicate
  rw [if_neg (not_not.mpr h.leads)]
  simp only [hls]
  rcases leader.peerRequest_cases ls follower.id with ⟨req, hreq⟩ | ⟨req, hreq, hterm, hprev⟩
  · rw [hreq]
    exact Or.inl ⟨req, rfl⟩
  · rw [hreq]
    dsimp only
    have hterms := h.terms
    have hr := received (fun _ => true) follower req
    generalize follower.handleAppendEntries (fun _ => true) req = r at hr ⊢
    cases hr with
    | stale hlt => omega
    | @rejected m index term hm hcheck =>
      have hhint := checkPrev_hint hcheck
      have hpos' := hhint.pos
      have hle := hhint.le
      have hm_term := hm.term_eq
      rw [appendResponse_rejected h.leads hls (by dsimp only; omega) rfl]
      have hback : (ls.backUp follower.id index).nextIndex.at follower.id = index := by
        rw [LeaderState.backUp, if_pos (Nat.lt_of_succ_le hpos'), IndexMap.at_insert, if_pos rfl]
      refine Or.inr (Or.inr ⟨_, _, rfl, ⟨h.leads, ?_, ?_⟩, hm.identity.1, ?_⟩)
      · change leader.currentTerm = m.currentTerm
        omega
      · change 1 ≤ (ls.backUp follower.id index).nextIndex.at m.id
        rw [hm.identity.1, hback]
        exact hpos'
      · change (ls.backUp follower.id index).nextIndex.at follower.id < _
        omega
    | failed _ _ hok =>
      rw [RaftLog.appendEntries_ok fun _ => rfl] at hok
      exact absurd hok (by simp)
    | done hm _ _ =>
      rw [appendResponse_success h.leads hls (Nat.le_of_eq (hm.term_eq.trans hterm)) rfl]
      exact Or.inr (Or.inl ⟨_, _, rfl⟩)

/-! ## What a round is -/

/-- An AppendEntries round from the pair `p` of leader and follower to the pair `q`: `req` is what
`replicateToPeer` builds, `resp` is the answer of `HandleAppendEntries`, and the leader has processed it.
Every write succeeds. -/
structure Exchange (p q : RaftNode σ × RaftNode σ) (req : AppendEntriesRequest)
    (resp : AppendEntriesResponse) : Prop where
  leads : p.1.state = .leader
  request : ∃ ls, p.1.leader = some ls ∧ p.1.peerRequest ls p.2.id = .appendEntries req
  handled : p.2.handleAppendEntries (fun _ => true) req = (q.2, resp)
  processed : p.1.appendResponse (fun _ => true) p.2.id resp = some q.1

/-- A round that ends in a rejection. -/
def Backs (p q : RaftNode σ × RaftNode σ) : Prop := ∃ req resp, Exchange p q req resp ∧ resp.success = false

/-- A round that ends in a success. -/
def Agrees (p q : RaftNode σ × RaftNode σ) : Prop := ∃ req resp, Exchange p q req resp ∧ resp.success = true

/-- `replicateToPeer` sends the snapshot `req`: the entry the peer needs next is not above the boundary. -/
structure SnapshotDue (leader : RaftNode σ) (peer : NodeID) (req : InstallSnapshotRequest) : Prop where
  leads : leader.state = .leader
  request : ∃ ls, leader.leader = some ls ∧ leader.peerRequest ls peer = .installSnapshot req
  behind : leader.nextIndexOf peer ≤ leader.raftLog.snapshotIndex

/-- **`replicate` carries out the round it names.** -/
theorem replicate_cases (leader follower : RaftNode σ) :
    match leader.replicate follower with
    | .installSnapshot req => SnapshotDue leader follower.id req
    | .success leader' follower' => Agrees (leader, follower) (leader', follower')
    | .rejected leader' follower' => Backs (leader, follower) (leader', follower')
    | .stopped => True := by
  unfold RaftNode.replicate
  by_cases hlead : leader.state = .leader
  · rw [if_neg (not_not.mpr hlead)]
    cases hls : leader.leader with
    | none => trivial
    | some ls =>
      dsimp only
      cases hreq : leader.peerRequest ls follower.id with
      | installSnapshot req =>
        exact ⟨hlead, ⟨ls, hls, hreq⟩, by
          rw [nextIndexOf_eq hls]
          exact (of_peerRequest_installSnapshot hreq).1⟩
      | appendEntries req =>
        dsimp only
        cases hdone : leader.appendResponse (fun _ => true) follower.id
            (follower.handleAppendEntries (fun _ => true) req).2 with
        | none => trivial
        | some leader' =>
          have hround : Exchange (leader, follower)
              (leader', (follower.handleAppendEntries (fun _ => true) req).1) req
              (follower.handleAppendEntries (fun _ => true) req).2 :=
            ⟨hlead, ⟨ls, hls, hreq⟩, rfl, hdone⟩
          by_cases hsucc : (follower.handleAppendEntries (fun _ => true) req).2.success = true
          · simp only [hsucc, if_true]
            exact ⟨_, _, hround, hsucc⟩
          · simp only [hsucc]
            exact ⟨_, _, hround, Bool.eq_false_iff.mpr hsucc⟩
  · rw [if_pos hlead]
    trivial

/-- The other way round for a rejection. -/
theorem Backs.replicate {p q : RaftNode σ × RaftNode σ} (h : Backs p q) :
    p.1.replicate p.2 = .rejected q.1 q.2 := by
  obtain ⟨req, resp, hround, hfail⟩ := h
  obtain ⟨ls, hls, hreq⟩ := hround.request
  unfold RaftNode.replicate
  rw [if_neg (not_not.mpr hround.leads)]
  simp only [hls, hreq, hround.handled, hround.processed, hfail]
  rfl

theorem Replicating.backs {p q : RaftNode σ × RaftNode σ} (h : Replicating p.1 p.2)
    (hb : Backs p q) :
    Replicating q.1 q.2 ∧ q.1.nextIndexOf q.2.id < p.1.nextIndexOf p.2.id := by
  have hb := hb.replicate
  rcases h.replicate with ⟨_, hr⟩ | ⟨_, _, hr⟩ | ⟨leader', follower', hr, hnext, hid, hlt⟩
  · rw [hr] at hb
    cases hb
  · rw [hr] at hb
    cases hb
  · rw [hr] at hb
    cases hb
    rw [hid]
    exact ⟨hnext, hlt⟩

/-- Rejections lead from one such pair to another. -/
theorem Replicating.of_backs {p q : RaftNode σ × RaftNode σ} (h : Replicating p.1 p.2)
    (hrun : Relation.ReflTransGen Backs p q) : Replicating q.1 q.2 := by
  induction hrun with
  | refl => exact h
  | tail _ hb ih => exact (ih.backs hb).1

/-- How the rounds between the pair `p` end, if `r` is what they end with: after rejections only, by the
sending of a snapshot or by a success. -/
def EndsWith (p : RaftNode σ × RaftNode σ) (r : Option (Replicated σ)) : Prop :=
  ∃ q, Relation.ReflTransGen Backs p q ∧
    ((∃ req, SnapshotDue q.1 q.2.id req ∧ r = some (.installSnapshot req)) ∨
      ∃ q', Agrees q q' ∧ r = some (.success q'.1 q'.2))

/-- **The rounds come to an end**, after at most `nextIndex` of them. -/
theorem Replicating.replicateUntil {k : Nat} : ∀ {leader follower : RaftNode σ},
    Replicating leader follower → leader.nextIndexOf follower.id ≤ k →
    EndsWith (leader, follower) (replicateUntil k leader follower) := by
  induction k with
  | zero =>
    intro leader follower h hk
    have := h.next
    omega
  | succ k ih =>
    intro leader follower h hk
    have hround := replicate_cases leader follower
    rw [RaftNode.replicateUntil]
    rcases h.replicate with ⟨req, hr⟩ | ⟨leader', follower', hr⟩ |
      ⟨leader', follower', hr, hnext, hid, hlt⟩
    · rw [hr] at hround ⊢
      exact ⟨_, .refl, Or.inl ⟨req, hround, rfl⟩⟩
    · rw [hr] at hround ⊢
      exact ⟨_, .refl, Or.inr ⟨(leader', follower'), hround, rfl⟩⟩
    · rw [hr] at hround ⊢
      obtain ⟨q, hrun, hend⟩ := ih hnext (by rw [hid]; omega)
      exact ⟨q, .head hround hrun, hend⟩

end Rounds

/-- A request that is turned away is answered with a hint. -/
theorem handleAppendEntries_hint {n : RaftNode σ} {req : AppendEntriesRequest} (disk : Disk)
    (hterm : n.currentTerm ≤ req.term) (hprev : n.raftLog.checkPrev req ≠ none) :
    (n.handleAppendEntries disk req).2.success = false ∧
      Hint n.raftLog req (n.handleAppendEntries disk req).2.conflictIndex
        (n.handleAppendEntries disk req).2.conflictTerm := by
  have hr := received disk n req
  generalize n.handleAppendEntries disk req = r at hr ⊢
  cases hr with
  | stale hlt => omega
  | rejected _ h => exact ⟨rfl, checkPrev_hint h⟩
  | failed _ h _ => exact absurd h hprev
  | done _ h _ => exact absurd h hprev

/-- **Backing up is exact and ends.** Every request that is turned away because the entry at
`PrevLogIndex` is missing or of another term is answered with a `Hint`, for every follower log and
boundary. And for every leader and follower of one term, with any logs and any `nextIndex ≥ 1`: every
rejection along the rounds between the two lowers `nextIndex` and keeps it positive, and after fewer than
`nextIndex` rejections the leader's next request is answered with Success by the follower, or the snapshot
is due. -/
theorem backOff_exact :
    (∀ (n : RaftNode σ) (disk : Disk) (req : AppendEntriesRequest), n.currentTerm ≤ req.term →
      0 < req.prevLogIndex →
      (n.raftLog.lastIndex < req.prevLogIndex ∨
        n.raftLog.termAt req.prevLogIndex ≠ req.prevLogTerm) →
      (n.handleAppendEntries disk req).2.success = false ∧
        Hint n.raftLog req (n.handleAppendEntries disk req).2.conflictIndex
          (n.handleAppendEntries disk req).2.conflictTerm) ∧
    ∀ leader follower : RaftNode σ, Replicating leader follower →
      (∀ p q, Relation.ReflTransGen Backs (leader, follower) p → Backs p q →
        1 ≤ q.1.nextIndexOf q.2.id ∧ q.1.nextIndexOf q.2.id < p.1.nextIndexOf p.2.id) ∧
      EndsWith (leader, follower)
        (replicateUntil (leader.nextIndexOf follower.id) leader follower) := by
  refine ⟨fun n disk req hterm hpos hbad => ?_, fun leader follower h => ⟨?_, ?_⟩⟩
  · refine handleAppendEntries_hint disk hterm fun hnone => ?_
    rcases (n.raftLog.checkPrev_eq_none_iff req).mp hnone with h0 | ⟨hle, hterm⟩
    · omega
    · rcases hbad with hlt | hne
      · omega
      · exact hne hterm
  · intro p q hrun hb
    have hp : Replicating p.1 p.2 := h.of_backs hrun
    exact ⟨(hp.backs hb).1.next, (hp.backs hb).2⟩
  · exact h.replicateUntil (le_refl _)

/-- A leader of term 3 with entries of the terms 1, 1, 3 that has just been elected. -/
def leaderOfThree : RaftNode BoltEngine :=
  let n := Shipped.start.node Shipped.node1
  { n with
    state := .leader
    currentTerm := 3
    raftLog := .noops [1, 1, 3]
    leader := some (.newLeaderState n.peers 3) }

/-- A follower of term 3 with entries of the terms 1, 2, 2. -/
def followerOfTwo : RaftNode BoltEngine :=
  { Shipped.start.node Shipped.node2 with currentTerm := 3, raftLog := .noops [1, 2, 2] }

/-- The first request of that leader to a peer: nothing after its last entry. -/
def nothingAfterThree : AppendEntriesRequest := ⟨3, Shipped.node1, 3, 3, [], 0⟩

/-- The follower's entries of term 2 are skipped in one round, and the leader's next request is
accepted. -/
theorem backOff_exact_threeEntries :
    (followerOfTwo.handleAppendEntries (fun _ => true) nothingAfterThree).2.conflictIndex = 2 ∧
      Hint followerOfTwo.raftLog nothingAfterThree
        (followerOfTwo.handleAppendEntries (fun _ => true) nothingAfterThree).2.conflictIndex
        (followerOfTwo.handleAppendEntries (fun _ => true) nothingAfterThree).2.conflictTerm ∧
      leaderOfThree.nextIndexOf followerOfTwo.id = 4 ∧
      (∃ ls, leaderOfThree.leader = some ls ∧
        leaderOfThree.peerRequest ls followerOfTwo.id = .appendEntries nothingAfterThree) ∧
      (∃ leader' follower', replicateUntil 2 leaderOfThree followerOfTwo =
        some (.success leader' follower')) ∧
      EndsWith (leaderOfThree, followerOfTwo)
        (replicateUntil (leaderOfThree.nextIndexOf followerOfTwo.id) leaderOfThree followerOfTwo) := by
  have h : Replicating leaderOfThree followerOfTwo := ⟨rfl, rfl, by decide⟩
  exact ⟨by decide,
    (backOff_exact.1 followerOfTwo (fun _ => true) nothingAfterThree (by decide) (by decide)
      (Or.inr (by decide))).2,
    by decide, ⟨_, rfl, rfl⟩, ⟨_, _, rfl⟩, (backOff_exact.2 _ _ h).2⟩

end RaftNode

end Raftrix
