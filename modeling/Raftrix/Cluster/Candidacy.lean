import Raftrix.Cluster.Leadership
import Raftrix.Node.Install

/-!
# A candidate that hears from a leader

`startElection` gathers its votes without the lock, and `becomeLeader` looks at the role only: a node
that has recognised another leader meanwhile must no longer be a candidate. `HandleAppendEntries` and
`HandleInstallSnapshot` recognise a leader in every request whose term is not stale, and should then
leave a follower of that term without bookkeeping, whose vote stands if the term does, and which no
`becomeLeader` of the election in flight can change (`EndsCandidacy`).

Both step down for a newer term only. `Joins` is the term rule they share, and nothing else they do
concerns the role (`accept_role`), so **`accepted_leader_ends_candidacy_iff`**: they end a candidacy
exactly if the term is newer, and leave a follower a follower. While the election is in flight nothing
can make the node a candidate again (`not_candidate_while_voting`). `two_leaders_in_sight`: a candidate
that has accepted a leader of its term becomes leader all the same.
-/

namespace Raftrix

variable {σ : Type}

/-- A request that only a leader sends. -/
inductive LeaderRequest where
  | append (req : AppendEntriesRequest)
  | install (req : InstallSnapshotRequest)

def LeaderRequest.term : LeaderRequest → Nat
  | .append req => req.term
  | .install req => req.term

/-- The handler of the request. -/
def RaftNode.accept (E : Engine σ) (disk : Disk) (n : RaftNode σ) : LeaderRequest → RaftNode σ
  | .append req => (n.handleAppendEntries disk req).1
  | .install req => (n.handleInstallSnapshot E disk req).1

namespace Cluster

variable {E : Engine σ} {M : Membership} {disk : Disk} {s s' : Cluster σ} {a : Action} {st : Step}
  {i : NodeID} {n m : RaftNode σ} {past : List (Cluster σ × Step)}

/-- Node `i` has gone from `n` to `n'` over a request of a leader of the term, and that ended its
candidacy. The last field is about every cluster with this node in it, up to the end of the election
that node `i` may have in flight there. -/
structure EndsCandidacy (E : Engine σ) (M : Membership) (i : NodeID) (n n' : RaftNode σ) (term : Nat) :
    Prop where
  state : n'.state = .follower
  currentTerm : n'.currentTerm = term
  leader : n'.leader = none
  vote : n.currentTerm = term → n'.votedFor = n.votedFor
  late : ∀ s past t, s.node i = n' →
    Lib.Run (fun s₀ => s₀ = s) (step E M) (fun s₁ _ => s₁.election i ≠ none) past t →
    ∀ disk, (t.node i).becomeLeader disk = t.node i

/-! ## The election in flight -/

theorem Joins.not_candidate {written : Bool} {term : Nat} (hm : Joins written n term m)
    (h : n.state ≠ .candidate) : m.state ≠ .candidate := by
  cases hm with
  | same _ => exact h
  | down _ => exact NodeState.noConfusion

/-- Only `startElection` makes a candidate, and a node in an election does not start another. -/
theorem Move.not_candidate (hmove : Move E M disk s a i n) (hel : s.election i ≠ none)
    (h : (s.node i).state ≠ .candidate) : n.state ≠ .candidate := by
  cases hmove with
  | panic => exact NodeState.noConfusion
  | down _ _ => exact NodeState.noConfusion
  | timeout _ _ hfree => exact absurd hfree hel
  | grant _ _ hm _ _ => exact hm.not_candidate h
  | lead _ _ _ => exact NodeState.noConfusion
  | mismatch _ _ hm => exact hm.not_candidate h
  | splice _ _ hm _ _ => exact hm.not_candidate h
  | restore _ hm => exact hm.not_candidate h
  | install _ hm _ => exact hm.not_candidate h
  | @apply i k gs =>
    rw [(RaftNode.onlyApplies_applyCommitted E disk { s.node i with goroutines := gs }).state]
    exact h
  | _ => exact h

theorem step_not_candidate (hs : s.step E M st = some s') (hel : s.election i ≠ none)
    (h : (s.node i).state ≠ .candidate) : (s'.node i).state ≠ .candidate := by
  obtain ⟨j, hmoved, hother⟩ := step_moved hs
  by_cases hij : i = j
  · subst hij
    generalize s'.node i = n at hmoved ⊢
    cases hmoved with
    | act hmove => exact hmove.not_candidate hel h
    | crash => exact NodeState.noConfusion
    | crashDuring _ _ => exact NodeState.noConfusion
    | applyRead hmove _ => exact hmove.not_candidate hel h
  · rw [hother i hij]
    exact h

/-- While an election is in flight, its node does not become a candidate. -/
theorem not_candidate_while_voting (hs : (s.node i).state ≠ .candidate)
    (h : Lib.Run (fun s₀ => s₀ = s) (step E M) (fun s₁ _ => s₁.election i ≠ none) past s') :
    (s'.node i).state ≠ .candidate := by
  refine Lib.Run.invariant (P := fun _ (t : Cluster σ) => (t.node i).state ≠ .candidate) ?_ ?_ h
  · rintro _ rfl
    exact hs
  · exact fun past t st t' _ ht hel hstep => step_not_candidate hstep hel ht

/-! ## The two handlers -/

/-- A handler changes the role by the term rule only. -/
theorem accept_role (E : Engine σ) (disk : Disk) {req : LeaderRequest} (hterm : n.currentTerm ≤ req.term) :
    ∃ m, Joins (disk 0) n req.term m ∧ (n.accept E disk req).state = m.state ∧
      (n.accept E disk req).currentTerm = m.currentTerm ∧
      (n.accept E disk req).leader = m.leader ∧ (n.accept E disk req).votedFor = m.votedFor := by
  cases req with
  | append req =>
    have hcases := RaftNode.received disk n req
    unfold RaftNode.accept
    dsimp only
    generalize n.handleAppendEntries disk req = r at hcases ⊢
    cases hcases with
    | stale hlt => exact absurd hlt (Nat.not_lt.mpr hterm)
    | rejected hm _ => exact ⟨_, hm, rfl, rfl, rfl, rfl⟩
    | failed hm _ _ => exact ⟨_, hm, rfl, rfl, rfl, rfl⟩
    | done hm _ _ =>
      refine ⟨_, hm, ?_⟩
      obtain ⟨commit, gs, hadvance, -⟩ := advanceCommit_cases _ req
      rw [hadvance]
      exact ⟨rfl, rfl, rfl, rfl⟩
  | install req =>
    have hcases := installed E disk n req
    unfold RaftNode.accept
    dsimp only
    generalize n.handleInstallSnapshot E disk req = r at hcases ⊢
    cases hcases with
    | stale hlt => exact absurd hlt (Nat.not_lt.mpr hterm)
    | unrestored hm _ => exact ⟨_, hm, rfl, rfl, rfl, rfl⟩
    | uncompacted hm _ _ _ => exact ⟨_, hm, rfl, rfl, rfl, rfl⟩
    | done hm _ _ _ _ => exact ⟨_, hm, rfl, rfl, rfl, rfl⟩

/-- **Accepting a leader ends a candidacy exactly if the term is newer.** For every node, every request
of a leader whose term is not stale, every engine and outcome of the writes; a follower (without
bookkeeping, as all are) stays one. -/
theorem accepted_leader_ends_candidacy_iff {req : LeaderRequest} (hterm : n.currentTerm ≤ req.term) :
    EndsCandidacy E M i n (n.accept E disk req) req.term ↔
      n.currentTerm < req.term ∨ n.state = .follower ∧ n.leader = none := by
  obtain ⟨m, hm, hstate, hcurrent, hleader, hvote⟩ := accept_role E disk hterm
  constructor
  · intro h
    cases hm with
    | same _ => exact Or.inr ⟨hstate.symm.trans h.state, hleader.symm.trans h.leader⟩
    | down hlt => exact Or.inl hlt
  · intro h
    have hfollows : m.state = .follower ∧ m.leader = none ∧
        (n.currentTerm = req.term → m.votedFor = n.votedFor) := by
      cases hm with
      | same heq =>
        obtain hlt | ⟨hf, hl⟩ := h
        · exact absurd heq (Nat.ne_of_lt hlt)
        · exact ⟨hf, hl, fun _ => rfl⟩
      | down hlt => exact ⟨rfl, rfl, fun heq => absurd heq (Nat.ne_of_lt hlt)⟩
    refine ⟨hstate.trans hfollows.1, hcurrent.trans hm.term_eq, hleader.trans hfollows.2.1,
      fun heq => hvote.trans (hfollows.2.2 heq), fun s past t hs hrun disk' => ?_⟩
    refine if_pos (not_candidate_while_voting ?_ hrun)
    rw [hs, hstate, hfollows.1]
    exact NodeState.noConfusion

/-- A node that has just started an election for term 1. -/
def candidateOne : RaftNode BoltEngine :=
  ((Shipped.start.node Shipped.node2).startElection fun _ => true).1

/-- A heartbeat of the first node, leader of the term. -/
def heartbeatOf (term : Nat) : AppendEntriesRequest := ⟨term, Shipped.node1, 0, 0, [], 0⟩

theorem accepted_leader_ends_candidacy_termTwo :
    candidateOne.state = .candidate ∧ candidateOne.currentTerm = 1 ∧
      EndsCandidacy Shipped.engine Shipped.membership Shipped.node2 candidateOne
        (candidateOne.accept Shipped.engine (fun _ => true) (.append (heartbeatOf 2))) 2 :=
  ⟨rfl, rfl, (accepted_leader_ends_candidacy_iff (by decide)).mpr (Or.inl (by decide))⟩

/-- **A candidate accepts a leader and becomes leader of the same term.** The heartbeat is answered with
a success, the node stays a candidate, and the votes of its election still make it leader. -/
theorem two_leaders_in_sight :
    let r := candidateOne.handleAppendEntries (fun _ => true) (heartbeatOf 1)
    candidateOne.currentTerm = 1 ∧ r.2.success = true ∧ r.1.leaderID = Shipped.node1 ∧
      r.1.state = .candidate ∧ r.1.currentTerm = 1 ∧
      (r.1.becomeLeader fun _ => true).state = .leader := by
  decide

end Cluster

end Raftrix
