import Raftrix.Cluster.Shipped
import Raftrix.Cluster.Terms
import Raftrix.Lib.LogHistory
import Raftrix.Log.Leader

/-!
# The two majorities

`startElection` and `commitCandidate` each compute a majority: `len(peers)/2 + 1` votes, compared inside
the goroutine that brings a vote, and `(len(matchIndex)+1)/2 + 1` copies.

`Gathers` is the collecting of votes: answers and transport errors in any order, with any other steps of
the node in between. It ends with one vote for each grant and one for the node itself, and the election
counts as won if there was a grant and the votes reach `quorum` (`Gathers.won_iff`).

**`same_majority_iff`**: that is the majority of `commitCandidate` for two nodes and for every odd
number of nodes above one, and for no other cluster. A single node never wins, and four nodes elect with
two votes.
-/

namespace Raftrix

variable {σ : Type}

namespace RaftNode

/-! ## Gathering votes -/

/-- A peer and what became of the request to it: the answer, or `none` for a transport error. -/
abbrev VoteOutcome := NodeID × Option RequestVoteResponse

/-- The peer has granted its vote. -/
def grants (o : VoteOutcome) : Bool :=
  match o.2 with
  | some resp => resp.voteGranted
  | none => false

/-- The answer of a peer that is not ahead: its vote, or none. -/
def answer (a : NodeID × Bool) : VoteOutcome :=
  (a.1, some { voterID := a.1, term := 0, voteGranted := a.2 })

@[simp] theorem grants_answer (a : NodeID × Bool) : grants (answer a) = a.2 := rfl

@[simp] theorem fst_answer (a : NodeID × Bool) : (answer a).1 = a.1 := rfl

/-- `startElection` of `n₀` between its requests and its end: the struct, the local variables and the
outcomes so far. No answer brings a higher term. -/
inductive Gathers (disk : Disk) (n₀ : RaftNode σ) :
    RaftNode σ → Election → List VoteOutcome → Prop
  | start : Gathers disk n₀ (n₀.startElection disk).1 ⟨(n₀.startElection disk).2.term, 1, false⟩ []
  /-- Another critical section of the node. -/
  | other {n n' : RaftNode σ} {el : Election} {os : List VoteOutcome} (h : Gathers disk n₀ n el os)
      (hpeers : n'.peers = n.peers) : Gathers disk n₀ n' el os
  | answered {d : Disk} {n : RaftNode σ} {el : Election} {os : List VoteOutcome} {p : NodeID}
      {resp : RequestVoteResponse} (h : Gathers disk n₀ n el os) (hterm : resp.term ≤ n.currentTerm) :
      Gathers disk n₀ (n.voteResponse d el resp).1 (n.voteResponse d el resp).2
        (os ++ [(p, some resp)])
  | failed {n : RaftNode σ} {el : Election} {os : List VoteOutcome} {p : NodeID}
      (h : Gathers disk n₀ n el os) : Gathers disk n₀ n el (os ++ [(p, none)])

/-- The end of `startElection`: become leader if `wonCh` holds a value. -/
def concludeElection (disk : Disk) (n : RaftNode σ) (el : Election) : RaftNode σ :=
  if el.won then n.becomeLeader disk else n

/-- It is what the cluster does with its node. -/
theorem node_endElection (disk : Disk) (s : Cluster σ) (i : NodeID) (el : Election) :
    (s.endElection disk i el).node i = (s.node i).concludeElection disk el := by
  unfold Cluster.endElection concludeElection
  split <;> simp [Cluster.setElection, Cluster.setNode]

section Count

variable {disk : Disk} {n₀ n : RaftNode σ} {el : Election} {os : List VoteOutcome}

theorem Gathers.peers (h : Gathers disk n₀ n el os) : n.peers = n₀.peers := by
  induction h with
  | start => rfl
  | other _ hpeers ih => exact hpeers.trans ih
  | answered _ hterm ih =>
    rw [voteResponse, if_neg (Nat.not_lt.mpr hterm)]
    split <;> exact ih
  | failed _ ih => exact ih

/-- **The count**: one vote for the node and one for each grant. -/
theorem Gathers.votes (h : Gathers disk n₀ n el os) : el.votes = 1 + os.countP grants := by
  induction h with
  | start => rfl
  | other _ _ ih => exact ih
  | @answered d n el os p resp _ hterm ih =>
    rw [voteResponse, if_neg (Nat.not_lt.mpr hterm), List.countP_append, ← Nat.add_assoc, ← ih]
    by_cases hg : resp.voteGranted = true <;> simp [hg, grants]
  | failed _ ih => simp [List.countP_append, grants, ih]

/-- **When the election is won**: there was a grant, and the votes reach `quorum`. -/
theorem Gathers.won_iff (h : Gathers disk n₀ n el os) :
    el.won = true ↔ 1 ≤ os.countP grants ∧ n₀.quorum ≤ 1 + os.countP grants := by
  induction h with
  | start => simp
  | other _ _ ih => exact ih
  | @answered d n el os p resp hg hterm ih =>
    have hvotes := hg.votes
    have hquorum : n.quorum = n₀.quorum := by rw [quorum, quorum, hg.peers]
    rw [voteResponse, if_neg (Nat.not_lt.mpr hterm), List.countP_append]
    by_cases hgrant : resp.voteGranted = true
    · simp only [hgrant, if_true, Bool.or_eq_true, decide_eq_true_iff, ih, hquorum, hvotes, grants,
        List.countP_singleton]
      omega
    · simp only [hgrant, Bool.false_eq_true, if_false, ih, grants, List.countP_singleton]
      omega
  | failed _ ih => simp [List.countP_append, grants, ih]

/-- A node that is still candidate becomes leader exactly if its election is won. -/
theorem concludeElection_leader_iff (hcand : n.state = .candidate) :
    (n.concludeElection disk el).state = .leader ↔ el.won = true := by
  unfold concludeElection becomeLeader
  by_cases hwon : el.won = true
  · simp [hwon, hcand]
  · simp [hwon, hcand]

/-- Answers that come one after the other. -/
theorem Gathers.answers (h : Gathers disk n₀ n el os) (answers : List (NodeID × Bool)) :
    ∃ el', Gathers disk n₀ n el' (os ++ answers.map answer) := by
  induction answers generalizing el os with
  | nil => exact ⟨el, by simpa using h⟩
  | cons a rest ih =>
    have hstep : Gathers disk n₀ _ _ (os ++ [answer a]) := h.answered (d := disk) (Nat.zero_le _)
    have hsame : ∀ resp : RequestVoteResponse, resp.term ≤ n.currentTerm →
        (n.voteResponse disk el resp).1 = n := by
      intro resp hterm
      rw [voteResponse, if_neg (Nat.not_lt.mpr hterm)]
      split <;> rfl
    rw [hsame _ (Nat.zero_le _)] at hstep
    obtain ⟨el', h'⟩ := ih hstep
    exact ⟨el', by simpa using h'⟩

end Count

/-! ## Voters and holders -/

/-- The election of node `c` in the cluster `M` once the outcome of every request is known, the node
being still candidate. -/
structure Polled (M : Membership) (c : NodeID) (disk : Disk) (n : RaftNode σ) (el : Election)
    (os : List VoteOutcome) : Prop where
  member : c ∈ M.ids
  gathered : ∃ n₀ : RaftNode σ, n₀.peers = M.peers c ∧ Gathers disk n₀ n el os
  all : (os.map Prod.fst).Perm ((M.peers c).map Peer.id)
  candidate : n.state = .candidate

/-- The peers that granted their votes. -/
def voters (os : List VoteOutcome) : Finset NodeID := ((os.filter grants).map Prod.fst).toFinset

section Sets

variable {M : Membership} {c : NodeID} {disk : Disk} {n : RaftNode σ} {el : Election}
  {os : List VoteOutcome}

theorem mem_peers_iff {j : NodeID} (hc : c ∈ M.ids) :
    j ∈ (M.peers c).map Peer.id ↔ j ∈ M.ids ∧ j ≠ c := by
  rw [(M.peers_perm c hc).mem_iff, M.nodup.mem_erase_iff]
  exact and_comm

/-- A node becomes leader exactly if it has a grant and the votes reach `len(peers)/2 + 1`. -/
theorem Polled.leader_iff (h : Polled M c disk n el os) :
    (n.concludeElection disk el).state = .leader ↔
      1 ≤ os.countP grants ∧ (M.ids.length - 1) / 2 + 1 ≤ 1 + os.countP grants := by
  obtain ⟨n₀, hpeers, hg⟩ := h.gathered
  have hlen := Cluster.length_peers h.member
  rw [concludeElection_leader_iff h.candidate, hg.won_iff, quorum, hpeers,
    show (M.peers c).length = M.ids.length - 1 by omega]

/-- The voters are other members, one for each grant. -/
theorem Polled.card_voters (h : Polled M c disk n el os) :
    insert c (voters os) ⊆ M.ids.toFinset ∧
      (insert c (voters os)).card = 1 + os.countP grants := by
  have hmem : ∀ j ∈ voters os, j ∈ M.ids ∧ j ≠ c := by
    intro j hj
    rw [voters, List.mem_toFinset] at hj
    refine (mem_peers_iff h.member).mp (h.all.mem_iff.mp ?_)
    exact List.map_subset _ (List.filter_subset_self os) hj
  constructor
  · intro j hj
    rw [List.mem_toFinset]
    rcases Finset.mem_insert.mp hj with rfl | hj
    · exact h.member
    · exact (hmem j hj).1
  · have hnodup : (os.map Prod.fst).Nodup :=
      ((h.all.trans (M.peers_perm c h.member)).nodup_iff).mpr (M.nodup.erase c)
    have hvoters : ((os.filter grants).map Prod.fst).Nodup :=
      hnodup.sublist (List.filter_sublist.map _)
    rw [Finset.card_insert_of_notMem fun hc => (hmem c hc).2 rfl, voters,
      List.toFinset_card_of_nodup hvoters, List.length_map, List.countP_eq_length_filter,
      Nat.add_comm]

end Sets

/-- The node and its voters, when it becomes leader. -/
def WinningVoters (σ : Type) (M : Membership) (W : Finset NodeID) : Prop :=
  ∃ (c : NodeID) (disk : Disk) (n : RaftNode σ) (el : Election) (os : List VoteOutcome),
    Polled M c disk n el os ∧ (n.concludeElection disk el).state = .leader ∧
      W = insert c (voters os)

/-- A leader and the peers it knows to hold an index, when `commitCandidate` accepts their number. -/
def CommitQuorum (M : Membership) (Q : Finset NodeID) : Prop :=
  ∃ (c : NodeID) (ls : LeaderState) (k : Nat), c ∈ M.ids ∧
    (∀ j, j ∈ ls.matchIndex ↔ j ∈ (M.peers c).map Peer.id) ∧ ls.majority ≤ ls.count k ∧
    Q = insert c (ls.holders k)

theorem CommitQuorum.majority {M : Membership} {Q : Finset NodeID} (h : CommitQuorum M Q) :
    Lib.Majority M.ids Q := by
  obtain ⟨c, ls, k, hc, hkeys, hcount, rfl⟩ := h
  have hmem : ∀ j ∈ ls.holders k, j ∈ M.ids ∧ j ≠ c := fun j hj =>
    (mem_peers_iff hc).mp ((hkeys j).mp (LeaderState.mem_holders.mp hj).1)
  constructor
  · intro j hj
    rw [List.mem_toFinset]
    rcases Finset.mem_insert.mp hj with rfl | hj
    · exact hc
    · exact (hmem j hj).1
  · have hlen : ls.matchIndex.keys.length = (M.peers c).length := by
      have hperm : ls.matchIndex.keys.Perm ((M.peers c).map Peer.id) :=
        (List.perm_ext_iff_of_nodup (AList.keys_nodup _)
          (((M.peers_perm c hc).nodup_iff).mpr (M.nodup.erase c))).mpr hkeys
      rw [hperm.length_eq, List.length_map]
    have hpeers := Cluster.length_peers hc
    have hhalf := (ls.majority_le_count_iff k).mp hcount
    rw [Finset.card_insert_of_notMem fun hc => (hmem c hc).2 rfl]
    omega

/-! ## When the two agree -/

/-- Elections and commits use the same majority. -/
structure SameMajority (σ : Type) (M : Membership) : Prop where
  /-- A node becomes leader exactly with the majority that `commitCandidate` asks for. -/
  wins : ∀ (c : NodeID) (disk : Disk) (n : RaftNode σ) (el : Election) (os : List VoteOutcome),
    Polled M c disk n el os → ((n.concludeElection disk el).state = .leader ↔
      ((M.peers c).length + 1) / 2 + 1 ≤ 1 + os.countP grants)
  /-- Two winning sets of voters share a node. -/
  elections : ∀ W W', WinningVoters σ M W → WinningVoters σ M W' → ∃ v, v ∈ W ∧ v ∈ W'
  /-- So do a winning set of voters and a commit quorum. -/
  commits : ∀ W Q, WinningVoters σ M W → CommitQuorum M Q → ∃ v, v ∈ W ∧ v ∈ Q

/-- Two nodes, or an odd number above one. -/
def TwoOrOdd (M : Membership) : Prop :=
  M.ids.length = 2 ∨ M.ids.length % 2 = 1 ∧ M.ids.length ≠ 1

instance (M : Membership) : Decidable (TwoOrOdd M) := inferInstanceAs (Decidable (_ ∨ _))

section Agreement

variable {M : Membership} {c : NodeID} {disk : Disk} {n : RaftNode σ} {el : Election}
  {os : List VoteOutcome}

theorem TwoOrOdd.wins (h : TwoOrOdd M) (hp : Polled M c disk n el os) :
    (n.concludeElection disk el).state = .leader ↔
      ((M.peers c).length + 1) / 2 + 1 ≤ 1 + os.countP grants := by
  have hlen := Cluster.length_peers hp.member
  rw [hp.leader_iff]
  rcases h with h | ⟨hodd, hone⟩ <;> omega

theorem WinningVoters.majority (h : TwoOrOdd M) {W : Finset NodeID} (hW : WinningVoters σ M W) :
    Lib.Majority M.ids W := by
  obtain ⟨c, disk, n, el, os, hp, hlead, rfl⟩ := hW
  obtain ⟨hsub, hcard⟩ := hp.card_voters
  have hlen := Cluster.length_peers hp.member
  have hwins := (h.wins hp).mp hlead
  refine ⟨hsub, ?_⟩
  rw [hcard]
  omega

/-- An election in which every peer answers is possible, whatever the answers. -/
theorem polled_of_answers (store : σ) (hc : c ∈ M.ids) {answers : List (NodeID × Bool)}
    (hall : (answers.map Prod.fst).Perm ((M.peers c).map Peer.id)) :
    ∃ (n : RaftNode σ) (el : Election), Polled M c (fun _ => true) n el (answers.map answer) := by
  have hstart : Gathers (fun _ => true) ((Cluster.init M (fun _ => store) fun _ => 0).node c)
    _ _ _ := .start
  obtain ⟨el, h⟩ := hstart.answers answers
  refine ⟨_, el, hc, ⟨_, rfl, h⟩, ?_, rfl⟩
  simpa [Function.comp_def] using hall

/-- So is one with any number of grants. -/
theorem exists_polled (store : σ) (hc : c ∈ M.ids) {g : Nat} (hg : g ≤ (M.peers c).length) :
    ∃ (n : RaftNode σ) (el : Election) (os : List VoteOutcome),
      Polled M c (fun _ => true) n el os ∧ os.countP grants = g := by
  have hall : ((((M.peers c).take g).map (fun p => (p.id, true)) ++
      ((M.peers c).drop g).map fun p => (p.id, false)).map Prod.fst).Perm
        ((M.peers c).map Peer.id) := by
    simp only [List.map_append, List.map_map, Function.comp_def]
    rw [← List.map_append, List.take_append_drop]
  obtain ⟨n, el, h⟩ := polled_of_answers store hc hall
  refine ⟨n, el, _, h, ?_⟩
  simp only [List.map_append, List.map_map, List.countP_append, List.countP_map, Function.comp_def,
    grants_answer]
  simp [hg]

/-- **The two majorities are the same exactly for two nodes and for odd clusters above one node.** -/
theorem same_majority_iff (store : σ) (M : Membership) (hM : M.ids ≠ []) :
    SameMajority σ M ↔ TwoOrOdd M := by
  constructor
  · intro h
    obtain ⟨c, hc⟩ := List.exists_mem_of_ne_nil _ hM
    have hlen := Cluster.length_peers hc
    -- half of the peers grant their votes
    obtain ⟨n, el, os, hp, hg⟩ := exists_polled store hc (Nat.div_le_self (M.peers c).length 2)
    have hwins := h.wins c _ n el os hp
    rw [hp.leader_iff, hg] at hwins
    unfold TwoOrOdd
    omega
  · intro h
    exact ⟨fun _ _ _ _ _ hp => h.wins hp, fun _ _ hW hW' => (hW.majority h).meet (hW'.majority h),
      fun _ _ hW hQ => (hW.majority h).meet hQ.majority⟩

/-- The shipped cluster has three nodes. -/
theorem same_majority_shipped : SameMajority BoltEngine Shipped.membership :=
  (same_majority_iff .empty Shipped.membership (by decide)).mpr (by decide)

/-- The shipped nodes and `"node-4"`. -/
def fourNodes : Membership where
  ids := [Shipped.node1, Shipped.node2, Shipped.node3, [110, 111, 100, 101, 45, 52]]
  peers i := ([Shipped.node1, Shipped.node2, Shipped.node3, [110, 111, 100, 101, 45, 52]].erase i).map
    fun j => ⟨j⟩
  nodup := by decide
  nonempty := by decide
  peers_perm := by decide
  utf8 := by decide

/-- One grant makes a leader of four nodes. -/
theorem winningVoters_four {c : NodeID} {answers : List (NodeID × Bool)} (hc : c ∈ fourNodes.ids)
    (hall : (answers.map Prod.fst).Perm ((fourNodes.peers c).map Peer.id))
    (hone : (answers.map answer).countP grants = 1) :
    WinningVoters BoltEngine fourNodes (insert c (voters (answers.map answer))) := by
  obtain ⟨n, el, hp⟩ := polled_of_answers (σ := BoltEngine) Lib.Bucket.empty hc hall
  refine ⟨c, _, n, el, _, hp, hp.leader_iff.mpr ?_, rfl⟩
  rw [hone]
  decide

/-- **Four nodes elect two leaders.** Node 1 has the vote of node 2 and node 3 that of node 4; both
become leader with two votes of four, where `commitCandidate` asks for three, and no node has voted for
both. -/
theorem four_nodes_elect_two :
    ¬ SameMajority BoltEngine fourNodes ∧
      WinningVoters BoltEngine fourNodes {Shipped.node1, Shipped.node2} ∧
      WinningVoters BoltEngine fourNodes {Shipped.node3, [110, 111, 100, 101, 45, 52]} ∧
      Disjoint ({Shipped.node1, Shipped.node2} : Finset NodeID)
        {Shipped.node3, [110, 111, 100, 101, 45, 52]} := by
  have hfirst : WinningVoters BoltEngine fourNodes
      (insert Shipped.node1 (voters ([(Shipped.node2, true), (Shipped.node3, false),
        ([110, 111, 100, 101, 45, 52], false)].map answer))) :=
    winningVoters_four (by decide) (by decide) (by decide)
  have hsecond : WinningVoters BoltEngine fourNodes
      (insert Shipped.node3 (voters ([([110, 111, 100, 101, 45, 52], true), (Shipped.node1, false),
        (Shipped.node2, false)].map answer))) :=
    winningVoters_four (by decide) (by decide) (by decide)
  refine ⟨fun h => ?_, hfirst, hsecond, by decide⟩
  obtain ⟨v, hv, hv'⟩ := h.elections _ _ hfirst hsecond
  revert v
  decide

end Agreement

end RaftNode

end Raftrix
