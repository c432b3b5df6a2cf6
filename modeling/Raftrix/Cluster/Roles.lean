import Raftrix.Cluster.ElectionSafety
import Raftrix.Cluster.Leadership
import Raftrix.Model.BoltLog

/-!
# The role of a node

Five functions write the role, the term, the vote and the bookkeeping of a leader, some of them after
taking the lock again with what they knew before. As long as `SaveMeta` succeeds they keep one
invariant (`RoleInvariant`): the file holds term and vote, `n.leader` is set exactly for a leader and
has an entry for every peer, and a candidate or leader has voted for itself.

**`role_invariant`** puts it together with what holds along the run: a node's term never goes down, and
a node that becomes leader does so in the term its votes were asked for, because the goroutine that
could make it a candidate again is the one that is still gathering them (`Reaches.election_term`).

The ids of a `Membership` are valid UTF-8. Of another id the file has the text that JSON makes of it
(`vote_on_file_differs`).
-/

namespace Raftrix

namespace LeaderState

variable {ls : LeaderState} {peers : List Peer} {j : NodeID}

/-- Both maps have an entry for every peer. -/
def Covers (ls : LeaderState) (peers : List Peer) : Prop :=
  ∀ p ∈ peers, p.id ∈ ls.nextIndex ∧ p.id ∈ ls.matchIndex

theorem covers_newLeaderState (peers : List Peer) (lastIndex : Nat) :
    (newLeaderState peers lastIndex).Covers peers := by
  intro p hp
  have hmem := List.mem_map_of_mem (f := Peer.id) hp
  simp only [newLeaderState, mem_foldl_insert]
  exact ⟨Or.inl hmem, Or.inl hmem⟩

/-- No update removes an entry. -/
theorem Covers.mono {ls' : LeaderState} (h : ls.Covers peers)
    (hnext : ∀ j ∈ ls.nextIndex, j ∈ ls'.nextIndex) (hmatch : ∀ j ∈ ls.matchIndex, j ∈ ls'.matchIndex) :
    ls'.Covers peers :=
  fun p hp => ⟨hnext _ (h p hp).1, hmatch _ (h p hp).2⟩

theorem Covers.acknowledge (h : ls.Covers peers) (peer : NodeID) (index : Nat) :
    (ls.acknowledge peer index).Covers peers := by
  refine h.mono (fun j hj => ?_) (fun j hj => ?_)
  · simp [LeaderState.acknowledge, AList.mem_insert, hj]
  · unfold LeaderState.acknowledge
    dsimp only
    split
    · simp [AList.mem_insert, hj]
    · exact hj

theorem Covers.backUp (h : ls.Covers peers) (peer : NodeID) (index : Nat) :
    (ls.backUp peer index).Covers peers := by
  refine h.mono (fun j hj => ?_) (fun j hj => ?_)
  · unfold LeaderState.backUp
    split
    · simp [AList.mem_insert, hj]
    · split
      · simp [AList.mem_insert, hj]
      · exact hj
  · rw [backUp_matchIndex]
    exact hj

/-- The update for a snapshot. -/
theorem Covers.insert (h : ls.Covers peers) (peer : NodeID) (next index : Nat) :
    LeaderState.Covers ⟨ls.nextIndex.insert peer next, ls.matchIndex.insert peer index⟩ peers := by
  refine h.mono (fun j hj => ?_) (fun j hj => ?_)
  · simp [AList.mem_insert, hj]
  · simp [AList.mem_insert, hj]

end LeaderState

namespace Cluster

variable {σ : Type} {E : Engine σ} {M : Membership} {disk : Disk} {s s' : Cluster σ} {a : Action}
  {st : Step} {i : NodeID} {n m : RaftNode σ}

/-! ## One step -/

/-- The bookkeeping covers the peers; a candidate or leader has voted for itself. -/
structure RoleHolds (n : RaftNode σ) : Prop where
  covers : ∀ ls, n.leader = some ls → ls.Covers n.peers
  own : n.state ≠ .follower → n.votedFor = n.id

theorem RoleHolds.of_follower (hstate : n.state = .follower) (hleader : n.leader = none) :
    RoleHolds n := by
  refine ⟨fun ls hls => ?_, fun hrole => absurd hstate hrole⟩
  rw [hleader] at hls
  exact absurd hls (by simp)

/-- Nothing that concerns the role has changed. -/
theorem RoleHolds.congr (h : RoleHolds n) (hid : m.id = n.id) (hpeers : m.peers = n.peers)
    (hvote : m.votedFor = n.votedFor) (hstate : m.state = n.state) (hleader : m.leader = n.leader) :
    RoleHolds m := by
  refine ⟨fun ls hls => ?_, fun hrole => ?_⟩
  · rw [hpeers]
    exact h.covers ls (hleader ▸ hls)
  · rw [hvote, hid]
    exact h.own (hstate ▸ hrole)

/-- The bookkeeping has changed. -/
theorem RoleHolds.count (h : RoleHolds n) (hid : m.id = n.id) (hpeers : m.peers = n.peers)
    (hvote : m.votedFor = n.votedFor) (hstate : m.state = n.state) {ls : LeaderState}
    (hleader : m.leader = some ls) (hls : ls.Covers n.peers) : RoleHolds m := by
  refine ⟨fun ls' hls' => ?_, fun hrole => ?_⟩
  · obtain rfl : ls = ls' := Option.some.inj (hleader.symm.trans hls')
    rw [hpeers]
    exact hls
  · rw [hvote, hid]
    exact h.own (hstate ▸ hrole)

theorem Joins.roleHolds {written : Bool} {term : Nat} (hm : Joins written n term m)
    (h : RoleHolds n) : RoleHolds m := by
  cases hm with
  | same _ => exact h
  | down _ => exact .of_follower rfl rfl

theorem Move.roleHolds (hid : (s.node i).id ≠ []) (hmove : Move E M disk s a i n)
    (h : RoleHolds (s.node i)) : RoleHolds n := by
  cases hmove with
  | idle => exact h
  | panic => exact .of_follower rfl rfl
  | down _ _ => exact .of_follower rfl rfl
  | timeout _ _ _ => exact ⟨h.covers, fun _ => rfl⟩
  | grant _ _ hm hfree _ =>
    have hjoined := hm.roleHolds h
    refine ⟨hjoined.covers, fun hrole => ?_⟩
    -- a candidate or leader has a vote already, and gives it to itself again at most
    have hown := hjoined.own hrole
    rcases hfree with hnone | hsame
    · rw [hnone, hm.identity.1] at hown
      exact absurd hown.symm hid
    · exact hsame.symm.trans hown
  | lead _ _ hrole =>
    refine ⟨fun ls hls => ?_, fun _ => h.own (by simp [hrole])⟩
    obtain rfl := Option.some.inj hls
    exact LeaderState.covers_newLeaderState _ _
  | mismatch _ _ hm => exact (hm.roleHolds h).congr rfl rfl rfl rfl rfl
  | splice _ _ hm _ _ => exact (hm.roleHolds h).congr rfl rfl rfl rfl rfl
  | acked _ _ _ _ _ hls _ _ =>
    exact h.count rfl rfl rfl rfl rfl ((h.covers _ hls).acknowledge _ _)
  | backedUp _ _ _ hls => exact h.count rfl rfl rfl rfl rfl ((h.covers _ hls).backUp _ _)
  | restore _ hm => exact (hm.roleHolds h).congr rfl rfl rfl rfl rfl
  | install _ hm _ => exact (hm.roleHolds h).congr rfl rfl rfl rfl rfl
  | snapshotAcked _ hls => exact h.count rfl rfl rfl rfl rfl ((h.covers _ hls).insert _ _ _)
  | @apply i k gs =>
    have ho := RaftNode.onlyApplies_applyCommitted E disk { s.node i with goroutines := gs }
    exact h.congr ho.id ho.peers ho.votedFor ho.state ho.leader
  | _ => exact h.congr rfl rfl rfl rfl rfl

/-! ## Over a run -/

/-- The file holds term and vote, `n.leader` is set exactly for a leader and then has an entry for
every peer, and a candidate or leader has voted for itself. -/
structure RoleInvariant (n : RaftNode σ) : Prop where
  stored : n.raftLog.loadMeta = (n.currentTerm, n.votedFor)
  leader : n.leader.isSome = true ↔ n.state = .leader
  covers : ∀ ls, n.leader = some ls → ∀ p ∈ n.peers, p.id ∈ ls.nextIndex ∧ p.id ∈ ls.matchIndex
  own : n.state = .candidate ∨ n.state = .leader → n.votedFor = n.id

section Runs

variable {store : NodeID → σ} {threshold : NodeID → Int} {ok : Cluster σ → Step → Prop}
  {past : List (Cluster σ × Step)}

theorem Reaches.roleHolds (h : Reaches E M store threshold ok past s) (hi : i ∈ M.ids) :
    RoleHolds (s.node i) := by
  refine Reaches.forall_node (P := fun i n => i ∈ M.ids → RoleHolds n)
    (fun i _ => .of_follower rfl rfl) ?_ h i hi
  intro past s st i n hr hinv _ hmoved hi
  have hid : (s.node i).id ≠ [] := by
    rw [(hr.identity i).1]
    exact ne_nil_of_mem hi
  cases hmoved with
  | act hmove => exact hmove.roleHolds hid (hinv _ hi)
  | crash => exact .of_follower rfl rfl
  | crashDuring _ _ => exact .of_follower rfl rfl
  | applyRead hmove _ => exact (hmove.roleHolds hid (hinv _ hi)).congr rfl rfl rfl rfl rfl

/-- **The role invariant.** In every run whose `SaveMeta` calls succeed, each node meets it in every
state, its term is nowhere below an earlier one, a running election asks for votes of its own term, and
the node becomes leader only in that term. -/
theorem role_invariant (h : Reaches E M store threshold MetaDurable past s) (hi : i ∈ M.ids) :
    RoleInvariant (s.node i) ∧
      (∀ τ ∈ Lib.visited past s, (τ.node i).currentTerm ≤ (s.node i).currentTerm) ∧
      (∀ el, s.election i = some el →
        ∀ c ∈ s.voteCalls, c.src = i → c.waiting = true → c.req.term = el.term) ∧
      ∀ st s', s.step E M st = some s' → (s.node i).state ≠ .leader → (s'.node i).state = .leader →
        ∃ el, s.election i = some el ∧ el.won = true ∧ (s.node i).currentTerm = el.term ∧
          (s'.node i).currentTerm = el.term := by
  have hrole := h.roleHolds hi
  refine ⟨⟨h.saved (fun _ _ h => h) i, (h.leaderSet i).symm, hrole.covers, fun hstate => ?_⟩,
    fun τ hτ => h.term_le (fun _ _ h => h) hτ i, fun el hel c hc hsrc hw => ?_,
    fun st s' hs hnot hlead => ?_⟩
  · rcases hstate with hstate | hstate <;> exact hrole.own (by simp [hstate])
  · obtain ⟨W, hpoll⟩ := h.poll hel
    exact (hpoll.waiting c hc hsrc hw).1
  · cases step_leads hs hlead with
    | still hold _ => exact absurd hold hnot
    | elected _ hel hwon hold hterm =>
      have hel_term := h.election_term hel hold
      exact ⟨_, hel, hwon, hel_term.symm, hterm.trans hel_term.symm⟩

open Shipped (node1)

/-- `node-1` has gathered its votes and has not looked at the result yet. -/
def votesGathered : List Action :=
  [.electionTimeout node1, .handleVote 0, .voteReturn 0, .voteFail 1]

theorem role_invariant_votesGathered : ∃ past s s', Shipped.Reaches MetaDurable past s ∧
    s.step Shipped.engine Shipped.membership (.act (fun _ => true) (.finishElection node1)) = some s' ∧
    (s.node node1).state = .candidate ∧ (s'.node node1).state = .leader ∧
    RoleInvariant (s.node node1) ∧
    ∃ el, s.election node1 = some el ∧ (s'.node node1).currentTerm = el.term := by
  have hrun : Shipped.Reaches MetaDurable (Shipped.play (fun _ _ => True) votesGathered).1
      (Shipped.play (fun _ _ => True) votesGathered).2 :=
    (Shipped.reaches_play (fun _ _ => True) votesGathered).mono fun _ _ h => h.2.metaDurable
  have hcand : ((Shipped.play (fun _ _ => True) votesGathered).2.node node1).state = .candidate := by
    decide +kernel
  have hlead : ((Shipped.play (fun _ _ => True) votesGathered).2.step Shipped.engine
      Shipped.membership (.act (fun _ => true) (.finishElection node1))).map
        (fun s' => (s'.node node1).state) = some .leader := by
    decide +kernel
  obtain ⟨s', hs', hlead⟩ := Option.map_eq_some_iff.mp hlead
  obtain ⟨hinv, _, _, hterm⟩ := role_invariant hrun (i := node1) (by decide)
  obtain ⟨el, hel, _, _, heq⟩ := hterm _ s' hs' (by simp [hcand]) hlead
  exact ⟨_, _, s', hrun, hs', hcand, hlead, hinv, el, hel, heq⟩

open Shipped (nodeFF)

/-- **The vote on file is for somebody else.** A node whose id is the byte `ff` has voted for itself and
saved it; the file of its log, text by text, gives U+FFFD back. -/
theorem vote_on_file_differs : ∃ past s, Shipped.BinaryReaches past s ∧
    (s.node nodeFF).state = .candidate ∧ (s.node nodeFF).votedFor = nodeFF ∧
    (s.node nodeFF).raftLog.loadMeta = (1, [0xEF, 0xBF, 0xBD]) ∧
    (BoltLog.fresh.saveMeta true (s.node nodeFF).currentTerm (s.node nodeFF).votedFor).loadMeta =
      some (1, [0xEF, 0xBF, 0xBD]) ∧
    ¬ RoleInvariant (s.node nodeFF) := by
  have hfile : ((Shipped.binaryPlay [.electionTimeout nodeFF]).2.node nodeFF).raftLog.loadMeta =
      (1, [0xEF, 0xBF, 0xBD]) := by decide
  have hvote : ((Shipped.binaryPlay [.electionTimeout nodeFF]).2.node nodeFF).votedFor = nodeFF := by
    decide
  refine ⟨_, _, Shipped.reaches_binaryPlay [.electionTimeout nodeFF], by decide, hvote, hfile, by decide,
    fun h => ?_⟩
  have hstored := h.stored
  rw [hfile, hvote] at hstored
  exact absurd (Prod.mk.inj hstored).2 (by decide)

end Runs

end Cluster

end Raftrix
