import Raftrix.Cluster.ElectionSafety
import Raftrix.Lib.Stutter
import Raftrix.Model.EventLoop

/-!
# What holds of the event loop

The state of a process against the role of its node, over every interleaving of the `run` goroutine with
handlers, answers and crashes (`Process.Sound`):

* only `run` makes a leader, so `startElection` runs on a node that is not leader, though it does not look
  at the role: `step_of_clusterStep`;
* a node that is not leader has its election timer ticking unless `run` is on its way into
  `startElection`, since every way out of the role goes through `becomeFollower` (`exec_roleKept`);
* a leader has its heartbeat timer ticking, and `run` listens to it: the channel is read anew after
  `becomeLeader`.

`Reaches.cluster`: what a run of the processes shows is a run of the cluster.
-/

namespace Raftrix

namespace RaftNode

variable {σ : Type} {n n' : RaftNode σ}

/-! ## When a handler leaves the role -/

theorem state_handleRequestVote (disk : Disk) (n : RaftNode σ) (req : RequestVoteRequest) :
    (n.handleRequestVote disk req).1.state =
      if n.currentTerm < req.term then .follower else n.state := by
  unfold handleRequestVote
  by_cases hstale : req.term < n.currentTerm
  · rw [if_pos hstale, if_neg (by omega)]
  · rw [if_neg hstale]
    by_cases hnew : req.term > n.currentTerm
    · rw [if_pos hnew, if_pos hnew]
      dsimp only
      split
      · rfl
      · split <;> rfl
    · rw [if_neg hnew, if_neg hnew]
      dsimp only
      split
      · rfl
      · split <;> rfl

theorem state_voteResponse (disk : Disk) (n : RaftNode σ) (el : Election) (resp : RequestVoteResponse) :
    (n.voteResponse disk el resp).1.state =
      if n.currentTerm < resp.term then .follower else n.state := by
  unfold voteResponse
  split
  · rfl
  · split <;> rfl

theorem state_acceptEntries (disk : Disk) (n : RaftNode σ) (req : AppendEntriesRequest) :
    (n.acceptEntries disk req).1.state = n.state := by
  unfold acceptEntries
  dsimp only
  split
  · rfl
  · split
    · obtain ⟨_, _, heq, _⟩ := Cluster.advanceCommit_cases
        { n with raftLog := (n.raftLog.appendEntries disk req.prevLogIndex 0 req.entries).log } req
      rw [heq]
    · rfl

theorem state_handleAppendEntries (disk : Disk) (n : RaftNode σ) (req : AppendEntriesRequest) :
    (n.handleAppendEntries disk req).1.state =
      if n.currentTerm < req.term then .follower else n.state := by
  unfold handleAppendEntries
  by_cases hstale : req.term < n.currentTerm
  · rw [if_pos hstale, if_neg (by omega)]
  · rw [if_neg hstale, state_acceptEntries]
    unfold acceptLeader
    dsimp only
    split <;> rfl

theorem state_handleInstallSnapshot (E : Engine σ) (disk : Disk) (n : RaftNode σ)
    (req : InstallSnapshotRequest) : (n.handleInstallSnapshot E disk req).1.state =
      if n.currentTerm < req.term then .follower else n.state := by
  have hcases := Cluster.installed E disk n req
  have hjoined : ∀ {m m' : RaftNode σ}, Cluster.Joins (disk 0) n req.term m → m'.state = m.state →
      m'.state = if n.currentTerm < req.term then .follower else n.state := by
    intro m m' hm hsame
    rw [hsame]
    cases hm with
    | same heq => rw [if_neg (by omega)]
    | down hlt => rw [if_pos hlt]; rfl
  generalize n.handleInstallSnapshot E disk req = r at hcases ⊢
  cases hcases with
  | stale hlt => rw [if_neg (by omega)]
  | unrestored hm _ => exact hjoined hm rfl
  | uncompacted hm _ _ _ => exact hjoined hm rfl
  | done hm _ _ _ _ => exact hjoined hm rfl

theorem state_appendResponse {disk : Disk} {peer : NodeID} {resp : AppendEntriesResponse}
    (h : n.appendResponse disk peer resp = some n') : n'.state =
      if n.state = .leader ∧ n.currentTerm < resp.term then .follower else n.state := by
  unfold appendResponse at h
  split at h
  · rename_i hrole
    cases h
    rw [if_neg fun h => hrole h.1]
  · rename_i hrole
    split at h
    · rename_i hlt
      cases h
      rw [if_pos ⟨not_not.mp hrole, hlt⟩]
      rfl
    · rename_i hge
      rw [if_neg fun h => hge h.2]
      split at h
      · cases h
      · split at h
        · cases h
          unfold commitAcked
          dsimp only
          split <;> rfl
        · cases h
          rfl

theorem state_snapshotResponse {disk : Disk} {peer : NodeID} {snapshotIdx : Nat}
    {resp : InstallSnapshotResponse} (h : n.snapshotResponse disk peer snapshotIdx resp = some n') :
    n'.state = if n.currentTerm < resp.term then .follower else n.state := by
  unfold snapshotResponse at h
  split at h
  · rename_i hlt
    cases h
    rw [if_pos hlt]
    rfl
  · rename_i hge
    rw [if_neg hge]
    split at h
    · split at h
      · cases h
      · cases h
        rfl
    · cases h
      rfl

end RaftNode

namespace Cluster

variable {σ : Type} {E : Engine σ} {M : Membership} {disk : Disk} {s s' : Cluster σ} {a : Action}
  {st : Step} {i j : NodeID}

/-! ## What a step makes of role and election -/

theorem restart_election_self (n : RaftNode σ) : (s.restart E i n).election i = none :=
  setElection_self _ _ _

theorem restart_election_other (n : RaftNode σ) (hj : j ≠ i) :
    (s.restart E i n).election j = s.election j := setElection_other _ _ _ hj

/-- A critical section concerns its actor only. -/
theorem exec_frame (h : s.exec E M disk a = some s') (hj : s.actor a ≠ some j) :
    s'.node j = s.node j ∧ s'.election j = s.election j := by
  have hx := exec_cases h
  obtain ⟨i, hi, _, hother⟩ := hx.move
  have hne : j ≠ i := by
    rintro rfl
    exact hj hi
  refine ⟨hother j hne, ?_⟩
  cases hx with
  | timeout _ _ _ =>
    obtain rfl := Option.some.inj hi
    exact setElection_other _ _ _ hne
  | voted hk _ _ _ =>
    obtain rfl : _ = i := by simpa [actor, hk] using hi
    exact setElection_other _ _ _ hne
  | finished _ _ =>
    obtain rfl := Option.some.inj hi
    unfold endElection
    rw [setElection_other _ _ _ hne]
    split <;> rfl
  | sendPanic _ _ =>
    obtain rfl := Option.some.inj hi
    exact restart_election_other _ hne
  | appendPanic hk =>
    obtain rfl : _ = i := by simpa [actor, hk] using hi
    exact restart_election_other _ hne
  | installPanic hk =>
    obtain rfl : _ = i := by simpa [actor, hk] using hi
    exact restart_election_other _ hne
  | sent _ _ _ _ => rw [sendTo_election]
  | resumed _ => rw [runGoroutine_election]
  | _ => rfl

/-- The process of a critical section that panics ends, and the next one starts. -/
theorem exec_panics (h : s.exec E M disk a = some s') (hi : s.actor a = some i)
    (hp : s.panics disk a = true) :
    s'.node i = (s.node i).newRaftNode E ∧ s'.election i = none := by
  cases a with
  | replicate i peer =>
    obtain rfl := Option.some.inj hi
    simp only [panics, Option.isNone_iff_eq_none] at hp
    simp only [exec, hp] at h
    split at h
    · cases h
      exact ⟨restart_self _ _, restart_election_self _⟩
    · cases h
  | appendReturn k =>
    simp only [exec] at h
    split at h
    · rename_i src dst req resp hk
      obtain rfl : src = i := by simpa [actor, hk] using hi
      simp only [panics, hk, Option.isNone_iff_eq_none] at hp
      rw [hp] at h
      cases h
      exact ⟨restart_self _ _, restart_election_self _⟩
    · cases h
  | snapshotReturn k =>
    simp only [exec] at h
    split at h
    · rename_i src dst req resp hk
      obtain rfl : src = i := by simpa [actor, hk] using hi
      simp only [panics, hk, Option.isNone_iff_eq_none] at hp
      rw [hp] at h
      cases h
      exact ⟨restart_self _ _, restart_election_self _⟩
    · cases h
  | _ => cases hp

/-- The role after a critical section that is no part of an election: it stays, or the node becomes
follower and its election timer is reset. -/
def RoleKept (s s' : Cluster σ) (i : NodeID) (reset : Bool) : Prop :=
  ((s'.node i).state = (s.node i).state ∨ (s'.node i).state = .follower ∧ reset = true) ∧
    (s'.election i = none ↔ s.election i = none)

theorem RoleKept.of_if {c : Prop} [Decidable c] {reset : Bool}
    (hstate : (s'.node i).state = if c then .follower else (s.node i).state) (hreset : c → reset = true)
    (hel : s'.election i = none ↔ s.election i = none) : RoleKept s s' i reset := by
  refine ⟨?_, hel⟩
  split at hstate
  · rename_i hc
    exact Or.inr ⟨hstate, hreset hc⟩
  · exact Or.inl hstate

theorem RoleKept.of_same {reset : Bool} (hstate : (s'.node i).state = (s.node i).state)
    (hel : s'.election i = s.election i) : RoleKept s s' i reset :=
  ⟨Or.inl hstate, by rw [hel]⟩

theorem state_runGoroutine (E : Engine σ) (disk : Disk) (s : Cluster σ) (i : NodeID) (k : Nat)
    (g : Goroutine) : ((s.runGoroutine E disk i k g).node i).state = (s.node i).state := by
  unfold runGoroutine
  cases g with
  | applyCommitted =>
    refine (congrArg RaftNode.state (setNode_self s i _)).trans ?_
    exact (RaftNode.onlyApplies_applyCommitted E disk _).state
  | takeSnapshot index term =>
    dsimp only
    split <;> rw [setNode_self]
  | compactLog index term data =>
    dsimp only
    rw [setNode_self]
    unfold RaftNode.compactLog
    split <;> rfl

theorem exec_roleKept (h : s.exec E M disk a = some s') (hi : s.actor a = some i)
    (hp : s.panics disk a = false) (ht : ∀ i, a ≠ .electionTimeout i) (hf : ∀ i, a ≠ .finishElection i) :
    RoleKept s s' i (s.resetsElection disk a) := by
  cases a with
  | electionTimeout i => exact absurd rfl (ht i)
  | finishElection i => exact absurd rfl (hf i)
  | appendReturn k =>
    simp only [exec] at h
    split at h
    · rename_i src dst req resp hk
      obtain rfl : src = i := by simpa [actor, hk] using hi
      simp only [panics, hk] at hp
      cases hn : (s.node src).appendResponse disk dst resp with
      | none => rw [hn] at hp; cases hp
      | some n =>
        rw [hn] at h
        cases h
        refine .of_if (c := (s.node src).state = .leader ∧ (s.node src).currentTerm < resp.term) ?_ ?_
          Iff.rfl
        · rw [← RaftNode.state_appendResponse hn]
          exact congrArg RaftNode.state (setNode_self s src n)
        · intro hc
          simp [resetsElection, hk, hc]
    · cases h
  | snapshotReturn k =>
    simp only [exec] at h
    split at h
    · rename_i src dst req resp hk
      obtain rfl : src = i := by simpa [actor, hk] using hi
      simp only [panics, hk] at hp
      cases hn : (s.node src).snapshotResponse disk dst req.lastIncludedIndex resp with
      | none => rw [hn] at hp; cases hp
      | some n =>
        simp only [hn] at h
        cases h
        refine .of_if (c := (s.node src).currentTerm < resp.term) ?_ ?_ Iff.rfl
        · rw [← RaftNode.state_snapshotResponse hn]
          exact congrArg RaftNode.state (setNode_self s src n)
        · intro hc
          simp [resetsElection, hk, hc]
    · cases h
  | handleVote k =>
    cases exec_cases h with
    | @vote _ c hk _ =>
      obtain rfl : c.dst = i := by simpa [actor, hk] using hi
      refine .of_if (c := (s.node c.dst).currentTerm < c.req.term) ?_ ?_ Iff.rfl
      · rw [← RaftNode.state_handleRequestVote disk]
        exact congrArg RaftNode.state (setNode_self s _ _)
      · intro hc
        simp [resetsElection, hk, hc]
  | voteReturn k =>
    cases exec_cases h with
    | @voted _ c resp el hk hr _ hel =>
      obtain rfl : c.src = i := by simpa [actor, hk] using hi
      refine .of_if (c := (s.node c.src).currentTerm < resp.term) ?_ ?_ ?_
      · rw [← RaftNode.state_voteResponse disk _ el]
        exact congrArg RaftNode.state (setNode_self s _ _)
      · intro hc
        obtain ⟨src, dst, req, reply, waiting⟩ := c
        obtain rfl : reply = _ := hr
        simpa [resetsElection, hk] using hc
      · rw [hel]
        exact iff_of_false (by simp) (by simp)
  | handleAppend k =>
    cases exec_cases h with
    | @append _ c hk _ =>
      obtain rfl : c.dst = i := by simpa [actor, hk] using hi
      refine .of_if (c := (s.node c.dst).currentTerm < c.req.term) ?_ ?_ Iff.rfl
      · rw [← RaftNode.state_handleAppendEntries disk]
        exact congrArg RaftNode.state (setNode_self s _ _)
      · intro hc
        simp [resetsElection, hk, Nat.le_of_lt hc]
  | handleSnapshot k =>
    cases exec_cases h with
    | @snapshot _ c hk _ =>
      obtain rfl : c.dst = i := by simpa [actor, hk] using hi
      refine .of_if (c := (s.node c.dst).currentTerm < c.req.term) ?_ ?_ Iff.rfl
      · rw [← RaftNode.state_handleInstallSnapshot E disk]
        exact congrArg RaftNode.state (setNode_self s _ _)
      · intro hc
        simp [resetsElection, hk, Nat.le_of_lt hc]
  | replicate i peer =>
    cases exec_cases h with
    | sent _ _ _ _ =>
      obtain rfl := Option.some.inj hi
      refine .of_same ?_ (by rw [sendTo_election])
      unfold sendTo
      split <;> rfl
    | sendPanic _ hls =>
      simp [panics, hls] at hp
  | propose i cmd =>
    obtain rfl := Option.some.inj hi
    cases exec_cases h with
    | proposed _ =>
      refine .of_same ?_ rfl
      rw [setNode_self]
      unfold RaftNode.propose
      split
      · rfl
      · dsimp only
        split <;> rfl
  | receive i id =>
    obtain rfl := Option.some.inj hi
    cases exec_cases h with
    | received _ _ _ => exact .of_same (by rw [setNode_self]; rfl) rfl
  | cancel i id =>
    obtain rfl := Option.some.inj hi
    cases exec_cases h with
    | cancelled _ _ => exact .of_same (by rw [setNode_self]; rfl) rfl
  | voteFail k =>
    cases exec_cases h with
    | voteFailed _ _ => exact .of_same rfl rfl
  | appendFail k =>
    cases exec_cases h with
    | appendFailed _ => exact .of_same rfl rfl
  | snapshotFail k =>
    cases exec_cases h with
    | snapshotFailed _ => exact .of_same rfl rfl
  | resume i k =>
    obtain rfl := Option.some.inj hi
    cases exec_cases h with
    | resumed _ => exact .of_same (state_runGoroutine E disk s _ _ _) (by rw [runGoroutine_election])

end Cluster

/-! ## What holds of a process -/

namespace Process

variable {σ : Type} {M : Membership} {i : NodeID} {n : RaftNode σ} {el : Option RaftNode.Election}
  {p p' : Process}

/-- The state of a process, against the role and the running election of its node. -/
structure Sound (M : Membership) (i : NodeID) (n : RaftNode σ) (el : Option RaftNode.Election)
    (p : Process) : Prop where
  member : p.loop ≠ .top → i ∈ M.ids
  /-- `n.electionTimer` is not nil. -/
  set : p.electionTimer ≠ .unset
  electing : p.loop = .electing ↔ el ≠ none
  /-- Only `run` makes a leader, so the role it has seen still holds when it calls `startElection`. -/
  follows : p.loop = .starting ∨ p.loop = .electing → n.state ≠ .leader
  election : n.state ≠ .leader → p.stopping ≠ .timersStopped →
    p.electionTimer.ticks = true ∨ p.loop = .electionTick ∨ p.loop = .starting
  heartbeatSet : n.state = .leader → p.heartbeatTimer ≠ .unset
  heartbeat : n.state = .leader → p.stopping ≠ .timersStopped →
    p.heartbeatTimer.ticks = true ∨ p.loop = .heartbeatTick
  /-- The `select` of a leader has the heartbeat channel. -/
  listens : n.state = .leader → p.loop ≠ .waiting false
  peers : ∀ peer ∈ p.sends, peer ∈ n.peers.map Peer.id
  announces : p.announcing ≠ [] → i ∈ M.ids

theorem sound_start (hrole : n.state ≠ .leader) : Sound M i n none start where
  member h := absurd rfl h
  set := by simp [start, Timer.reset]
  electing := iff_of_false (by simp [start]) (by simp)
  follows h := absurd h (by simp [start])
  election _ _ := Or.inl rfl
  heartbeatSet h := absurd h hrole
  heartbeat h := absurd h hrole
  listens h := absurd h hrole
  peers peer h := absurd h List.not_mem_nil
  announces h := absurd rfl h

theorem Sound.loopStep (h : Sound M i n el p) (hi : i ∈ M.ids) {l : LoopStep}
    (hp : p.loopStep n l = some p') : Sound M i n el p' := by
  obtain ⟨hmember, hset, helecting, hfollows, helection, hbset, hb, hlistens, hpeers, hann⟩ := h
  cases l with
  | expireElection =>
    simp only [Process.loopStep, Option.map_eq_some_iff] at hp
    obtain ⟨t, ht, rfl⟩ := hp
    constructor <;> grind [Timer.expire, Timer.ticks]
  | expireHeartbeat =>
    simp only [Process.loopStep, Option.map_eq_some_iff] at hp
    obtain ⟨t, ht, rfl⟩ := hp
    constructor <;> grind [Timer.expire, Timer.ticks]
  | select =>
    simp only [Process.loopStep] at hp
    split at hp
    · cases hp
      constructor <;> grind
    · cases hp
  | receiveElection =>
    simp only [Process.loopStep] at hp
    split at hp
    · obtain ⟨t, ht, rfl⟩ := Option.map_eq_some_iff.mp hp
      constructor <;> grind [Timer.receive, Timer.ticks]
    · cases hp
  | receiveHeartbeat =>
    simp only [Process.loopStep] at hp
    split at hp
    · obtain ⟨t, ht, rfl⟩ := Option.map_eq_some_iff.mp hp
      constructor <;> grind [Timer.receive, Timer.ticks]
    · cases hp
  | checkElection =>
    simp only [Process.loopStep] at hp
    split at hp
    · split at hp <;> cases hp <;> constructor <;> grind [Timer.reset, Timer.ticks]
    · cases hp
  | checkHeartbeat =>
    simp only [Process.loopStep] at hp
    split at hp
    · split at hp <;> cases hp <;> constructor <;> grind [Timer.reset, Timer.ticks]
    · cases hp
  | broadcast =>
    simp only [Process.loopStep, broadcastAppendEntries] at hp
    split at hp
    · split at hp <;> cases hp <;> constructor <;> grind
    · cases hp
  | announce id =>
    simp only [Process.loopStep, broadcastAppendEntries] at hp
    split at hp
    · split at hp <;> cases hp <;> constructor <;> grind
    · cases hp
  | skip peer =>
    simp only [Process.loopStep] at hp
    split at hp
    · cases hp
      exact ⟨hmember, hset, helecting, hfollows, helection, hbset, hb, hlistens,
        fun peer hpeer => hpeers peer (List.mem_of_mem_erase hpeer), hann⟩
    · cases hp

theorem Sound.stopStep (h : Sound M i n el p) (hi : i ∈ M.ids) {l : StopStep}
    (hp : p.stopStep n l = some p') : Sound M i n el p' := by
  obtain ⟨hmember, hset, helecting, hfollows, helection, hbset, hb, hlistens, hpeers, hann⟩ := h
  cases l with
  | close =>
    simp only [Process.stopStep] at hp
    split at hp
    · cases hp
      constructor <;> grind
    · cases hp
  | stopTimers =>
    simp only [Process.stopStep] at hp
    split at hp
    · cases hp
      constructor <;> grind [Timer.stop]
    · cases hp
  | leave =>
    simp only [Process.stopStep] at hp
    split at hp
    · split at hp <;> cases hp
      constructor <;> grind
    · cases hp
  | giveUp id =>
    simp only [Process.stopStep] at hp
    split at hp
    · split at hp <;> cases hp
      exact ⟨hmember, hset, helecting, hfollows, helection, hbset, hb, hlistens, hpeers, hann⟩
    · cases hp

/-- Nothing that concerns the loop has changed, but the node may have become follower and then has its
election timer reset. -/
theorem Sound.kept {s s' : Cluster σ} {reset : Bool} (h : Sound M i (s.node i) (s.election i) p)
    (hkept : Cluster.RoleKept s s' i reset) (hpeers : (s'.node i).peers = (s.node i).peers)
    {announcing : List Nat} {sends : List NodeID} (hsends : ∀ peer ∈ sends, peer ∈ p.sends)
    (hann : announcing ≠ [] → i ∈ M.ids) :
    Sound M i (s'.node i) (s'.election i)
      { p with
        electionTimer := if reset then p.electionTimer.reset else p.electionTimer
        announcing := announcing
        sends := sends } := by
  obtain ⟨hrole, hel⟩ := hkept
  have hlead : (s'.node i).state = .leader → (s.node i).state = .leader := by
    intro hl
    rcases hrole with hsame | ⟨hdown, _⟩
    · exact hsame ▸ hl
    · rw [hdown] at hl
      exact absurd hl (by simp)
  refine ⟨h.member, ?_, ?_, fun hloop hl => h.follows hloop (hlead hl), ?_, fun hl => h.heartbeatSet (hlead hl),
    fun hl => h.heartbeat (hlead hl), fun hl => h.listens (hlead hl), ?_, hann⟩
  · dsimp only
    split
    · simp [Timer.reset]
    · exact h.set
  · rw [ne_eq, hel]
    exact h.electing
  · intro hnot hstop
    dsimp only
    split
    · exact Or.inl rfl
    · rename_i hreset
      rcases hrole with hsame | ⟨_, htrue⟩
      · exact h.election (hsame ▸ hnot) hstop
      · exact absurd htrue hreset
  · intro peer hpeer
    rw [hpeers]
    exact h.peers peer (hsends peer hpeer)

/-- `startElection`. -/
theorem Sound.timeout {s : Cluster σ} {disk : Disk} (h : Sound M i (s.node i) (s.election i) p)
    (hi : i ∈ M.ids) (hpeers : ((s.timeout disk i).node i).peers = (s.node i).peers) :
    Sound M i ((s.timeout disk i).node i) ((s.timeout disk i).election i)
      (p.after disk s (.electionTimeout i)) := by
  have hnode : (s.timeout disk i).node i = ((s.node i).startElection disk).1 := Cluster.setNode_self s i _
  have hel : (s.timeout disk i).election i ≠ none := by
    have hsome : (s.timeout disk i).election i = some _ := Cluster.setElection_self _ i _
    rw [hsome]
    simp
  have hrole : ((s.timeout disk i).node i).state ≠ .leader := by
    rw [hnode]
    simp [RaftNode.startElection]
  exact
    { member := fun _ => hi
      set := by simp [Process.after, Timer.reset]
      electing := iff_of_true rfl hel
      follows := fun _ => hrole
      election := fun _ _ => Or.inl rfl
      heartbeatSet := fun hl => absurd hl hrole
      heartbeat := fun hl => absurd hl hrole
      listens := fun hl => absurd hl hrole
      peers := fun peer hpeer => by rw [hpeers]; exact h.peers peer hpeer
      announces := h.announces }

/-- The end of `startElection`, with or without `becomeLeader`. -/
theorem Sound.finish {s : Cluster σ} {disk : Disk} {el : RaftNode.Election}
    (h : Sound M i (s.node i) (s.election i) p) (hel : s.election i = some el)
    (hpeers : ((s.endElection disk i el).node i).peers = (s.node i).peers) :
    Sound M i ((s.endElection disk i el).node i) ((s.endElection disk i el).election i)
      (p.after disk s (.finishElection i)) := by
  have hloop : p.loop = .electing := h.electing.mpr (by rw [hel]; simp)
  have hnone : (s.endElection disk i el).election i = none := Cluster.setElection_self _ i _
  have hsends : ∀ peer ∈ p.sends, peer ∈ ((s.endElection disk i el).node i).peers.map Peer.id := by
    rw [hpeers]
    exact h.peers
  rw [hnone]
  simp only [Process.after, hel, Option.any_some]
  split
  · rename_i hlead
    have hstate : ((s.endElection disk i el).node i).state = .leader := by
      unfold Cluster.endElection
      rw [if_pos hlead.1]
      refine (congrArg RaftNode.state (Cluster.setNode_self s i _)).trans ?_
      rw [RaftNode.becomeLeader, if_neg (not_not.mpr hlead.2)]
    exact
      { member := fun hne => absurd rfl hne
        set := by
          have := h.set
          cases hp : p.electionTimer <;> simp_all [Timer.stop]
        electing := iff_of_false (by simp) (by simp)
        follows := fun hpos => absurd hpos (by simp)
        election := fun hne => absurd hstate hne
        heartbeatSet := fun _ => by simp [Timer.reset]
        heartbeat := fun _ _ => Or.inl rfl
        listens := fun _ => by simp
        peers := hsends
        announces := h.announces }
  · rename_i hlost
    have hstate : ((s.endElection disk i el).node i).state = (s.node i).state := by
      unfold Cluster.endElection
      split
      · rename_i hwon
        refine (congrArg RaftNode.state (Cluster.setNode_self s i _)).trans ?_
        rw [RaftNode.becomeLeader, if_pos fun hcand => hlost ⟨hwon, hcand⟩]
      · rfl
    have hrole : (s.node i).state ≠ .leader := h.follows (Or.inr hloop)
    rw [← hstate] at hrole
    refine
      { member := fun hne => absurd rfl hne
        set := h.set
        electing := iff_of_false (by simp) (by simp)
        follows := fun _ => hrole
        election := fun hne hstop => ?_
        heartbeatSet := fun hl => absurd hl hrole
        heartbeat := fun hl => absurd hl hrole
        listens := fun hl => absurd hl hrole
        peers := hsends
        announces := h.announces }
    rcases h.election (hstate ▸ hne) hstop with ht | ht | ht
    · exact Or.inl ht
    · rw [hloop] at ht
      cases ht
    · rw [hloop] at ht
      cases ht

/-- A critical section of the process. -/
theorem Sound.after {E : Engine σ} {s s' : Cluster σ} {disk : Disk} {a : Action}
    (h : Sound M i (s.node i) (s.election i) p) (hx : s.exec E M disk a = some s')
    (hi : s.actor a = some i) (hpanic : s.panics disk a = false) :
    Sound M i (s'.node i) (s'.election i) (p.after disk s a) := by
  have hpeers : (s'.node i).peers = (s.node i).peers := by
    obtain ⟨j, hj, hmove, _⟩ := (Cluster.exec_cases hx).move
    obtain rfl := Option.some.inj (hi.symm.trans hj)
    exact hmove.identity.2
  have hkept := Cluster.exec_roleKept hx hi hpanic
  cases a with
  | electionTimeout j =>
    obtain rfl := Option.some.inj hi
    cases Cluster.exec_cases hx with
    | timeout hmem _ _ => exact h.timeout hmem hpeers
  | finishElection j =>
    obtain rfl := Option.some.inj hi
    cases Cluster.exec_cases hx with
    | finished hel _ => exact h.finish hel hpeers
  | replicate j peer =>
    exact h.kept (hkept (fun _ => by simp) fun _ => by simp) hpeers
      (fun _ => List.mem_of_mem_erase) h.announces
  | propose j cmd =>
    have hkept := hkept (fun _ => by simp) fun _ => by simp
    unfold Process.after
    dsimp only
    split
    · cases Cluster.exec_cases hx with
      | proposed hmem =>
        obtain rfl := Option.some.inj hi
        exact h.kept hkept hpeers (fun _ => id) fun _ => hmem
    · exact h.kept hkept hpeers (fun _ => id) h.announces
  | _ =>
    have hkept := hkept (fun _ => by simp) fun _ => by simp
    unfold Process.after
    dsimp only
    split
    · rename_i hreset
      rw [hreset] at hkept
      exact h.kept hkept hpeers (fun _ => id) h.announces
    · rename_i hreset
      rw [Bool.eq_false_iff.mpr hreset] at hkept
      exact h.kept hkept hpeers (fun _ => id) h.announces

end Process

namespace Runtime

variable {σ : Type} {E : Engine σ} {M : Membership} {store : NodeID → σ} {threshold : NodeID → Int}
  {ok : Cluster σ → Step → Prop} {past : List (Runtime σ × RuntimeStep)} {w w' : Runtime σ}
  {b : RuntimeStep} {st : Step} {i j : NodeID}

@[simp] theorem setProc_self (w : Runtime σ) (i : NodeID) (p : Process) : (w.setProc i p).proc i = p :=
  if_pos rfl

theorem setProc_other (w : Runtime σ) (p : Process) (h : j ≠ i) : (w.setProc i p).proc j = w.proc j :=
  if_neg h

@[simp] theorem cluster_setProc (w : Runtime σ) (i : NodeID) (p : Process) :
    (w.setProc i p).cluster = w.cluster := rfl

/-- Every process is sound. -/
def Sound (M : Membership) (w : Runtime σ) : Prop :=
  ∀ i, (w.proc i).Sound M i (w.cluster.node i) (w.cluster.election i)

theorem sound_init : (init M store threshold : Runtime σ).Sound M :=
  fun _ => Process.sound_start (by simp [init, Cluster.init])

theorem Sound.setProc (h : w.Sound M) {p : Process}
    (hp : p.Sound M i (w.cluster.node i) (w.cluster.election i)) : (w.setProc i p).Sound M := by
  intro j
  by_cases hj : j = i
  · subst hj
    rw [setProc_self]
    exact hp
  · rw [setProc_other _ _ hj]
    exact h j

/-! ## The loop's steps are steps of the cluster -/

/-- `startElection`, which looks at nothing, does what the guarded step does: when `run` calls it, the
node is not leader and no election is running. -/
theorem Sound.step_of_clusterStep (h : w.Sound M) (hadm : w.admitsStep st) {s' : Cluster σ}
    (hs : w.clusterStep E M st = some s') : w.cluster.step E M st = some s' := by
  have hguard : ∀ {i : NodeID}, (w.proc i).loop = .starting →
      i ∈ M.ids ∧ (w.cluster.node i).state ≠ .leader ∧ w.cluster.election i = none := by
    intro i hloop
    refine ⟨(h i).member (by simp [hloop]), (h i).follows (Or.inl hloop), ?_⟩
    by_contra hel
    have := (h i).electing.mpr hel
    rw [hloop] at this
    cases this
  unfold clusterStep at hs
  split at hs
  · rw [← hs, Cluster.step, Cluster.exec, if_pos (hguard hadm)]
  · rename_i i cut
    rw [← hs]
    simp only [Cluster.step, Cluster.exec, if_pos (hguard hadm), Action.isAtomic, Cluster.actor]
    rfl
  · exact hs

theorem clusterStep_of_step {s' : Cluster σ} (hs : w.cluster.step E M st = some s') :
    w.clusterStep E M st = some s' := by
  unfold clusterStep
  split
  · rename_i disk i
    simp only [Cluster.step, Cluster.exec] at hs
    split at hs
    · exact hs
    · cases hs
  · cases Cluster.step_cases hs with
    | crashDuring _ hi hx =>
      cases hx with
      | timeout _ _ _ =>
        obtain rfl := Option.some.inj hi
        rfl
  · exact hs

/-- A step of the cluster keeps the processes sound. -/
theorem Sound.cluster (h : w.Sound M) {s' : Cluster σ} (hs : w.cluster.step E M st = some s') :
    (⟨s', w.procAfter st⟩ : Runtime σ).Sound M := by
  intro j
  cases st with
  | act disk a =>
    unfold procAfter
    dsimp only
    split
    · rename_i hj
      split
      · rename_i hpanic
        obtain ⟨hnode, hel⟩ := Cluster.exec_panics hs hj hpanic
        rw [hnode, hel]
        exact Process.sound_start (by simp)
      · rename_i hpanic
        exact (h j).after hs hj (Bool.eq_false_iff.mpr hpanic)
    · rename_i hj
      obtain ⟨hnode, hel⟩ := Cluster.exec_frame hs hj
      rw [hnode, hel]
      exact h j
  | crash i =>
    cases Cluster.step_cases hs with
    | crash =>
      unfold procAfter
      dsimp only
      split
      · rename_i hj
        subst hj
        rw [Cluster.restart_self, Cluster.restart_election_self]
        exact Process.sound_start (by simp)
      · rename_i hj
        rw [Cluster.restart_other _ hj, Cluster.restart_election_other _ hj]
        exact h j
  | crashDuring a cut =>
    cases Cluster.step_cases hs with
    | crashDuring _ hi _ =>
      unfold procAfter
      dsimp only
      split
      · rename_i hj
        obtain rfl := Option.some.inj (hi.symm.trans hj)
        rw [Cluster.restart_self, Cluster.restart_election_self]
        exact Process.sound_start (by simp)
      · rename_i hj
        have hne : j ≠ _ := fun heq => hj (heq ▸ hi)
        rw [Cluster.restart_other _ hne, Cluster.restart_election_other _ hne, Cluster.lose_node,
          Cluster.lose_election]
        exact h j
  | applyRead disk i k reads =>
    have hel : s'.election = w.cluster.election := by
      cases Cluster.step_cases hs with
      | applyRead _ => exact Cluster.runGoroutine_election _ _ _ _
    have hstate : (s'.node j).state = (w.cluster.node j).state := by
      cases Cluster.step_cases hs with
      | applyRead _ =>
        by_cases hj : j = i
        · subst hj
          rw [Cluster.setNode_self]
          exact Cluster.state_runGoroutine E disk _ _ _ _
        · rw [Cluster.setNode_other _ _ _ hj]
          exact congrArg RaftNode.state (Cluster.setNode_other _ _ _ hj)
    have hpeers := Cluster.forall_node_of_moved
      (P := fun j n => n.peers = (w.cluster.node j).peers) hs (fun _ => rfl)
      (fun _ _ hmoved => hmoved.identity.2) j
    have hkept : Cluster.RoleKept w.cluster s' j false := .of_same hstate (by rw [hel])
    exact (h j).kept hkept hpeers (fun _ => id) (h j).announces

theorem Sound.step (h : w.Sound M) (hs : w.step E M b = some w') : w'.Sound M := by
  cases b with
  | loop i l =>
    simp only [Runtime.step] at hs
    split at hs
    · rename_i hi
      obtain ⟨p, hp, rfl⟩ := Option.map_eq_some_iff.mp hs
      exact h.setProc ((h i).loopStep hi hp)
    · cases hs
  | stop i l =>
    simp only [Runtime.step] at hs
    split at hs
    · rename_i hi
      obtain ⟨p, hp, rfl⟩ := Option.map_eq_some_iff.mp hs
      exact h.setProc ((h i).stopStep hi hp)
    · cases hs
  | cluster st =>
    simp only [Runtime.step] at hs
    split at hs
    · rename_i hadm
      obtain ⟨s', hs', rfl⟩ := Option.map_eq_some_iff.mp hs
      exact h.cluster (h.step_of_clusterStep hadm hs')
    · cases hs

/-! ## Runs -/

/-- The guard of a runtime: one on the steps of its cluster. -/
def Allows (ok : Cluster σ → Step → Prop) (w : Runtime σ) (b : RuntimeStep) : Prop :=
  ∀ st, b.shows = some st → ok w.cluster st

/-- The runs of a runtime from its initial state, over the cluster steps `ok` allows. -/
abbrev Reaches (E : Engine σ) (M : Membership) (store : NodeID → σ) (threshold : NodeID → Int)
    (ok : Cluster σ → Step → Prop) :=
  Lib.Run (fun w => w = init M store threshold) (step E M) (Allows ok)

theorem Reaches.sound (h : Reaches E M store threshold ok past w) : w.Sound M := by
  refine Lib.Run.invariant (P := fun _ w => w.Sound M) ?_ ?_ h
  · rintro w rfl
    exact sound_init
  · exact fun _ _ _ _ _ hsound _ hs => hsound.step hs

/-- What the cluster has of a step. -/
theorem Sound.shows (h : w.Sound M) (hs : w.step E M b = some w') :
    (b.shows = none ∧ w'.cluster = w.cluster) ∨
      ∃ st, b = .cluster st ∧ w.cluster.step E M st = some w'.cluster := by
  cases b with
  | loop i l =>
    simp only [Runtime.step] at hs
    split at hs
    · obtain ⟨p, _, rfl⟩ := Option.map_eq_some_iff.mp hs
      exact Or.inl ⟨rfl, rfl⟩
    · cases hs
  | stop i l =>
    simp only [Runtime.step] at hs
    split at hs
    · obtain ⟨p, _, rfl⟩ := Option.map_eq_some_iff.mp hs
      exact Or.inl ⟨rfl, rfl⟩
    · cases hs
  | cluster st =>
    simp only [Runtime.step] at hs
    split at hs
    · rename_i hadm
      obtain ⟨s', hs', rfl⟩ := Option.map_eq_some_iff.mp hs
      exact Or.inr ⟨st, rfl, h.step_of_clusterStep hadm hs'⟩
    · cases hs

/-- What a run of the runtime shows is a run of the cluster. -/
theorem Reaches.cluster (h : Reaches E M store threshold ok past w) :
    Cluster.Reaches E M store threshold ok (Lib.shown Runtime.cluster RuntimeStep.shows past)
      w.cluster := by
  refine Lib.Run.shown h ?_ ?_ ?_
  · rintro w rfl
    rfl
  · intro past w b w' hr _ hs hb
    rcases (Reaches.sound hr).shows hs with ⟨_, hsame⟩ | ⟨st, rfl, _⟩
    · exact hsame
    · cases hb
  · intro past w b w' st hr hok hs hb
    refine ⟨hok st hb, ?_⟩
    rcases (Reaches.sound hr).shows hs with ⟨hnone, _⟩ | ⟨st', rfl, hs'⟩
    · rw [hnone] at hb
      cases hb
    · obtain rfl := Option.some.inj hb
      exact hs'

end Runtime

end Raftrix
