import Raftrix.Cluster.Shipped
import Raftrix.Cluster.Terms
import Raftrix.Log.Leader

/-!
# One lifetime of a node

A process between `NewRaftNode` and its end, alone: `Op` lists the critical sections with whatever
request or answer they work on, and a **`Lifetime`** is any sequence of them from any struct. The
messages are arbitrary, so every order, delay and duplication is among them; `Exec.lifetime` says that
the critical sections of a cluster are of this kind.

What a lifetime must not lose is its progress: `commitIndex` and `lastApplied` never go down
(`Progress`). Every writer of the two fields raises them or leaves them alone, except for
`HandleInstallSnapshot`, which sets both to the boundary of the snapshot without comparing.

* `progress_iff`: one critical section keeps the progress exactly if it does not install a snapshot
  whose boundary is below it (`SnapshotAhead`).
* **`progress_never_lost`**: the steps of a lifetime all keep the progress exactly if they all meet
  that condition, and then the progress only grows over the whole lifetime.
* `late_snapshot_rolls_back`: a lifetime that loses progress to a late snapshot.
-/

namespace Raftrix

variable {σ : Type}

/-- A critical section of a process, with the message it works on. -/
inductive Op where
  | startElection
  | handleRequestVote (req : RequestVoteRequest)
  | voteResponse (el : RaftNode.Election) (resp : RequestVoteResponse)
  | becomeLeader
  | propose (cmd : Command)
  | release (id : Nat)
  | cancel (id index : Nat)
  | handleAppendEntries (req : AppendEntriesRequest)
  | appendResponse (peer : NodeID) (resp : AppendEntriesResponse)
  | handleInstallSnapshot (req : InstallSnapshotRequest)
  | snapshotResponse (peer : NodeID) (snapshotIdx : Nat) (resp : InstallSnapshotResponse)
  | applyCommitted
  /-- `takeSnapshot`, with the bytes it has read. -/
  | takeSnapshot (index term : Nat) (data : Bytes)

namespace Op

/-- Run the critical section; `none` is a nil dereference. -/
def run (E : Engine σ) (disk : Disk) (n : RaftNode σ) : Op → Option (RaftNode σ)
  | startElection => some (n.startElection disk).1
  | handleRequestVote req => some (n.handleRequestVote disk req).1
  | voteResponse el resp => some (n.voteResponse disk el resp).1
  | becomeLeader => some (n.becomeLeader disk)
  | propose cmd => some (n.propose disk cmd).1
  | release id => some (n.release id)
  | cancel id index => some (n.cancel id index)
  | handleAppendEntries req => some (n.handleAppendEntries disk req).1
  | appendResponse peer resp => n.appendResponse disk peer resp
  | handleInstallSnapshot req => some (n.handleInstallSnapshot E disk req).1
  | snapshotResponse peer snapshotIdx resp => n.snapshotResponse disk peer snapshotIdx resp
  | applyCommitted => some (n.applyCommitted E disk).1
  | takeSnapshot index term data => some (n.compactLog disk index term data)

end Op

namespace Lifetime

/-- One critical section, with the outcomes of its transactions. -/
def step (E : Engine σ) (n : RaftNode σ) (st : Disk × Op) : Option (RaftNode σ) := st.2.run E st.1 n

end Lifetime

/-- The lifetimes: any critical sections in any order, from any struct. -/
abbrev Lifetime (E : Engine σ) : List (RaftNode σ × (Disk × Op)) → RaftNode σ → Prop :=
  Lib.Run (fun _ => True) (Lifetime.step E) (fun _ _ => True)

namespace Lifetime

variable {E : Engine σ} {disk : Disk} {n n' m : RaftNode σ}

/-! ## Progress -/

/-- Neither `commitIndex` nor `lastApplied` has gone down. -/
structure Progress (n n' : RaftNode σ) : Prop where
  commitIndex : n.commitIndex ≤ n'.commitIndex
  lastApplied : n.lastApplied ≤ n'.lastApplied

theorem Progress.refl (n : RaftNode σ) : Progress n n := ⟨le_refl _, le_refl _⟩

theorem Progress.trans {n'' : RaftNode σ} (h : Progress n n') (h' : Progress n' n'') :
    Progress n n'' :=
  ⟨h.commitIndex.trans h'.commitIndex, h.lastApplied.trans h'.lastApplied⟩

theorem Progress.of_eq (hc : n'.commitIndex = n.commitIndex) (hl : n'.lastApplied = n.lastApplied) :
    Progress n n' :=
  ⟨hc.ge, hl.ge⟩

theorem progress_becomeFollower (written : Bool) (n : RaftNode σ) (term : Nat) :
    Progress n (n.becomeFollower written term) := .of_eq rfl rfl

/-- The term rule of the handlers. -/
theorem progress_newer (written : Bool) (n : RaftNode σ) (term : Nat) :
    Progress n (if term > n.currentTerm then n.becomeFollower written term else n) := by
  split
  · exact progress_becomeFollower written n term
  · exact .refl n

theorem progress_handleRequestVote (disk : Disk) (n : RaftNode σ) (req : RequestVoteRequest) :
    Progress n (n.handleRequestVote disk req).1 := by
  unfold RaftNode.handleRequestVote
  split
  · exact .refl n
  · have hjoin := progress_newer (disk 0) n req.term
    dsimp only
    generalize (if req.term > n.currentTerm then n.becomeFollower (disk 0) req.term else n) = m
      at hjoin ⊢
    split
    · exact hjoin
    · split
      · exact hjoin
      · exact hjoin.trans (.of_eq rfl rfl)

theorem progress_voteResponse (disk : Disk) (n : RaftNode σ) (el : RaftNode.Election)
    (resp : RequestVoteResponse) : Progress n (n.voteResponse disk el resp).1 := by
  unfold RaftNode.voteResponse
  split
  · exact progress_becomeFollower _ n _
  · split <;> exact .refl n

theorem progress_becomeLeader (disk : Disk) (n : RaftNode σ) : Progress n (n.becomeLeader disk) := by
  unfold RaftNode.becomeLeader
  split
  · exact .refl n
  · exact .of_eq rfl rfl

theorem progress_propose (disk : Disk) (n : RaftNode σ) (cmd : Command) :
    Progress n (n.propose disk cmd).1 := by
  unfold RaftNode.propose
  split
  · exact .refl n
  · dsimp only
    split
    · exact .refl n
    · exact .of_eq rfl rfl

/-- Rule 5 only raises the commit index. -/
theorem progress_advanceCommit (n : RaftNode σ) (req : AppendEntriesRequest) :
    Progress n (n.advanceCommit req) := by
  obtain ⟨commit, gs, heq, hcommit⟩ := Cluster.advanceCommit_cases n req
  rw [heq]
  rcases hcommit with hsame | ⟨hlt, _⟩
  · exact .of_eq hsame rfl
  · exact ⟨hlt.le, le_refl _⟩

theorem progress_handleAppendEntries (disk : Disk) (n : RaftNode σ) (req : AppendEntriesRequest) :
    Progress n (n.handleAppendEntries disk req).1 := by
  unfold RaftNode.handleAppendEntries
  split
  · exact .refl n
  · have hlead : Progress n (n.acceptLeader disk req) :=
      (progress_newer (disk 0) n req.term).trans (.of_eq rfl rfl)
    generalize n.acceptLeader disk req = m at hlead ⊢
    unfold RaftNode.acceptEntries
    dsimp only
    split
    · exact hlead
    · split
      · have hsplice : Progress m { m with
            raftLog := (m.raftLog.appendEntries disk req.prevLogIndex 0 req.entries).log } :=
          .of_eq rfl rfl
        exact (hlead.trans hsplice).trans (progress_advanceCommit _ req)
      · exact hlead.trans (.of_eq rfl rfl)

/-- The commit rule only raises the commit index. -/
theorem progress_commitAcked (n : RaftNode σ) (ls : LeaderState) : Progress n (n.commitAcked ls) := by
  unfold RaftNode.commitAcked
  dsimp only
  split
  · rename_i hpos
    exact ⟨(LeaderState.commitCandidate_spec rfl hpos).1.le, le_refl _⟩
  · exact .refl n

theorem progress_appendResponse {peer : NodeID} {resp : AppendEntriesResponse}
    (h : n.appendResponse disk peer resp = some n') : Progress n n' := by
  unfold RaftNode.appendResponse at h
  split at h
  · cases h
    exact .refl n
  · split at h
    · cases h
      exact progress_becomeFollower _ n _
    · split at h
      · cases h
      · rename_i ls _
        split at h
        · cases h
          have hcounted : Progress n { n with
              leader := some (ls.acknowledge peer resp.matchIndex) } := .of_eq rfl rfl
          exact hcounted.trans (progress_commitAcked _ _)
        · cases h
          exact .of_eq rfl rfl

theorem progress_snapshotResponse {peer : NodeID} {snapshotIdx : Nat}
    {resp : InstallSnapshotResponse}
    (h : n.snapshotResponse disk peer snapshotIdx resp = some n') : Progress n n' := by
  unfold RaftNode.snapshotResponse at h
  split at h
  · cases h
    exact progress_becomeFollower _ n _
  · split at h
    · split at h
      · cases h
      · cases h
        exact .of_eq rfl rfl
    · cases h
      exact .refl n

/-- The loop of `applyCommitted` only moves `lastApplied` forward, also over a missing entry. -/
theorem progress_applyFrom (E : Engine σ) (disk : Disk) : ∀ (k fuel : Nat) (n : RaftNode σ),
    Progress n (n.applyFrom E disk k fuel).1
  | _, 0, n => .refl n
  | k, fuel + 1, n => by
    have hmove : Progress n { n with lastApplied := n.lastApplied + 1 } :=
      ⟨le_refl _, Nat.le_succ _⟩
    cases hget : n.raftLog.get (n.lastApplied + 1) with
    | none =>
      rw [RaftNode.applyFrom_missing E disk hget]
      exact hmove
    | some e =>
      rw [RaftNode.applyFrom_entry E disk hget]
      have hentry := Progress.of_eq
        (RaftNode.onlyApplies_applyEntry E (disk k) { n with lastApplied := n.lastApplied + 1 }
          e).commitIndex
        (RaftNode.lastApplied_applyEntry E (disk k) _ e)
      exact (hmove.trans hentry).trans (progress_applyFrom E disk _ fuel _)

theorem progress_compactLog (disk : Disk) (n : RaftNode σ) (index term : Nat) (data : Bytes) :
    Progress n (n.compactLog disk index term data) := by
  unfold RaftNode.compactLog
  split
  · exact .refl n
  · exact .of_eq rfl rfl

/-! ## Installing a snapshot -/

/-- The node takes the snapshot over: the term is not stale, the engine accepts the bytes, and the
transactions of the engine and of the log succeed. -/
def Installs (E : Engine σ) (disk : Disk) (n : RaftNode σ) (req : InstallSnapshotRequest) : Prop :=
  n.currentTerm ≤ req.term ∧ (E.restoreSnapshot n.storage req.data).isOk = true ∧
    disk 1 = true ∧ disk 2 = true

instance (E : Engine σ) (disk : Disk) (n : RaftNode σ) (req : InstallSnapshotRequest) :
    Decidable (Installs E disk n req) := by
  unfold Installs
  infer_instance

/-- A snapshot that is installed reaches as far as the node has committed and applied. -/
def SnapshotAhead (E : Engine σ) (n : RaftNode σ) : Disk × Op → Prop
  | (disk, .handleInstallSnapshot req) =>
    Installs E disk n req →
      n.commitIndex ≤ req.lastIncludedIndex ∧ n.lastApplied ≤ req.lastIncludedIndex
  | _ => True

/-- **What `HandleInstallSnapshot` does to the two indices**: it sets both, or leaves both alone. -/
theorem handleInstallSnapshot_indices (E : Engine σ) (disk : Disk) (n : RaftNode σ)
    (req : InstallSnapshotRequest) :
    (Installs E disk n req ∧
      (n.handleInstallSnapshot E disk req).1.commitIndex = req.lastIncludedIndex ∧
      (n.handleInstallSnapshot E disk req).1.lastApplied = req.lastIncludedIndex) ∨
    (¬ Installs E disk n req ∧
      (n.handleInstallSnapshot E disk req).1.commitIndex = n.commitIndex ∧
      (n.handleInstallSnapshot E disk req).1.lastApplied = n.lastApplied) := by
  have hkept : ∀ m, Cluster.Joins (disk 0) n req.term m →
      m.commitIndex = n.commitIndex ∧ m.lastApplied = n.lastApplied := by
    intro m hm
    cases hm <;> exact ⟨rfl, rfl⟩
  have hcases := Cluster.installed E disk n req
  generalize n.handleInstallSnapshot E disk req = r at hcases ⊢
  cases hcases with
  | stale hlt => exact Or.inr ⟨fun h => absurd h.1 (Nat.not_le.mpr hlt), rfl, rfl⟩
  | unrestored hm hfail =>
    refine Or.inr ⟨fun h => ?_, (hkept _ hm).1, (hkept _ hm).2⟩
    obtain ⟨err, herr⟩ := hfail h.2.2.1
    have hok := h.2.1
    rw [herr] at hok
    cases hok
  | uncompacted hm _ _ hlost =>
    refine Or.inr ⟨fun h => ?_, (hkept _ hm).1, (hkept _ hm).2⟩
    rw [h.2.2.2] at hlost
    cases hlost
  | done hm hwritten hstore hlast _ =>
    exact Or.inl ⟨⟨hm.le, by rw [hstore]; rfl, hwritten, hlast⟩, rfl, rfl⟩

/-! ## Whole lifetimes -/

/-- **One critical section keeps the progress exactly if it does not install a snapshot from behind
it.** -/
theorem progress_iff {st : Disk × Op} (h : step E n st = some n') :
    Progress n n' ↔ SnapshotAhead E n st := by
  obtain ⟨disk, op⟩ := st
  cases op with
  | handleInstallSnapshot req =>
    obtain rfl := Option.some.inj h
    unfold SnapshotAhead
    rcases handleInstallSnapshot_indices E disk n req with ⟨hin, hc, hl⟩ | ⟨hout, hc, hl⟩
    · constructor
      · intro hp _
        exact ⟨hc ▸ hp.commitIndex, hl ▸ hp.lastApplied⟩
      · intro hahead
        exact ⟨hc ▸ (hahead hin).1, hl ▸ (hahead hin).2⟩
    · exact iff_of_true (.of_eq hc hl) fun hin => absurd hin hout
  | appendResponse peer resp => exact iff_of_true (progress_appendResponse h) trivial
  | snapshotResponse peer snapshotIdx resp => exact iff_of_true (progress_snapshotResponse h) trivial
  | startElection =>
    obtain rfl := Option.some.inj h
    exact iff_of_true (.of_eq rfl rfl) trivial
  | handleRequestVote req =>
    obtain rfl := Option.some.inj h
    exact iff_of_true (progress_handleRequestVote disk n req) trivial
  | voteResponse el resp =>
    obtain rfl := Option.some.inj h
    exact iff_of_true (progress_voteResponse disk n el resp) trivial
  | becomeLeader =>
    obtain rfl := Option.some.inj h
    exact iff_of_true (progress_becomeLeader disk n) trivial
  | propose cmd =>
    obtain rfl := Option.some.inj h
    exact iff_of_true (progress_propose disk n cmd) trivial
  | release id =>
    obtain rfl := Option.some.inj h
    exact iff_of_true (.of_eq rfl rfl) trivial
  | cancel id index =>
    obtain rfl := Option.some.inj h
    exact iff_of_true (.of_eq rfl rfl) trivial
  | handleAppendEntries req =>
    obtain rfl := Option.some.inj h
    exact iff_of_true (progress_handleAppendEntries disk n req) trivial
  | applyCommitted =>
    obtain rfl := Option.some.inj h
    exact iff_of_true (progress_applyFrom E disk _ _ n) trivial
  | takeSnapshot index term data =>
    obtain rfl := Option.some.inj h
    exact iff_of_true (progress_compactLog disk n index term data) trivial

/-- **A lifetime loses no progress exactly if no installed snapshot is behind it.** In every lifetime,
from any struct and with any messages: every step keeps `commitIndex` and `lastApplied` from going
down if and only if every snapshot that is installed reaches as far as both of them; and then both
only grow from every state of the lifetime to its last. -/
theorem progress_never_lost {past : List (RaftNode σ × (Disk × Op))} (h : Lifetime E past n) :
    ((∀ τ st τ', (τ, st) ∈ past → step E τ st = some τ' → Progress τ τ') ↔
      ∀ τ st, (τ, st) ∈ past → SnapshotAhead E τ st) ∧
    ((∀ τ st, (τ, st) ∈ past → SnapshotAhead E τ st) →
      ∀ τ ∈ Lib.visited past n, Progress τ n) := by
  constructor
  · constructor
    · intro hprogress τ st hmem
      obtain ⟨_, τ', _, _, hs, _⟩ := h.of_mem_past hmem
      exact (progress_iff hs).mp (hprogress τ st τ' hmem hs)
    · intro hahead τ st τ' hmem hs
      exact (progress_iff hs).mpr (hahead τ st hmem)
  · intro hahead τ hτ
    exact (h.guard_of_past hahead).rel .refl (fun _ _ _ => .trans)
      (fun _ _ _ _ _ hok hs => (progress_iff hs).mpr hok) hτ

/-- Five entries of term 1, all committed. -/
def fiveCommitted : AppendEntriesRequest where
  term := 1
  leaderID := Shipped.node1
  prevLogIndex := 0
  prevLogTerm := 0
  entries := [⟨1, 1, .noop⟩, ⟨2, 1, .noop⟩, ⟨3, 1, .noop⟩, ⟨4, 1, .noop⟩, ⟨5, 1, .noop⟩]
  leaderCommit := 5

/-- A snapshot of the same term up to `index`. -/
def snapshotUpTo (index : Nat) : InstallSnapshotRequest where
  term := 1
  leaderID := Shipped.node1
  lastIncludedIndex := index
  lastIncludedTerm := 1
  data := Shipped.emptySnapshot

/-- A follower stores, commits and applies five entries. -/
def followFive (n : RaftNode BoltEngine) : RaftNode BoltEngine :=
  ((n.handleAppendEntries (fun _ => true) fiveCommitted).1.applyCommitted Shipped.engine
    fun _ => true).1

theorem lifetime_followFive (n : RaftNode BoltEngine) : Lifetime Shipped.engine
    [((n.handleAppendEntries (fun _ => true) fiveCommitted).1, fun _ => true, .applyCommitted),
      (n, fun _ => true, .handleAppendEntries fiveCommitted)] (followFive n) :=
  .next (.next (.start trivial) trivial rfl) trivial rfl

/-- **A snapshot taken up to index 5 keeps the progress** of a follower that has applied five
entries. -/
theorem progress_never_lost_snapshotUpTo : ∃ past n,
    Lifetime Shipped.engine past n ∧ past.length = 3 ∧ n.commitIndex = 7 ∧ n.lastApplied = 7 ∧
    ∀ τ ∈ Lib.visited past n, Progress τ n := by
  have hrun : Lifetime Shipped.engine _
      ((followFive (Shipped.start.node Shipped.node2)).handleInstallSnapshot Shipped.engine
        (fun _ => true) (snapshotUpTo 7)).1 :=
    .next (a := (fun _ => true, .handleInstallSnapshot (snapshotUpTo 7)))
      (lifetime_followFive (Shipped.start.node Shipped.node2)) trivial rfl
  refine ⟨_, _, hrun, rfl, rfl, rfl, (progress_never_lost hrun).2 fun τ st hmem => ?_⟩
  rcases List.mem_cons.mp hmem with heq | hmem
  · obtain ⟨rfl, rfl⟩ := Prod.mk.inj heq
    exact fun _ => by decide
  · rcases List.mem_cons.mp hmem with heq | hmem
    · obtain ⟨_, rfl⟩ := Prod.mk.inj heq
      trivial
    · obtain ⟨_, rfl⟩ := Prod.mk.inj (List.mem_singleton.mp hmem)
      trivial

/-- **A late snapshot rolls a node back.** A follower has committed and applied five entries; a
snapshot up to index 3 arrives, and both indices go down to 3. -/
theorem late_snapshot_rolls_back : ∃ past n n',
    Lifetime Shipped.engine past n ∧ n.commitIndex = 5 ∧ n.lastApplied = 5 ∧
    step Shipped.engine n (fun _ => true, .handleInstallSnapshot (snapshotUpTo 3)) = some n' ∧
    n'.commitIndex = 3 ∧ n'.lastApplied = 3 :=
  ⟨_, _, _, lifetime_followFive (Shipped.start.node Shipped.node2), by decide, by decide, rfl,
    by decide, by decide⟩

end Lifetime

/-! ## The critical sections of a cluster -/

namespace Cluster

variable {E : Engine σ} {M : Membership} {disk : Disk} {s s' : Cluster σ} {a : Action} {i : NodeID}

/-- The message that the critical section of node `i` works on is one of the cluster's. -/
def Supplies (s : Cluster σ) (i : NodeID) : Op → Prop
  | .handleRequestVote req => ∃ c ∈ s.voteCalls, c.dst = i ∧ c.req = req
  | .voteResponse _ resp => ∃ c ∈ s.voteCalls, c.src = i ∧ c.reply = .answered resp
  | .handleAppendEntries req => ∃ c ∈ s.appendCalls, c.dst = i ∧ c.req = req
  | .appendResponse peer resp =>
    ∃ c ∈ s.appendCalls, c.src = i ∧ c.dst = peer ∧ c.reply = .answered resp
  | .handleInstallSnapshot req => ∃ c ∈ s.snapshotCalls, c.dst = i ∧ c.req = req
  | .snapshotResponse peer snapshotIdx resp =>
    ∃ c ∈ s.snapshotCalls, c.src = i ∧ c.dst = peer ∧ c.req.lastIncludedIndex = snapshotIdx ∧
      c.reply = .answered resp
  | .takeSnapshot index term data => .compactLog index term data ∈ (s.node i).goroutines
  | _ => True

/-- The goroutines that a read of the store leaves. -/
def Scheduled (n : RaftNode σ) (gs : List Goroutine) : Prop :=
  ∀ g ∈ gs, g ∈ n.goroutines ∨ ∃ index term data, g = .compactLog index term data ∧
    .takeSnapshot index term ∈ n.goroutines

/-- What a critical section of a cluster is for node `i`: an `Op` on its struct with a message of the
cluster, the end of its process, or nothing but a change of its list of goroutines. -/
inductive Lives (E : Engine σ) (disk : Disk) (s : Cluster σ) (i : NodeID) (n' : RaftNode σ) : Prop
  | ran (gs : List Goroutine) (op : Op) (hgs : ∀ g ∈ gs, g ∈ (s.node i).goroutines)
      (hop : Supplies s i op) (h : op.run E disk { s.node i with goroutines := gs } = some n')
  | scheduled (gs : List Goroutine) (hgs : Scheduled (s.node i) gs)
      (h : n' = { s.node i with goroutines := gs })
  | ended (h : n' = (s.node i).newRaftNode E)

theorem lives_refl : Lives E disk s i (s.node i) := .scheduled _ (fun _ => Or.inl) rfl

theorem lives_of_same (h : s'.node = s.node) : Lives E disk s i (s'.node i) := by
  rw [h]
  exact lives_refl

theorem lives_of_setNode {j : NodeID} {n : RaftNode σ} (hnode : s'.node = (s.setNode j n).node)
    (h : Lives E disk s j n) : Lives E disk s i (s'.node i) := by
  rw [hnode]
  by_cases hij : i = j
  · subst hij
    rw [setNode_self]
    exact h
  · rw [setNode_other _ _ _ hij]
    exact lives_refl

theorem lives_of_op {j : NodeID} {n : RaftNode σ} (hnode : s'.node = (s.setNode j n).node) (op : Op)
    (hop : Supplies s j op) (h : op.run E disk (s.node j) = some n) : Lives E disk s i (s'.node i) :=
  lives_of_setNode hnode (.ran _ op (fun _ => id) hop h)

/-- **The critical sections of a cluster are those of lifetimes**, or end one. -/
theorem Exec.lifetime (h : Exec E M disk s a s') (i : NodeID) : Lives E disk s i (s'.node i) := by
  have hmem : ∀ {ρ τ : Type} {calls : Calls ρ τ} {k : Nat} {c : Call ρ τ}, calls[k]? = some c → c ∈ calls :=
    List.mem_of_getElem?
  cases h with
  | timeout _ _ _ => exact lives_of_op rfl .startElection trivial rfl
  | @vote k c hk _ => exact lives_of_op rfl (.handleRequestVote c.req) ⟨c, hmem hk, rfl, rfl⟩ rfl
  | @voted k c resp el hk hr _ _ =>
    exact lives_of_op rfl (.voteResponse el resp) ⟨c, hmem hk, rfl, hr⟩ rfl
  | voteFailed _ _ => exact lives_of_same rfl
  | @finished j el _ _ =>
    by_cases hwon : el.won = true
    · refine lives_of_op (j := j) ?_ .becomeLeader trivial rfl
      rw [endElection, if_pos hwon]
      rfl
    · refine lives_of_same ?_
      rw [endElection, if_neg hwon]
      rfl
  | @proposed j cmd _ => exact lives_of_op rfl (.propose cmd) trivial rfl
  | @received j id p _ _ _ => exact lives_of_op rfl (.release id) trivial rfl
  | @cancelled j id p _ _ => exact lives_of_op rfl (.cancel id p.index) trivial rfl
  | sent _ _ _ _ =>
    refine lives_of_same ?_
    unfold sendTo
    split <;> rfl
  | sendPanic _ _ => exact lives_of_setNode rfl (.ended rfl)
  | @append k c hk _ => exact lives_of_op rfl (.handleAppendEntries c.req) ⟨c, hmem hk, rfl, rfl⟩ rfl
  | @appended k c resp n hk hr _ hn =>
    exact lives_of_op rfl (.appendResponse c.dst resp) ⟨c, hmem hk, rfl, rfl, hr⟩ hn
  | appendPanic _ => exact lives_of_setNode rfl (.ended rfl)
  | appendFailed _ => exact lives_of_same rfl
  | @snapshot k c hk _ => exact lives_of_op rfl (.handleInstallSnapshot c.req) ⟨c, hmem hk, rfl, rfl⟩ rfl
  | @installed k c resp n hk hr _ hn =>
    exact lives_of_op rfl (.snapshotResponse c.dst c.req.lastIncludedIndex resp)
      ⟨c, hmem hk, rfl, rfl, rfl, hr⟩ hn
  | installPanic _ => exact lives_of_setNode rfl (.ended rfl)
  | snapshotFailed _ => exact lives_of_same rfl
  | @resumed j k g hg =>
    have herase : ∀ g ∈ (s.node j).goroutines.eraseIdx k, g ∈ (s.node j).goroutines :=
      fun _ => List.mem_of_mem_eraseIdx
    cases g with
    | applyCommitted => exact lives_of_setNode rfl (.ran _ .applyCommitted herase trivial rfl)
    | takeSnapshot index term =>
      simp only [runGoroutine]
      split
      · exact lives_of_setNode rfl (.scheduled _ (fun g hg => Or.inl (herase g hg)) rfl)
      · refine lives_of_setNode rfl (.scheduled _ (fun g' hg' => ?_) rfl)
        rcases List.mem_append.mp hg' with hold | hnew
        · exact Or.inl (herase g' hold)
        · exact Or.inr ⟨index, term, _, List.mem_singleton.mp hnew, List.mem_of_getElem? hg⟩
    | compactLog index term data =>
      exact lives_of_setNode rfl
        (.ran _ (.takeSnapshot index term data) herase (List.mem_of_getElem? hg) rfl)

end Cluster

end Raftrix
