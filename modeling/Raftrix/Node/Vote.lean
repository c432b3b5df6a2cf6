import Raftrix.Cluster.Shipped
import Raftrix.Cluster.Terms
import Raftrix.Lib.Simulation

/-!
# The promises of a node whose disk may fail

A single node takes vote requests, entries and snapshots, starts elections, and is killed and started
again (`VoteOp`); each `SaveMeta` may fail and leave the file as it was. What others see of a step
(`Seen`) is the term in its answer or request and the vote it gives, to a candidate or to itself.

In memory a node keeps its promises whatever the disk does (`run_ballot`), but the three callers of
`SaveMeta` go on when it fails, and a restart then goes back to an older ballot.

* **`promises_kept`**: with a file that holds the ballot of the memory at each restart, candidates that
  have a name, and no election after the last term of a `uint64`, no two votes of a term differ and no
  observed term is below an earlier one.
* `lost_vote`: a vote that was given, not saved, and given again to another candidate.
-/

namespace Raftrix

variable {σ : Type}

/-- A step of the node. -/
inductive VoteOp where
  | requestVote (disk : Disk) (req : RequestVoteRequest)
  | appendEntries (disk : Disk) (req : AppendEntriesRequest)
  | installSnapshot (disk : Disk) (req : InstallSnapshotRequest)
  | startElection (disk : Disk)
  /-- The process is killed and started again. -/
  | restart

/-- What others see of a step. -/
structure Seen where
  /-- The term of the answer or of the requests sent. -/
  term : Option Nat
  /-- The vote given: its term and the candidate. -/
  vote : Option (Nat × NodeID)
  deriving DecidableEq

namespace VoteOp

/-- Take the step. -/
def run (E : Engine σ) (n : RaftNode σ) : VoteOp → RaftNode σ × Seen
  | requestVote disk req =>
    let (n, resp) := n.handleRequestVote disk req
    (n, ⟨some resp.term, if resp.voteGranted then some (resp.term, req.candidateID) else none⟩)
  | appendEntries disk req =>
    let (n, resp) := n.handleAppendEntries disk req
    (n, ⟨some resp.term, none⟩)
  | installSnapshot disk req =>
    let (n, resp) := n.handleInstallSnapshot E disk req
    (n, ⟨some resp.term, none⟩)
  | startElection disk =>
    let (n, req) := n.startElectionIn (RaftNode.nextTerm n.currentTerm) disk
    -- `votes` starts at one: the candidate's own
    (n, ⟨some req.term, some (req.term, req.candidateID)⟩)
  | restart => (n.newRaftNode E, ⟨none, none⟩)

/-- At a restart the file holds the ballot of the memory; whoever gets a vote has a name; there is another
term to start an election in. -/
def Durable (n : RaftNode σ) : VoteOp → Prop
  | requestVote _ req => req.candidateID ≠ []
  | startElection _ => n.id ≠ [] ∧ n.currentTerm ≠ RaftNode.maxTerm
  | restart => n.raftLog.loadMeta = n.ballot
  | _ => True

instance (n : RaftNode σ) : DecidablePred (Durable n)
  | requestVote _ req => inferInstanceAs (Decidable (req.candidateID ≠ []))
  | startElection _ => inferInstanceAs (Decidable (n.id ≠ [] ∧ n.currentTerm ≠ RaftNode.maxTerm))
  | restart => inferInstanceAs (Decidable (n.raftLog.loadMeta = n.ballot))
  | appendEntries _ _ => inferInstanceAs (Decidable True)
  | installSnapshot _ _ => inferInstanceAs (Decidable True)

end VoteOp

/-- The terms do not go down from one step to a later one, and votes of one term are for one
candidate. -/
structure Seen.Keeps (o o' : Seen) : Prop where
  term : ∀ t ∈ o.term, ∀ t' ∈ o'.term, t ≤ t'
  vote : ∀ t x y, o.vote = some (t, x) → o'.vote = some (t, y) → x = y

namespace RaftNode

open Cluster (BallotLe)

variable {E : Engine σ} {n : RaftNode σ} {disk : Disk}

/-! ## In memory -/

/-- The term rule of the handlers. -/
theorem ballotLe_joins {written : Bool} {term : Nat} {n m : RaftNode σ}
    (hm : Cluster.Joins written n term m) : BallotLe n.ballot m.ballot := by
  cases hm with
  | same _ => exact .refl _
  | down hlt => exact Or.inl hlt

theorem handleRequestVote_ballot (disk : Disk) (n : RaftNode σ) (req : RequestVoteRequest) :
    BallotLe n.ballot (n.handleRequestVote disk req).1.ballot ∧
      (n.handleRequestVote disk req).2.term = (n.handleRequestVote disk req).1.currentTerm := by
  unfold handleRequestVote
  split
  · exact ⟨.refl _, rfl⟩
  · rename_i hge
    have hjoin := ballotLe_joins (Cluster.joins_of_not_lt (disk 0) hge)
    dsimp only
    generalize (if req.term > n.currentTerm then n.becomeFollower (disk 0) req.term else n) = m
      at hjoin ⊢
    split
    · exact ⟨hjoin, rfl⟩
    · rename_i hfree
      split
      · exact ⟨hjoin, rfl⟩
      · refine ⟨hjoin.trans (Or.inr ⟨rfl, ?_⟩), rfl⟩
        by_cases hnone : m.votedFor = []
        · exact Or.inl hnone
        · exact Or.inr (by_contra fun hne => hfree ⟨hnone, hne⟩)

theorem handleAppendEntries_ballot (disk : Disk) (n : RaftNode σ) (req : AppendEntriesRequest) :
    BallotLe n.ballot (n.handleAppendEntries disk req).1.ballot ∧
      (n.handleAppendEntries disk req).2.term = (n.handleAppendEntries disk req).1.currentTerm := by
  unfold handleAppendEntries
  split
  · exact ⟨.refl _, rfl⟩
  · rename_i hge
    have hle := ballotLe_joins (Cluster.joins_of_not_lt (disk 0) hge)
    have hjoin : BallotLe n.ballot (n.acceptLeader disk req).ballot := hle
    generalize n.acceptLeader disk req = m at hjoin ⊢
    unfold acceptEntries
    dsimp only
    split
    · exact ⟨hjoin, rfl⟩
    · split
      · obtain ⟨commit, gs, heq, _⟩ := Cluster.advanceCommit_cases { m with
          raftLog := (m.raftLog.appendEntries disk req.prevLogIndex 0 req.entries).log } req
        rw [heq]
        exact ⟨hjoin, rfl⟩
      · exact ⟨hjoin, rfl⟩

/-- The answer has the term from before. -/
theorem handleInstallSnapshot_ballot (E : Engine σ) (disk : Disk) (n : RaftNode σ)
    (req : InstallSnapshotRequest) :
    BallotLe n.ballot (n.handleInstallSnapshot E disk req).1.ballot ∧
      (n.handleInstallSnapshot E disk req).2.term = n.currentTerm := by
  have hcases := Cluster.installed E disk n req
  generalize n.handleInstallSnapshot E disk req = r at hcases ⊢
  cases hcases with
  | stale _ => exact ⟨.refl _, rfl⟩
  | unrestored hm _ =>
    have hjoin := ballotLe_joins hm
    exact ⟨hjoin, rfl⟩
  | uncompacted hm _ _ _ =>
    have hjoin := ballotLe_joins hm
    exact ⟨hjoin, rfl⟩
  | done hm _ _ _ _ =>
    have hjoin := ballotLe_joins hm
    exact ⟨hjoin, rfl⟩

/-- **A step keeps the promises**: the ballot rises, the term shown lies between the two ballots, and
a vote shown is the ballot afterwards. -/
theorem run_ballot {op : VoteOp} (hop : op.Durable n) :
    BallotLe n.ballot (op.run E n).1.ballot ∧
      (∀ t ∈ (op.run E n).2.term, n.currentTerm ≤ t ∧ t ≤ (op.run E n).1.currentTerm) ∧
      ∀ t x, (op.run E n).2.vote = some (t, x) → x ≠ [] ∧ (op.run E n).1.ballot = (t, x) := by
  cases op with
  | requestVote disk req =>
    obtain ⟨hle, hterm⟩ := handleRequestVote_ballot disk n req
    refine ⟨hle, ?_, ?_⟩
    · simp only [VoteOp.run, Option.mem_some_iff, forall_eq', hterm]
      exact ⟨hle.term_le, le_refl _⟩
    · intro t x hx
      simp only [VoteOp.run] at hx
      split at hx
      · obtain ⟨rfl, rfl⟩ := Prod.mk.inj (Option.some.inj hx)
        have hballot := Cluster.ballot_of_granted ‹_›
        exact ⟨hop, Prod.ext hterm.symm (Prod.ext_iff.mp hballot).2⟩
      · exact absurd hx (by simp)
  | appendEntries disk req =>
    obtain ⟨hle, hterm⟩ := handleAppendEntries_ballot disk n req
    refine ⟨hle, ?_, fun t x hx => absurd hx (by simp [VoteOp.run])⟩
    simp only [VoteOp.run, Option.mem_some_iff, forall_eq', hterm]
    exact ⟨hle.term_le, le_refl _⟩
  | installSnapshot disk req =>
    obtain ⟨hle, hterm⟩ := handleInstallSnapshot_ballot E disk n req
    refine ⟨hle, ?_, fun t x hx => absurd hx (by simp [VoteOp.run])⟩
    simp only [VoteOp.run, Option.mem_some_iff, forall_eq', hterm]
    exact ⟨le_refl _, hle.term_le⟩
  | startElection disk =>
    have hnext : nextTerm n.currentTerm = n.currentTerm + 1 := if_neg hop.2
    have hlt : n.currentTerm < nextTerm n.currentTerm := hnext ▸ Nat.lt_succ_self _
    refine ⟨Or.inl hlt, ?_, ?_⟩
    · intro t ht
      obtain rfl := Option.some.inj ht
      exact ⟨hlt.le, le_refl _⟩
    · intro t x hx
      obtain ⟨rfl, rfl⟩ := Prod.mk.inj (Option.some.inj hx)
      exact ⟨hop.1, rfl⟩
  | restart =>
    refine ⟨?_, fun t ht => absurd ht (by simp [VoteOp.run]),
      fun t x hx => absurd hx (by simp [VoteOp.run])⟩
    have hballot : (n.newRaftNode E).ballot = n.ballot := hop
    rw [VoteOp.run, hballot]
    exact .refl _

/-! ## Over a run -/

/-- What a node remembers of a step: its term is not above the node's, and its vote is the node's, or
the node has moved on. -/
structure Remembers (o : Seen) (n : RaftNode σ) : Prop where
  term : ∀ t ∈ o.term, t ≤ n.currentTerm
  vote : ∀ t x, o.vote = some (t, x) → x ≠ [] ∧ BallotLe (t, x) n.ballot

theorem Remembers.run {o : Seen} (h : Remembers o n) {op : VoteOp} (hop : op.Durable n) :
    Remembers o (op.run E n).1 := by
  obtain ⟨hle, _, _⟩ := run_ballot (E := E) hop
  refine ⟨fun t ht => (h.term t ht).trans hle.term_le, fun t x hx => ?_⟩
  obtain ⟨hne, hbefore⟩ := h.vote t x hx
  exact ⟨hne, hbefore.trans hle⟩

theorem remembers_run {op : VoteOp} (hop : op.Durable n) :
    Remembers (op.run E n).2 (op.run E n).1 := by
  obtain ⟨_, hterm, hvote⟩ := run_ballot (E := E) hop
  refine ⟨fun t ht => (hterm t ht).2, fun t x hx => ?_⟩
  obtain ⟨hne, hballot⟩ := hvote t x hx
  exact ⟨hne, hballot ▸ .refl _⟩

/-- A step is compatible with everything remembered. -/
theorem Remembers.keeps {o : Seen} (h : Remembers o n) {op : VoteOp} (hop : op.Durable n) :
    o.Keeps (op.run E n).2 := by
  obtain ⟨hle, hterm, hvote⟩ := run_ballot (E := E) hop
  refine ⟨fun t ht t' ht' => (h.term t ht).trans (hterm t' ht').1, fun t x y hx hy => ?_⟩
  obtain ⟨hne, hbefore⟩ := h.vote t x hx
  have hafter : BallotLe (t, x) (t, y) := by
    rw [← (hvote t y hy).2]
    exact hbefore.trans hle
  rcases hafter with hlt | ⟨_, hnone | hsame⟩
  · exact absurd hlt (lt_irrefl t)
  · exact absurd hnone hne
  · exact hsame

/-- Nothing the node shows over a run breaks a promise shown before. -/
def KeepsPromises (E : Engine σ) (n : RaftNode σ) (ops : List VoteOp) : Prop :=
  (Lib.observe (VoteOp.run E) n ops).Pairwise Seen.Keeps

/-- **A node keeps its promises** over every run whose restarts find the ballot of the memory in the
file, whose candidates have a name and in which no election starts in the last term: terms shown never go
down, and votes of one term are for one candidate. -/
theorem promises_kept (E : Engine σ) (n : RaftNode σ) (ops : List VoteOp)
    (hops : Lib.Always (VoteOp.run E) VoteOp.Durable n ops) : KeepsPromises E n ops :=
  Lib.pairwise_observe (P := Remembers) (fun _ _ => remembers_run)
    (fun _ _ _ hop h => h.run hop) (fun _ _ _ hop h => h.keeps hop) hops

open Shipped (node1 node2 node3)

/-- `candidate` asks for the vote of term `1`, with an empty log. -/
def firstTerm (candidate : NodeID) : RequestVoteRequest := ⟨1, candidate, 0, 0⟩

/-- A vote that is saved, a restart, and a second candidate; then an election whose `SaveMeta` fails. -/
def savedVote : List VoteOp :=
  [.requestVote (fun _ => true) (firstTerm node2), .restart,
    .requestVote (fun _ => true) (firstTerm node3), .startElection fun _ => false]

theorem promises_kept_savedVote :
    Lib.Always (VoteOp.run Shipped.engine) VoteOp.Durable (Shipped.start.node node1) savedVote ∧
      Lib.observe (VoteOp.run Shipped.engine) (Shipped.start.node node1) savedVote =
        [⟨some 1, some (1, node2)⟩, ⟨none, none⟩, ⟨some 1, none⟩, ⟨some 2, some (2, node1)⟩] ∧
      KeepsPromises Shipped.engine (Shipped.start.node node1) savedVote := by
  have hops : Lib.Always (VoteOp.run Shipped.engine) VoteOp.Durable (Shipped.start.node node1)
      savedVote := by
    refine ⟨?_, ?_, ?_, ?_, trivial⟩ <;> decide
  exact ⟨hops, by decide, promises_kept _ _ _ hops⟩

/-- The vote for the first candidate is given although it could not be saved; after the restart the
second one gets it, too. -/
def unsavedVote : List VoteOp :=
  [.requestVote (fun k => k = 0) (firstTerm node2), .restart,
    .requestVote (fun _ => true) (firstTerm node3)]

theorem lost_vote :
    Lib.observe (VoteOp.run Shipped.engine) (Shipped.start.node node1) unsavedVote =
        [⟨some 1, some (1, node2)⟩, ⟨none, none⟩, ⟨some 1, some (1, node3)⟩] ∧
      ¬ KeepsPromises Shipped.engine (Shipped.start.node node1) unsavedVote := by
  have hseen : Lib.observe (VoteOp.run Shipped.engine) (Shipped.start.node node1) unsavedVote =
      [⟨some 1, some (1, node2)⟩, ⟨none, none⟩, ⟨some 1, some (1, node3)⟩] := by decide
  refine ⟨hseen, fun h => ?_⟩
  rw [KeepsPromises, hseen] at h
  have hkeeps := List.rel_of_pairwise_cons h (List.mem_cons_of_mem _ (List.mem_singleton_self _))
  exact absurd (hkeeps.vote 1 node2 node3 rfl rfl) (by decide)

/-- The empty name is the "nobody" of `votedFor`: a vote for it does not count as one given. -/
example : Lib.observe (VoteOp.run Shipped.engine) (Shipped.start.node node1)
    [.requestVote (fun _ => true) (firstTerm []), .requestVote (fun _ => true) (firstTerm node3)] =
      [⟨some 1, some (1, [])⟩, ⟨some 1, some (1, node3)⟩] := by decide

/-- One request brings the node to the last term, and the election after it is in term `0`. -/
example : Lib.observe (VoteOp.run Shipped.engine) (Shipped.start.node node1)
    [.requestVote (fun _ => true) ⟨maxTerm, node2, 0, 0⟩, .startElection fun _ => true] =
      [⟨some maxTerm, some (maxTerm, node2)⟩, ⟨some 0, some (0, node1)⟩] := by decide

end RaftNode

end Raftrix
