import Raftrix.Cluster.LogShape

/-!
# Late answers

`replicateToPeer` releases the lock while its request is on the way. When the answer comes the node may
have stepped down, or lead again in a later term, or have counted other answers of the same peer. Three
things are asked of the code behind the two calls, and each holds exactly under a condition on the state
in which the answer is processed.

* `n.leader` is set exactly while the node leads (`Reaches.leaderSet`), so the AppendEntries branch, which
  checks the role again, never finds it nil. The InstallSnapshot branch does not check, and
  **`leader_nil_iff`**: a run never goes through a nil `n.leader` exactly if no successful snapshot comes
  back to a node that does not lead any more (`LateInstall`).
* The answer to a request of an earlier term is processed like any other: **`stale_answer_harmless_iff`**,
  it leaves the bookkeeping and the commit index as they are exactly if it brings nothing new
  (`BringsNothing`).
* An acknowledged AppendEntries never lowers `matchIndex`, a snapshot sets it: **`match_index_monotone`**,
  `matchIndex` grows along every leadership exactly if each successful snapshot reaches as far as it
  (`MatchAhead`).
-/

namespace Raftrix

variable {σ : Type}

/-- The answer a call has got. -/
def Reply.answer? {τ : Type} : Reply τ → Option τ
  | .answered resp => some resp
  | _ => none

theorem Reply.answer?_eq_some {τ : Type} {reply : Reply τ} {resp : τ} :
    reply.answer? = some resp ↔ reply = .answered resp := by
  cases reply <;> simp [answer?]

namespace LeaderState

variable {ls ls' : LeaderState} {p : NodeID} {index : Nat}

/-- The two maps give the same answers. -/
def SameBooks (ls ls' : LeaderState) : Prop :=
  ∀ q, ls'.nextIndex.at q = ls.nextIndex.at q ∧ ls'.matchIndex.at q = ls.matchIndex.at q

/-- An acknowledgement of no more than is known leaves `matchIndex` alone. -/
theorem acknowledge_known (h : index ≤ ls.matchIndex.at p) :
    (ls.acknowledge p index).matchIndex = ls.matchIndex := if_neg (Nat.not_lt.mpr h)

theorem sameBooks_acknowledge_iff : SameBooks ls (ls.acknowledge p index) ↔
    index ≤ ls.matchIndex.at p ∧ ls.nextIndex.at p = ls.matchIndex.at p + 1 := by
  constructor
  · intro h
    obtain ⟨hnext, hmatch⟩ := h p
    rw [acknowledge_nextIndex, if_pos rfl, hmatch] at hnext
    rw [acknowledge_matchIndex, if_pos rfl] at hmatch
    exact ⟨max_eq_left_iff.mp hmatch, hnext.symm⟩
  · rintro ⟨hknown, hnext⟩ q
    rw [acknowledge_nextIndex, acknowledge_known hknown]
    refine ⟨?_, rfl⟩
    split
    · rename_i hq
      rw [hq, hnext]
    · rfl

theorem sameBooks_backUp_iff : SameBooks ls (ls.backUp p index) ↔
    index = ls.nextIndex.at p ∨ index = 0 ∧ ls.nextIndex.at p ≤ 1 := by
  unfold SameBooks
  simp only [backUp_matchIndex, and_true]
  unfold backUp
  split
  · rename_i hpos
    simp only [IndexMap.at_insert]
    constructor
    · intro h
      have := h p
      rw [if_pos rfl] at this
      exact Or.inl this
    · rintro (heq | ⟨hzero, _⟩) q
      · split
        · rename_i hq
          rw [hq, heq]
        · rfl
      · omega
  · rename_i hzero
    split
    · rename_i hgt
      simp only [IndexMap.at_insert]
      refine iff_of_false (fun h => ?_) (by omega)
      have := h p
      rw [if_pos rfl] at this
      omega
    · exact iff_of_true (fun q => rfl) (by omega)

/-- The update for an installed snapshot. -/
theorem sameBooks_insert_iff : SameBooks ls
      ⟨ls.nextIndex.insert p (index + 1), ls.matchIndex.insert p index⟩ ↔
    ls.matchIndex.at p = index ∧ ls.nextIndex.at p = index + 1 := by
  unfold SameBooks
  simp only [IndexMap.at_insert]
  constructor
  · intro h
    have := h p
    rw [if_pos rfl, if_pos rfl] at this
    exact ⟨this.2.symm, this.1.symm⟩
  · rintro ⟨hmatch, hnext⟩ q
    split
    · rename_i hq
      rw [hq]
      exact ⟨hnext.symm, hmatch.symm⟩
    · exact ⟨rfl, rfl⟩

end LeaderState

namespace RaftNode

variable {disk : Disk} {n n' : RaftNode σ} {peer : NodeID}

/-- When the AppendEntries branch goes through a nil `n.leader`. -/
theorem appendResponse_eq_none_iff {resp : AppendEntriesResponse} :
    n.appendResponse disk peer resp = none ↔
      n.state = .leader ∧ resp.term ≤ n.currentTerm ∧ n.leader = none := by
  unfold appendResponse
  split
  · rename_i hrole
    simp [hrole]
  · rename_i hrole
    split
    · rename_i hlt
      simpa using fun _ h => absurd h (by omega)
    · rename_i hterm
      cases hls : n.leader with
      | none => simpa using ⟨not_not.mp hrole, by omega⟩
      | some ls =>
        dsimp only
        split <;> simp

/-- When the InstallSnapshot branch does. -/
theorem snapshotResponse_eq_none_iff {snapshotIdx : Nat} {resp : InstallSnapshotResponse} :
    n.snapshotResponse disk peer snapshotIdx resp = none ↔
      resp.term ≤ n.currentTerm ∧ resp.success = true ∧ n.leader = none := by
  unfold snapshotResponse
  split
  · rename_i hlt
    simpa using fun h => absurd h (by omega)
  · rename_i hterm
    cases hs : resp.success with
    | false => simp
    | true =>
      cases hls : n.leader with
      | none => simpa using Nat.le_of_not_lt hterm
      | some ls => simp

end RaftNode

namespace Cluster

variable {E : Engine σ} {M : Membership} {disk : Disk} {s s' : Cluster σ} {a : Action} {st : Step}
  {i : NodeID} {n m : RaftNode σ}

/-! ## Processing an answer -/

theorem setOrPanic_self (r : Option (RaftNode σ)) :
    (s.setOrPanic E i r).node i = r.getD ((s.node i).newRaftNode E) := by
  cases r with
  | none => exact restart_self i _
  | some n => exact setNode_self s i n

theorem setOrPanic_other (r : Option (RaftNode σ)) {j : NodeID} (hj : j ≠ i) :
    (s.setOrPanic E i r).node j = s.node j := by
  cases r with
  | none => exact restart_other _ hj
  | some n => exact setNode_other s i n hj

/-- A step that processes the answer to the `k`-th AppendEntries call. -/
theorem step_appendReturn {k : Nat} (h : s.step E M (.act disk (.appendReturn k)) = some s') :
    ∃ c resp, s.appendCalls[k]? = some c ∧ c.reply = .answered resp ∧
      s'.node c.src = ((s.node c.src).appendResponse disk c.dst resp).getD
        ((s.node c.src).newRaftNode E) := by
  simp only [step, exec] at h
  split at h
  · rename_i src dst req resp hk
    cases h
    exact ⟨_, resp, hk, rfl, setOrPanic_self _⟩
  · cases h

/-- A step that processes the answer to the `k`-th InstallSnapshot call. -/
theorem step_snapshotReturn {k : Nat}
    (h : s.step E M (.act disk (.snapshotReturn k)) = some s') :
    ∃ c resp, s.snapshotCalls[k]? = some c ∧ c.reply = .answered resp ∧
      s'.node c.src = ((s.node c.src).snapshotResponse disk c.dst c.req.lastIncludedIndex resp).getD
        ((s.node c.src).newRaftNode E) ∧ ∀ j, j ≠ c.src → s'.node j = s.node j := by
  simp only [step, exec] at h
  split at h
  · rename_i src dst req resp hk
    cases h
    exact ⟨_, resp, hk, rfl, setOrPanic_self _, fun j hj => setOrPanic_other _ hj⟩
  · cases h

/-! ## `n.leader` and the role -/

/-- `n.leader` is set exactly while the node leads. -/
def LeaderSet (n : RaftNode σ) : Prop := n.state = .leader ↔ n.leader.isSome = true

theorem LeaderSet.exists (h : LeaderSet n) (hlead : n.state = .leader) : ∃ ls, n.leader = some ls :=
  Option.isSome_iff_exists.mp (h.mp hlead)

theorem LeaderSet.eq_none (h : LeaderSet n) (hrole : n.state ≠ .leader) : n.leader = none := by
  cases hls : n.leader with
  | none => rfl
  | some ls => exact absurd (h.mpr (by rw [hls]; rfl)) hrole

theorem Joins.leaderSet {written : Bool} {term : Nat} (hm : Joins written n term m)
    (h : LeaderSet n) : LeaderSet m := by
  cases hm with
  | same _ => exact h
  | down _ => exact iff_of_false (by simp) (by simp)

theorem Move.leaderSet (hmove : Move E M disk s a i n) (h : LeaderSet (s.node i)) : LeaderSet n := by
  cases hmove with
  | panic => exact iff_of_false (by simp) (by simp)
  | down _ _ => exact iff_of_false (by simp) (by simp)
  | timeout _ hrole _ =>
    refine iff_of_false (by simp [RaftNode.startElection]) ?_
    simp [RaftNode.startElection, h.eq_none hrole]
  | grant _ _ hm _ _ => exact hm.leaderSet h
  | lead _ _ _ => exact iff_of_true rfl rfl
  | mismatch _ _ hm => exact hm.leaderSet h
  | splice _ _ hm _ _ => exact hm.leaderSet h
  | acked _ _ _ hrole _ _ _ _ => exact iff_of_true hrole rfl
  | backedUp _ _ hrole _ => exact iff_of_true hrole rfl
  | restore _ hm => exact hm.leaderSet h
  | install _ hm _ => exact hm.leaderSet h
  | snapshotAcked _ hls => exact iff_of_true (h.mpr (by rw [hls]; rfl)) rfl
  | @apply i k gs =>
    have ho := RaftNode.onlyApplies_applyCommitted E disk { s.node i with goroutines := gs }
    unfold LeaderSet
    rw [ho.state, ho.leader]
    exact h
  | _ => exact h

section Runs

variable {store : NodeID → σ} {threshold : NodeID → Int} {ok : Cluster σ → Step → Prop}
  {past : List (Cluster σ × Step)}

/-- **In every run, `n.leader` is set exactly while the node leads.** -/
theorem Reaches.leaderSet (h : Reaches E M store threshold ok past s) (i : NodeID) :
    LeaderSet (s.node i) := by
  have hdown : ∀ m : RaftNode σ, LeaderSet (m.newRaftNode E) := fun m =>
    iff_of_false (by simp) (by simp)
  refine Reaches.forall_node (P := fun _ n => LeaderSet n)
    (fun _ => iff_of_false (by simp [init]) (by simp [init])) ?_ h i
  intro past s st i n _ hinv _ hmoved
  cases hmoved with
  | act hmove => exact hmove.leaderSet (hinv _)
  | crash => exact hdown _
  | crashDuring _ _ => exact hdown _
  | applyRead hmove _ => exact hmove.leaderSet (hinv _)

/-! ## A nil `n.leader` -/

/-- The critical section goes through `n.leader` and finds it nil. -/
def DerefsNil (s : Cluster σ) (st : Step) : Prop :=
  match st.action? with
  | some (.replicate i _) => (s.node i).state = .leader ∧ (s.node i).leader = none
  | some (.appendReturn k) =>
    ∃ c ∈ s.appendCalls[k]?, ∃ resp ∈ c.reply.answer?,
      (s.node c.src).appendResponse (fun _ => true) c.dst resp = none
  | some (.snapshotReturn k) =>
    ∃ c ∈ s.snapshotCalls[k]?, ∃ resp ∈ c.reply.answer?,
      (s.node c.src).snapshotResponse (fun _ => true) c.dst c.req.lastIncludedIndex resp = none
  | _ => False

/-- A snapshot has been installed, and the answer comes to a node that does not lead any more and has
not seen a newer term than its own in it. -/
def LateInstall (s : Cluster σ) (st : Step) : Prop :=
  match st.action? with
  | some (.snapshotReturn k) =>
    ∃ c ∈ s.snapshotCalls[k]?, ∃ resp ∈ c.reply.answer?, resp.success = true ∧
      resp.term ≤ (s.node c.src).currentTerm ∧ (s.node c.src).state ≠ .leader
  | _ => False

instance (s : Cluster σ) (st : Step) : Decidable (LateInstall s st) :=
  decidable_of_iff ((match st.action? with
    | some (.snapshotReturn k) =>
      decide (∃ c ∈ s.snapshotCalls[k]?, ∃ resp ∈ c.reply.answer?, resp.success = true ∧
        resp.term ≤ (s.node c.src).currentTerm ∧ (s.node c.src).state ≠ .leader)
    | _ => false) = true) (by unfold LateInstall; split <;> simp)

/-- In a state where `n.leader` is set exactly while the nodes lead, only a late snapshot finds it
nil. -/
theorem derefsNil_iff (h : ∀ i, LeaderSet (s.node i)) (st : Step) :
    DerefsNil s st ↔ LateInstall s st := by
  unfold DerefsNil LateInstall
  cases st.action? with
  | none => exact Iff.rfl
  | some a =>
    cases a with
    | replicate i peer =>
      refine iff_of_false ?_ id
      rintro ⟨hlead, hnone⟩
      obtain ⟨ls, hls⟩ := (h i).exists hlead
      rw [hls] at hnone
      exact absurd hnone (by simp)
    | appendReturn k =>
      refine iff_of_false ?_ id
      rintro ⟨c, _, resp, _, hnil⟩
      obtain ⟨hlead, _, hnone⟩ := RaftNode.appendResponse_eq_none_iff.mp hnil
      obtain ⟨ls, hls⟩ := (h c.src).exists hlead
      rw [hls] at hnone
      exact absurd hnone (by simp)
    | snapshotReturn k =>
      refine exists_congr fun c => and_congr_right fun _ => exists_congr fun resp =>
        and_congr_right fun _ => ?_
      rw [RaftNode.snapshotResponse_eq_none_iff]
      constructor
      · rintro ⟨hterm, hs, hnone⟩
        refine ⟨hs, hterm, fun hlead => ?_⟩
        obtain ⟨ls, hls⟩ := (h c.src).exists hlead
        rw [hls] at hnone
        exact absurd hnone (by simp)
      · rintro ⟨hs, hterm, hrole⟩
        exact ⟨hterm, hs, (h c.src).eq_none hrole⟩
    | _ => exact Iff.rfl

/-- **A run never goes through a nil `n.leader` exactly if no successful snapshot comes back to a node
that does not lead any more.** -/
theorem leader_nil_iff (h : Reaches E M store threshold ok past s) :
    (∀ τ st, (τ, st) ∈ past → ¬ DerefsNil τ st) ↔ ∀ τ st, (τ, st) ∈ past → ¬ LateInstall τ st := by
  have hiff : ∀ τ st, (τ, st) ∈ past → (DerefsNil τ st ↔ LateInstall τ st) := by
    intro τ st hmem
    obtain ⟨earlier, _, hr, _⟩ := h.of_mem_past hmem
    exact derefsNil_iff (Reaches.leaderSet hr) st
  exact forall_congr' fun τ => forall_congr' fun st => forall_congr' fun hmem =>
    not_congr (hiff τ st hmem)

open Shipped (node1 node2 node3 elect snapshotInstalled)

/-- A snapshot is sent, installed and acknowledged, and nothing goes through a nil `n.leader`. -/
theorem leader_nil_iff_snapshotInstalled : ∃ past s,
    Shipped.EagerReaches (fun s st => ¬ LateInstall s st) past s ∧ past.length = 35 ∧
    (s.node node1).matchIndexOf node3 = 1 ∧ ∀ τ st, (τ, st) ∈ past → ¬ DerefsNil τ st := by
  have hrun := (Shipped.reaches_eagerPlay (fun s st => ¬ LateInstall s st)
    (snapshotInstalled ++ acts [.snapshotReturn 0])).mono fun _ _ h => h.1
  refine ⟨_, _, hrun, by decide +kernel, by decide +kernel, (leader_nil_iff hrun).mpr
    fun τ st hmem => ?_⟩
  obtain ⟨_, _, _, hok, _⟩ := hrun.of_mem_past hmem
  exact hok

/-- **A late snapshot panics.** `node-3` has installed a snapshot of `node-1`; before the answer arrives
`node-1` hears of term 3 from `node-2` and steps down. -/
theorem late_snapshot_panics : ∃ past s,
    Shipped.EagerReaches (fun s st => True ∧ DiskOk s st) past s ∧
    (s.node node1).state = .follower ∧ (s.node node1).leader.isNone = true ∧
    ∃ c ∈ s.snapshotCalls[0]?, c.src = node1 ∧ c.waiting = true ∧ ∃ resp ∈ c.reply.answer?,
      resp.success = true ∧ ((s.node node1).snapshotResponse (fun _ => true) c.dst
        c.req.lastIncludedIndex resp).isNone = true :=
  ⟨_, _, Shipped.reaches_eagerPlay (fun _ _ => True)
    (snapshotInstalled ++ acts [.electionTimeout node2, .handleVote 4]), by decide +kernel,
    by decide +kernel, by decide +kernel⟩

/-! ## Answers to requests of an earlier term -/

/-- The commit index is as before, and so is the bookkeeping if the node still leads. -/
structure Unchanged (n n' : RaftNode σ) : Prop where
  commit : n'.commitIndex = n.commitIndex
  books : n'.state = .leader →
    ∀ p, n'.nextIndexOf p = n.nextIndexOf p ∧ n'.matchIndexOf p = n.matchIndexOf p

/-- No index of the current term above the commit index is known on a majority. -/
def NothingToCommit (n : RaftNode σ) : Prop :=
  ∀ ls ∈ n.leader, ∀ k ≤ n.raftLog.lastIndex, n.commitIndex < k →
    n.raftLog.termAt k = n.currentTerm → ls.count k < ls.majority

instance (n : RaftNode σ) : Decidable (NothingToCommit n) := by
  unfold NothingToCommit
  infer_instance

/-- An answer of `p` to an AppendEntries request brings nothing new: it is of a newer term, or a success
that acknowledges no more than is known, or a rejection whose hint has been followed. -/
def AppendBringsNothing (n : RaftNode σ) (p : NodeID) (resp : AppendEntriesResponse) : Prop :=
  n.currentTerm < resp.term ∨
    if resp.success = true then
      resp.matchIndex ≤ n.matchIndexOf p ∧ n.nextIndexOf p = n.matchIndexOf p + 1 ∧ NothingToCommit n
    else
      resp.conflictIndex = n.nextIndexOf p ∨ resp.conflictIndex = 0 ∧ n.nextIndexOf p ≤ 1

instance (n : RaftNode σ) (p : NodeID) (resp : AppendEntriesResponse) :
    Decidable (AppendBringsNothing n p resp) := by
  unfold AppendBringsNothing
  infer_instance

/-- An answer of `p` to an InstallSnapshot request brings nothing new: it is of a newer term, or no
success, or `p` is known to hold exactly as much. -/
def SnapshotBringsNothing (n : RaftNode σ) (p : NodeID) (snapshotIdx : Nat)
    (resp : InstallSnapshotResponse) : Prop :=
  n.currentTerm < resp.term ∨ (resp.success = true →
    n.matchIndexOf p = snapshotIdx ∧ n.nextIndexOf p = snapshotIdx + 1)

instance (n : RaftNode σ) (p : NodeID) (snapshotIdx : Nat) (resp : InstallSnapshotResponse) :
    Decidable (SnapshotBringsNothing n p snapshotIdx resp) := by
  unfold SnapshotBringsNothing
  infer_instance

theorem unchanged_becomeFollower (written : Bool) (n : RaftNode σ) (term : Nat) :
    Unchanged n (n.becomeFollower written term) :=
  ⟨rfl, fun h => absurd h (by simp)⟩

/-- New bookkeeping, nothing else. -/
theorem unchanged_leader_iff {ls ls' : LeaderState} (hlead : n.state = .leader)
    (hls : n.leader = some ls) : Unchanged n { n with leader := some ls' } ↔ ls.SameBooks ls' := by
  constructor
  · intro h p
    have hbooks := h.books hlead p
    rw [n.nextIndexOf_eq hls, n.matchIndexOf_eq hls] at hbooks
    exact hbooks
  · refine fun h => ⟨rfl, fun _ p => ?_⟩
    rw [n.nextIndexOf_eq hls, n.matchIndexOf_eq hls]
    exact h p

/-- New bookkeeping and the commit rule. -/
theorem unchanged_commitAcked_iff {ls ls' : LeaderState} (hlead : n.state = .leader)
    (hls : n.leader = some ls) : Unchanged n ({ n with leader := some ls' }.commitAcked ls') ↔
      ls.SameBooks ls' ∧ ls'.commitCandidate n.commitIndex n.raftLog.lastIndex n.currentTerm
        n.raftLog.termAt = 0 := by
  unfold RaftNode.commitAcked
  dsimp only
  split
  · rename_i hpos
    -- a candidate lies above the commit index
    have hgt := (LeaderState.commitCandidate_spec rfl hpos).1
    refine iff_of_false (fun h => ?_) fun h => absurd h.2 (by omega)
    have hcommit := h.commit
    dsimp only at hcommit
    omega
  · rename_i hzero
    rw [unchanged_leader_iff hlead hls]
    exact ⟨fun h => ⟨h, by omega⟩, fun h => h.1⟩

/-- The AppendEntries branch, for a leader. -/
theorem unchanged_appendResponse_iff {ls : LeaderState} {p : NodeID} {resp : AppendEntriesResponse}
    (hlead : n.state = .leader) (hls : n.leader = some ls)
    (hn : n.appendResponse disk p resp = some m) :
    Unchanged n m ↔ AppendBringsNothing n p resp := by
  unfold RaftNode.appendResponse at hn
  unfold AppendBringsNothing
  rw [if_neg (not_not.mpr hlead)] at hn
  split at hn
  · rename_i hnewer
    cases hn
    exact iff_of_true (unchanged_becomeFollower _ n _) (Or.inl hnewer)
  · rename_i hterm
    rw [hls] at hn
    dsimp only at hn
    rw [or_iff_right (by omega), n.nextIndexOf_eq hls, n.matchIndexOf_eq hls]
    split at hn
    · rename_i hs
      cases hn
      rw [if_pos hs, unchanged_commitAcked_iff hlead hls, LeaderState.sameBooks_acknowledge_iff,
        LeaderState.commitCandidate_eq_zero_iff, and_assoc]
      refine and_congr_right fun hknown => and_congr_right fun _ => ?_
      -- the counts are read off `matchIndex`, which has not changed
      unfold NothingToCommit LeaderState.count LeaderState.majority
      rw [LeaderState.acknowledge_known hknown]
      constructor
      · intro h ls₁ hls₁
        rw [hls] at hls₁
        obtain rfl := Option.some.inj hls₁
        exact h
      · exact fun h => h ls hls
    · rename_i hs
      cases hn
      rw [if_neg hs, unchanged_leader_iff hlead hls, LeaderState.sameBooks_backUp_iff]

/-- The InstallSnapshot branch, for a leader. -/
theorem unchanged_snapshotResponse_iff {ls : LeaderState} {p : NodeID} {snapshotIdx : Nat}
    {resp : InstallSnapshotResponse} (hlead : n.state = .leader) (hls : n.leader = some ls)
    (hn : n.snapshotResponse disk p snapshotIdx resp = some m) :
    Unchanged n m ↔ SnapshotBringsNothing n p snapshotIdx resp := by
  unfold RaftNode.snapshotResponse at hn
  unfold SnapshotBringsNothing
  split at hn
  · rename_i hnewer
    cases hn
    exact iff_of_true (unchanged_becomeFollower _ n _) (Or.inl hnewer)
  · rename_i hterm
    rw [or_iff_right (by omega)]
    split at hn
    · rename_i hs
      rw [hls] at hn
      cases hn
      rw [unchanged_leader_iff hlead hls, LeaderState.sameBooks_insert_iff, n.nextIndexOf_eq hls,
        n.matchIndexOf_eq hls]
      exact ⟨fun h _ => h, fun h => h hs⟩
    · rename_i hs
      cases hn
      exact iff_of_true ⟨rfl, fun _ _ => ⟨rfl, rfl⟩⟩ fun h => absurd h hs

/-- The action processes an answer to a request that node `i` has sent in an earlier term. -/
def StaleAnswer (s : Cluster σ) (i : NodeID) : Action → Prop
  | .appendReturn k => ∃ c ∈ s.appendCalls[k]?, c.src = i ∧ c.req.term < (s.node i).currentTerm
  | .snapshotReturn k => ∃ c ∈ s.snapshotCalls[k]?, c.src = i ∧ c.req.term < (s.node i).currentTerm
  | _ => False

/-- The answer that the action processes brings node `i` nothing new. -/
def BringsNothing (s : Cluster σ) (i : NodeID) : Action → Prop
  | .appendReturn k => ∀ c ∈ s.appendCalls[k]?, ∀ resp ∈ c.reply.answer?,
      AppendBringsNothing (s.node i) c.dst resp
  | .snapshotReturn k => ∀ c ∈ s.snapshotCalls[k]?, ∀ resp ∈ c.reply.answer?,
      SnapshotBringsNothing (s.node i) c.dst c.req.lastIncludedIndex resp
  | _ => True

/-- **The answer to a request of an earlier term is harmless exactly if it brings nothing new.** In every
run, whenever a node that leads processes such an answer: its commit index, and the bookkeeping of its
leadership if that goes on, are unchanged if and only if the answer is of a newer term, or tells the
leader what it already knows. -/
theorem stale_answer_harmless_iff (h : Reaches E M store threshold ok past s)
    (hlead : (s.node i).state = .leader) (hstale : StaleAnswer s i a)
    (hs : s.step E M (.act disk a) = some s') :
    Unchanged (s.node i) (s'.node i) ↔ BringsNothing s i a := by
  obtain ⟨ls, hls⟩ := (h.leaderSet i).exists hlead
  cases a with
  | appendReturn k =>
    obtain ⟨c, hc, rfl, _⟩ := hstale
    obtain ⟨c', resp, hk, hr, hnode⟩ := step_appendReturn hs
    obtain rfl : c = c' := Option.some.inj (hc.symm.trans hk)
    cases hn : (s.node c.src).appendResponse disk c.dst resp with
    | none =>
      have := (RaftNode.appendResponse_eq_none_iff.mp hn).2.2
      rw [hls] at this
      exact absurd this (by simp)
    | some n =>
      rw [hnode, hn, Option.getD_some, unchanged_appendResponse_iff hlead hls hn]
      simp [BringsNothing, hk, hr, Reply.answer?]
  | snapshotReturn k =>
    obtain ⟨c, hc, rfl, _⟩ := hstale
    obtain ⟨c', resp, hk, hr, hnode, _⟩ := step_snapshotReturn hs
    obtain rfl : c = c' := Option.some.inj (hc.symm.trans hk)
    cases hn : (s.node c.src).snapshotResponse disk c.dst c.req.lastIncludedIndex resp with
    | none =>
      have := (RaftNode.snapshotResponse_eq_none_iff.mp hn).2.2
      rw [hls] at this
      exact absurd this (by simp)
    | some n =>
      rw [hnode, hn, Option.getD_some, unchanged_snapshotResponse_iff hlead hls hn]
      simp [BringsNothing, hk, hr, Reply.answer?]
  | _ => exact absurd hstale id

/-- `node-1` leads term 1 and sends its no-op to `node-2` twice. Both requests are accepted, but before
the answers arrive `node-1` hears of term 2 from `node-2` and is elected again, in term 3. -/
def ledTwice : List Action :=
  elect node1 0 1 ++ [.replicate node1 node2, .replicate node1 node2, .handleAppend 0, .handleAppend 1,
    .electionTimeout node2, .handleVote 2] ++ elect node1 4 5

/-- The second answer tells `node-1` nothing that it has not learnt from the first. -/
theorem stale_answer_harmless_ledTwice : ∃ past s s',
    Shipped.Reaches (fun _ _ => True) past s ∧ (s.node node1).state = .leader ∧
    StaleAnswer s node1 (.appendReturn 1) ∧
    s.step Shipped.engine Shipped.membership (.act (fun _ => true) (.appendReturn 1)) = some s' ∧
    Unchanged (s.node node1) (s'.node node1) := by
  have hrun := (Shipped.reaches_play (fun _ _ => True) (ledTwice ++ [.appendReturn 0])).mono
    fun _ _ h => h.1
  have hlead : ((Shipped.play (fun _ _ => True) (ledTwice ++ [.appendReturn 0])).2.node node1).state =
      .leader := by decide +kernel
  have hstale : StaleAnswer (Shipped.play (fun _ _ => True) (ledTwice ++ [.appendReturn 0])).2 node1
      (.appendReturn 1) := by
    unfold StaleAnswer
    decide +kernel
  have hnothing : BringsNothing (Shipped.play (fun _ _ => True) (ledTwice ++ [.appendReturn 0])).2
      node1 (.appendReturn 1) := by
    unfold BringsNothing
    decide +kernel
  have hstep : ((Shipped.play (fun _ _ => True) (ledTwice ++ [.appendReturn 0])).2.step Shipped.engine
      Shipped.membership (.act (fun _ => true) (.appendReturn 1))).isSome = true := by decide +kernel
  obtain ⟨s', hs⟩ := Option.isSome_iff_exists.mp hstep
  exact ⟨_, _, s', hrun, hlead, hstale, hs,
    (stale_answer_harmless_iff hrun hlead hstale hs).mpr hnothing⟩

/-- **A late acknowledgement counts for the wrong leadership.** The first answer was given in term 1; in
term 3 it raises `matchIndex` of `node-2` from 0 to 1. -/
theorem stale_answer_counted : ∃ past s,
    Shipped.Reaches (fun s st => True ∧ DiskOk s st) past s ∧
    (s.node node1).state = .leader ∧ (s.node node1).currentTerm = 3 ∧
    (∃ c ∈ s.appendCalls[0]?, c.src = node1 ∧ c.req.term = 1) ∧
    (s.node node1).matchIndexOf node2 = 0 ∧
    ∃ s' ∈ s.step Shipped.engine Shipped.membership (.act (fun _ => true) (.appendReturn 0)),
      (s'.node node1).state = .leader ∧ (s'.node node1).matchIndexOf node2 = 1 :=
  ⟨_, _, Shipped.reaches_play (fun _ _ => True) ledTwice, by decide +kernel, by decide +kernel,
    by decide +kernel, by decide +kernel, by decide +kernel⟩

/-! ## `matchIndex` along a leadership -/

/-- A snapshot that a leader finds installed reaches as far as the peer is known to hold the log. -/
def MatchAhead (s : Cluster σ) (st : Step) : Prop :=
  match st with
  | .act _ (.snapshotReturn k) =>
    ∀ c ∈ s.snapshotCalls[k]?, (s.node c.src).state = .leader → ∀ resp ∈ c.reply.answer?,
      resp.success = true → resp.term ≤ (s.node c.src).currentTerm →
      (s.node c.src).matchIndexOf c.dst ≤ c.req.lastIncludedIndex
  | _ => True

instance (s : Cluster σ) (st : Step) : Decidable (MatchAhead s st) :=
  decidable_of_iff ((match st with
    | .act _ (.snapshotReturn k) =>
      decide (∀ c ∈ s.snapshotCalls[k]?, (s.node c.src).state = .leader → ∀ resp ∈ c.reply.answer?,
        resp.success = true → resp.term ≤ (s.node c.src).currentTerm →
        (s.node c.src).matchIndexOf c.dst ≤ c.req.lastIncludedIndex)
    | _ => true) = true) (by unfold MatchAhead; split <;> simp only [decide_eq_true_iff])

/-- No `matchIndex` of node `i` has gone down. -/
def MatchGrows (i : NodeID) (s s' : Cluster σ) : Prop :=
  ∀ p, (s.node i).matchIndexOf p ≤ (s'.node i).matchIndexOf p

theorem matchIndexOf_congr {n n' : RaftNode σ} (h : n'.leader = n.leader) (p : NodeID) :
    n'.matchIndexOf p = n.matchIndexOf p := by
  rw [RaftNode.matchIndexOf, RaftNode.matchIndexOf, h]

/-- A leader that still leads after a critical section other than the end of an InstallSnapshot. -/
theorem Move.matchIndexOf_le (hmove : Move E M disk s a i n) (ha : ∀ k, a ≠ .snapshotReturn k)
    (hlead : (s.node i).state = .leader) (hlead' : n.state = .leader) (p : NodeID) :
    (s.node i).matchIndexOf p ≤ n.matchIndexOf p := by
  have hjoin : ∀ {ok : Bool} {term : Nat} {m : RaftNode σ}, Joins ok (s.node i) term m →
      m.state = .leader → m.leader = (s.node i).leader := by
    intro ok term m hm hl
    cases hm with
    | same _ => rfl
    | down _ => exact absurd hl (by simp)
  cases hmove with
  | panic => exact absurd hlead' (by simp)
  | down _ _ => exact absurd hlead' (by simp)
  | timeout _ hrole _ => exact absurd hlead hrole
  | grant _ _ hm _ _ => exact (matchIndexOf_congr (hjoin hm hlead') p).ge
  | lead _ _ hrole =>
    rw [hrole] at hlead
    exact absurd hlead (by simp)
  | mismatch _ _ hm => exact (matchIndexOf_congr (hjoin hm hlead') p).ge
  | splice _ _ hm _ _ => exact (matchIndexOf_congr (hjoin hm hlead') p).ge
  | acked _ _ _ _ _ hls _ _ =>
    rw [RaftNode.matchIndexOf_eq hls, RaftNode.matchIndexOf_eq rfl, LeaderState.acknowledge_matchIndex]
    split
    · exact le_max_left _ _
    · exact le_refl _
  | backedUp _ _ _ hls =>
    rw [RaftNode.matchIndexOf_eq hls, RaftNode.matchIndexOf_eq rfl, LeaderState.backUp_matchIndex]
  | restore _ hm => exact (matchIndexOf_congr (hjoin hm hlead') p).ge
  | install _ hm _ => exact (matchIndexOf_congr (hjoin hm hlead') p).ge
  | snapshotAcked _ _ => exact absurd rfl (ha _)
  | @apply i k gs =>
    have ho := RaftNode.onlyApplies_applyCommitted E disk { s.node i with goroutines := gs }
    exact (matchIndexOf_congr ho.leader p).ge
  | _ => exact le_refl _

/-- What the answer to an InstallSnapshot request does to `matchIndex` of a leader. -/
theorem matchIndexOf_snapshotResponse (disk : Disk) (p : NodeID) (snapshotIdx : Nat)
    (resp : InstallSnapshotResponse) (hset : LeaderSet n) (hlead : n.state = .leader)
    (hlead' : ((n.snapshotResponse disk p snapshotIdx resp).getD (n.newRaftNode E)).state = .leader)
    (q : NodeID) :
    ((n.snapshotResponse disk p snapshotIdx resp).getD (n.newRaftNode E)).matchIndexOf q =
      if resp.success = true ∧ q = p then snapshotIdx else n.matchIndexOf q := by
  obtain ⟨ls, hls⟩ := hset.exists hlead
  unfold RaftNode.snapshotResponse at hlead' ⊢
  split at hlead'
  · exact absurd hlead' (by simp)
  · rename_i hterm
    rw [if_neg hterm]
    cases hs : resp.success with
    | false => simp
    | true => simp [hls, RaftNode.matchIndexOf, IndexMap.at_insert]

/-- The answer to an InstallSnapshot request keeps `matchIndex` from going down exactly if it is not from
behind it. -/
theorem matchGrows_snapshotReturn_iff {k : Nat} (hset : ∀ i, LeaderSet (s.node i))
    (hs : s.step E M (.act disk (.snapshotReturn k)) = some s') :
    (∀ i, (s.node i).state = .leader → (s'.node i).state = .leader → MatchGrows i s s') ↔
      MatchAhead s (.act disk (.snapshotReturn k)) := by
  obtain ⟨c, resp, hk, hr, hnode, hother⟩ := step_snapshotReturn hs
  have hafter := matchIndexOf_snapshotResponse (E := E) disk c.dst c.req.lastIncludedIndex resp
    (hset c.src)
  rw [← hnode] at hafter
  constructor
  · intro hgrows c' hc' hlead resp' hresp' hsucc hterm
    obtain rfl : c = c' := Option.some.inj (hk.symm.trans hc')
    obtain rfl : resp = resp' := by
      have hr' := Reply.answer?_eq_some.mp hresp'
      rw [hr] at hr'
      exact (Reply.answered.inj hr')
    obtain ⟨ls, hls⟩ := (hset c.src).exists hlead
    have hlead' : (s'.node c.src).state = .leader := by
      rw [hnode]
      simp [RaftNode.snapshotResponse, Nat.not_lt.mpr hterm, hsucc, hls, hlead]
    have hle := hgrows c.src hlead hlead' c.dst
    rw [hafter hlead hlead', if_pos ⟨hsucc, rfl⟩] at hle
    exact hle
  · intro hahead i hlead hlead' p
    by_cases hi : i = c.src
    · subst hi
      rw [hafter hlead hlead']
      split
      · rename_i hq
        obtain ⟨hsucc, rfl⟩ := hq
        refine hahead c hk hlead resp (by rw [hr]; rfl) hsucc ?_
        by_contra hterm
        rw [hnode] at hlead'
        simp [RaftNode.snapshotResponse, Nat.not_le.mp hterm] at hlead'
      · exact le_refl _
    · rw [hother i hi]

/-- **One step keeps `matchIndex` of the leaders from going down exactly if it does not count a snapshot
from behind it.** -/
theorem matchGrows_iff (hset : ∀ i, LeaderSet (s.node i)) (hs : s.step E M st = some s') :
    (∀ i, (s.node i).state = .leader → (s'.node i).state = .leader → MatchGrows i s s') ↔
      MatchAhead s st := by
  by_cases hst : ∃ disk k, st = .act disk (.snapshotReturn k)
  · obtain ⟨disk, k, rfl⟩ := hst
    exact matchGrows_snapshotReturn_iff hset hs
  · -- no other step lowers it
    refine iff_of_true (fun i hlead hlead' p => ?_) ?_
    · obtain ⟨j, hmoved, hother⟩ := step_moved hs
      by_cases hij : i = j
      · subst hij
        generalize s'.node i = n at hmoved hlead'
        cases hmoved with
        | crash => exact absurd hlead' (by simp)
        | crashDuring _ _ => exact absurd hlead' (by simp)
        | act hmove =>
          exact hmove.matchIndexOf_le (fun k ha => hst ⟨_, k, by rw [ha]⟩) hlead hlead' p
        | applyRead hmove _ => exact hmove.matchIndexOf_le (fun _ => by simp) hlead hlead' p
      · rw [hother i hij]
    · unfold MatchAhead
      split
      · exact absurd ⟨_, _, rfl⟩ hst
      · trivial

/-- **`matchIndex` grows along a leadership exactly if no snapshot is counted from behind it.** In every
run: every step leaves `matchIndex[p]` of every node that leads before and after it as it was or raises
it, for every peer `p`, if and only if every successful InstallSnapshot a leader processes reaches as
far as `matchIndex[p]`; and then `matchIndex[p]` has not gone down since any state from which on the
node has led without a break. -/
theorem match_index_monotone (h : Reaches E M store threshold ok past s) :
    ((∀ τ st τ', (τ, st) ∈ past → τ.step E M st = some τ' → ∀ i, (τ.node i).state = .leader →
      (τ'.node i).state = .leader → MatchGrows i τ τ') ↔
      ∀ τ st, (τ, st) ∈ past → MatchAhead τ st) ∧
    ((∀ τ st, (τ, st) ∈ past → MatchAhead τ st) →
      ∀ i τ, Lib.Since (fun s => (s.node i).state = .leader) past s τ → MatchGrows i τ s) := by
  constructor
  · constructor
    · intro hgrows τ st hmem
      obtain ⟨earlier, τ', hr, _, hs, _⟩ := h.of_mem_past hmem
      exact (matchGrows_iff (Reaches.leaderSet hr) hs).mp (hgrows τ st τ' hmem hs)
    · intro hahead τ st τ' hmem hs
      obtain ⟨earlier, _, hr, _⟩ := h.of_mem_past hmem
      exact (matchGrows_iff (Reaches.leaderSet hr) hs).mpr (hahead τ st hmem)
  · intro hahead i τ hsince
    refine (h.guard_of_past hahead).rel_since (R := MatchGrows i) (fun _ _ => le_refl _)
      (fun _ _ _ hab hbc p => (hab p).trans (hbc p)) ?_ hsince
    intro past s st s' hr hok hs hlead hlead'
    exact (matchGrows_iff (Reaches.leaderSet hr) hs).mpr hok i hlead hlead'

/-- A snapshot that `node-3` has installed raises `matchIndex` from 0 to 1. -/
theorem match_index_monotone_snapshotInstalled : ∃ past s,
    Shipped.EagerReaches MatchAhead past s ∧ (s.node node1).matchIndexOf node3 = 1 ∧
    ∀ i τ, Lib.Since (fun s => (s.node i).state = .leader) past s τ → MatchGrows i τ s := by
  have hrun := (Shipped.reaches_eagerPlay MatchAhead
    (snapshotInstalled ++ acts [.snapshotReturn 0])).mono fun _ _ h => h.1
  refine ⟨_, _, hrun, by decide +kernel, (match_index_monotone hrun).2 fun τ st hmem => ?_⟩
  obtain ⟨_, _, _, hok, _⟩ := hrun.of_mem_past hmem
  exact hok

/-- **A late snapshot lowers `matchIndex`.** `node-3` installs a snapshot up to index 1 and is restarted;
then it accepts the second of the two AppendEntries requests, which `node-1` learns of first. When the
answer for the snapshot arrives, `matchIndex` goes from 2 back to 1. -/
theorem late_snapshot_lowers_matchIndex : ∃ past s,
    Shipped.EagerReaches (fun s st => True ∧ DiskOk s st) past s ∧
    (s.node node1).state = .leader ∧ (s.node node1).matchIndexOf node3 = 2 ∧
    ∃ s' ∈ s.step Shipped.engine Shipped.membership (.act (fun _ => true) (.snapshotReturn 0)),
      (s'.node node1).state = .leader ∧ (s'.node node1).currentTerm = (s.node node1).currentTerm ∧
      (s'.node node1).matchIndexOf node3 = 1 :=
  ⟨_, _, Shipped.reaches_eagerPlay (fun _ _ => True)
    (snapshotInstalled ++ [.dies node3] ++ acts [.handleAppend 2, .appendReturn 2]),
    by decide +kernel, by decide +kernel, by decide +kernel⟩

end Runs

end Cluster

end Raftrix
