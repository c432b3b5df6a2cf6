import Raftrix.Cluster.Shipped
import Raftrix.Cluster.Terms
import Raftrix.Lib.LogHistory
import Raftrix.Log.Leader
import Raftrix.Log.Merge

/-!
# The shape of the logs

In a run without snapshots whose accepted AppendEntries requests conflict with the follower's log at
their last entry at most (`NoGap`), every log is a list without gaps, whatever the disk does.

* `Moved.log` says what a step does to the list: nothing, one entry at the end by a leader, or a
  `Merge` with a request.
* **`log_contiguous`**: every `Append` is made at `LastIndex() + 1`, and the stored indices are exactly
  `1, ..., LastIndex()`. `append_precondition_iff` says that the condition cannot be weakened: the
  handling of a request that violates it, with its writes succeeding, makes an `Append` elsewhere.
* **`commit_within_log`**: if moreover a conflicting last entry lies above `commitIndex` and
  `LeaderCommit`, then `lastApplied ≤ commitIndex ≤ LastIndex()` for every node.

Both properties fail without the condition: `log_hole` and `commit_beyond_log` are runs of the shipped
cluster with all writes succeeding.
-/

namespace Raftrix

variable {σ : Type}

/-! ## Conditions on runs -/

/-- The goroutine is about to compact the log. -/
def Goroutine.compacts : Goroutine → Bool
  | .compactLog _ _ _ => true
  | _ => false

/-- The node lets the request through to its log: the term is not stale and the entry before the
first new one matches. -/
def RaftNode.Admits (n : RaftNode σ) (req : AppendEntriesRequest) : Prop :=
  n.currentTerm ≤ req.term ∧ n.raftLog.checkPrev req = none

instance (n : RaftNode σ) (req : AppendEntriesRequest) : Decidable (n.Admits req) :=
  inferInstanceAs (Decidable (_ ∧ _))

instance (rl : RaftLog) (req : AppendEntriesRequest) : Decidable (OnlyLastConflicts rl req) :=
  decidable_of_iff
    (∀ k < req.entries.length, k + 1 < req.entries.length → ∀ q ∈ req.entries[k]?,
      rl.termAt (req.prevLogIndex + k + 1) = 0 ∨ rl.termAt (req.prevLogIndex + k + 1) = q.term)
    ⟨fun h k q hk hq => h k (Nat.lt_of_succ_lt hk) hk q hq, fun h k _ hk q hq => h k q hk hq⟩

instance (rl : RaftLog) (req : AppendEntriesRequest) : Decidable (LastConflicts rl req) :=
  decidable_of_iff (¬ ∀ q ∈ req.entries.getLast?,
      ¬ (rl.termAt (req.prevLogIndex + req.entries.length) ≠ 0 ∧
        rl.termAt (req.prevLogIndex + req.entries.length) ≠ q.term))
    (by simp only [LastConflicts, not_forall, not_not, exists_prop])

namespace Cluster

/-- No snapshot is taken. -/
def NoSnapshot (s : Cluster σ) (st : Step) : Prop :=
  match st.action? with
  | some (.resume i k) => ∀ g ∈ (s.node i).goroutines[k]?, g.compacts = false
  | _ => True

instance (s : Cluster σ) (st : Step) : Decidable (NoSnapshot s st) := by
  unfold NoSnapshot
  split <;> infer_instance

/-- `P` holds of the AppendEntries call the step handles, if it handles one and the callee admits
it. -/
def OnAdmitted (P : RaftNode σ → AppendEntriesRequest → Prop) (s : Cluster σ) (st : Step) : Prop :=
  match st.action? with
  | some (.handleAppend k) =>
    ∀ c ∈ s.appendCalls[k]?, (s.node c.dst).Admits c.req → P (s.node c.dst) c.req
  | _ => True

instance (P : RaftNode σ → AppendEntriesRequest → Prop) [∀ n req, Decidable (P n req)]
    (s : Cluster σ) (st : Step) : Decidable (OnAdmitted P s st) := by
  unfold OnAdmitted
  split <;> infer_instance

/-- Admitted requests conflict with the follower's log at their last entry at most. -/
def NoGap : Cluster σ → Step → Prop :=
  OnAdmitted fun n req => OnlyLastConflicts n.raftLog req

instance (s : Cluster σ) (st : Step) : Decidable (NoGap s st) :=
  inferInstanceAs (Decidable (OnAdmitted _ s st))

/-- An admitted request whose last entry conflicts lies above what the follower has committed and
above what it asks the follower to commit. -/
def CutsAboveCommit : Cluster σ → Step → Prop :=
  OnAdmitted fun n req => LastConflicts n.raftLog req →
    n.commitIndex < req.prevLogIndex + req.entries.length ∧
      req.leaderCommit < req.prevLogIndex + req.entries.length

instance (s : Cluster σ) (st : Step) : Decidable (CutsAboveCommit s st) :=
  inferInstanceAs (Decidable (OnAdmitted _ s st))

variable {E : Engine σ} {M : Membership} {disk : Disk} {s s' : Cluster σ} {a : Action} {st : Step}
  {i : NodeID} {n m : RaftNode σ} {es : List LogEntry}

theorem NoSnapshot.not_compacts (h : NoSnapshot s st) {k : Nat}
    (ha : st.action? = some (.resume i k)) {g : Goroutine}
    (hg : (s.node i).goroutines[k]? = some g) : g.compacts = false := by
  unfold NoSnapshot at h
  rw [ha] at h
  exact h g hg

theorem OnAdmitted.apply {P : RaftNode σ → AppendEntriesRequest → Prop} (h : OnAdmitted P s st)
    {k : Nat} (ha : st.action? = some (.handleAppend k)) {c : AppendCall}
    (hk : s.appendCalls[k]? = some c) (hadm : (s.node c.dst).Admits c.req) :
    P (s.node c.dst) c.req := by
  unfold OnAdmitted at h
  rw [ha] at h
  exact h c hk hadm

/-! ## Joining a term leaves the log alone -/

theorem Joins.holds {ok : Bool} {term : Nat} (h : Joins ok n term m) (hn : n.raftLog.Holds es) :
    m.raftLog.Holds es := by
  cases h with
  | same _ => exact hn
  | down _ => exact hn.saveMeta ok term []

theorem Joins.termAt {ok : Bool} {term : Nat} (h : Joins ok n term m) :
    m.raftLog.termAt = n.raftLog.termAt := by
  cases h with
  | same _ => rfl
  | down _ => cases ok <;> rfl

theorem Joins.lastIndex {ok : Bool} {term : Nat} (h : Joins ok n term m) :
    m.raftLog.lastIndex = n.raftLog.lastIndex := by
  cases h with
  | same _ => rfl
  | down _ => cases ok <;> rfl

/-- The snapshot boundary, cached and recorded. -/
theorem Joins.boundary {ok : Bool} {term : Nat} (h : Joins ok n term m) :
    m.raftLog.snapshotIndex = n.raftLog.snapshotIndex ∧
      m.raftLog.snapshotTerm = n.raftLog.snapshotTerm ∧
      m.raftLog.metaSnapshot = n.raftLog.metaSnapshot := by
  cases h with
  | same _ => exact ⟨rfl, rfl, rfl⟩
  | down _ => cases ok <;> exact ⟨rfl, rfl, rfl⟩

theorem Joins.checkPrev {ok : Bool} {term : Nat} (h : Joins ok n term m)
    (req : AppendEntriesRequest) : m.raftLog.checkPrev req = n.raftLog.checkPrev req := by
  cases h with
  | same _ => rfl
  | down _ => exact RaftLog.checkPrev_saveMeta _ _ _ _ _

theorem Joins.leader {ok : Bool} {term : Nat} (h : Joins ok n term m) (hl : m.state = .leader) :
    n.state = .leader := by
  cases h with
  | same _ => exact hl
  | down _ => exact absurd hl (by simp)

theorem Joins.commitIndex {ok : Bool} {term : Nat} (h : Joins ok n term m) :
    m.commitIndex = n.commitIndex := by
  cases h <;> rfl

theorem Joins.admits {ok : Bool} {req : AppendEntriesRequest} (h : Joins ok n req.term m)
    (hprev : m.raftLog.checkPrev req = none) : n.Admits req :=
  ⟨h.le, (h.checkPrev req).symm.trans hprev⟩

/-- The condition on requests, for the loop over the list. -/
theorem agree_of_onlyLastConflicts {rl : RaftLog} {req : AppendEntriesRequest} (h : rl.Holds es)
    (hc : OnlyLastConflicts rl req) : Agree es req.prevLogIndex req.entries.dropLast := by
  intro k q e hq he
  have hlt : k < req.entries.dropLast.length := (List.getElem?_eq_some_iff.mp hq).1
  rw [List.length_dropLast] at hlt
  have hq' : req.entries[k]? = some q := Lib.getElem?_of_le (List.dropLast_prefix _) hq
  obtain ⟨hterm, htaken⟩ := h.termAt_taken he
  rcases hc k q (by omega) hq' with h0 | hq
  · exact absurd h0 htaken
  · rw [← hterm, hq]

theorem onlyLastConflicts_of_agree {rl : RaftLog} {req : AppendEntriesRequest} (h : rl.Holds es)
    (hagree : Agree es req.prevLogIndex req.entries.dropLast) : OnlyLastConflicts rl req := by
  intro k q hk hq
  cases he : es[req.prevLogIndex + k]? with
  | none => exact Or.inl (h.termAt_missing (List.getElem?_eq_none_iff.mp he))
  | some e =>
    refine Or.inr ((h.termAt_taken he).1.trans (hagree k q e ?_ he))
    rw [List.getElem?_dropLast, if_pos (by omega)]
    exact hq

/-! ## What a step does to a log -/

/-- A node's commit index before and after a step that leaves its log alone. -/
inductive CommitMove (s : Cluster σ) (st : Step) (i : NodeID) (n : RaftNode σ) : Prop
  | same (h : n.commitIndex = (s.node i).commitIndex)
  | reset (h : n.commitIndex = 0)
  | counted {disk : Disk} {k : Nat} {c : AppendCall} {resp : AppendEntriesResponse}
      {ls : LeaderState} (hst : st = .act disk (.appendReturn k)) (hk : s.appendCalls[k]? = some c)
      (hr : c.reply = .answered resp) (hsrc : c.src = i) (hrole : (s.node i).state = .leader)
      (hls : (s.node i).leader = some ls) (hs : resp.success = true) (hpos : 0 < n.commitIndex)
      (hsame : n.state = .leader ∧ n.currentTerm = (s.node i).currentTerm)
      (h : n.commitIndex = (ls.acknowledge c.dst resp.matchIndex).commitCandidate
        (s.node i).commitIndex (s.node i).raftLog.lastIndex (s.node i).currentTerm
        (s.node i).raftLog.termAt)

/-- A node's log and commit index before and after a step, the log as a list. -/
inductive LogMove (s : Cluster σ) (st : Step) (i : NodeID) (n : RaftNode σ)
    (es es' : List LogEntry) : Prop
  | same (heq : es' = es) (hled : DiskOk s st → n.state = .leader → (s.node i).state = .leader)
      (hcommit : CommitMove s st i n)
  | grew {e : LogEntry} (heq : es' = es ++ [e.stored]) (hrole : n.state = .leader)
      (hold : (s.node i).state ≠ .follower) (hcur : n.currentTerm = (s.node i).currentTerm)
      (hterm : e.term = n.currentTerm) (hidx : e.index = es.length + 1)
      (hcommit : n.commitIndex = (s.node i).commitIndex)
      (hst : ∀ a, st.action? = some a → a.isAtomic = true)
  | spliced {k : Nat} {c : AppendCall} {ok : Bool}
      (hst : st.action? = some (.handleAppend k)) (hk : s.appendCalls[k]? = some c)
      (hdst : c.dst = i) (hadm : (s.node i).Admits c.req)
      (hterm : (s.node i).raftLog.loadMeta = (s.node i).ballot → n.currentTerm = c.req.term)
      (hstate : n.state = .leader → (s.node i).state = .leader)
      (hmerge : Merge es c.req.prevLogIndex c.req.entries es' ok)
      (hcommit : n.commitIndex = (s.node i).commitIndex ∨ n.commitIndex = 0 ∨ ok = true ∧
        (s.node i).commitIndex < n.commitIndex ∧
        n.commitIndex = min (c.req.prevLogIndex + c.req.entries.length) c.req.leaderCommit)

/-- With every write failing the loop changes nothing. -/
theorem appendEntries_dead {prev : Nat} (hdisk : ∀ k, disk k = false) :
    ∀ (i : Nat) (rl : RaftLog) (qs : List LogEntry), (rl.appendEntries disk prev i qs).log = rl
  | _, _, [] => rfl
  | i, rl, q :: qs => by
    by_cases h0 : rl.termAt (prev + i + 1) = 0
    · rw [appendEntries_missing h0, RaftLog.append, hdisk]
      rfl
    · by_cases ht : rl.termAt (prev + i + 1) = q.term
      · rw [appendEntries_skip h0 ht]
        exact appendEntries_dead hdisk _ rl qs
      · rw [appendEntries_conflict h0 ht, RaftLog.truncateFrom, hdisk]
        rfl

/-- What an admitted request does to a log without gaps. -/
theorem merge_of_admitted {c : AppendCall} (h : (s.node c.dst).raftLog.Holds es)
    (hm : Joins (disk 0) (s.node c.dst) c.req.term m)
    (hlisted : ListedFrom c.req.prevLogIndex c.req.entries)
    (hprev : m.raftLog.checkPrev c.req = none)
    (hconf : OnlyLastConflicts (s.node c.dst).raftLog c.req) :
    ∃ es', (m.raftLog.appendEntries disk c.req.prevLogIndex 0 c.req.entries).log.Holds es' ∧
      Merge es c.req.prevLogIndex c.req.entries es'
        (m.raftLog.appendEntries disk c.req.prevLogIndex 0 c.req.entries).ok ∧
      ∀ x ∈ (m.raftLog.appendEntries disk c.req.prevLogIndex 0 c.req.entries).appends,
        x.2.index = x.1.lastIndex + 1 := by
  have hmh := hm.holds h
  have hle : c.req.prevLogIndex ≤ es.length := by
    rcases (hmh.checkPrev c.req).mp hprev with h0 | ⟨h, _⟩ <;> omega
  exact appendEntries_merge disk (i := 0) hmh hlisted hle (agree_of_onlyLastConflicts h hconf)

theorem Move.log (hmove : Move E M disk s a i n) (hsnap : NoSnapshot s (.act disk a))
    (hgap : NoGap s (.act disk a)) (hcalls : s.snapshotCalls = [])
    (hpos : (s.node i).state ≠ .follower → 1 ≤ (s.node i).currentTerm)
    (hlisted : ∀ c ∈ s.appendCalls, ListedFrom c.req.prevLogIndex c.req.entries)
    (h : (s.node i).raftLog.Holds es) :
    ∃ es', n.raftLog.Holds es' ∧ LogMove s (.act disk a) i n es es' := by
  have hnone : ∀ {k : Nat} {c : SnapshotCall}, s.snapshotCalls[k]? ≠ some c := by
    intro k c hk
    rw [hcalls] at hk
    exact absurd hk (by simp)
  cases hmove with
  | idle => exact ⟨es, h, .same rfl (fun _ hl => hl) (.same rfl)⟩
  | panic =>
    exact ⟨es, h.newRaftLog,
      .same rfl (fun _ hl => absurd hl (by simp)) (.reset rfl)⟩
  | down _ _ =>
    exact ⟨es, h.saveMeta _ _ _,
      .same rfl (fun _ hl => absurd hl (by simp)) (.same rfl)⟩
  | timeout _ _ _ =>
    exact ⟨es, h.saveMeta _ _ _,
      .same rfl (fun _ hl => absurd hl (by simp [RaftNode.startElection])) (.same rfl)⟩
  | grant _ _ hm _ _ =>
    refine ⟨es, (hm.holds h).saveMeta _ _ _, .same rfl (fun _ hl => hm.leader hl) (.same ?_)⟩
    exact hm.commitIndex
  | lead _ _ hrole =>
    have hcand : (s.node i).state ≠ .follower := by rw [hrole]; simp
    cases hap : (s.node i).raftLog.append (disk 0) (s.node i).noopEntry with
    | none =>
      refine ⟨es, h, .same rfl (fun hok _ => ?_) (.same rfl)⟩
      rw [RaftLog.append, hok 0] at hap
      exact absurd hap (by simp)
    | some rl =>
      have hidx : (s.node i).noopEntry.index = es.length + 1 := by
        rw [RaftNode.noopEntry, h.lastIndex]
      exact ⟨_, h.append hidx (hpos hcand) hap, .grew rfl rfl hcand rfl rfl hidx rfl
        fun a ha => by cases ha; rfl⟩
  | @propose i cmd rl hrole hrl =>
    have hlead : (s.node i).state ≠ .follower := by rw [hrole]; simp
    have hidx : ((s.node i).proposalEntry cmd).index = es.length + 1 := by
      rw [RaftNode.proposalEntry, h.lastIndex]
    exact ⟨_, h.append hidx (hpos hlead) hrl, .grew rfl hrole hlead rfl rfl hidx rfl
      fun a ha => by cases ha; rfl⟩
  | mismatch _ _ hm =>
    exact ⟨es, hm.holds h, .same rfl (fun _ hl => hm.leader hl) (.same hm.commitIndex)⟩
  | @splice k c m commit gs hk _ hm hprev hcommit =>
    have hadm := hm.admits hprev
    obtain ⟨es', hes', hmerge, _⟩ := merge_of_admitted h hm (hlisted c (List.mem_of_getElem? hk))
      hprev (hgap.apply rfl hk hadm)
    refine ⟨es', hes', .spliced rfl hk rfl hadm (fun _ => hm.term_eq) (fun hl => hm.leader hl)
      hmerge ?_⟩
    rw [hm.commitIndex] at hcommit
    exact hcommit.imp id Or.inr
  | restore hk _ => exact absurd hk hnone
  | install hk _ _ => exact absurd hk hnone
  | @apply i k gs =>
    have ho := RaftNode.onlyApplies_applyCommitted E disk { s.node i with goroutines := gs }
    refine ⟨es, by rw [ho.raftLog]; exact h, .same rfl (fun _ hl => ?_) (.same ho.commitIndex)⟩
    rw [ho.state] at hl
    exact hl
  | compact hg _ => exact absurd (hsnap.not_compacts rfl hg) (by simp [Goroutine.compacts])
  | acked hk hr _ hrole _ hls hs hcommit =>
    refine ⟨es, h, .same rfl (fun _ hl => hl) ?_⟩
    rcases hcommit with hcommit | ⟨hpos, hcommit⟩
    · exact .same hcommit
    · exact .counted rfl hk hr rfl hrole hls hs hpos ⟨hrole, rfl⟩ hcommit
  | _ => exact ⟨es, h, .same rfl (fun _ hl => hl) (.same rfl)⟩

/-- With every write failing no critical section changes the log. -/
theorem Move.dead (hmove : Move E M disk s a i n) (hdisk : ∀ k, disk k = false) :
    n.raftLog.entries = (s.node i).raftLog.entries := by
  have hjoin : ∀ {j : NodeID} {ok : Bool} {term : Nat} {m : RaftNode σ},
      Joins ok (s.node j) term m → m.raftLog.entries = (s.node j).raftLog.entries := by
    intro j ok term m hm
    cases hm with
    | same _ => rfl
    | down _ => cases ok <;> rfl
  cases hmove with
  | panic =>
    change (s.node i).raftLog.newRaftLog.entries = _
    unfold RaftLog.newRaftLog
    split <;> rfl
  | down _ _ => exact hjoin (.down ‹_›)
  | timeout _ _ _ =>
    change ((s.node i).raftLog.saveMeta (disk 0) _ _).entries = _
    rw [hdisk]
    rfl
  | @grant k c m _ _ hm _ _ =>
    change (m.raftLog.saveMeta (disk 1) _ _).entries = _
    rw [hdisk]
    exact hjoin hm
  | lead _ _ _ =>
    change (((s.node i).raftLog.append (disk 0) _).getD _).entries = _
    rw [RaftLog.append, hdisk]
    rfl
  | propose _ hrl =>
    rw [RaftLog.append, hdisk] at hrl
    exact absurd hrl (by simp)
  | mismatch _ _ hm =>
    have := hjoin hm
    exact this
  | splice _ _ hm _ _ =>
    exact (congrArg RaftLog.entries (appendEntries_dead hdisk _ _ _)).trans (hjoin hm)
  | restore _ hm =>
    have := hjoin hm
    exact this
  | install _ _ hrl =>
    rw [RaftLog.compact, hdisk] at hrl
    exact absurd hrl (by simp)
  | @apply i k gs =>
    exact congrArg RaftLog.entries
      (RaftNode.onlyApplies_applyCommitted E disk { s.node i with goroutines := gs }).raftLog
  | compact _ hrl =>
    rw [RaftLog.compact, hdisk] at hrl
    exact absurd hrl (by simp)
  | _ => rfl

/-- **What a step does to a log.** -/
theorem Moved.log (hmoved : Moved E M s st i n) (hnames : Named M s) (hsnap : NoSnapshot s st) (hgap : NoGap s st)
    (hcalls : s.snapshotCalls = [])
    (hpos : (s.node i).state ≠ .follower → 1 ≤ (s.node i).currentTerm)
    (hlisted : ∀ c ∈ s.appendCalls, ListedFrom c.req.prevLogIndex c.req.entries)
    (h : (s.node i).raftLog.Holds es) : ∃ es', n.raftLog.Holds es' ∧ LogMove s st i n es es' := by
  have hdown : ∀ {m : RaftNode σ}, (m.newRaftNode E).state ≠ .leader := by
    intro m
    simp
  cases hmoved with
  | act hmove => exact hmove.log hsnap hgap hcalls hpos hlisted h
  | crash => exact ⟨es, h.newRaftLog, .same rfl (fun _ hl => absurd hl hdown) (.reset rfl)⟩
  | @applyRead disk i k reads n gs gs' _ hn =>
    have ho := RaftNode.onlyApplies_applyCommitted E disk { s.node i with goroutines := gs }
    rw [← hn] at ho
    refine ⟨es, ?_, .same rfl (fun _ hl => by rw [← ho.state]; exact hl) (.same ho.commitIndex)⟩
    rw [show ({ n with goroutines := gs' } : RaftNode σ).raftLog = _ from ho.raftLog]
    exact h
  | @crashDuring a cut i m ha hmove =>
    obtain ⟨es', hes', hlog⟩ := hmove.log hsnap hgap hcalls hpos hlisted h
    have hsame : es' = es → LogMove s (.crashDuring a cut) i (m.newRaftNode E) es es' :=
      fun heq => .same heq (fun _ hl => absurd hl hdown) (.reset rfl)
    refine ⟨es', hes'.newRaftLog, ?_⟩
    cases hlog with
    | same heq _ _ => exact hsame heq
    | grew _ _ _ _ _ _ _ hst => exact absurd (hst a rfl) (by rw [ha]; simp)
    | @spliced k c ok hst hk hdst hadm hterm _ hmerge _ =>
      cases cut with
      | zero =>
        -- nothing was written
        have heq := hmove.dead (fun k => by simp [upTo])
        rw [hes'.entries_eq, h.entries_eq] at heq
        exact hsame heq
      | succ cut =>
        refine .spliced hst hk hdst hadm (fun hsaved => ?_) (fun hl => absurd hl hdown) hmerge
          (Or.inr (Or.inl rfl))
        -- the term was written before the entries
        obtain rfl := Option.some.inj hst
        have hfile := (hmove.rises hnames hsaved).saved fun k hk => by
          simp only [metaWrites] at hk
          simp [upTo]
          omega
        exact (congrArg Prod.fst hfile).trans (hterm hsaved)

/-! ## The leader's bookkeeping -/

/-- What a step does to `n.leader`. -/
inductive LeaderMove (s : Cluster σ) (st : Step) (i : NodeID) (n : RaftNode σ) : Prop
  | gone (h : n.leader = none) (hstate : n.state = .follower)
  | same (h : n.leader = (s.node i).leader)
      (hled : n.state = .leader → (s.node i).state = .leader)
  | fresh (h : n.leader =
      some (.newLeaderState (s.node i).peers (s.node i).raftLog.lastIndex))
  | acked {k : Nat} {c : AppendCall} {resp : AppendEntriesResponse} {ls : LeaderState}
      (hst : st.action? = some (.appendReturn k)) (hk : s.appendCalls[k]? = some c)
      (hr : c.reply = .answered resp) (hsrc : c.src = i) (hrole : (s.node i).state = .leader)
      (hterm : resp.term ≤ (s.node i).currentTerm) (hls : (s.node i).leader = some ls)
      (hs : resp.success = true) (h : n.leader = some (ls.acknowledge c.dst resp.matchIndex))
  | backedUp {c : AppendCall} {resp : AppendEntriesResponse} {ls : LeaderState}
      (hc : c ∈ s.appendCalls) (hr : c.reply = .answered resp) (hsrc : c.src = i)
      (hrole : (s.node i).state = .leader) (hls : (s.node i).leader = some ls)
      (h : n.leader = some (ls.backUp c.dst resp.conflictIndex))
  | snapshotAcked {c : SnapshotCall} {ls : LeaderState} (hc : c ∈ s.snapshotCalls)
      (hls : (s.node i).leader = some ls)
      (h : n.leader = some
        { nextIndex := ls.nextIndex.insert c.dst (c.req.lastIncludedIndex + 1)
          matchIndex := ls.matchIndex.insert c.dst c.req.lastIncludedIndex })

/-- The bookkeeping of a node that has joined a term. -/
theorem Joins.leaderMove {ok : Bool} {term : Nat} (hm : Joins ok (s.node i) term m)
    (hstate : n.state = m.state) (h : n.leader = m.leader) : LeaderMove s st i n := by
  cases hm with
  | same _ => exact .same h fun hl => by rw [← hstate]; exact hl
  | down _ => exact .gone h hstate

/-- **What a step does to the bookkeeping.** -/
theorem Moved.leader (hmoved : Moved E M s st i n) : LeaderMove s st i n := by
  cases hmoved with
  | crash => exact .gone rfl rfl
  | crashDuring _ _ => exact .gone rfl rfl
  | @applyRead disk i k reads n gs gs' _ hn =>
    have ho := RaftNode.onlyApplies_applyCommitted E disk { s.node i with goroutines := gs }
    rw [← hn] at ho
    exact .same ho.leader fun hl => by rw [← ho.state]; exact hl
  | @act disk _ _ _ hmove =>
    cases hmove with
    | panic => exact .gone rfl rfl
    | down _ _ => exact .gone rfl rfl
    | timeout _ _ _ => exact .same rfl fun hl => absurd hl (by simp [RaftNode.startElection])
    | grant _ _ hm _ _ => exact hm.leaderMove rfl rfl
    | lead _ _ _ => exact .fresh rfl
    | mismatch _ _ hm => exact hm.leaderMove rfl rfl
    | splice _ _ hm _ _ => exact hm.leaderMove rfl rfl
    | acked hk hr _ hrole hterm hls hs _ => exact .acked rfl hk hr rfl hrole hterm hls hs rfl
    | backedUp hk hr hrole hls => exact .backedUp (List.mem_of_getElem? hk) hr rfl hrole hls rfl
    | restore _ hm => exact hm.leaderMove rfl rfl
    | install _ hm _ => exact hm.leaderMove rfl rfl
    | snapshotAcked hk hls => exact .snapshotAcked (List.mem_of_getElem? hk) hls rfl
    | @apply i k gs =>
      have ho := RaftNode.onlyApplies_applyCommitted E disk { s.node i with goroutines := gs }
      exact .same ho.leader fun hl => by rw [← ho.state]; exact hl
    | _ => exact .same rfl id

theorem step_leader (hs : s.step E M st = some s') (i : NodeID) :
    LeaderMove s st i (s'.node i) :=
  forall_node_of_moved (P := fun i n => LeaderMove s st i n) hs (fun _ => .same rfl id)
    (fun _ _ hmoved => hmoved.leader) i

/-! ## Reachable logs -/

section Runs

open Shipped (node1 node2 node3 elect twoLeaders)

variable {store : NodeID → σ} {threshold : NodeID → Int} {ok : Cluster σ → Step → Prop}
  {past : List (Cluster σ × Step)}

/-- Candidates and leaders have left term `0`. -/
theorem Reaches.term_pos (h : Reaches E M store threshold ok past s) (i : NodeID) :
    (s.node i).state ≠ .follower → 1 ≤ (s.node i).currentTerm := by
  refine Reaches.forall_node (P := fun _ n => n.state ≠ .follower → 1 ≤ n.currentTerm)
    (fun _ hne => absurd rfl hne) (fun past s st i n _ hinv _ hmoved hne => ?_) h i
  cases hmoved.role with
  | same hstate hterm =>
    rw [hterm]
    exact hinv i (by rw [← hstate]; exact hne)
  | follower hstate _ => exact absurd hstate hne
  | candidate _ _ hn =>
    rw [hn]
    exact Nat.succ_pos _
  | leader _ _ _ hold _ hterm =>
    rw [hterm]
    exact hinv i (by rw [hold]; simp)

/-- A leader's `nextIndex` is at least `1` for every peer. -/
theorem Reaches.nextIndex_pos (h : Reaches E M store threshold ok past s) (i : NodeID)
    {ls : LeaderState} (hls : (s.node i).leader = some ls) {p : NodeID}
    (hp : p ∈ (M.peers i).map Peer.id) : 1 ≤ ls.nextIndex.at p := by
  refine Reaches.forall_node (P := fun i n => ∀ ls, n.leader = some ls →
    ∀ p ∈ (M.peers i).map Peer.id, 1 ≤ ls.nextIndex.at p)
    (fun _ ls hls => absurd hls (by simp [init]))
    (fun past s st i n hr hinv _ hmoved ls hls p hp => ?_) h i ls hls p hp
  cases hmoved.leader with
  | gone h _ =>
    rw [h] at hls
    exact absurd hls (by simp)
  | same h _ => exact hinv i ls (by rw [← h]; exact hls) p hp
  | fresh h =>
    rw [h] at hls
    obtain rfl := Option.some.inj hls
    rw [LeaderState.newLeaderState_nextIndex _ (by rw [(hr.identity i).2]; exact hp)]
    exact Nat.succ_pos _
  | acked _ _ _ _ _ _ hls' _ h =>
    rw [h] at hls
    obtain rfl := Option.some.inj hls
    rw [LeaderState.acknowledge_nextIndex]
    split
    · exact Nat.succ_pos _
    · exact hinv i _ hls' p hp
  | backedUp _ _ _ _ hls' h =>
    rw [h] at hls
    obtain rfl := Option.some.inj hls
    rcases LeaderState.backUp_nextIndex _ _ _ p with heq | ⟨_, hpos, _⟩
    · rw [heq]
      exact hinv i _ hls' p hp
    · exact hpos
  | snapshotAcked _ hls' h =>
    rw [h] at hls
    obtain rfl := Option.some.inj hls
    rw [IndexMap.at_insert]
    split
    · exact Nat.succ_pos _
    · exact hinv i _ hls' p hp

/-- The logs are lists, the requests are slices of lists, and no snapshot is on its way. -/
structure Shape (s : Cluster σ) : Prop where
  holds : ∀ i, ∃ es, (s.node i).raftLog.Holds es
  listed : ∀ c ∈ s.appendCalls, ListedFrom c.req.prevLogIndex c.req.entries
  unsent : s.snapshotCalls = []

/-- What an AppendEntries call carries when it is sent. -/
theorem Reaches.sent (h : Reaches E M store threshold ok past s) {c : AppendCall}
    (hsent : AppendSent M s c) (hes : (s.node c.src).raftLog.Holds es) :
    c.req.term = (s.node c.src).currentTerm ∧ c.req.leaderCommit = (s.node c.src).commitIndex ∧
      c.req.prevLogTerm = termOf es c.req.prevLogIndex ∧
      c.req.entries = es.drop c.req.prevLogIndex := by
  obtain ⟨ls, hsrc, hdst, _, hls, hreq⟩ := hsent
  rw [(h.identity c.src).2] at hdst
  rw [RaftNode.peerRequest_eq hes (h.nextIndex_pos c.src hls hdst)] at hreq
  rw [← RaftNode.PeerRequest.appendEntries.inj hreq]
  exact ⟨rfl, rfl, rfl, rfl⟩

/-- A step that takes no snapshot and opens no gap keeps the shape. -/
theorem Shape.step (hinv : Shape s) (hr : Reaches E M store threshold ok past s)
    (hsnap : NoSnapshot s st) (hgap : NoGap s st) (hs : s.step E M st = some s') : Shape s' := by
  refine ⟨?_, ?_, ?_⟩
  · refine forall_node_of_moved (P := fun _ n => ∃ es, n.raftLog.Holds es) hs hinv.holds ?_
    intro i n hmoved
    obtain ⟨es, hes⟩ := hinv.holds i
    obtain ⟨es', hes', _⟩ := hmoved.log hr.named hsnap hgap hinv.unsent (hr.term_pos i) hinv.listed hes
    exact ⟨es', hes'⟩
  · intro c' hc'
    obtain ⟨k, hk⟩ := List.mem_iff_getElem?.mp hc'
    rcases (step_appendCall hs hk).origin with ⟨c, hc, _, _, hreq⟩ | hsent
    · rw [hreq]
      exact hinv.listed c hc
    · obtain ⟨es, hes⟩ := hinv.holds c'.src
      rw [(hr.sent hsent hes).2.2.2]
      exact hes.listed.drop _
  · refine List.eq_nil_iff_forall_not_mem.mpr fun c' hc' => ?_
    obtain ⟨k, hk⟩ := List.mem_iff_getElem?.mp hc'
    rcases (step_snapshotCall hs hk).origin with ⟨c, hc, _⟩ | hsent
    · rw [hinv.unsent] at hc
      exact absurd hc List.not_mem_nil
    · obtain ⟨_, ls, _, hdst, _, hls, hreq⟩ := hsent
      obtain ⟨es, hes⟩ := hinv.holds c'.src
      rw [(hr.identity c'.src).2] at hdst
      rw [RaftNode.peerRequest_eq hes (hr.nextIndex_pos c'.src hls hdst)] at hreq
      exact absurd hreq (by simp)

theorem Shape.init : Shape (init M store threshold) :=
  ⟨fun _ => ⟨[], RaftLog.holds_fresh⟩, fun _ hc => absurd hc List.not_mem_nil, rfl⟩

/-- **The shape of a reachable state.** -/
theorem Reaches.shape (hsnap : ∀ s st, ok s st → NoSnapshot s st)
    (hgap : ∀ s st, ok s st → NoGap s st) (h : Reaches E M store threshold ok past s) :
    Shape s :=
  Reaches.invariant (P := fun _ s => Shape s) Shape.init
    (fun _ s st _ hr hinv hok hs => hinv.step hr (hsnap s st hok) (hgap s st hok) hs) h

/-! ## The calls of `Append` -/

/-- The calls of `Append` a critical section makes, each with the log it is made on. -/
def appendsOf (disk : Disk) (s : Cluster σ) : Action → List (RaftLog × LogEntry)
  | .propose i cmd =>
    if (s.node i).state = .leader then
      [((s.node i).raftLog, (s.node i).proposalEntry cmd)]
    else []
  | .finishElection i =>
    match s.election i with
    | some el =>
      if el.won = true ∧ (s.node i).state = .candidate then
        [((s.node i).raftLog, (s.node i).noopEntry)]
      else []
    | none => []
  | .handleAppend k =>
    match s.appendCalls[k]? with
    | some c =>
      if (s.node c.dst).Admits c.req then
        (((s.node c.dst).acceptLeader disk c.req).raftLog.appendEntries disk c.req.prevLogIndex 0
          c.req.entries).appends
      else []
    | none => []
  | _ => []

/-- The calls of `Append` a step makes. -/
def appends (s : Cluster σ) : Step → List (RaftLog × LogEntry)
  | .act disk a => appendsOf disk s a
  | .crashDuring a cut => appendsOf (upTo cut) s a
  | .crash _ | .applyRead _ _ _ _ => []

/-- `Append` is called with the next index. -/
def AppendOk (x : RaftLog × LogEntry) : Prop := x.2.index = x.1.lastIndex + 1

instance (x : RaftLog × LogEntry) : Decidable (AppendOk x) :=
  inferInstanceAs (Decidable (_ = _))

/-- The node that `HandleAppendEntries` works on once the request's term is accepted. -/
theorem joins_acceptLeader (disk : Disk) {req : AppendEntriesRequest} (h : n.currentTerm ≤ req.term) :
    ∃ m, Joins (disk 0) n req.term m ∧ (n.acceptLeader disk req).raftLog = m.raftLog :=
  ⟨_, joins_of_not_lt (disk 0) (Nat.not_lt.mpr h), rfl⟩

theorem Shape.appendsOf_ok (hshape : Shape s) (hgap : NoGap s (.act disk a)) :
    ∀ x ∈ appendsOf disk s a, AppendOk x := by
  intro x hx
  cases a with
  | propose i cmd =>
    simp only [appendsOf] at hx
    split at hx
    · rw [List.mem_singleton.mp hx]
      rfl
    · exact absurd hx List.not_mem_nil
  | finishElection i =>
    simp only [appendsOf] at hx
    split at hx
    · split at hx
      · rw [List.mem_singleton.mp hx]
        rfl
      · exact absurd hx List.not_mem_nil
    · exact absurd hx List.not_mem_nil
  | handleAppend k =>
    simp only [appendsOf] at hx
    split at hx
    · rename_i c hk
      split at hx
      · rename_i hadm
        obtain ⟨es, hes⟩ := hshape.holds c.dst
        obtain ⟨m, hm, hrl⟩ := joins_acceptLeader disk hadm.1
        obtain ⟨_, _, _, happ⟩ := merge_of_admitted hes hm
          (hshape.listed c (List.mem_of_getElem? hk)) ((hm.checkPrev c.req).trans hadm.2)
          (hgap.apply rfl hk hadm)
        rw [hrl] at hx
        exact happ x hx
      · exact absurd hx List.not_mem_nil
    · exact absurd hx List.not_mem_nil
  | _ => exact absurd hx List.not_mem_nil

theorem Shape.appends_ok (hshape : Shape s) (hgap : NoGap s st) :
    ∀ x ∈ appends s st, AppendOk x := by
  cases st with
  | act disk a => exact hshape.appendsOf_ok hgap
  | crash i => exact fun x hx => absurd hx List.not_mem_nil
  | crashDuring a cut => exact hshape.appendsOf_ok hgap
  | applyRead disk i k reads => exact fun x hx => absurd hx List.not_mem_nil

/-- The stored indices of a log without gaps. -/
theorem Shape.get_iff (hshape : Shape s) (i : NodeID) (k : Nat) :
    (∃ e, (s.node i).raftLog.get k = some e) ↔ 1 ≤ k ∧ k ≤ (s.node i).raftLog.lastIndex := by
  obtain ⟨es, hes⟩ := hshape.holds i
  rw [hes.get, hes.lastIndex]
  by_cases h0 : k = 0
  · simp [h0]
  · rw [if_neg h0]
    constructor
    · rintro ⟨e, he⟩
      have := (List.getElem?_eq_some_iff.mp he).1
      omega
    · intro hk
      exact ⟨_, List.getElem?_eq_getElem (by omega)⟩

/-- **The log has no holes.** In every run without snapshots whose admitted requests conflict at their
last entry at most, every `Append` is made at `LastIndex() + 1`, and the indices stored in a log are
exactly `1, ..., LastIndex()`. -/
theorem log_contiguous
    (h : Reaches E M store threshold (fun s st => NoSnapshot s st ∧ NoGap s st) past s) :
    (∀ τ st, (τ, st) ∈ past → ∀ x ∈ appends τ st, AppendOk x) ∧
      ∀ i k, (∃ e, (s.node i).raftLog.get k = some e) ↔
        1 ≤ k ∧ k ≤ (s.node i).raftLog.lastIndex := by
  constructor
  · intro τ st hmem
    obtain ⟨_, _, hτ, hok, _, _⟩ := h.of_mem_past hmem
    exact (Reaches.shape (fun _ _ h => h.1) (fun _ _ h => h.2) hτ).appends_ok hok.2
  · exact (h.shape (fun _ _ h => h.1) (fun _ _ h => h.2)).get_iff

/-- Both leaders have a command after their no-op, and `node-2` sends its two entries to `node-1`. -/
def overwriteTwo : List Action :=
  twoLeaders [.propose node1 ⟨.put, [1], [1], []⟩] ++
    [.propose node2 ⟨.put, [1], [2], []⟩, .replicate node2 node1, .handleAppend 0]

/-- **A hole.** Every entry conflicts: the first one is truncated and not appended, the second one is
appended at index 2 to the empty log, and index 1 is gone. -/
theorem log_hole : ∃ past s, Shipped.Reaches (fun s st => NoSnapshot s st ∧ DiskOk s st) past s ∧
    (∃ p ∈ past, ∃ x ∈ appends p.1 p.2, ¬ AppendOk x) ∧
    (s.node node1).raftLog.lastIndex = 2 ∧ (s.node node1).raftLog.get 1 = none :=
  ⟨_, _, Shipped.reaches_play NoSnapshot overwriteTwo, by decide +kernel, by decide +kernel,
    by decide +kernel⟩

/-- Both leaders have their no-op only; `node-2` sends it to `node-1`, which cuts off its own, and
sends it again. -/
def overwriteOne : List Action :=
  twoLeaders [] ++
    [.replicate node2 node1, .handleAppend 0, .appendReturn 0, .replicate node2 node1,
      .handleAppend 1]

/-- A run with a conflict at the last entry: the log is cut off and then grows again. -/
theorem log_contiguous_overwriteOne : ∃ past s,
    Shipped.Reaches (fun s st => NoSnapshot s st ∧ NoGap s st) past s ∧
    (s.node node1).raftLog.entries.map LogEntry.term = [2] ∧
    (∀ τ st, (τ, st) ∈ past → ∀ x ∈ appends τ st, AppendOk x) ∧
      ∀ i k, (∃ e, (s.node i).raftLog.get k = some e) ↔
        1 ≤ k ∧ k ≤ (s.node i).raftLog.lastIndex := by
  have hrun := (Shipped.reaches_play (fun s st => NoSnapshot s st ∧ NoGap s st) overwriteOne).mono
    fun _ _ h => h.1
  exact ⟨_, _, hrun, by decide +kernel, log_contiguous hrun⟩

/-- **The condition on requests is exact**: a request that is admitted next, with all its writes
succeeding, makes its calls of `Append` at the right index if and only if it meets it. -/
theorem append_precondition_iff
    (h : Reaches E M store threshold (fun s st => NoSnapshot s st ∧ NoGap s st) past s) {k : Nat}
    {c : AppendCall} (hk : s.appendCalls[k]? = some c) (hadm : (s.node c.dst).Admits c.req) :
    (∀ x ∈ appends s (.act (fun _ => true) (.handleAppend k)), AppendOk x) ↔
      OnlyLastConflicts (s.node c.dst).raftLog c.req := by
  have hshape := h.shape (fun _ _ h => h.1) (fun _ _ h => h.2)
  obtain ⟨es, hes⟩ := hshape.holds c.dst
  have hlisted := hshape.listed c (List.mem_of_getElem? hk)
  constructor
  · intro hok j q hj hq
    by_contra hconf
    rw [not_or] at hconf
    obtain ⟨m, hm, hrl⟩ := joins_acceptLeader (fun _ => true) hadm.1
    have hlt : c.req.prevLogIndex + j < es.length := by
      by_contra hge
      exact hconf.1 (hes.termAt_missing (by omega))
    have he : es[c.req.prevLogIndex + j]? = some es[c.req.prevLogIndex + j] :=
      List.getElem?_eq_getElem hlt
    rw [(hes.termAt_taken he).1] at hconf
    obtain ⟨x, hx, hbad⟩ := appendEntries_gap (i := 0) (fun _ => rfl) (hm.holds hes) hlisted hj hq
      he hconf.2
    refine hbad (hok x ?_)
    simp only [appends, appendsOf, hk, if_pos hadm, hrl]
    exact hx
  · intro hconf
    refine hshape.appends_ok ?_
    change ∀ c' ∈ s.appendCalls[k]?, _
    rw [hk]
    rintro c' ⟨rfl⟩ _
    exact hconf

/-! ## Commit index and log -/

/-- The loop of `applyCommitted` moves `lastApplied` by at most one per round. -/
theorem lastApplied_applyFrom (E : Engine σ) (disk : Disk) : ∀ (k fuel : Nat) (n : RaftNode σ),
    (n.applyFrom E disk k fuel).1.lastApplied ≤ n.lastApplied + fuel
  | _, 0, _ => le_refl _
  | k, fuel + 1, n => by
    cases hget : n.raftLog.get (n.lastApplied + 1) with
    | none =>
      rw [RaftNode.applyFrom_missing E disk hget]
      exact Nat.add_le_add_left (Nat.succ_pos fuel) _
    | some e =>
      have hstep := lastApplied_applyFrom E disk (k + 1) fuel
        (RaftNode.applyEntry E (disk k) { n with lastApplied := n.lastApplied + 1 } e).1
      rw [RaftNode.lastApplied_applyEntry] at hstep
      rw [RaftNode.applyFrom_entry E disk hget]
      exact hstep.trans (Nat.le_of_eq (Nat.succ_add_eq_add_succ _ _))

/-- `lastApplied ≤ commitIndex`, in every run. -/
theorem Reaches.lastApplied_le (h : Reaches E M store threshold ok past s) (i : NodeID) :
    (s.node i).lastApplied ≤ (s.node i).commitIndex := by
  refine Reaches.forall_node (P := fun _ n => n.lastApplied ≤ n.commitIndex)
    (fun _ => le_refl _) (fun past s st i n _ hinv _ hmoved => ?_) h i
  have hjoin : ∀ {j : NodeID} {ok : Bool} {term : Nat} {m : RaftNode σ},
      Joins ok (s.node j) term m → m.lastApplied ≤ m.commitIndex := by
    intro j ok term m hm
    cases hm <;> exact hinv j
  have happly : ∀ (disk : Disk) (i : NodeID) (gs : List Goroutine),
      (({ s.node i with goroutines := gs }).applyCommitted E disk).1.lastApplied ≤
        (({ s.node i with goroutines := gs }).applyCommitted E disk).1.commitIndex := by
    intro disk i gs
    have ho := RaftNode.onlyApplies_applyCommitted E disk { s.node i with goroutines := gs }
    rw [ho.commitIndex]
    have hle := lastApplied_applyFrom E disk 0
      ((s.node i).commitIndex - (s.node i).lastApplied) { s.node i with goroutines := gs }
    have := hinv i
    exact hle.trans (by dsimp only; omega)
  cases hmoved with
  | crash => exact le_refl _
  | crashDuring _ _ => exact le_refl _
  | applyRead _ hn =>
    rw [hn]
    exact happly _ _ _
  | @act disk _ _ _ hmove =>
    cases hmove with
    | panic => exact le_refl _
    | grant _ _ hm _ _ =>
      have := hjoin hm
      exact this
    | mismatch _ _ hm =>
      have := hjoin hm
      exact this
    | splice _ _ hm _ hcommit =>
      have := hjoin hm
      rcases hcommit with rfl | ⟨_, hlt, _⟩
      · exact this
      · exact this.trans (Nat.le_of_lt hlt)
    | @acked k c resp ls commit gs _ _ _ _ _ _ _ hcommit =>
      rcases hcommit with rfl | ⟨hpos, heq⟩
      · exact hinv c.src
      · exact (hinv c.src).trans (Nat.le_of_lt (LeaderState.commitCandidate_spec heq hpos).1)
    | restore _ hm =>
      have := hjoin hm
      exact this
    | install _ _ _ => exact le_refl _
    | @apply i k gs => exact happly disk i gs
    | _ => exact hinv _

/-- A merge keeps the commit index within the log if what it cuts off lies above it. -/
theorem commit_le_of_merge {req : AppendEntriesRequest} {es' : List LogEntry} {ok : Bool}
    (hes : n.raftLog.Holds es) (hadm : n.Admits req)
    (hmerge : Merge es req.prevLogIndex req.entries es' ok) (hle : n.commitIndex ≤ es.length)
    (hcut : LastConflicts n.raftLog req →
      n.commitIndex < req.prevLogIndex + req.entries.length ∧
        req.leaderCommit < req.prevLogIndex + req.entries.length) {commit : Nat}
    (hcommit : commit = n.commitIndex ∨ commit = 0 ∨ ok = true ∧ n.commitIndex < commit ∧
      commit = min (req.prevLogIndex + req.entries.length) req.leaderCommit) :
    commit ≤ es'.length := by
  have hprev : req.prevLogIndex ≤ es.length := by
    rcases (hes.checkPrev req).mp hadm.2 with h | ⟨h, _⟩ <;> omega
  rcases Nat.lt_or_ge es'.length es.length with hlt | hge
  · obtain ⟨hconf, hlen⟩ := hmerge.lastConflicts hes hlt
    have := hcut hconf
    rcases hcommit with h | h | ⟨_, _, h⟩ <;> omega
  · rcases hcommit with h | h | ⟨hok, _, h⟩
    · omega
    · omega
    · rcases hmerge.length_le hprev hok with hfull | hlt <;> omega

/-- **What is committed is in the log.** In every run without snapshots whose admitted requests
conflict at their last entry at most, and there only above `commitIndex` and `LeaderCommit`,
`lastApplied ≤ commitIndex ≤ LastIndex()` for every node, and every index up to `commitIndex` is
stored. -/
theorem commit_within_log
    (h : Reaches E M store threshold
      (fun s st => NoSnapshot s st ∧ NoGap s st ∧ CutsAboveCommit s st) past s) (i : NodeID) :
    (s.node i).lastApplied ≤ (s.node i).commitIndex ∧
      (s.node i).commitIndex ≤ (s.node i).raftLog.lastIndex ∧
      ∀ k, 1 ≤ k → k ≤ (s.node i).commitIndex → ∃ e, (s.node i).raftLog.get k = some e := by
  have hcommit : (s.node i).commitIndex ≤ (s.node i).raftLog.lastIndex := by
    refine Reaches.forall_node (P := fun _ n => n.commitIndex ≤ n.raftLog.lastIndex)
      (fun _ => Nat.zero_le _) (fun past s st i n hr hinv hok hmoved => ?_) h i
    have hshape := hr.shape (fun _ _ h => h.1) (fun _ _ h => h.2.1)
    obtain ⟨es, hes⟩ := hshape.holds i
    obtain ⟨es', hes', hlog⟩ := hmoved.log hr.named hok.1 hok.2.1 hshape.unsent (hr.term_pos i)
      hshape.listed hes
    have hle := hinv i
    rw [hes.lastIndex] at hle
    rw [hes'.lastIndex]
    cases hlog with
    | same heq _ hcommit =>
      subst heq
      cases hcommit with
      | same h => omega
      | reset h => omega
      | counted _ _ _ _ _ _ _ hpos _ h =>
        have := (LeaderState.commitCandidate_spec h hpos).2.1
        rw [hes.lastIndex] at this
        exact this
    | grew heq _ _ _ _ _ hcommit _ =>
      rw [heq, hcommit, List.length_append]
      omega
    | spliced hst hk hdst hadm _ _ hmerge hcommit =>
      subst hdst
      exact commit_le_of_merge hes hadm hmerge hle (hok.2.2.apply hst hk hadm) hcommit
  have hshape := h.shape (fun _ _ h => h.1) (fun _ _ h => h.2.1)
  exact ⟨h.lastApplied_le i, hcommit, fun k h1 hk =>
    (hshape.get_iff i k).mpr ⟨h1, hk.trans hcommit⟩⟩

/-- `node-2` has its no-op on `node-3`, commits it, and sends it to `node-1` with `LeaderCommit = 1`. -/
def overwriteCommitted : List Action :=
  twoLeaders [] ++
    [.replicate node2 node3, .handleAppend 0, .appendReturn 0, .replicate node2 node1,
      .handleAppend 1]

/-- **A commit index beyond the log.** `node-1` cuts off its own entry, does not append the new one
and commits index 1 of an empty log. -/
theorem commit_beyond_log : ∃ past s,
    Shipped.Reaches (fun s st => NoSnapshot s st ∧ DiskOk s st) past s ∧
    (s.node node1).commitIndex = 1 ∧ (s.node node1).raftLog.lastIndex = 0 :=
  ⟨_, _, Shipped.reaches_play NoSnapshot overwriteCommitted, by decide +kernel, by decide +kernel⟩

/-- `node-1` commits after `node-2` holds its entry. -/
def commitOne : List Action :=
  elect node1 0 1 ++ [.replicate node1 node2, .handleAppend 0, .appendReturn 0, .resume node1 0]

/-- A run in which a node commits and applies. -/
theorem commit_within_log_commitOne : ∃ past s,
    Shipped.Reaches (fun s st => NoSnapshot s st ∧ NoGap s st ∧ CutsAboveCommit s st) past s ∧
    (s.node node1).lastApplied = 1 ∧ (s.node node1).lastApplied ≤ (s.node node1).commitIndex ∧
      (s.node node1).commitIndex ≤ (s.node node1).raftLog.lastIndex ∧
      ∀ k, 1 ≤ k → k ≤ (s.node node1).commitIndex →
        ∃ e, (s.node node1).raftLog.get k = some e := by
  have hrun := (Shipped.reaches_play (fun s st => NoSnapshot s st ∧ NoGap s st ∧ CutsAboveCommit s st)
    commitOne).mono fun _ _ h => h.1
  exact ⟨_, _, hrun, by decide +kernel, commit_within_log hrun node1⟩

end Runs

end Cluster

end Raftrix
