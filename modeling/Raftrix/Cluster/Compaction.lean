import Raftrix.Cluster.LogChange
import Raftrix.Log.Boundary

/-!
# Compaction: the boundary, and the indices a leader assigns

Each applied entry may start a `takeSnapshot` goroutine of its own; they compact the log in whatever order
they get the lock, up to indices that were right when they were started. This file says which order keeps
what.

**`compaction_boundary_safe`**: as long as no compaction goes below the recorded boundary, no request and
no append starts below it and no request leaves a gap (`BoundaryAhead`), the recorded boundary never
decreases, and the log is empty or starts right after it. `snapshots_out_of_order` is a run of two
goroutines that fails both.

**`leader_index_fresh`**: as long as no step takes away the end of a log (`KeepsTail`), the index of an
entry that a leader appends is above everything the node has committed, applied, or assigned in the same
leadership. The end of a log is lost when the whole log is compacted, because `LastIndex()` then falls
back on the boundary cached when the process started (`compacted_leader_reuses_index`).
-/

namespace Raftrix

variable {σ : Type}

namespace Cluster

/-! ## Conditions on steps -/

/-- `P` holds of the node and the index if the step compacts a log: in `takeSnapshot`, or in
`HandleInstallSnapshot` for a term that is not stale. -/
def OnCompaction (P : RaftNode σ → Nat → Prop) (s : Cluster σ) (st : Step) : Prop :=
  match st.action? with
  | some (.resume i k) => ∀ g ∈ (s.node i).goroutines[k]?, ∀ b ∈ boundary? g, P (s.node i) b
  | some (.handleSnapshot k) =>
    ∀ c ∈ s.snapshotCalls[k]?, (s.node c.dst).currentTerm ≤ c.req.term →
      P (s.node c.dst) c.req.lastIncludedIndex
  | _ => True

instance (P : RaftNode σ → Nat → Prop) [∀ n b, Decidable (P n b)] (s : Cluster σ) (st : Step) :
    Decidable (OnCompaction P s st) :=
  decidable_of_iff ((match st.action? with
    | some (.resume i k) =>
      decide (∀ g ∈ (s.node i).goroutines[k]?, ∀ b ∈ boundary? g, P (s.node i) b)
    | some (.handleSnapshot k) =>
      decide (∀ c ∈ s.snapshotCalls[k]?, (s.node c.dst).currentTerm ≤ c.req.term →
        P (s.node c.dst) c.req.lastIncludedIndex)
    | _ => true) = true) (by unfold OnCompaction; split <;> simp only [decide_eq_true_iff])

/-- The entry that `Propose` or `becomeLeader` appends in the step, and the node. -/
def ownEntry (s : Cluster σ) (st : Step) : Option (NodeID × LogEntry) :=
  match st.action? with
  | some (.propose i cmd) =>
    if (s.node i).state = .leader then some (i, (s.node i).proposalEntry cmd) else none
  | some (.finishElection i) =>
    match s.election i with
    | some el =>
      if el.won = true ∧ (s.node i).state = .candidate then some (i, (s.node i).noopEntry) else none
    | none => none
  | _ => none

/-- Nothing happens below the recorded boundary: no compaction, no append of a leader, and no admitted
request, which also leaves no gap. -/
def BoundaryAhead (s : Cluster σ) (st : Step) : Prop :=
  OnCompaction (fun n b => n.raftLog.boundary ≤ b) s st ∧
  OnAdmitted (fun n req => OnlyLastConflicts n.raftLog req ∧
    (req.entries ≠ [] → n.raftLog.boundary ≤ req.prevLogIndex)) s st ∧
  ∀ p ∈ s.ownEntry st, (s.node p.1).raftLog.boundary ≤ (s.node p.1).raftLog.lastIndex

instance (s : Cluster σ) (st : Step) : Decidable (BoundaryAhead s st) :=
  inferInstanceAs (Decidable (_ ∧ _))

/-- Where an admitted request conflicts with the log, the node does not lead the request's term, and the
log keeps what the node has committed; if the last entry conflicts, also what the request commits. -/
def CutsAboveCommitted (n : RaftNode σ) (req : AppendEntriesRequest) : Prop :=
  ∀ j < req.entries.length, ∀ q ∈ req.entries[j]?,
    Conflicts n.raftLog (req.prevLogIndex + j + 1) q →
      ¬ (n.state = .leader ∧ n.currentTerm = req.term) ∧
      n.raftLog.Keeps
        (if j + 1 = req.entries.length then max n.commitIndex req.leaderCommit else n.commitIndex)
        (req.prevLogIndex + j + 1)

instance (n : RaftNode σ) (req : AppendEntriesRequest) : Decidable (CutsAboveCommitted n req) :=
  inferInstanceAs (Decidable (∀ j < req.entries.length, _))

/-- No step takes away the end of a log: a compaction leaves an entry above its index or stays below
the boundary cached at start, and an admitted request starts above that boundary and cuts the log above
what is committed. -/
def KeepsTail (s : Cluster σ) (st : Step) : Prop :=
  OnCompaction (fun n b => b < n.raftLog.lastIndex ∨ b ≤ n.raftLog.snapshotIndex) s st ∧
  OnAdmitted (fun n req => (req.entries ≠ [] → n.raftLog.snapshotIndex ≤ req.prevLogIndex) ∧
    CutsAboveCommitted n req) s st

instance (s : Cluster σ) (st : Step) : Decidable (KeepsTail s st) :=
  inferInstanceAs (Decidable (_ ∧ _))

variable {E : Engine σ} {M : Membership} {disk : Disk} {s s' : Cluster σ} {a : Action} {st : Step}
  {i : NodeID} {n m : RaftNode σ}

theorem OnCompaction.compact {P : RaftNode σ → Nat → Prop} (h : OnCompaction P s st) {k b t : Nat}
    {data : Bytes} (ha : st.action? = some (.resume i k))
    (hg : (s.node i).goroutines[k]? = some (.compactLog b t data)) : P (s.node i) b := by
  unfold OnCompaction at h
  rw [ha] at h
  exact h _ hg b rfl

theorem OnCompaction.install {P : RaftNode σ → Nat → Prop} (h : OnCompaction P s st) {k : Nat}
    {c : SnapshotCall} (ha : st.action? = some (.handleSnapshot k))
    (hk : s.snapshotCalls[k]? = some c) (hterm : (s.node c.dst).currentTerm ≤ c.req.term) :
    P (s.node c.dst) c.req.lastIncludedIndex := by
  unfold OnCompaction at h
  rw [ha] at h
  exact h c hk hterm

theorem ownEntry_propose {cmd : Command} (ha : st.action? = some (.propose i cmd))
    (hrole : (s.node i).state = .leader) :
    s.ownEntry st = some (i, (s.node i).proposalEntry cmd) := by
  simp only [ownEntry, ha, hrole, if_true]

theorem ownEntry_lead {el : RaftNode.Election} (ha : st.action? = some (.finishElection i))
    (hel : s.election i = some el) (hwon : el.won = true)
    (hrole : (s.node i).state = .candidate) :
    s.ownEntry st = some (i, (s.node i).noopEntry) := by
  simp only [ownEntry, ha, hel, hwon, hrole, true_and, if_true]

/-- A leader's own entry goes right after `LastIndex()`. -/
theorem index_ownEntry {e : LogEntry} (h : s.ownEntry st = some (i, e)) :
    e.index = (s.node i).raftLog.lastIndex + 1 := by
  unfold ownEntry at h
  split at h
  · split at h
    · cases h
      rfl
    · cases h
  · split at h
    · split at h
      · cases h
        rfl
      · cases h
    · cases h
  · cases h

theorem prev_le_lastIndex {rl : RaftLog} {req : AppendEntriesRequest} (h : rl.checkPrev req = none) :
    req.prevLogIndex ≤ rl.lastIndex := by
  rcases (rl.checkPrev_eq_none_iff req).mp h with h0 | ⟨hle, _⟩
  · rw [h0]
    exact Nat.zero_le _
  · exact hle

/-! ## The recorded boundary -/

theorem Joins.solid {written : Bool} {term : Nat} (h : Joins written n term m)
    (hn : n.raftLog.Solid) : m.raftLog.Solid ∧ m.raftLog.boundary = n.raftLog.boundary := by
  cases h with
  | same _ => exact ⟨hn, rfl⟩
  | down _ => exact ⟨hn.saveMeta _ _ _, RaftLog.boundary_saveMeta _ _ _⟩

/-- **A step keeps the log solid and its boundary where it is or above.** -/
theorem Move.solid (hmove : Move E M disk s a i n) (hst : st.action? = some a)
    (hahead : BoundaryAhead s st)
    (hidx : ∀ c ∈ s.appendCalls, RaftLog.Indexed c.req.prevLogIndex c.req.entries)
    (h : (s.node i).raftLog.Solid) :
    n.raftLog.Solid ∧ (s.node i).raftLog.boundary ≤ n.raftLog.boundary := by
  obtain ⟨hcompact, hsplice, hown⟩ := hahead
  have hsaved : ∀ written term vote, ((s.node i).raftLog.saveMeta written term vote).Solid ∧
      (s.node i).raftLog.boundary ≤ ((s.node i).raftLog.saveMeta written term vote).boundary :=
    fun written term vote => ⟨h.saveMeta _ _ _, (RaftLog.boundary_saveMeta written term vote).ge⟩
  have happend : ∀ {written : Bool} {e : LogEntry} {rl : RaftLog},
      s.ownEntry st = some (i, e) → (s.node i).raftLog.append written e = some rl →
      rl.Solid ∧ (s.node i).raftLog.boundary ≤ rl.boundary := by
    intro written e rl he hrl
    exact ⟨(h.append (index_ownEntry he) (hown _ he) (h.filledTo le_rfl) hrl).1,
      (RaftLog.boundary_append hrl).1.ge⟩
  cases hmove with
  | panic => exact ⟨h.newRaftLog, RaftLog.boundary_newRaftLog.ge⟩
  | down _ _ => exact hsaved _ _ _
  | timeout _ _ _ => exact hsaved _ _ _
  | grant _ _ hm _ _ =>
    obtain ⟨hsolid, hb⟩ := hm.solid h
    exact ⟨hsolid.saveMeta _ _ _, ((RaftLog.boundary_saveMeta _ _ _).trans hb).ge⟩
  | lead hel hwon hrole =>
    cases hrl : (s.node i).raftLog.append (disk 0) (s.node i).noopEntry with
    | none => exact ⟨h, le_rfl⟩
    | some rl => exact happend (ownEntry_lead hst hel hwon hrole) hrl
  | propose hrole hrl => exact happend (ownEntry_propose hst hrole) hrl
  | mismatch _ _ hm =>
    obtain ⟨hsolid, hb⟩ := hm.solid h
    exact ⟨hsolid, hb.ge⟩
  | @splice k c m commit gs hk _ hm hprev _ =>
    obtain ⟨hsolid, hb⟩ := hm.solid h
    obtain ⟨hlast, habove⟩ := hsplice.apply hst hk (hm.admits hprev)
    have hloop := hsolid.appendEntries disk (prev_le_lastIndex hprev)
      (fun hne => hb.trans_le (habove hne)) (hidx c (List.mem_of_getElem? hk))
      fun j q hj hq hconf => by
        rw [Conflicts, hm.termAt] at hconf
        rcases hlast j q hj hq with h0 | ht
        · exact hconf.1 h0
        · exact hconf.2 ht
    exact ⟨hloop.1, (hloop.2.trans hb).ge⟩
  | restore _ hm =>
    obtain ⟨hsolid, hb⟩ := hm.solid h
    exact ⟨hsolid, hb.ge⟩
  | install hk hm hrl =>
    obtain ⟨hsolid, hb⟩ := hm.solid h
    have hle := hcompact.install hst hk hm.le
    exact ⟨hsolid.compact (hb.trans_le hle) hrl, hle.trans (RaftLog.boundary_compact hrl).ge⟩
  | @apply i k gs =>
    have ho := RaftNode.onlyApplies_applyCommitted E disk { s.node i with goroutines := gs }
    rw [ho.raftLog]
    exact ⟨h, le_rfl⟩
  | compact hg hrl =>
    have hle := hcompact.compact hst hg
    exact ⟨h.compact hle hrl, hle.trans (RaftLog.boundary_compact hrl).ge⟩
  | _ => exact ⟨h, le_rfl⟩

theorem Moved.solid (hmoved : Moved E M s st i n) (hahead : BoundaryAhead s st)
    (hidx : ∀ c ∈ s.appendCalls, RaftLog.Indexed c.req.prevLogIndex c.req.entries)
    (h : (s.node i).raftLog.Solid) :
    n.raftLog.Solid ∧ (s.node i).raftLog.boundary ≤ n.raftLog.boundary := by
  cases hmoved with
  | act hmove => exact hmove.solid rfl hahead hidx h
  | crash => exact ⟨h.newRaftLog, RaftLog.boundary_newRaftLog.ge⟩
  | crashDuring _ hmove =>
    obtain ⟨hsolid, hle⟩ := hmove.solid rfl hahead hidx h
    exact ⟨hsolid.newRaftLog, hle.trans RaftLog.boundary_newRaftLog.ge⟩
  | applyRead hmove _ => exact hmove.solid rfl hahead hidx h

/-! ## `LastIndex()` and what is committed -/

theorem lastIndex_saveMeta {rl : RaftLog} (written : Bool) (term : Nat) (vote : NodeID) :
    (rl.saveMeta written term vote).lastIndex = rl.lastIndex := by
  cases written <;> rfl

theorem Joins.keeps {written : Bool} {term c index : Nat} (h : Joins written n term m) :
    m.raftLog.Keeps c index ↔ n.raftLog.Keeps c index := by
  rw [RaftLog.Keeps, RaftLog.Keeps, h.get, h.boundary.1]

/-- A compaction under the condition does not lower `LastIndex()`, and stays at or below it. -/
theorem lastIndex_compact_le {rl rl' : RaftLog} {written : Bool} {index term : Nat}
    (h : index < rl.lastIndex ∨ index ≤ rl.snapshotIndex)
    (hc : rl.compact written index term = some rl') :
    rl.lastIndex ≤ rl'.lastIndex ∧ index ≤ rl'.lastIndex := by
  rw [RaftLog.lastIndex_compact hc]
  split <;> omega

section Splice

variable {written : Bool} {req : AppendEntriesRequest}

/-- An admitted request, for a log that reaches up to what is committed. -/
theorem splice_commit (disk : Disk) (hm : Joins written n req.term m)
    (hprev : m.raftLog.checkPrev req = none)
    (habove : req.entries ≠ [] → n.raftLog.snapshotIndex ≤ req.prevLogIndex)
    (hcut : CutsAboveCommitted n req)
    (hidx : RaftLog.Indexed req.prevLogIndex req.entries)
    (h : n.commitIndex ≤ n.raftLog.lastIndex) :
    n.commitIndex ≤ (m.raftLog.appendEntries disk req.prevLogIndex 0 req.entries).log.lastIndex ∧
      ((m.raftLog.appendEntries disk req.prevLogIndex 0 req.entries).ok = true →
        min (req.prevLogIndex + req.entries.length) req.leaderCommit ≤
          (m.raftLog.appendEntries disk req.prevLogIndex 0 req.entries).log.lastIndex) := by
  have hcached : req.entries ≠ [] → m.raftLog.snapshotIndex ≤ req.prevLogIndex := by
    rw [hm.boundary.1]
    exact habove
  have hkeeps : ∀ j q, req.entries[j]? = some q →
      Conflicts m.raftLog (req.prevLogIndex + j + 1) q → m.raftLog.Keeps
        (if j + 1 = req.entries.length then max n.commitIndex req.leaderCommit else n.commitIndex)
        (req.prevLogIndex + j + 1) := by
    intro j q hq hconf
    rw [Conflicts, hm.termAt] at hconf
    exact hm.keeps.mpr (hcut j (List.getElem?_eq_some_iff.mp hq).1 q hq hconf).2
  refine ⟨RaftLog.le_lastIndex_appendEntries disk (h.trans hm.lastIndex.ge) hcached hidx
    fun j q hq hconf => (hkeeps j q hq hconf).mono (by split <;> omega), fun hok => ?_⟩
  by_cases hfirst : ∀ j q, j + 1 = req.entries.length → req.entries[j]? = some q →
      Conflicts m.raftLog (req.prevLogIndex + j + 1) q →
      ∃ l < j, ∃ r, req.entries[l]? = some r ∧ Conflicts m.raftLog (req.prevLogIndex + l + 1) r
  · exact (min_le_left _ _).trans (RaftLog.last_le_lastIndex_appendEntries disk hcached
      (prev_le_lastIndex hprev) hidx hfirst hok)
  · -- the last entry is the only one that conflicts
    simp only [not_forall, not_exists, not_and] at hfirst
    obtain ⟨j, q, hj, hq, hconf, honly⟩ := hfirst
    have := hcached (List.ne_nil_of_mem (List.mem_of_getElem? hq))
    obtain ⟨e, he, _⟩ := RaftLog.get_of_termAt (by omega) hconf.1
    have hle := RaftLog.le_lastIndex he
    refine RaftLog.le_lastIndex_appendEntries disk (by omega) hcached hidx fun l r hr hconf' => ?_
    have hl := (List.getElem?_eq_some_iff.mp hr).1
    by_cases hlj : l + 1 = req.entries.length
    · have hkeep := hkeeps l r hr hconf'
      rw [if_pos hlj] at hkeep
      exact hkeep.mono ((min_le_right _ _).trans (le_max_right _ _))
    · exact absurd hconf' (honly l (by omega) r hr)

/-- The log of a leader of the request's term is not cut. -/
theorem splice_leader (hm : Joins written n req.term m) (hlead : m.state = .leader)
    (habove : req.entries ≠ [] → n.raftLog.snapshotIndex ≤ req.prevLogIndex)
    (hcut : CutsAboveCommitted n req)
    (hidx : RaftLog.Indexed req.prevLogIndex req.entries) :
    n.raftLog.lastIndex ≤
      (m.raftLog.appendEntries disk req.prevLogIndex 0 req.entries).log.lastIndex := by
  cases hm with
  | same hterm =>
    refine RaftLog.le_lastIndex_appendEntries disk le_rfl habove hidx fun j q hq hconf => ?_
    have hno := (hcut j (List.getElem?_eq_some_iff.mp hq).1 q hq hconf).1
    exact absurd ⟨hlead, hterm⟩ hno
  | down _ => exact absurd hlead (by simp)

end Splice

/-- **A step keeps `LastIndex()` at or above what is committed**, and does not lower it in a node that
leads afterwards. -/
theorem Move.tail (hmove : Move E M disk s a i n) (hst : st.action? = some a) (hkeep : KeepsTail s st)
    (hidx : ∀ c ∈ s.appendCalls, RaftLog.Indexed c.req.prevLogIndex c.req.entries)
    (h : (s.node i).commitIndex ≤ (s.node i).raftLog.lastIndex) :
    n.commitIndex ≤ n.raftLog.lastIndex ∧
      (n.state = .leader → (s.node i).raftLog.lastIndex ≤ n.raftLog.lastIndex) := by
  obtain ⟨hcompact, hsplice⟩ := hkeep
  -- nothing but the meta record changes
  have hsame : ∀ m : RaftNode σ, m.commitIndex = (s.node i).commitIndex →
      m.raftLog.lastIndex = (s.node i).raftLog.lastIndex → m.commitIndex ≤ m.raftLog.lastIndex ∧
        (m.state = .leader → (s.node i).raftLog.lastIndex ≤ m.raftLog.lastIndex) := by
    intro m hcommit hlast
    rw [hcommit, hlast]
    exact ⟨h, fun _ => le_rfl⟩
  have happend : ∀ {written : Bool} {e : LogEntry} {rl : RaftLog},
      e.index = (s.node i).raftLog.lastIndex + 1 →
      (s.node i).raftLog.append written e = some rl → (s.node i).raftLog.lastIndex ≤ rl.lastIndex :=
    fun hindex hrl => (RaftLog.lastIndex_append_le (fun _ => by omega) hrl).1
  cases hmove with
  | panic => exact ⟨Nat.zero_le _, fun hlead => absurd hlead (by simp)⟩
  | down _ _ => exact hsame _ rfl (lastIndex_saveMeta _ _ _)
  | timeout _ _ _ => exact hsame _ rfl (lastIndex_saveMeta _ _ _)
  | grant _ _ hm _ _ =>
    exact hsame _ hm.commitIndex ((lastIndex_saveMeta _ _ _).trans hm.lastIndex)
  | lead _ _ _ =>
    cases hrl : (s.node i).raftLog.append (disk 0) (s.node i).noopEntry with
    | none => exact hsame _ rfl rfl
    | some rl => exact ⟨h.trans (happend rfl hrl), fun _ => happend rfl hrl⟩
  | propose _ hrl => exact ⟨h.trans (happend rfl hrl), fun _ => happend rfl hrl⟩
  | mismatch _ _ hm => exact hsame _ hm.commitIndex hm.lastIndex
  | @splice k c m commit gs hk _ hm hprev hcommit =>
    obtain ⟨habove, hcut⟩ := hsplice.apply hst hk (hm.admits hprev)
    have hreq := hidx c (List.mem_of_getElem? hk)
    obtain ⟨hkept, hraised⟩ := splice_commit disk hm hprev habove hcut hreq h
    refine ⟨?_, fun hlead => splice_leader hm hlead habove hcut hreq⟩
    rcases hcommit with hcommit | ⟨hok, _, hcommit⟩
    · rw [hcommit, hm.commitIndex]
      exact hkept
    · rw [hcommit]
      exact hraised hok
  | acked hk _ _ _ _ _ _ hcommit =>
    refine ⟨?_, fun _ => le_rfl⟩
    rcases hcommit with hcommit | ⟨hpos, hcommit⟩
    · rw [hcommit]
      exact h
    · exact (LeaderState.commitCandidate_spec hcommit hpos).2.1
  | restore _ hm => exact hsame _ hm.commitIndex hm.lastIndex
  | @install k c m store rl hk hm hrl =>
    have hb := hcompact.install hst hk hm.le
    rw [← hm.lastIndex, ← hm.boundary.1] at hb
    obtain ⟨hgrown, hle⟩ := lastIndex_compact_le hb hrl
    exact ⟨hle, fun _ => hm.lastIndex.ge.trans hgrown⟩
  | @apply i k gs =>
    have ho := RaftNode.onlyApplies_applyCommitted E disk { s.node i with goroutines := gs }
    exact hsame _ ho.commitIndex (by rw [ho.raftLog])
  | compact hg hrl =>
    obtain ⟨hgrown, _⟩ := lastIndex_compact_le (hcompact.compact hst hg) hrl
    exact ⟨h.trans hgrown, fun _ => hgrown⟩
  | _ => exact hsame _ rfl rfl

theorem Moved.tail (hmoved : Moved E M s st i n) (hkeep : KeepsTail s st)
    (hidx : ∀ c ∈ s.appendCalls, RaftLog.Indexed c.req.prevLogIndex c.req.entries)
    (h : (s.node i).commitIndex ≤ (s.node i).raftLog.lastIndex) :
    n.commitIndex ≤ n.raftLog.lastIndex ∧
      (n.state = .leader → (s.node i).raftLog.lastIndex ≤ n.raftLog.lastIndex) := by
  cases hmoved with
  | act hmove => exact hmove.tail rfl hkeep hidx h
  | crash => exact ⟨Nat.zero_le _, fun hlead => absurd hlead (by simp)⟩
  | crashDuring _ _ => exact ⟨Nat.zero_le _, fun hlead => absurd hlead (by simp)⟩
  | applyRead hmove _ => exact hmove.tail rfl hkeep hidx h

/-- The write of a leader's own entry. -/
theorem step_ownEntry {e : LogEntry} (hs : s.step E M (.act disk a) = some s')
    (hown : s.ownEntry (.act disk a) = some (i, e)) (hdisk : disk 0 = true) :
    (s.node i).raftLog.append (disk 0) e = some (s'.node i).raftLog := by
  have hx : Exec E M disk s a s' := exec_cases hs
  unfold ownEntry at hown
  cases a with
  | propose j cmd =>
    simp only [Step.action?] at hown
    split at hown
    · rename_i hrole
      cases hown
      cases hx with
      | proposed _ => simp [RaftNode.propose, hrole, RaftLog.append, hdisk]
    · cases hown
  | finishElection j =>
    simp only [Step.action?] at hown
    split at hown
    · rename_i el hel
      split at hown
      · rename_i hlead
        cases hown
        cases hx with
        | finished hel' _ =>
          obtain rfl := Option.some.inj (hel.symm.trans hel')
          simp [endElection, RaftNode.becomeLeader, hlead, RaftLog.append, hdisk, setElection]
      · cases hown
    · cases hown
  | _ => cases hown

section Runs

variable {store : NodeID → σ} {threshold : NodeID → Int} {ok : Cluster σ → Step → Prop}
  {past : List (Cluster σ × Step)}

theorem Reaches.solid (hahead : ∀ s st, ok s st → BoundaryAhead s st)
    (h : Reaches E M store threshold ok past s) (i : NodeID) : (s.node i).raftLog.Solid := by
  refine Reaches.forall_node (P := fun _ n => n.raftLog.Solid) (fun i => .fresh) ?_ h i
  intro past s st i n hr hinv hok hmoved
  exact (hmoved.solid (hahead s st hok) (Reaches.keyed hr).2 (hinv i)).1

/-- **The compaction boundary is safe.** In every run in which nothing happens below the recorded
boundary of the node that acts, and no admitted request leaves a gap: the recorded boundary of a node has
never been higher than it is, and the log bucket is empty or starts with the index after it. -/
theorem compaction_boundary_safe (h : Reaches E M store threshold BoundaryAhead past s) (i : NodeID) :
    (∀ τ ∈ Lib.visited past s, (τ.node i).raftLog.boundary ≤ (s.node i).raftLog.boundary) ∧
      (s.node i).raftLog.StartsAtBoundary := by
  have hsolid {past : List (Cluster σ × Step)} {s : Cluster σ}
      (hr : Reaches E M store threshold BoundaryAhead past s) (i : NodeID) :=
    Reaches.solid (fun _ _ hok => hok) hr i
  refine ⟨fun τ hτ => ?_, (hsolid h i).startsAtBoundary⟩
  refine Lib.Run.rel (R := fun τ s : Cluster σ =>
    (τ.node i).raftLog.boundary ≤ (s.node i).raftLog.boundary) (fun _ => le_rfl)
    (fun _ _ _ => le_trans) ?_ h hτ
  intro past s st s' hr hok hs
  obtain ⟨j, hmoved, hother⟩ := step_moved hs
  by_cases hij : i = j
  · subst hij
    exact (hmoved.solid hok (Reaches.keyed hr).2 (hsolid hr i)).2
  · rw [hother i hij]

open Shipped (node1 node2)

/-- With threshold 1, `node-1` commits its no-op and two proposals and applies them, so that three
`takeSnapshot` goroutines are there to run, for the indices 1, 2 and 3. -/
def threeSnapshots : List Event :=
  acts (Shipped.elect node1 0 1 ++ [.propose node1 ⟨.put, [1], [1], []⟩,
    .propose node1 ⟨.put, [2], [2], []⟩, .replicate node1 node2, .handleAppend 0, .appendReturn 0,
    .resume node1 0])

/-- The goroutines for 1 and 2 run in that order. -/
def snapshotsInOrder : List Event :=
  threeSnapshots ++ acts [.resume node1 0, .resume node1 2, .resume node1 0, .resume node1 1]

/-- The goroutine for 2 has compacted the log; the one for 1 is about to. -/
def snapshotTwoFirst : List Event :=
  threeSnapshots ++ acts [.resume node1 1, .resume node1 2, .resume node1 0]

/-- In order, the goroutines leave a log that starts after the boundary 2. -/
theorem compaction_boundary_safe_snapshotsInOrder : ∃ past s,
    Shipped.EagerReaches BoundaryAhead past s ∧ (s.node node1).raftLog.boundary = 2 ∧
    (s.node node1).raftLog.lastIndex = 3 ∧
    (∀ τ ∈ Lib.visited past s, (τ.node node1).raftLog.boundary ≤ (s.node node1).raftLog.boundary) ∧
    (s.node node1).raftLog.StartsAtBoundary := by
  have hrun := (Shipped.reaches_eagerPlay BoundaryAhead snapshotsInOrder).mono fun _ _ h => h.1
  exact ⟨_, _, hrun, by decide +kernel, by decide +kernel, compaction_boundary_safe hrun node1⟩

/-- Out of order, the boundary goes from 2 back to 1, and the log starts at 3. -/
theorem snapshots_out_of_order : ∃ past s s',
    Shipped.EagerReaches (fun _ _ => True) past s ∧
    s.step Shipped.engine Shipped.membership (.act (fun _ => true) (.resume node1 1)) = some s' ∧
    (s.node node1).raftLog.boundary = 2 ∧ (s'.node node1).raftLog.boundary = 1 ∧
    (s'.node node1).raftLog.get 2 = none ∧
    (s'.node node1).raftLog.get 3 = some ⟨3, 1, ⟨.put, [2], [2], []⟩⟩ := by
  have hrun := (Shipped.reaches_eagerPlay (fun _ _ => True) snapshotTwoFirst).mono
    fun _ _ _ => trivial
  have hstep : ∃ s' ∈ (Shipped.eagerPlay (fun _ _ => True) snapshotTwoFirst).2.step Shipped.engine
      Shipped.membership (.act (fun _ => true) (.resume node1 1)),
      (s'.node node1).raftLog.boundary = 1 ∧ (s'.node node1).raftLog.get 2 = none ∧
      (s'.node node1).raftLog.get 3 = some ⟨3, 1, ⟨.put, [2], [2], []⟩⟩ := by decide +kernel
  obtain ⟨s', hs, hafter⟩ := hstep
  exact ⟨_, _, s', hrun, hs, by decide +kernel, hafter⟩

theorem Reaches.commit_le_lastIndex (hkeep : ∀ s st, ok s st → KeepsTail s st)
    (h : Reaches E M store threshold ok past s) (i : NodeID) :
    (s.node i).commitIndex ≤ (s.node i).raftLog.lastIndex := by
  refine Reaches.forall_node (P := fun _ n => n.commitIndex ≤ n.raftLog.lastIndex)
    (fun i => Nat.zero_le _) ?_ h i
  intro past s st i n hr hinv hok hmoved
  exact (hmoved.tail (hkeep s st hok) (Reaches.keyed hr).2 (hinv i)).1

/-- Node `i` has appended an entry of its own at index `k` and has led ever since. -/
inductive Assigned (i : NodeID) : List (Cluster σ × Step) → Cluster σ → Nat → Prop
  | now {past : List (Cluster σ × Step)} {s s' : Cluster σ} {disk : Disk} {a : Action} {e : LogEntry}
      (hown : s.ownEntry (.act disk a) = some (i, e)) (hdisk : disk 0 = true) :
      Assigned i ((s, .act disk a) :: past) s' e.index
  | before {past : List (Cluster σ × Step)} {s s' : Cluster σ} {st : Step} {k : Nat}
      (h : Assigned i past s k) (hlead : (s'.node i).state = .leader) :
      Assigned i ((s, st) :: past) s' k

/-- The log of a leader reaches up to every index it has assigned. -/
theorem Reaches.assigned_le (hkeep : ∀ s st, ok s st → KeepsTail s st)
    (h : Reaches E M store threshold ok past s) {k : Nat} (hk : Assigned i past s k) :
    k ≤ (s.node i).raftLog.lastIndex := by
  refine Reaches.invariant (P := fun past s => ∀ k, Assigned i past s k →
    k ≤ (s.node i).raftLog.lastIndex) (fun k hk => by cases hk) ?_ h k hk
  intro past s st s' hr hinv hok hs k hk
  cases hk with
  | now hown hdisk =>
    exact (RaftLog.lastIndex_append_le (fun _ => by rw [index_ownEntry hown]; omega)
      (step_ownEntry hs hown hdisk)).2
  | before hk hlead =>
    refine (hinv k hk).trans ?_
    obtain ⟨j, hmoved, hother⟩ := step_moved hs
    by_cases hij : i = j
    · subst hij
      exact (hmoved.tail (hkeep s st hok) (Reaches.keyed hr).2
        (Reaches.commit_le_lastIndex hkeep hr i)).2 hlead
    · rw [hother i hij]

/-- **A leader never reuses an index.** In every run in which no step takes away the end of a log: the
entry that `Propose` or `becomeLeader` is about to append has an index above `commitIndex`, above
`lastApplied` and above every index that the node has assigned in the same leadership. -/
theorem leader_index_fresh (h : Reaches E M store threshold KeepsTail past s) {e : LogEntry}
    (hown : s.ownEntry st = some (i, e)) :
    (s.node i).commitIndex < e.index ∧ (s.node i).lastApplied < e.index ∧
      ∀ k, Assigned i past s k → k < e.index := by
  have hindex := index_ownEntry hown
  have hcommit := Reaches.commit_le_lastIndex (fun _ _ hok => hok) h i
  have happlied := Reaches.lastApplied_le h i
  refine ⟨by omega, by omega, fun k hk => ?_⟩
  have hle := Reaches.assigned_le (fun _ _ hok => hok) h hk
  omega

/-- After the snapshots in order, `node-1` has assigned index 4 and gives the next proposal index 5. -/
theorem leader_index_fresh_snapshotsInOrder : ∃ past s e,
    Shipped.EagerReaches KeepsTail past s ∧
    s.ownEntry (.act (fun _ => true) (.propose node1 ⟨.put, [4], [4], []⟩)) = some (node1, e) ∧
    Assigned node1 past s 4 ∧ (s.node node1).commitIndex < e.index ∧
    (s.node node1).lastApplied < e.index ∧ ∀ k, Assigned node1 past s k → k < e.index := by
  have hrun := (Shipped.reaches_eagerPlay KeepsTail snapshotsInOrder).mono fun _ _ h => h.1
  have hok : KeepsTail (Shipped.eagerPlay KeepsTail snapshotsInOrder).2
      (.act (fun _ => true) (.propose node1 ⟨.put, [3], [3], []⟩)) := by decide +kernel
  have hown : (Shipped.eagerPlay KeepsTail snapshotsInOrder).2.ownEntry
      (.act (fun _ => true) (.propose node1 ⟨.put, [3], [3], []⟩)) =
        some (node1, ⟨4, 1, ⟨.put, [3], [3], []⟩⟩) := by decide +kernel
  have hstep : ∃ s' ∈ (Shipped.eagerPlay KeepsTail snapshotsInOrder).2.step Shipped.engine
      Shipped.membership (.act (fun _ => true) (.propose node1 ⟨.put, [3], [3], []⟩)),
      s'.ownEntry (.act (fun _ => true) (.propose node1 ⟨.put, [4], [4], []⟩)) =
        some (node1, ⟨5, 1, ⟨.put, [4], [4], []⟩⟩) := by decide +kernel
  obtain ⟨s', hs, hnext⟩ := hstep
  have hrun' : Shipped.EagerReaches KeepsTail _ s' := .next hrun hok hs
  exact ⟨_, s', _, hrun', hnext, .now hown rfl, leader_index_fresh hrun' hnext⟩

/-- `node-1` has committed and applied its no-op at index 1 and compacted its log; the next proposal gets
index 1 again. -/
theorem compacted_leader_reuses_index : ∃ past s e,
    Shipped.EagerReaches (fun _ _ => True) past s ∧
    s.ownEntry (.act (fun _ => true) (.propose node1 ⟨.put, [1], [1], []⟩)) = some (node1, e) ∧
    (s.step Shipped.engine Shipped.membership
      (.act (fun _ => true) (.propose node1 ⟨.put, [1], [1], []⟩))).isSome = true ∧
    e.index = 1 ∧ (s.node node1).commitIndex = 1 ∧ (s.node node1).lastApplied = 1 := by
  have hrun := (Shipped.reaches_eagerPlay (fun _ _ => True) Shipped.compactedLeader).mono
    fun _ _ _ => trivial
  have hown : (Shipped.eagerPlay (fun _ _ => True) Shipped.compactedLeader).2.ownEntry
      (.act (fun _ => true) (.propose node1 ⟨.put, [1], [1], []⟩)) =
        some (node1, ⟨1, 1, ⟨.put, [1], [1], []⟩⟩) := by decide +kernel
  exact ⟨_, _, _, hrun, hown, by decide +kernel, rfl, by decide +kernel, by decide +kernel⟩

end Runs

end Cluster

end Raftrix
