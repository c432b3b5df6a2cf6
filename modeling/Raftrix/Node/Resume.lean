import Raftrix.Log.Boundary
import Raftrix.Node.Lifetime
import Raftrix.Node.Receiver
import Raftrix.Node.Replay

/-!
# Resuming after a compaction

After `Compact(s)` the entries up to `s` are gone and the store is all that is left of them. A process
started on such a file should go on at `s + 1`, on the store as of `s` (`Resumes`). But `NewRaftNode`
starts with `lastApplied = 0` and puts nothing into the store, and `applyCommitted` ends its run at the
first index it cannot read.

* `applyFrom_events`: what the loop applies, from any struct: the longest series of stored entries after
  `lastApplied`, in order, each on the store its predecessors have left.
* `Restarted`: what is so in the whole life of such a process, as long as nothing comes back at or below
  `s`: the boundary is the cached one, nothing is stored up to it, and until `lastApplied` has passed it
  the store is the one the process has opened.
* **`resumes_iff`**: so a run resumes exactly if earlier runs have counted `lastApplied` up to `s`, one
  missing index each, and the store that was opened is the one as of `s`.
* `restarted_never_resumes`: the first run after a restart never does, whatever the engine kept.
-/

namespace Raftrix

variable {σ : Type}

/-! ## Ranges -/

namespace RaftLog

variable {rl : RaftLog}

theorem length_getRangeFrom_le (n first : Nat) : (rl.getRangeFrom n first).length ≤ n := by
  induction n generalizing first with
  | zero => simp [getRangeFrom]
  | succ n ih =>
    rw [getRangeFrom]
    split
    · simp
    · simpa using ih (first + 1)

/-- A range is complete exactly if each of its indices is stored. -/
theorem length_getRangeFrom_eq_iff (n first : Nat) : (rl.getRangeFrom n first).length = n ↔
    ∀ j, first ≤ j → j < first + n → ∃ e, rl.get j = some e := by
  induction n generalizing first with
  | zero => simpa [getRangeFrom] using fun j h h' => absurd h' (by omega)
  | succ n ih =>
    rw [getRangeFrom]
    cases hget : rl.get first with
    | none =>
      refine iff_of_false (by simp) fun h => ?_
      obtain ⟨e, he⟩ := h first (le_refl _) (by omega)
      rw [hget] at he
      exact absurd he (by simp)
    | some e =>
      rw [List.length_cons, Nat.add_right_cancel_iff, ih]
      constructor
      · intro h j hj hlt
        rcases Nat.eq_or_lt_of_le hj with rfl | hj
        · exact ⟨e, hget⟩
        · exact h j hj (by omega)
      · exact fun h j hj hlt => h j (by omega) (by omega)

end RaftLog

/-! ## What a run of the loop applies -/

/-- Apply the commands one after another, with the outcomes of the writes from the `k`-th on. -/
def applyCommands (E : Engine σ) (disk : Disk) : Nat → σ → List Command → σ
  | _, store, [] => store
  | k, store, cmd :: cmds => applyCommands E disk (k + 1) (applyCommand E (disk k) store cmd).1 cmds

namespace RaftNode

variable (E : Engine σ) (disk : Disk)

/-- **What the loop applies**: the entries after `lastApplied` up to the first missing one, each on the
store its predecessors have left. -/
theorem applyFrom_events (k fuel : Nat) (n : RaftNode σ) :
    (n.applyFrom E disk k fuel).2.length =
      (n.raftLog.getRangeFrom fuel (n.lastApplied + 1)).length ∧
    ∀ d a, (n.applyFrom E disk k fuel).2[d]? = some a →
      a.index = n.lastApplied + d + 1 ∧ n.raftLog.get a.index = some a.entry ∧
      a.store = applyCommands E disk k n.storage
        ((n.raftLog.getRangeFrom d (n.lastApplied + 1)).map LogEntry.command) := by
  induction fuel generalizing k n with
  | zero => exact ⟨rfl, fun d a ha => absurd ha (by simp [applyFrom])⟩
  | succ fuel ih =>
    cases hget : n.raftLog.get (n.lastApplied + 1) with
    | none =>
      rw [applyFrom_missing E disk hget]
      exact ⟨by simp [RaftLog.getRangeFrom, hget], fun d a ha => absurd ha (by simp)⟩
    | some e =>
      have ho := onlyApplies_applyEntry E (disk k) { n with lastApplied := n.lastApplied + 1 } e
      obtain ⟨hlen, hevents⟩ := ih (k + 1)
        (applyEntry E (disk k) { n with lastApplied := n.lastApplied + 1 } e).1
      rw [lastApplied_applyEntry, ho.raftLog] at hlen hevents
      rw [storage_applyEntry] at hevents
      rw [applyFrom_entry E disk hget]
      refine ⟨by simp [RaftLog.getRangeFrom, hget, hlen], fun d a ha => ?_⟩
      cases d with
      | zero =>
        obtain rfl := Option.some.inj ha
        exact ⟨rfl, hget, rfl⟩
      | succ d =>
        obtain ⟨hindex, hentry, hstore⟩ := hevents d a (by simpa using ha)
        refine ⟨by rw [hindex]; dsimp only; omega, hentry, ?_⟩
        simpa [RaftLog.getRangeFrom, hget, applyCommands] using hstore

/-- Where the loop ends: at the last index, or one past the first missing one. -/
theorem lastApplied_applyFrom_eq (k fuel : Nat) (n : RaftNode σ) :
    (n.applyFrom E disk k fuel).1.lastApplied =
      if (n.raftLog.getRangeFrom fuel (n.lastApplied + 1)).length = fuel then n.lastApplied + fuel
      else n.lastApplied + (n.raftLog.getRangeFrom fuel (n.lastApplied + 1)).length + 1 := by
  induction fuel generalizing k n with
  | zero => rfl
  | succ fuel ih =>
    cases hget : n.raftLog.get (n.lastApplied + 1) with
    | none =>
      rw [applyFrom_missing E disk hget]
      simp [RaftLog.getRangeFrom, hget]
    | some e =>
      have ho := onlyApplies_applyEntry E (disk k) { n with lastApplied := n.lastApplied + 1 } e
      rw [applyFrom_entry E disk hget]
      dsimp only
      rw [ih, lastApplied_applyEntry, ho.raftLog]
      simp only [RaftLog.getRangeFrom, hget, List.length_cons, Nat.add_right_cancel_iff]
      split <;> omega

end RaftNode

/-! ## Resuming -/

section Resume

variable {E : Engine σ} {disk : Disk} {m : RaftNode σ} {s : Nat} {S : σ}

/-- A run of `applyCommitted` **resumes** after the boundary `s` with the store `S`: it reaches
`commitIndex`, it applies the stored entry of every index above `s` exactly once and in order, the first of
them on `S` and each other one on what its predecessors have made of `S`. -/
structure Resumes (E : Engine σ) (disk : Disk) (m : RaftNode σ) (s : Nat) (S : σ) : Prop where
  reached : (m.applyCommitted E disk).1.lastApplied = m.commitIndex
  once : ((m.applyCommitted E disk).2.map Applied.index).filter (fun k => decide (s < k)) =
    List.range' (s + 1) (m.commitIndex - s)
  entry : ∀ a ∈ (m.applyCommitted E disk).2, m.raftLog.get a.index = some a.entry
  store : ∀ a ∈ (m.applyCommitted E disk).2, s < a.index → a.store =
    applyCommands E disk (s - m.lastApplied) S
      ((m.raftLog.getRange (s + 1) (a.index - 1)).map LogEntry.command)

theorem getRange_eq (rl : RaftLog) (first last : Nat) :
    rl.getRange (first + 1) last = rl.getRangeFrom (last - first) (first + 1) := by
  unfold RaftLog.getRange
  rw [Nat.add_sub_add_right]

/-- The indices of the events, as one series. -/
theorem indices_applyCommitted (E : Engine σ) (disk : Disk) (m : RaftNode σ) :
    (m.applyCommitted E disk).2.map Applied.index =
      List.range' (m.lastApplied + 1) (m.applyCommitted E disk).2.length := by
  refine List.ext_getElem? fun d => ?_
  rw [List.getElem?_map]
  cases ha : (m.applyCommitted E disk).2[d]? with
  | none =>
    have := List.getElem?_eq_none_iff.mp ha
    rw [List.getElem?_eq_none (by simpa using this)]
    rfl
  | some a =>
    have hindex := ((RaftNode.applyFrom_events E disk _ _ m).2 d a ha).1
    have hlt := (List.getElem?_eq_some_iff.mp ha).1
    rw [List.getElem?_range' (by simpa using hlt)]
    simp only [Option.map_some, hindex]
    congr 1
    omega

/-- The part of a series above `s`, for a series that starts at or below `s + 1`. -/
theorem filter_range' {a c : Nat} (ha : a ≤ s) (hc : s ≤ c) :
    (List.range' (a + 1) (c - a)).filter (fun k => decide (s < k)) = List.range' (s + 1) (c - s) := by
  have hsplit : List.range' (a + 1) (c - a) =
      List.range' (a + 1) (s - a) ++ List.range' (s + 1) (c - s) := by
    rw [show s + 1 = a + 1 + (s - a) by omega, List.range'_append_1]
    congr 1
    omega
  rw [hsplit, List.filter_append, List.filter_eq_nil_iff.mpr, List.filter_eq_self.mpr,
    List.nil_append]
  · intro k hk
    have := List.mem_range'_1.mp hk
    simp only [decide_eq_true_eq]
    omega
  · intro k hk
    have := List.mem_range'_1.mp hk
    simp only [decide_eq_true_eq]
    omega

/-- A run that finds an entry at every index up to `commitIndex` reaches it. -/
theorem applyCommitted_complete (E : Engine σ) (disk : Disk) (hle : m.lastApplied ≤ m.commitIndex)
    (hall : ∀ j, m.lastApplied < j → j ≤ m.commitIndex → ∃ e, m.raftLog.get j = some e) :
    (m.applyCommitted E disk).1.lastApplied = m.commitIndex ∧
      (m.applyCommitted E disk).2.length = m.commitIndex - m.lastApplied := by
  have hfull : (m.raftLog.getRangeFrom (m.commitIndex - m.lastApplied)
      (m.lastApplied + 1)).length = m.commitIndex - m.lastApplied :=
    (RaftLog.length_getRangeFrom_eq_iff _ _).mpr fun j hj hlt => hall j hj (by omega)
  have hend := RaftNode.lastApplied_applyFrom_eq E disk 0 (m.commitIndex - m.lastApplied) m
  rw [if_pos hfull] at hend
  have hlen := (RaftNode.applyFrom_events E disk 0 (m.commitIndex - m.lastApplied) m).1
  exact ⟨by rw [RaftNode.applyCommitted, hend]; omega, hlen.trans hfull⟩

/-- A run that resumes has applied at least the entries above the boundary. -/
theorem Resumes.le_length (h : Resumes E disk m s S) :
    m.commitIndex - s ≤ (m.applyCommitted E disk).2.length := by
  have honce := congrArg List.length h.once
  rw [List.length_range'] at honce
  rw [← honce]
  simpa using List.length_filter_le (fun k => decide (s < k))
    ((m.applyCommitted E disk).2.map Applied.index)

/-- So it has started at or below the boundary. -/
theorem Resumes.lastApplied_le (h : Resumes E disk m s S) (hc : s < m.commitIndex) :
    m.lastApplied ≤ s := by
  have hcount := h.le_length
  have hle := m.raftLog.length_getRangeFrom_le (m.commitIndex - m.lastApplied) (m.lastApplied + 1)
  rw [RaftNode.applyCommitted, (RaftNode.applyFrom_events E disk 0 _ m).1] at hcount
  omega

/-- A run that finds nothing at its first index ends there. -/
theorem not_resumes_of_missing (hget : m.raftLog.get (m.lastApplied + 1) = none)
    (hc : m.lastApplied + 1 < m.commitIndex) : ¬ Resumes E disk m s S := by
  intro hres
  have hreach := hres.reached
  obtain ⟨fuel, hfuel⟩ : ∃ fuel, m.commitIndex - m.lastApplied = fuel + 1 :=
    ⟨m.commitIndex - m.lastApplied - 1, by omega⟩
  rw [RaftNode.applyCommitted, hfuel, RaftNode.applyFrom_missing E disk hget] at hreach
  dsimp only at hreach
  omega

/-- A run that starts at the boundary resumes on the store it has found, and on no other. -/
theorem resumes_at_boundary_iff (hlast : m.lastApplied = s) (hc : s < m.commitIndex)
    (hlog : ∀ j, s < j → j ≤ m.commitIndex → ∃ e, m.raftLog.get j = some e) :
    Resumes E disk m s S ↔ m.storage = S := by
  subst hlast
  have hevents := (RaftNode.applyFrom_events E disk 0 (m.commitIndex - m.lastApplied) m).2
  obtain ⟨hreached, hlen⟩ := applyCommitted_complete E disk hc.le hlog
  constructor
  · intro hres
    -- the first event is the one for the index after the boundary
    have hpos : 0 < (m.applyCommitted E disk).2.length := by omega
    obtain ⟨hindex, _, hstore⟩ := hevents _ _ (List.getElem?_eq_getElem hpos)
    have hfirst := hres.store _ (List.getElem_mem hpos) (by rw [hindex]; omega)
    rw [hstore, hindex, getRange_eq] at hfirst
    simpa [RaftLog.getRangeFrom, applyCommands] using hfirst
  · rintro rfl
    refine ⟨hreached, ?_, fun a ha => ?_, fun a ha _ => ?_⟩
    · rw [indices_applyCommitted, hlen]
      exact filter_range' (le_refl _) hc.le
    · obtain ⟨d, hd⟩ := List.mem_iff_getElem?.mp ha
      exact (hevents d a hd).2.1
    · obtain ⟨d, hd⟩ := List.mem_iff_getElem?.mp ha
      obtain ⟨hindex, _, hstore⟩ := hevents d a hd
      rw [hstore, getRange_eq, Nat.sub_self, hindex]
      congr 4
      omega

/-! ## The life after a restart -/

/-- The process has the boundary `s` and nothing at or below it, and until `lastApplied` has passed `s`
its store is still `S`. -/
structure Restarted (s : Nat) (S : σ) (n : RaftNode σ) : Prop where
  cached : n.raftLog.snapshotIndex = s
  gone : ∀ j ≤ s, n.raftLog.get j = none
  store : n.lastApplied ≤ s → n.storage = S

/-- No snapshot is taken over, and no request has an entry at or below `s`. -/
def AboveBoundary (s : Nat) (n : RaftNode σ) (st : Disk × Op) : Prop :=
  match st.2 with
  | .handleInstallSnapshot req => req.term < n.currentTerm
  | .handleAppendEntries req => ∀ e ∈ req.entries, s < e.index
  | _ => True

namespace Restarted

variable {n n' : RaftNode σ}

/-- A section that leaves the entries, the boundary, `lastApplied` and the store alone. -/
theorem congr (h : Restarted s S n) (hget : n'.raftLog.get = n.raftLog.get)
    (hcached : n'.raftLog.snapshotIndex = n.raftLog.snapshotIndex)
    (hlast : n'.lastApplied = n.lastApplied) (hstore : n'.storage = n.storage) :
    Restarted s S n' where
  cached := hcached.trans h.cached
  gone j hj := by rw [hget, h.gone j hj]
  store hle := hstore.trans (h.store (hlast ▸ hle))

/-- Another log, with nothing at or below the boundary either. -/
theorem with_log (h : Restarted s S n) {rl : RaftLog} (hcached : rl.snapshotIndex = s)
    (hgone : ∀ j ≤ s, rl.get j = none) : Restarted s S { n with raftLog := rl } :=
  ⟨hcached, hgone, h.store⟩

theorem le_lastIndex (h : Restarted s S n) : s ≤ n.raftLog.lastIndex := by
  rcases n.raftLog.get_lastIndex with ⟨e, he⟩ | ⟨_, heq⟩
  · by_contra hlt
    rw [h.gone _ (Nat.le_of_lt (Nat.not_le.mp hlt))] at he
    exact absurd he (by simp)
  · rw [heq, h.cached]

theorem append (h : Restarted s S n) {written : Bool} {e : LogEntry} {rl : RaftLog}
    (hindex : s < e.index) (ha : n.raftLog.append written e = some rl) :
    Restarted s S { n with raftLog := rl } := by
  refine h.with_log ((RaftLog.boundary_append ha).2.trans h.cached) fun j hj => ?_
  rw [RaftLog.get_append ha, if_neg (by omega), h.gone j hj]

theorem becomeFollower (h : Restarted s S n) (written : Bool) (term : Nat) :
    Restarted s S (n.becomeFollower written term) :=
  h.congr (RaftLog.get_saveMeta _ _) (RaftLog.snapshotIndex_saveMeta _ _ _) rfl rfl

theorem joins (h : Restarted s S n) {written : Bool} {term : Nat}
    (hm : Cluster.Joins written n term n') : Restarted s S n' := by
  cases hm with
  | same _ => exact h
  | down _ => exact h.becomeFollower written term

theorem handleRequestVote (h : Restarted s S n) (req : RequestVoteRequest) :
    Restarted s S (n.handleRequestVote disk req).1 := by
  unfold RaftNode.handleRequestVote
  split
  · exact h
  · rename_i hge
    have hjoin := h.joins (Cluster.joins_of_not_lt (disk 0) hge)
    dsimp only
    generalize (if req.term > n.currentTerm then n.becomeFollower (disk 0) req.term else n) = m
      at hjoin ⊢
    split
    · exact hjoin
    · split
      · exact hjoin
      · exact hjoin.congr (RaftLog.get_saveMeta _ _) (RaftLog.snapshotIndex_saveMeta _ _ _) rfl rfl

theorem voteResponse (h : Restarted s S n) (el : RaftNode.Election) (resp : RequestVoteResponse) :
    Restarted s S (n.voteResponse disk el resp).1 := by
  unfold RaftNode.voteResponse
  split
  · exact h.becomeFollower _ _
  · split <;> exact h

theorem becomeLeader (h : Restarted s S n) : Restarted s S (n.becomeLeader disk) := by
  unfold RaftNode.becomeLeader
  split
  · exact h
  · cases ha : n.raftLog.append (disk 0) n.noopEntry with
    | none => exact h.congr rfl rfl rfl rfl
    | some rl => exact (h.append (Nat.lt_succ_of_le h.le_lastIndex) ha).congr rfl rfl rfl rfl

theorem propose (h : Restarted s S n) (cmd : Command) : Restarted s S (n.propose disk cmd).1 := by
  unfold RaftNode.propose
  split
  · exact h
  · dsimp only
    split
    · exact h
    · rename_i rl ha
      exact (h.append (Nat.lt_succ_of_le h.le_lastIndex) ha).congr rfl rfl rfl rfl

/-- The loop of `HandleAppendEntries`, for entries above the boundary. -/
theorem appendEntries (h : Restarted s S n) {prev : Nat} {es : List LogEntry}
    (habove : ∀ e ∈ es, s < e.index) :
    Restarted s S { n with raftLog := (n.raftLog.appendEntries disk prev 0 es).log } := by
  refine h.with_log ((RaftLog.SameBounds.appendEntries disk prev es).indices.2.trans h.cached) ?_
  obtain ⟨_, _, hgone, _⟩ := RaftLog.appendEntries_rounds disk prev es
    (P := fun _ rl => ∀ j ≤ s, rl.get j = none) h.gone fun _ q rl rl' hq hgone hround j hj => by
      have hindex := habove q (List.mem_of_getElem? hq)
      cases hround with
      | skipped _ _ => exact hgone j hj
      | appended _ ha => rw [RaftLog.get_append ha, if_neg (by omega), hgone j hj]
      | cut _ _ htr => rw [RaftLog.get_truncateFrom htr, hgone j hj, ite_self]
  exact hgone

theorem advanceCommit (h : Restarted s S n) (req : AppendEntriesRequest) :
    Restarted s S (n.advanceCommit req) := by
  obtain ⟨commit, gs, heq, _⟩ := Cluster.advanceCommit_cases n req
  rw [heq]
  exact h.congr rfl rfl rfl rfl

theorem handleAppendEntries (h : Restarted s S n) {req : AppendEntriesRequest}
    (habove : ∀ e ∈ req.entries, s < e.index) :
    Restarted s S (n.handleAppendEntries disk req).1 := by
  have hcases := RaftNode.received disk n req
  generalize n.handleAppendEntries disk req = r at hcases ⊢
  cases hcases with
  | stale _ => exact h
  | rejected hm _ => exact (h.joins hm).congr rfl rfl rfl rfl
  | failed hm _ _ => exact ((h.joins hm).appendEntries habove).congr rfl rfl rfl rfl
  | done hm _ _ =>
    refine advanceCommit ?_ req
    exact ((h.joins hm).appendEntries habove).congr rfl rfl rfl rfl

theorem appendResponse (h : Restarted s S n) {peer : NodeID} {resp : AppendEntriesResponse}
    (hs : n.appendResponse disk peer resp = some n') : Restarted s S n' := by
  unfold RaftNode.appendResponse at hs
  split at hs
  · cases hs
    exact h
  · split at hs
    · cases hs
      exact h.becomeFollower _ _
    · split at hs
      · cases hs
      · split at hs
        · cases hs
          unfold RaftNode.commitAcked
          dsimp only
          split <;> exact h.congr rfl rfl rfl rfl
        · cases hs
          exact h.congr rfl rfl rfl rfl

theorem snapshotResponse (h : Restarted s S n) {peer : NodeID} {snapshotIdx : Nat}
    {resp : InstallSnapshotResponse}
    (hs : n.snapshotResponse disk peer snapshotIdx resp = some n') : Restarted s S n' := by
  unfold RaftNode.snapshotResponse at hs
  split at hs
  · cases hs
    exact h.becomeFollower _ _
  · split at hs
    · split at hs
      · cases hs
      · cases hs
        exact h.congr rfl rfl rfl rfl
    · cases hs
      exact h

/-- A run that begins below the boundary finds nothing, and the others end above it. -/
theorem applyCommitted (h : Restarted s S n) : Restarted s S (n.applyCommitted E disk).1 := by
  unfold RaftNode.applyCommitted
  generalize n.commitIndex - n.lastApplied = fuel
  have ho := RaftNode.onlyApplies_applyFrom E disk 0 fuel n
  refine ⟨by rw [ho.raftLog, h.cached], by rw [ho.raftLog]; exact h.gone, fun hle => ?_⟩
  cases fuel with
  | zero => exact h.store hle
  | succ fuel =>
    cases hget : n.raftLog.get (n.lastApplied + 1) with
    | none =>
      rw [RaftNode.applyFrom_missing E disk hget] at hle ⊢
      exact h.store (Nat.le_of_succ_le hle)
    | some e =>
      -- the entry is above the boundary, and `lastApplied` does not go back
      have hprogress := (Lifetime.progress_applyFrom E disk 1 fuel
        (RaftNode.applyEntry E (disk 0) { n with lastApplied := n.lastApplied + 1 } e).1).lastApplied
      rw [RaftNode.lastApplied_applyEntry] at hprogress
      rw [RaftNode.applyFrom_entry E disk hget] at hle
      rw [h.gone _ (hprogress.trans hle)] at hget
      exact absurd hget (by simp)

theorem compactLog (h : Restarted s S n) (index term : Nat) (data : Bytes) :
    Restarted s S (n.compactLog disk index term data) := by
  unfold RaftNode.compactLog
  split
  · exact h
  · rename_i rl hrl
    refine (h.with_log ((RaftLog.cached_compact hrl).1.trans h.cached) fun j hj => ?_).congr
      rfl rfl rfl rfl
    rw [RaftLog.get_compact hrl, h.gone j hj, ite_self]

/-- **Every critical section keeps it**, as long as nothing comes back at or below the boundary. -/
theorem step {st : Disk × Op} (h : Restarted s S n) (hok : AboveBoundary s n st)
    (hs : Lifetime.step E n st = some n') : Restarted s S n' := by
  obtain ⟨disk, op⟩ := st
  cases op with
  | appendResponse peer resp => exact h.appendResponse hs
  | snapshotResponse peer snapshotIdx resp => exact h.snapshotResponse hs
  | startElection =>
    obtain rfl := Option.some.inj hs
    exact h.congr (RaftLog.get_saveMeta _ _) (RaftLog.snapshotIndex_saveMeta _ _ _) rfl rfl
  | handleRequestVote req =>
    obtain rfl := Option.some.inj hs
    exact h.handleRequestVote req
  | voteResponse el resp =>
    obtain rfl := Option.some.inj hs
    exact h.voteResponse el resp
  | becomeLeader =>
    obtain rfl := Option.some.inj hs
    exact h.becomeLeader
  | propose cmd =>
    obtain rfl := Option.some.inj hs
    exact h.propose cmd
  | release id =>
    obtain rfl := Option.some.inj hs
    exact h.congr rfl rfl rfl rfl
  | cancel id index =>
    obtain rfl := Option.some.inj hs
    exact h.congr rfl rfl rfl rfl
  | handleAppendEntries req =>
    obtain rfl := Option.some.inj hs
    exact h.handleAppendEntries hok
  | handleInstallSnapshot req =>
    obtain rfl := Option.some.inj hs
    have hstale : req.term < n.currentTerm := hok
    unfold RaftNode.handleInstallSnapshot
    dsimp only
    rw [if_pos hstale]
    exact h
  | applyCommitted =>
    obtain rfl := Option.some.inj hs
    exact h.applyCommitted
  | takeSnapshot index term data =>
    obtain rfl := Option.some.inj hs
    exact h.compactLog index term data

end Restarted

/-! ## Compacting -/

/-- The store as of an index: the commands up to it, applied one after another to the empty store. -/
def storeAsOf (E : Engine σ) (empty : σ) (cmds : List Command) (index : Nat) : σ :=
  applyCommands E (fun _ => true) 0 empty (cmds.take index)

/-- A struct with the log compacted at `s`, and the store as of an index `p` at or after it. -/
structure CompactedAt (E : Engine σ) (empty : σ) (cmds : List Command) (n : RaftNode σ) (s p : Nat) :
    Prop where
  boundary : ∃ term, n.raftLog.metaSnapshot = some (s, term)
  gone : ∀ j ≤ s, n.raftLog.get j = none
  store : n.storage = storeAsOf E empty cmds p
  applied : s ≤ p

section Compacting

variable {empty : σ} {cmds : List Command} {n : RaftNode σ} {p : Nat}

/-- What `Compact` leaves in the file. -/
theorem compacted_file {rl rl' : RaftLog} {written : Bool} {term : Nat}
    (h : rl.compact written s term = some rl') :
    rl'.metaSnapshot = some (s, term) ∧ ∀ j ≤ s, rl'.get j = none := by
  refine ⟨?_, fun j hj => by rw [RaftLog.get_compact h, if_neg (by omega)]⟩
  unfold RaftLog.compact at h
  split at h
  · cases h
    rfl
  · cases h

/-- `takeSnapshot` compacts at `s`, on the store as of a later index. -/
theorem compactedAt_takeSnapshot {term : Nat} {data : Bytes} (hwritten : disk 0 = true)
    (hstore : n.storage = storeAsOf E empty cmds p) (hle : s ≤ p) :
    CompactedAt E empty cmds (n.compactLog disk s term data) s p := by
  unfold RaftNode.compactLog
  cases hrl : n.raftLog.compact (disk 0) s term with
  | none =>
    rw [hwritten] at hrl
    exact absurd hrl (by simp [RaftLog.compact])
  | some rl => exact ⟨⟨term, (compacted_file hrl).1⟩, (compacted_file hrl).2, hstore, hle⟩

/-- `HandleInstallSnapshot` compacts at the boundary of the snapshot, on the store in it. -/
theorem compactedAt_install {req : InstallSnapshotRequest}
    (hsuccess : (n.handleInstallSnapshot E disk req).2.success = true)
    (hdata : E.restoreSnapshot n.storage req.data =
      .ok (storeAsOf E empty cmds req.lastIncludedIndex)) :
    CompactedAt E empty cmds (n.handleInstallSnapshot E disk req).1 req.lastIncludedIndex
      req.lastIncludedIndex := by
  have hcases := Cluster.installed E disk n req
  generalize n.handleInstallSnapshot E disk req = r at hcases hsuccess ⊢
  cases hcases with
  | stale _ => exact absurd hsuccess (by simp)
  | unrestored _ _ => exact absurd hsuccess (by simp)
  | uncompacted _ _ _ _ => exact absurd hsuccess (by simp)
  | done _ _ hstore _ hrl =>
    obtain rfl := Except.ok.inj (hdata.symm.trans hstore)
    exact ⟨⟨_, (compacted_file hrl).1⟩, (compacted_file hrl).2, rfl, le_refl _⟩

/-- The process that `NewRaftNode` starts on the file. -/
theorem CompactedAt.restarted (h : CompactedAt E empty cmds n s p) :
    Restarted s (E.reopen (storeAsOf E empty cmds p)) (n.newRaftNode E) where
  cached := by
    obtain ⟨term, hboundary⟩ := h.boundary
    change n.raftLog.newRaftLog.snapshotIndex = s
    rw [RaftLog.newRaftLog, hboundary]
  gone j hj := by
    change n.raftLog.newRaftLog.get j = none
    rw [RaftLog.get_newRaftLog, h.gone j hj]
  store _ := congrArg E.reopen h.store

/-! ## Resuming after a restart -/

/-- Two entries of term 1, the first `commit` of them committed. -/
def twoPuts (commit : Nat) : AppendEntriesRequest where
  term := 1
  leaderID := Shipped.node1
  prevLogIndex := 0
  prevLogTerm := 0
  entries := [⟨1, 1, ⟨.put, [1], [1], []⟩⟩, ⟨2, 1, ⟨.put, [2], [2], []⟩⟩]
  leaderCommit := commit

/-- The heartbeat by which the next process learns that index 2 is committed. -/
def twoCommitted : AppendEntriesRequest where
  term := 1
  leaderID := Shipped.node1
  prevLogIndex := 2
  prevLogTerm := 1
  entries := []
  leaderCommit := 2

/-- A follower stores two entries and applies the first `commit` of them. -/
def appliedPuts (commit : Nat) : RaftNode BoltEngine :=
  (((Shipped.eagerStart.node Shipped.node2).handleAppendEntries (fun _ => true)
    (twoPuts commit)).1.applyCommitted Shipped.engine fun _ => true).1

/-- Then it compacts its log up to index 1. -/
def compactedAtOne (commit : Nat) : RaftNode BoltEngine :=
  (appliedPuts commit).compactLog (fun _ => true) 1 1 (Shipped.json.marshal (appliedPuts commit).storage)

/-- The next process, after the heartbeat. -/
def recommitted (commit : Nat) : RaftNode BoltEngine :=
  (((compactedAtOne commit).newRaftNode Shipped.engine).handleAppendEntries (fun _ => true)
    twoCommitted).1

/-- The commands of the two entries. -/
def putCommands : List Command := (twoPuts 0).entries.map LogEntry.command

/-- **When a restarted node resumes after a compaction.** For every engine and every struct compacted at
`s`, every life of the process started on its file in which nothing comes back at or below `s`, and every
outcome of the writes: once `commitIndex` is above `s` and the log holds every entry from `s + 1` to it,
the next run of `applyCommitted` resumes on the store as of `s` exactly if `lastApplied` is `s` and the
store that was opened is the one as of `s`. -/
theorem resumes_iff (hn : CompactedAt E empty cmds n s p) {past : List (RaftNode σ × (Disk × Op))}
    (hlife : Lib.Run (fun m => m = n.newRaftNode E) (Lifetime.step E) (AboveBoundary s) past m)
    (hc : s < m.commitIndex)
    (hlog : ∀ j, s < j → j ≤ m.commitIndex → ∃ e, m.raftLog.get j = some e) :
    Resumes E disk m s (storeAsOf E empty cmds s) ↔
      m.lastApplied = s ∧ E.reopen (storeAsOf E empty cmds p) = storeAsOf E empty cmds s := by
  have hinv : Restarted s (E.reopen (storeAsOf E empty cmds p)) m := by
    refine Lib.Run.invariant (P := fun _ m => Restarted s (E.reopen (storeAsOf E empty cmds p)) m)
      ?_ (fun _ _ _ _ _ h hok hs => h.step hok hs) hlife
    rintro _ rfl
    exact hn.restarted
  constructor
  · intro hres
    have hlast : m.lastApplied = s := by
      refine le_antisymm (hres.lastApplied_le hc) ?_
      by_contra hlt
      exact not_resumes_of_missing (hinv.gone _ (by omega)) (by omega) hres
    exact ⟨hlast, (hinv.store hlast.le).symm.trans
      ((resumes_at_boundary_iff hlast hc hlog).mp hres)⟩
  · rintro ⟨hlast, hopened⟩
    exact (resumes_at_boundary_iff hlast hc hlog).mpr ((hinv.store hlast.le).trans hopened)

/-- The follower has applied and compacted entry 1, and is started again. The first run has passed the
compacted index, and the second one resumes: it applies entry 2 on the store with the first pair. -/
theorem resumes_secondRun :
    let m := ((recommitted 1).applyCommitted Shipped.engine fun _ => true).1
    let S := storeAsOf Shipped.engine .empty putCommands 1
    CompactedAt Shipped.engine .empty putCommands (compactedAtOne 1) 1 1 ∧
      m.commitIndex = 2 ∧ Lib.Bucket.get S [1] = some [1] ∧ Lib.Bucket.get S [2] = none ∧
      Resumes Shipped.engine (fun _ => true) m 1 S := by
  have hn : CompactedAt Shipped.engine .empty putCommands (compactedAtOne 1) 1 1 :=
    compactedAt_takeSnapshot rfl (by decide) (le_refl _)
  have hlife : Lib.Run (fun m => m = (compactedAtOne 1).newRaftNode Shipped.engine)
      (Lifetime.step Shipped.engine) (AboveBoundary 1)
      [(recommitted 1, fun _ => true, .applyCommitted),
        ((compactedAtOne 1).newRaftNode Shipped.engine, fun _ => true,
          .handleAppendEntries twoCommitted)]
      ((recommitted 1).applyCommitted Shipped.engine fun _ => true).1 :=
    .next (.next (.start rfl) (fun _ he => absurd he List.not_mem_nil) rfl) trivial rfl
  refine ⟨hn, by decide, by decide, by decide,
    (resumes_iff hn hlife (by decide) fun j hj hle => ?_).mpr ⟨by decide, by decide⟩⟩
  obtain rfl : j = 2 := le_antisymm (hle.trans (by decide)) hj
  exact ⟨⟨2, 1, ⟨.put, [2], [2], []⟩⟩, by decide⟩

end Compacting

/-- The process that `NewRaftNode` starts, once it has learnt that `c` is committed. -/
def restartedWith (E : Engine σ) (n : RaftNode σ) (c : Nat) : RaftNode σ :=
  { n.newRaftNode E with commitIndex := c }

/-- **The first run after a restart never resumes.** Whatever a node has compacted, in whatever state and
with whatever engine: the process that `NewRaftNode` starts on its file passes index 1 and stops. -/
theorem restarted_never_resumes {n : RaftNode σ} {rl : RaftLog} {written : Bool} {t c : Nat}
    (hrl : n.raftLog.compact written s t = some rl) (hs : 1 ≤ s) (hc : s < c) :
    ¬ Resumes E disk (restartedWith E { n with raftLog := rl } c) s S := by
  refine not_resumes_of_missing ?_ (hs.trans_lt hc)
  change rl.newRaftLog.get 1 = none
  rw [RaftLog.get_newRaftLog, RaftLog.get_compact hrl, if_neg (by omega)]

/-- **A restarted node stops at the compacted index.** A follower has applied two entries and compacted
its log up to the first; its process is restarted and learns again that index 2 is committed. The run
moves `lastApplied` to 1, applies nothing and ends. -/
theorem restart_stops_at_boundary :
    (recommitted 2).raftLog.snapshotIndex = 1 ∧ (recommitted 2).commitIndex = 2 ∧
    (recommitted 2).raftLog.get 2 = some ⟨2, 1, ⟨.put, [2], [2], []⟩⟩ ∧
    ((recommitted 2).applyCommitted Shipped.engine fun _ => true).1.lastApplied = 1 ∧
    ((recommitted 2).applyCommitted Shipped.engine fun _ => true).2.map Applied.index = [] := by
  decide

end Resume

end Raftrix
