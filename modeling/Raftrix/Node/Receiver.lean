import Mathlib.Data.Nat.Find
import Raftrix.Cluster.LogChange
import Raftrix.Cluster.Shipped
import Raftrix.Log.Boundary

/-!
# The receiver of AppendEntries

`Received` lists the four ways `HandleAppendEntries` ends: a stale term, a rejection by the consistency
check, a write that failed, and success. What is known about one call is read off it.

The loop appends what the log lacks as long as nothing conflicts (`Holds.appendEntries_agree`). At the
first conflict it cuts the log off and goes on with the entry after it, so that the conflicting index
stays empty (`Holds.get_appendEntries_conflict`). Two things follow, each with its exact condition:

* the receiver rules of Raft are followed if and only if the request has nothing but entries the log
  already has, and entries beyond its end (**`follows_rules_iff`**);
* the acknowledged index, which is the end of the whole log, is one up to which the follower shares the
  leader's log, if and only if the follower's log is part of the leader's, or is cut off at the
  request's last entry (**`acknowledges_shared_iff`**).
-/

namespace Raftrix

variable {σ : Type}

/-- No-ops with the given terms, from index 1 on. -/
def noopEntries (terms : List Nat) : List LogEntry :=
  terms.mapIdx fun k term => ⟨k + 1, term, .noop⟩

theorem listed_noopEntries {terms : List Nat} (h : ∀ term ∈ terms, 1 ≤ term) :
    Listed (noopEntries terms) := by
  intro k e hk
  rw [noopEntries, List.getElem?_mapIdx] at hk
  obtain ⟨term, hterm, rfl⟩ := Option.map_eq_some_iff.mp hk
  exact ⟨rfl, h term (List.mem_of_getElem? hterm), rfl⟩

/-- The log that holds them. -/
def RaftLog.noops (terms : List Nat) : RaftLog :=
  { RaftLog.fresh with log := RaftLog.bucketOf (noopEntries terms) }

theorem RaftLog.holds_noops {terms : List Nat} (h : ∀ term ∈ terms, 1 ≤ term) :
    (RaftLog.noops terms).Holds (noopEntries terms) :=
  ⟨RaftLog.get_bucketOf _, listed_noopEntries h, rfl, rfl⟩

namespace RaftNode

open Cluster (Joins)

variable {disk : Disk} {n : RaftNode σ} {req : AppendEntriesRequest}

/-! ## How a call ends -/

/-- How `HandleAppendEntries` ends: the struct it leaves and its answer. -/
inductive Received (disk : Disk) (n : RaftNode σ) (req : AppendEntriesRequest) :
    RaftNode σ × AppendEntriesResponse → Prop
  | stale (h : req.term < n.currentTerm) :
      Received disk n req (n, { followerID := n.id, term := n.currentTerm })
  | rejected {m : RaftNode σ} {index term : Nat} (hm : Joins (disk 0) n req.term m)
      (hprev : n.raftLog.checkPrev req = some (index, term)) :
      Received disk n req
        ({ m with leaderID := req.leaderID },
          { followerID := m.id, term := m.currentTerm, conflictIndex := index, conflictTerm := term })
  | failed {m : RaftNode σ} (hm : Joins (disk 0) n req.term m)
      (hprev : n.raftLog.checkPrev req = none)
      (hok : (m.raftLog.appendEntries disk req.prevLogIndex 0 req.entries).ok = false) :
      Received disk n req
        ({ m with
            leaderID := req.leaderID
            raftLog := (m.raftLog.appendEntries disk req.prevLogIndex 0 req.entries).log },
          { followerID := m.id, term := m.currentTerm })
  | done {m : RaftNode σ} (hm : Joins (disk 0) n req.term m)
      (hprev : n.raftLog.checkPrev req = none)
      (hok : (m.raftLog.appendEntries disk req.prevLogIndex 0 req.entries).ok = true) :
      Received disk n req
        (advanceCommit
          { m with
            leaderID := req.leaderID
            raftLog := (m.raftLog.appendEntries disk req.prevLogIndex 0 req.entries).log } req,
          { followerID := m.id
            term := m.currentTerm
            success := true
            matchIndex :=
              (m.raftLog.appendEntries disk req.prevLogIndex 0 req.entries).log.lastIndex })

theorem received (disk : Disk) (n : RaftNode σ) (req : AppendEntriesRequest) :
    Received disk n req (n.handleAppendEntries disk req) := by
  unfold handleAppendEntries
  split
  · rename_i hlt
    exact .stale hlt
  · rename_i hge
    have hm := Cluster.joins_of_not_lt (disk 0) hge
    unfold acceptEntries acceptLeader
    dsimp only
    generalize (if req.term > n.currentTerm then n.becomeFollower (disk 0) req.term else n) = m
      at hm ⊢
    rw [hm.checkPrev]
    cases hprev : n.raftLog.checkPrev req with
    | some r => exact .rejected hm hprev
    | none =>
      dsimp only
      split
      · rename_i hok
        exact .done hm hprev hok
      · rename_i hok
        exact .failed hm hprev (Bool.eq_false_of_not_eq_true hok)

@[simp] theorem raftLog_advanceCommit (n : RaftNode σ) (req : AppendEntriesRequest) :
    (n.advanceCommit req).raftLog = n.raftLog := by
  obtain ⟨_, _, heq, _⟩ := Cluster.advanceCommit_cases n req
  rw [heq]

@[simp] theorem currentTerm_advanceCommit (n : RaftNode σ) (req : AppendEntriesRequest) :
    (n.advanceCommit req).currentTerm = n.currentTerm := by
  obtain ⟨_, _, heq, _⟩ := Cluster.advanceCommit_cases n req
  rw [heq]

/-- **Rule 5**: the commit index follows the leader's within the request, and never goes back. -/
theorem commitIndex_advanceCommit (n : RaftNode σ) (req : AppendEntriesRequest) :
    (n.advanceCommit req).commitIndex =
      max n.commitIndex (min req.leaderCommit (req.prevLogIndex + req.entries.length)) := by
  have hmin : (if req.prevLogIndex + req.entries.length < req.leaderCommit then
      req.prevLogIndex + req.entries.length else req.leaderCommit) =
      min req.leaderCommit (req.prevLogIndex + req.entries.length) := by
    split <;> omega
  unfold advanceCommit
  dsimp only
  rw [hmin]
  split
  · split
    · rename_i hlt
      exact (Nat.max_eq_right (Nat.le_of_lt hlt)).symm
    · omega
  · omega

/-- A successful answer: the request was admitted and all its writes succeeded. -/
theorem handleAppendEntries_success (h : (n.handleAppendEntries disk req).2.success = true) :
    ∃ m, Joins (disk 0) n req.term m ∧ m.raftLog.checkPrev req = none ∧
      (m.raftLog.appendEntries disk req.prevLogIndex 0 req.entries).ok = true ∧
      (n.handleAppendEntries disk req).1.raftLog =
        (m.raftLog.appendEntries disk req.prevLogIndex 0 req.entries).log ∧
      (n.handleAppendEntries disk req).1.currentTerm = req.term ∧
      (n.handleAppendEntries disk req).2.term = req.term ∧
      (n.handleAppendEntries disk req).2.matchIndex =
        (n.handleAppendEntries disk req).1.raftLog.lastIndex := by
  have hr := received disk n req
  generalize n.handleAppendEntries disk req = r at h hr ⊢
  cases hr with
  | stale _ => exact absurd h (by simp)
  | rejected _ _ => exact absurd h (by simp)
  | failed _ _ _ => exact absurd h (by simp)
  | done hm hprev hok =>
    refine ⟨_, hm, (hm.checkPrev req).trans hprev, hok, raftLog_advanceCommit _ _, ?_, hm.term_eq, ?_⟩
    · rw [currentTerm_advanceCommit]
      exact hm.term_eq
    · rw [raftLog_advanceCommit]

/-- A request of the node's own term that passes the consistency check brings no conflict hint, and
succeeds unless a write fails. -/
theorem handleAppendEntries_passes (hterm : req.term = n.currentTerm)
    (hprev : n.raftLog.checkPrev req = none) :
    (n.handleAppendEntries disk req).2.conflictIndex = 0 ∧
      ((∀ k, disk k = true) → (n.handleAppendEntries disk req).2.success = true) := by
  have hr := received disk n req
  generalize n.handleAppendEntries disk req = r at hr ⊢
  cases hr with
  | stale h => omega
  | rejected _ h =>
    rw [hprev] at h
    exact absurd h (by simp)
  | failed _ _ hok =>
    refine ⟨rfl, fun hdisk => ?_⟩
    rw [RaftLog.appendEntries_ok hdisk] at hok
    exact absurd hok (by simp)
  | done _ _ _ => exact ⟨rfl, fun _ => rfl⟩

end RaftNode

/-! ## The loop up to and after its first conflict -/

namespace RaftLog

variable {disk : Disk} {rl : RaftLog} {prev : Nat} {es qs : List LogEntry}

/-- The log stores what the JSON text of an entry gives back, so the loop writes the same for an entry
and for its decoded form. -/
theorem append_stored (rl : RaftLog) (written : Bool) (e : LogEntry) :
    rl.append written e.stored = rl.append written e := by
  unfold append
  rw [LogEntry.stored_index, LogEntry.stored_stored]

theorem log_appendEntries_stored (disk : Disk) (prev : Nat) : ∀ (qs : List LogEntry) (i : Nat)
    (rl : RaftLog), (rl.appendEntries disk prev i (qs.map LogEntry.stored)).log =
      (rl.appendEntries disk prev i qs).log
  | [], _, _ => rfl
  | q :: qs, i, rl => by
    rw [List.map_cons]
    by_cases h0 : rl.termAt (prev + i + 1) = 0
    · rw [appendEntries_missing h0, appendEntries_missing h0, append_stored]
      cases rl.append (disk (i + 1)) q with
      | none => rfl
      | some rl' => exact log_appendEntries_stored disk prev qs (i + 1) rl'
    · by_cases ht : rl.termAt (prev + i + 1) = q.term
      · rw [appendEntries_skip h0 ht, appendEntries_skip h0 (ht.trans q.stored_term.symm)]
        exact log_appendEntries_stored disk prev qs (i + 1) rl
      · rw [appendEntries_conflict (q := q) h0 ht, appendEntries_conflict (q := q.stored) h0 ht]
        cases rl.truncateFrom (disk (i + 1)) (prev + i + 1) with
        | none => rfl
        | some rl' => exact log_appendEntries_stored disk prev qs (i + 1) rl'

/-- **Without a conflict** the loop appends what is missing. -/
theorem Holds.appendEntries_agree (h : rl.Holds es) (hqs : ListedFrom prev qs)
    (hprev : prev ≤ es.length) (hagree : Agree es prev qs)
    (hok : (rl.appendEntries disk prev 0 qs).ok = true) :
    (rl.appendEntries disk prev 0 qs).log.Holds (es ++ qs.drop (es.length - prev)) := by
  obtain ⟨es', hes', hmerge, _⟩ := appendEntries_merge disk (i := 0) h hqs hprev
    fun k q e hk =>
    hagree k q e (Lib.getElem?_of_le (List.dropLast_prefix _) hk)
  rw [hok] at hmerge
  cases hmerge with
  | grown j _ _ hj =>
    have hj := hj rfl
    rw [Nat.add_zero] at hj hes'
    rwa [List.take_of_length_le (by rw [List.length_drop]; omega)] at hes'
  | @cut hlen _ e q he hq hne =>
    refine absurd (hagree (qs.length - 1) q e ?_ ?_) hne
    · rw [← hq, List.getLast?_eq_getElem?]
    · have hpos : 0 < qs.length := List.length_pos_iff.mpr fun h0 => by
        rw [h0] at hq
        exact absurd hq (by simp)
      rw [← he]
      congr 1
      omega

/-- Logs and requests that do not agree have a first conflict. -/
theorem exists_first_conflict (h : ¬ Agree es prev qs) :
    ∃ k q e, qs[k]? = some q ∧ es[prev + k]? = some e ∧ e.term ≠ q.term ∧
      Agree es prev (qs.take k) := by
  classical
  have hex : ∃ k q e, qs[k]? = some q ∧ es[prev + k]? = some e ∧ e.term ≠ q.term := by
    unfold Agree at h
    push Not at h
    exact h
  obtain ⟨q, e, hq, he, hne⟩ := Nat.find_spec hex
  refine ⟨_, q, e, hq, he, hne, fun j q' e' hq' he' => ?_⟩
  rw [List.getElem?_take] at hq'
  split at hq'
  · rename_i hlt
    by_contra hne'
    exact Nat.find_min hex hlt ⟨q', e', hq', he', hne'⟩
  · exact absurd hq' (by simp)

/-- The log `m` after `j` rounds, when `k` is the round of the first conflict: nothing is written before
it, and after it the log reaches as far as the loop has come, without the conflicting index. -/
def Struck (rl : RaftLog) (prev : Nat) (qs : List LogEntry) (k j : Nat) (m : RaftLog) : Prop :=
  (j ≤ k → m = rl) ∧
    (k < j → m.snapshotIndex = 0 ∧ ∀ i, m.get i =
      if i ≤ prev + k then rl.get i
      else if i = prev + k + 1 then none
      else if i ≤ prev + j then (qs[i - prev - 1]?).map LogEntry.stored else none)

section Struck

variable {k j : Nat} {q e : LogEntry} {m m' : RaftLog}

theorem Struck.start : Struck rl prev qs k 0 rl := ⟨fun _ => rfl, fun hk => absurd hk (by omega)⟩

/-- A round before the conflict finds its entry in the log. -/
theorem Holds.round_before (h : rl.Holds es) (hlt : prev + j < es.length)
    (hagree : ∀ e, es[prev + j]? = some e → e.term = q.term) (hround : Round rl (prev + j + 1) q m') :
    m' = rl := by
  have hej : es[prev + j]? = some es[prev + j] := List.getElem?_eq_getElem hlt
  obtain ⟨hread, htaken⟩ := h.termAt_taken hej
  cases hround with
  | skipped _ _ => rfl
  | appended h0 _ => exact absurd h0 htaken
  | cut _ ht _ => exact absurd (hread.trans (hagree _ hej)) ht

/-- The round of the conflict only deletes. -/
theorem Holds.round_conflict (h : rl.Holds es) (he : es[prev + k]? = some e) (hne : e.term ≠ q.term)
    (hround : Round rl (prev + k + 1) q m') : Struck rl prev qs k (k + 1) m' := by
  refine ⟨fun hk => absurd hk (by omega), fun _ => ?_⟩
  obtain ⟨hread, htaken⟩ := h.termAt_taken he
  cases hround with
  | skipped _ ht => exact absurd (hread.symm.trans ht) hne
  | appended h0 _ => exact absurd h0 htaken
  | cut _ _ htr =>
    refine ⟨(boundary_truncateFrom htr).2.trans h.boundary, fun i => ?_⟩
    rw [get_truncateFrom htr]
    split_ifs <;> first | rfl | omega

/-- A round after it finds nothing and writes its entry. -/
theorem Struck.round_after (h : Struck rl prev qs k j m) (hkj : k < j) (hq : qs[j]? = some q)
    (hindex : q.index = prev + j + 1) (hround : Round m (prev + j + 1) q m') :
    Struck rl prev qs k (j + 1) m' := by
  obtain ⟨hcached, hget⟩ := h.2 hkj
  refine ⟨fun hk => absurd hk (by omega), fun _ => ?_⟩
  have hnone : m.get (prev + j + 1) = none := by
    rw [hget, if_neg (by omega), if_neg (by omega), if_neg (by omega)]
  have hmissing : m.termAt (prev + j + 1) = 0 := by
    rw [RaftLog.termAt, if_neg (by omega), if_neg (by omega), hnone]
  cases hround with
  | skipped h0 _ => exact absurd hmissing h0
  | cut h0 _ _ => exact absurd hmissing h0
  | appended _ ha =>
    refine ⟨(boundary_append ha).2.trans hcached, fun i => ?_⟩
    rw [get_append ha, hget, hindex]
    by_cases hi : i = prev + j + 1
    · rw [if_pos hi, if_neg (by omega), if_neg (by omega), if_pos (by omega), hi,
        show prev + j + 1 - prev - 1 = j by omega, hq]
      rfl
    · rw [if_neg hi]
      split_ifs <;> first | rfl | omega

end Struck

/-- **From its first conflict on** the loop leaves the conflicting index empty and the later entries
beyond it. -/
theorem Holds.get_appendEntries_conflict (h : rl.Holds es) (hidx : Indexed prev qs) {k : Nat}
    {q e : LogEntry} (hq : qs[k]? = some q) (he : es[prev + k]? = some e) (hne : e.term ≠ q.term)
    (hfirst : Agree es prev (qs.take k)) (hok : (rl.appendEntries disk prev 0 qs).ok = true)
    (i : Nat) :
    (rl.appendEntries disk prev 0 qs).log.get i =
      if i ≤ prev + k then rl.get i
      else if i = prev + k + 1 then none else (qs[i - prev - 1]?).map LogEntry.stored := by
  have hround : ∀ j r m m', qs[j]? = some r → Struck rl prev qs k j m →
      Round m (prev + j + 1) r m' → Struck rl prev qs k (j + 1) m' := by
    intro j r m m' hr hstruck hround
    rcases Nat.lt_trichotomy j k with hlt | rfl | hgt
    · obtain rfl := hstruck.1 (by omega)
      have hlen := (List.getElem?_eq_some_iff.mp he).1
      have hr' : (qs.take k)[j]? = some r := by
        rw [List.getElem?_take, if_pos hlt]
        exact hr
      have hkeep := h.round_before (by omega) (fun e' he' => hfirst j r e' hr' he') hround
      exact ⟨fun _ => hkeep, fun hk => absurd hk (by omega)⟩
    · obtain rfl := hstruck.1 (le_refl _)
      obtain rfl : q = r := Option.some.inj (hq.symm.trans hr)
      exact h.round_conflict he hne hround
    · exact hstruck.round_after hgt hr (hidx j r hr) hround
  obtain ⟨j, _, hstruck, hall⟩ := appendEntries_rounds disk prev qs Struck.start hround
  have hj := hall hok
  have hk : k < qs.length := (List.getElem?_eq_some_iff.mp hq).1
  rw [(hstruck.2 (by omega)).2 i, hj]
  split_ifs with h1 h2 h3
  · rfl
  · rfl
  · rfl
  · rw [List.getElem?_eq_none (by omega)]
    rfl

end RaftLog

namespace RaftNode

/-! ## The receiver rules -/

section Rules

variable {n n' : RaftNode σ} {req : AppendEntriesRequest} {resp : AppendEntriesResponse}
  {es : List LogEntry} {disk : Disk}

/-- The log has the entry `(PrevLogIndex, PrevLogTerm)`, or the request starts at the beginning. -/
def HasPrev (rl : RaftLog) (req : AppendEntriesRequest) : Prop :=
  0 < req.prevLogIndex → ∃ e, rl.get req.prevLogIndex = some e ∧ e.term = req.prevLogTerm

/-- An entry of the request meets one of another term. -/
def SomeConflict (rl : RaftLog) (req : AppendEntriesRequest) : Prop :=
  ∃ k q e, req.entries[k]? = some q ∧ rl.get (req.prevLogIndex + k + 1) = some e ∧ e.term ≠ q.term

/-- A rejection: the log and the commit index stay as they are. -/
structure Refuses (n n' : RaftNode σ) (resp : AppendEntriesResponse) : Prop where
  success : resp.success = false
  log : ∀ i, n'.raftLog.get i = n.raftLog.get i
  commit : n'.commitIndex = n.commitIndex

/-- An acceptance as the Raft paper has it: the log is the old one up to `PrevLogIndex`, then the
request's entries, then the old tail unless there was a conflict. -/
structure Accepts (n n' : RaftNode σ) (req : AppendEntriesRequest) (resp : AppendEntriesResponse) :
    Prop where
  success : resp.success = true
  below : ∀ i ≤ req.prevLogIndex, n'.raftLog.get i = n.raftLog.get i
  taken : ∀ k q, req.entries[k]? = some q → n'.raftLog.get (req.prevLogIndex + k + 1) = some q
  kept : ¬ SomeConflict n.raftLog req →
    ∀ i, req.prevLogIndex + req.entries.length < i → n'.raftLog.get i = n.raftLog.get i
  removed : SomeConflict n.raftLog req →
    ∀ i, req.prevLogIndex + req.entries.length < i → n'.raftLog.get i = none
  commit : n'.commitIndex =
    max n.commitIndex (min req.leaderCommit (req.prevLogIndex + req.entries.length))

/-- `HandleAppendEntries` follows the receiver rules on this request. -/
def FollowsRules (n : RaftNode σ) (req : AppendEntriesRequest) : Prop :=
  ∀ disk : Disk,
    (¬ HasPrev n.raftLog req →
      Refuses n (n.handleAppendEntries disk req).1 (n.handleAppendEntries disk req).2) ∧
    (HasPrev n.raftLog req → (∀ k, disk k = true) →
      Accepts n (n.handleAppendEntries disk req).1 req (n.handleAppendEntries disk req).2)

/-- Where the log has an entry of the request's index it is the same one, and an entry the log lacks
survives its encoding. -/
def Extends (rl : RaftLog) (req : AppendEntriesRequest) : Prop :=
  ∀ k q, req.entries[k]? = some q →
    match rl.get (req.prevLogIndex + k + 1) with
    | some e => e = q
    | none => q.stored = q

/-- The entries of a request carry consecutive indices and terms of leaders. -/
def Consecutive (req : AppendEntriesRequest) : Prop :=
  ∀ k q, req.entries[k]? = some q → q.index = req.prevLogIndex + k + 1 ∧ 1 ≤ q.term

theorem Consecutive.listedFrom (h : Consecutive req) :
    ListedFrom req.prevLogIndex (req.entries.map LogEntry.stored) := by
  intro k q hq
  rw [List.getElem?_map] at hq
  obtain ⟨r, hr, rfl⟩ := Option.map_eq_some_iff.mp hq
  exact ⟨(h k r hr).1, (h k r hr).2, r.stored_stored⟩

/-- The consistency check asks for `HasPrev`. -/
theorem checkPrev_iff_hasPrev (hes : n.raftLog.Holds es) :
    n.raftLog.checkPrev req = none ↔ HasPrev n.raftLog req := by
  rw [hes.checkPrev]
  unfold HasPrev
  constructor
  · rintro (h0 | ⟨hle, hterm⟩) hpos
    · omega
    · obtain ⟨k, hk⟩ : ∃ k, req.prevLogIndex = k + 1 := ⟨req.prevLogIndex - 1, by omega⟩
      rw [hk] at hle hterm ⊢
      have he : es[k]? = some es[k] := List.getElem?_eq_getElem hle
      exact ⟨es[k], by rw [hes.get_succ, he], by rw [← hterm, termOf_eq he]⟩
  · intro h
    rcases Nat.eq_zero_or_pos req.prevLogIndex with h0 | hpos
    · exact Or.inl h0
    · obtain ⟨e, he, hterm⟩ := h hpos
      obtain ⟨k, hk⟩ : ∃ k, req.prevLogIndex = k + 1 := ⟨req.prevLogIndex - 1, by omega⟩
      rw [hk, hes.get_succ] at he
      rw [hk, termOf_eq he]
      exact Or.inr ⟨(List.getElem?_eq_some_iff.mp he).1, hterm⟩

/-- **A rejection changes nothing.** -/
theorem refuses (hes : n.raftLog.Holds es) (hterm : n.currentTerm ≤ req.term)
    (hprev : ¬ HasPrev n.raftLog req) (disk : Disk) :
    Refuses n (n.handleAppendEntries disk req).1 (n.handleAppendEntries disk req).2 := by
  rw [← checkPrev_iff_hasPrev hes] at hprev
  have hr := received disk n req
  generalize n.handleAppendEntries disk req = r at hr ⊢
  cases hr with
  | stale hlt => omega
  | rejected hm _ => exact ⟨rfl, fun i => congrFun hm.get i, hm.commitIndex⟩
  | failed _ h _ => exact absurd h hprev
  | done _ h _ => exact absurd h hprev

/-- **An acceptance** is the loop followed by rule 5. -/
theorem accepted (hes : n.raftLog.Holds es) (hterm : n.currentTerm ≤ req.term)
    (hprev : HasPrev n.raftLog req) (hdisk : ∀ k, disk k = true) :
    ∃ m, Cluster.Joins (disk 0) n req.term m ∧
      (m.raftLog.appendEntries disk req.prevLogIndex 0 req.entries).ok = true ∧
      (n.handleAppendEntries disk req).1.raftLog =
        (m.raftLog.appendEntries disk req.prevLogIndex 0 req.entries).log ∧
      (n.handleAppendEntries disk req).1.commitIndex =
        max n.commitIndex (min req.leaderCommit (req.prevLogIndex + req.entries.length)) ∧
      (n.handleAppendEntries disk req).2.success = true := by
  rw [← checkPrev_iff_hasPrev hes] at hprev
  have hr := received disk n req
  generalize n.handleAppendEntries disk req = r at hr ⊢
  cases hr with
  | stale hlt => omega
  | rejected _ h =>
    rw [hprev] at h
    exact absurd h (by simp)
  | failed _ _ hok =>
    rw [RaftLog.appendEntries_ok hdisk] at hok
    exact absurd hok (by simp)
  | done hm _ hok =>
    refine ⟨_, hm, hok, raftLog_advanceCommit _ _, ?_, rfl⟩
    rw [commitIndex_advanceCommit]
    exact congrArg (max · _) hm.commitIndex

/-- Over the list: the entries of the request that the log has are the same. -/
theorem extends_iff (hes : n.raftLog.Holds es) :
    Extends n.raftLog req ↔ ∀ k q, req.entries[k]? = some q →
      (∀ e, es[req.prevLogIndex + k]? = some e → e = q) ∧
        (es[req.prevLogIndex + k]? = none → q.stored = q) := by
  unfold Extends
  refine forall_congr' fun k => forall_congr' fun q => imp_congr_right fun _ => ?_
  rw [hes.get_succ]
  cases es[req.prevLogIndex + k]? with
  | none => simp
  | some e => simp

theorem someConflict_iff (hes : n.raftLog.Holds es) :
    SomeConflict n.raftLog req ↔
      ¬ Agree es req.prevLogIndex (req.entries.map LogEntry.stored) := by
  unfold SomeConflict Agree
  push Not
  constructor
  · rintro ⟨k, q, e, hq, he, hne⟩
    rw [hes.get_succ] at he
    exact ⟨k, q.stored, e, by rw [List.getElem?_map, hq]; rfl, he, hne⟩
  · rintro ⟨k, q, e, hq, he, hne⟩
    rw [List.getElem?_map] at hq
    obtain ⟨r, hr, rfl⟩ := Option.map_eq_some_iff.mp hq
    exact ⟨k, r, e, hr, by rw [hes.get_succ]; exact he, hne⟩

theorem hasPrev_le (hes : n.raftLog.Holds es) (hprev : HasPrev n.raftLog req) :
    req.prevLogIndex ≤ es.length := by
  rcases (hes.checkPrev req).mp ((checkPrev_iff_hasPrev hes).mpr hprev) with h0 | ⟨hle, _⟩
  · omega
  · exact hle

/-- An element of the log after the loop, when nothing conflicts. -/
theorem getElem?_agree {es qs : List LogEntry} {p : Nat} (hp : p ≤ es.length) (k : Nat) :
    (es ++ qs.drop (es.length - p))[p + k]? =
      if p + k < es.length then es[p + k]? else qs[k]? := by
  split
  · rename_i hlt
    exact List.getElem?_append_left hlt
  · rename_i hge
    rw [List.getElem?_append_right (by omega), List.getElem?_drop]
    congr 1
    omega

/-- Without a conflict the log is the old one with the missing entries appended. -/
theorem holds_accepted (hes : n.raftLog.Holds es) (hterm : n.currentTerm ≤ req.term)
    (hreq : Consecutive req) (hprev : HasPrev n.raftLog req) (hdisk : ∀ k, disk k = true)
    (hno : ¬ SomeConflict n.raftLog req) :
    (n.handleAppendEntries disk req).1.raftLog.Holds
      (es ++ (req.entries.map LogEntry.stored).drop (es.length - req.prevLogIndex)) := by
  obtain ⟨m, hm, _, hlog, _⟩ := accepted hes hterm hprev hdisk
  rw [someConflict_iff hes, not_not] at hno
  rw [hlog, ← RaftLog.log_appendEntries_stored]
  exact (hm.holds hes).appendEntries_agree hreq.listedFrom (hasPrev_le hes hprev) hno
    (RaftLog.appendEntries_ok hdisk _ _ _ _)

/-- With a conflict the first entry that conflicts is missing afterwards. -/
theorem entry_lost (hes : n.raftLog.Holds es) (hterm : n.currentTerm ≤ req.term)
    (hreq : Consecutive req) (hprev : HasPrev n.raftLog req) (hdisk : ∀ k, disk k = true)
    (hconf : SomeConflict n.raftLog req) :
    ∃ k q, req.entries[k]? = some q ∧
      (n.handleAppendEntries disk req).1.raftLog.get (req.prevLogIndex + k + 1) = none := by
  obtain ⟨m, hm, _, hlog, _⟩ := accepted hes hterm hprev hdisk
  obtain ⟨k, q, e, hq, he, hne, hfirst⟩ :=
    RaftLog.exists_first_conflict ((someConflict_iff hes).mp hconf)
  have hget := (hm.holds hes).get_appendEntries_conflict
    (fun j q hq => (hreq.listedFrom j q hq).1) hq he hne hfirst
    (RaftLog.appendEntries_ok hdisk _ _ _ _) (req.prevLogIndex + k + 1)
  rw [if_neg (by omega), if_pos rfl] at hget
  rw [List.getElem?_map] at hq
  obtain ⟨r, hr, _⟩ := Option.map_eq_some_iff.mp hq
  exact ⟨k, r, hr, by rw [hlog, ← RaftLog.log_appendEntries_stored, hget]⟩

theorem Extends.not_someConflict (h : Extends n.raftLog req) : ¬ SomeConflict n.raftLog req := by
  rintro ⟨k, q, e, hq, he, hne⟩
  have hsame := h k q hq
  rw [he] at hsame
  exact hne (congrArg LogEntry.term hsame)

/-- A request that extends the log is taken over as the rules say. -/
theorem Extends.accepts (hext : Extends n.raftLog req) (hes : n.raftLog.Holds es)
    (hterm : n.currentTerm ≤ req.term) (hreq : Consecutive req) (hprev : HasPrev n.raftLog req)
    (hdisk : ∀ k, disk k = true) :
    Accepts n (n.handleAppendEntries disk req).1 req (n.handleAppendEntries disk req).2 := by
  obtain ⟨m, hm, hok, hlog, hcommit, hsucc⟩ := accepted hes hterm hprev hdisk
  have hle := hasPrev_le hes hprev
  have hes' := holds_accepted hes hterm hreq hprev hdisk hext.not_someConflict
  have hlist := (extends_iff hes).mp hext
  refine ⟨hsucc, fun i hi => ?_, fun k q hq => ?_, fun _ i hi => ?_,
    fun h => absurd h hext.not_someConflict, hcommit⟩
  · rw [hes'.get, hes.get]
    split
    · rfl
    · rw [List.getElem?_append_left (by omega)]
  · rw [hes'.get_succ, getElem?_agree hle]
    split
    · rename_i hlt
      have hget := List.getElem?_eq_getElem hlt
      rw [hget, (hlist k q hq).1 _ hget]
    · rename_i hge
      rw [List.getElem?_map, hq]
      exact congrArg some ((hlist k q hq).2 (List.getElem?_eq_none (by omega)))
  · obtain ⟨k, rfl⟩ : ∃ k, i = req.prevLogIndex + k + 1 := ⟨i - req.prevLogIndex - 1, by omega⟩
    rw [hes'.get_succ, hes.get_succ, getElem?_agree hle]
    split
    · rfl
    · rw [List.getElem?_eq_none (by rw [List.length_map]; omega), List.getElem?_eq_none (by omega)]

/-- A request that is taken over as the rules say extends the log. -/
theorem extends_of_accepts (hes : n.raftLog.Holds es) (hterm : n.currentTerm ≤ req.term)
    (hreq : Consecutive req) (hprev : HasPrev n.raftLog req) (hdisk : ∀ k, disk k = true)
    (hacc : Accepts n (n.handleAppendEntries disk req).1 req (n.handleAppendEntries disk req).2) :
    Extends n.raftLog req := by
  have hno : ¬ SomeConflict n.raftLog req := fun hconf => by
    obtain ⟨k, q, hq, hnone⟩ := entry_lost hes hterm hreq hprev hdisk hconf
    rw [hacc.taken k q hq] at hnone
    exact absurd hnone (by simp)
  have hes' := holds_accepted hes hterm hreq hprev hdisk hno
  refine (extends_iff hes).mpr fun k q hq => ?_
  have htaken := hacc.taken k q hq
  rw [hes'.get_succ, getElem?_agree (hasPrev_le hes hprev)] at htaken
  split at htaken
  · rename_i hlt
    refine ⟨fun e he => Option.some.inj (he.symm.trans htaken), fun hnone => ?_⟩
    rw [hnone] at htaken
    exact absurd htaken (by simp)
  · rename_i hge
    rw [List.getElem?_map, hq] at htaken
    refine ⟨fun e he => absurd (List.getElem?_eq_some_iff.mp he).1 hge, fun _ => ?_⟩
    exact Option.some.inj htaken

/-- **The receiver rules are followed exactly when the request agrees with the log.** For every node
whose log is a list, and every request of a term that is not stale with consecutive entries:
`HandleAppendEntries` follows the receiver rules, if and only if the request is one to refuse or
`Extends` the log. -/
theorem follows_rules_iff (hes : n.raftLog.Holds es) (hterm : n.currentTerm ≤ req.term)
    (hreq : Consecutive req) :
    FollowsRules n req ↔ (HasPrev n.raftLog req → Extends n.raftLog req) := by
  constructor
  · intro hrules hprev
    exact extends_of_accepts hes hterm hreq hprev (fun _ => rfl)
      ((hrules fun _ => true).2 hprev fun _ => rfl)
  · exact fun hext disk => ⟨fun hprev => refuses hes hterm hprev disk,
      fun hprev hdisk => (hext hprev).accepts hes hterm hreq hprev hdisk⟩

/-- A follower of term 1 with entries of the terms 1, 1. -/
def followerOfOne : RaftNode BoltEngine :=
  { Shipped.start.node Shipped.node2 with currentTerm := 1, raftLog := .noops [1, 1] }

/-- The entry of a leader of term 2 at `prev + 1`. -/
def oneEntryAfter (prev : Nat) : AppendEntriesRequest :=
  ⟨2, Shipped.node1, prev, 1, [⟨prev + 1, 2, .noop⟩], prev + 1⟩

theorem consecutive_oneEntryAfter (prev : Nat) : Consecutive (oneEntryAfter prev) := by
  intro k q hq
  cases k with
  | zero =>
    cases hq
    exact ⟨rfl, Nat.le_succ 1⟩
  | succ k => exact absurd hq (by simp [oneEntryAfter])

/-- An entry after the end of the log is taken over as the rules say. -/
theorem follows_rules_atEnd : FollowsRules followerOfOne (oneEntryAfter 2) := by
  refine (follows_rules_iff (RaftLog.holds_noops (by decide)) (by decide)
    (consecutive_oneEntryAfter 2)).mpr fun _ k q hq => ?_
  cases k with
  | zero =>
    cases hq
    rfl
  | succ k => exact absurd hq (by simp [oneEntryAfter])

/-- **The entry that conflicts is lost.** The follower has an entry of term 1 at index 2; the leader of
term 2 sends its own entry for that index. The answer is `Success`, the commit index goes up to 2, and
the log has nothing at index 2. -/
theorem conflicting_entry_lost :
    let r := followerOfOne.handleAppendEntries (fun _ => true) (oneEntryAfter 1)
    ¬ FollowsRules followerOfOne (oneEntryAfter 1) ∧
      followerOfOne.raftLog.get 1 = some ⟨1, 1, .noop⟩ ∧ r.2.success = true ∧ r.1.commitIndex = 2 ∧
      r.1.raftLog.get 2 = none ∧ r.1.raftLog.lastIndex = 1 := by
  refine ⟨fun h => ?_, by decide⟩
  have hacc := (h fun _ => true).2 (fun _ => ⟨⟨1, 1, .noop⟩, by decide, by decide⟩) fun _ => rfl
  exact absurd (hacc.taken 0 _ rfl) (by decide)

end Rules

/-! ## Acknowledgements -/

section Acknowledgements

variable {n : RaftNode σ} {req : AppendEntriesRequest} {es l : List LogEntry} {disk : Disk}

/-- The request is cut from the log `l`. -/
structure SliceOf (req : AppendEntriesRequest) (l : List LogEntry) : Prop where
  within : req.prevLogIndex ≤ l.length
  prevTerm : req.prevLogTerm = termOf l req.prevLogIndex
  entries : req.entries <+: l.drop req.prevLogIndex

/-- Up to `m` the node's log is the log `l`. -/
def Shares (n : RaftNode σ) (l : List LogEntry) (m : Nat) : Prop :=
  m ≤ l.length ∧ ∀ i, 1 ≤ i → i ≤ m → n.raftLog.get i = l[i - 1]?

theorem SliceOf.getElem? (h : SliceOf req l) {k : Nat} {q : LogEntry}
    (hq : req.entries[k]? = some q) : l[req.prevLogIndex + k]? = some q := by
  rw [← List.getElem?_drop]
  exact Lib.getElem?_of_le h.entries hq

theorem SliceOf.listedFrom (h : SliceOf req l) (hl : Listed l) :
    ListedFrom req.prevLogIndex req.entries := by
  intro k q hq
  exact hl _ _ (h.getElem? hq)

/-- A log that is a list shares all of itself with exactly the logs it is a prefix of. -/
theorem shares_length_iff (h : n.raftLog.Holds es) :
    Shares n l n.raftLog.lastIndex ↔ es <+: l := by
  rw [h.lastIndex]
  constructor
  · rintro ⟨hle, hget⟩
    have htake : es = l.take es.length := by
      apply List.ext_getElem?
      intro k
      rw [List.getElem?_take]
      split
      · rename_i hk
        rw [← h.get_succ, hget (k + 1) (by omega) (by omega), Nat.add_sub_cancel]
      · rename_i hk
        exact List.getElem?_eq_none (by omega)
    rw [htake]
    exact List.take_prefix _ _
  · rintro ⟨t, rfl⟩
    refine ⟨by simp, fun i hi hle => ?_⟩
    rw [h.get, if_neg (by omega), List.getElem?_append_left (by omega)]

/-- What the loop does to a log that matches the leader's, when nothing conflicts. -/
theorem prefix_append_slice (hreq : SliceOf req l) (hp : req.prevLogIndex ≤ es.length)
    (hle : es <+: l) : es ++ req.entries.drop (es.length - req.prevLogIndex) <+: l := by
  obtain ⟨t, rfl⟩ := hle
  rw [List.prefix_append_right_inj]
  have hdrop := hreq.entries.drop (es.length - req.prevLogIndex)
  rwa [drop_slice hp, List.drop_left] at hdrop

/-- A part of the leader's log agrees with every request cut from it. -/
theorem SliceOf.agree (hreq : SliceOf req l) (hle : es <+: l) :
    Agree es req.prevLogIndex req.entries := by
  intro k q e hq he
  have := (Lib.getElem?_of_le hle he).symm.trans (hreq.getElem? hq)
  exact congrArg LogEntry.term (Option.some.inj this)

theorem not_lastConflicts_of_agree (hes : n.raftLog.Holds es)
    (hagree : Agree es req.prevLogIndex req.entries) : ¬ LastConflicts n.raftLog req := by
  rintro ⟨q, hq, h0, hne⟩
  have hpos : 0 < req.entries.length := List.length_pos_iff.mpr fun h0 => by
    rw [h0] at hq
    exact absurd hq (by simp)
  rw [Option.mem_def, List.getLast?_eq_getElem?] at hq
  obtain ⟨k, hk⟩ : ∃ k, req.entries.length = k + 1 := ⟨req.entries.length - 1, by omega⟩
  rw [hk, Nat.add_sub_cancel] at hq
  rw [hk, ← Nat.add_assoc] at h0 hne
  cases he : es[req.prevLogIndex + k]? with
  | none => exact h0 (hes.termAt_missing (List.getElem?_eq_none_iff.mp he))
  | some e => exact hne ((hes.termAt_taken he).1.trans (hagree k q e hq he))

/-- The first conflict is at the last entry. -/
theorem lastConflicts_of_first (hes : n.raftLog.Holds es) {k : Nat} {q e : LogEntry}
    (hq : req.entries[k]? = some q) (he : es[req.prevLogIndex + k]? = some e)
    (hne : e.term ≠ q.term) (hfirst : Agree es req.prevLogIndex (req.entries.take k))
    (hlast : k + 1 = req.entries.length) :
    LastConflicts n.raftLog req ∧ OnlyLastConflicts n.raftLog req := by
  obtain ⟨hread, htaken⟩ := hes.termAt_taken he
  refine ⟨⟨q, ?_, ?_, ?_⟩, Cluster.onlyLastConflicts_of_agree hes ?_⟩
  · rw [Option.mem_def, List.getLast?_eq_getElem?, ← hlast, Nat.add_sub_cancel]
    exact hq
  · rw [← hlast]
    exact htaken
  · rw [← hlast]
    exact fun h => hne (hread.symm.trans h)
  · rw [List.dropLast_eq_take, ← hlast, Nat.add_sub_cancel]
    exact hfirst

/-- The log cut off at the last entry is part of the leader's. -/
theorem shares_of_lastConflict {n' : RaftNode σ} {rl : RaftLog} (hes : rl.Holds es)
    (hqs : ListedFrom req.prevLogIndex req.entries) (hmatch : Matching es l) (hreq : SliceOf req l)
    (hprev : req.prevLogIndex ≤ es.length ∧ req.prevLogIndex ≤ l.length ∧
      es.take req.prevLogIndex = l.take req.prevLogIndex)
    (hagree : ¬ Agree es req.prevLogIndex req.entries) {k : Nat}
    (hfirst : Agree es req.prevLogIndex (req.entries.take k)) (hlast : k + 1 = req.entries.length)
    (hok : (rl.appendEntries disk req.prevLogIndex 0 req.entries).ok = true)
    (hlog : n'.raftLog = (rl.appendEntries disk req.prevLogIndex 0 req.entries).log) :
    Shares n' l n'.raftLog.lastIndex := by
  have hdrop : Agree es req.prevLogIndex req.entries.dropLast := by
    rw [List.dropLast_eq_take, ← hlast, Nat.add_sub_cancel]
    exact hfirst
  obtain ⟨es', hes', hmerge, _⟩ := appendEntries_merge disk (i := 0) hes hqs hprev.1 hdrop
  replace hmerge : Merge es req.prevLogIndex req.entries es' true := hok ▸ hmerge
  cases hmerge with
  | grown _ _ h _ => exact absurd h hagree
  | cut hlen _ _ _ _ =>
    have hslice := hreq.entries.length_le
    rw [List.length_drop] at hslice
    rw [← hlog] at hes'
    rw [shares_length_iff hes', hmatch.take_eq hprev.2.2 (by omega) (by omega) (by omega) hdrop
      ((List.dropLast_prefix _).trans hreq.entries) (by rw [List.length_dropLast]; omega)]
    exact List.take_prefix _ _

/-- **A follower acknowledges what it shares with the leader exactly when its log is part of the
leader's, or only the last entry of the request conflicts.** For every leader log `l`, every follower
log that matches it, every request cut from `l` and every outcome of the writes with which
`HandleAppendEntries` answers `Success`. -/
theorem acknowledges_shared_iff (hes : n.raftLog.Holds es) (hl : Listed l) (hmatch : Matching es l)
    (hreq : SliceOf req l) (hsucc : (n.handleAppendEntries disk req).2.success = true) :
    Shares (n.handleAppendEntries disk req).1 l (n.handleAppendEntries disk req).2.matchIndex ↔
      es <+: l ∨ LastConflicts n.raftLog req ∧ OnlyLastConflicts n.raftLog req := by
  obtain ⟨m, hm, hprev, hok, hlog, _, _, hack⟩ := handleAppendEntries_success hsucc
  have hmes := hm.holds hes
  have hqs := hreq.listedFrom hl
  have hcheck := (hmes.checkPrev req).mp hprev
  rw [hreq.prevTerm] at hcheck
  obtain ⟨hple, hpl, htake⟩ := hmatch.take_prev hes.listed hl hcheck
  rw [hack]
  by_cases hagree : Agree es req.prevLogIndex req.entries
  · -- nothing conflicts: the log grows within the request, or stays as long as it was
    have hfinal := hmes.appendEntries_agree hqs hple hagree hok
    rw [← hlog] at hfinal
    rw [shares_length_iff hfinal, or_iff_left fun h => not_lastConflicts_of_agree hes hagree h.1]
    exact ⟨(List.prefix_append _ _).trans, prefix_append_slice hreq hple⟩
  · obtain ⟨k, q, e, hq, he, hne, hfirst⟩ := RaftLog.exists_first_conflict hagree
    have hk : k < req.entries.length := (List.getElem?_eq_some_iff.mp hq).1
    by_cases hlast : k + 1 = req.entries.length
    · exact iff_of_true
        (shares_of_lastConflict hmes hqs hmatch hreq ⟨hple, hpl, htake⟩ hagree hfirst hlast hok hlog)
        (Or.inr (lastConflicts_of_first hes hq he hne hfirst hlast))
    · refine iff_of_false (fun hshares => ?_) ?_
      · -- the conflicting index is empty, and the log reaches beyond it
        have hget := hmes.get_appendEntries_conflict (fun j q hq => (hqs j q hq).1) hq he hne hfirst hok
        rw [← hlog] at hget
        have hend : ∃ d, (n.handleAppendEntries disk req).1.raftLog.get
            (req.prevLogIndex + req.entries.length) = some d := by
          rw [hget, if_neg (by omega), if_neg (by omega), show req.prevLogIndex +
            req.entries.length - req.prevLogIndex - 1 = req.entries.length - 1 by omega,
            List.getElem?_eq_getElem (by omega)]
          exact ⟨_, rfl⟩
        obtain ⟨d, hd⟩ := hend
        have hle := RaftLog.le_lastIndex hd
        have hsame := hshares.2 (req.prevLogIndex + k + 1) (by omega) (by omega)
        rw [hget, if_neg (by omega), if_pos rfl, Nat.add_sub_cancel, hreq.getElem? hq] at hsame
        exact absurd hsame (by simp)
      · rintro (hle | ⟨_, honly⟩)
        · exact hagree (hreq.agree hle)
        · refine hne (Cluster.agree_of_onlyLastConflicts hes honly k q e ?_ he)
          rw [List.getElem?_dropLast, if_pos (by omega)]
          exact hq

/-- A leader's log that the follower's is a part of. -/
theorem acknowledges_shared_atEnd :
    Shares (followerOfOne.handleAppendEntries (fun _ => true) (oneEntryAfter 2)).1
      (noopEntries [1, 1, 2])
      (followerOfOne.handleAppendEntries (fun _ => true) (oneEntryAfter 2)).2.matchIndex := by
  have hle : noopEntries [1, 1] <+: noopEntries [1, 1, 2] := ⟨[⟨3, 2, .noop⟩], rfl⟩
  exact (acknowledges_shared_iff (RaftLog.holds_noops (by decide)) (listed_noopEntries (by decide))
    (.of_le hle) ⟨by decide, by decide, List.prefix_refl _⟩ (by decide)).mpr (Or.inl hle)

/-- A heartbeat of a leader of term 2 at index 1. -/
def heartbeatAfterOne : AppendEntriesRequest := ⟨2, Shipped.node1, 1, 1, [], 0⟩

/-- **A heartbeat is acknowledged beyond what is shared.** The logs of leader and follower part after
index 1; the follower answers the heartbeat at index 1 with `MatchIndex = 2`, where it has an entry of
term 1 and the leader one of term 2. -/
theorem heartbeat_overclaims :
    let r := followerOfOne.handleAppendEntries (fun _ => true) heartbeatAfterOne
    Matching (noopEntries [1, 1]) (noopEntries [1, 2]) ∧
      SliceOf heartbeatAfterOne (noopEntries [1, 2]) ∧ r.2.success = true ∧ r.2.matchIndex = 2 ∧
      r.1.raftLog.get 2 = some ⟨2, 1, .noop⟩ ∧ (noopEntries [1, 2])[1]? = some ⟨2, 2, .noop⟩ ∧
      ¬ Shares r.1 (noopEntries [1, 2]) r.2.matchIndex := by
  refine ⟨fun i e e' he he' hterm => ?_, ⟨by decide, by decide, List.nil_prefix⟩, by decide,
    by decide, by decide, by decide, fun h => absurd (h.2 2 (by decide) (by decide)) (by decide)⟩
  match i with
  | 0 => rfl
  | 1 =>
    cases he
    cases he'
    exact absurd hterm (by decide)
  | i + 2 => exact absurd he (by simp [noopEntries])

end Acknowledgements

end RaftNode

end Raftrix
