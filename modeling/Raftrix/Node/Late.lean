import Raftrix.Log.Compacted
import Raftrix.Node.Receiver

/-!
# A late AppendEntries at a compacted follower

A follower that was started at a boundary `(s, t)` has its first `s` entries in the store only. A request
that a leader sent before may still bring some of them, from any `PrevLogIndex` on, `0` included. It must
not put anything at or below the boundary back, and it must not shorten the log (`Unharmed`).

`HandleAppendEntries` takes `TermAt = 0` for "not there yet", which is also the answer for a compacted
index, and it cuts the log before it knows that the entries after the cut can be written.
**`late_request_harmless_iff`**: for every such follower and every request cut from the log the boundary
belongs to, nothing is damaged, whatever the writes do, exactly if an admitted request with entries
starts at the boundary or later and meets no entry of another term (`FitsAbove`).
`late_request_damages` is the first case: one old entry, and `LastIndex()` falls below the boundary.
-/

namespace Raftrix

namespace RaftLog

variable {disk : Disk} {rl rl' : RaftLog} {prev : Nat} {qs : List LogEntry}

/-! ## The loop and the outcomes of its writes -/

/-- The loop looks at the outcomes of its own writes only. -/
theorem appendEntries_congr {disk' : Disk} (prev : Nat) : ∀ (qs : List LogEntry) (i : Nat) (rl : RaftLog),
    (∀ k, i < k → k ≤ i + qs.length → disk k = disk' k) →
    rl.appendEntries disk prev i qs = rl.appendEntries disk' prev i qs
  | [], _, _, _ => rfl
  | q :: qs, i, rl, h => by
    have hnow : disk (i + 1) = disk' (i + 1) := h _ (by omega) (by rw [List.length_cons]; omega)
    have hrest := fun rl' => appendEntries_congr prev qs (i + 1) rl' fun k hk hle =>
      h k (by omega) (by rw [List.length_cons]; omega)
    by_cases h0 : rl.termAt (prev + i + 1) = 0
    · rw [appendEntries_missing h0, appendEntries_missing h0, hnow]
      simp only [hrest]
    · by_cases ht : rl.termAt (prev + i + 1) = q.term
      · rw [appendEntries_skip h0 ht, appendEntries_skip h0 ht, hrest]
      · rw [appendEntries_conflict h0 ht, appendEntries_conflict h0 ht, hnow]
        simp only [hrest]

/-- When no write succeeds the log stays as it is. -/
theorem appendEntries_dead (prev : Nat) : ∀ (qs : List LogEntry) (i : Nat) (rl : RaftLog),
    (∀ k, i < k → disk k = false) → (rl.appendEntries disk prev i qs).log = rl
  | [], _, _, _ => rfl
  | q :: qs, i, rl, h => by
    have hnow : disk (i + 1) = false := h _ (Nat.lt_succ_self i)
    by_cases h0 : rl.termAt (prev + i + 1) = 0
    · rw [appendEntries_missing h0, hnow]
      rfl
    · by_cases ht : rl.termAt (prev + i + 1) = q.term
      · rw [appendEntries_skip h0 ht]
        exact appendEntries_dead prev qs (i + 1) rl fun k hk => h k (by omega)
      · rw [appendEntries_conflict h0 ht, hnow]
        rfl

/-- The entries `as` first, then the rest. -/
theorem log_appendEntries_append (disk : Disk) (prev : Nat) (bs : List LogEntry) :
    ∀ (as : List LogEntry) (i : Nat) (rl : RaftLog), (rl.appendEntries disk prev i as).ok = true →
    (rl.appendEntries disk prev i (as ++ bs)).log =
      ((rl.appendEntries disk prev i as).log.appendEntries disk prev (i + as.length) bs).log
  | [], _, _, _ => rfl
  | q :: as, i, rl, h => by
    rw [List.cons_append, List.length_cons, show i + (as.length + 1) = i + 1 + as.length by omega]
    by_cases h0 : rl.termAt (prev + i + 1) = 0
    · rw [appendEntries_missing h0] at h ⊢
      rw [appendEntries_missing h0]
      cases ha : rl.append (disk (i + 1)) q with
      | none =>
        rw [ha] at h
        exact absurd h (by simp)
      | some rl' =>
        rw [ha] at h
        exact log_appendEntries_append disk prev bs as (i + 1) rl' h
    · by_cases ht : rl.termAt (prev + i + 1) = q.term
      · rw [appendEntries_skip h0 ht] at h ⊢
        rw [appendEntries_skip h0 ht]
        exact log_appendEntries_append disk prev bs as (i + 1) rl h
      · rw [appendEntries_conflict h0 ht] at h ⊢
        rw [appendEntries_conflict h0 ht]
        cases htr : rl.truncateFrom (disk (i + 1)) (prev + i + 1) with
        | none =>
          rw [htr] at h
          exact absurd h (by simp)
        | some rl' =>
          rw [htr] at h
          exact log_appendEntries_append disk prev bs as (i + 1) rl' h

/-- **A crash of the disk after `c` entries** leaves what these have made of the log. -/
theorem log_appendEntries_upTo (prev c : Nat) (qs : List LogEntry) (rl : RaftLog) :
    (rl.appendEntries (fun k => decide (k ≤ c)) prev 0 qs).log =
      (rl.appendEntries (fun _ => true) prev 0 (qs.take c)).log := by
  have hlen : (qs.take c).length ≤ c := List.length_take_le c qs
  have hfirst : rl.appendEntries (fun k => decide (k ≤ c)) prev 0 (qs.take c) =
      rl.appendEntries (fun _ => true) prev 0 (qs.take c) :=
    appendEntries_congr prev _ _ _ fun k _ hk => by simp only [decide_eq_true_eq]; omega
  have hok := appendEntries_ok (fun _ : Nat => rfl) prev (qs.take c) 0 rl
  rw [← hfirst] at hok
  have hsplit := log_appendEntries_append _ prev (qs.drop c) _ _ _ hok
  rw [List.take_append_drop, hfirst, Nat.zero_add] at hsplit
  rw [hsplit]
  by_cases hc : c ≤ qs.length
  · refine appendEntries_dead prev _ _ _ fun k hk => ?_
    rw [List.length_take, Nat.min_eq_left hc] at hk
    simp only [decide_eq_false_iff_not]
    omega
  · rw [List.drop_eq_nil_of_le (by omega)]
    rfl

/-! ## What the loop does to a compacted log -/

/-- Nothing is stored at or below the boundary, and the log has not become shorter. -/
structure Unharmed (rl rl' : RaftLog) : Prop where
  gone : ∀ k ≤ rl.snapshotIndex, rl'.get k = none
  last : rl.lastIndex ≤ rl'.lastIndex
  boundary : rl.snapshotIndex ≤ rl'.lastIndex

/-- The request starts at the boundary or later, and no entry of it meets one of another term. -/
def FitsAbove (rl : RaftLog) (prev : Nat) (qs : List LogEntry) : Prop :=
  (qs ≠ [] → rl.snapshotIndex ≤ prev + 1) ∧
    ∀ j q, qs[j]? = some q → ¬ Conflicts rl (prev + j + 1) q

theorem Unharmed.of_get (h : rl.Contiguous) (hget : rl'.get = rl.get)
    (hlast : rl'.lastIndex = rl.lastIndex) : Unharmed rl rl' := by
  refine ⟨fun k hk => ?_, hlast.ge, ?_⟩
  · rw [hget]
    exact h.get_of_le hk
  · rw [hlast]
    exact h.snapshotIndex_le

/-- **A request that fits does no harm**, whatever its writes do. -/
theorem Unharmed.appendEntries (h : rl.Contiguous) (hknown : rl.termAt rl.snapshotIndex ≠ 0)
    (hidx : Indexed prev qs) (hfits : FitsAbove rl prev qs) (disk : Disk) :
    Unharmed rl (rl.appendEntries disk prev 0 qs).log := by
  -- the log above the entries that are done is the old one
  have hrun := appendEntries_rounds disk prev qs (P := fun j m =>
    m.snapshotIndex = rl.snapshotIndex ∧ Unharmed rl m ∧ ∀ k, prev + j < k → m.termAt k = rl.termAt k)
    ⟨rfl, .of_get h rfl rfl, fun _ _ => rfl⟩ ?_
  · obtain ⟨_, _, ⟨_, hunharmed, _⟩, _⟩ := hrun
    exact hunharmed
  · rintro j q m m' hq ⟨hcached, hm, hterm⟩ hr
    have hindex := hidx j q hq
    have hlow := hfits.1 (List.ne_nil_of_mem (List.mem_of_getElem? hq))
    have hhead := hterm (prev + j + 1) (Nat.lt_succ_self _)
    cases hr with
    | skipped _ _ => exact ⟨hcached, hm, fun k hk => hterm k (by omega)⟩
    | appended h0 ha =>
      -- the boundary has a term, so the new entry is above it
      have habove : rl.snapshotIndex < q.index := by
        have hne : prev + j + 1 ≠ rl.snapshotIndex := fun heq => by
          rw [heq] at hhead h0
          exact hknown (hhead.symm.trans h0)
        omega
      have hlast := (lastIndex_append_le (fun _ => by omega) ha).1
      refine ⟨(boundary_append ha).2.trans hcached, ⟨fun k hk => ?_, hm.last.trans hlast,
        hm.boundary.trans hlast⟩, fun k hk => ?_⟩
      · rw [get_append ha, if_neg (by omega)]
        exact hm.gone k hk
      · exact (termAt_append ha (by omega)).trans (hterm k (by omega))
    | cut h0 ht _ =>
      rw [hhead] at h0 ht
      exact absurd ⟨h0, ht⟩ (hfits.2 j q hq)

/-- **An entry below the boundary is put back.** -/
theorem get_appendEntries_below (h : rl.Contiguous) (hidx : Indexed prev qs) (hne : qs ≠ [])
    (hlow : prev + 1 < rl.snapshotIndex) :
    ((rl.appendEntries (fun _ => true) prev 0 qs).log.get (prev + 1)).isSome = true := by
  have hmissing : rl.termAt (prev + 1) = 0 := by
    rw [RaftLog.termAt, if_neg (by omega), if_neg (by omega), h.get_of_le (Nat.le_of_lt hlow)]
  -- the first round stores it and the later ones work above it
  have hrun := appendEntries_rounds (fun _ => true) prev qs (P := fun j m =>
    (j = 0 → m = rl) ∧ (0 < j → (m.get (prev + 1)).isSome = true))
    ⟨fun _ => rfl, fun hj => absurd hj (lt_irrefl 0)⟩ ?_
  · obtain ⟨j, _, ⟨_, hstored⟩, hall⟩ := hrun
    rw [hall (appendEntries_ok (fun _ => rfl) prev qs 0 rl)] at hstored
    exact hstored (List.length_pos_iff.mpr hne)
  · rintro j q m m' hq ⟨hstart, hstored⟩ hr
    refine ⟨fun hj => absurd hj (by omega), fun _ => ?_⟩
    have hindex := hidx j q hq
    rcases Nat.eq_zero_or_pos j with rfl | hj
    · obtain rfl := hstart rfl
      cases hr with
      | skipped h0 _ => exact absurd hmissing h0
      | appended _ ha =>
        rw [get_append ha, if_pos (by omega)]
        rfl
      | cut h0 _ _ => exact absurd hmissing h0
    · have hsome := hstored hj
      cases hr with
      | skipped _ _ => exact hsome
      | appended _ ha =>
        rw [get_append ha]
        split
        · rfl
        · exact hsome
      | cut _ _ htr =>
        rw [get_truncateFrom htr, if_pos (by omega)]
        exact hsome

/-- **The first conflict cuts the log**: after its round nothing is stored from its index on. -/
theorem get_appendEntries_cut (hidx : Indexed prev qs) {c : Nat} {q : LogEntry} (hq : qs[c]? = some q)
    (hconf : Conflicts rl (prev + c + 1) q)
    (hfirst : ∀ j r, j < c → qs[j]? = some r → ¬ Conflicts rl (prev + j + 1) r) {k : Nat}
    (hk : prev + c < k) :
    (rl.appendEntries (fun _ => true) prev 0 (qs.take (c + 1))).log.get k = none := by
  have hlt : c < qs.length := (List.getElem?_eq_some_iff.mp hq).1
  have hrun := appendEntries_rounds (fun _ => true) prev (qs.take (c + 1)) (P := fun j (m : RaftLog) =>
    (j ≤ c → ∀ k, prev + j < k → m.termAt k = rl.termAt k) ∧
      (j = c + 1 → ∀ k, prev + c < k → m.get k = none))
    ⟨fun _ _ _ => rfl, fun hj => absurd hj (by omega)⟩ ?_
  · obtain ⟨j, _, ⟨_, hgone⟩, hall⟩ := hrun
    rw [hall (appendEntries_ok (fun _ => rfl) prev _ 0 rl), List.length_take] at hgone
    exact hgone (by omega) k hk
  · rintro j r m m' hr ⟨hterm, _⟩ hround
    rw [List.getElem?_take] at hr
    split at hr
    · rename_i hj
      have hhead := hterm (by omega) (prev + j + 1) (Nat.lt_succ_self _)
      have hindex := hidx j r hr
      rcases Nat.lt_succ_iff_lt_or_eq.mp hj with hjc | rfl
      · -- an earlier round appends or skips
        refine ⟨fun _ k hk => ?_, fun hj' => absurd hj' (by omega)⟩
        cases hround with
        | skipped _ _ => exact hterm (by omega) k (by omega)
        | appended _ ha => exact (termAt_append ha (by omega)).trans (hterm (by omega) k (by omega))
        | cut h0 ht _ =>
          rw [hhead] at h0 ht
          exact absurd ⟨h0, ht⟩ (hfirst j r hjc hr)
      · refine ⟨fun hj' => absurd hj' (by omega), fun _ k hk => ?_⟩
        obtain rfl := Option.some.inj (hq.symm.trans hr)
        rw [Conflicts, ← hhead] at hconf
        cases hround with
        | skipped _ ht => exact absurd ht hconf.2
        | appended h0 _ => exact absurd h0 hconf.1
        | cut _ _ htr => rw [get_truncateFrom htr, if_neg (by omega)]
    · exact absurd hr (by simp)

/-- **A conflict above the boundary shortens the log** if the disk fails right after the cut. -/
theorem lastIndex_appendEntries_cut (hidx : Indexed prev qs) {c : Nat} {q : LogEntry}
    (hq : qs[c]? = some q) (hconf : Conflicts rl (prev + c + 1) q)
    (hfirst : ∀ j r, j < c → qs[j]? = some r → ¬ Conflicts rl (prev + j + 1) r)
    (habove : rl.snapshotIndex < prev + c + 1) :
    (rl.appendEntries (fun k => decide (k ≤ c + 1)) prev 0 qs).log.lastIndex < rl.lastIndex := by
  rw [log_appendEntries_upTo]
  have hgone := fun k hk => get_appendEntries_cut hidx hq hconf hfirst (k := k) hk
  have hcached : (rl.appendEntries (fun _ => true) prev 0 (qs.take (c + 1))).log.snapshotIndex =
      rl.snapshotIndex := (SameBounds.appendEntries _ _ _).indices.2
  generalize (rl.appendEntries (fun _ => true) prev 0 (qs.take (c + 1))).log = m at hgone hcached ⊢
  obtain ⟨e, he, _⟩ := get_of_termAt habove hconf.1
  have hreach := le_lastIndex he
  rcases get_lastIndex m with ⟨d, hd⟩ | ⟨_, hempty⟩
  · by_contra hge
    rw [hgone _ (by omega)] at hd
    exact absurd hd (by simp)
  · rw [hempty, hcached]
    omega

end RaftLog

namespace RaftNode

variable {σ : Type} {n m : RaftNode σ} {req : AppendEntriesRequest} {l : List LogEntry} {disk : Disk}

/-! ## The handler -/

/-- The log after `HandleAppendEntries`: that of the loop for an admitted request, and else one with the
same entries. -/
theorem log_handleAppendEntries (disk : Disk) (n : RaftNode σ) (req : AppendEntriesRequest) :
    (n.Admits req ∧ ∃ m, Cluster.Joins (disk 0) n req.term m ∧
      (n.handleAppendEntries disk req).1.raftLog =
        (m.raftLog.appendEntries disk req.prevLogIndex 0 req.entries).log) ∨
    (¬ n.Admits req ∧ (n.handleAppendEntries disk req).1.raftLog.get = n.raftLog.get ∧
      (n.handleAppendEntries disk req).1.raftLog.lastIndex = n.raftLog.lastIndex) := by
  have hr := received disk n req
  generalize n.handleAppendEntries disk req = r at hr ⊢
  cases hr with
  | stale h => exact Or.inr ⟨fun hadm => absurd hadm.1 (Nat.not_le.mpr h), rfl, rfl⟩
  | rejected hm hprev =>
    refine Or.inr ⟨fun hadm => ?_, hm.get, hm.lastIndex⟩
    rw [hadm.2] at hprev
    exact absurd hprev (by simp)
  | failed hm hprev _ => exact Or.inl ⟨⟨hm.le, hprev⟩, _, hm, rfl⟩
  | done hm hprev _ => exact Or.inl ⟨⟨hm.le, hprev⟩, _, hm, raftLog_advanceCommit _ _⟩

/-- The log was compacted up to an entry of `l` and holds what followed. -/
structure CompactedFrom (rl : RaftLog) (l : List LogEntry) : Prop where
  contiguous : rl.Contiguous
  pos : 1 ≤ rl.snapshotIndex
  within : rl.snapshotIndex ≤ l.length
  term : rl.snapshotTerm = termOf l rl.snapshotIndex

theorem CompactedFrom.joins {written : Bool} {term : Nat} (h : CompactedFrom n.raftLog l)
    (hm : Cluster.Joins written n term m) : CompactedFrom m.raftLog l := by
  obtain ⟨hindex, hterm, _⟩ := hm.boundary
  refine ⟨⟨fun k e he => ?_, fun k hk hle => ?_⟩, ?_, ?_, ?_⟩
  · rw [hm.get] at he
    rw [hindex]
    exact h.contiguous.above k e he
  · rw [hindex] at hk
    rw [hm.lastIndex] at hle
    rw [hm.get]
    exact h.contiguous.filled k hk hle
  · rw [hindex]
    exact h.pos
  · rw [hindex]
    exact h.within
  · rw [hindex, hterm]
    exact h.term

theorem CompactedFrom.termAt_boundary {rl : RaftLog} (h : CompactedFrom rl l) :
    rl.termAt rl.snapshotIndex = termOf l rl.snapshotIndex := by
  have := h.pos
  rw [RaftLog.termAt, if_neg (by omega), if_pos rfl, h.term]

theorem CompactedFrom.termAt_ne_zero {rl : RaftLog} (h : CompactedFrom rl l) (hl : Listed l) :
    rl.termAt rl.snapshotIndex ≠ 0 := by
  have hpos := h.pos
  have hwithin := h.within
  rw [h.termAt_boundary, Ne, termOf_pos hl]
  omega

theorem conflicts_joins {written : Bool} {term : Nat} (hm : Cluster.Joins written n term m) {k : Nat}
    {q : LogEntry} : Conflicts m.raftLog k q ↔ Conflicts n.raftLog k q := by
  rw [Conflicts, Conflicts, hm.termAt]

/-- An entry of `l` conflicts with the log above the boundary only. -/
theorem CompactedFrom.conflict_above {rl : RaftLog} (h : CompactedFrom rl l) {k : Nat} {q : LogEntry}
    (hq : l[k]? = some q) (hconf : Conflicts rl (k + 1) q) : rl.snapshotIndex < k + 1 := by
  by_contra hle
  obtain ⟨h0, ht⟩ := hconf
  by_cases hk : k + 1 = rl.snapshotIndex
  · refine ht ?_
    rw [hk, h.termAt_boundary, ← hk, termOf_eq hq]
  · refine h0 ?_
    rw [RaftLog.termAt, if_neg (by omega), if_neg hk, h.contiguous.get_of_le (by omega)]

/-- A request that fits does no harm. -/
theorem unharmed_of_fitsAbove (hl : Listed l) (hc : CompactedFrom n.raftLog l) (hreq : SliceOf req l)
    (h : n.Admits req → n.raftLog.FitsAbove req.prevLogIndex req.entries) (disk : Disk) :
    (n.raftLog).Unharmed (n.handleAppendEntries disk req).1.raftLog := by
  rcases log_handleAppendEntries disk n req with ⟨hadm, m, hm, hlog⟩ | ⟨_, hget, hlast⟩
  · obtain ⟨hlow, hagree⟩ := h hadm
    have hm' := hc.joins hm
    have hunharmed := RaftLog.Unharmed.appendEntries hm'.contiguous (hm'.termAt_ne_zero hl)
      (fun j q hq => (hreq.listedFrom hl j q hq).1)
      ⟨fun hne => by rw [hm.boundary.1]; exact hlow hne,
        fun j q hq hcf => hagree j q hq ((conflicts_joins hm).mp hcf)⟩ disk
    rw [hlog]
    refine ⟨fun k hk => hunharmed.gone k (by rw [hm.boundary.1]; exact hk), ?_, ?_⟩
    · rw [← hm.lastIndex]
      exact hunharmed.last
    · rw [← hm.boundary.1]
      exact hunharmed.boundary
  · exact .of_get hc.contiguous hget hlast

/-- A request that does not fit does harm with some outcome of the writes: if all succeed, or if they
fail after the first cut. -/
theorem fitsAbove_of_unharmed (hl : Listed l) (hc : CompactedFrom n.raftLog l) (hreq : SliceOf req l)
    (h : ∀ disk, (n.raftLog).Unharmed (n.handleAppendEntries disk req).1.raftLog)
    (hadm : n.Admits req) : n.raftLog.FitsAbove req.prevLogIndex req.entries := by
  have hidx : RaftLog.Indexed req.prevLogIndex req.entries := fun j q hq =>
    (hreq.listedFrom hl j q hq).1
  -- the log the writes leave, up to `SaveMeta`
  have hloop : ∀ disk : Disk, ∃ m, Cluster.Joins (disk 0) n req.term m ∧ (n.raftLog).Unharmed
      (m.raftLog.appendEntries disk req.prevLogIndex 0 req.entries).log := by
    intro disk
    rcases log_handleAppendEntries disk n req with ⟨_, m, hm, hlog⟩ | ⟨hno, _⟩
    · exact ⟨m, hm, hlog ▸ h disk⟩
    · exact absurd hadm hno
  refine ⟨fun hne => ?_, fun j q hq hconf => ?_⟩
  · by_contra hlow
    obtain ⟨m, hm, hunharmed⟩ := hloop fun _ => true
    have hstored := RaftLog.get_appendEntries_below (hc.joins hm).contiguous hidx hne
      (by rw [hm.boundary.1]; omega)
    rw [hunharmed.gone _ (by omega)] at hstored
    exact absurd hstored (by simp)
  · -- the first conflict, and a disk that fails after its cut
    classical
    have hex : ∃ j q, req.entries[j]? = some q ∧ Conflicts n.raftLog (req.prevLogIndex + j + 1) q :=
      ⟨j, q, hq, hconf⟩
    obtain ⟨r, hr, hconf'⟩ := Nat.find_spec hex
    have hfirst : ∀ i p, i < Nat.find hex → req.entries[i]? = some p →
        ¬ Conflicts n.raftLog (req.prevLogIndex + i + 1) p :=
      fun i p hi hp hcf => Nat.find_min hex hi ⟨p, hp, hcf⟩
    obtain ⟨m, hm, hunharmed⟩ := hloop fun k => decide (k ≤ Nat.find hex + 1)
    have habove := hc.conflict_above (hreq.getElem? hr) hconf'
    have hcut := RaftLog.lastIndex_appendEntries_cut hidx hr ((conflicts_joins hm).mpr hconf')
      (fun i p hi hp hcf => hfirst i p hi hp ((conflicts_joins hm).mp hcf))
      (by rw [hm.boundary.1]; exact habove)
    rw [hm.lastIndex] at hcut
    exact absurd hunharmed.last (Nat.not_le.mpr hcut)

/-- **A late AppendEntries does no damage exactly if it fits above the boundary.** For every follower
whose log was compacted up to an entry of the leader's log, and every request cut from that log: whatever
the writes do, nothing is stored at or below the boundary and `LastIndex()` does not go down, if and only
if the request, when it is admitted, `FitsAbove` the boundary. -/
theorem late_request_harmless_iff (hl : Listed l) (hc : CompactedFrom n.raftLog l)
    (hreq : SliceOf req l) :
    (∀ disk, (n.raftLog).Unharmed (n.handleAppendEntries disk req).1.raftLog) ↔
      (n.Admits req → n.raftLog.FitsAbove req.prevLogIndex req.entries) :=
  ⟨fitsAbove_of_unharmed hl hc hreq, unharmed_of_fitsAbove hl hc hreq⟩

/-- A follower of term 3 with the given log. -/
def followerWith (rl : RaftLog) : RaftNode BoltEngine :=
  { Shipped.start.node Shipped.node2 with currentTerm := 3, raftLog := rl }

/-- The entry after the end of `afterThree`. -/
def sixthEntry : AppendEntriesRequest := ⟨3, Shipped.node1, 5, 3, [⟨6, 3, .noop⟩], 0⟩

theorem late_request_harmless_sixthEntry :
    CompactedFrom RaftLog.afterThree (noopEntries [1, 1, 2, 2, 3, 3]) ∧
      (followerWith .afterThree).Admits sixthEntry ∧
      ∀ disk, RaftLog.afterThree.Unharmed
        ((followerWith .afterThree).handleAppendEntries disk sixthEntry).1.raftLog := by
  have hc : CompactedFrom RaftLog.afterThree (noopEntries [1, 1, 2, 2, 3, 3]) :=
    ⟨RaftLog.contiguous_afterThree, by decide, by decide, by decide⟩
  have hreq : SliceOf sixthEntry (noopEntries [1, 1, 2, 2, 3, 3]) :=
    ⟨by decide, by decide, List.prefix_refl _⟩
  refine ⟨hc, by decide, (late_request_harmless_iff (n := followerWith .afterThree)
    (listed_noopEntries (by decide)) hc hreq).mpr fun _ => ⟨fun _ => by decide, fun j q hq => ?_⟩⟩
  cases j with
  | zero =>
    cases hq
    decide
  | succ j => exact absurd hq (by simp [sixthEntry])

/-- A log that was opened at the boundary `(3, 2)` and is empty. -/
def atThree : RaftLog := ⟨.empty, none, some (3, 2), 3, 2⟩

/-- The first entry of the log, sent before the others. -/
def firstEntry : AppendEntriesRequest := ⟨3, Shipped.node1, 0, 0, [⟨1, 1, .noop⟩], 0⟩

/-- **A late first entry damages the log.** It is stored below the boundary, and `LastIndex()` goes from 3
to 1. -/
theorem late_request_damages :
    let rl' := ((followerWith atThree).handleAppendEntries (fun _ => true) firstEntry).1.raftLog
    CompactedFrom atThree (noopEntries [1, 1, 2]) ∧ SliceOf firstEntry (noopEntries [1, 1, 2]) ∧
      atThree.lastIndex = 3 ∧ rl'.get 1 = some ⟨1, 1, .noop⟩ ∧ rl'.lastIndex = 1 ∧
      ¬ atThree.Unharmed rl' := by
  have hnone : ∀ k, atThree.get k = none := fun _ => rfl
  refine ⟨⟨⟨fun k e he => ?_, fun k hk hle => ?_⟩, by decide, by decide, by decide⟩,
    ⟨by decide, by decide, by decide⟩, rfl, by decide, by decide, fun h => ?_⟩
  · rw [hnone] at he
    exact absurd he (by simp)
  · exact absurd hle (Nat.not_le.mpr hk)
  · exact absurd h.last (by decide)

end RaftNode

end Raftrix
