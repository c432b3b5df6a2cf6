import Raftrix.Log.Leader
import Raftrix.Log.Stored

/-!
# The snapshot boundary of a log and the entries above it

A log has two boundaries: the one recorded on disk (`boundary`), which `Compact` moves, and the cached
`snapshotIndex`, which is what `LastIndex()` falls back on and which only a restart brings up to date.

`Solid` is the shape of a log whose bucket has no hole above the recorded boundary and nothing at or
below it. Appending, truncating, compacting and the loop of `HandleAppendEntries` keep it, each under
its own condition on where it starts.

`Keeps rl c index` says that the log still reaches up to `c` when it is cut at `index`. It is what keeps
`LastIndex()` from falling below `c` in the loop of `HandleAppendEntries` (`le_lastIndex_appendEntries`).
-/

namespace Raftrix

/-- The log has an entry of another term than `q` at `index`. -/
def Conflicts (rl : RaftLog) (index : Nat) (q : LogEntry) : Prop :=
  rl.termAt index ≠ 0 ∧ rl.termAt index ≠ q.term

instance (rl : RaftLog) (index : Nat) (q : LogEntry) : Decidable (Conflicts rl index q) :=
  inferInstanceAs (Decidable (_ ∧ _))

namespace RaftLog

variable {rl rl' : RaftLog} {written : Bool} {index term : Nat}

/-- The recorded snapshot boundary; `0` before the first compaction. -/
def boundary (rl : RaftLog) : Nat := (rl.metaSnapshot.getD (0, 0)).1

/-- The recorded boundary with its term. -/
def recorded (rl : RaftLog) : Nat × Nat := rl.metaSnapshot.getD (0, 0)

/-- The cached boundary with its term. -/
def cached (rl : RaftLog) : Nat × Nat := (rl.snapshotIndex, rl.snapshotTerm)

/-- Both boundaries are the same. -/
structure SameBounds (rl rl' : RaftLog) : Prop where
  recorded : rl'.recorded = rl.recorded
  cached : rl'.cached = rl.cached

namespace SameBounds

theorem refl (rl : RaftLog) : SameBounds rl rl := ⟨rfl, rfl⟩

theorem trans {rl'' : RaftLog} (h : SameBounds rl rl') (h' : SameBounds rl' rl'') :
    SameBounds rl rl'' :=
  ⟨h'.recorded.trans h.recorded, h'.cached.trans h.cached⟩

theorem indices (h : SameBounds rl rl') :
    rl'.boundary = rl.boundary ∧ rl'.snapshotIndex = rl.snapshotIndex :=
  ⟨congrArg Prod.fst h.recorded, congrArg Prod.fst h.cached⟩

theorem saveMeta (written : Bool) (term : Nat) (vote : NodeID) :
    SameBounds rl (rl.saveMeta written term vote) := by
  cases written <;> exact ⟨rfl, rfl⟩

/-- `Append` leaves both boundaries alone. -/
theorem append {e : LogEntry} (h : rl.append written e = some rl') : SameBounds rl rl' := by
  unfold RaftLog.append at h
  split at h
  · cases h
    exact ⟨rfl, rfl⟩
  · cases h

/-- So does `TruncateFrom`. -/
theorem truncateFrom (h : rl.truncateFrom written index = some rl') : SameBounds rl rl' := by
  unfold RaftLog.truncateFrom at h
  split at h
  · cases h
    exact ⟨rfl, rfl⟩
  · cases h

theorem round {q : LogEntry} (h : Round rl index q rl') : SameBounds rl rl' := by
  cases h with
  | skipped _ _ => exact .refl rl
  | appended _ ha => exact .append ha
  | cut _ _ htr => exact .truncateFrom htr

theorem appendEntries (disk : Disk) (prev : Nat) (qs : List LogEntry) :
    SameBounds rl (rl.appendEntries disk prev 0 qs).log := by
  obtain ⟨_, _, hsame, _⟩ := appendEntries_rounds disk prev qs
    (P := fun _ m => SameBounds rl m) (.refl rl) fun _ _ _ _ _ hm hr => hm.trans (.round hr)
  exact hsame

end SameBounds

theorem boundary_saveMeta (written : Bool) (term : Nat) (vote : NodeID) :
    (rl.saveMeta written term vote).boundary = rl.boundary :=
  (SameBounds.saveMeta written term vote).indices.1

theorem snapshotIndex_saveMeta (written : Bool) (term : Nat) (vote : NodeID) :
    (rl.saveMeta written term vote).snapshotIndex = rl.snapshotIndex :=
  (SameBounds.saveMeta written term vote).indices.2

theorem boundary_append {e : LogEntry} (h : rl.append written e = some rl') :
    rl'.boundary = rl.boundary ∧ rl'.snapshotIndex = rl.snapshotIndex :=
  (SameBounds.append h).indices

theorem boundary_truncateFrom (h : rl.truncateFrom written index = some rl') :
    rl'.boundary = rl.boundary ∧ rl'.snapshotIndex = rl.snapshotIndex :=
  (SameBounds.truncateFrom h).indices

theorem Round.boundary {q : LogEntry} (h : Round rl index q rl') :
    rl'.boundary = rl.boundary ∧ rl'.snapshotIndex = rl.snapshotIndex :=
  (SameBounds.round h).indices

/-- `Compact` moves the recorded boundary only. -/
theorem bounds_compact (h : rl.compact written index term = some rl') :
    rl'.recorded = (index, term) ∧ rl'.cached = rl.cached := by
  unfold compact at h
  split at h
  · cases h
    exact ⟨rfl, rfl⟩
  · cases h

theorem boundary_compact (h : rl.compact written index term = some rl') : rl'.boundary = index :=
  congrArg Prod.fst (bounds_compact h).1

/-- A restart caches the recorded boundary. -/
theorem bounds_newRaftLog (rl : RaftLog) :
    rl.newRaftLog.recorded = rl.recorded ∧ rl.newRaftLog.cached = rl.recorded := by
  unfold newRaftLog recorded cached
  split <;> rename_i h <;> rw [h] <;> exact ⟨rfl, rfl⟩

theorem boundary_newRaftLog : rl.newRaftLog.boundary = rl.boundary :=
  congrArg Prod.fst rl.bounds_newRaftLog.1

theorem snapshotIndex_newRaftLog : rl.newRaftLog.snapshotIndex = rl.boundary :=
  congrArg Prod.fst rl.bounds_newRaftLog.2

/-! ## Logs without a hole above the boundary -/

/-- The bucket is empty, or its first entry is the one right after the recorded boundary. -/
def StartsAtBoundary (rl : RaftLog) : Prop :=
  (∀ k, rl.get k = none) ∨
    (rl.get (rl.boundary + 1)).isSome = true ∧ ∀ k ≤ rl.boundary, rl.get k = none

/-- Everything between the recorded boundary and `k` is stored. -/
def FilledTo (rl : RaftLog) (k : Nat) : Prop :=
  ∀ j, rl.boundary < j → j ≤ k → (rl.get j).isSome = true

/-- The bucket has no hole above the recorded boundary and nothing at or below it. -/
structure Solid (rl : RaftLog) : Prop where
  cached : rl.snapshotIndex ≤ rl.boundary
  above : ∀ k, (rl.get k).isSome = true → rl.boundary < k
  filled : ∀ k, (rl.get k).isSome = true → rl.FilledTo k

theorem Solid.fresh : RaftLog.fresh.Solid :=
  ⟨le_refl _, fun k hk => absurd hk (by simp [get, RaftLog.fresh]),
    fun k hk => absurd hk (by simp [get, RaftLog.fresh])⟩

/-- What is at or below the boundary is gone. -/
theorem Solid.get_of_le (h : rl.Solid) {k : Nat} (hk : k ≤ rl.boundary) : rl.get k = none := by
  cases hget : rl.get k with
  | none => rfl
  | some e => exact absurd (h.above k (by rw [hget]; rfl)) (Nat.not_lt.mpr hk)

theorem Solid.startsAtBoundary (h : rl.Solid) : rl.StartsAtBoundary := by
  by_cases hempty : ∀ k, rl.get k = none
  · exact Or.inl hempty
  · obtain ⟨k, hk⟩ := not_forall.mp hempty
    have hsome : (rl.get k).isSome = true := Option.isSome_iff_ne_none.mpr hk
    exact Or.inr ⟨h.filled k hsome _ (Nat.lt_succ_self _) (h.above k hsome),
      fun j hj => h.get_of_le (by omega)⟩

theorem Solid.get_boundary (h : rl.Solid) : rl.get rl.boundary = none := h.get_of_le (le_refl _)

/-- The term at a boundary that is not the cached one is not known. -/
theorem Solid.termAt_boundary (h : rl.Solid) (hne : rl.snapshotIndex ≠ rl.boundary) :
    rl.termAt rl.boundary = 0 := by
  rw [termAt]
  split
  · rfl
  · rw [if_neg hne.symm, h.get_boundary]

/-- The log of a `Solid` file is filled up to `LastIndex()`. -/
theorem Solid.filledTo (h : rl.Solid) {k : Nat} (hk : k ≤ rl.lastIndex) : rl.FilledTo k := by
  intro j hj hjk
  rcases get_lastIndex rl with ⟨e, he⟩ | ⟨_, hlast⟩
  · exact h.filled _ (by rw [he]; rfl) j hj (hjk.trans hk)
  · have := h.cached
    omega

theorem Solid.congr (h : rl.Solid) (hget : rl'.get = rl.get) (hb : rl'.boundary = rl.boundary)
    (hcached : rl'.snapshotIndex ≤ rl.boundary) : rl'.Solid := by
  refine ⟨by rw [hb]; exact hcached, fun k hk => ?_, fun k hk j hj hjk => ?_⟩
  · rw [hget] at hk
    rw [hb]
    exact h.above k hk
  · rw [hget] at hk ⊢
    rw [hb] at hj
    exact h.filled k hk j hj hjk

theorem Solid.saveMeta (h : rl.Solid) (written : Bool) (term : Nat) (vote : NodeID) :
    (rl.saveMeta written term vote).Solid :=
  h.congr (get_saveMeta term vote) (boundary_saveMeta written term vote)
    ((snapshotIndex_saveMeta written term vote).trans_le h.cached)

theorem Solid.newRaftLog (h : rl.Solid) : rl.newRaftLog.Solid :=
  h.congr get_newRaftLog boundary_newRaftLog snapshotIndex_newRaftLog.le

/-- An append right above a stretch that is filled. -/
theorem Solid.append (h : rl.Solid) {e : LogEntry} {p : Nat} (hidx : e.index = p + 1)
    (hp : rl.boundary ≤ p) (hfilled : rl.FilledTo p) (ha : rl.append written e = some rl') :
    rl'.Solid ∧ rl'.FilledTo (p + 1) := by
  obtain ⟨hb, hcached⟩ := boundary_append ha
  have hget := get_append ha
  have hnew : rl'.FilledTo (p + 1) := by
    intro j hj hjp
    rw [hb] at hj
    rw [hget]
    split
    · rfl
    · exact hfilled j hj (by omega)
  refine ⟨⟨by rw [hb, hcached]; exact h.cached, fun k hk => ?_, fun k hk j hj hjk => ?_⟩, hnew⟩
  · rw [hget] at hk
    rw [hb]
    split at hk
    · omega
    · exact h.above k hk
  · by_cases hkp : k ≤ p + 1
    · exact hnew j hj (hjk.trans hkp)
    · rw [hget, if_neg (by omega)] at hk
      rw [hb] at hj
      rw [hget]
      split
      · rfl
      · exact h.filled k hk j hj hjk

theorem Solid.truncateFrom (h : rl.Solid) (ht : rl.truncateFrom written index = some rl') :
    rl'.Solid := by
  obtain ⟨hb, hcached⟩ := boundary_truncateFrom ht
  have hget := get_truncateFrom ht
  refine ⟨by rw [hb, hcached]; exact h.cached, fun k hk => ?_, fun k hk j hj hjk => ?_⟩
  · rw [hget] at hk
    rw [hb]
    split at hk
    · exact h.above k hk
    · exact absurd hk (by simp)
  · rw [hget] at hk ⊢
    rw [hb] at hj
    split at hk
    · rw [if_pos (by omega)]
      exact h.filled k hk j hj hjk
    · exact absurd hk (by simp)

/-- A compaction that does not move the boundary back. -/
theorem Solid.compact (h : rl.Solid) (hb : rl.boundary ≤ index)
    (hc : rl.compact written index term = some rl') : rl'.Solid := by
  have hnew := boundary_compact hc
  have hget := get_compact hc
  refine ⟨by rw [hnew, (cached_compact hc).1]; exact h.cached.trans hb, fun k hk => ?_,
    fun k hk j hj hjk => ?_⟩
  · rw [hget] at hk
    rw [hnew]
    split at hk
    · assumption
    · exact absurd hk (by simp)
  · rw [hget] at hk ⊢
    rw [hnew] at hj
    split at hk
    · rw [if_pos hj]
      exact h.filled k hk j (by omega) hjk
    · exact absurd hk (by simp)

/-- **The loop of `HandleAppendEntries` leaves no hole** if it starts at or above the recorded boundary
and at most its last entry conflicts. -/
theorem Solid.appendEntries (h : rl.Solid) (disk : Disk) {prev : Nat} {qs : List LogEntry}
    (hprev : prev ≤ rl.lastIndex) (hb : qs ≠ [] → rl.boundary ≤ prev)
    (hidx : Indexed prev qs)
    (hlast : ∀ j q, j + 1 < qs.length → qs[j]? = some q → ¬ Conflicts rl (prev + j + 1) q) :
    (rl.appendEntries disk prev 0 qs).log.Solid ∧
      (rl.appendEntries disk prev 0 qs).log.boundary = rl.boundary := by
  -- before each round the log is filled up to its entry and unchanged from there on
  have hrun := appendEntries_rounds disk prev qs (P := fun j m => m.Solid ∧
    m.boundary = rl.boundary ∧ (j < qs.length → m.FilledTo (prev + j) ∧
      ∀ k, prev + j < k → m.termAt k = rl.termAt k))
    ⟨h, rfl, fun _ => ⟨h.filledTo hprev, fun _ _ => rfl⟩⟩ ?_
  · obtain ⟨_, _, ⟨hsolid, hsame, _⟩, _⟩ := hrun
    exact ⟨hsolid, hsame⟩
  · rintro j q m m' hq ⟨hsolid, hsame, hmore⟩ hr
    have hj : j < qs.length := (List.getElem?_eq_some_iff.mp hq).1
    have hne : qs ≠ [] := List.ne_nil_of_length_pos (by omega)
    obtain ⟨hfilled, hterm⟩ := hmore hj
    have hindex := hidx j q hq
    have hbound : m.boundary ≤ prev + j := by
      rw [hsame]
      exact (hb hne).trans (Nat.le_add_right _ _)
    have hcached := hsolid.cached
    cases hr with
    | skipped h0 _ =>
      refine ⟨hsolid, hsame, fun _ => ⟨fun k hk hkj => ?_, fun k hk => hterm k (by omega)⟩⟩
      obtain ⟨e, he, _⟩ := get_of_termAt (by omega) h0
      by_cases hkj' : k ≤ prev + j
      · exact hfilled k hk hkj'
      · obtain rfl : k = prev + j + 1 := by omega
        rw [he]
        rfl
    | appended _ ha =>
      obtain ⟨hsolid', hfilled'⟩ := hsolid.append hindex hbound hfilled ha
      exact ⟨hsolid', (boundary_append ha).1.trans hsame, fun _ => ⟨hfilled', fun k hk =>
        (termAt_append ha (by omega)).trans (hterm k (by omega))⟩⟩
    | cut h0 ht htr =>
      refine ⟨hsolid.truncateFrom htr, (boundary_truncateFrom htr).1.trans hsame, fun hlt => ?_⟩
      rw [hterm _ (by omega)] at h0 ht
      exact absurd ⟨h0, ht⟩ (hlast j q hlt hq)

/-! ## `LastIndex()` in the loop of `HandleAppendEntries` -/

/-- Cut at `index`, the log still reaches up to `c`. -/
def Keeps (rl : RaftLog) (c index : Nat) : Prop :=
  (∃ k < index, c ≤ k ∧ (rl.get k).isSome = true) ∨
    c ≤ rl.snapshotIndex ∧ ∀ k < index, rl.get k = none

instance (rl : RaftLog) (c index : Nat) : Decidable (rl.Keeps c index) :=
  inferInstanceAs (Decidable (_ ∨ _))

theorem Keeps.mono {c c' : Nat} (h : rl.Keeps c index) (hc : c' ≤ c) : rl.Keeps c' index := by
  rcases h with ⟨k, hk, hck, hsome⟩ | ⟨hcached, hnone⟩
  · exact Or.inl ⟨k, hk, hc.trans hck, hsome⟩
  · exact Or.inr ⟨hc.trans hcached, hnone⟩

theorem Keeps.lastIndex_truncateFrom {c : Nat} (h : rl.Keeps c index)
    (ht : rl.truncateFrom written index = some rl') : c ≤ rl'.lastIndex := by
  have hget := get_truncateFrom ht
  rcases h with ⟨k, hk, hck, hsome⟩ | ⟨hcached, hnone⟩
  · obtain ⟨e, he⟩ := Option.isSome_iff_exists.mp hsome
    refine hck.trans (le_lastIndex (e := e) ?_)
    rw [hget, if_pos hk, he]
  · rw [lastIndex_eq_of_empty fun k => ?_, (boundary_truncateFrom ht).2]
    · exact hcached
    · rw [hget]
      split
      · exact hnone k (by assumption)
      · rfl

/-- An append that is not below the cached boundary where `LastIndex()` is that boundary. -/
theorem lastIndex_append_le {e : LogEntry}
    (hcached : rl.lastIndex = rl.snapshotIndex → rl.snapshotIndex ≤ e.index)
    (ha : rl.append written e = some rl') :
    rl.lastIndex ≤ rl'.lastIndex ∧ e.index ≤ rl'.lastIndex := by
  have hget := get_append ha
  have hnew : e.index ≤ rl'.lastIndex := le_lastIndex (e := e.stored) (by rw [hget, if_pos rfl])
  refine ⟨?_, hnew⟩
  rcases get_lastIndex rl with ⟨d, hd⟩ | ⟨_, hlast⟩
  · by_cases hk : rl.lastIndex = e.index
    · exact hk.trans_le hnew
    · exact le_lastIndex (e := d) (by rw [hget, if_neg hk, hd])
  · rw [hlast]
    exact (hcached hlast).trans hnew

/-- An entry appended below `index` and above the cached boundary takes nothing away. -/
theorem Keeps.append {c : Nat} (h : rl.Keeps c index) {e : LogEntry} {written : Bool}
    (hlt : e.index < index) (hcached : rl.snapshotIndex ≤ e.index)
    (ha : rl.append written e = some rl') : rl'.Keeps c index := by
  have hget := get_append ha
  rcases h with ⟨k, hk, hck, hsome⟩ | ⟨hc, _⟩
  · refine Or.inl ⟨k, hk, hck, ?_⟩
    rw [hget]
    split
    · rfl
    · exact hsome
  · exact Or.inl ⟨e.index, hlt, hc.trans hcached, by rw [hget, if_pos rfl]; rfl⟩

section Loop

variable {prev : Nat} {qs : List LogEntry}

/-- Above the cached boundary a round brings no conflict. -/
theorem Round.conflicts {q r : LogEntry} (h : Round rl index q rl') (hq : q.index = index) {k : Nat}
    (hk : index < k) (hcached : rl.snapshotIndex < k) (hc : Conflicts rl' k r) : Conflicts rl k r := by
  rcases h.get_above hq hk with hsame | hnone
  · have hterm : rl'.termAt k = rl.termAt k := by
      unfold termAt
      rw [hsame, h.boundary.2, if_neg (by omega : k ≠ rl.snapshotIndex),
        if_neg (by omega : k ≠ rl.snapshotIndex)]
    rw [Conflicts, hterm] at hc
    exact hc
  · obtain ⟨e, he, _⟩ := get_of_termAt (by rw [h.boundary.2]; exact hcached) hc.1
    rw [hnone] at he
    exact absurd he (by simp)

/-- **`LastIndex()` stays at or above `c`** if the log keeps `c` wherever the request cuts it. -/
theorem le_lastIndex_appendEntries (disk : Disk) {c : Nat} (hc : c ≤ rl.lastIndex)
    (hcached : qs ≠ [] → rl.snapshotIndex ≤ prev)
    (hidx : Indexed prev qs)
    (hkeeps : ∀ j q, qs[j]? = some q → Conflicts rl (prev + j + 1) q → rl.Keeps c (prev + j + 1)) :
    c ≤ (rl.appendEntries disk prev 0 qs).log.lastIndex := by
  have hrun := appendEntries_rounds disk prev qs (P := fun j m =>
    m.snapshotIndex = rl.snapshotIndex ∧ c ≤ m.lastIndex ∧ ∀ l q, j ≤ l → qs[l]? = some q →
      Conflicts m (prev + l + 1) q → m.Keeps c (prev + l + 1))
    ⟨rfl, hc, fun l q _ => hkeeps l q⟩ ?_
  · obtain ⟨_, _, ⟨_, hle, _⟩, _⟩ := hrun
    exact hle
  · rintro j q m m' hq ⟨hsame, hle, hmore⟩ hr
    have hne : qs ≠ [] := List.ne_nil_of_mem (List.mem_of_getElem? hq)
    have hprev := hcached hne
    have hindex := hidx j q hq
    refine ⟨hr.boundary.2.trans hsame, ?_, fun l r hl hr' hconf => ?_⟩
    · cases hr with
      | skipped _ _ => exact hle
      | appended _ ha => exact hle.trans (lastIndex_append_le (fun _ => by omega) ha).1
      | cut h0 ht htr => exact (hmore j q le_rfl hq ⟨h0, ht⟩).lastIndex_truncateFrom htr
    · have hkeep := hmore l r (by omega) hr' (hr.conflicts hindex (by omega) (by omega) hconf)
      cases hr with
      | skipped _ _ => exact hkeep
      | appended _ ha => exact hkeep.append (by omega) (by omega) ha
      | cut _ _ htr =>
        -- nothing is stored at or above a cut, so nothing conflicts there
        obtain ⟨e, he, _⟩ := get_of_termAt (by rw [(boundary_truncateFrom htr).2]; omega) hconf.1
        rw [get_truncateFrom htr, if_neg (by omega)] at he
        exact absurd he (by simp)

/-- The log above the first `j` entries of the request: as in `rl` while none of them conflicted with it,
and empty since. -/
def Ahead (rl : RaftLog) (prev : Nat) (qs : List LogEntry) (j : Nat) (m : RaftLog) : Prop :=
  (∀ l q, l < j → qs[l]? = some q → ¬ Conflicts rl (prev + l + 1) q) ∧
      (∀ k, prev + j < k → m.termAt k = rl.termAt k) ∨
    ∀ k, prev + j < k → m.get k = none

theorem Ahead.round {j : Nat} {q : LogEntry} {m m' : RaftLog} (h : Ahead rl prev qs j m)
    (hq : qs[j]? = some q) (hindex : q.index = prev + j + 1) (hr : Round m (prev + j + 1) q m') :
    Ahead rl prev qs (j + 1) m' := by
  rcases h with ⟨hno, hterm⟩ | hnone
  · have hhead := hterm (prev + j + 1) (Nat.lt_succ_self _)
    -- an entry that does not conflict with this log did not with the first one
    have hseen : ¬ Conflicts m (prev + j + 1) q → ∀ l r, l < j + 1 → qs[l]? = some r →
        ¬ Conflicts rl (prev + l + 1) r := by
      intro hq' l r hl hget
      rcases Nat.lt_succ_iff_lt_or_eq.mp hl with hl | rfl
      · exact hno l r hl hget
      · rw [hq, Option.some.injEq] at hget
        rw [Conflicts, ← hhead, ← hget]
        exact hq'
    cases hr with
    | skipped _ ht =>
      exact Or.inl ⟨hseen fun h => h.2 ht, fun k hk => hterm k (by omega)⟩
    | appended h0 ha =>
      exact Or.inl ⟨hseen fun h => h.1 h0, fun k hk =>
        (termAt_append ha (by omega)).trans (hterm k (by omega))⟩
    | cut _ _ htr =>
      exact Or.inr fun k hk => by rw [get_truncateFrom htr, if_neg (by omega)]
  · refine Or.inr fun k hk => ?_
    rcases hr.get_above hindex (k := k) (by omega) with h | h
    · rw [h]
      exact hnone k (by omega)
    · exact h

/-- Only the first conflict cuts the log. -/
theorem Ahead.first_conflict {j : Nat} {q : LogEntry} {m : RaftLog} (h : Ahead rl prev qs j m)
    (hcached : m.snapshotIndex ≤ prev) (hconf : Conflicts m (prev + j + 1) q) :
    Conflicts rl (prev + j + 1) q ∧
      ∀ l r, l < j → qs[l]? = some r → ¬ Conflicts rl (prev + l + 1) r := by
  rcases h with ⟨hno, hterm⟩ | hnone
  · rw [Conflicts, hterm _ (Nat.lt_succ_self _)] at hconf
    exact ⟨hconf, hno⟩
  · obtain ⟨e, he, _⟩ := get_of_termAt (by omega) hconf.1
    rw [hnone _ (Nat.lt_succ_self _)] at he
    exact absurd he (by simp)

/-- **The loop stores the last entry of the request**, unless a write fails or that entry is the first
one that conflicts. -/
theorem last_le_lastIndex_appendEntries (disk : Disk)
    (hcached : qs ≠ [] → rl.snapshotIndex ≤ prev) (hprev : prev ≤ rl.lastIndex)
    (hidx : Indexed prev qs)
    (hlast : ∀ j q, j + 1 = qs.length → qs[j]? = some q → Conflicts rl (prev + j + 1) q →
      ∃ l < j, ∃ r, qs[l]? = some r ∧ Conflicts rl (prev + l + 1) r)
    (hok : (rl.appendEntries disk prev 0 qs).ok = true) :
    prev + qs.length ≤ (rl.appendEntries disk prev 0 qs).log.lastIndex := by
  have hrun := appendEntries_rounds disk prev qs (P := fun j m =>
    m.snapshotIndex = rl.snapshotIndex ∧ Ahead rl prev qs j m ∧
    (prev + j ≤ m.lastIndex ∨ ∃ l q, l + 1 = j ∧ qs[l]? = some q ∧ Conflicts rl (prev + l + 1) q ∧
      ∀ l' q', l' < l → qs[l']? = some q' → ¬ Conflicts rl (prev + l' + 1) q'))
    ⟨rfl, Or.inl ⟨fun l q hl => absurd hl (Nat.not_lt_zero l), fun _ _ => rfl⟩, Or.inl hprev⟩ ?_
  · obtain ⟨j, _, ⟨_, _, hle⟩, hall⟩ := hrun
    rw [hall hok] at hle
    rcases hle with hle | ⟨l, q, hl, hq, hconf, hfirst⟩
    · exact hle
    · obtain ⟨l', hl', r, hr, hconf'⟩ := hlast l q hl hq hconf
      exact absurd hconf' (hfirst l' r hl' hr)
  · rintro j q m m' hq ⟨hsame, hahead, _⟩ hr
    have := hcached (List.ne_nil_of_mem (List.mem_of_getElem? hq))
    have hindex := hidx j q hq
    refine ⟨hr.boundary.2.trans hsame, hahead.round hq hindex hr, ?_⟩
    cases hr with
    | skipped h0 _ =>
      obtain ⟨e, he, _⟩ := get_of_termAt (by omega) h0
      exact Or.inl (le_lastIndex he)
    | appended _ ha =>
      exact Or.inl (hindex.symm.trans_le (lastIndex_append_le (fun _ => by omega) ha).2)
    | cut h0 ht _ =>
      exact Or.inr ⟨j, q, rfl, hq, hahead.first_conflict (by omega) ⟨h0, ht⟩⟩

end Loop

end RaftLog

end Raftrix
