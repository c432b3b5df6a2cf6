import Raftrix.Cluster.Compaction

/-!
# What a leader sends

`replicateToPeer` decides between a snapshot and entries by the boundary that was cached when the process
started, and reads the entries from a log that may have been compacted since. `GetRange` stops at the first
missing index and `TermAt` answers `0` for one, so nothing reports that the peer is behind the boundary.

`fullLog` is what a node has had at an index, counting what it has compacted: the entry, or the term that
came with an installed snapshot. **`sends_all_iff`**: in a run whose compactions keep to the log
(`KeepsHistory`), a request has all entries from `nextIndex` to `LastIndex()` of the history and the true
term before them, or is a snapshot, exactly if the cached boundary is the recorded one or the peer is not
near the part that was compacted since (`NotBetween`). `compacted_entry_not_sent` is a leader that has
compacted one entry and sends nothing to a peer that does not have it.
-/

namespace Raftrix

variable {σ : Type}

/-- What is known of an index: its entry, or only the term if it came with a snapshot. -/
inductive Known where
  | entry (e : LogEntry)
  | boundary (term : Nat)
  deriving DecidableEq

def Known.term : Known → Nat
  | entry e => e.term
  | boundary term => term

namespace RaftLog

variable {rl : RaftLog}

/-- A range in which everything is stored is read as a whole. -/
theorem getRangeFrom_filled {n first : Nat}
    (h : ∀ j, first ≤ j → j < first + n → (rl.get j).isSome = true) :
    (rl.getRangeFrom n first).map some = (List.range' first n).map rl.get := by
  induction n generalizing first with
  | zero => rfl
  | succ n ih =>
    obtain ⟨e, he⟩ := Option.isSome_iff_exists.mp (h first (le_refl _) (by omega))
    rw [getRangeFrom, he, List.range'_succ, List.map_cons, List.map_cons, he]
    exact congrArg _ (ih fun j hj hjn => h j (by omega) (by omega))

/-- A range whose first index is missing is read as empty. -/
theorem getRangeFrom_missing {n first : Nat} (h : rl.get first = none) :
    rl.getRangeFrom n first = [] := by
  cases n with
  | zero => rfl
  | succ n => rw [getRangeFrom, h]

end RaftLog

namespace Cluster

/-! ## Conditions on steps -/

/-- What the goroutine is about to record as the boundary. -/
def record? : Goroutine → Option (Nat × Nat)
  | .compactLog index term _ => some (index, term)
  | _ => none

/-- Compactions keep to the history: `takeSnapshot` compacts up to a stored entry of the term that it
records, and an installed snapshot reaches beyond the boundary, unless the record stays as it is. -/
def RecordsTrue (s : Cluster σ) (st : Step) : Prop :=
  match st.action? with
  | some (.resume i k) => ∀ g ∈ (s.node i).goroutines[k]?, ∀ p ∈ record? g,
      (s.node i).raftLog.recorded = p ∨ ((s.node i).raftLog.get p.1).map LogEntry.term = some p.2
  | some (.handleSnapshot k) =>
    ∀ c ∈ s.snapshotCalls[k]?, (s.node c.dst).currentTerm ≤ c.req.term →
      (s.node c.dst).raftLog.recorded = (c.req.lastIncludedIndex, c.req.lastIncludedTerm) ∨
        (s.node c.dst).raftLog.boundary < c.req.lastIncludedIndex
  | _ => True

instance (s : Cluster σ) (st : Step) : Decidable (RecordsTrue s st) :=
  decidable_of_iff ((match st.action? with
    | some (.resume i k) => decide (∀ g ∈ (s.node i).goroutines[k]?, ∀ p ∈ record? g,
        (s.node i).raftLog.recorded = p ∨ ((s.node i).raftLog.get p.1).map LogEntry.term = some p.2)
    | some (.handleSnapshot k) =>
      decide (∀ c ∈ s.snapshotCalls[k]?, (s.node c.dst).currentTerm ≤ c.req.term →
        (s.node c.dst).raftLog.recorded = (c.req.lastIncludedIndex, c.req.lastIncludedTerm) ∨
          (s.node c.dst).raftLog.boundary < c.req.lastIncludedIndex)
    | _ => true) = true) (by unfold RecordsTrue; split <;> simp only [decide_eq_true_iff])

/-- The logs stay solid and the boundaries true. -/
def KeepsHistory (s : Cluster σ) (st : Step) : Prop := BoundaryAhead s st ∧ RecordsTrue s st

instance (s : Cluster σ) (st : Step) : Decidable (KeepsHistory s st) :=
  inferInstanceAs (Decidable (_ ∧ _))

/-! ## The history of a log -/

/-- The step handles an InstallSnapshot request. -/
def handlesSnapshot (st : Step) : Bool :=
  match st.action? with
  | some (.handleSnapshot _) => true
  | _ => false

/-- The step installs a snapshot at node `i`. -/
def InstallsAt (i : NodeID) (s : Cluster σ) (st : Step) (s' : Cluster σ) : Prop :=
  handlesSnapshot st = true ∧ (s'.node i).raftLog.recorded ≠ (s.node i).raftLog.recorded

instance (i : NodeID) (s : Cluster σ) (st : Step) (s' : Cluster σ) : Decidable (InstallsAt i s st s') :=
  inferInstanceAs (Decidable (_ ∧ _))

/-- What node `i` has had at index `k`: what it stores, and at or below the boundary, what it has had
before the compaction or what a snapshot has brought. -/
def fullLog (i : NodeID) : List (Cluster σ × Step) → Cluster σ → Nat → Option Known
  | [], s, k => ((s.node i).raftLog.get k).map .entry
  | (τ, st) :: past, s, k =>
    match (s.node i).raftLog.get k with
    | some e => some (.entry e)
    | none =>
      if k = (s.node i).raftLog.boundary ∧ InstallsAt i τ st s then
        some (.boundary (s.node i).raftLog.recorded.2)
      else if k ≤ (s.node i).raftLog.boundary then fullLog i past τ k
      else none

variable {E : Engine σ} {M : Membership} {disk : Disk} {s s' : Cluster σ} {a : Action} {st : Step}
  {i : NodeID} {n m : RaftNode σ} {past : List (Cluster σ × Step)} {k : Nat}

theorem fullLog_stored {e : LogEntry} (h : (s.node i).raftLog.get k = some e) :
    fullLog i past s k = some (.entry e) := by
  cases past with
  | nil => rw [fullLog, h, Option.map_some]
  | cons => rw [fullLog, h]

/-- Above the boundary only what is stored counts. -/
theorem fullLog_above (h : (s.node i).raftLog.boundary < k) :
    fullLog i past s k = ((s.node i).raftLog.get k).map .entry := by
  cases hget : (s.node i).raftLog.get k with
  | some e => rw [fullLog_stored hget, Option.map_some]
  | none =>
    cases past with
    | nil => rw [fullLog, hget]
    | cons => simp [fullLog, hget, Nat.not_le.mpr h, Nat.ne_of_gt h]

/-- What is gone and was not brought by a snapshot is what it was. -/
theorem fullLog_kept (hget : (s'.node i).raftLog.get k = none)
    (hle : k ≤ (s'.node i).raftLog.boundary) (hold : ¬ InstallsAt i s st s') :
    fullLog i ((s, st) :: past) s' k = fullLog i past s k := by
  simp only [fullLog, hget, if_neg (show ¬ (_ ∧ InstallsAt i s st s') from fun h => hold h.2), if_pos hle]

theorem fullLog_installed (hget : (s'.node i).raftLog.get (s'.node i).raftLog.boundary = none)
    (hnew : InstallsAt i s st s') :
    fullLog i ((s, st) :: past) s' (s'.node i).raftLog.boundary =
      some (.boundary (s'.node i).raftLog.recorded.2) := by
  rw [fullLog, hget]
  exact if_pos ⟨rfl, hnew⟩

/-! ## How a step changes the boundaries -/

/-- What a step does to the recorded boundary. -/
inductive RecordChange (s : Cluster σ) (st : Step) (i : NodeID) (n : RaftNode σ) : Prop
  | same (h : n.raftLog.recorded = (s.node i).raftLog.recorded)
  | taken {k index term : Nat} {data : Bytes} (hst : st.action? = some (.resume i k))
      (hg : (s.node i).goroutines[k]? = some (.compactLog index term data))
      (h : n.raftLog.recorded = (index, term))
  | installed {k : Nat} {c : SnapshotCall} (hst : st.action? = some (.handleSnapshot k))
      (hk : s.snapshotCalls[k]? = some c) (hdst : c.dst = i)
      (hterm : (s.node i).currentTerm ≤ c.req.term)
      (h : n.raftLog.recorded = (c.req.lastIncludedIndex, c.req.lastIncludedTerm))

theorem RecordChange.congr {n' : RaftNode σ} (h : RecordChange s st i n)
    (hrec : n'.raftLog.recorded = n.raftLog.recorded) : RecordChange s st i n' := by
  cases h with
  | same h => exact .same (hrec.trans h)
  | taken hst hg h => exact .taken hst hg (hrec.trans h)
  | installed hst hk hdst hterm h => exact .installed hst hk hdst hterm (hrec.trans h)

/-- The cached boundary is the old one or the recorded one. -/
def CachedFrom (n n' : RaftNode σ) : Prop :=
  n'.raftLog.cached = n.raftLog.cached ∨ n'.raftLog.cached = n'.raftLog.recorded

theorem Joins.sameBounds {written : Bool} {term : Nat} (h : Joins written n term m) :
    RaftLog.SameBounds n.raftLog m.raftLog := by
  cases h with
  | same _ => exact .refl _
  | down _ => exact .saveMeta _ _ _

theorem Move.record (hst : st.action? = some a) (h : Move E M disk s a i n) :
    RecordChange s st i n ∧ CachedFrom (s.node i) n := by
  have hsame : ∀ {m : RaftNode σ}, RaftLog.SameBounds (s.node i).raftLog m.raftLog →
      RecordChange s st i m ∧ CachedFrom (s.node i) m :=
    fun h => ⟨.same h.recorded, Or.inl h.cached⟩
  cases h with
  | panic =>
    obtain ⟨hrec, hcached⟩ := (s.node i).raftLog.bounds_newRaftLog
    exact ⟨.same hrec, Or.inr (hcached.trans hrec.symm)⟩
  | down _ _ => exact hsame (.saveMeta _ _ _)
  | timeout _ _ _ => exact hsame (.saveMeta _ _ _)
  | grant _ _ hm _ _ => exact hsame (hm.sameBounds.trans (.saveMeta _ _ _))
  | lead _ _ _ =>
    cases ha : (s.node i).raftLog.append (disk 0) (s.node i).noopEntry with
    | none => exact hsame (.refl _)
    | some rl => exact hsame (.append ha)
  | propose _ hrl => exact hsame (.append hrl)
  | mismatch _ _ hm => exact hsame hm.sameBounds
  | splice _ _ hm _ _ => exact hsame (hm.sameBounds.trans (.appendEntries _ _ _))
  | restore _ hm => exact hsame hm.sameBounds
  | install hk hm hrl =>
    obtain ⟨hrec, hcached⟩ := RaftLog.bounds_compact hrl
    exact ⟨.installed hst hk rfl hm.le hrec, Or.inl (hcached.trans hm.sameBounds.cached)⟩
  | @apply i k gs =>
    have ho := RaftNode.onlyApplies_applyCommitted E disk { s.node i with goroutines := gs }
    refine hsame ?_
    rw [ho.raftLog]
    exact .refl _
  | compact hg hrl =>
    obtain ⟨hrec, hcached⟩ := RaftLog.bounds_compact hrl
    exact ⟨.taken hst hg hrec, Or.inl hcached⟩
  | _ => exact hsame (.refl _)

theorem Moved.record (h : Moved E M s st i n) : RecordChange s st i n ∧ CachedFrom (s.node i) n := by
  cases h with
  | act h => exact h.record rfl
  | crash =>
    obtain ⟨hrec, hcached⟩ := (s.node i).raftLog.bounds_newRaftLog
    exact ⟨.same hrec, Or.inr (hcached.trans hrec.symm)⟩
  | @crashDuring a cut i n _ h =>
    obtain ⟨hrec, hcached⟩ := n.raftLog.bounds_newRaftLog
    have hchange : RecordChange s (.crashDuring a cut) i n := (h.record rfl).1
    exact ⟨hchange.congr hrec, Or.inr (hcached.trans hrec.symm)⟩
  | @applyRead disk i k reads n _ _ h _ =>
    obtain ⟨hrec, hcached⟩ : RecordChange s (.applyRead disk i k reads) i n ∧ _ := h.record rfl
    exact ⟨hrec.congr rfl, hcached⟩

/-! ## The boundaries are true -/

/-- `t` is the term at index `k` of the history: `0` at index `0`, and there only. -/
def TrueTerm (h : Nat → Option Known) (k t : Nat) : Prop :=
  k = 0 ∧ t = 0 ∨ 0 < k ∧ 0 < t ∧ ∃ x, h k = some x ∧ x.term = t

/-- The recorded boundary is true, and the cached one has the term of the recorded one when they are at the
same index. -/
structure TrueBounds (rl : RaftLog) (h : Nat → Option Known) : Prop where
  recorded : 0 < rl.boundary → TrueTerm h rl.boundary rl.recorded.2
  cached : rl.snapshotIndex = rl.boundary → rl.snapshotTerm = rl.recorded.2
  pos : 0 < rl.snapshotIndex → 0 < rl.snapshotTerm

theorem TrueTerm.pos {h : Nat → Option Known} {k t : Nat} (ht : TrueTerm h k t) (hk : 0 < k) : 0 < t := by
  rcases ht with ⟨h0, _⟩ | ⟨_, hpos, _⟩
  · omega
  · exact hpos

/-- The boundaries after a step, once the recorded one is known to be true. -/
theorem TrueBounds.next {rl rl' : RaftLog} {h h' : Nat → Option Known} (hold : TrueBounds rl h)
    (hsolid : rl.Solid) (hnew : rl'.recorded = rl.recorded ∨ rl.boundary < rl'.boundary)
    (hcached : rl'.cached = rl.cached ∨ rl'.cached = rl'.recorded)
    (htrue : 0 < rl'.boundary → TrueTerm h' rl'.boundary rl'.recorded.2) : TrueBounds rl' h' := by
  rcases hcached with hcached | hcached
  · -- the process goes on with what it has cached
    obtain ⟨hindex, hterm⟩ := Prod.mk.inj hcached
    refine ⟨htrue, fun heq => ?_, fun hpos => ?_⟩
    · rw [hterm]
      rcases hnew with hsame | hlt
      · rw [hsame]
        refine hold.cached ?_
        rw [← hindex, heq]
        exact congrArg Prod.fst hsame
      · have := hsolid.cached
        omega
    · rw [hterm]
      exact hold.pos (by omega)
  · -- the process has just started
    have hindex : rl'.snapshotIndex = rl'.boundary := congrArg Prod.fst hcached
    have hterm : rl'.snapshotTerm = rl'.recorded.2 := congrArg Prod.snd hcached
    refine ⟨htrue, fun _ => hterm, fun hpos => ?_⟩
    rw [hindex] at hpos
    rw [hterm]
    exact (htrue hpos).pos hpos

/-- A step that leaves the record alone. -/
theorem TrueBounds.same (h : TrueBounds (s.node i).raftLog (fullLog i past s))
    (hsolid : (s.node i).raftLog.Solid) (hsolid' : (s'.node i).raftLog.Solid)
    (hcached : CachedFrom (s.node i) (s'.node i))
    (hrec : (s'.node i).raftLog.recorded = (s.node i).raftLog.recorded) :
    TrueBounds (s'.node i).raftLog (fullLog i ((s, st) :: past) s') := by
  have hb : (s'.node i).raftLog.boundary = (s.node i).raftLog.boundary := congrArg Prod.fst hrec
  refine h.next hsolid (Or.inl hrec) hcached fun hpos => ?_
  rw [TrueTerm, fullLog_kept hsolid'.get_boundary (le_refl _) fun hnew => hnew.2 hrec, hrec, hb]
  exact h.recorded (hb ▸ hpos)

/-- A step that compacts the log up to an entry of it. -/
theorem TrueBounds.taken (h : TrueBounds (s.node i).raftLog (fullLog i past s))
    (hsolid : (s.node i).raftLog.Solid) (hsolid' : (s'.node i).raftLog.Solid)
    (hcached : CachedFrom (s.node i) (s'.node i)) (hst : handlesSnapshot st = false) {e : LogEntry}
    {index : Nat} (he : (s.node i).raftLog.get index = some e) (hterm : 0 < e.term)
    (hrec : (s'.node i).raftLog.recorded = (index, e.term)) :
    TrueBounds (s'.node i).raftLog (fullLog i ((s, st) :: past) s') := by
  have hb : (s'.node i).raftLog.boundary = index := congrArg Prod.fst hrec
  have hlt : (s.node i).raftLog.boundary < index := hsolid.above index (by rw [he]; rfl)
  refine h.next hsolid (Or.inr (hb ▸ hlt)) hcached fun hpos => ?_
  have hkept : ¬ InstallsAt i s st s' := by
    rintro ⟨hinstall, _⟩
    exact absurd (hst.symm.trans hinstall) (by simp)
  refine Or.inr ⟨hpos, by rwa [hrec], .entry e, ?_, by rw [hrec]; rfl⟩
  rw [fullLog_kept hsolid'.get_boundary (le_refl _) hkept, hb]
  exact fullLog_stored he

/-- A step that installs a snapshot beyond the boundary. -/
theorem TrueBounds.installed (h : TrueBounds (s.node i).raftLog (fullLog i past s))
    (hsolid : (s.node i).raftLog.Solid) (hsolid' : (s'.node i).raftLog.Solid)
    (hcached : CachedFrom (s.node i) (s'.node i)) (hst : handlesSnapshot st = true) {index term : Nat}
    (hlt : (s.node i).raftLog.boundary < index) (hterm : 0 < term)
    (hrec : (s'.node i).raftLog.recorded = (index, term)) :
    TrueBounds (s'.node i).raftLog (fullLog i ((s, st) :: past) s') := by
  have hb : (s'.node i).raftLog.boundary = index := congrArg Prod.fst hrec
  refine h.next hsolid (Or.inr (hb ▸ hlt)) hcached fun hpos => ?_
  have hnew : InstallsAt i s st s' := by
    refine ⟨hst, fun hrec' => ?_⟩
    have : (s'.node i).raftLog.boundary = (s.node i).raftLog.boundary := congrArg Prod.fst hrec'
    omega
  exact Or.inr ⟨hpos, by rwa [hrec], _, fullLog_installed hsolid'.get_boundary hnew, rfl⟩

/-- **A step keeps the boundaries true.** -/
theorem TrueBounds.step (h : TrueBounds (s.node i).raftLog (fullLog i past s))
    (hsolid : (s.node i).raftLog.Solid) (hsolid' : (s'.node i).raftLog.Solid)
    (hchange : RecordChange s st i (s'.node i)) (hcached : CachedFrom (s.node i) (s'.node i))
    (hok : RecordsTrue s st)
    (hstored : ∀ k e, (s.node i).raftLog.get k = some e → 0 < e.term)
    (hcalls : ∀ c ∈ s.snapshotCalls, 0 < c.req.lastIncludedTerm) :
    TrueBounds (s'.node i).raftLog (fullLog i ((s, st) :: past) s') := by
  cases hchange with
  | same hrec => exact h.same hsolid hsolid' hcached hrec
  | @taken k index term data hst hg hrec =>
    unfold RecordsTrue at hok
    rw [hst] at hok
    rcases hok _ hg _ rfl with heq | hterm
    · exact h.same hsolid hsolid' hcached (hrec.trans heq.symm)
    · obtain ⟨e, he, rfl⟩ := Option.map_eq_some_iff.mp hterm
      exact h.taken hsolid hsolid' hcached (by rw [handlesSnapshot, hst]) he (hstored index e he) hrec
  | @installed k c hst hk hdst hterm hrec =>
    subst hdst
    unfold RecordsTrue at hok
    rw [hst] at hok
    rcases hok c hk hterm with heq | hlt
    · exact h.same hsolid hsolid' hcached (hrec.trans heq.symm)
    · exact h.installed hsolid hsolid' hcached (by rw [handlesSnapshot, hst]) hlt
        (hcalls c (List.mem_of_getElem? hk)) hrec

/-! ## The terms of the entries -/

/-- Every stored entry has a term. -/
def HasTerms (rl : RaftLog) : Prop := ∀ k e, rl.get k = some e → 0 < e.term

theorem HasTerms.of_subset {rl rl' : RaftLog} (h : HasTerms rl)
    (hsub : ∀ k e, rl'.get k = some e → rl.get k = some e) : HasTerms rl' :=
  fun k e he => h k e (hsub k e he)

theorem HasTerms.of_get {rl rl' : RaftLog} (h : HasTerms rl) (hget : rl'.get = rl.get) : HasTerms rl' :=
  h.of_subset fun k e he => by rw [← hget]; exact he

theorem HasTerms.append {rl rl' : RaftLog} {written : Bool} {e : LogEntry} (h : HasTerms rl)
    (he : 0 < e.term) (ha : rl.append written e = some rl') : HasTerms rl' := by
  intro k d hd
  rw [RaftLog.get_append ha] at hd
  split at hd
  · obtain rfl := Option.some.inj hd
    exact he
  · exact h k d hd

theorem HasTerms.appendEntries {rl : RaftLog} (h : HasTerms rl) (disk : Disk) (prev : Nat)
    {qs : List LogEntry} (hqs : ∀ q ∈ qs, 0 < q.term) :
    HasTerms (rl.appendEntries disk prev 0 qs).log := by
  obtain ⟨_, _, hterms, _⟩ := RaftLog.appendEntries_rounds disk prev qs
    (P := fun _ m => HasTerms m) h fun _ q _ _ hq hm hr => by
      cases hr with
      | skipped _ _ => exact hm
      | appended _ ha => exact hm.append (hqs q (List.mem_of_getElem? hq)) ha
      | cut _ _ htr =>
        refine hm.of_subset fun k e he => ?_
        rw [RaftLog.get_truncateFrom htr] at he
        split at he
        · exact he
        · exact absurd he (by simp)
  exact hterms

theorem HasTerms.compact {rl rl' : RaftLog} {written : Bool} {index term : Nat} (h : HasTerms rl)
    (hc : rl.compact written index term = some rl') : HasTerms rl' := by
  refine h.of_subset fun k e he => ?_
  rw [RaftLog.get_compact hc] at he
  split at he
  · exact he
  · exact absurd he (by simp)

theorem Joins.hasTerms {written : Bool} {term : Nat} (hm : Joins written n term m)
    (h : HasTerms n.raftLog) : HasTerms m.raftLog :=
  h.of_get hm.get

theorem Move.hasTerms (hmove : Move E M disk s a i n) (h : HasTerms (s.node i).raftLog)
    (hpos : (s.node i).state ≠ .follower → 1 ≤ (s.node i).currentTerm)
    (hcalls : ∀ c ∈ s.appendCalls, ∀ q ∈ c.req.entries, 0 < q.term) : HasTerms n.raftLog := by
  cases hmove with
  | panic => exact h.of_get RaftLog.get_newRaftLog
  | down _ _ => exact h.of_get (RaftLog.get_saveMeta _ _)
  | timeout _ _ _ => exact h.of_get (RaftLog.get_saveMeta _ _)
  | grant _ _ hm _ _ => exact (hm.hasTerms h).of_get (RaftLog.get_saveMeta _ _)
  | lead _ _ hrole =>
    cases ha : (s.node i).raftLog.append (disk 0) (s.node i).noopEntry with
    | none => exact h
    | some rl => exact h.append (e := (s.node i).noopEntry) (hpos (by simp [hrole])) ha
  | propose hrole hrl => exact h.append (e := (s.node i).proposalEntry _) (hpos (by simp [hrole])) hrl
  | mismatch _ _ hm => exact hm.hasTerms h
  | splice hk _ hm _ _ =>
    exact (hm.hasTerms h).appendEntries _ _ (hcalls _ (List.mem_of_getElem? hk))
  | restore _ hm => exact hm.hasTerms h
  | install _ hm hrl => exact (hm.hasTerms h).compact hrl
  | @apply i k gs =>
    have ho := RaftNode.onlyApplies_applyCommitted E disk { s.node i with goroutines := gs }
    rw [ho.raftLog]
    exact h
  | compact _ hrl => exact h.compact hrl
  | _ => exact h

theorem Moved.hasTerms (hmoved : Moved E M s st i n) (h : HasTerms (s.node i).raftLog)
    (hpos : (s.node i).state ≠ .follower → 1 ≤ (s.node i).currentTerm)
    (hcalls : ∀ c ∈ s.appendCalls, ∀ q ∈ c.req.entries, 0 < q.term) : HasTerms n.raftLog := by
  cases hmoved with
  | act hmove => exact hmove.hasTerms h hpos hcalls
  | crash => exact h.of_get RaftLog.get_newRaftLog
  | crashDuring _ hmove => exact (hmove.hasTerms h hpos hcalls).of_get RaftLog.get_newRaftLog
  | applyRead hmove _ => exact hmove.hasTerms h hpos hcalls

section Runs

variable {store : NodeID → σ} {threshold : NodeID → Int} {ok : Cluster σ → Step → Prop}

/-- In every run the entries have terms, those stored and those on their way. -/
theorem Reaches.hasTerms (h : Reaches E M store threshold ok past s) :
    (∀ i, HasTerms (s.node i).raftLog) ∧
      ∀ c ∈ s.appendCalls, ∀ q ∈ c.req.entries, 0 < q.term := by
  refine Reaches.invariant (P := fun _ s => (∀ i, HasTerms (s.node i).raftLog) ∧
    ∀ c ∈ s.appendCalls, ∀ q ∈ c.req.entries, 0 < q.term) ?_ ?_ h
  · exact ⟨fun i k e he => absurd he (by simp [init, RaftLog.get, RaftLog.fresh]),
      fun c hc => absurd hc List.not_mem_nil⟩
  · intro past s st s' hr hinv _ hs
    refine ⟨forall_node_of_moved (P := fun _ n => HasTerms n.raftLog) hs hinv.1
      fun i n hmoved => hmoved.hasTerms (hinv.1 i) (hr.term_pos i) hinv.2, fun c' hc' => ?_⟩
    obtain ⟨k, hk⟩ := List.mem_iff_getElem?.mp hc'
    rcases (step_appendCall hs hk).origin with ⟨c, hc, _, _, hreq⟩ | hsent
    · rw [hreq]
      exact hinv.2 c hc
    · obtain ⟨ls, _, _, _, hls, hreq⟩ := hsent
      intro q hq
      rcases (RaftNode.of_peerRequest_appendEntries hreq).2 with hnil | hrange
      · rw [hnil] at hq
        exact absurd hq List.not_mem_nil
      · rw [hrange] at hq
        obtain ⟨j, hj⟩ := RaftLog.get_of_mem_getRangeFrom hq
        exact hinv.1 c'.src j q hj

/-- **The boundaries are true**, and so are those of the snapshots on their way. -/
theorem Reaches.trueBounds (hok : ∀ s st, ok s st → KeepsHistory s st)
    (h : Reaches E M store threshold ok past s) :
    (∀ i, TrueBounds (s.node i).raftLog (fullLog i past s)) ∧
      ∀ c ∈ s.snapshotCalls, 0 < c.req.lastIncludedTerm := by
  refine Reaches.invariant (P := fun past s =>
    (∀ i, TrueBounds (s.node i).raftLog (fullLog i past s)) ∧
      ∀ c ∈ s.snapshotCalls, 0 < c.req.lastIncludedTerm) ?_ ?_ h
  · exact ⟨fun i => ⟨fun hpos => absurd hpos (lt_irrefl 0), fun _ => rfl,
      fun hpos => absurd hpos (lt_irrefl 0)⟩, fun c hc => absurd hc List.not_mem_nil⟩
  · intro past s st s' hr hinv hguard hs
    have hahead : ∀ s st, ok s st → BoundaryAhead s st := fun s st h => (hok s st h).1
    have hrecord : ∀ i, RecordChange s st i (s'.node i) ∧ CachedFrom (s.node i) (s'.node i) :=
      forall_node_of_moved (P := fun i n => RecordChange s st i n ∧ CachedFrom (s.node i) n) hs
        (fun _ => ⟨.same rfl, Or.inl rfl⟩) fun _ _ hmoved => hmoved.record
    refine ⟨fun i => ?_, fun c' hc' => ?_⟩
    · exact (hinv.1 i).step (Reaches.solid hahead hr i)
        (Reaches.solid hahead (.next hr hguard hs) i) (hrecord i).1 (hrecord i).2
        (hok s st hguard).2 (Reaches.hasTerms hr |>.1 i) hinv.2
    · obtain ⟨k, hk⟩ := List.mem_iff_getElem?.mp hc'
      rcases (step_snapshotCall hs hk).origin with ⟨c, hc, _, _, hreq⟩ | hsent
      · rw [hreq]
        exact hinv.2 c hc
      · obtain ⟨disk, ls, rfl, hdst, _, hls, hreq⟩ := hsent
        rw [(hr.identity c'.src).2] at hdst
        have hpos := hr.nextIndex_pos c'.src hls hdst
        obtain ⟨hle, hreq⟩ := RaftNode.of_peerRequest_installSnapshot hreq
        rw [hreq]
        exact (hinv.1 c'.src).pos (by omega)

/-! ## The requests -/

/-- The request is a snapshot, or it has all entries of the history from `nextIdx` to `LastIndex()` and the
true term of the entry before them. -/
def SendsAll (h : Nat → Option Known) (rl : RaftLog) (nextIdx : Nat) : RaftNode.PeerRequest → Prop
  | .installSnapshot _ => True
  | .appendEntries req =>
    req.entries.map (fun e => some (Known.entry e)) =
        (List.range' nextIdx (rl.lastIndex + 1 - nextIdx)).map h ∧
      req.prevLogIndex = nextIdx - 1 ∧ TrueTerm h req.prevLogIndex req.prevLogTerm

/-- The cached boundary is the recorded one, or the peer needs a snapshot by the cached one, too, or needs
nothing at or before the entry that follows the recorded one. -/
def NotBetween (rl : RaftLog) (nextIdx : Nat) : Prop :=
  rl.snapshotIndex = rl.boundary ∨ nextIdx ≤ rl.snapshotIndex ∨ rl.boundary + 1 < nextIdx

/-- Above the boundary everything is sent. -/
theorem map_getRange_fullLog (hsolid : (s.node i).raftLog.Solid) {nextIdx : Nat}
    (hlt : (s.node i).raftLog.boundary < nextIdx) :
    ((s.node i).raftLog.getRange nextIdx (s.node i).raftLog.lastIndex).map
        (fun e => some (Known.entry e)) =
      (List.range' nextIdx ((s.node i).raftLog.lastIndex + 1 - nextIdx)).map (fullLog i past s) := by
  have hfilled := hsolid.filledTo (le_refl _)
  have hread : ((s.node i).raftLog.getRange nextIdx (s.node i).raftLog.lastIndex).map some = _ :=
    RaftLog.getRangeFrom_filled fun j hj hjn => hfilled j (by omega) (by omega)
  calc _ = (((s.node i).raftLog.getRange nextIdx (s.node i).raftLog.lastIndex).map some).map
        (Option.map Known.entry) := by simp
    _ = _ := by
      rw [hread, List.map_map]
      refine List.map_congr_left fun j hj => ?_
      have hge := (List.mem_range'_1.mp hj).1
      rw [fullLog_above (by omega)]
      rfl

/-- The term before the entries. -/
theorem trueTerm_prev (hsolid : (s.node i).raftLog.Solid)
    (htrue : TrueBounds (s.node i).raftLog (fullLog i past s))
    (hterms : HasTerms (s.node i).raftLog) {nextIdx : Nat}
    (hlt : (s.node i).raftLog.boundary < nextIdx)
    (hnext : nextIdx ≤ (s.node i).raftLog.lastIndex)
    (hcached : (s.node i).raftLog.snapshotIndex = (s.node i).raftLog.boundary ∨
      (s.node i).raftLog.boundary + 1 < nextIdx) :
    TrueTerm (fullLog i past s) (nextIdx - 1) ((s.node i).raftLog.termAt (nextIdx - 1)) := by
  have hle := hsolid.cached
  by_cases h0 : nextIdx - 1 = 0
  · exact Or.inl ⟨h0, by rw [h0]; rfl⟩
  · by_cases hb : nextIdx - 1 = (s.node i).raftLog.boundary
    · have hsame : (s.node i).raftLog.snapshotIndex = (s.node i).raftLog.boundary := by omega
      rw [RaftLog.termAt, if_neg h0, if_pos (hb.trans hsame.symm), htrue.cached hsame, hb]
      exact htrue.recorded (by omega)
    · have hstored := hsolid.filledTo hnext (nextIdx - 1) (by omega) (by omega)
      obtain ⟨e, he⟩ := Option.isSome_iff_exists.mp hstored
      rw [RaftLog.termAt, if_neg h0, if_neg (by omega), he]
      exact Or.inr ⟨by omega, hterms _ e he, .entry e, fullLog_stored he, rfl⟩

/-- **What a leader sends has no gap**, in a run whose compactions keep to the history, exactly if the
peer's `nextIndex` is not in the part that was compacted since the process started. -/
theorem sends_all_iff (h : Reaches E M store threshold KeepsHistory past s) {ls : LeaderState}
    {peer : NodeID} (hnext : ls.nextIndex.at peer ≤ (s.node i).raftLog.lastIndex) :
    SendsAll (fullLog i past s) (s.node i).raftLog (ls.nextIndex.at peer)
        ((s.node i).peerRequest ls peer) ↔
      NotBetween (s.node i).raftLog (ls.nextIndex.at peer) := by
  have hsolid := Reaches.solid (fun _ _ hok => hok.1) h i
  have htrue := (Reaches.trueBounds (fun _ _ hok => hok) h).1 i
  have hterms := (Reaches.hasTerms h).1 i
  have hle := hsolid.cached
  unfold RaftNode.peerRequest NotBetween
  dsimp only
  generalize ls.nextIndex.at peer = nextIdx at hnext ⊢
  by_cases hsnap : nextIdx ≤ (s.node i).raftLog.snapshotIndex
  · rw [if_pos hsnap]
    exact iff_of_true trivial (Or.inr (Or.inl hsnap))
  · rw [if_neg hsnap]
    simp only [SendsAll, ge_iff_le, if_pos hnext, true_and]
    constructor
    · rintro ⟨hentries, hprev⟩
      by_contra hbetween
      by_cases hb : nextIdx ≤ (s.node i).raftLog.boundary
      · -- the first entry is gone, and with it the whole range
        rw [RaftLog.getRange, RaftLog.getRangeFrom_missing (hsolid.get_of_le hb)] at hentries
        have hlen := congrArg List.length hentries
        simp only [List.map_nil, List.length_nil, List.length_map, List.length_range'] at hlen
        omega
      · -- the entry before the first one is gone
        rw [show nextIdx - 1 = (s.node i).raftLog.boundary by omega,
          hsolid.termAt_boundary (by omega)] at hprev
        rcases hprev with ⟨h0, _⟩ | ⟨_, hpos, _⟩
        · omega
        · exact absurd hpos (lt_irrefl 0)
    · intro hnot
      have hlt : (s.node i).raftLog.boundary < nextIdx := by omega
      exact ⟨map_getRange_fullLog hsolid hlt,
        trueTerm_prev hsolid htrue hterms hlt hnext (by omega)⟩

open Shipped (node1 node2 node3)

/-- `node-1` has compacted its first entry, died, and been elected again in term 2. -/
def electedAgain : List Event :=
  Shipped.compactedLeader ++ [.dies node1] ++ acts (Shipped.elect node1 2 3)

/-- It sends its new entry after the boundary that it has cached at its start. -/
theorem sends_all_iff_electedAgain : ∃ past s ls, Shipped.EagerReaches KeepsHistory past s ∧
    (s.node node1).leader = some ls ∧ ls.nextIndex.at node2 = 2 ∧ (s.node node1).raftLog.boundary = 1 ∧
    (s.node node1).raftLog.lastIndex = 2 ∧ NotBetween (s.node node1).raftLog (ls.nextIndex.at node2) ∧
    SendsAll (fullLog node1 past s) (s.node node1).raftLog (ls.nextIndex.at node2)
      ((s.node node1).peerRequest ls node2) := by
  have hrun := (Shipped.reaches_eagerPlay KeepsHistory electedAgain).mono fun _ _ h => h.1
  obtain ⟨ls, hls, hnext⟩ : ∃ ls ∈ ((Shipped.eagerPlay KeepsHistory electedAgain).2.node node1).leader,
      ls.nextIndex.at node2 = 2 := by decide +kernel
  have hlast : ((Shipped.eagerPlay KeepsHistory electedAgain).2.node node1).raftLog.lastIndex = 2 := by
    decide +kernel
  have hnot : NotBetween ((Shipped.eagerPlay KeepsHistory electedAgain).2.node node1).raftLog
      (ls.nextIndex.at node2) := Or.inl (by decide +kernel)
  exact ⟨_, _, ls, hrun, hls, hnext, by decide +kernel, hlast, hnot,
    (sends_all_iff hrun (by omega)).mpr hnot⟩

/-- `node-1` has committed and applied its no-op with the help of `node-2`, proposed a command, and
compacted the no-op; `node-3` has nothing yet. -/
def compactedFirst : List Event :=
  acts (Shipped.elect node1 0 1 ++ [.replicate node1 node2, .handleAppend 0, .appendReturn 0,
    .propose node1 ⟨.put, [1], [1], []⟩, .resume node1 0, .resume node1 0, .resume node1 0])

/-- The request for `node-3`, which starts at index 1, has no entries. -/
theorem compacted_entry_not_sent : ∃ past s ls req, Shipped.EagerReaches KeepsHistory past s ∧
    (s.node node1).leader = some ls ∧ ls.nextIndex.at node3 = 1 ∧
    (s.node node1).raftLog.lastIndex = 2 ∧
    fullLog node1 past s 1 = some (.entry ⟨1, 1, .noop⟩) ∧
    fullLog node1 past s 2 = some (.entry ⟨2, 1, ⟨.put, [1], [1], []⟩⟩) ∧
    (s.node node1).peerRequest ls node3 = .appendEntries req ∧ req.entries = [] ∧
    ¬ SendsAll (fullLog node1 past s) (s.node node1).raftLog (ls.nextIndex.at node3)
      ((s.node node1).peerRequest ls node3) := by
  have hrun := (Shipped.reaches_eagerPlay KeepsHistory compactedFirst).mono fun _ _ h => h.1
  obtain ⟨ls, hls, hnext, hsnap, hentries⟩ :
      ∃ ls ∈ ((Shipped.eagerPlay KeepsHistory compactedFirst).2.node node1).leader,
        ls.nextIndex.at node3 = 1 ∧
        ((Shipped.eagerPlay KeepsHistory compactedFirst).2.node node1).raftLog.snapshotIndex = 0 ∧
        ((Shipped.eagerPlay KeepsHistory compactedFirst).2.node node1).raftLog.getRange 1 2 = [] := by
    decide +kernel
  have hlast : ((Shipped.eagerPlay KeepsHistory compactedFirst).2.node node1).raftLog.lastIndex = 2 := by
    decide +kernel
  have hreq : ∃ req, ((Shipped.eagerPlay KeepsHistory compactedFirst).2.node node1).peerRequest ls node3 =
      .appendEntries req ∧ req.entries = [] := by
    refine ⟨_, if_neg (by omega), ?_⟩
    simp only [hnext, hlast, hentries]
    rfl
  obtain ⟨req, hreq, hempty⟩ := hreq
  refine ⟨_, _, ls, req, hrun, hls, hnext, hlast, by decide +kernel, by decide +kernel, hreq, hempty, ?_⟩
  rw [hreq, hnext]
  rintro ⟨hall, -⟩
  rw [hempty, hlast] at hall
  simp at hall

end Runs

end Cluster

end Raftrix
