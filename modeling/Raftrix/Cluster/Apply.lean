import Raftrix.Cluster.Terms

/-!
# What is applied, and who is told

The part of a node that `applyCommitted` and `Propose` work on: `lastApplied`, the `Propose` calls and
the map from indices to their channels.

* `Service` lists what a step other than a run of `applyCommitted` does to it, and **`step_applied`**
  says that a step is one or the other, together with what becomes of the trace.
* `applyFrom_rounds` unrolls the loop of `applyCommitted` into rounds: what holds before the loop and is
  preserved by every round on an entry that is there holds after it.
-/

namespace Raftrix

namespace Cluster

variable {σ : Type} {E : Engine σ} {M : Membership} {disk : Disk} {s s' : Cluster σ} {a : Action}
  {st : Step} {i : NodeID} {n m : RaftNode σ}

/-- What a step does to the `Propose` calls of a node and to `lastApplied`, if it does not run
`applyCommitted` there. -/
inductive Service (s : Cluster σ) (st : Step) (i : NodeID) (n : RaftNode σ) : Prop
  | same (hpending : n.pending = (s.node i).pending) (hcalls : n.proposals = (s.node i).proposals)
      (hlast : n.lastApplied = (s.node i).lastApplied)
  | restarted (hpending : n.pending = ∅) (hcalls : n.proposals = []) (hlast : n.lastApplied = 0)
  | proposed {written : Bool} {cmd : Command} (hst : st.action? = some (.propose i cmd))
      (hlog : (s.node i).raftLog.append written ((s.node i).proposalEntry cmd) = some n.raftLog)
      (hpending : n.pending = (s.node i).pending.insert ((s.node i).proposalEntry cmd).index
        (s.node i).proposals.length)
      (hcalls : n.proposals = (s.node i).proposals ++
        [{ index := ((s.node i).proposalEntry cmd).index
           term := ((s.node i).proposalEntry cmd).term
           command := cmd }])
      (hlast : n.lastApplied = (s.node i).lastApplied)
  | released (id : Nat) (hlog : n.raftLog = (s.node i).raftLog)
      (hpending : n.pending = (s.node i).pending ∨
        ∃ index, n.pending = (s.node i).pending.erase index)
      (hcalls : n.proposals =
        (s.node i).proposals.modify id fun p => { p with waiting := false })
      (hlast : n.lastApplied = (s.node i).lastApplied)
  | installed {c : SnapshotCall} (hc : c ∈ s.snapshotCalls)
      (hpending : n.pending = (s.node i).pending) (hcalls : n.proposals = (s.node i).proposals)

theorem Joins.service {ok : Bool} {term : Nat} (hm : Joins ok (s.node i) term m)
    (hpending : n.pending = m.pending) (hcalls : n.proposals = m.proposals)
    (hlast : n.lastApplied = m.lastApplied) : Service s st i n := by
  cases hm <;> exact .same hpending hcalls hlast

theorem Move.service (hst : st.action? = some a) (h : Move E M disk s a i n)
    (ha : ∀ k, a ≠ .resume i k) : Service s st i n := by
  cases h with
  | panic => exact .restarted rfl rfl rfl
  | grant _ _ hm _ _ => exact hm.service rfl rfl rfl
  | propose _ hrl => exact .proposed hst hrl rfl rfl rfl
  | @receive i id => exact .released id rfl (Or.inl rfl) rfl rfl
  | @cancel i id p _ => exact .released id rfl (Or.inr ⟨p.index, rfl⟩) rfl rfl
  | mismatch _ _ hm => exact hm.service rfl rfl rfl
  | splice _ _ hm _ _ => exact hm.service rfl rfl rfl
  | restore _ hm => exact hm.service rfl rfl rfl
  | install hk hm _ =>
    have hc := List.mem_of_getElem? hk
    cases hm <;> exact .installed hc rfl rfl
  | apply => exact absurd rfl (ha _)
  | read => exact absurd rfl (ha _)
  | compact _ _ => exact absurd rfl (ha _)
  | _ => exact .same rfl rfl rfl

/-- The goroutines of `takeSnapshot` leave the service alone. -/
theorem service_runGoroutine (E : Engine σ) (disk : Disk) (s : Cluster σ) (i : NodeID) (k : Nat)
    {g : Goroutine} (hg : g ≠ .applyCommitted) :
    (s.runGoroutine E disk i k g).trace = s.trace ∧
      Service s st i ((s.runGoroutine E disk i k g).node i) := by
  cases g with
  | applyCommitted => exact absurd rfl hg
  | takeSnapshot index term =>
    simp only [runGoroutine]
    split
    · exact ⟨rfl, by rw [setNode_self]; exact .same rfl rfl rfl⟩
    · exact ⟨rfl, by rw [setNode_self]; exact .same rfl rfl rfl⟩
  | compactLog index term data =>
    refine ⟨rfl, ?_⟩
    simp only [runGoroutine, setNode_self]
    unfold RaftNode.compactLog
    split <;> exact .same rfl rfl rfl

theorem runGoroutine_other {j : NodeID} {k : Nat} {g : Goroutine} (hj : j ≠ i) :
    (s.runGoroutine E disk i k g).node j = s.node j := by
  cases g with
  | applyCommitted => exact setNode_other _ _ _ hj
  | takeSnapshot index term =>
    simp only [runGoroutine]
    split <;> exact setNode_other _ _ _ hj
  | compactLog index term data => exact setNode_other _ _ _ hj

theorem lose_trace (a : Action) : (s.lose a).trace = s.trace := by
  cases a <;> rfl

/-- Every node, from the moved one and the untouched others. -/
theorem forall_service {i : NodeID} (hi : Service s st i (s'.node i))
    (hother : ∀ j, j ≠ i → s'.node j = s.node j) (j : NodeID) : Service s st j (s'.node j) := by
  by_cases hj : j = i
  · rw [hj]
    exact hi
  · rw [hother j hj]
    exact .same rfl rfl rfl

/-- A step runs `applyCommitted` on `i`, and the trace gets what it applied. -/
def AppliedAt (E : Engine σ) (s s' : Cluster σ) (i : NodeID) : Prop :=
  ∃ disk gs gs', s'.node i = { (({ s.node i with goroutines := gs }).applyCommitted E disk).1 with
      goroutines := gs' } ∧
    s'.trace = s.trace ++
      (({ s.node i with goroutines := gs }).applyCommitted E disk).2.map fun a => (i, a)

/-- **A step serves the nodes or runs `applyCommitted` on one of them.** -/
theorem step_applied (h : s.step E M st = some s') :
    (s'.trace = s.trace ∧ ∀ i, Service s st i (s'.node i)) ∨
      ∃ i, AppliedAt E s s' i ∧ ∀ j, j ≠ i → s'.node j = s.node j := by
  cases step_cases h with
  | @crash i =>
    refine Or.inl ⟨rfl, forall_service (i := i) ?_ fun j hj => restart_other _ hj⟩
    rw [restart_self]
    exact .restarted rfl rfl rfl
  | @crashDuring a cut i s₁ _ _ _ =>
    refine Or.inl ⟨lose_trace a, forall_service (i := i) ?_ fun j hj => ?_⟩
    · rw [restart_self]
      exact .restarted rfl rfl rfl
    · rw [restart_other _ hj, lose_node]
  | @applyRead disk i k reads hg =>
    refine Or.inr ⟨i, ⟨disk, (s.node i).goroutines.eraseIdx k, s.goroutinesAfter E disk i k reads, ?_,
      rfl⟩, fun j hj => ?_⟩
    · rw [setNode_self, runGoroutine_apply]
    · rw [setNode_other _ _ _ hj]
      exact runGoroutine_other hj
  | @act disk a _ hx =>
    -- everything but the goroutines goes through the node's move
    have hmove : (∀ i k, a ≠ .resume i k) → ∀ i, Service s (.act disk a) i (s'.node i) := by
      intro ha
      obtain ⟨i, _, hmv, hother⟩ := hx.move
      exact forall_service (hmv.service rfl (ha i)) hother
    cases hx with
    | @resumed i k g hg =>
      by_cases hap : g = .applyCommitted
      · subst hap
        exact Or.inr ⟨i, ⟨disk, (s.node i).goroutines.eraseIdx k, _, runGoroutine_apply, rfl⟩,
          fun j hj => runGoroutine_other hj⟩
      · obtain ⟨htrace, hsv⟩ := service_runGoroutine E disk s i k hap
        exact Or.inl ⟨htrace, forall_service hsv fun j hj => runGoroutine_other hj⟩
    | finished _ _ => exact Or.inl ⟨endElection_trace _ _ _, hmove fun _ _ => by simp⟩
    | sent _ _ _ _ => exact Or.inl ⟨sendTo_trace _ _ _, hmove fun _ _ => by simp⟩
    | _ => exact Or.inl ⟨rfl, hmove fun _ _ => by simp⟩

/-- What is in the trace stays there. -/
theorem trace_mono (h : s.step E M st = some s') {x : NodeID × Applied σ} (hx : x ∈ s.trace) :
    x ∈ s'.trace := by
  rcases step_applied h with ⟨heq, _⟩ | ⟨i, ⟨_, _, _, _, heq⟩, _⟩
  · rw [heq]
    exact hx
  · rw [heq]
    exact List.mem_append_left _ hx

/-! ## The loop of `applyCommitted` -/

/-- Reading a slot of `pending` when one has been emptied. -/
theorem lookup_erase_eq_some {slots : AList fun _ : Nat => Nat} {index j id : Nat} :
    (slots.erase j).lookup index = some id ↔ index ≠ j ∧ slots.lookup index = some id := by
  by_cases h : index = j
  · subst h
    simp [AList.lookup_erase]
  · rw [AList.lookup_erase_ne h, and_iff_right h]

/-- Reading a slot of `pending` when one has been taken. -/
theorem lookup_insert_eq_some {slots : AList fun _ : Nat => Nat} {index j id id' : Nat} :
    (slots.insert j id').lookup index = some id ↔
      index = j ∧ id = id' ∨ index ≠ j ∧ slots.lookup index = some id := by
  by_cases h : index = j
  · subst h
    simp [AList.lookup_insert, eq_comm]
  · simp [AList.lookup_insert_ne h, h]

/-- A round of `applyCommitted` empties the slot of its index. -/
theorem lookup_applyEntry {written : Bool} {e : LogEntry} {index id : Nat} :
    (n.applyEntry E written e).1.pending.lookup index = some id ↔
      index ≠ n.lastApplied ∧ n.pending.lookup index = some id := by
  cases hl : n.pending.lookup n.lastApplied with
  | none =>
    have hpending : (n.applyEntry E written e).1.pending = n.pending := by
      unfold RaftNode.applyEntry
      simp only [hl]
      split <;> rfl
    rw [hpending]
    refine ⟨fun h => ⟨?_, h⟩, fun h => h.2⟩
    rintro rfl
    rw [hl] at h
    exact absurd h (by simp)
  | some id₀ =>
    have hpending : (n.applyEntry E written e).1.pending = n.pending.erase n.lastApplied := by
      unfold RaftNode.applyEntry
      simp only [hl]
      split <;> rfl
    rw [hpending]
    exact lookup_erase_eq_some

/-- A round of `applyCommitted` gives its result to the call in the slot of its index. -/
theorem proposals_applyEntry (written : Bool) (e : LogEntry) (id : Nat) :
    (n.applyEntry E written e).1.proposals[id]? = n.proposals[id]?.map fun p =>
      if n.pending.lookup n.lastApplied = some id then
        { p with done := some (n.applyEntry E written e).2.result }
      else p := by
  cases hl : n.pending.lookup n.lastApplied with
  | none =>
    have hcalls : (n.applyEntry E written e).1.proposals = n.proposals := by
      unfold RaftNode.applyEntry
      simp only [hl]
      split <;> rfl
    simp [hcalls]
  | some id₀ =>
    have hcalls : (n.applyEntry E written e).1.proposals = n.proposals.modify id₀ (fun p =>
        { p with done := some (n.applyEntry E written e).2.result }) := by
      unfold RaftNode.applyEntry
      simp only [hl]
      split <;> rfl
    rw [hcalls, List.getElem?_modify]
    simp only [Option.some.injEq]
    rfl

theorem proposals_applyEntry_of_ne (written : Bool) (e : LogEntry) {id : Nat} {p : Proposal}
    (hp : n.proposals[id]? = some p) (hslot : n.pending.lookup n.lastApplied ≠ some id) :
    (n.applyEntry E written e).1.proposals[id]? = some p := by
  rw [proposals_applyEntry, hp, Option.map_some, if_neg hslot]

/-- **The rounds of the loop.** `P` is about a node and what has been applied so far; a round applies
the entry after `lastApplied`, or finds none there and ends the loop. -/
theorem applyFrom_rounds (E : Engine σ) (disk : Disk) {c : Nat}
    {P : RaftNode σ → List (Applied σ) → Prop}
    (hround : ∀ (written : Bool) n e done, n.raftLog.get (n.lastApplied + 1) = some e →
      n.lastApplied < c → P n done →
      P (RaftNode.applyEntry E written { n with lastApplied := n.lastApplied + 1 } e).1
        (done ++ [(RaftNode.applyEntry E written
          { n with lastApplied := n.lastApplied + 1 } e).2]))
    (hmissing : ∀ n done, n.raftLog.get (n.lastApplied + 1) = none → n.lastApplied < c → P n done →
      P { n with lastApplied := n.lastApplied + 1 } done) :
    ∀ (k fuel : Nat) (n : RaftNode σ) (done : List (Applied σ)), n.lastApplied + fuel ≤ c →
      P n done → P (n.applyFrom E disk k fuel).1 (done ++ (n.applyFrom E disk k fuel).2)
  | _, 0, n, done, _, h => by
    rw [RaftNode.applyFrom, List.append_nil]
    exact h
  | k, fuel + 1, n, done, hc, h => by
    cases hget : n.raftLog.get (n.lastApplied + 1) with
    | none =>
      rw [RaftNode.applyFrom_missing E disk hget, List.append_nil]
      exact hmissing n done hget (by omega) h
    | some e =>
      rw [RaftNode.applyFrom_entry E disk hget]
      have hnext := applyFrom_rounds E disk hround hmissing (k + 1) fuel _ _
        (by rw [RaftNode.lastApplied_applyEntry]; dsimp only; omega)
        (hround (disk k) n e done hget (by omega) h)
      rw [List.append_assoc] at hnext
      exact hnext

/-- What `applyCommitted` keeps, from its rounds. -/
theorem applyCommitted_rounds (E : Engine σ) (disk : Disk)
    {P : RaftNode σ → List (Applied σ) → Prop} {n : RaftNode σ}
    (hround : ∀ (written : Bool) m e done, m.raftLog.get (m.lastApplied + 1) = some e →
      m.lastApplied < max n.commitIndex n.lastApplied → P m done →
      P (RaftNode.applyEntry E written { m with lastApplied := m.lastApplied + 1 } e).1
        (done ++ [(RaftNode.applyEntry E written
          { m with lastApplied := m.lastApplied + 1 } e).2]))
    (hmissing : ∀ m done, m.raftLog.get (m.lastApplied + 1) = none →
      m.lastApplied < max n.commitIndex n.lastApplied → P m done →
      P { m with lastApplied := m.lastApplied + 1 } done)
    (h : P n []) : P (n.applyCommitted E disk).1 (n.applyCommitted E disk).2 :=
  applyFrom_rounds E disk hround hmissing 0 _ n [] (by omega) h

end Cluster

end Raftrix
