import Raftrix.Cluster.Apply
import Raftrix.Node.Replay

/-!
# The loop of `applyCommitted`

`applyCommitted` moves the counter, the store and the waiters together, one committed entry at a time,
and stops at an entry it cannot read. It should end with every committed command applied, or with the
counter right before the entry it has to try again (`EndsWell`); and in both cases exactly the calls that
wait at the applied indices are told and forgotten (`AppliedTo`).

`Applies` is the loop as a relation, round by round; `applyCommitted_cases` says where the loop can end,
and each field of `AppliedTo` is an induction over the rounds. The counter is moved before the entry is
read, so a missing entry is passed, and **`apply_skips_nothing_iff`**: the loop ends well exactly if no
entry in its range is missing. `gap_passed_by`: the next call goes on behind the gap.
-/

namespace Raftrix

variable {σ : Type}

/-! ## What the loop should do -/

/-- `ch <- applyErr`, if a call waits at the index. -/
def Applied.send (calls : List Proposal) (a : Applied σ) : List Proposal :=
  match a.waiter with
  | none => calls
  | some id => calls.modify id fun p => { p with done := some a.result }

namespace RaftNode

/-- The commands ran one after another on the store, each with some outcome of its write. -/
def Ran (E : Engine σ) : σ → List (Applied σ) → σ → Prop
  | store, [], store' => store' = store
  | store, a :: rest, store' => a.store = store ∧ ∃ written,
      a.result = (applyCommand E written store a.entry.command).2 ∧
        Ran E (applyCommand E written store a.entry.command).1 rest store'

/-- The commands up to index `last` were applied, each once and in order; the calls registered at their
indices got one result each and are no longer registered. -/
structure AppliedTo (E : Engine σ) (n n' : RaftNode σ) (done : List (Applied σ)) (last : Nat) : Prop where
  indices : done.map Applied.index = List.range' (n.lastApplied + 1) (last - n.lastApplied)
  entries : ∀ a ∈ done, n.raftLog.get a.index = some a.entry
  store : Ran E n.storage done n'.storage
  waiters : ∀ a ∈ done, a.waiter = n.pending.lookup a.index
  told : n'.proposals = done.foldl Applied.send n.proposals
  removed : ∀ i, n'.pending.lookup i = if i ∈ done.map Applied.index then none else n.pending.lookup i
  counter : n'.lastApplied = last

/-- Everything committed is applied, or the loop stopped right before an entry it could not read. -/
def EndsWell (E : Engine σ) (n n' : RaftNode σ) (done : List (Applied σ)) : Prop :=
  AppliedTo E n n' done n.commitIndex ∨
    ∃ k, n.lastApplied < k ∧ k ≤ n.commitIndex ∧ n.raftLog.get k = none ∧ AppliedTo E n n' done (k - 1)

/-! ## The rounds -/

variable {E : Engine σ} {disk : Disk} {n m : RaftNode σ} {done : List (Applied σ)}

/-- The rounds that read their entry, from one struct to another. -/
inductive Applies (E : Engine σ) : RaftNode σ → List (Applied σ) → RaftNode σ → Prop
  | refl (n : RaftNode σ) : Applies E n [] n
  | round {n m : RaftNode σ} {e : LogEntry} {written : Bool} {done : List (Applied σ)}
      (hget : n.raftLog.get (n.lastApplied + 1) = some e)
      (h : Applies E (applyEntry E written { n with lastApplied := n.lastApplied + 1 } e).1 done m) :
      Applies E n ((applyEntry E written { n with lastApplied := n.lastApplied + 1 } e).2 :: done) m

/-- The loop runs through, or it meets a missing entry and passes it. -/
theorem applyFrom_cases (E : Engine σ) (disk : Disk) : ∀ (k fuel : Nat) (n : RaftNode σ),
    ∃ m, Applies E n (n.applyFrom E disk k fuel).2 m ∧
      ((n.applyFrom E disk k fuel).1 = m ∧ m.lastApplied = n.lastApplied + fuel ∨
        (n.applyFrom E disk k fuel).1 = { m with lastApplied := m.lastApplied + 1 } ∧
          n.raftLog.get (m.lastApplied + 1) = none ∧ m.lastApplied < n.lastApplied + fuel)
  | _, 0, n => ⟨n, .refl n, Or.inl ⟨rfl, rfl⟩⟩
  | k, fuel + 1, n => by
    cases hget : n.raftLog.get (n.lastApplied + 1) with
    | none =>
      rw [applyFrom_missing E disk hget]
      exact ⟨n, .refl n, Or.inr ⟨rfl, hget, by omega⟩⟩
    | some e =>
      rw [applyFrom_entry E disk hget]
      have hlog := (onlyApplies_applyEntry E (disk k) { n with lastApplied := n.lastApplied + 1 } e).raftLog
      have hcounter := lastApplied_applyEntry E (disk k) { n with lastApplied := n.lastApplied + 1 } e
      dsimp only at hlog hcounter ⊢
      obtain ⟨m, hm, hend⟩ := applyFrom_cases E disk (k + 1) fuel
        (applyEntry E (disk k) { n with lastApplied := n.lastApplied + 1 } e).1
      rw [hlog, hcounter] at hend
      refine ⟨m, .round hget hm, ?_⟩
      rcases hend with ⟨heq, hlast⟩ | ⟨heq, hnone, hlast⟩
      · exact Or.inl ⟨heq, by omega⟩
      · exact Or.inr ⟨heq, hnone, by omega⟩

/-- One round tells the call that waits at its index. -/
theorem send_applyEntry (E : Engine σ) (written : Bool) (n : RaftNode σ) (e : LogEntry) :
    (n.applyEntry E written e).1.proposals = (n.applyEntry E written e).2.send n.proposals := by
  unfold applyEntry Applied.send
  dsimp only
  cases n.pending.lookup n.lastApplied <;> dsimp only <;> split <;> rfl

/-- And forgets it. -/
theorem pending_applyEntry (E : Engine σ) (written : Bool) (n : RaftNode σ) (e : LogEntry) (i : Nat) :
    (n.applyEntry E written e).1.pending.lookup i =
      if i = n.lastApplied then none else n.pending.lookup i := by
  ext id
  rw [Cluster.lookup_applyEntry]
  by_cases hi : i = n.lastApplied
  · simp [hi]
  · simp [hi]

/-- **What the rounds have done**, by induction over them. -/
theorem Applies.appliedTo (h : Applies E n done m) :
    m.raftLog = n.raftLog ∧ AppliedTo E n m done (n.lastApplied + done.length) := by
  induction h with
  | refl n =>
    refine ⟨rfl, ⟨?_, fun _ ha => absurd ha List.not_mem_nil, rfl,
      fun _ ha => absurd ha List.not_mem_nil, rfl, fun i => ?_, rfl⟩⟩
    · simp
    · simp
  | @round n m e written done hget _ ih =>
    have hlog := (onlyApplies_applyEntry E written { n with lastApplied := n.lastApplied + 1 } e).raftLog
    have hcounter := lastApplied_applyEntry E written { n with lastApplied := n.lastApplied + 1 } e
    have hstore := storage_applyEntry E written { n with lastApplied := n.lastApplied + 1 } e
    have hsend := send_applyEntry E written { n with lastApplied := n.lastApplied + 1 } e
    have hpending := pending_applyEntry E written { n with lastApplied := n.lastApplied + 1 } e
    obtain ⟨hsame, hrest⟩ := ih
    dsimp only at hlog hcounter hstore hsend hpending
    have hindices := hrest.indices
    rw [hcounter, Nat.add_sub_cancel_left] at hindices
    -- the later rounds are at later indices
    have hlater : ∀ a ∈ done, a.index ≠ n.lastApplied + 1 := by
      intro a ha
      have hmem : a.index ∈ done.map Applied.index := List.mem_map_of_mem ha
      rw [hindices, List.mem_range'_1] at hmem
      omega
    refine ⟨hsame.trans hlog, ⟨?_, ?_, ?_, ?_, ?_, fun i => ?_, ?_⟩⟩
    · rw [List.map_cons, hindices, List.length_cons, Nat.add_sub_cancel_left, List.range'_succ]
      rfl
    · refine List.forall_mem_cons.mpr ⟨hget, fun a ha => ?_⟩
      rw [← hlog]
      exact hrest.entries a ha
    · have hran := hrest.store
      rw [hstore] at hran
      exact ⟨rfl, written, rfl, hran⟩
    · refine List.forall_mem_cons.mpr ⟨rfl, fun a ha => ?_⟩
      rw [hrest.waiters a ha, hpending, if_neg (hlater a ha)]
    · rw [hrest.told, hsend]
      rfl
    · rw [hrest.removed, hpending, List.map_cons]
      change _ = if i ∈ (n.lastApplied + 1) :: done.map Applied.index then none else _
      by_cases hi : i = n.lastApplied + 1
      · simp [hi]
      · simp [hi]
    · rw [hrest.counter, hcounter, List.length_cons]
      omega

/-- The rounds of `applyCommitted`, and how it ends. -/
theorem applyCommitted_cases (E : Engine σ) (disk : Disk) (n : RaftNode σ) :
    ∃ m, AppliedTo E n m (n.applyCommitted E disk).2 (n.lastApplied + (n.applyCommitted E disk).2.length) ∧
      ((n.applyCommitted E disk).1 = m ∧ m.lastApplied = n.lastApplied + (n.commitIndex - n.lastApplied) ∨
        (n.applyCommitted E disk).1 = { m with lastApplied := m.lastApplied + 1 } ∧
          n.raftLog.get (m.lastApplied + 1) = none ∧
            m.lastApplied < n.lastApplied + (n.commitIndex - n.lastApplied)) := by
  obtain ⟨m, hm, hend⟩ := applyFrom_cases E disk 0 (n.commitIndex - n.lastApplied) n
  exact ⟨m, hm.appliedTo.2, hend⟩

theorem AppliedTo.length {last : Nat} (h : AppliedTo E n m done last) :
    done.length = last - n.lastApplied := by
  rw [← List.length_map Applied.index, h.indices, List.length_range']

/-- An applied index had an entry. -/
theorem AppliedTo.isSome {last k : Nat} (h : AppliedTo E n m done last) (hk : n.lastApplied < k)
    (hle : k ≤ last) : (n.raftLog.get k).isSome = true := by
  have hmem : k ∈ done.map Applied.index := by
    rw [h.indices, List.mem_range'_1]
    omega
  obtain ⟨a, ha, rfl⟩ := List.mem_map.mp hmem
  rw [h.entries a ha, Option.isSome_some]

/-- **The apply loop ends well exactly if there is nothing to skip**: the counter is not beyond the commit
index already, and every entry between the two can be read. -/
theorem apply_skips_nothing_iff (E : Engine σ) (disk : Disk) (n : RaftNode σ) :
    EndsWell E n (n.applyCommitted E disk).1 (n.applyCommitted E disk).2 ↔
      n.lastApplied ≤ n.commitIndex ∧
        ∀ k, n.lastApplied < k → k ≤ n.commitIndex → (n.raftLog.get k).isSome = true := by
  obtain ⟨m, hm, hend⟩ := applyCommitted_cases E disk n
  constructor
  · rintro (hall | ⟨k, hlt, hle, hnone, hk⟩)
    · refine ⟨?_, fun k hlt hle => hall.isSome hlt hle⟩
      have hcount := hall.counter
      have hlen := hall.length
      have hm' := hm.counter
      rcases hend with ⟨hend, hto⟩ | ⟨hend, _, hto⟩
      · rw [hend] at hcount
        omega
      · omega
    · -- the counter is never right before a missing entry
      have hcount := hk.counter
      have hlen := hk.length
      have hm' := hm.counter
      rcases hend with ⟨hend, hto⟩ | ⟨hend, _, hto⟩
      · rw [hend] at hcount
        omega
      · rw [hend] at hcount
        dsimp only at hcount
        omega
  · rintro ⟨hle, hall⟩
    have hm' := hm.counter
    rcases hend with ⟨hend, hto⟩ | ⟨hend, hnone, hto⟩
    · left
      rw [hend, show n.commitIndex = n.lastApplied + (n.applyCommitted E disk).2.length by omega]
      exact hm
    · have hsome := hall (m.lastApplied + 1) (by omega) (by omega)
      rw [hnone] at hsome
      cases hsome

/-- A process that was started again on a log compacted up to index 1, and has heard from the leader that
2 is committed. -/
def startedAgain : RaftNode BoltEngine :=
  { Shipped.start.node Shipped.node2 with
    raftLog := ⟨Lib.Bucket.empty.put 2 ⟨2, 1, .put, [107], [118], []⟩, some (1, []), some (1, 1), 1, 1⟩
    currentTerm := 1
    commitIndex := 2 }

/-- **The loop passes a gap.** The entry at 1 is missing, nothing is applied, and the counter is at 1; the
next call applies the entry at 2. -/
theorem gap_passed_by :
    let first := startedAgain.applyCommitted Shipped.engine fun _ => true
    let second := first.1.applyCommitted Shipped.engine fun _ => true
    startedAgain.lastApplied = 0 ∧ startedAgain.raftLog.get 1 = none ∧
      first.2 = [] ∧ first.1.lastApplied = 1 ∧
      second.2.map Applied.index = [2] ∧ second.1.lastApplied = 2 ∧
      ¬ EndsWell Shipped.engine startedAgain first.1 first.2 := by
  refine ⟨rfl, by decide, rfl, rfl, rfl, rfl, ?_⟩
  rintro (h | ⟨k, hlt, hle, -, h⟩)
  · exact absurd h.counter (by decide)
  · have hcount : 1 = k - 1 := h.counter
    have hlen : 0 = k - 1 - 0 := h.length
    omega

end RaftNode

end Raftrix
