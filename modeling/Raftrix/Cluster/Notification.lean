import Raftrix.Cluster.Apply
import Raftrix.Cluster.Shipped
import Raftrix.Log.Holds

/-!
# No lost notification

A `Propose` call waits on a channel that it has put into `pending` under the index of its entry. There is
one slot for each index: a later call for the same index replaces the channel, and a call whose context
ends empties the slot, whoever is in it.

`Registered` says that the slots and the waiting calls fit together: a channel in a slot belongs to a call
for that index without a result, a blocked call is in the slot of its index, and the index of a call that
has been told its result has been passed. `applyCommitted` keeps it and answers every waiting call whose
index it applies (`Registered.applyCommitted`).

**`waiting_call_notified`**: in every run in which no call is registered at, or cancelled from, an index on
which another call is blocked (`OwnSlot`), and no snapshot takes a node back behind the index of a call
that has been told but has not returned (`KeepsTold`), a call that is waiting when its node applies the
entry at its index gets the result. Without the first condition two calls of different leaderships get in
each other's way (`notification_lost`).
-/

namespace Raftrix

/-- The call waits and its channel is empty. -/
def Proposal.Blocked (p : Proposal) : Prop := p.waiting = true ∧ p.done = none

instance (p : Proposal) : Decidable p.Blocked := inferInstanceAs (Decidable (_ ∧ _))

namespace Cluster

variable {σ : Type} {E : Engine σ} {M : Membership} {disk : Disk} {s s' : Cluster σ} {a : Action}
  {st : Step} {i : NodeID} {n m : RaftNode σ}

/-! ## Slots and blocked calls -/

/-- The slots of `pending` and the blocked calls fit together. -/
structure Registered (n : RaftNode σ) : Prop where
  /-- A channel in a slot belongs to a call for that index without a result. -/
  call : ∀ index id, n.pending.lookup index = some id →
    ∃ p, n.proposals[id]? = some p ∧ p.index = index ∧ p.done = none
  /-- A blocked call is in the slot of its index. -/
  slot : ∀ id p, n.proposals[id]? = some p → p.Blocked → n.pending.lookup p.index = some id
  /-- The index of a waiting call that has its result has been passed. -/
  told : ∀ (id : Nat) (p : Proposal), n.proposals[id]? = some p → p.waiting = true → p.done ≠ none →
    p.index ≤ n.lastApplied

theorem Registered.congr (h : Registered n) (hpending : m.pending = n.pending)
    (hcalls : m.proposals = n.proposals) (hlast : n.lastApplied ≤ m.lastApplied) : Registered m := by
  constructor
  · rw [hpending, hcalls]
    exact h.call
  · rw [hpending, hcalls]
    exact h.slot
  · rw [hcalls]
    exact fun id p hp hw hd => (h.told id p hp hw hd).trans hlast

theorem registered_newRaftNode (E : Engine σ) (n : RaftNode σ) : Registered (n.newRaftNode E) :=
  ⟨fun index id hl => absurd hl (by simp [RaftNode.newRaftNode]),
    fun id p hp => absurd hp (by simp [RaftNode.newRaftNode]),
    fun id p hp => absurd hp (by simp [RaftNode.newRaftNode])⟩

/-- **A round of `applyCommitted`** answers the call that is blocked on the index, and touches no call
for another index and none that has a result. -/
theorem Registered.applyEntry (h : Registered n) (written : Bool) (e : LogEntry) :
    Registered (n.applyEntry E written e).1 ∧
      ∀ id p, n.proposals[id]? = some p →
        (p.index = n.lastApplied → p.Blocked → (n.applyEntry E written e).2.waiter = some id ∧
          (n.applyEntry E written e).1.proposals[id]? =
            some { p with done := some (n.applyEntry E written e).2.result }) ∧
        (p.index ≠ n.lastApplied ∨ p.done ≠ none →
          (n.applyEntry E written e).1.proposals[id]? = some p) := by
  have hlast := RaftNode.lastApplied_applyEntry E written n e
  -- the call in the slot is for this index and has no result
  have hslot : ∀ (id : Nat) (p : Proposal), n.proposals[id]? = some p →
      p.index ≠ n.lastApplied ∨ p.done ≠ none →
      n.pending.lookup n.lastApplied ≠ some id := by
    intro id p hp hne hl
    obtain ⟨q, hq, hidx, hnone⟩ := h.call _ _ hl
    rw [hp] at hq
    obtain rfl := Option.some.inj hq
    exact hne.elim (fun h => h hidx) fun h => h hnone
  have hkeep : ∀ (id : Nat) (p : Proposal), n.proposals[id]? = some p →
      p.index ≠ n.lastApplied ∨ p.done ≠ none →
      (n.applyEntry E written e).1.proposals[id]? = some p := fun id p hp hne =>
    proposals_applyEntry_of_ne written e hp (hslot id p hp hne)
  refine ⟨⟨fun index id hl => ?_, fun id p hp hblocked => ?_, fun id p hp hw hd => ?_⟩,
    fun id p hp => ⟨fun hidx hblocked => ?_, hkeep id p hp⟩⟩
  · obtain ⟨hne, hl⟩ := lookup_applyEntry.mp hl
    obtain ⟨p, hp, rfl, hnone⟩ := h.call _ _ hl
    exact ⟨p, hkeep id p hp (Or.inl hne), rfl, hnone⟩
  · rw [proposals_applyEntry] at hp
    obtain ⟨q, hq, rfl⟩ := Option.map_eq_some_iff.mp hp
    split at hblocked
    · exact absurd hblocked.2 (by simp)
    · rename_i hne
      rw [if_neg hne]
      have hq' := h.slot id q hq hblocked
      refine lookup_applyEntry.mpr ⟨fun hidx => hne ?_, hq'⟩
      rw [← hidx, hq']
  · rw [hlast]
    rw [proposals_applyEntry] at hp
    obtain ⟨q, hq, rfl⟩ := Option.map_eq_some_iff.mp hp
    by_cases hl : n.pending.lookup n.lastApplied = some id
    · rw [if_pos hl]
      by_contra hlt
      exact hslot id q hq (Or.inl fun hidx => hlt hidx.le) hl
    · rw [if_neg hl] at hw hd ⊢
      exact h.told id q hq hw hd
  · have hl := h.slot id p hp hblocked
    rw [hidx] at hl
    refine ⟨hl, ?_⟩
    rw [proposals_applyEntry, hp, Option.map_some, if_pos hl]

/-- Where `applyCommitted`, started on `n`, stands when it has applied `done` and reached `m`: a call that
was blocked at the start still is, or it has got what was applied at its index. -/
structure Answering (n m : RaftNode σ) (done : List (Applied σ)) : Prop where
  registered : Registered m
  grown : n.lastApplied ≤ m.lastApplied
  range : ∀ a ∈ done, n.lastApplied < a.index ∧ a.index ≤ m.lastApplied
  call : ∀ id p, n.proposals[id]? = some p → p.Blocked →
    (∀ a ∈ done, a.index ≠ p.index) ∧ m.proposals[id]? = some p ∨
    p.index ≤ m.lastApplied ∧ ∃ r, m.proposals[id]? = some { p with done := some r } ∧
      ∀ a ∈ done, a.index = p.index → a.waiter = some id ∧ a.result = r

theorem Registered.answering (h : Registered n) : Answering n n [] where
  registered := h
  grown := le_refl _
  range := fun _ ha => absurd ha List.not_mem_nil
  call := fun _ _ hp _ => Or.inl ⟨fun _ ha => absurd ha List.not_mem_nil, hp⟩

/-- The loop passes an index. -/
theorem Answering.pass {done : List (Applied σ)} (h : Answering n m done) :
    Answering n { m with lastApplied := m.lastApplied + 1 } done where
  registered := h.registered.congr rfl rfl (Nat.le_succ _)
  grown := h.grown.trans (Nat.le_succ _)
  range := fun a ha => ⟨(h.range a ha).1, (h.range a ha).2.trans (Nat.le_succ _)⟩
  call := fun id p hp hblocked =>
    (h.call id p hp hblocked).imp_right fun h => ⟨h.1.trans (Nat.le_succ _), h.2⟩

/-- The loop applies the entry at the next index. -/
theorem Answering.round {done : List (Applied σ)} (h : Answering n m done) (written : Bool)
    (e : LogEntry) :
    Answering n (RaftNode.applyEntry E written { m with lastApplied := m.lastApplied + 1 } e).1
      (done ++ [(RaftNode.applyEntry E written
        { m with lastApplied := m.lastApplied + 1 } e).2]) := by
  obtain ⟨hnext, hround⟩ := h.pass.registered.applyEntry (E := E) written e
  have hlast := RaftNode.lastApplied_applyEntry E written
    { m with lastApplied := m.lastApplied + 1 } e
  refine ⟨hnext, by rw [hlast]; exact h.pass.grown, fun a ha => ?_, fun id p hp hblocked => ?_⟩
  · rw [hlast]
    rcases List.mem_append.mp ha with ha | ha
    · exact h.pass.range a ha
    · rw [List.mem_singleton.mp ha]
      exact ⟨Nat.lt_succ_of_le h.grown, le_refl _⟩
  · rcases h.call id p hp hblocked with ⟨hnone, hstill⟩ | ⟨hpast, r, hdone, hall⟩
    · obtain ⟨hanswer, hkeep⟩ := hround id p hstill
      by_cases hidx : p.index = m.lastApplied + 1
      · obtain ⟨hwaiter, hgot⟩ := hanswer hidx hblocked
        refine Or.inr ⟨by rw [hlast, hidx], _, hgot, fun a ha hai => ?_⟩
        rcases List.mem_append.mp ha with ha | ha
        · exact absurd hai (hnone a ha)
        · rw [List.mem_singleton.mp ha]
          exact ⟨hwaiter, rfl⟩
      · refine Or.inl ⟨fun a ha => ?_, hkeep (Or.inl hidx)⟩
        rcases List.mem_append.mp ha with ha | ha
        · exact hnone a ha
        · rw [List.mem_singleton.mp ha]
          exact Ne.symm hidx
    · refine Or.inr ⟨by rw [hlast]; exact hpast.trans (Nat.le_succ _), r,
        (hround id _ hdone).2 (Or.inr (by simp)), fun a ha hai => ?_⟩
      rcases List.mem_append.mp ha with ha | ha
      · exact hall a ha hai
      · -- the index of the call has been passed
        rw [List.mem_singleton.mp ha] at hai
        have hnew : m.lastApplied + 1 = p.index := hai
        omega

/-- **A run of `applyCommitted`** answers every waiting call whose index it applies. -/
theorem Registered.applyCommitted (h : Registered n) (disk : Disk) :
    Registered (n.applyCommitted E disk).1 ∧
      ∀ id p, n.proposals[id]? = some p → p.waiting = true →
        ∀ a ∈ (n.applyCommitted E disk).2, a.index = p.index →
          a.waiter = some id ∧ (n.applyCommitted E disk).1.proposals[id]? =
            some { p with done := some a.result } := by
  have hrun := applyCommitted_rounds E disk (P := Answering n)
    (fun written _ e _ _ _ hP => hP.round written e) (fun _ _ _ _ hP => hP.pass) h.answering
  refine ⟨hrun.registered, fun id p hp hwaiting a ha hidx => ?_⟩
  have hblocked : p.Blocked := by
    refine ⟨hwaiting, ?_⟩
    by_contra hd
    have := h.told id p hp hwaiting hd
    have := (hrun.range a ha).1
    omega
  rcases hrun.call id p hp hblocked with ⟨hnone, _⟩ | ⟨_, r, hdone, hall⟩
  · exact absurd hidx (hnone a ha)
  · obtain ⟨hwaiter, rfl⟩ := hall a ha hidx
    exact ⟨hwaiter, hdone⟩

/-! ## Runs -/

/-- No call other than the one at `id` is blocked on the index. -/
def AloneAt (n : RaftNode σ) (id index : Nat) : Prop :=
  ∀ id' < n.proposals.length, ∀ q ∈ n.proposals[id']?, q.Blocked → q.index = index → id' = id

instance (n : RaftNode σ) (id index : Nat) : Decidable (AloneAt n id index) := by
  unfold AloneAt
  infer_instance

/-- A call is not registered at, nor cancelled from, an index on which another call is blocked. -/
def OwnSlot (s : Cluster σ) (st : Step) : Prop :=
  match st.action? with
  | some (.propose i cmd) => (s.node i).state = .leader →
      AloneAt (s.node i) (s.node i).proposals.length ((s.node i).proposalEntry cmd).index
  | some (.cancel i id) =>
    ∀ p ∈ (s.node i).proposals[id]?, AloneAt (s.node i) id p.index
  | _ => True

instance (s : Cluster σ) (st : Step) : Decidable (OwnSlot s st) :=
  decidable_of_iff ((match st.action? with
    | some (.propose i cmd) => decide ((s.node i).state = .leader →
        AloneAt (s.node i) (s.node i).proposals.length ((s.node i).proposalEntry cmd).index)
    | some (.cancel i id) =>
      decide (∀ p ∈ (s.node i).proposals[id]?, AloneAt (s.node i) id p.index)
    | _ => true) = true) (by unfold OwnSlot; split <;> simp only [decide_eq_true_iff])

/-- A snapshot does not take a node back behind the index of a call that has been told its result but has
not returned yet. -/
def KeepsTold (s : Cluster σ) (st : Step) : Prop :=
  match st.action? with
  | some (.handleSnapshot k) =>
    ∀ c ∈ s.snapshotCalls[k]?, (s.node c.dst).currentTerm ≤ c.req.term →
      ∀ p ∈ (s.node c.dst).proposals, p.waiting = true → p.done ≠ none →
        p.index ≤ c.req.lastIncludedIndex
  | _ => True

instance (s : Cluster σ) (st : Step) : Decidable (KeepsTold s st) :=
  decidable_of_iff ((match st.action? with
    | some (.handleSnapshot k) =>
      decide (∀ c ∈ s.snapshotCalls[k]?, (s.node c.dst).currentTerm ≤ c.req.term →
        ∀ p ∈ (s.node c.dst).proposals, p.waiting = true → p.done ≠ none →
          p.index ≤ c.req.lastIncludedIndex)
    | _ => true) = true) (by unfold KeepsTold; split <;> simp only [decide_eq_true_iff])

theorem AloneAt.eq {id id' index : Nat} (h : AloneAt n id index) {q : Proposal}
    (hq : n.proposals[id']? = some q) (hblocked : q.Blocked) (hidx : q.index = index) : id' = id :=
  h id' (List.getElem?_eq_some_iff.mp hq).1 q hq hblocked hidx

/-- A call enters, and takes the slot of its index. -/
theorem Registered.register (h : Registered n) {p : Proposal} (hnone : p.done = none)
    (halone : AloneAt n n.proposals.length p.index)
    (hpending : m.pending = n.pending.insert p.index n.proposals.length)
    (hcalls : m.proposals = n.proposals ++ [p]) (hlast : m.lastApplied = n.lastApplied) :
    Registered m := by
  constructor
  · intro index id hl
    rw [hpending] at hl
    rcases lookup_insert_eq_some.mp hl with ⟨rfl, rfl⟩ | ⟨_, hl⟩
    · exact ⟨p, by rw [hcalls, List.getElem?_concat_length], rfl, hnone⟩
    · obtain ⟨q, hq, hidx, hnone⟩ := h.call index id hl
      refine ⟨q, ?_, hidx, hnone⟩
      rw [hcalls, List.getElem?_append_left (List.getElem?_eq_some_iff.mp hq).1]
      exact hq
  · intro id q hq hblocked
    rw [hcalls] at hq
    rw [hpending]
    rcases getElem?_concat_cases hq with hq | ⟨rfl, rfl⟩
    · refine lookup_insert_eq_some.mpr (Or.inr ⟨fun hidx => ?_, h.slot id q hq hblocked⟩)
      have hid := halone.eq hq hblocked hidx
      have := (List.getElem?_eq_some_iff.mp hq).1
      omega
    · exact AList.lookup_insert _
  · intro id q hq hw hd
    rw [hcalls] at hq
    rw [hlast]
    rcases getElem?_concat_cases hq with hq | ⟨_, rfl⟩
    · exact h.told id q hq hw hd
    · exact absurd hnone hd

/-- The call at `id` returns, and the slot of its index is left alone or emptied. -/
theorem Registered.release (h : Registered n) (id : Nat)
    (hpending : m.pending = n.pending ∨
      ∃ p, n.proposals[id]? = some p ∧ AloneAt n id p.index ∧ m.pending = n.pending.erase p.index)
    (hcalls : m.proposals = n.proposals.modify id fun p => { p with waiting := false })
    (hlast : m.lastApplied = n.lastApplied) : Registered m := by
  -- a call that still waits is not the one that returns
  have hwaits : ∀ id' q, m.proposals[id']? = some q → q.waiting = true →
      n.proposals[id']? = some q ∧ id ≠ id' := by
    intro id' q hq hw
    rw [hcalls, List.getElem?_modify] at hq
    obtain ⟨q₀, hq₀, hf⟩ := Option.map_eq_some_iff.mp hq
    by_cases hid : id = id'
    · rw [if_pos hid] at hf
      subst hf
      exact absurd hw (by simp)
    · rw [if_neg hid] at hf
      subst hf
      exact ⟨hq₀, hid⟩
  constructor
  · intro index id' hl
    have hold : n.pending.lookup index = some id' := by
      rcases hpending with hpending | ⟨p, _, _, hpending⟩
      · rw [hpending] at hl
        exact hl
      · rw [hpending] at hl
        exact (lookup_erase_eq_some.mp hl).2
    obtain ⟨q, hq, hidx, hnone⟩ := h.call index id' hold
    rw [hcalls, List.getElem?_modify, hq]
    by_cases hid : id = id'
    · exact ⟨{ q with waiting := false }, congrArg some (if_pos hid), hidx, hnone⟩
    · exact ⟨q, congrArg some (if_neg hid), hidx, hnone⟩
  · intro id' q hq hblocked
    obtain ⟨hq, hid⟩ := hwaits id' q hq hblocked.1
    have hslot := h.slot id' q hq hblocked
    rcases hpending with hpending | ⟨p, _, halone, hpending⟩
    · rw [hpending]
      exact hslot
    · rw [hpending, AList.lookup_erase_ne, hslot]
      intro hidx
      exact hid (halone.eq hq hblocked hidx).symm
  · intro id' q hq hw hd
    rw [hlast]
    exact h.told id' q (hwaits id' q hq hw).1 hw hd

theorem Joins.registered {written : Bool} {term : Nat} (hm : Joins written n term m)
    (h : Registered n) : Registered m := by
  cases hm with
  | same _ => exact h
  | down _ => exact h.congr rfl rfl (le_refl _)

theorem Move.registered (hmove : Move E M disk s a i n) (hst : st.action? = some a)
    (hown : OwnSlot s st) (hkeep : KeepsTold s st) (h : Registered (s.node i)) : Registered n := by
  unfold OwnSlot at hown
  unfold KeepsTold at hkeep
  rw [hst] at hown hkeep
  cases hmove with
  | panic => exact registered_newRaftNode E _
  | grant _ _ hm _ _ => exact (hm.registered h).congr rfl rfl (le_refl _)
  | @propose i cmd rl hrole _ =>
    exact h.register rfl (hown hrole) rfl rfl rfl
  | @receive i id => exact h.release id (Or.inl rfl) rfl rfl
  | @cancel i id p hp => exact h.release id (Or.inr ⟨p, hp, hown p hp, rfl⟩) rfl rfl
  | mismatch _ _ hm => exact (hm.registered h).congr rfl rfl (le_refl _)
  | splice _ _ hm _ _ => exact (hm.registered h).congr rfl rfl (le_refl _)
  | restore _ hm => exact (hm.registered h).congr rfl rfl (le_refl _)
  | install hk hm _ =>
    have hm' := hm.registered h
    refine ⟨hm'.call, hm'.slot, fun id p hp hw hd => hkeep _ hk hm.le p ?_ hw hd⟩
    refine List.mem_of_getElem? (i := id) ?_
    cases hm <;> exact hp
  | @apply i k gs =>
    have hg : Registered { s.node i with goroutines := gs } := h.congr rfl rfl (le_refl _)
    exact (hg.applyCommitted disk).1
  | _ => exact h.congr rfl rfl (le_refl _)

section Runs

variable {store : NodeID → σ} {threshold : NodeID → Int} {ok : Cluster σ → Step → Prop}
  {past : List (Cluster σ × Step)}

/-- **The slots and the waiting calls of every node fit together.** -/
theorem Reaches.registered (hown : ∀ s st, ok s st → OwnSlot s st)
    (hkeep : ∀ s st, ok s st → KeepsTold s st) (h : Reaches E M store threshold ok past s)
    (i : NodeID) : Registered (s.node i) := by
  refine Reaches.forall_node (P := fun _ n => Registered n) (fun i => ?_) ?_ h i
  · exact ⟨fun index id hl => absurd hl (by simp [init]), fun id p hp => absurd hp (by simp [init]),
      fun id p hp => absurd hp (by simp [init])⟩
  · intro past s st i n _ hinv hok hmoved
    cases hmoved with
    | act hmove => exact hmove.registered rfl (hown _ _ hok) (hkeep _ _ hok) (hinv _)
    | crash => exact registered_newRaftNode E _
    | crashDuring _ _ => exact registered_newRaftNode E _
    | applyRead hmove _ =>
      exact (hmove.registered rfl (hown _ _ hok) (hkeep _ _ hok) (hinv _)).congr rfl rfl (le_refl _)

/-- **A waiting call is told what is applied at its index.** In every run in which no call is registered
at, or cancelled from, an index on which another call of the node is blocked, and no snapshot takes a node
back behind the index of a call that has been told but has not returned: whenever a step applies an entry
at the index of a call that waits before the step, in particular the entry the call has appended, that
call's channel is the one that gets the result. -/
theorem waiting_call_notified
    (h : Reaches E M store threshold (fun s st => OwnSlot s st ∧ KeepsTold s st) past s)
    (hs : s.step E M st = some s') {a : Applied σ} {id : Nat} {p : Proposal}
    (ha : (i, a) ∈ s'.trace.drop s.trace.length) (hp : (s.node i).proposals[id]? = some p)
    (hwaiting : p.waiting = true) (hindex : a.index = p.index) :
    a.waiter = some id ∧ (s'.node i).proposals[id]? = some { p with done := some a.result } := by
  rcases step_applied hs with ⟨htrace, _⟩ | ⟨j, ⟨disk, gs, gs', hnode, htrace⟩, _⟩
  · rw [htrace, List.drop_length] at ha
    exact absurd ha List.not_mem_nil
  · rw [htrace, List.drop_left] at ha
    obtain ⟨b, hb, heq⟩ := List.mem_map.mp ha
    obtain ⟨rfl, rfl⟩ := Prod.mk.inj heq
    have hg : Registered { s.node j with goroutines := gs } :=
      (h.registered (fun _ _ h => h.1) (fun _ _ h => h.2) j).congr rfl rfl (le_refl _)
    rw [hnode]
    exact (hg.applyCommitted disk).2 id p hp hwaiting b hb hindex

open Shipped (node1 node2 node3 elect twoLeaders)

/-- `node-1` proposes a command and gets it stored on `node-2`. -/
def acknowledgedProposal : List Action :=
  elect node1 0 1 ++ [.propose node1 ⟨.put, [1], [1], []⟩, .replicate node1 node2, .handleAppend 0,
    .appendReturn 0]

/-- When `node-1` applies the command, its caller is told. -/
theorem waiting_call_notified_acknowledgedProposal : ∃ past s s' a p,
    Shipped.Reaches (fun s st => OwnSlot s st ∧ KeepsTold s st) past s ∧
    s.step Shipped.engine Shipped.membership (.act (fun _ => true) (.resume node1 0)) = some s' ∧
    (node1, a) ∈ s'.trace.drop s.trace.length ∧ (s.node node1).proposals[0]? = some p ∧
    p.waiting = true ∧ a.index = p.index ∧ a.waiter = some 0 ∧
    (s'.node node1).proposals[0]? = some { p with done := some a.result } := by
  have hrun := (Shipped.reaches_play (fun s st => OwnSlot s st ∧ KeepsTold s st)
    acknowledgedProposal).mono fun _ _ h => h.1
  have hstep : ∃ s' ∈ (Shipped.play (fun s st => OwnSlot s st ∧ KeepsTold s st)
      acknowledgedProposal).2.step Shipped.engine Shipped.membership
        (.act (fun _ => true) (.resume node1 0)), ∃ x ∈ s'.trace.drop
          (Shipped.play (fun s st => OwnSlot s st ∧ KeepsTold s st)
            acknowledgedProposal).2.trace.length, x.1 = node1 ∧ x.2.index = 2 := by
    decide +kernel
  have hp : ((Shipped.play (fun s st => OwnSlot s st ∧ KeepsTold s st)
      acknowledgedProposal).2.node node1).proposals[0]? =
        some ⟨2, 1, ⟨.put, [1], [1], []⟩, none, true⟩ := by decide +kernel
  obtain ⟨s', hs, ⟨j, a⟩, ha, rfl, hindex⟩ := hstep
  exact ⟨_, _, s', a, _, hrun, hs, ha, hp, rfl, hindex,
    waiting_call_notified hrun hs ha hp rfl hindex⟩

/-- `node-1` proposes a command at index 2 and loses its leadership; `node-2` makes it drop its log.
`node-1` leads again, in term 3, and another caller proposes a command, again at index 2. The first
caller gives up. The second command is stored on `node-3` and committed. -/
def slotTakenOver : List Action :=
  twoLeaders [.propose node1 ⟨.put, [1], [1], []⟩] ++ [.replicate node2 node1, .handleAppend 0] ++
    elect node1 5 4 ++ [.propose node1 ⟨.put, [2], [2], []⟩, .cancel node1 0, .replicate node1 node3,
      .handleAppend 1, .appendReturn 1]

/-- **A notification is lost.** The second caller waits for index 2 of term 3; `node-1` applies exactly
that entry, finds no channel for index 2 and tells nobody. -/
theorem notification_lost : ∃ past s,
    Shipped.Reaches (fun s st => True ∧ DiskOk s st) past s ∧
    (s.node node1).proposals[1]? = some ⟨2, 3, ⟨.put, [2], [2], []⟩, none, true⟩ ∧
    ∃ s' ∈ s.step Shipped.engine Shipped.membership (.act (fun _ => true) (.resume node1 0)),
      (∃ x ∈ s'.trace.drop s.trace.length, x.1 = node1 ∧ x.2.index = 2 ∧ x.2.entry.term = 3 ∧
        x.2.entry.command = ⟨.put, [2], [2], []⟩ ∧ x.2.waiter = none) ∧
      (s'.node node1).proposals[1]? = some ⟨2, 3, ⟨.put, [2], [2], []⟩, none, true⟩ :=
  ⟨_, _, Shipped.reaches_play (fun _ _ => True) slotTakenOver, by decide +kernel, by decide +kernel⟩

end Runs

end Cluster

end Raftrix
