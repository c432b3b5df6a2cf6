import Raftrix.Cluster.LogChange

/-!
# Who is told the result of a command

`Propose` registers its channel under the index of the entry it has appended, and `applyCommitted`
sends the result of whatever it applies at that index to the channel registered there. Nothing removes
the channel when the entry is overwritten or the node loses its leadership.

`SparesWaited` is the condition that no step takes the entry at an index with a registered channel
away: no admitted AppendEntries request conflicts with the log at or below such an index, and no
snapshot reaches it. Under it, and if the commands survive the JSON text of the log (`CleanProposal`),
a channel is registered for its own entry as long as it is registered (**`Reaches.waits`**), whatever
else happens: holes in the log, disk failures, snapshots, crashes and lost messages included.

**`propose_told_own_result`**: every value a `Propose` call can receive was sent in a step that applied
exactly its entry, and it is the result of its command. Without the condition a call is told the
result of a stranger's command (`propose_told_other_result`).
-/

namespace Raftrix

variable {σ : Type}

namespace Cluster

variable {E : Engine σ} {M : Membership} {disk : Disk} {s s' : Cluster σ} {a : Action} {st : Step}
  {i : NodeID} {n m : RaftNode σ}

/-! ## Conditions on runs -/

/-- No entry of the request conflicts with the log at or below `index`, and the one at `index`, if the
request has one, is there already. -/
def Spares (rl : RaftLog) (req : AppendEntriesRequest) (index : Nat) : Prop :=
  ∀ j < req.entries.length, ∀ q ∈ req.entries[j]?, req.prevLogIndex + j + 1 ≤ index →
    rl.termAt (req.prevLogIndex + j + 1) ≠ 0 ∧ rl.termAt (req.prevLogIndex + j + 1) = q.term ∨
      rl.termAt (req.prevLogIndex + j + 1) = 0 ∧ req.prevLogIndex + j + 1 ≠ index

instance (rl : RaftLog) (req : AppendEntriesRequest) (index : Nat) :
    Decidable (Spares rl req index) := by
  unfold Spares
  infer_instance

/-- The step does not take away what the acting node has stored at an index with a registered
channel. -/
def SparesWaited (s : Cluster σ) (st : Step) : Prop :=
  match st.action? with
  | some (.handleAppend k) =>
    ∀ c ∈ s.appendCalls[k]?, (s.node c.dst).Admits c.req →
      ∀ index ∈ (s.node c.dst).pending.keys, Spares (s.node c.dst).raftLog c.req index
  | some (.handleSnapshot k) =>
    ∀ c ∈ s.snapshotCalls[k]?, (s.node c.dst).currentTerm ≤ c.req.term →
      ∀ index ∈ (s.node c.dst).pending.keys, c.req.lastIncludedIndex < index
  | some (.resume i k) =>
    ∀ g ∈ (s.node i).goroutines[k]?, ∀ b ∈ boundary? g, ∀ index ∈ (s.node i).pending.keys, b < index
  | _ => True

instance (s : Cluster σ) (st : Step) : Decidable (SparesWaited s st) :=
  decidable_of_iff ((match st.action? with
    | some (.handleAppend k) =>
      decide (∀ c ∈ s.appendCalls[k]?, (s.node c.dst).Admits c.req →
        ∀ index ∈ (s.node c.dst).pending.keys, Spares (s.node c.dst).raftLog c.req index)
    | some (.handleSnapshot k) =>
      decide (∀ c ∈ s.snapshotCalls[k]?, (s.node c.dst).currentTerm ≤ c.req.term →
        ∀ index ∈ (s.node c.dst).pending.keys, c.req.lastIncludedIndex < index)
    | some (.resume i k) =>
      decide (∀ g ∈ (s.node i).goroutines[k]?, ∀ b ∈ boundary? g,
        ∀ index ∈ (s.node i).pending.keys, b < index)
    | _ => true) = true) (by unfold SparesWaited; split <;> simp only [decide_eq_true_iff])

/-- A proposed command survives the JSON text of the log. -/
def CleanProposal (_ : Cluster σ) (st : Step) : Prop :=
  match st.action? with
  | some (.propose _ cmd) => cmd.stored = cmd
  | _ => True

instance (s : Cluster σ) (st : Step) : Decidable (CleanProposal s st) :=
  decidable_of_iff ((match st.action? with
    | some (.propose _ cmd) => decide (cmd.stored = cmd)
    | _ => true) = true) (by unfold CleanProposal; split <;> simp)

theorem CleanProposal.apply (h : CleanProposal s st) {cmd : Command}
    (hst : st.action? = some (.propose i cmd)) : cmd.stored = cmd := by
  unfold CleanProposal at h
  rw [hst] at h
  exact h

/-! ## Registered channels -/

/-- Two states of one `Propose` call. -/
def SameCall (p p' : Proposal) : Prop :=
  p'.index = p.index ∧ p'.term = p.term ∧ p'.command = p.command

/-- The entry a `Propose` call has appended. -/
def proposed (p : Proposal) : LogEntry := ⟨p.index, p.term, p.command⟩

theorem SameCall.proposed {p p' : Proposal} (h : SameCall p p') : proposed p' = proposed p := by
  unfold Cluster.proposed
  rw [h.1, h.2.1, h.2.2]

/-- Every registered channel belongs to a call without a result, whose entry is stored at the
index. -/
def Waits (n : RaftNode σ) : Prop :=
  ∀ index id, n.pending.lookup index = some id → ∃ p, n.proposals[id]? = some p ∧
    p.index = index ∧ p.done = none ∧ n.raftLog.get index = some (proposed p)

/-- The applied event that gives call `p` its result. -/
structure Answers (E : Engine σ) (a : Applied σ) (id : Nat) (p : Proposal) : Prop where
  waiter : a.waiter = some id
  index : a.index = p.index
  entry : a.entry = proposed p
  sent : p.done = some a.result
  result : ∃ written, a.result = (applyCommand E written a.store p.command).2

/-- **One round of `applyCommitted`** answers the call that waits for the entry, and no other. -/
theorem Waits.applyEntry (h : Waits n) (written : Bool) {e : LogEntry}
    (hget : n.raftLog.get n.lastApplied = some e) :
    Waits (n.applyEntry E written e).1 ∧
      ∀ id p', (n.applyEntry E written e).1.proposals[id]? = some p' →
        n.proposals[id]? = some p' ∨ ∃ p, n.proposals[id]? = some p ∧ p.done = none ∧
          SameCall p p' ∧ Answers E (n.applyEntry E written e).2 id p' := by
  have hlog := (RaftNode.onlyApplies_applyEntry E written n e).raftLog
  refine ⟨fun index id hl => ?_, fun id p' hp' => ?_⟩
  · obtain ⟨hne, hl⟩ := lookup_applyEntry.mp hl
    obtain ⟨q, hq, rfl, hqn, hqs⟩ := h _ _ hl
    refine ⟨q, proposals_applyEntry_of_ne written e hq fun hl' => hne ?_, rfl, hqn, ?_⟩
    · -- another index is another call
      obtain ⟨p, hp, hidx, _⟩ := h _ _ hl'
      rw [hq] at hp
      obtain rfl := Option.some.inj hp
      exact hidx
    · rw [hlog]
      exact hqs
  · rw [proposals_applyEntry] at hp'
    obtain ⟨q, hq, rfl⟩ := Option.map_eq_some_iff.mp hp'
    by_cases hl : n.pending.lookup n.lastApplied = some id
    · obtain ⟨p, hp, hidx, hnone, hstored⟩ := h _ _ hl
      rw [hq] at hp
      obtain rfl := Option.some.inj hp
      rw [hget] at hstored
      rw [if_pos hl]
      exact Or.inr ⟨q, hq, hnone, ⟨rfl, rfl, rfl⟩,
        ⟨hl, hidx.symm, Option.some.inj hstored, rfl, written, by
          rw [Option.some.inj hstored]; rfl⟩⟩
    · rw [if_neg hl]
      exact Or.inl hq

/-- **A run of `applyCommitted`** gives results to calls that had none, for their own entries. -/
theorem Waits.applyCommitted (h : Waits n) (disk : Disk) :
    Waits (n.applyCommitted E disk).1 ∧
      ∀ id p', (n.applyCommitted E disk).1.proposals[id]? = some p' →
        n.proposals[id]? = some p' ∨ ∃ p, n.proposals[id]? = some p ∧ p.done = none ∧
          SameCall p p' ∧ ∃ a ∈ (n.applyCommitted E disk).2, Answers E a id p' := by
  refine applyCommitted_rounds E disk (P := fun m done => Waits m ∧ ∀ id p',
    m.proposals[id]? = some p' → n.proposals[id]? = some p' ∨ ∃ p, n.proposals[id]? = some p ∧
      p.done = none ∧ SameCall p p' ∧ ∃ a ∈ done, Answers E a id p') ?_ ?_ ?_
  · rintro written m e done hget _ ⟨hw, hold⟩
    have hw' : Waits { m with lastApplied := m.lastApplied + 1 } := hw
    obtain ⟨hnext, hnew⟩ := hw'.applyEntry (E := E) written hget
    refine ⟨hnext, fun id p' hp' => ?_⟩
    rcases hnew id p' hp' with hp' | ⟨p, hp, hnone, hsame, hans⟩
    · rcases hold id p' hp' with h | ⟨p, hp, hnone, hsame, a, ha, hans⟩
      · exact Or.inl h
      · exact Or.inr ⟨p, hp, hnone, hsame, a, List.mem_append_left _ ha, hans⟩
    · have hmem : (RaftNode.applyEntry E written
          { m with lastApplied := m.lastApplied + 1 } e).2 ∈ done ++ [(RaftNode.applyEntry E written
          { m with lastApplied := m.lastApplied + 1 } e).2] :=
        List.mem_append_right _ List.mem_cons_self
      rcases hold id p hp with h | ⟨_, _, _, _, _, _, hans'⟩
      · exact Or.inr ⟨p, h, hnone, hsame, _, hmem, hans⟩
      · -- a call that has its result is not waiting
        rw [hans'.sent] at hnone
        exact absurd hnone (by simp)
  · exact fun m done _ _ hP => hP
  · exact ⟨h, fun id p' hp' => Or.inl hp'⟩

/-- Registered channels, over a step that does not run `applyCommitted` there. -/
theorem Waits.service (h : Waits (s.node i)) (hserve : Service s st i n) (hclean : CleanProposal s st)
    (hkeep : ∀ index, index ∈ (s.node i).pending → index ∈ n.pending →
      n.raftLog.get index = (s.node i).raftLog.get index) : Waits n := by
  have hmem : ∀ {l : AList fun _ : Nat => Nat} {index id : Nat}, l.lookup index = some id →
      index ∈ l := fun hl => AList.lookup_isSome.mp (Option.isSome_iff_exists.mpr ⟨_, hl⟩)
  -- the calls stay as they are
  have hsame : n.pending = (s.node i).pending → n.proposals = (s.node i).proposals → Waits n := by
    intro hpending hcalls index id hl
    have hnew := hmem hl
    rw [hpending] at hl
    obtain ⟨p, hp, hidx, hnone, hstored⟩ := h index id hl
    exact ⟨p, by rw [hcalls]; exact hp, hidx, hnone, by
      rw [hkeep index (hmem hl) hnew]
      exact hstored⟩
  cases hserve with
  | same hpending hcalls _ => exact hsame hpending hcalls
  | installed _ hpending hcalls => exact hsame hpending hcalls
  | restarted hpending _ _ =>
    intro index id hl
    rw [hpending] at hl
    exact absurd hl (by simp)
  | @proposed written cmd hst hlog hpending hcalls _ =>
    intro index id hl
    have hnew := hmem hl
    rw [hpending] at hl
    rcases lookup_insert_eq_some.mp hl with ⟨rfl, rfl⟩ | ⟨_, hl⟩
    · refine ⟨_, by rw [hcalls, List.getElem?_concat_length], rfl, rfl, ?_⟩
      rw [RaftLog.get_append hlog, if_pos rfl]
      have hcmd : cmd.stored = cmd := hclean.apply hst
      unfold LogEntry.stored proposed
      change some (LogEntry.mk _ _ cmd.stored) = _
      rw [hcmd]
    · obtain ⟨p, hp, hpi, hnone, hstored⟩ := h index id hl
      refine ⟨p, ?_, hpi, hnone, by rw [hkeep index (hmem hl) hnew]; exact hstored⟩
      rw [hcalls, List.getElem?_append_left (List.getElem?_eq_some_iff.mp hp).1]
      exact hp
  | released id' hlog hpending hcalls _ =>
    intro index id hl
    have hold : (s.node i).pending.lookup index = some id := by
      rcases hpending with hpending | ⟨j, hpending⟩
      · rw [hpending] at hl
        exact hl
      · rw [hpending] at hl
        exact (lookup_erase_eq_some.mp hl).2
    obtain ⟨p, hp, hidx, hnone, hstored⟩ := h index id hold
    by_cases hid : id' = id
    · refine ⟨{ p with waiting := false }, ?_, hidx, hnone, by rw [hlog]; exact hstored⟩
      rw [hcalls, List.getElem?_modify, hp]
      exact congrArg some (if_pos hid)
    · refine ⟨p, ?_, hidx, hnone, by rw [hlog]; exact hstored⟩
      rw [hcalls, List.getElem?_modify, hp]
      exact congrArg some (if_neg hid)

section Runs

variable {store : NodeID → σ} {threshold : NodeID → Int} {ok : Cluster σ → Step → Prop}
  {past : List (Cluster σ × Step)}

/-- **What is stored at an index with a registered channel stays.** -/
theorem Reaches.get_waited (h : Reaches E M store threshold ok past s) (hspare : SparesWaited s st)
    (hwaits : Waits (s.node i)) (hmoved : Moved E M s st i n) {index : Nat}
    (hwait : index ∈ (s.node i).pending) :
    n.raftLog.get index = (s.node i).raftLog.get index := by
  have hkey := AList.mem_keys.mp hwait
  unfold SparesWaited at hspare
  cases hmoved.change with
  | same h => rw [h]
  | appended hidx ha h =>
    obtain ⟨id, hid⟩ := Option.isSome_iff_exists.mp (AList.lookup_isSome.mpr hwait)
    obtain ⟨p, _, _, _, hstored⟩ := hwaits index id hid
    have hle := RaftLog.le_lastIndex hstored
    rw [h, RaftLog.get_append ha, if_neg (by omega)]
  | @spliced disk k c m hst hk hdst hm hprev hget =>
    subst hdst
    rw [hst] at hspare
    have hreq := hspare c hk (hm.admits hprev) index hkey
    rw [hget, ← hm.get]
    refine RaftLog.get_appendEntries_spared (h.keyed.2 c (List.mem_of_getElem? hk))
      fun j q hq hle => ?_
    rw [hm.termAt]
    exact hreq j (List.getElem?_eq_some_iff.mp hq).1 q hq hle
  | installed hst hk hdst hterm h =>
    subst hdst
    rw [hst] at hspare
    rw [h, if_pos (hspare _ hk hterm index hkey)]
  | compacted hst hg h =>
    rw [hst] at hspare
    rw [h, if_pos (hspare _ hg _ rfl index hkey)]

/-- **Every registered channel waits for its own entry.** -/
theorem Reaches.waits (hspare : ∀ s st, ok s st → SparesWaited s st)
    (hclean : ∀ s st, ok s st → CleanProposal s st)
    (h : Reaches E M store threshold ok past s) (i : NodeID) : Waits (s.node i) := by
  refine Reaches.invariant (P := fun _ s => ∀ i, Waits (s.node i)) ?_ ?_ h i
  · exact fun i index id hl => absurd hl (by simp [init])
  · intro past s st s' hr hinv hok hs i
    rcases step_applied hs with ⟨_, hserve⟩ | ⟨j, ⟨disk, gs, gs', hnode, _⟩, hother⟩
    · refine (hinv i).service (hserve i) (hclean s st hok) fun index hwait _ => ?_
      exact forall_node_of_moved (P := fun i n => ∀ index, index ∈ (s.node i).pending →
          n.raftLog.get index = (s.node i).raftLog.get index) hs (fun _ _ _ => rfl)
        (fun i n hmoved index hwait =>
          hr.get_waited (hspare s st hok) (hinv i) hmoved hwait) i index hwait
    · by_cases hij : i = j
      · subst hij
        have hw : Waits { s.node i with goroutines := gs } := hinv i
        rw [hnode]
        exact (hw.applyCommitted disk).1
      · rw [hother i hij]
        exact hinv i

/-- In the step from `τ` to `τ'` node `i` sends call `id` the result `r`: the call had none before,
and the step has applied its entry. -/
structure Told (E : Engine σ) (τ τ' : Cluster σ) (i : NodeID) (id : Nat) (p : Proposal)
    (r : Option ApplyError) : Prop where
  call : ∃ q, (τ.node i).proposals[id]? = some q ∧ q.done = none ∧ SameCall q p
  applied : ∃ a, (i, a) ∈ τ'.trace.drop τ.trace.length ∧ a.waiter = some id ∧ a.index = p.index ∧
    a.entry = proposed p ∧ a.result = r ∧
    ∃ written, r = (applyCommand E written a.store p.command).2

theorem Told.congr {τ τ' : Cluster σ} {id : Nat} {p p' : Proposal} {r : Option ApplyError}
    (h : Told E τ τ' i id p r) (hsame : SameCall p p') : Told E τ τ' i id p' r := by
  obtain ⟨⟨q, hq, hnone, hqp⟩, a, ha, hw, hidx, hentry, hres, hcmd⟩ := h
  refine ⟨⟨q, hq, hnone, hsame.1.trans hqp.1, hsame.2.1.trans hqp.2.1, hsame.2.2.trans hqp.2.2⟩,
    a, ha, hw, hidx.trans hsame.1.symm, by rw [hsame.proposed]; exact hentry, hres, ?_⟩
  rw [hsame.2.2]
  exact hcmd

/-- **A `Propose` call is told the result of its own command.** In every run whose admitted requests do
not conflict with a log at or below an index with a registered channel, whose snapshots do not reach
such an index, and whose commands survive the JSON text of the log: every value a call finds on its
channel was sent in a step of the run that applied exactly the call's entry, and it is the result of
applying the call's command. -/
theorem propose_told_own_result
    (h : Reaches E M store threshold (fun s st => SparesWaited s st ∧ CleanProposal s st) past s)
    {id : Nat} {p : Proposal} {r : Option ApplyError} (hp : (s.node i).proposals[id]? = some p)
    (hdone : p.done = some r) :
    ∃ τ st τ', (τ, st) ∈ past ∧ τ.step E M st = some τ' ∧ Told E τ τ' i id p r := by
  refine Reaches.invariant (P := fun past s => ∀ i id p r, (s.node i).proposals[id]? = some p →
    p.done = some r → ∃ τ st τ', (τ, st) ∈ past ∧ τ.step E M st = some τ' ∧ Told E τ τ' i id p r)
    ?_ ?_ h i id p r hp hdone
  · exact fun i id p r hp => absurd hp (by simp [init])
  · intro past s st s' hr hinv hok hs i id p r hp hdone
    -- the result was there before the step
    have hold : ∀ q, (s.node i).proposals[id]? = some q → q.done = some r → SameCall q p →
        ∃ τ st' τ', (τ, st') ∈ (s, st) :: past ∧ τ.step E M st' = some τ' ∧
          Told E τ τ' i id p r := by
      intro q hq hqd hsame
      obtain ⟨τ, st', τ', hmem, hstep, htold⟩ := hinv i id q r hq hqd
      exact ⟨τ, st', τ', List.mem_cons_of_mem _ hmem, hstep, htold.congr hsame⟩
    rcases step_applied hs with ⟨_, hserve⟩ | ⟨j, ⟨disk, gs, gs', hnode, htrace⟩, hother⟩
    · cases hserve i with
      | same _ hcalls _ => exact hold p (by rw [← hcalls]; exact hp) hdone ⟨rfl, rfl, rfl⟩
      | installed _ _ hcalls => exact hold p (by rw [← hcalls]; exact hp) hdone ⟨rfl, rfl, rfl⟩
      | restarted _ hcalls _ =>
        rw [hcalls] at hp
        exact absurd hp (by simp)
      | proposed _ _ _ hcalls _ =>
        rw [hcalls] at hp
        rcases getElem?_concat_cases hp with hp | ⟨_, rfl⟩
        · exact hold p hp hdone ⟨rfl, rfl, rfl⟩
        · exact absurd hdone (by simp)
      | released _ _ _ hcalls _ =>
        rw [hcalls, List.getElem?_modify] at hp
        obtain ⟨q, hq, hf⟩ := Option.map_eq_some_iff.mp hp
        split at hf <;> (subst hf; exact hold q hq hdone ⟨rfl, rfl, rfl⟩)
    · by_cases hij : i = j
      · subst hij
        have hw : Waits { s.node i with goroutines := gs } :=
          hr.waits (fun _ _ h => h.1) (fun _ _ h => h.2) i
        rw [hnode] at hp
        rcases (hw.applyCommitted disk).2 id p hp with hp | ⟨q, hq, hnone, hsame, a, ha, hans⟩
        · exact hold p hp hdone ⟨rfl, rfl, rfl⟩
        · obtain rfl : a.result = r := by
            rw [hans.sent] at hdone
            exact Option.some.inj hdone
          refine ⟨s, st, s', List.mem_cons_self, hs, ⟨q, hq, hnone, hsame⟩, a, ?_, hans.waiter,
            hans.index, hans.entry, rfl, hans.result⟩
          rw [htrace, List.drop_left]
          exact List.mem_map_of_mem ha
      · rw [hother i hij] at hp
        exact hold p hp hdone ⟨rfl, rfl, rfl⟩

open Shipped (node1 node2 node3 elect twoLeaders)

/-- `node-1` proposes a command at index 2 and loses its leadership. `node-2` replaces the log of
`node-1` by its own no-op and its own command at index 2, and commits. -/
def strangersCommand : List Action :=
  twoLeaders [.propose node1 ⟨.put, [1], [1], []⟩] ++
    [.replicate node2 node1, .handleAppend 0, .appendReturn 0, .replicate node2 node1,
      .handleAppend 1, .appendReturn 1, .propose node2 ⟨.delete, [2], [], []⟩,
      .replicate node2 node1, .handleAppend 2, .appendReturn 2, .replicate node2 node1,
      .handleAppend 3, .resume node1 0]

/-- **A call is told the result of a stranger's command.** The `PUT` of `node-1` is gone and was never
applied; its caller is told that all went well, which is the result of the `DELETE` of `node-2`. -/
theorem propose_told_other_result : ∃ past s,
    Shipped.Reaches (fun s st => CleanProposal s st ∧ DiskOk s st) past s ∧
    (∃ p ∈ (s.node node1).proposals[0]?, p.index = 2 ∧ p.term = 1 ∧
      p.command = ⟨.put, [1], [1], []⟩ ∧ p.done = some none ∧ p.waiting = true) ∧
    (∃ x ∈ s.trace, x.1 = node1 ∧ x.2.index = 2 ∧ x.2.waiter = some 0 ∧
      x.2.entry = ⟨2, 2, ⟨.delete, [2], [], []⟩⟩) ∧
    ∀ x ∈ s.trace, x.2.entry.command ≠ ⟨.put, [1], [1], []⟩ :=
  ⟨_, _, Shipped.reaches_play CleanProposal strangersCommand, by decide +kernel,
    by decide +kernel, by decide +kernel⟩

/-- `node-1` proposes a command, replicates it to `node-2` and applies it. -/
def ownCommand : List Action :=
  elect node1 0 1 ++ [.propose node1 ⟨.put, [1], [1], []⟩, .replicate node1 node2, .handleAppend 0,
    .appendReturn 0, .resume node1 0]

/-- The caller is told the result of its own command. -/
theorem propose_told_own_result_ownCommand : ∃ past s,
    Shipped.Reaches (fun s st => SparesWaited s st ∧ CleanProposal s st) past s ∧
    ∃ p, (s.node node1).proposals[0]? = some p ∧ p.done = some none ∧
      ∃ τ st τ', (τ, st) ∈ past ∧ τ.step Shipped.engine Shipped.membership st = some τ' ∧
        Told Shipped.engine τ τ' node1 0 p none := by
  have hrun := (Shipped.reaches_play (fun s st => SparesWaited s st ∧ CleanProposal s st)
    ownCommand).mono fun _ _ h => h.1
  have hp : ((Shipped.play (fun s st => SparesWaited s st ∧ CleanProposal s st)
      ownCommand).2.node node1).proposals[0]? =
        some ⟨2, 1, ⟨.put, [1], [1], []⟩, some none, true⟩ := by decide +kernel
  exact ⟨_, _, hrun, _, hp, rfl, propose_told_own_result hrun hp rfl⟩

end Runs

end Cluster

end Raftrix
