import Raftrix.Cluster.Apply
import Raftrix.Cluster.LogShape
import Raftrix.Log.Stored

/-!
# What a step does to the entries a node has stored

`LogChange` lists it: nothing, one append at the next index, the loop of `HandleAppendEntries`, and
the two compactions. `Moved.change` says that there is nothing else. It asks nothing of the run, and
the first invariants that follow from it hold in every one: entries are stored under their own index,
and requests list consecutive indices (`Reaches.keyed`); a log only has entries that its JSON text gives
back (`Reaches.clean`, an instance of **`Reaches.forall_command`**).
-/

namespace Raftrix

variable {σ : Type}

namespace Cluster

variable {E : Engine σ} {M : Membership} {disk : Disk} {s s' : Cluster σ} {a : Action} {st : Step}
  {i : NodeID} {n m : RaftNode σ}

/-- The index up to which the goroutine is about to compact the log. -/
def boundary? : Goroutine → Option Nat
  | .compactLog index _ _ => some index
  | _ => none

/-- What a step does to what `Get` returns. -/
inductive LogChange (s : Cluster σ) (st : Step) (i : NodeID) (n : RaftNode σ) : Prop
  | same (h : n.raftLog.get = (s.node i).raftLog.get)
  | appended {written : Bool} {e : LogEntry} {rl : RaftLog}
      (hidx : e.index = (s.node i).raftLog.lastIndex + 1)
      (ha : (s.node i).raftLog.append written e = some rl) (h : n.raftLog.get = rl.get)
      (hnew : e.command = .noop ∨ st.action? = some (.propose i e.command))
  | spliced {disk : Disk} {k : Nat} {c : AppendCall} {m : RaftNode σ}
      (hst : st.action? = some (.handleAppend k)) (hk : s.appendCalls[k]? = some c)
      (hdst : c.dst = i) (hm : Joins (disk 0) (s.node i) c.req.term m)
      (hprev : m.raftLog.checkPrev c.req = none)
      (h : n.raftLog.get =
        (m.raftLog.appendEntries disk c.req.prevLogIndex 0 c.req.entries).log.get)
  | installed {k : Nat} {c : SnapshotCall} (hst : st.action? = some (.handleSnapshot k))
      (hk : s.snapshotCalls[k]? = some c) (hdst : c.dst = i)
      (hterm : (s.node i).currentTerm ≤ c.req.term)
      (h : ∀ j, n.raftLog.get j =
        if c.req.lastIncludedIndex < j then (s.node i).raftLog.get j else none)
  | compacted {k index term : Nat} {data : Bytes} (hst : st.action? = some (.resume i k))
      (hg : (s.node i).goroutines[k]? = some (.compactLog index term data))
      (h : ∀ j, n.raftLog.get j = if index < j then (s.node i).raftLog.get j else none)

theorem LogChange.congr {n' : RaftNode σ} (h : LogChange s st i n)
    (hget : n'.raftLog.get = n.raftLog.get) : LogChange s st i n' := by
  cases h with
  | same h => exact .same (hget.trans h)
  | appended hidx ha h hnew => exact .appended hidx ha (hget.trans h) hnew
  | spliced hst hk hdst hm hprev h => exact .spliced hst hk hdst hm hprev (hget.trans h)
  | installed hst hk hdst hterm h =>
    exact .installed hst hk hdst hterm fun j => by rw [hget]; exact h j
  | compacted hst hg h => exact .compacted hst hg fun j => by rw [hget]; exact h j

theorem Joins.get {written : Bool} {term : Nat} (h : Joins written n term m) :
    m.raftLog.get = n.raftLog.get := by
  cases h with
  | same _ => rfl
  | down _ => exact RaftLog.get_saveMeta _ _

theorem Move.change (hst : st.action? = some a) (h : Move E M disk s a i n) : LogChange s st i n := by
  cases h with
  | panic => exact .same RaftLog.get_newRaftLog
  | down _ _ => exact .same (RaftLog.get_saveMeta _ _)
  | timeout _ _ _ => exact .same (RaftLog.get_saveMeta _ _)
  | grant _ _ hm _ _ => exact .same ((RaftLog.get_saveMeta _ _).trans hm.get)
  | lead _ _ _ =>
    cases ha : (s.node i).raftLog.append (disk 0) (s.node i).noopEntry with
    | none => exact .same rfl
    | some rl => exact .appended rfl ha rfl (Or.inl rfl)
  | propose _ hrl => exact .appended rfl hrl rfl (Or.inr hst)
  | mismatch _ _ hm =>
    have := hm.get
    exact .same this
  | splice hk _ hm hprev _ => exact .spliced hst hk rfl hm hprev rfl
  | restore _ hm =>
    have := hm.get
    exact .same this
  | install hk hm hrl =>
    refine .installed hst hk rfl hm.le fun j => ?_
    rw [← hm.get]
    exact RaftLog.get_compact hrl j
  | @apply i k gs =>
    have ho := RaftNode.onlyApplies_applyCommitted E disk { s.node i with goroutines := gs }
    exact .same (congrArg RaftLog.get ho.raftLog)
  | compact hg hrl => exact .compacted hst hg fun j => RaftLog.get_compact hrl j
  | _ => exact .same rfl

theorem Moved.change (h : Moved E M s st i n) : LogChange s st i n := by
  cases h with
  | act h => exact h.change rfl
  | crash => exact .same RaftLog.get_newRaftLog
  | @crashDuring a cut i n _ h =>
    have hchange : LogChange s (.crashDuring a cut) i n := h.change rfl
    exact hchange.congr RaftLog.get_newRaftLog
  | @applyRead disk i k reads n gs gs' h _ =>
    have hchange : LogChange s (.applyRead disk i k reads) i n := h.change rfl
    exact hchange.congr rfl

theorem LogChange.keyed (h : LogChange s st i n) (hk : (s.node i).raftLog.Keyed) :
    n.raftLog.Keyed := by
  unfold RaftLog.Keyed
  cases h with
  | same h =>
    rw [h]
    exact hk
  | appended _ ha h =>
    rw [h]
    exact hk.append ha
  | spliced _ _ _ hm _ h =>
    rw [h]
    refine RaftLog.Keyed.appendEntries ?_
    unfold RaftLog.Keyed
    rw [hm.get]
    exact hk
  | installed _ _ _ _ h =>
    intro j e he
    rw [h] at he
    split at he
    · exact hk j e he
    · exact absurd he (by simp)
  | compacted _ _ h =>
    intro j e he
    rw [h] at he
    split at he
    · exact hk j e he
    · exact absurd he (by simp)

/-- What holds of every command before the step, of the new ones, and of those in the requests, holds of
every command after it. -/
theorem LogChange.forall_command {P : Command → Prop} (hstored : ∀ c, P c → P c.stored)
    (hnoop : P Command.noop.stored) (hproposed : ∀ c, st.action? = some (.propose i c) → P c.stored)
    (hcalls : ∀ c ∈ s.appendCalls, ∀ e ∈ c.req.entries, P e.command) (h : LogChange s st i n)
    (hold : ∀ k e, (s.node i).raftLog.get k = some e → P e.command) :
    ∀ k e, n.raftLog.get k = some e → P e.command := by
  have happend : ∀ {written : Bool} {d : LogEntry} {rl rl' : RaftLog}, P d.command.stored →
      (∀ k e, rl.get k = some e → P e.command) → rl.append written d = some rl' →
      ∀ k e, rl'.get k = some e → P e.command := by
    intro written d rl rl' hd hrl ha k e he
    rw [RaftLog.get_append ha] at he
    split at he
    · cases he
      exact hd
    · exact hrl k e he
  have hcut : ∀ {c : Prop} [Decidable c] {o : Option LogEntry} {e : LogEntry},
      (if c then o else none) = some e → o = some e := by
    intro c _ o e he
    split at he
    · exact he
    · cases he
  cases h with
  | same h =>
    rw [h]
    exact hold
  | appended _ ha h hnew =>
    rw [h]
    refine happend ?_ hold ha
    rcases hnew with hnew | hnew
    · rw [hnew]
      exact hnoop
    · exact hproposed _ hnew
  | @spliced disk k c m _ hk _ hm _ h =>
    rw [h]
    have hjoined : ∀ k e, m.raftLog.get k = some e → P e.command := by
      rw [hm.get]
      exact hold
    obtain ⟨_, _, hall, _⟩ := RaftLog.appendEntries_rounds disk c.req.prevLogIndex c.req.entries
      (P := fun _ rl => ∀ k e, rl.get k = some e → P e.command) hjoined
      fun _ q rl rl' hq hrl hround => by
        cases hround with
        | skipped _ _ => exact hrl
        | appended _ ha =>
          exact happend (hstored _ (hcalls c (List.mem_of_getElem? hk) q (List.mem_of_getElem? hq)))
            hrl ha
        | cut _ _ htr =>
          intro k e he
          rw [RaftLog.get_truncateFrom htr] at he
          exact hrl k e (hcut he)
    exact hall
  | installed _ _ _ _ h =>
    intro k e he
    rw [h] at he
    exact hold k e (hcut he)
  | compacted _ _ h =>
    intro k e he
    rw [h] at he
    exact hold k e (hcut he)

section Runs

variable {store : NodeID → σ} {threshold : NodeID → Int} {ok : Cluster σ → Step → Prop}
  {past : List (Cluster σ × Step)}

/-- In every run the logs are keyed by index, and the requests list consecutive indices. -/
theorem Reaches.keyed (h : Reaches E M store threshold ok past s) :
    (∀ i, (s.node i).raftLog.Keyed) ∧
      ∀ c ∈ s.appendCalls, RaftLog.Indexed c.req.prevLogIndex c.req.entries := by
  refine Reaches.invariant (P := fun _ s => (∀ i, (s.node i).raftLog.Keyed) ∧
    ∀ c ∈ s.appendCalls, RaftLog.Indexed c.req.prevLogIndex c.req.entries) ?_ ?_ h
  · exact ⟨fun i k e he => absurd he (by simp [init, RaftLog.get, RaftLog.fresh]),
      fun c hc => absurd hc List.not_mem_nil⟩
  · intro past s st s' hr hinv _ hs
    refine ⟨forall_node_of_moved (P := fun _ n => n.raftLog.Keyed) hs hinv.1
      fun i n hmoved => hmoved.change.keyed (hinv.1 i), fun c' hc' => ?_⟩
    obtain ⟨k, hk⟩ := List.mem_iff_getElem?.mp hc'
    rcases (step_appendCall hs hk).origin with ⟨c, hc, _, _, hreq⟩ | hsent
    · rw [hreq]
      exact hinv.2 c hc
    · obtain ⟨ls, _, hdst, _, hls, hreq⟩ := hsent
      rw [(hr.identity c'.src).2] at hdst
      have hnext := hr.nextIndex_pos c'.src hls hdst
      obtain ⟨hprev, hentries⟩ := RaftNode.of_peerRequest_appendEntries hreq
      intro j q hq
      rcases hentries with hnil | hrange
      · rw [hnil] at hq
        exact absurd hq (by simp)
      · rw [hrange] at hq
        have := (hinv.1 c'.src).getRangeFrom _ _ j q hq
        omega

/-- **What holds of the no-op and of every proposal holds of every command**, in the logs and in the
requests, if storing a command keeps it. -/
theorem Reaches.forall_command {P : Command → Prop} (hstored : ∀ c, P c → P c.stored)
    (hnoop : P Command.noop.stored)
    (hproposed : ∀ s st i c, ok s st → st.action? = some (.propose i c) → P c.stored)
    (h : Reaches E M store threshold ok past s) :
    (∀ i k e, (s.node i).raftLog.get k = some e → P e.command) ∧
      ∀ c ∈ s.appendCalls, ∀ e ∈ c.req.entries, P e.command := by
  refine Reaches.invariant (P := fun _ s =>
    (∀ i k e, (s.node i).raftLog.get k = some e → P e.command) ∧
      ∀ c ∈ s.appendCalls, ∀ e ∈ c.req.entries, P e.command) ?_ ?_ h
  · exact ⟨fun i k e he => absurd he (by simp [init, RaftLog.get, RaftLog.fresh]),
      fun c hc => absurd hc List.not_mem_nil⟩
  · intro past s st s' hr hinv hok hs
    refine ⟨forall_node_of_moved (P := fun _ n => ∀ k e, n.raftLog.get k = some e → P e.command) hs hinv.1
      fun i n hmoved => hmoved.change.forall_command hstored hnoop (fun c => hproposed s st i c hok) hinv.2
        (hinv.1 i), fun c' hc' e he => ?_⟩
    obtain ⟨k, hk⟩ := List.mem_iff_getElem?.mp hc'
    rcases (step_appendCall hs hk).origin with ⟨c, hc, _, _, hreq⟩ | hsent
    · rw [hreq] at he
      exact hinv.2 c hc e he
    · obtain ⟨ls, _, _, _, _, hreq⟩ := hsent
      rcases (RaftNode.of_peerRequest_appendEntries hreq).2 with hnil | hrange
      · rw [hnil] at he
        exact absurd he List.not_mem_nil
      · rw [hrange] at he
        obtain ⟨index, hget⟩ := RaftLog.get_of_mem_getRangeFrom he
        exact hinv.1 c'.src index e hget

/-- In every run the entries of the logs are the ones their text gives back. -/
theorem Reaches.clean (h : Reaches E M store threshold ok past s) (i : NodeID) {k : Nat} {e : LogEntry}
    (he : (s.node i).raftLog.get k = some e) : e.stored = e := by
  have hcommand := (Reaches.forall_command (P := fun c => c.stored = c) (fun c _ => c.stored_stored) rfl
    (fun _ _ _ c _ _ => c.stored_stored) h).1 i k e he
  rw [LogEntry.stored, hcommand]

end Runs

end Cluster

end Raftrix
