import Raftrix.Wire.Http
import Raftrix.Wire.LogText

/-!
# The logs of a cluster are on file

`Wire/LogText.lean` compares the bytes of a log file with the log of `Model/Log.lean` call by call. Here the
calls are those of a run: in every step a node makes some calls on its log (`Edited`), the bytes get the same
ones, and so there is at every moment a file behind every log of the cluster (**`logs_on_file`**), through
failing transactions, crashes and restarts. All that a process ever reads from the file is what it reads from
its log in `Model/Cluster.lean`.
-/

namespace Raftrix

variable {σ : Type}

/-- Calls with `uint64` values make the one log of the other. -/
def RaftLog.Edited (rl rl' : RaftLog) : Prop :=
  ∃ calls : List (FileCall × Bool), (∀ c ∈ calls, c.1.InRange) ∧ Lib.after RaftLog.call rl calls = rl'

namespace RaftLog.Edited

variable {rl rl₁ rl₂ : RaftLog} {written : Bool} {index term : Nat}

theorem refl (rl : RaftLog) : rl.Edited rl := ⟨[], fun _ hc => absurd hc List.not_mem_nil, rfl⟩

theorem trans (h : rl.Edited rl₁) (h' : rl₁.Edited rl₂) : rl.Edited rl₂ := by
  obtain ⟨calls, hcalls, hafter⟩ := h
  obtain ⟨calls', hcalls', hafter'⟩ := h'
  refine ⟨calls ++ calls', fun c hc => ?_, ?_⟩
  · rcases List.mem_append.mp hc with hc | hc
    · exact hcalls c hc
    · exact hcalls' c hc
  · rw [Lib.after, List.foldl_append, ← hafter', ← hafter]
    rfl

theorem of_call {c : FileCall} (hc : c.InRange) (written : Bool) (rl : RaftLog) :
    rl.Edited (rl.call (c, written)).1 :=
  ⟨[(c, written)], fun _ hd => by rw [List.mem_singleton.mp hd]; exact hc, rfl⟩

/-- A write that succeeded. -/
theorem of_write {c : FileCall} (hc : c.InRange) {r : Option RaftLog}
    (hcall : rl.call (c, written) = FileAnswer.ofWrite rl r) (hr : r = some rl₁) : rl.Edited rl₁ := by
  have hedit := of_call hc written rl
  rw [hcall, hr] at hedit
  exact hedit

theorem newRaftLog (rl : RaftLog) : rl.Edited rl.newRaftLog := of_call (c := .reopen) trivial true rl

theorem append {e : LogEntry} (he : e.Writable) (ha : rl.append written e = some rl₁) :
    rl.Edited rl₁ :=
  of_write (c := .append e) he rfl ha

theorem truncateFrom (hi : IsIndex index) (ht : rl.truncateFrom written index = some rl₁) :
    rl.Edited rl₁ :=
  of_write (c := .truncateFrom index) hi rfl ht

theorem compact (hi : IsIndex index) (ht : IsIndex term)
    (hc : rl.compact written index term = some rl₁) : rl.Edited rl₁ :=
  of_write (c := .compact index term) ⟨hi, ht⟩ rfl hc

/-- Nothing is asked of a write that fails. -/
theorem saveMeta (ht : written = true → IsIndex term) (rl : RaftLog) (votedFor : NodeID) :
    rl.Edited (rl.saveMeta written term votedFor) := by
  cases written with
  | false => exact refl rl
  | true => exact of_call (c := .saveMeta term votedFor) (ht rfl) true rl

theorem joins {n m : RaftNode σ} (ht : IsIndex term) (hm : Cluster.Joins written n term m) :
    n.raftLog.Edited m.raftLog := by
  cases hm with
  | same _ => exact refl _
  | down _ => exact saveMeta (fun _ => ht) _ _

/-- The loop of `HandleAppendEntries`. -/
theorem appendEntries {b : Nat} (hb : b + 1 < 2 ^ 64) (hrl : rl.Counted b) (disk : Disk) (prev : Nat)
    {es : List LogEntry} (hes : ∀ e ∈ es, e.Writable ∧ e.Counted b) :
    rl.Edited (rl.appendEntries disk prev 0 es).log := by
  obtain ⟨_, _, ⟨_, hall⟩, _⟩ := appendEntries_rounds disk prev es
    (P := fun _ m => m.Counted b ∧ rl.Edited m) ⟨hrl, refl rl⟩ fun j q m m' hq ⟨hm, hedit⟩ hround => by
      obtain ⟨hw, hcount⟩ := hes q (List.mem_of_getElem? hq)
      cases hround with
      | skipped _ _ => exact ⟨hm, hedit⟩
      | appended _ ha => exact ⟨hm.append hcount ha, hedit.trans (append hw ha)⟩
      | cut h0 _ htr =>
        -- there is something at the index, so it is in range
        exact ⟨hm.truncateFrom htr, hedit.trans (truncateFrom (isIndex_of_le hb (hm.le_of_termAt h0)) htr)⟩
  exact hall

end RaftLog.Edited

namespace Cluster

variable {E : Engine σ} {M : Membership} {disk : Disk} {s s' : Cluster σ} {st : Step} {i : NodeID}
  {n : RaftNode σ} {store : NodeID → σ} {threshold : NodeID → Int} {ok : Cluster σ → Step → Prop}
  {past : List (Cluster σ × Step)} {a : Action} {b : Nat}

/-- What a critical section does to a log, it does by calls. -/
theorem Move.edited (hb : b + 1 < 2 ^ 64) (hs : s.Counted b)
    (hproper : ∀ i cmd, a = .propose i cmd → cmd.op.Proper)
    (hcommands : ∀ c ∈ s.appendCalls, ∀ e ∈ c.req.entries, e.command.op.Proper)
    (hmeta : n.raftLog.loadMeta.1 ≤ b + 1) (h : Move E M disk s a i n) :
    (s.node i).raftLog.Edited n.raftLog := by
  have hlast : ∀ i, IsIndex ((s.node i).raftLog.lastIndex + 1) := fun i =>
    isIndex_of_lt hb (Nat.succ_le_succ (hs.node i).raftLog.lastIndex)
  have hterm : ∀ i, IsIndex (s.node i).currentTerm := fun i => isIndex_of_le hb (hs.node i).currentTerm
  cases h with
  | panic => exact .newRaftLog _
  | @down _ _ term _ _ =>
    -- the term is in the record, unless it was not written
    refine .saveMeta (fun hwritten => ?_) _ _
    unfold RaftNode.becomeFollower at hmeta
    dsimp only at hmeta
    rw [hwritten, RaftLog.loadMeta_saveMeta] at hmeta
    exact isIndex_of_lt hb hmeta
  | timeout _ _ _ =>
    exact .saveMeta (fun _ => isIndex_of_lt hb (Nat.succ_le_succ (hs.node i).currentTerm)) _ _
  | grant hk _ hm _ _ =>
    have hreq := (hs.voteCalls _ (List.mem_of_getElem? hk)).1
    have hjoin := (hs.node _).joins hreq.term hm
    exact (RaftLog.Edited.joins (isIndex_of_le hb hreq.term) hm).trans
      (.saveMeta (fun _ => isIndex_of_le hb hjoin.currentTerm) _ _)
  | lead _ _ _ =>
    cases ha : (s.node i).raftLog.append (disk 0) (s.node i).noopEntry with
    | none => exact .refl _
    | some rl => exact .append ⟨hlast i, hterm i, (by decide : Command.noop.op.Proper)⟩ ha
  | propose _ hrl => exact .append ⟨hlast i, hterm i, hproper _ _ rfl⟩ hrl
  | mismatch hk _ hm =>
    have hreq := (hs.appendCalls _ (List.mem_of_getElem? hk)).1
    have hjoin := RaftLog.Edited.joins (isIndex_of_le hb hreq.term) hm
    exact hjoin
  | splice hk _ hm _ _ _ =>
    have hc := List.mem_of_getElem? hk
    have hreq := (hs.appendCalls _ hc).1
    have hjoin := (hs.node _).joins hreq.term hm
    refine (RaftLog.Edited.joins (isIndex_of_le hb hreq.term) hm).trans
      (.appendEntries hb hjoin.raftLog disk _ fun e he => ?_)
    have hcount := hreq.entries e he
    exact ⟨⟨isIndex_of_le hb hcount.index, isIndex_of_le hb hcount.term, hcommands _ hc e he⟩, hcount⟩
  | restore hk hm =>
    have hreq := (hs.snapshotCalls _ (List.mem_of_getElem? hk)).1
    have hjoin := RaftLog.Edited.joins (isIndex_of_le hb hreq.term) hm
    exact hjoin
  | install hk hm hrl =>
    have hreq := (hs.snapshotCalls _ (List.mem_of_getElem? hk)).1
    exact (RaftLog.Edited.joins (isIndex_of_le hb hreq.term) hm).trans
      (.compact (isIndex_of_le hb hreq.lastIncludedIndex) (isIndex_of_le hb hreq.lastIncludedTerm) hrl)
  | @apply i k gs _ =>
    have ho := RaftNode.onlyApplies_applyCommitted E disk { s.node i with goroutines := gs }
    rw [ho.raftLog]
    exact .refl _
  | compact hg hrl =>
    obtain ⟨hi, ht⟩ := (hs.node i).goroutines _ (List.mem_of_getElem? hg)
    exact .compact (isIndex_of_le hb hi) (isIndex_of_le hb ht) hrl
  | _ => exact .refl _

/-- **A step changes a log by calls.** -/
theorem Reaches.edited (hproper : ∀ s st, ok s st → ProperProposal s st)
    (h : Reaches E M store threshold ok past s) (hok : ok s st) (hs : s.step E M st = some s')
    (hlen : past.length + 1 < 2 ^ 64) (i : NodeID) : (s.node i).raftLog.Edited (s'.node i).raftLog := by
  obtain ⟨j, hmoved, hother⟩ := step_moved hs
  by_cases hij : i = j
  · subst hij
    have hcommands : ∀ c ∈ s.appendCalls, ∀ e ∈ c.req.entries, e.command.op.Proper :=
      fun c hc e he => ((h.commands_written hproper).2 c hc e he).1
    have hedit : ∀ {disk : Disk} {a : Action} {n : RaftNode σ}, st.action? = some a →
        n.raftLog.loadMeta.1 ≤ past.length + 1 → Move E M disk s a i n →
        (s.node i).raftLog.Edited n.raftLog := by
      intro disk a n hst hmeta hmove
      refine hmove.edited hlen h.counted ?_ hcommands hmeta
      rintro _ cmd rfl
      have hop := hproper s st hok
      unfold ProperProposal at hop
      rw [hst] at hop
      exact hop
    have hmeta := (h.counted.step_node hs i).raftLog.loadMeta
    generalize s'.node i = n at hmoved hmeta ⊢
    cases hmoved with
    | crash => exact .newRaftLog _
    | act hmove => exact hedit rfl hmeta hmove
    | crashDuring _ hmove =>
      exact (hedit rfl (RaftLog.loadMeta_newRaftLog ▸ hmeta) hmove).trans (.newRaftLog _)
    | @applyRead _ _ _ _ m _ _ hmove _ =>
      have hkept : (s.node i).raftLog.Edited m.raftLog := hedit rfl hmeta hmove
      exact hkept
  · rw [hother i hij]
    exact .refl _

/-- The file of a node along a run: in every step it gets the calls that make the node's new log of the one
before. -/
inductive Filed (i : NodeID) : List (Cluster σ × Step) → Cluster σ → BoltLog → Prop
  | start (s : Cluster σ) : Filed i [] s .fresh
  | next {past : List (Cluster σ × Step)} {s s' : Cluster σ} {st : Step} {t : BoltLog}
      {calls : List (FileCall × Bool)} (h : Filed i past s t) (hcalls : ∀ c ∈ calls, c.1.InRange)
      (hlog : Lib.after RaftLog.call (s.node i).raftLog calls = (s'.node i).raftLog) :
      Filed i ((s, st) :: past) s' (Lib.after BoltLog.call t calls)

/-- Whichever calls have made the logs, the file has the bytes of the last one. -/
theorem Reaches.writes_of_filed (h : Reaches E M store threshold ok past s) {t : BoltLog}
    (hfiled : Filed i past s t) : BoltLog.Writes t (s.node i).raftLog := by
  refine Reaches.invariant (P := fun past s => ∀ t, Filed i past s t →
    BoltLog.Writes t (s.node i).raftLog) ?_ ?_ h t hfiled
  · rintro _ ⟨_⟩
    exact BoltLog.writes_fresh
  · rintro past s st s' _ hinv _ _ _ (_ | ⟨hfiled, hcalls, hlog⟩)
    exact hlog ▸ (hinv _ hfiled).after hcalls

/-- **Behind every log of a cluster there is a file.** The calls of a run on the log of a node can be made on
the bytes of a file, and whichever calls they were, the bytes then answer every call as the log does. -/
theorem logs_on_file (hproper : ∀ s st, ok s st → ProperProposal s st)
    (h : Reaches E M store threshold ok past s) (hlen : past.length < 2 ^ 64) (i : NodeID) :
    (∃ t, Filed i past s t) ∧
      ∀ t, Filed i past s t → ∀ calls : List (FileCall × Bool), (∀ c ∈ calls, c.1.InRange) →
        Lib.observe BoltLog.call t calls = Lib.observe RaftLog.call (s.node i).raftLog calls := by
  refine ⟨?_, fun t hfiled calls hcalls => (h.writes_of_filed hfiled).observe hcalls⟩
  refine Reaches.invariant (P := fun past s => past.length < 2 ^ 64 → ∃ t, Filed i past s t) ?_ ?_ h hlen
  · exact fun _ => ⟨.fresh, .start _⟩
  · intro past s st s' hr hinv hok hs hlen
    obtain ⟨t, hfiled⟩ := hinv (Nat.lt_of_succ_lt hlen)
    obtain ⟨calls, hcalls, hlog⟩ := Reaches.edited hproper hr hok hs hlen i
    exact ⟨_, .next hfiled hcalls hlog⟩

open Shipped (node1 node2 termOne) in
/-- The file of `node-2` after it has got a `PUT`. -/
theorem logs_on_file_putAcknowledged :
    let r := Shipped.play ProperProposal
      (termOne ++ [.replicate node1 node2, .handleAppend 0, .appendReturn 0])
    ∃ t, Filed node2 r.1 r.2 t ∧
      Lib.observe BoltLog.call t [(.loadMeta, true), (.lastIndex, true), (.get 2, true)] =
        [.state (some (1, node1)), .number 2, .entry (.ok ⟨2, 1, ⟨.put, [1], [1], []⟩⟩)] := by
  intro r
  have hlength : r.1.length = 9 := by decide +kernel
  have hproper : ∀ (s : Cluster BoltEngine) st, ProperProposal s st ∧ DiskOk s st → ProperProposal s st :=
    fun _ _ hok => hok.1
  have hreach : Shipped.Reaches (fun s st => ProperProposal s st ∧ DiskOk s st) r.1 r.2 :=
    Shipped.reaches_play ProperProposal _
  obtain ⟨⟨t, hfiled⟩, hanswers⟩ := logs_on_file hproper hreach (by omega) node2
  refine ⟨t, hfiled, (hanswers t hfiled _ ?_).trans (by decide +kernel)⟩
  simp only [List.forall_mem_cons, List.not_mem_nil, false_imp_iff, implies_true, and_true,
    FileCall.InRange, true_and]
  decide

end Cluster

end Raftrix
