import Raftrix.Cluster.Leadership
import Raftrix.Cluster.StateMachine
import Raftrix.Cluster.Waiters
import Raftrix.Node.Replay

/-!
# One history for all clients

The replicated store against a single one: the commands of one list of entries, applied one after
another to the empty store.

In a run as in `Cluster/StateMachine.lean`, of an odd number of members, whose waiting calls are spared and
whose commands survive the JSON text of the log (`SparesWaited` and `CleanProposal` of
`Cluster/Waiters.lean`), and whose processes start from the empty store, either because none is restarted
or because the engine keeps nothing (`StartsEmpty`), there is such a list:

* **`one_history`**: every store any node ever has is the result of the first `lastApplied` entries;
  every `Propose` call that has returned a result stands at its index, no other call of the same moment
  does, the result is the one the sequential store gives there, and the node that gave it has applied it.
* **`real_time_order`**: a call that is made after another one has got its result comes after it in the
  list, whichever nodes the two were made on.

`Agreed` is what the lists of all nodes have in common: part of what a majority has acknowledged.
-/

namespace Raftrix

variable {σ : Type}

/-- The store after the commands of the entries, every write succeeding. -/
def replay (E : Engine σ) (empty : σ) (es : List LogEntry) : σ :=
  es.foldl (fun store e => (applyCommand E true store e.command).1) empty

theorem replay_concat (E : Engine σ) (empty : σ) (es : List LogEntry) (e : LogEntry) :
    replay E empty (es ++ [e]) = (applyCommand E true (replay E empty es) e.command).1 := by
  rw [replay, List.foldl_append]
  rfl

/-- No process ends in the step, except by a panic. -/
def Step.keepsProcess : Step → Bool
  | .crash _ | .crashDuring _ _ => false
  | _ => true

namespace RaftNode

/-- What a round of `applyCommitted` on the `j`-th entry of the list leaves in the trace. -/
structure Sequential (E : Engine σ) (empty : σ) (es : List LogEntry) (a : Applied σ) : Prop where
  pos : 1 ≤ a.index
  entry : es[a.index - 1]? = some a.entry
  store : a.store = replay E empty (es.take (a.index - 1))
  result : a.result = (applyCommand E true a.store a.entry.command).2

theorem Sequential.length {E : Engine σ} {empty : σ} {es : List LogEntry} {a : Applied σ}
    (h : Sequential E empty es a) : a.index ≤ es.length := by
  have hlt := (List.getElem?_eq_some_iff.mp h.entry).1
  omega

/-- An event sees no more of the list than its index. -/
theorem Sequential.congr {E : Engine σ} {empty : σ} {es es' : List LogEntry} {a : Applied σ}
    (h : Sequential E empty es a) (htake : es'.take a.index = es.take a.index) :
    Sequential E empty es' a := by
  have hpos := h.pos
  refine ⟨hpos, ?_, ?_, h.result⟩
  · rw [← List.getElem?_take_of_lt (Nat.sub_lt hpos Nat.one_pos), htake,
      List.getElem?_take_of_lt (Nat.sub_lt hpos Nat.one_pos)]
    exact h.entry
  · have hcut : ∀ l : List LogEntry, l.take (a.index - 1) = (l.take a.index).take (a.index - 1) := by
      intro l
      rw [List.take_take, Nat.min_eq_left (Nat.sub_le _ _)]
    rw [hcut es', htake, ← hcut es]
    exact h.store

/-- **The loop of `applyCommitted` on a log without gaps** goes on with the replay of the log. -/
theorem applyFrom_replay (E : Engine σ) (empty : σ) {disk : Disk} (hdisk : ∀ k, disk k = true)
    {es : List LogEntry} : ∀ (k fuel : Nat) (n : RaftNode σ), n.raftLog.Holds es →
    n.lastApplied + fuel ≤ es.length → n.storage = replay E empty (es.take n.lastApplied) →
    (n.applyFrom E disk k fuel).1.lastApplied = n.lastApplied + fuel ∧
      (n.applyFrom E disk k fuel).1.storage = replay E empty (es.take (n.lastApplied + fuel)) ∧
      ∀ a ∈ (n.applyFrom E disk k fuel).2, a.index ≤ n.lastApplied + fuel ∧
        Sequential E empty es a
  | _, 0, n, _, _, hstore => ⟨rfl, hstore, fun a ha => absurd ha List.not_mem_nil⟩
  | k, fuel + 1, n, hes, hle, hstore => by
    have hlt : n.lastApplied < es.length := by omega
    have hget : n.raftLog.get (n.lastApplied + 1) = some es[n.lastApplied] := by
      rw [hes.get_succ, List.getElem?_eq_getElem hlt]
    have ho := onlyApplies_applyEntry E (disk k) { n with lastApplied := n.lastApplied + 1 }
      es[n.lastApplied]
    have hlast := lastApplied_applyEntry E (disk k) { n with lastApplied := n.lastApplied + 1 }
      es[n.lastApplied]
    have hnext : (applyEntry E (disk k) { n with lastApplied := n.lastApplied + 1 }
        es[n.lastApplied]).1.storage = replay E empty (es.take (n.lastApplied + 1)) := by
      rw [storage_applyEntry, hdisk k, List.take_add_one, List.getElem?_eq_getElem hlt]
      dsimp only [Option.toList_some]
      rw [replay_concat, hstore]
    obtain ⟨h1, h2, h3⟩ := applyFrom_replay E empty hdisk (k + 1) fuel _
      (by rw [ho.raftLog]; exact hes) (by rw [hlast]; dsimp only; omega)
      (by rw [hlast]; exact hnext)
    rw [hlast, Nat.add_assoc, Nat.add_comm 1 fuel] at h1 h2 h3
    rw [applyFrom_entry E disk hget]
    refine ⟨h1, h2, fun a ha => ?_⟩
    rcases List.mem_cons.mp ha with rfl | ha
    · refine ⟨by change n.lastApplied + 1 ≤ _; omega, Nat.succ_pos _,
        List.getElem?_eq_getElem hlt, hstore, ?_⟩
      change (applyCommand E (disk k) n.storage es[n.lastApplied].command).2 = _
      rw [hdisk k]
      rfl
    · exact h3 a ha

end RaftNode

namespace Cluster

variable {E : Engine σ} {M : Membership} {disk : Disk} {s s' : Cluster σ} {st : Step} {i : NodeID}
  {n : RaftNode σ}

/-- Whoever starts a process in the step starts it on the empty store: nobody does, or the engine keeps
nothing. -/
def StartsEmpty (E : Engine σ) (empty : σ) (_ : Cluster σ) (st : Step) : Prop :=
  st.keepsProcess = true ∨ ∀ store, E.reopen store = empty

/-! ## What a step does to the stores and the calls -/

/-- The critical section leaves the store and `lastApplied` alone. -/
def KeepsStore (n n' : RaftNode σ) : Prop := n'.storage = n.storage ∧ n'.lastApplied = n.lastApplied

/-- The critical section leaves the store, `lastApplied` and the `Propose` calls alone. -/
def Serves (n n' : RaftNode σ) : Prop := KeepsStore n n' ∧ n'.proposals = n.proposals

theorem Serves.refl (n : RaftNode σ) : Serves n n := ⟨⟨rfl, rfl⟩, rfl⟩

theorem Joins.serves {written : Bool} {term : Nat} {m : RaftNode σ} (h : Joins written n term m) :
    Serves n m := by
  cases h <;> exact ⟨⟨rfl, rfl⟩, rfl⟩

theorem serves_handleRequestVote (disk : Disk) (n : RaftNode σ) (req : RequestVoteRequest) :
    Serves n (n.handleRequestVote disk req).1 := by
  unfold RaftNode.handleRequestVote
  split
  · exact .refl n
  · rename_i hge
    have hm := (joins_of_not_lt (disk 0) hge).serves
    dsimp only
    generalize (if req.term > n.currentTerm then n.becomeFollower (disk 0) req.term else n) = m at hm ⊢
    split
    · exact hm
    · split <;> exact hm

theorem serves_voteResponse (disk : Disk) (n : RaftNode σ) (el : RaftNode.Election)
    (resp : RequestVoteResponse) : Serves n (n.voteResponse disk el resp).1 := by
  unfold RaftNode.voteResponse
  split
  · exact ⟨⟨rfl, rfl⟩, rfl⟩
  · split <;> exact .refl n

theorem serves_becomeLeader (disk : Disk) (n : RaftNode σ) :
    Serves n (n.becomeLeader disk) := by
  unfold RaftNode.becomeLeader
  split <;> exact ⟨⟨rfl, rfl⟩, rfl⟩

theorem keepsStore_propose (disk : Disk) (n : RaftNode σ) (cmd : Command) :
    KeepsStore n (n.propose disk cmd).1 := by
  unfold RaftNode.propose
  split
  · exact ⟨rfl, rfl⟩
  · dsimp only
    split <;> exact ⟨rfl, rfl⟩

theorem serves_handleAppendEntries (disk : Disk) (n : RaftNode σ) (req : AppendEntriesRequest) :
    Serves n (n.handleAppendEntries disk req).1 := by
  unfold RaftNode.handleAppendEntries
  split
  · exact .refl n
  · rename_i hge
    have hm := (joins_of_not_lt (disk 0) hge).serves
    unfold RaftNode.acceptEntries RaftNode.acceptLeader
    dsimp only
    generalize (if req.term > n.currentTerm then n.becomeFollower (disk 0) req.term else n) = m at hm ⊢
    split
    · exact hm
    · split
      · obtain ⟨commit, gs, heq, _⟩ := advanceCommit_cases
          { m with
            leaderID := req.leaderID
            raftLog := (m.raftLog.appendEntries disk req.prevLogIndex 0 req.entries).log } req
        rw [heq]
        exact hm
      · exact hm

theorem serves_appendResponse {disk : Disk} {n n' : RaftNode σ} {peer : NodeID}
    {resp : AppendEntriesResponse} (h : n.appendResponse disk peer resp = some n') :
    Serves n n' := by
  unfold RaftNode.appendResponse at h
  split at h
  · cases h
    exact .refl n
  · split at h
    · cases h
      exact ⟨⟨rfl, rfl⟩, rfl⟩
    · split at h
      · cases h
      · split at h
        · cases h
          unfold RaftNode.commitAcked
          dsimp only
          split <;> exact ⟨⟨rfl, rfl⟩, rfl⟩
        · cases h
          exact ⟨⟨rfl, rfl⟩, rfl⟩

/-- The process of the node ends in the step, by a crash. -/
def Dies (s : Cluster σ) : Step → NodeID → Prop
  | .crash i, j => i = j
  | .crashDuring a _, j => s.actor a = some j
  | _, _ => False

theorem Dies.keepsProcess (h : Dies s st i) : st.keepsProcess = false := by
  cases st <;> first | rfl | exact h.elim

/-- What becomes of the `Propose` calls of a node in a step that does not run `applyCommitted` there. -/
inductive CallsMove (st : Step) (i : NodeID) (n n' : RaftNode σ) : Prop
  | kept (h : n'.proposals = n.proposals)
  | proposed {cmd : Command} (hst : st.action? = some (.propose i cmd))
      (h : n'.proposals = n.proposals ++
        [{ index := (n.proposalEntry cmd).index
           term := (n.proposalEntry cmd).term
           command := cmd }])
  | released {id : Nat} (hst : st.action? = some (.receive i id) ∨ st.action? = some (.cancel i id))
      (h : n'.proposals = n.proposals.modify id fun p => { p with waiting := false })

theorem callsMove_propose (disk : Disk) (n : RaftNode σ) (cmd : Command)
    (hst : st.action? = some (.propose i cmd)) : CallsMove st i n (n.propose disk cmd).1 := by
  unfold RaftNode.propose
  split
  · exact .kept rfl
  · dsimp only
    split
    · exact .kept rfl
    · exact .proposed hst rfl

/-- A node's store, `lastApplied` and calls over a step that does not run `applyCommitted` there. -/
inductive StoreMove (E : Engine σ) (s : Cluster σ) (st : Step) (i : NodeID) (n : RaftNode σ) : Prop
  | same (h : KeepsStore (s.node i) n) (hcalls : CallsMove st i (s.node i) n)
  | reopened (store : σ) (hdies : Dies s st i) (hstore : n.storage = E.reopen store)
      (hlast : n.lastApplied = 0)

theorem Serves.storeMove (h : Serves (s.node i) n) : StoreMove E s st i n := .same h.1 (.kept h.2)

/-- The node runs `applyCommitted` in the step, and the trace gets what it applied. -/
def AppliesIn (E : Engine σ) (s s' : Cluster σ) (st : Step) (i : NodeID) : Prop :=
  ∃ disk gs gs', (DiskOk s st → ∀ k, disk k = true) ∧
    s'.node i = { (({ s.node i with goroutines := gs }).applyCommitted E disk).1 with
      goroutines := gs' } ∧
    s'.trace = s.trace ++
      (({ s.node i with goroutines := gs }).applyCommitted E disk).2.map fun a => (i, a)

theorem forall_storeMove {i : NodeID} (hi : StoreMove E s st i (s'.node i))
    (hother : ∀ j, j ≠ i → s'.node j = s.node j) (j : NodeID) : StoreMove E s st j (s'.node j) := by
  by_cases hj : j = i
  · rw [hj]
    exact hi
  · rw [hother j hj]
    exact (Serves.refl _).storeMove

theorem forall_storeMove_setNode (hnode : s'.node = (s.setNode i n).node) (h : StoreMove E s st i n)
    (j : NodeID) : StoreMove E s st j (s'.node j) := by
  refine forall_storeMove (i := i) ?_ (fun j hj => ?_) j
  · rw [hnode, setNode_self]
    exact h
  · rw [hnode, setNode_other _ _ _ hj]

/-- **What a step does to the stores and the calls**, where no snapshot is on its way and `n.leader` is set exactly
for leaders: nothing, or processes end, or one node runs `applyCommitted`. -/
theorem step_store (hset : ∀ i, LeaderSet (s.node i)) (hunsent : s.snapshotCalls = [])
    (h : s.step E M st = some s') :
    (s'.trace = s.trace ∧ ∀ i, StoreMove E s st i (s'.node i)) ∨
      ∃ i, AppliesIn E s s' st i ∧ ∀ j, j ≠ i → s'.node j = s.node j := by
  cases step_cases h with
  | @crash i =>
    refine Or.inl ⟨rfl, forall_storeMove (i := i) ?_ fun j hj => restart_other _ hj⟩
    rw [restart_self]
    exact .reopened _ rfl rfl rfl
  | @crashDuring a cut i s₁ _ hi _ =>
    refine Or.inl ⟨lose_trace a, forall_storeMove (i := i) ?_ fun j hj => ?_⟩
    · rw [restart_self]
      exact .reopened _ hi rfl rfl
    · rw [restart_other _ hj, lose_node]
  | @applyRead disk i k reads hg =>
    refine Or.inr ⟨i, ⟨disk, (s.node i).goroutines.eraseIdx k, s.goroutinesAfter E disk i k reads,
      fun hok => hok, ?_, rfl⟩, fun j hj => ?_⟩
    · rw [setNode_self, runGoroutine_apply]
    · rw [setNode_other _ _ _ hj]
      exact runGoroutine_other hj
  | @act disk a _ hx =>
    have hempty : ∀ {k : Nat} {c : SnapshotCall}, s.snapshotCalls[k]? ≠ some c := by
      intro k c hk
      rw [hunsent] at hk
      exact absurd hk (by simp)
    have hleads : ∀ {i : NodeID}, (s.node i).state = .leader → (s.node i).leader ≠ none := by
      intro i hlead hnone
      obtain ⟨ls, hls⟩ := (hset i).exists hlead
      rw [hls] at hnone
      exact absurd hnone (by simp)
    cases hx with
    | timeout _ _ _ =>
      exact Or.inl ⟨rfl, forall_storeMove_setNode rfl (Serves.storeMove ⟨⟨rfl, rfl⟩, rfl⟩)⟩
    | vote _ _ =>
      exact Or.inl ⟨rfl, forall_storeMove_setNode rfl (serves_handleRequestVote _ _ _).storeMove⟩
    | voted _ _ _ _ =>
      exact Or.inl ⟨rfl, forall_storeMove_setNode rfl (serves_voteResponse _ _ _ _).storeMove⟩
    | voteFailed _ _ => exact Or.inl ⟨rfl, fun i => (Serves.refl _).storeMove⟩
    | @finished i el hel _ =>
      refine Or.inl ⟨endElection_trace _ _ _, ?_⟩
      unfold endElection
      split
      · exact forall_storeMove_setNode rfl (serves_becomeLeader _ _).storeMove
      · exact fun i => (Serves.refl _).storeMove
    | proposed _ =>
      exact Or.inl ⟨rfl, forall_storeMove_setNode rfl
        (.same (keepsStore_propose _ _ _) (callsMove_propose _ _ _ rfl))⟩
    | received _ _ _ =>
      exact Or.inl ⟨rfl, forall_storeMove_setNode rfl
        (.same ⟨rfl, rfl⟩ (.released (Or.inl rfl) rfl))⟩
    | cancelled _ _ =>
      exact Or.inl ⟨rfl, forall_storeMove_setNode rfl
        (.same ⟨rfl, rfl⟩ (.released (Or.inr rfl) rfl))⟩
    | @sent i peer ls _ _ _ _ =>
      refine Or.inl ⟨sendTo_trace _ _ _, fun j => ?_⟩
      unfold sendTo
      split <;> exact (Serves.refl _).storeMove
    | sendPanic hrole hls => exact absurd hls (hleads hrole)
    | append _ _ =>
      exact Or.inl ⟨rfl, forall_storeMove_setNode rfl (serves_handleAppendEntries _ _ _).storeMove⟩
    | appended _ _ _ hn =>
      exact Or.inl ⟨rfl, forall_storeMove_setNode rfl (serves_appendResponse hn).storeMove⟩
    | @appendPanic k c hk =>
      -- the call finds `n.leader` set, so it has not panicked
      obtain ⟨d, resp, hd, _, hnode⟩ := step_appendReturn h
      obtain rfl : c = d := Option.some.inj (hk.symm.trans hd)
      obtain ⟨m, hm⟩ : ∃ m, (s.node c.src).appendResponse disk c.dst resp = some m := by
        rw [← Option.isSome_iff_exists, Option.isSome_iff_ne_none]
        intro hnone
        obtain ⟨hlead, _, hls⟩ := RaftNode.appendResponse_eq_none_iff.mp hnone
        exact hleads hlead hls
      refine Or.inl ⟨rfl, forall_storeMove (i := c.src) ?_ fun j hj => restart_other _ hj⟩
      rw [hnode, hm]
      exact (serves_appendResponse hm).storeMove
    | appendFailed _ => exact Or.inl ⟨rfl, fun i => (Serves.refl _).storeMove⟩
    | snapshot hk _ => exact absurd hk hempty
    | installed hk _ _ _ => exact absurd hk hempty
    | installPanic hk => exact absurd hk hempty
    | snapshotFailed hk => exact absurd hk hempty
    | @resumed i k g hg =>
      cases g with
      | applyCommitted =>
        exact Or.inr ⟨i, ⟨disk, (s.node i).goroutines.eraseIdx k, _, fun hok => hok,
          runGoroutine_apply, rfl⟩, fun j hj => runGoroutine_other hj⟩
      | takeSnapshot index term =>
        simp only [runGoroutine]
        split <;>
          exact Or.inl ⟨rfl, forall_storeMove_setNode rfl (Serves.storeMove ⟨⟨rfl, rfl⟩, rfl⟩)⟩
      | compactLog index term data =>
        refine Or.inl ⟨rfl, forall_storeMove_setNode rfl (Serves.storeMove ?_)⟩
        unfold RaftNode.compactLog
        split <;> exact ⟨⟨rfl, rfl⟩, rfl⟩

section Runs

variable {empty : σ} {threshold : NodeID → Int} {ok : Cluster σ → Step → Prop}
  {past : List (Cluster σ × Step)}

/-! ## What the nodes agree on -/

/-- The entries are part of what a majority has acknowledged. -/
def Agreed (M : Membership) (past : List (Cluster σ × Step)) (s : Cluster σ) (l : List LogEntry) :
    Prop :=
  l = [] ∨ ∃ u X, (history past s).Committed M.ids u X ∧ l <+: X

theorem Agreed.nil : Agreed M past s [] := Or.inl rfl

theorem Agreed.of_le {l l' : List LogEntry} (h : Agreed M past s l') (hle : l <+: l') :
    Agreed M past s l := by
  rcases h with rfl | ⟨u, X, hX, hl'⟩
  · exact Or.inl (List.prefix_nil.mp hle)
  · exact Or.inr ⟨u, X, hX, hle.trans hl'⟩

theorem Agreed.mono {earlier : List (Cluster σ × Step)} {τ : Cluster σ} {l : List LogEntry}
    (hsub : ∀ ω ∈ Lib.visited earlier τ, ω ∈ Lib.visited past s) (h : Agreed M earlier τ l) :
    Agreed M past s l := by
  rcases h with rfl | ⟨u, X, hX, hl⟩
  · exact .nil
  · exact Or.inr ⟨u, X, committed_mono hsub hX, hl⟩

theorem Covered.agreed {l : List LogEntry} {t c : Nat} (h : Covered M past s l t c) :
    Agreed M past s (l.take c) := by
  rcases h with rfl | ⟨u, X, hX, _, hc, hle⟩
  · exact Or.inl (List.take_zero)
  · refine Or.inr ⟨u, X, hX, ?_⟩
    have htake : X.take c = l.take c := by
      have := List.prefix_iff_eq_take.mp hle
      rw [List.length_take_of_le hc] at this
      exact this
    rw [← htake]
    exact List.take_prefix _ _

/-- **Of two agreed lists one extends the other.** -/
theorem Reaches.agreed_comparable {store : NodeID → σ} (hodd : M.ids.length % 2 = 1)
    (hord : Orderly ok) (h : Reaches E M store threshold ok past s) {l l' : List LogEntry}
    (hl : Agreed M past s l) (hl' : Agreed M past s l') : l <+: l' ∨ l' <+: l := by
  rcases hl with rfl | ⟨u, X, hX, hlX⟩
  · exact Or.inl List.nil_prefix
  · rcases hl' with rfl | ⟨w, Y, hY, hlY⟩
    · exact Or.inr List.nil_prefix
    · rcases (h.coherent hodd hord).committed_comparable (ids_ne_nil hodd) hX hY with hXY | hYX
      · exact Lib.comparable_of_le (hlX.trans hXY) hlY
      · exact Lib.comparable_of_le hlX (hlY.trans hYX)

theorem Reaches.agreed_le {store : NodeID → σ} (hodd : M.ids.length % 2 = 1) (hord : Orderly ok)
    (h : Reaches E M store threshold ok past s) {l l' : List LogEntry} (hl : Agreed M past s l)
    (hl' : Agreed M past s l') (hlen : l.length ≤ l'.length) : l <+: l' := by
  rcases h.agreed_comparable hodd hord hl hl' with hle | hle
  · exact hle
  · rw [Lib.eq_of_le_length hle hlen]

/-! ## Stores and results -/

/-- Every store is the replay of an agreed list, and so is every event of the trace. -/
structure Sequenced (E : Engine σ) (empty : σ) (M : Membership) (past : List (Cluster σ × Step))
    (s : Cluster σ) : Prop where
  store : ∀ i, ∃ l, Agreed M past s l ∧ l.length = (s.node i).lastApplied ∧
    (s.node i).storage = replay E empty l
  event : ∀ x ∈ s.trace, ∃ l, Agreed M past s l ∧ l.length = x.2.index ∧
    RaftNode.Sequential E empty l x.2

/-- One run of `applyCommitted`. -/
theorem Reaches.sequenced_run {store : NodeID → σ} (hodd : M.ids.length % 2 = 1) (hset : Settled ok)
    (h : Reaches E M store threshold ok past s) {l : List LogEntry} (hl : Agreed M past s l)
    (hlen : l.length = (s.node i).lastApplied) (hstore : (s.node i).storage = replay E empty l)
    (hdisk : ∀ k, disk k = true) (gs : List Goroutine) :
    ∃ l', Agreed M past s l' ∧
      l'.length = (({ s.node i with goroutines := gs }).applyCommitted E disk).1.lastApplied ∧
      (({ s.node i with goroutines := gs }).applyCommitted E disk).1.storage = replay E empty l' ∧
      ∀ a ∈ (({ s.node i with goroutines := gs }).applyCommitted E disk).2,
        a.index ≤ l'.length ∧ RaftNode.Sequential E empty l' a := by
  have hord := hset.toFaithful.toOrderly
  have hes := (hord.shape h).holds_log i
  have hcov := h.covered hodd hset (Lib.self_mem_visited _ _) i
  have hle := h.lastApplied_le i
  have hfit := hcov.le_length
  -- what has been applied is the beginning of the log
  have htake : l = (s.log i).take (s.node i).lastApplied := by
    have hpre := h.agreed_le hodd hord hl hcov.agreed
      (by rw [List.length_take_of_le hfit, hlen]; exact hle)
    rw [List.prefix_iff_eq_take.mp hpre, List.take_take, hlen, Nat.min_eq_left hle]
  obtain ⟨hlast, hst, hevents⟩ := RaftNode.applyFrom_replay E empty hdisk 0
    ((s.node i).commitIndex - (s.node i).lastApplied) { s.node i with goroutines := gs } hes
    (by dsimp only; omega) (by rw [← htake]; exact hstore)
  dsimp only at hlast hst hevents
  rw [Nat.add_sub_cancel' hle] at hlast hst hevents
  refine ⟨(s.log i).take (s.node i).commitIndex, hcov.agreed, ?_, hst, fun a ha => ?_⟩
  · rw [List.length_take_of_le hfit]
    exact hlast.symm
  · obtain ⟨hidx, hseq⟩ := hevents a ha
    rw [List.length_take_of_le hfit]
    refine ⟨hidx, hseq.congr ?_⟩
    rw [List.take_take, Nat.min_eq_left hidx]

/-- **Stores and results are those of a single store**, in every state of a run. -/
theorem Reaches.sequenced (hodd : M.ids.length % 2 = 1) (hset : Settled ok)
    (hstart : ∀ s st, ok s st → StartsEmpty E empty s st)
    (h : Reaches E M (fun _ => empty) threshold ok past s) : Sequenced E empty M past s := by
  have hord := hset.toFaithful.toOrderly
  refine Reaches.invariant (P := fun past s => Sequenced E empty M past s) ?_ ?_ h
  · exact ⟨fun i => ⟨[], .nil, rfl, rfl⟩, fun x hx => absurd hx List.not_mem_nil⟩
  · intro past s st s' hr hinv hok hs
    have hevent : ∀ x ∈ s.trace, ∃ l, Agreed M ((s, st) :: past) s' l ∧ l.length = x.2.index ∧
        RaftNode.Sequential E empty l x.2 := by
      intro x hx
      obtain ⟨l, hl, hseq⟩ := hinv.event x hx
      exact ⟨l, hl.mono visited_sub, hseq⟩
    have hkept : ∀ j, KeepsStore (s.node j) (s'.node j) → ∃ l, Agreed M ((s, st) :: past) s' l ∧
        l.length = (s'.node j).lastApplied ∧ (s'.node j).storage = replay E empty l := by
      intro j hkeep
      obtain ⟨l, hl, hlen, hstore⟩ := hinv.store j
      exact ⟨l, hl.mono visited_sub, hlen.trans hkeep.2.symm, hkeep.1.trans hstore⟩
    rcases step_store hr.leaderSet (hord.shape hr).unsent hs with
      ⟨htrace, hmove⟩ | ⟨i, ⟨disk, gs, gs', hdisk, hnode, htrace⟩, hother⟩
    · refine ⟨fun j => ?_, by rw [htrace]; exact hevent⟩
      cases hmove j with
      | same hkeep _ => exact hkept j hkeep
      | reopened store hdies hstore hlast =>
        rcases hstart s st hok with hkeeps | hempty
        · rw [hdies.keepsProcess] at hkeeps
          cases hkeeps
        · exact ⟨[], .nil, hlast.symm, by rw [hstore, hempty]; rfl⟩
    · obtain ⟨l, hl, hlen, hstore⟩ := hinv.store i
      obtain ⟨l', hl', hlen', hstore', hevents⟩ := hr.sequenced_run hodd hset hl hlen hstore
        (hdisk (hord.disk s st hok)) gs
      refine ⟨fun j => ?_, fun x hx => ?_⟩
      · by_cases hj : j = i
        · rw [hj, hnode]
          exact ⟨l', hl'.mono visited_sub, hlen', hstore'⟩
        · exact hkept j (by rw [hother j hj]; exact ⟨rfl, rfl⟩)
      · rw [htrace] at hx
        rcases List.mem_append.mp hx with hx | hx
        · exact hevent x hx
        · obtain ⟨a, ha, rfl⟩ := List.mem_map.mp hx
          obtain ⟨hidx, hseq⟩ := hevents a ha
          refine ⟨l'.take a.index, (hl'.of_le (List.take_prefix _ _)).mono visited_sub,
            List.length_take_of_le hidx, hseq.congr ?_⟩
          rw [List.take_take, Nat.min_self]

/-! ## Calls -/

/-- `applyCommitted` goes up from `lastApplied`. -/
theorem lastApplied_applyCommitted (E : Engine σ) (disk : Disk) (n : RaftNode σ) :
    n.lastApplied ≤ (n.applyCommitted E disk).1.lastApplied ∧
      ∀ a ∈ (n.applyCommitted E disk).2, n.lastApplied < a.index ∧
        a.index ≤ (n.applyCommitted E disk).1.lastApplied := by
  refine applyCommitted_rounds E disk (P := fun m done => n.lastApplied ≤ m.lastApplied ∧
    ∀ a ∈ done, n.lastApplied < a.index ∧ a.index ≤ m.lastApplied) ?_ ?_
    ⟨le_refl _, fun a ha => absurd ha List.not_mem_nil⟩
  · rintro written m e done _ _ ⟨hle, hdone⟩
    rw [RaftNode.lastApplied_applyEntry]
    refine ⟨Nat.le_succ_of_le hle, fun a ha => ?_⟩
    rcases List.mem_append.mp ha with ha | ha
    · exact ⟨(hdone a ha).1, Nat.le_succ_of_le (hdone a ha).2⟩
    · rw [List.mem_singleton.mp ha]
      exact ⟨Nat.lt_succ_of_le hle, le_refl _⟩
  · rintro m done _ _ ⟨hle, hdone⟩
    exact ⟨Nat.le_succ_of_le hle, fun a ha => ⟨(hdone a ha).1, Nat.le_succ_of_le (hdone a ha).2⟩⟩

theorem Answers.congr {a : Applied σ} {id : Nat} {p p' : Proposal} (h : Answers E a id p)
    (hsame : SameCall p p') (hdone : p'.done = p.done) : Answers E a id p' where
  waiter := h.waiter
  index := h.index.trans hsame.1.symm
  entry := h.entry.trans hsame.proposed.symm
  sent := hdone.trans h.sent
  result := by
    rw [hsame.2.2]
    exact h.result

/-- A call with a result was answered in the trace, and its node has applied its index. -/
def Returned (E : Engine σ) (s : Cluster σ) (i : NodeID) (id : Nat) (p : Proposal) : Prop :=
  p.index ≤ (s.node i).lastApplied ∧ ∃ a, (i, a) ∈ s.trace ∧ Answers E a id p

theorem Reaches.returned {store : NodeID → σ} (hsnap : ∀ s st, ok s st → NoSnapshot s st)
    (hgap : ∀ s st, ok s st → NoGap s st) (hspare : ∀ s st, ok s st → SparesWaited s st)
    (hclean : ∀ s st, ok s st → CleanProposal s st) (h : Reaches E M store threshold ok past s)
    {id : Nat} {p : Proposal} (hp : (s.node i).proposals[id]? = some p) (hdone : p.done ≠ none) :
    Returned E s i id p := by
  refine Reaches.invariant (P := fun _ s => ∀ i id p, (s.node i).proposals[id]? = some p →
    p.done ≠ none → Returned E s i id p) ?_ ?_ h i id p hp hdone
  · exact fun i id p hp => absurd hp (by simp [init])
  · intro past s st s' hr hinv hok hs i id p hp hdone
    -- the call had its result before the step
    have hold : ∀ q, (s.node i).proposals[id]? = some q → q.done = p.done → SameCall q p →
        (s.node i).lastApplied ≤ (s'.node i).lastApplied → Returned E s' i id p := by
      intro q hq hqd hsame hlast
      obtain ⟨hle, a, ha, hans⟩ := hinv i id q hq (by rw [hqd]; exact hdone)
      refine ⟨?_, a, trace_mono hs ha, hans.congr hsame hqd.symm⟩
      rw [hsame.1]
      exact hle.trans hlast
    rcases step_applied hs with ⟨_, hserve⟩ | ⟨j, ⟨disk, gs, gs', hnode, htrace⟩, hother⟩
    · cases hserve i with
      | same _ hcalls hlast =>
        exact hold p (by rw [← hcalls]; exact hp) rfl ⟨rfl, rfl, rfl⟩ (le_of_eq hlast.symm)
      | installed hc _ _ =>
        rw [(hr.shape hsnap hgap).unsent] at hc
        exact absurd hc List.not_mem_nil
      | restarted _ hcalls _ =>
        rw [hcalls] at hp
        exact absurd hp (by simp)
      | proposed _ _ _ hcalls hlast =>
        rw [hcalls] at hp
        rcases getElem?_concat_cases hp with hp | ⟨_, rfl⟩
        · exact hold p hp rfl ⟨rfl, rfl, rfl⟩ (le_of_eq hlast.symm)
        · exact absurd rfl hdone
      | released _ _ _ hcalls hlast =>
        rw [hcalls, List.getElem?_modify] at hp
        obtain ⟨q, hq, hf⟩ := Option.map_eq_some_iff.mp hp
        split at hf <;> (subst hf; exact hold q hq rfl ⟨rfl, rfl, rfl⟩ (le_of_eq hlast.symm))
    · by_cases hij : i = j
      · subst hij
        have hw : Waits { s.node i with goroutines := gs } := hr.waits hspare hclean i
        obtain ⟨hmono, hevents⟩ := lastApplied_applyCommitted E disk
          { s.node i with goroutines := gs }
        rw [hnode] at hp
        rcases (hw.applyCommitted disk).2 id p hp with hp | ⟨q, hq, hnone, hsame, a, ha, hans⟩
        · exact hold p hp rfl ⟨rfl, rfl, rfl⟩ (by rw [hnode]; exact hmono)
        · refine ⟨?_, a, ?_, hans⟩
          · rw [hnode, ← hans.index]
            exact (hevents a ha).2
          · rw [htrace]
            exact List.mem_append_right _ (List.mem_map_of_mem ha)
      · exact hold p (by rw [← hother i hij]; exact hp) rfl ⟨rfl, rfl, rfl⟩
          (by rw [hother i hij])

/-- A proposal changes nothing, or a leader has taken on a call and goes on leading. -/
theorem step_propose {cmd : Command} (hs : s.step E M st = some s')
    (hst : st.action? = some (.propose i cmd)) : s'.node i = s.node i ∨
      (s.node i).state = .leader ∧ (s'.node i).state = .leader ∧
      (s'.node i).currentTerm = (s.node i).currentTerm ∧
      (s'.node i).proposals = (s.node i).proposals ++
        [{ index := ((s.node i).proposalEntry cmd).index
           term := ((s.node i).proposalEntry cmd).term
           command := cmd }] := by
  cases step_cases hs with
  | act hx =>
    cases hst
    cases hx with
    | proposed _ =>
      rw [setNode_self]
      unfold RaftNode.propose
      by_cases hrole : (s.node i).state = .leader
      · rw [if_neg (not_not.mpr hrole)]
        dsimp only
        split
        · exact Or.inl rfl
        · exact Or.inr ⟨hrole, hrole, rfl, rfl⟩
      · rw [if_pos hrole]
        exact Or.inl rfl
  | crash => cases hst
  | crashDuring ha _ _ =>
    cases hst
    cases ha
  | applyRead _ => cases hst

/-- A run of `applyCommitted` gives calls results, nothing else. -/
theorem sameCall_applyCommitted (E : Engine σ) (disk : Disk) (n : RaftNode σ) {id : Nat}
    {p' : Proposal} (hp' : (n.applyCommitted E disk).1.proposals[id]? = some p') :
    ∃ p, n.proposals[id]? = some p ∧ SameCall p p' := by
  refine applyCommitted_rounds E disk (P := fun m _ => ∀ id p', m.proposals[id]? = some p' →
    ∃ p, n.proposals[id]? = some p ∧ SameCall p p') ?_ (fun _ _ _ _ h => h)
    (fun id p' hp' => ⟨p', hp', rfl, rfl, rfl⟩) id p' hp'
  intro written m e _ _ _ hm id p' hp'
  rw [proposals_applyEntry] at hp'
  obtain ⟨q, hq, rfl⟩ := Option.map_eq_some_iff.mp hp'
  obtain ⟨p, hp, hsame⟩ := hm id q hq
  refine ⟨p, hp, ?_⟩
  split <;> exact hsame

/-- The calls of a node: each was made by the leader of its term, whose log then reached its index; the
calls of one term stand in the order of their indices. -/
structure Lined (past : List (Cluster σ × Step)) (s : Cluster σ) (i : NodeID) : Prop where
  led : ∀ (id : Nat) (p : Proposal), (s.node i).proposals[id]? = some p → ∃ τ ∈ Lib.visited past s,
    (τ.node i).state = .leader ∧ (τ.node i).currentTerm = p.term ∧ p.index ≤ (τ.log i).length
  apart : ∀ (id id' : Nat) (p q : Proposal), id < id' → (s.node i).proposals[id]? = some p →
    (s.node i).proposals[id']? = some q → p.term = q.term → p.index < q.index

theorem Reaches.lined {store : NodeID → σ} (hodd : M.ids.length % 2 = 1) (hord : Orderly ok)
    (h : Reaches E M store threshold ok past s) (i : NodeID) : Lined past s i := by
  refine Reaches.invariant (P := fun past s => ∀ i, Lined past s i) ?_ ?_ h i
  · exact fun i => ⟨fun id p hp => absurd hp (by simp [init]),
      fun id id' p q _ hp => absurd hp (by simp [init])⟩
  · intro past s st s' hr hinv hok hs i
    -- every call is an old one
    have hsub : (∀ (id : Nat) (p' : Proposal), (s'.node i).proposals[id]? = some p' →
        ∃ p, (s.node i).proposals[id]? = some p ∧ SameCall p p') →
        Lined ((s, st) :: past) s' i := by
      intro hcalls
      refine ⟨fun id p' hp' => ?_, fun id id' p' q' hlt hp' hq' hterm => ?_⟩
      · obtain ⟨p, hp, hidx, hpt, _⟩ := hcalls id p' hp'
        obtain ⟨τ, hτ, hl, ht, hle⟩ := (hinv i).led id p hp
        exact ⟨τ, visited_sub τ hτ, hl, ht.trans hpt.symm, by rw [hidx]; exact hle⟩
      · obtain ⟨p, hp, hpi, hpt, _⟩ := hcalls id p' hp'
        obtain ⟨q, hq, hqi, hqt, _⟩ := hcalls id' q' hq'
        rw [hpi, hqi]
        exact (hinv i).apart id id' p q hlt hp hq (by rw [← hpt, ← hqt]; exact hterm)
    have hsame : (s'.node i).proposals = (s.node i).proposals → Lined ((s, st) :: past) s' i :=
      fun hcalls => hsub fun id p' hp' => ⟨p', by rw [← hcalls]; exact hp', rfl, rfl, rfl⟩
    rcases step_applied hs with ⟨_, hserve⟩ | ⟨j, ⟨disk, gs, gs', hnode, _⟩, hother⟩
    · cases hserve i with
      | same _ hcalls _ => exact hsame hcalls
      | installed _ _ hcalls => exact hsame hcalls
      | restarted _ hcalls _ =>
        refine hsub fun id p' hp' => ?_
        rw [hcalls] at hp'
        exact absurd hp' (by simp)
      | released _ _ _ hcalls _ =>
        refine hsub fun id p' hp' => ?_
        rw [hcalls, List.getElem?_modify] at hp'
        obtain ⟨p, hp, hf⟩ := Option.map_eq_some_iff.mp hp'
        exact ⟨p, hp, by split at hf <;> (subst hf; exact ⟨rfl, rfl, rfl⟩)⟩
      | @proposed written cmd hst hlog hpending hcalls _ =>
        obtain ⟨hlead, hlead', hterm', _⟩ := (step_propose hs hst).resolve_left fun heq => by
          rw [heq] at hcalls
          simp at hcalls
        have hlen : ((s.node i).proposalEntry cmd).index = (s.log i).length + 1 := by
          rw [← ((hord.shape hr).holds_log i).lastIndex]
          rfl
        have hreach : ((s.node i).proposalEntry cmd).index ≤ (s'.log i).length := by
          rw [← ((hord.shape (.next hr hok hs)).holds_log i).lastIndex]
          refine RaftLog.le_lastIndex (e := ((s.node i).proposalEntry cmd).stored) ?_
          rw [RaftLog.get_append hlog, if_pos rfl]
        refine ⟨fun id p hp => ?_, fun id id' p q hlt hp hq hterm => ?_⟩
        · rw [hcalls] at hp
          rcases getElem?_concat_cases hp with hp | ⟨_, rfl⟩
          · obtain ⟨τ, hτ, hrest⟩ := (hinv i).led id p hp
            exact ⟨τ, visited_sub τ hτ, hrest⟩
          · exact ⟨s', Lib.self_mem_visited _ _, hlead', hterm', hreach⟩
        · rw [hcalls] at hp hq
          rcases getElem?_concat_cases hq with hq | ⟨hid', rfl⟩
          · rw [List.getElem?_append_left
              (hlt.trans (List.getElem?_eq_some_iff.mp hq).1)] at hp
            exact (hinv i).apart id id' p q hlt hp hq hterm
          · rw [List.getElem?_append_left (by omega)] at hp
            obtain ⟨τ, hτ, hl, ht, hle⟩ := (hinv i).led id p hp
            -- the leader of the term has kept what it had when it took on the earlier call
            rcases hr.later hodd hord hτ i with hless | ⟨_, _, _, hgrows⟩
            · rw [ht, hterm] at hless
              exact absurd hless (lt_irrefl _)
            · have := (hgrows hl hlead).length_le
              change p.index < ((s.node i).proposalEntry cmd).index
              rw [hlen]
              exact Nat.lt_succ_of_le (hle.trans this)
    · by_cases hij : i = j
      · subst hij
        refine hsub fun id p' hp' => ?_
        rw [hnode] at hp'
        exact sameCall_applyCommitted E disk { s.node i with goroutines := gs } hp'
      · exact hsame (by rw [hother i hij])

/-! ## The theorems -/

/-- The condition of this module on the steps of a run. -/
def Serial (E : Engine σ) (empty : σ) (s : Cluster σ) (st : Step) : Prop :=
  CarefulCommit s st ∧ SparesWaited s st ∧ CleanProposal s st ∧ StartsEmpty E empty s st

theorem settled_serial : Settled (Serial E empty) where
  disk := fun _ _ h => h.1.2
  snapshot := fun _ _ h => h.1.1.1
  gap := fun _ _ h => h.1.1.2.1
  ack := fun _ _ h => h.1.1.2.2.1
  stored := fun _ _ h => h.1.1.2.2.2

/-- Some agreed list is as long as each of finitely many. -/
theorem exists_longest {P : List LogEntry → Prop} (h0 : P []) : ∀ ks : List Nat,
    (∀ k ∈ ks, ∃ l, P l ∧ l.length = k) → ∃ X, P X ∧ ∀ k ∈ ks, k ≤ X.length
  | [], _ => ⟨[], h0, fun k hk => absurd hk List.not_mem_nil⟩
  | k :: ks, h => by
    obtain ⟨X, hX, hle⟩ := exists_longest h0 ks fun j hj => h j (List.mem_cons_of_mem k hj)
    obtain ⟨l, hl, hlen⟩ := h k List.mem_cons_self
    rcases Nat.le_total k X.length with hk | hk
    · exact ⟨X, hX, List.forall_mem_cons.mpr ⟨hk, hle⟩⟩
    · exact ⟨l, hl, List.forall_mem_cons.mpr ⟨le_of_eq hlen.symm,
        fun j hj => by rw [hlen]; exact (hle j hj).trans hk⟩⟩

theorem Reaches.trace_subset {store : NodeID → σ} (h : Reaches E M store threshold ok past s)
    {τ : Cluster σ} (hτ : τ ∈ Lib.visited past s) {x : NodeID × Applied σ} (hx : x ∈ τ.trace) :
    x ∈ s.trace :=
  Lib.Run.rel (R := fun τ s : Cluster σ => ∀ x, x ∈ τ.trace → x ∈ s.trace) (fun _ _ hx => hx)
    (fun _ _ _ h h' x hx => h' x (h x hx)) (fun _ _ _ _ _ _ hs _ hx => trace_mono hs hx) h hτ x hx

/-- **There is a common list**: an agreed one that has every event of the trace and every store. -/
theorem Reaches.exists_common (hodd : M.ids.length % 2 = 1) (hset : Settled ok)
    (hstart : ∀ s st, ok s st → StartsEmpty E empty s st)
    (h : Reaches E M (fun _ => empty) threshold ok past s) : ∃ X,
      (∀ x ∈ s.trace, RaftNode.Sequential E empty X x.2) ∧
      ∀ τ ∈ Lib.visited past s, ∀ i, (τ.node i).lastApplied ≤ X.length ∧
        (τ.node i).storage = replay E empty (X.take (τ.node i).lastApplied) := by
  have hord := hset.toFaithful.toOrderly
  have hseq := h.sequenced hodd hset hstart
  obtain ⟨X, hX, hlong⟩ := exists_longest (P := Agreed M past s) .nil
    (s.trace.map fun x => x.2.index) fun k hk => by
      obtain ⟨x, hx, rfl⟩ := List.mem_map.mp hk
      obtain ⟨l, hl, hlen, _⟩ := hseq.event x hx
      exact ⟨l, hl, hlen⟩
  refine ⟨X, fun x hx => ?_, fun τ hτ i => ?_⟩
  · obtain ⟨l, hl, hlen, hevent⟩ := hseq.event x hx
    have hpre := h.agreed_le hodd hord hl hX (by rw [hlen]; exact hlong _ (List.mem_map_of_mem hx))
    refine hevent.congr ?_
    rw [← hlen, List.take_length]
    exact (List.prefix_iff_eq_take.mp hpre).symm
  · obtain ⟨earlier, he, hsub⟩ := h.of_visited hτ
    obtain ⟨l, hl, hlen, hstore⟩ := (Reaches.sequenced hodd hset hstart he).store i
    have hle : (τ.node i).lastApplied ≤ X.length := by
      rcases Nat.eq_zero_or_pos (τ.node i).lastApplied with h0 | hpos
      · rw [h0]
        exact Nat.zero_le _
      · obtain ⟨a, ha, hidx⟩ := (Reaches.applied hodd hset he).passed i _ hpos (le_refl _)
        rw [← hidx]
        exact hlong _ (List.mem_map_of_mem (f := fun x : NodeID × Applied σ => x.2.index)
          (h.trace_subset hτ ha))
    have hpre := h.agreed_le hodd hord (hl.mono hsub) hX (by rw [hlen]; exact hle)
    refine ⟨hle, ?_⟩
    rw [hstore, ← hlen, ← List.prefix_iff_eq_take.mp hpre]

open Shipped (node1 node2 elect)

/-- `node-1` proposes a `PUT` and answers it. Then `node-2`, elected by `node-3`, proposes a `CAS` on the
same key, replicates it to `node-1` and answers it. -/
def twoCalls : List Action :=
  ownCommand ++ elect node2 3 2 ++
    [.propose node2 ⟨.cas, [1], [2], [1]⟩, .replicate node2 node1, .handleAppend 1, .appendReturn 1,
      .resume node2 0]

/-- The condition of this module, for runs in which no process ends. -/
def SerialLife (s : Cluster σ) (st : Step) : Prop :=
  NoSnapshot s st ∧ NoGap s st ∧ FreshAck s st ∧ CommitsStored s st ∧ SparesWaited s st ∧
    CleanProposal s st ∧ st.keepsProcess = true

instance (s : Cluster σ) (st : Step) : Decidable (SerialLife s st) :=
  inferInstanceAs (Decidable (_ ∧ _ ∧ _ ∧ _ ∧ _ ∧ _ ∧ _))

theorem serial_of_life {E : Engine σ} (h : SerialLife s st ∧ DiskOk s st) : Serial E empty s st :=
  ⟨⟨⟨h.1.1, h.1.2.1, h.1.2.2.1, h.1.2.2.2.1⟩, h.2⟩, h.1.2.2.2.2.1, h.1.2.2.2.2.2.1,
    Or.inl h.1.2.2.2.2.2.2⟩

/-- A call that is taken on after an index has been applied, and whose entry is ever applied, has a
larger index. -/
theorem Reaches.proposed_after {store : NodeID → σ} (hodd : M.ids.length % 2 = 1) (hset : Settled ok)
    (h : Reaches E M store threshold ok past s) {k : Nat} {ω ω' : Cluster σ} {y : NodeID}
    {cmd : Command} {q : Proposal} (hk : past[k]? = some (ω, st))
    (hst : st.action? = some (.propose y cmd)) (hs : ω.step E M st = some ω')
    (hq : (ω'.node y).proposals[(ω.node y).proposals.length]? = some q)
    {e x : NodeID × Applied σ} (he : e ∈ ω.trace) (hx : x ∈ s.trace) (hidx : x.2.index = q.index)
    (hterm : x.2.entry.term = q.term) : e.2.index < q.index := by
  have hord := hset.toFaithful.toOrderly
  obtain ⟨hω, hωsub⟩ := h.before hk
  obtain ⟨hlead, _, _, hcalls⟩ := (step_propose hs hst).resolve_left fun heq => by
    rw [heq, List.getElem?_eq_none (le_refl _)] at hq
    cases hq
  rw [hcalls, List.getElem?_concat_length] at hq
  obtain rfl := Option.some.inj hq
  have hnew : ((ω.node y).proposalEntry cmd).index = (ω.log y).length + 1 := by
    rw [← ((hord.shape hω).holds_log y).lastIndex]
    rfl
  by_contra hle
  -- the earlier index, and with it the call's, was committed before the call
  obtain ⟨_, u, X, hX, hXe⟩ := (Reaches.applied hodd hset hω).entry _ he
  obtain ⟨hpos, w, Y, hY, hYx⟩ := (h.applied hodd hset).entry _ hx
  have hlong : x.2.index - 1 < X.length := by
    have := (List.getElem?_eq_some_iff.mp hXe).1
    omega
  have hXx : X[x.2.index - 1]? = some x.2.entry := by
    rcases (h.coherent hodd hord).committed_comparable (ids_ne_nil hodd)
      (committed_mono hωsub hX) hY with hXY | hYX
    · rw [List.getElem?_eq_getElem hlong, ← hYx]
      exact (Lib.getElem?_of_le hXY (List.getElem?_eq_getElem hlong)).symm
    · exact Lib.getElem?_of_le hYX hYx
  -- so the leader of the call's term had its entry by then
  obtain ⟨l, ⟨τ', hτ', v, _, _, rfl⟩, hXl⟩ :=
    (Reaches.coherent hodd hord hω).committed_led (ids_ne_nil hodd) hX
  obtain ⟨l', ⟨τ'', hτ'', z, hz, hzt, rfl⟩, hcut⟩ := Reaches.traced hodd hord hω hτ' v _ _
    (Lib.getElem?_of_le hXl hXx)
  have hhad := Reaches.led_le hodd hord hω hlead (l := τ''.log z)
    ⟨τ'', hτ'', z, hz, hzt.trans hterm, rfl⟩
  have hlen := (hcut.trans hhad).length_le
  have hfit := (List.getElem?_eq_some_iff.mp (Lib.getElem?_of_le hXl hXx)).1
  rw [List.length_take_of_le (Nat.succ_le_of_lt hfit)] at hlen
  dsimp only at hidx
  omega

/-- **Real time is kept.** In every run as in `Cluster/StateMachine.lean`, of an odd number of members with
valid UTF-8 ids, whose waiting calls keep their entries and whose proposed commands survive the JSON text
of the log: a call that is taken on after another call has got its result, and whose entry any node ever
applies, has the larger index, whichever nodes the two calls were made on. -/
theorem real_time_order {store : NodeID → σ} (hodd : M.ids.length % 2 = 1)
    (h : Reaches E M store threshold
      (fun s st => CarefulCommit s st ∧ SparesWaited s st ∧ CleanProposal s st) past s)
    -- the later call `q`, taken on by `y` in the step from `ω` to `ω'`
    {k : Nat} {ω ω' : Cluster σ} {y : NodeID} {cmd : Command} {q : Proposal}
    (hk : past[k]? = some (ω, st)) (hst : st.action? = some (.propose y cmd))
    (hs : ω.step E M st = some ω')
    (hq : (ω'.node y).proposals[(ω.node y).proposals.length]? = some q)
    -- the earlier call `p`, which has its result in a state up to `ω`
    {τ : Cluster σ} (hτ : τ ∈ Lib.visited (past.drop (k + 1)) ω) {id : Nat} {p : Proposal}
    (hp : (τ.node i).proposals[id]? = some p) (hdone : p.done ≠ none) {x : NodeID × Applied σ}
    (hx : x ∈ s.trace) (hidx : x.2.index = q.index) (hterm : x.2.entry.term = q.term) :
    p.index < q.index := by
  have hset : Settled (fun (s : Cluster σ) st =>
      CarefulCommit s st ∧ SparesWaited s st ∧ CleanProposal s st) :=
    { disk := fun _ _ h => h.1.2
      snapshot := fun _ _ h => h.1.1.1
      gap := fun _ _ h => h.1.1.2.1
      ack := fun _ _ h => h.1.1.2.2.1
      stored := fun _ _ h => h.1.1.2.2.2 }
  have hω := (h.before hk).1
  obtain ⟨earlier, he, _⟩ := hω.of_visited hτ
  obtain ⟨_, a, ha, hans⟩ := Reaches.returned hset.snapshot hset.gap (fun _ _ h => h.2.1)
    (fun _ _ h => h.2.2) he hp hdone
  rw [← hans.index]
  exact h.proposed_after hodd hset hk hst hs hq (Reaches.trace_subset hω hτ ha) hx hidx hterm

/-- The `CAS` is taken on after the `PUT` has got its result, on another node, and comes later. -/
theorem real_time_order_twoCalls : ∃ past s, Shipped.Reaches
      (fun s st => CarefulCommit s st ∧ SparesWaited s st ∧ CleanProposal s st) past s ∧
    ∃ ω st ω' τ p q, past[4]? = some (ω, st) ∧
      ω.step Shipped.engine Shipped.membership st = some ω' ∧
      (ω'.node node2).proposals[0]? = some q ∧ τ ∈ Lib.visited (past.drop 5) ω ∧
      (τ.node node1).proposals[0]? = some p ∧ p.done ≠ none ∧ p.index < q.index := by
  have hrun := (Shipped.reaches_play SerialLife twoCalls).mono fun _ _ h =>
    (⟨⟨⟨h.1.1, h.1.2.1, h.1.2.2.1, h.1.2.2.2.1⟩, h.2⟩, h.1.2.2.2.2.1, h.1.2.2.2.2.2.1⟩ :
      CarefulCommit _ _ ∧ SparesWaited _ _ ∧ CleanProposal _ _)
  obtain ⟨⟨ω, st⟩, hk, hst, ⟨ω', hs, q, hq, hlen, hq4, hq2⟩, τ, hτ, p, hp, hdone⟩ :
      ∃ x ∈ (Shipped.play SerialLife twoCalls).1[4]?,
        x.2.action? = some (.propose node2 ⟨.cas, [1], [2], [1]⟩) ∧
        (∃ ω' ∈ x.1.step Shipped.engine Shipped.membership x.2, ∃ q ∈ (ω'.node node2).proposals[0]?,
          (x.1.node node2).proposals.length = 0 ∧ q.index = 4 ∧ q.term = 2) ∧
        ∃ τ ∈ Lib.visited ((Shipped.play SerialLife twoCalls).1.drop 5) x.1,
          ∃ p ∈ (τ.node node1).proposals[0]?, p.done ≠ none := by
    decide +kernel
  obtain ⟨x, hx, hx4, hx2⟩ : ∃ x ∈ (Shipped.play SerialLife twoCalls).2.trace, x.2.index = 4 ∧
      x.2.entry.term = 2 := by
    decide +kernel
  refine ⟨_, _, hrun, ω, st, ω', τ, p, q, hk, hs, hq, hτ, hp, hdone, ?_⟩
  exact real_time_order rfl hrun hk hst hs (by rw [hlen]; exact hq) hτ hp hdone hx
    (hx4.trans hq4.symm) (hx2.trans hq2.symm)

end Runs

end Cluster

end Raftrix
