import Raftrix.Cluster.LeaderCompleteness
import Raftrix.Node.BackOff

/-!
# One leader

Runs in which a single node `L` ever leads, possibly several times and in several terms, in a cluster
of any size. Nothing else is asked for: other nodes may stand for election in vain, processes crash,
every kind of write may fail, messages are lost, delayed and reordered, and `L` counts answers of its
earlier terms. Only snapshots are excluded.

All requests are then slices of prefixes of the one log of `L`, which only grows. So a follower whose
log is a prefix of it meets no conflict, keeps what it has and takes over some more of it
(`Merge.of_le`); what it answered about its length stays true; and the bookkeeping of `L` tells the
truth. **`Stable`** collects this, messages in flight included, `Stable.step` says that every step
keeps it, and **`stable_leader`** is what follows.
-/

namespace Raftrix

/-! ## Two prefixes of one log -/

section Slice

variable {base es l es' : List LogEntry} {p : Nat} {done : Bool}

/-- The entries of two prefixes of one log at one position are equal. -/
theorem getElem?_eq_of_le (hes : es <+: base) (hl : l <+: base) {k : Nat} {e q : LogEntry}
    (he : es[k]? = some e) (hq : l[k]? = some q) : e = q :=
  Option.some.inj ((Lib.getElem?_of_le hes he).symm.trans (Lib.getElem?_of_le hl hq))

/-- **A slice of a prefix, merged into another prefix of the same log**, extends it within that log. -/
theorem Merge.of_le (hes : es <+: base) (hl : l <+: base) (hp : p ≤ es.length)
    (h : Merge es p (l.drop p) es' done) : es <+: es' ∧ es' <+: base := by
  cases h with
  | stopped => exact ⟨List.prefix_refl _, hes⟩
  | grown j _ _ _ =>
    rw [drop_slice hp]
    refine ⟨List.prefix_append _ _, ?_⟩
    rcases Lib.comparable_of_le hes hl with hle | hle
    · obtain ⟨t, rfl⟩ := hle
      rw [List.drop_left]
      refine List.IsPrefix.trans ?_ hl
      exact (List.prefix_append_right_inj _).mpr (List.take_prefix _ _)
    · rw [List.drop_eq_nil_of_le hle.length_le, List.take_nil, List.append_nil]
      exact hes
  | cut _ _ he hq hne =>
    -- the last entry of the slice is the entry of the log at its position
    have hpos : 0 < (l.drop p).length := List.length_pos_iff.mpr fun h0 => by
      rw [h0] at hq
      exact absurd hq (by simp)
    rw [List.getLast?_eq_getElem?, List.getElem?_drop] at hq
    rw [Nat.add_sub_assoc hpos] at he
    exact absurd (congrArg LogEntry.term (getElem?_eq_of_le hes hl he hq)) hne

/-- A slice of a prefix does not conflict with another prefix of the same log. -/
theorem onlyLastConflicts_of_le {rl : RaftLog} {req : AppendEntriesRequest} (h : rl.Holds es)
    (hes : es <+: base) (hl : l <+: base) (hreq : req.entries = l.drop req.prevLogIndex) :
    OnlyLastConflicts rl req := by
  refine Cluster.onlyLastConflicts_of_agree h fun k q e hq he => ?_
  have hq' : req.entries[k]? = some q := Lib.getElem?_of_le (List.dropLast_prefix _) hq
  rw [hreq, List.getElem?_drop] at hq'
  rw [getElem?_eq_of_le hes hl he hq']

end Slice

namespace Cluster

variable {σ : Type} {E : Engine σ} {M : Membership} {s s' : Cluster σ} {st : Step} {L : NodeID}
  {n m : RaftNode σ} {store : NodeID → σ} {threshold : NodeID → Int}
  {ok : Cluster σ → Step → Prop} {past : List (Cluster σ × Step)}

/-- The hint of a rejection does not reach beyond the follower's log. -/
theorem conflictIndex_le (disk : Disk) (n : RaftNode σ) (req : AppendEntriesRequest) :
    (n.handleAppendEntries disk req).2.conflictIndex ≤ n.raftLog.lastIndex + 1 := by
  have hr := RaftNode.received disk n req
  generalize n.handleAppendEntries disk req = r at hr ⊢
  cases hr with
  | rejected _ hprev => exact RaftLog.checkPrev_le hprev
  | _ => exact Nat.zero_le _

/-! ## The invariant -/

/-- A majority holds an entry at index `r`. -/
def Stored (M : Membership) (s : Cluster σ) (r : Nat) : Prop :=
  1 ≤ r → ∃ Q, Lib.Majority M.ids Q ∧ ∀ v ∈ Q, r ≤ (s.log v).length

theorem Stored.zero : Stored M s 0 := fun h => absurd h (by simp)

theorem Stored.mono {r r' : Nat} (h : Stored M s r) (hle : r' ≤ r)
    (hgrow : ∀ v, s.log v <+: s'.log v) : Stored M s' r' := by
  intro h1
  obtain ⟨Q, hQ, hv⟩ := h (h1.trans hle)
  exact ⟨Q, hQ, fun v hmem => (hle.trans (hv v hmem)).trans (hgrow v).length_le⟩

/-- The bookkeeping of leader `L`. -/
structure Books (M : Membership) (L : NodeID) (s : Cluster σ) (ls : LeaderState) : Prop where
  keys : ∀ p, p ∈ ls.matchIndex ↔ p ∈ (M.peers L).map Peer.id
  matchIndex : ∀ p, ls.matchIndex.at p ≤ (s.log p).length
  nextIndex : ∀ p ∈ (M.peers L).map Peer.id, ls.nextIndex.at p ≤ (s.log L).length + 1

theorem Books.mono {ls : LeaderState} (h : Books M L s ls) (hgrow : ∀ v, s.log v <+: s'.log v) :
    Books M L s' ls where
  keys := h.keys
  matchIndex p := (h.matchIndex p).trans (hgrow p).length_le
  nextIndex p hp := (h.nextIndex p hp).trans (Nat.succ_le_succ (hgrow L).length_le)

/-- Counting an acknowledgement that tells the truth. -/
theorem Books.acknowledge {ls : LeaderState} {p : NodeID} {index : Nat} (h : Books M L s ls)
    (hle : ∀ i, s.log i <+: s.log L) (hp : p ∈ (M.peers L).map Peer.id)
    (hindex : index ≤ (s.log p).length) : Books M L s (ls.acknowledge p index) := by
  have hmatch : ∀ q, (ls.acknowledge p index).matchIndex.at q ≤ (s.log q).length := by
    intro q
    rw [LeaderState.acknowledge_matchIndex]
    have := h.matchIndex q
    split
    · rename_i hq
      subst hq
      omega
    · exact this
  refine ⟨fun q => ?_, hmatch, fun q hq => ?_⟩
  · rw [LeaderState.mem_acknowledge ((h.keys p).mpr hp)]
    exact h.keys q
  · rw [LeaderState.acknowledge_nextIndex]
    split
    · exact Nat.succ_le_succ ((hmatch p).trans (hle p).length_le)
    · exact h.nextIndex q hq

/-- Following the hint of a rejection. -/
theorem Books.backUp {ls : LeaderState} {p : NodeID} {index : Nat} (h : Books M L s ls)
    (hindex : index ≤ (s.log L).length + 1) : Books M L s (ls.backUp p index) := by
  refine ⟨fun q => ?_, fun q => ?_, fun q hq => ?_⟩
  · rw [LeaderState.backUp_matchIndex]
    exact h.keys q
  · rw [LeaderState.backUp_matchIndex]
    exact h.matchIndex q
  · have hnext := h.nextIndex q hq
    rcases LeaderState.backUp_nextIndex ls p index q with heq | ⟨_, _, hle⟩
    · rw [heq]
      exact hnext
    · omega

/-- A new leader's bookkeeping. -/
theorem books_newLeaderState {index : Nat} (hindex : index ≤ (s.log L).length) :
    Books M L s (.newLeaderState (M.peers L) index) := by
  refine ⟨fun p => LeaderState.mem_newLeaderState _ _ p, fun p => ?_, fun p hp => ?_⟩
  · rw [LeaderState.newLeaderState_matchIndex]
    exact Nat.zero_le _
  · rw [LeaderState.newLeaderState_nextIndex _ hp]
    exact Nat.succ_le_succ hindex

/-- What holds while `L` is the only leader. -/
structure Stable (M : Membership) (L : NodeID) (s : Cluster σ) : Prop where
  shape : Shape s
  le : ∀ i, s.log i <+: s.log L
  commit : ∀ i, (s.node i).commitIndex ≤ (s.log i).length ∧ Stored M s (s.node i).commitIndex
  request : ∀ c ∈ s.appendCalls, c.src = L ∧ Stored M s c.req.leaderCommit ∧
    ∃ l, l <+: s.log L ∧ c.req.entries = l.drop c.req.prevLogIndex
  answer : ∀ c ∈ s.appendCalls, ∀ resp, c.reply = .answered resp →
    (resp.success = true → resp.matchIndex ≤ (s.log c.dst).length) ∧
      resp.conflictIndex ≤ (s.log L).length + 1
  books : (s.node L).state = .leader → ∃ ls, (s.node L).leader = some ls ∧ Books M L s ls

theorem Stable.init : Stable M L (init M store threshold) where
  shape := .init
  le _ := List.prefix_refl _
  commit _ := ⟨Nat.zero_le _, .zero⟩
  request _ hc := absurd hc List.not_mem_nil
  answer _ hc := absurd hc List.not_mem_nil
  books hl := absurd hl (by simp [Cluster.init])

/-! ## One step -/

section Step

/-- Only `L` leads. -/
def OnlyLeader (L : NodeID) (s : Cluster σ) : Prop := ∀ i, (s.node i).state = .leader → i = L

variable (hr : Reaches E M store threshold ok past s) (h : Stable M L s)

include h in
/-- No request conflicts with the log it meets. -/
theorem Stable.noGap : NoGap s st := by
  unfold NoGap OnAdmitted
  split
  · intro c hc _
    obtain ⟨_, _, l, hl, hentries⟩ := h.request c (List.mem_of_getElem? hc)
    exact onlyLastConflicts_of_le (h.shape.holds_log c.dst) (h.le c.dst) hl hentries
  · trivial

include h in
/-- What an admitted request does to the log of its callee. -/
theorem Stable.splice {c : AppendCall} (hc : c ∈ s.appendCalls) (hadm : (s.node c.dst).Admits c.req)
    {es' : List LogEntry} {done : Bool}
    (hmerge : Merge (s.log c.dst) c.req.prevLogIndex c.req.entries es' done) :
    s.log c.dst <+: es' ∧ es' <+: s.log L ∧
      (done = true → c.req.prevLogIndex + c.req.entries.length ≤ es'.length) := by
  obtain ⟨_, _, l, hl, hentries⟩ := h.request c hc
  have hp : c.req.prevLogIndex ≤ (s.log c.dst).length := by
    rcases ((h.shape.holds_log c.dst).checkPrev c.req).mp hadm.2 with h0 | ⟨hle, _⟩ <;> omega
  have hgrow := Merge.of_le (h.le c.dst) hl hp (by rw [← hentries]; exact hmerge)
  refine ⟨hgrow.1, hgrow.2, fun hdone => ?_⟩
  rcases hmerge.length_le hp hdone with hlen | hlt
  · exact hlen
  · exact absurd hgrow.1.length_le (by omega)

include hr h in
/-- The bookkeeping of `L` after an acknowledgement is counted. -/
theorem Stable.books_acknowledge {k : Nat} {c : AppendCall} {resp : AppendEntriesResponse}
    {ls : LeaderState} (hk : s.appendCalls[k]? = some c) (hrep : c.reply = .answered resp)
    (hsrc : c.src = L) (hrole : (s.node L).state = .leader) (hls : (s.node L).leader = some ls)
    (hsucc : resp.success = true) : Books M L s (ls.acknowledge c.dst resp.matchIndex) := by
  obtain ⟨ls', hls', hbooks⟩ := h.books hrole
  obtain rfl := Option.some.inj (hls.symm.trans hls')
  have hc := List.mem_of_getElem? hk
  have hpeer := (hr.appendCall_ends hc).2
  rw [hsrc] at hpeer
  exact hbooks.acknowledge h.le hpeer ((h.answer c hc resp hrep).1 hsucc)

variable (hsnap : NoSnapshot s st) (hs : s.step E M st = some s') (honly : OnlyLeader L s)
  (honly' : OnlyLeader L s')

include hr h hsnap hs honly'

/-- **The logs grow**, and stay prefixes of the log of `L`. -/
theorem Stable.grows (i : NodeID) : s.log i <+: s'.log i ∧ s'.log i <+: s'.log L := by
  have hmove := h.shape.logMove hr hsnap h.noGap hs
  -- `L` handles no request: its own go to others
  have hleader : s.log L <+: s'.log L := by
    cases hmove L with
    | same heq _ _ => rw [heq]
    | grew heq _ _ _ _ _ _ _ =>
      rw [heq]
      exact List.prefix_append _ _
    | @spliced k c _ _ hk hdst _ _ _ _ _ =>
      have hc := List.mem_of_getElem? hk
      obtain ⟨hsrc, hpeer⟩ := hr.appendCall_ends hc
      exact absurd (hdst.trans (h.request c hc).1.symm) (mem_peers hsrc hpeer).2
  cases hmove i with
  | same heq _ _ =>
    rw [heq]
    exact ⟨List.prefix_refl _, (h.le i).trans hleader⟩
  | grew heq hrole _ _ _ _ _ _ =>
    obtain rfl := honly' i hrole
    exact ⟨hleader, List.prefix_refl _⟩
  | @spliced k c done _ hk hdst hadm _ _ hmerge _ =>
    subst hdst
    obtain ⟨h1, h2, _⟩ := h.splice (List.mem_of_getElem? hk) hadm hmerge
    exact ⟨h1, h2.trans hleader⟩

/-- The requests in flight. -/
theorem Stable.step_request (honly : OnlyLeader L s) {c' : AppendCall} (hc' : c' ∈ s'.appendCalls) :
    c'.src = L ∧ Stored M s' c'.req.leaderCommit ∧
      ∃ l, l <+: s'.log L ∧ c'.req.entries = l.drop c'.req.prevLogIndex := by
  have hgrow := fun i => (h.grows hr hsnap hs honly' i).1
  obtain ⟨k, hk⟩ := List.mem_iff_getElem?.mp hc'
  rcases (step_appendCall hs hk).origin with ⟨c, hc, hsrc, _, hreq⟩ | hsent
  · obtain ⟨h1, h2, l, hl, hentries⟩ := h.request c hc
    rw [hsrc, hreq]
    exact ⟨h1, h2.mono (le_refl _) hgrow, l, hl.trans (hgrow L), hentries⟩
  · obtain ⟨_, hcommit, _, hentries⟩ := hr.sent hsent (h.shape.holds_log c'.src)
    obtain ⟨_, _, _, hrole, _⟩ := hsent
    have hsrc := honly c'.src hrole
    rw [hsrc] at hcommit hentries
    refine ⟨hsrc, ?_, _, hgrow L, hentries⟩
    rw [hcommit]
    exact (h.commit L).2.mono (le_refl _) hgrow

/-- The answers in flight. -/
theorem Stable.step_answer {c' : AppendCall} (hc' : c' ∈ s'.appendCalls)
    {resp : AppendEntriesResponse} (hrep : c'.reply = .answered resp) :
    (resp.success = true → resp.matchIndex ≤ (s'.log c'.dst).length) ∧
      resp.conflictIndex ≤ (s'.log L).length + 1 := by
  have hgrow := fun i => (h.grows hr hsnap hs honly' i).1
  have hlead := (hgrow L).length_le
  obtain ⟨k, hk⟩ := List.mem_iff_getElem?.mp hc'
  cases step_appendCall hs hk with
  | @old c hk hf =>
    rcases hf.reply with hsame | hlost
    · obtain ⟨h1, h2⟩ := h.answer c (List.mem_of_getElem? hk) resp (by rw [← hsame]; exact hrep)
      rw [hf.dst]
      exact ⟨fun hsucc => (h1 hsucc).trans (hgrow c.dst).length_le, by omega⟩
    · rw [hlost] at hrep
      exact absurd hrep (by simp)
  | new _ hp =>
    rw [hp] at hrep
    exact absurd hrep (by simp)
  | @answered c resp' hj _ ha hc =>
    obtain ⟨disk, rfl, rfl⟩ := ha
    subst hc
    obtain rfl := Reply.answered.inj hrep
    have hnode := node_of_handleAppend hs hj
    constructor
    · intro hsucc
      obtain ⟨_, _, _, _, _, _, _, hmatch⟩ := RaftNode.handleAppendEntries_success hsucc
      have hshape := h.shape.step hr hsnap h.noGap hs
      rw [hmatch, ← hnode, (hshape.holds_log c.dst).lastIndex]
    · have hhint := conflictIndex_le disk (s.node c.dst) c.req
      rw [(h.shape.holds_log c.dst).lastIndex] at hhint
      have := (h.le c.dst).length_le
      exact hhint.trans (by omega)

/-- The bookkeeping of `L`. -/
theorem Stable.step_books (hl' : (s'.node L).state = .leader) :
    ∃ ls, (s'.node L).leader = some ls ∧ Books M L s' ls := by
  have hgrow := fun i => (h.grows hr hsnap hs honly' i).1
  cases step_leader hs L with
  | gone _ hstate =>
    rw [hstate] at hl'
    exact absurd hl' (by simp)
  | same heq hled =>
    obtain ⟨ls, hls, hbooks⟩ := h.books (hled hl')
    exact ⟨ls, heq.trans hls, hbooks.mono hgrow⟩
  | fresh heq =>
    rw [(hr.identity L).2, (h.shape.holds_log L).lastIndex] at heq
    exact ⟨_, heq, books_newLeaderState (hgrow L).length_le⟩
  | @acked k c resp ls _ hk hrep hsrc hrole _ hls hsucc heq =>
    have hacked := h.books_acknowledge hr hk hrep hsrc hrole hls hsucc
    exact ⟨_, heq, hacked.mono hgrow⟩
  | @backedUp c resp ls hc hrep _ hrole hls heq =>
    obtain ⟨ls', hls', hbooks⟩ := h.books hrole
    obtain rfl := Option.some.inj (hls.symm.trans hls')
    exact ⟨_, heq, (hbooks.backUp (h.answer c hc resp hrep).2).mono hgrow⟩
  | snapshotAcked hc _ _ =>
    rw [h.shape.unsent] at hc
    exact absurd hc List.not_mem_nil

/-- What the nodes have committed. -/
theorem Stable.step_commit (honly : OnlyLeader L s) (i : NodeID) :
    (s'.node i).commitIndex ≤ (s'.log i).length ∧ Stored M s' (s'.node i).commitIndex := by
  have hgrow := fun i => (h.grows hr hsnap hs honly' i).1
  obtain ⟨hle, hstored⟩ := h.commit i
  have hlen := (hgrow i).length_le
  -- nothing new is committed
  have hkeep : (s'.node i).commitIndex = (s.node i).commitIndex →
      (s'.node i).commitIndex ≤ (s'.log i).length ∧ Stored M s' (s'.node i).commitIndex := by
    intro heq
    rw [heq]
    exact ⟨hle.trans hlen, hstored.mono (le_refl _) hgrow⟩
  have hreset : (s'.node i).commitIndex = 0 →
      (s'.node i).commitIndex ≤ (s'.log i).length ∧ Stored M s' (s'.node i).commitIndex := by
    intro heq
    rw [heq]
    exact ⟨Nat.zero_le _, .zero⟩
  cases h.shape.logMove hr hsnap h.noGap hs i with
  | grew _ _ _ _ _ _ hcommit _ => exact hkeep hcommit
  | same _ _ hcommit =>
    cases hcommit with
    | same heq => exact hkeep heq
    | reset heq => exact hreset heq
    | @counted disk k c resp ls _ hk hrep hsrc hrole hls hsucc hpos _ heq =>
      obtain rfl := honly i hrole
      obtain ⟨_, hlast, _, hcount⟩ := LeaderState.commitCandidate_spec heq hpos
      rw [(h.shape.holds_log i).lastIndex] at hlast
      have hacked := h.books_acknowledge hr hk hrep hsrc hrole hls hsucc
      refine ⟨hlast.trans hlen, fun _ =>
        ⟨_, majority_of_count (hr.leader_mem hrole) hacked.keys hcount, fun v hv => ?_⟩⟩
      rcases Finset.mem_insert.mp hv with rfl | hv
      · exact hlast.trans hlen
      · have hv := (LeaderState.mem_holders.mp hv).2
        exact (hv.trans (hacked.matchIndex v)).trans (hgrow v).length_le
  | @spliced k c done _ hk hdst hadm _ _ hmerge hcommit =>
    subst hdst
    have hc := List.mem_of_getElem? hk
    rcases hcommit with heq | heq | ⟨hdone, _, heq⟩
    · exact hkeep heq
    · exact hreset heq
    · have hend := (h.splice hc hadm hmerge).2.2 hdone
      refine ⟨by omega, (h.request c hc).2.1.mono ?_ hgrow⟩
      rw [heq]
      exact Nat.min_le_right _ _

/-- **Every step keeps the invariant.** -/
theorem Stable.step (honly : OnlyLeader L s) : Stable M L s' where
  shape := h.shape.step hr hsnap h.noGap hs
  le i := (h.grows hr hsnap hs honly' i).2
  commit := h.step_commit hr hsnap hs honly' honly
  request _ hc := h.step_request hr hsnap hs honly' honly hc
  answer _ hc _ hrep := h.step_answer hr hsnap hs honly' hc hrep
  books := h.step_books hr hsnap hs honly'

end Step

/-! ## Whole runs -/

theorem Reaches.onlyLeader (h : Reaches E M store threshold ok past s)
    (honly : ∀ i ∈ M.ids, (s.node i).state = .leader → i = L) : OnlyLeader L s :=
  fun i hl => honly i (h.leader_mem hl) hl

/-- While one node leads, the invariant holds and the logs grow. -/
theorem Reaches.stable (hsnap : ∀ s st, ok s st → NoSnapshot s st)
    (h : Reaches E M store threshold ok past s)
    (honly : ∀ τ ∈ Lib.visited past s, ∀ i ∈ M.ids, (τ.node i).state = .leader → i = L) :
    Stable M L s ∧ ∀ τ ∈ Lib.visited past s, ∀ i, τ.log i <+: s.log i := by
  refine Reaches.invariant (P := fun past s =>
    (∀ τ ∈ Lib.visited past s, ∀ i ∈ M.ids, (τ.node i).state = .leader → i = L) →
      Stable M L s ∧ ∀ τ ∈ Lib.visited past s, ∀ i, τ.log i <+: s.log i) ?_ ?_ h honly
  · intro _
    refine ⟨.init, fun τ hτ i => ?_⟩
    rw [List.mem_singleton.mp hτ]
  · intro past s st s' hr hinv hok hs honly
    have hlater : ∀ τ, τ ∈ Lib.visited past s → τ ∈ Lib.visited ((s, st) :: past) s' :=
      fun τ hτ => Lib.mem_visited_cons.mpr (Or.inr hτ)
    obtain ⟨hstable, hgrown⟩ := hinv fun τ hτ => honly τ (hlater τ hτ)
    have hbefore := hr.onlyLeader (honly s (hlater s (Lib.self_mem_visited _ _)))
    have hnext : Reaches E M store threshold ok ((s, st) :: past) s' := .next hr hok hs
    have hafter := hnext.onlyLeader (honly s' (Lib.self_mem_visited _ _))
    refine ⟨hstable.step hr (hsnap s st hok) hs hafter hbefore, fun τ hτ i => ?_⟩
    rcases Lib.mem_visited_cons.mp hτ with rfl | hτ
    · exact List.prefix_refl _
    · exact (hgrown τ hτ i).trans (hstable.grows hr (hsnap s st hok) hs hafter i).1

/-- **Replication under a stable leader.** In every run without snapshots in which only `L` ever leads,
with any disk outcomes, crashes, failed elections and message delays and losses: every log is a prefix
of the log of `L` and has never shrunk; every node's commit index lies within its log, and what it
covers a majority holds; and while `L` leads, `matchIndex` does not exceed a peer's log and `nextIndex`
lies between `1` and the end of `L`'s. -/
theorem stable_leader (h : Reaches E M store threshold NoSnapshot past s)
    (honly : ∀ τ ∈ Lib.visited past s, ∀ i ∈ M.ids, (τ.node i).state = .leader → i = L) :
    (∀ i, (s.node i).raftLog.entries <+: (s.node L).raftLog.entries ∧
      ∀ τ ∈ Lib.visited past s, (τ.node i).raftLog.entries <+: (s.node i).raftLog.entries) ∧
    (∀ i, (s.node i).commitIndex ≤ (s.node i).raftLog.lastIndex ∧
      ∀ k, 1 ≤ k → k ≤ (s.node i).commitIndex →
        ∃ Q e, Lib.Majority M.ids Q ∧ ∀ v ∈ Q, (s.node v).raftLog.get k = some e) ∧
    ((s.node L).state = .leader → ∃ ls, (s.node L).leader = some ls ∧
      ∀ p ∈ (M.peers L).map Peer.id, ls.matchIndex.at p ≤ (s.node p).raftLog.lastIndex ∧
        1 ≤ ls.nextIndex.at p ∧ ls.nextIndex.at p ≤ (s.node L).raftLog.lastIndex + 1) := by
  obtain ⟨hstable, hgrown⟩ := h.stable (fun _ _ hok => hok) honly
  have hlast : ∀ i, (s.node i).raftLog.lastIndex = (s.log i).length := fun i =>
    (hstable.shape.holds_log i).lastIndex
  refine ⟨fun i => ⟨hstable.le i, fun τ hτ => hgrown τ hτ i⟩, fun i => ⟨?_, fun k h1 hk => ?_⟩,
    fun hl => ?_⟩
  · rw [hlast]
    exact (hstable.commit i).1
  · obtain ⟨Q, hQ, hheld⟩ := (hstable.commit i).2.mono hk (fun _ => List.prefix_refl _) h1
    obtain ⟨j, rfl⟩ : ∃ j, k = j + 1 := ⟨k - 1, by omega⟩
    have hlen := hk.trans ((hstable.commit i).1.trans (hstable.le i).length_le)
    refine ⟨Q, (s.log L)[j], hQ, fun v hv => ?_⟩
    rw [(hstable.shape.holds_log v).get_succ]
    have hlt : j < (s.log v).length := hheld v hv
    have hj : (s.log v)[j]? = some (s.log v)[j] := List.getElem?_eq_getElem hlt
    rw [hj, getElem?_eq_of_le (hstable.le v) (List.prefix_refl _) hj (List.getElem?_eq_getElem hlen)]
  · obtain ⟨ls, hls, hbooks⟩ := hstable.books hl
    refine ⟨ls, hls, fun p hp => ⟨?_, h.nextIndex_pos L hls hp, ?_⟩⟩
    · rw [hlast]
      exact hbooks.matchIndex p
    · rw [hlast]
      exact hbooks.nextIndex p hp

open Shipped (node1 node2 node3 elect)

/-- `node-1` leads and commits two entries with the help of `node-2`; `node-3` stands for election and
gets no answer. -/
def failedRival : List Action :=
  elect node1 0 1 ++
    [.propose node1 ⟨.put, [1], [1], []⟩, .replicate node1 node2, .handleAppend 0, .appendReturn 0,
      .electionTimeout node3, .voteFail 2, .voteFail 3, .finishElection node3]

/-- A run with one leader and a failed election. -/
theorem stable_leader_failedRival : ∃ past s, Shipped.Reaches NoSnapshot past s ∧
    (s.node node1).state = .leader ∧ (s.node node1).commitIndex = 2 ∧
    (s.node node3).state = .candidate ∧
    (∀ i, (s.node i).raftLog.entries <+: (s.node node1).raftLog.entries ∧
      ∀ τ ∈ Lib.visited past s, (τ.node i).raftLog.entries <+: (s.node i).raftLog.entries) ∧
    (∀ i, (s.node i).commitIndex ≤ (s.node i).raftLog.lastIndex ∧
      ∀ k, 1 ≤ k → k ≤ (s.node i).commitIndex → ∃ Q e,
        Lib.Majority Shipped.membership.ids Q ∧ ∀ v ∈ Q, (s.node v).raftLog.get k = some e) := by
  have hrun := (Shipped.reaches_play NoSnapshot failedRival).mono fun _ _ h => h.1
  obtain ⟨hlogs, hcommit, _⟩ := stable_leader (L := node1) hrun (by decide +kernel)
  exact ⟨_, _, hrun, by decide +kernel, by decide +kernel, by decide +kernel, hlogs, hcommit⟩

end Cluster

end Raftrix
