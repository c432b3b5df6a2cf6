import Raftrix.Cluster.Exec

/-!
# Identity, ballots and roles

What every step does to the part of a node that elections are about.

* A node's id and peers never change (`Reaches.identity`), and calls run between a node and one of
  its peers (`Reaches.voteCall_ends`, `Reaches.appendCall_ends`).
* The ballot of a node is its term and its vote. `BallotLe` is the order a node moves in: the term
  rises, or the vote of the current term is cast. **`step_ballot`**: as long as `SaveMeta` succeeds,
  every step moves every node upwards, a crash at any point included, because the file is then
  either at the old ballot or at a later one.
* `step_role`: within a term a node is made candidate once, by its election timeout, leader by the
  end of that election, and a follower stays follower.
-/

namespace Raftrix

variable {σ : Type}

/-! ## What the log operations leave alone -/

namespace RaftLog

variable {rl rl' : RaftLog} {ok : Bool}

theorem loadMeta_saveMeta (term : Nat) (vote : NodeID) :
    (rl.saveMeta ok term vote).loadMeta =
      if ok then (term, Lib.Utf8.coerceUtf8 vote) else rl.loadMeta := by
  cases ok <;> rfl

@[simp] theorem loadMeta_newRaftLog : rl.newRaftLog.loadMeta = rl.loadMeta := by
  unfold newRaftLog
  split <;> rfl

theorem loadMeta_append {e : LogEntry} (h : rl.append ok e = some rl') :
    rl'.loadMeta = rl.loadMeta := by
  unfold append at h
  split at h
  · cases h
    rfl
  · cases h

theorem loadMeta_truncateFrom {i : Nat} (h : rl.truncateFrom ok i = some rl') :
    rl'.loadMeta = rl.loadMeta := by
  unfold truncateFrom at h
  split at h
  · cases h
    rfl
  · cases h

theorem loadMeta_compact {i t : Nat} (h : rl.compact ok i t = some rl') :
    rl'.loadMeta = rl.loadMeta := by
  unfold compact at h
  split at h
  · cases h
    rfl
  · cases h

theorem loadMeta_appendEntries (disk : Disk) (prev : Nat) : ∀ (i : Nat) (rl : RaftLog)
    (qs : List LogEntry), (rl.appendEntries disk prev i qs).log.loadMeta = rl.loadMeta
  | _, _, [] => rfl
  | i, rl, q :: qs => by
    simp only [appendEntries]
    split
    · rfl
    · rename_i rl₁ htr
      have h₁ : rl₁.loadMeta = rl.loadMeta := by
        split at htr
        · exact loadMeta_truncateFrom htr
        · cases htr
          rfl
      split
      · split
        · exact h₁
        · rename_i rl₂ hap
          exact (loadMeta_appendEntries disk prev _ rl₂ qs).trans ((loadMeta_append hap).trans h₁)
      · exact (loadMeta_appendEntries disk prev _ rl₁ qs).trans h₁

end RaftLog

namespace RaftNode

variable (E : Engine σ) (disk : Disk)

/-- `applyCommitted` writes `lastApplied`, the store, the waiters and the goroutines only. -/
structure OnlyApplies (n n' : RaftNode σ) : Prop where
  id : n'.id = n.id
  peers : n'.peers = n.peers
  raftLog : n'.raftLog = n.raftLog
  currentTerm : n'.currentTerm = n.currentTerm
  votedFor : n'.votedFor = n.votedFor
  state : n'.state = n.state
  commitIndex : n'.commitIndex = n.commitIndex
  leader : n'.leader = n.leader

theorem OnlyApplies.refl (n : RaftNode σ) : OnlyApplies n n := ⟨rfl, rfl, rfl, rfl, rfl, rfl, rfl, rfl⟩

theorem OnlyApplies.trans {n n' n'' : RaftNode σ} (h : OnlyApplies n n') (h' : OnlyApplies n' n'') :
    OnlyApplies n n'' where
  id := h'.id.trans h.id
  peers := h'.peers.trans h.peers
  raftLog := h'.raftLog.trans h.raftLog
  currentTerm := h'.currentTerm.trans h.currentTerm
  votedFor := h'.votedFor.trans h.votedFor
  state := h'.state.trans h.state
  commitIndex := h'.commitIndex.trans h.commitIndex
  leader := h'.leader.trans h.leader

theorem onlyApplies_applyEntry (ok : Bool) (n : RaftNode σ) (e : LogEntry) :
    OnlyApplies n (n.applyEntry E ok e).1 := by
  unfold applyEntry
  dsimp only
  cases n.pending.lookup n.lastApplied <;> dsimp only <;> split <;>
    exact ⟨rfl, rfl, rfl, rfl, rfl, rfl, rfl, rfl⟩

theorem lastApplied_applyEntry (ok : Bool) (n : RaftNode σ) (e : LogEntry) :
    (n.applyEntry E ok e).1.lastApplied = n.lastApplied := by
  unfold applyEntry
  dsimp only
  cases n.pending.lookup n.lastApplied <;> dsimp only <;> split <;> rfl

/-- A missing entry ends the loop, one index later. -/
theorem applyFrom_missing {n : RaftNode σ} (h : n.raftLog.get (n.lastApplied + 1) = none)
    (k fuel : Nat) :
    n.applyFrom E disk k (fuel + 1) = ({ n with lastApplied := n.lastApplied + 1 }, []) := by
  simp only [applyFrom, h]

/-- One round of the loop. -/
theorem applyFrom_entry {n : RaftNode σ} {e : LogEntry}
    (h : n.raftLog.get (n.lastApplied + 1) = some e) (k fuel : Nat) :
    n.applyFrom E disk k (fuel + 1) =
      let r := applyEntry E (disk k) { n with lastApplied := n.lastApplied + 1 } e
      ((r.1.applyFrom E disk (k + 1) fuel).1, r.2 :: (r.1.applyFrom E disk (k + 1) fuel).2) := by
  simp only [applyFrom, h]

theorem onlyApplies_applyFrom : ∀ (k fuel : Nat) (n : RaftNode σ),
    OnlyApplies n (n.applyFrom E disk k fuel).1
  | _, 0, n => .refl n
  | k, fuel + 1, n => by
    have hmove : OnlyApplies n { n with lastApplied := n.lastApplied + 1 } :=
      ⟨rfl, rfl, rfl, rfl, rfl, rfl, rfl, rfl⟩
    cases hget : n.raftLog.get (n.lastApplied + 1) with
    | none =>
      rw [applyFrom_missing E disk hget]
      exact hmove
    | some e =>
      rw [applyFrom_entry E disk hget]
      exact (hmove.trans (onlyApplies_applyEntry E _ _ _)).trans (onlyApplies_applyFrom _ fuel _)

theorem onlyApplies_applyCommitted (n : RaftNode σ) : OnlyApplies n (n.applyCommitted E disk).1 :=
  onlyApplies_applyFrom E disk _ _ _

end RaftNode

/-- Term and vote of a node. -/
def RaftNode.ballot (n : RaftNode σ) : Nat × NodeID := (n.currentTerm, n.votedFor)

namespace Cluster

variable {E : Engine σ} {M : Membership} {disk : Disk} {s s' : Cluster σ} {a : Action} {st : Step}
  {i : NodeID} {n m : RaftNode σ}

/-! ## Identity -/

theorem Joins.identity {ok : Bool} {term : Nat} (h : Joins ok n term m) :
    m.id = n.id ∧ m.peers = n.peers := by
  cases h <;> exact ⟨rfl, rfl⟩

theorem Move.identity (h : Move E M disk s a i n) :
    n.id = (s.node i).id ∧ n.peers = (s.node i).peers := by
  cases h with
  | apply =>
    exact ⟨(RaftNode.onlyApplies_applyCommitted E disk _).id,
      (RaftNode.onlyApplies_applyCommitted E disk _).peers⟩
  | grant _ _ hm _ _ => exact hm.identity
  | mismatch _ _ hm => exact hm.identity
  | splice _ _ hm _ _ => exact hm.identity
  | restore _ hm => exact hm.identity
  | install _ hm _ => exact hm.identity
  | _ => exact ⟨rfl, rfl⟩

theorem Moved.identity (h : Moved E M s st i n) :
    n.id = (s.node i).id ∧ n.peers = (s.node i).peers := by
  cases h with
  | act h => exact h.identity
  | crash => exact ⟨rfl, rfl⟩
  | crashDuring _ h => exact h.identity
  | applyRead h _ => exact h.identity

/-- A node has the id it is known by, and candidates are members. -/
structure Named (M : Membership) (s : Cluster σ) : Prop where
  id : ∀ i, (s.node i).id = i
  candidate : ∀ c ∈ s.voteCalls, c.req.candidateID ∈ M.ids

/-- So the ids that are saved come back as they are. -/
theorem Named.own (h : Named M s) (hi : i ∈ M.ids) :
    Lib.Utf8.coerceUtf8 (s.node i).id = (s.node i).id := by
  rw [h.id i]
  exact M.utf8 i hi

theorem Named.candidateID (h : Named M s) {c : VoteCall} (hc : c ∈ s.voteCalls) :
    Lib.Utf8.coerceUtf8 c.req.candidateID = c.req.candidateID :=
  M.utf8 _ (h.candidate c hc)

section Runs

variable {store : NodeID → σ} {threshold : NodeID → Int} {ok : Cluster σ → Step → Prop}
  {past : List (Cluster σ × Step)}

/-- **A node keeps its id and its peers.** -/
theorem Reaches.identity (h : Reaches E M store threshold ok past s) (i : NodeID) :
    (s.node i).id = i ∧ (s.node i).peers = M.peers i := by
  refine Reaches.forall_node (P := fun i n => n.id = i ∧ n.peers = M.peers i)
    (fun i => ⟨rfl, rfl⟩) (fun past s st i n _ hinv _ hmoved => ?_) h i
  obtain ⟨hid, hpeers⟩ := hmoved.identity
  exact ⟨hid.trans (hinv i).1, hpeers.trans (hinv i).2⟩

/-- A RequestVote call goes from a node to one of its peers and names its sender. -/
theorem Reaches.voteCall_ends (h : Reaches E M store threshold ok past s)
    {c : VoteCall} (hc : c ∈ s.voteCalls) :
    c.src ∈ M.ids ∧ c.dst ∈ (M.peers c.src).map Peer.id ∧ c.req.candidateID = c.src := by
  refine Reaches.invariant (P := fun _ s => ∀ c ∈ s.voteCalls,
    c.src ∈ M.ids ∧ c.dst ∈ (M.peers c.src).map Peer.id ∧ c.req.candidateID = c.src)
    ?_ ?_ h c hc
  · exact fun c hc => absurd hc List.not_mem_nil
  · intro past s st s' hr hinv _ hs c' hc'
    obtain ⟨k, hk⟩ := List.mem_iff_getElem?.mp hc'
    rcases (step_voteCall hs hk).origin with ⟨c, hc, hsrc, hdst, hreq⟩ | hsent
    · rw [hsrc, hdst, hreq]
      exact hinv c hc
    · obtain ⟨disk, i, p, _, hi, hp, rfl⟩ := hsent
      obtain ⟨hid, hpeers⟩ := hr.identity i
      rw [hpeers] at hp
      exact ⟨hi, List.mem_map_of_mem hp, hid⟩

/-- An AppendEntries call goes from a node to one of its peers. -/
theorem Reaches.appendCall_ends (h : Reaches E M store threshold ok past s)
    {c : AppendCall} (hc : c ∈ s.appendCalls) :
    c.src ∈ M.ids ∧ c.dst ∈ (M.peers c.src).map Peer.id := by
  refine Reaches.invariant (P := fun _ s => ∀ c ∈ s.appendCalls,
    c.src ∈ M.ids ∧ c.dst ∈ (M.peers c.src).map Peer.id) ?_ ?_ h c hc
  · exact fun c hc => absurd hc List.not_mem_nil
  · intro past s st s' hr hinv _ hs c' hc'
    obtain ⟨k, hk⟩ := List.mem_iff_getElem?.mp hc'
    rcases (step_appendCall hs hk).origin with ⟨c, hc, hsrc, hdst, _⟩ | hsent
    · rw [hsrc, hdst]
      exact hinv c hc
    · obtain ⟨ls, hi, hp, _⟩ := hsent
      rw [(hr.identity _).2] at hp
      exact ⟨hi, hp⟩

theorem Reaches.named (h : Reaches E M store threshold ok past s) : Named M s where
  id i := (h.identity i).1
  candidate c hc := by
    obtain ⟨hsrc, _, hcand⟩ := h.voteCall_ends hc
    rw [hcand]
    exact hsrc

end Runs

/-! ## Ballots -/

/-- The term rises, or the vote of the term is cast. -/
def BallotLe (b b' : Nat × NodeID) : Prop := b.1 < b'.1 ∨ b.1 = b'.1 ∧ (b.2 = [] ∨ b.2 = b'.2)

theorem BallotLe.refl (b : Nat × NodeID) : BallotLe b b := Or.inr ⟨rfl, Or.inr rfl⟩

theorem BallotLe.trans {a b c : Nat × NodeID} (h : BallotLe a b) (h' : BallotLe b c) :
    BallotLe a c := by
  rcases h with h | ⟨h, hv⟩
  · rcases h' with h' | ⟨h', _⟩
    · exact Or.inl (by omega)
    · exact Or.inl (by omega)
  · rcases h' with h' | ⟨h', hv'⟩
    · exact Or.inl (by omega)
    · refine Or.inr ⟨h.trans h', ?_⟩
      rcases hv with hv | hv
      · exact Or.inl hv
      · rw [hv]
        exact hv'

theorem BallotLe.term_le {b b' : Nat × NodeID} (h : BallotLe b b') : b.1 ≤ b'.1 := by
  rcases h with h | ⟨h, _⟩ <;> omega

/-- From one struct of a node to a later one: the ballot rises, the file holds a ballot that is not
older than the first, and it is the current one if the transactions `ok` stands for succeeded. -/
structure Rises (n n' : RaftNode σ) (ok : Prop) : Prop where
  memory : BallotLe n.ballot n'.ballot
  file : BallotLe n.ballot n'.raftLog.loadMeta
  saved : ok → n'.raftLog.loadMeta = n'.ballot

/-- Nothing that concerns the ballot has changed. -/
theorem Rises.of_same {n n' : RaftNode σ} (ok : Prop) (hn : n.raftLog.loadMeta = n.ballot)
    (hterm : n'.currentTerm = n.currentTerm) (hvote : n'.votedFor = n.votedFor)
    (hfile : n'.raftLog.loadMeta = n.raftLog.loadMeta) : Rises n n' ok := by
  have hb : n'.ballot = n.ballot := by rw [RaftNode.ballot, RaftNode.ballot, hterm, hvote]
  refine ⟨?_, ?_, fun _ => ?_⟩
  · rw [hb]
    exact .refl _
  · rw [hfile, hn]
    exact .refl _
  · rw [hfile, hn, hb]

theorem Rises.congr {n m n' : RaftNode σ} {ok : Prop} (h : Rises n m ok)
    (hterm : n'.currentTerm = m.currentTerm) (hvote : n'.votedFor = m.votedFor)
    (hfile : n'.raftLog.loadMeta = m.raftLog.loadMeta) : Rises n n' ok := by
  have hb : n'.ballot = m.ballot := by rw [RaftNode.ballot, RaftNode.ballot, hterm, hvote]
  refine ⟨?_, ?_, fun hok => ?_⟩
  · rw [hb]
    exact h.memory
  · rw [hfile]
    exact h.file
  · rw [hfile, hb]
    exact h.saved hok

theorem rises_becomeFollower {ok : Bool} {term : Nat} (hn : n.raftLog.loadMeta = n.ballot)
    (ht : n.currentTerm < term) : Rises n (n.becomeFollower ok term) (ok = true) where
  memory := Or.inl ht
  file := by
    change BallotLe _ (n.raftLog.saveMeta ok term []).loadMeta
    rw [RaftLog.loadMeta_saveMeta]
    split
    · exact Or.inl ht
    · rw [hn]
      exact .refl _
  saved := by
    rintro rfl
    rfl

theorem rises_newRaftNode (ok : Prop) (hn : n.raftLog.loadMeta = n.ballot) :
    Rises n (n.newRaftNode E) ok :=
  .of_same ok hn (congrArg Prod.fst hn) (congrArg Prod.snd hn) RaftLog.loadMeta_newRaftLog

theorem Joins.rises {ok : Bool} {term : Nat} (hn : n.raftLog.loadMeta = n.ballot)
    (h : Joins ok n term m) : Rises n m (ok = true) := by
  cases h with
  | same _ => exact .of_same _ hn rfl rfl rfl
  | down ht => exact rises_becomeFollower hn ht

theorem Joins.term_eq {ok : Bool} {term : Nat} (h : Joins ok n term m) : m.currentTerm = term := by
  cases h with
  | same h => exact h
  | down _ => rfl

/-- A granted vote is in the ballot of the voter. -/
theorem ballot_of_granted {disk : Disk} {n : RaftNode σ} {req : RequestVoteRequest}
    (h : (n.handleRequestVote disk req).2.voteGranted = true) :
    (n.handleRequestVote disk req).1.ballot = (req.term, req.candidateID) := by
  unfold RaftNode.handleRequestVote at h ⊢
  split at h
  · exact absurd h (by simp)
  · rename_i hge
    rw [if_neg hge]
    have hm := (joins_of_not_lt (disk 0) hge).term_eq
    dsimp only at h ⊢
    generalize (if req.term > n.currentTerm then n.becomeFollower (disk 0) req.term else n) = m
      at hm h ⊢
    split at h
    · exact absurd h (by simp)
    · rename_i hfree
      split at h
      · exact absurd h (by simp)
      · rename_i hup
        rw [if_neg hfree, if_neg hup]
        exact Prod.ext hm rfl

/-- Casting the vote of the current term. -/
theorem Rises.grant {vote : NodeID} {ok₀ : Prop} {ok : Bool} (h : Rises n m ok₀)
    (hfree : m.votedFor = [] ∨ m.votedFor = vote) (htext : Lib.Utf8.coerceUtf8 vote = vote) :
    Rises n { m with votedFor := vote, raftLog := m.raftLog.saveMeta ok m.currentTerm vote }
      (ok = true) where
  memory := h.memory.trans (Or.inr ⟨rfl, hfree⟩)
  file := by
    change BallotLe _ (m.raftLog.saveMeta ok m.currentTerm vote).loadMeta
    rw [RaftLog.loadMeta_saveMeta, htext]
    split
    · exact h.memory.trans (Or.inr ⟨rfl, hfree⟩)
    · exact h.file
  saved := by
    rintro rfl
    change (m.raftLog.saveMeta true m.currentTerm vote).loadMeta = _
    rw [RaftLog.loadMeta_saveMeta, htext]
    rfl

theorem Rises.weaken {ok ok' : Prop} (h : Rises n m ok) (himp : ok' → ok) : Rises n m ok' :=
  ⟨h.memory, h.file, fun hok => h.saved (himp hok)⟩

/-- **A critical section raises the ballot.** -/
theorem Move.rises (hnames : Named M s) (hn : (s.node i).raftLog.loadMeta = (s.node i).ballot)
    (h : Move E M disk s a i n) : Rises (s.node i) n (∀ k < metaWrites a, disk k = true) := by
  cases h with
  | idle => exact .of_same _ hn rfl rfl rfl
  | panic => exact rises_newRaftNode _ hn
  | down ha ht => exact (rises_becomeFollower hn ht).weaken fun hok => hok 0 ha
  | timeout hi _ _ =>
    refine ⟨Or.inl (Nat.lt_succ_self _), ?_, fun hok => ?_⟩
    · change BallotLe _ ((s.node i).raftLog.saveMeta _ _ _).loadMeta
      rw [RaftLog.loadMeta_saveMeta, hnames.own hi]
      split
      · exact Or.inl (Nat.lt_succ_self _)
      · rw [hn]
        exact .refl _
    · change ((s.node i).raftLog.saveMeta (disk 0) _ _).loadMeta = _
      rw [hok 0 (Nat.succ_pos 0), RaftLog.loadMeta_saveMeta, hnames.own hi]
      rfl
  | grant hk _ hm hfree _ =>
    exact ((hm.rises hn).grant hfree (hnames.candidateID (List.mem_of_getElem? hk))).weaken
      fun hok => hok 1 (Nat.lt_succ_self 1)
  | lead _ _ _ =>
    refine .of_same _ hn rfl rfl ?_
    change (((s.node i).raftLog.append (disk 0) (s.node i).noopEntry).getD _).loadMeta = _
    cases hap : (s.node i).raftLog.append (disk 0) (s.node i).noopEntry with
    | none => rfl
    | some rl => exact RaftLog.loadMeta_append hap
  | propose _ hrl => exact .of_same _ hn rfl rfl (RaftLog.loadMeta_append hrl)
  | receive => exact .of_same _ hn rfl rfl rfl
  | cancel _ => exact .of_same _ hn rfl rfl rfl
  | mismatch _ _ hm =>
    exact .congr ((hm.rises hn).weaken fun hok => hok 0 (Nat.succ_pos 0)) rfl rfl rfl
  | splice _ _ hm _ _ =>
    exact .congr ((hm.rises hn).weaken fun hok => hok 0 (Nat.succ_pos 0)) rfl rfl
      (RaftLog.loadMeta_appendEntries _ _ _ _ _)
  | acked _ _ _ _ _ _ _ _ => exact .of_same _ hn rfl rfl rfl
  | backedUp _ _ _ _ => exact .of_same _ hn rfl rfl rfl
  | restore _ hm =>
    exact .congr ((hm.rises hn).weaken fun hok => hok 0 (Nat.succ_pos 0)) rfl rfl rfl
  | install _ hm hrl =>
    exact .congr ((hm.rises hn).weaken fun hok => hok 0 (Nat.succ_pos 0)) rfl rfl
      (RaftLog.loadMeta_compact hrl)
  | snapshotAcked _ _ => exact .of_same _ hn rfl rfl rfl
  | @apply i k gs =>
    have ho := RaftNode.onlyApplies_applyCommitted E disk { s.node i with goroutines := gs }
    exact .of_same _ hn ho.currentTerm ho.votedFor (congrArg RaftLog.loadMeta ho.raftLog)
  | read => exact .of_same _ hn rfl rfl rfl
  | compact _ hrl => exact .of_same _ hn rfl rfl (RaftLog.loadMeta_compact hrl)

/-- `SaveMeta` succeeds. -/
def MetaDurable (_ : Cluster σ) : Step → Prop
  | .act disk a => ∀ k < metaWrites a, disk k = true
  | _ => True

theorem DiskOk.metaDurable (h : DiskOk s st) : MetaDurable s st := by
  cases st with
  | act _ _ => exact fun k _ => h k
  | crash _ => trivial
  | crashDuring _ _ => trivial
  | applyRead _ _ _ _ => trivial

/-- **A step raises the ballot**, and the file keeps up with it. -/
theorem Moved.rises (hnames : Named M s) (hn : (s.node i).raftLog.loadMeta = (s.node i).ballot)
    (hok : MetaDurable s st) (h : Moved E M s st i n) :
    BallotLe (s.node i).ballot n.ballot ∧ n.raftLog.loadMeta = n.ballot := by
  cases h with
  | act h =>
    have hr := h.rises hnames hn
    exact ⟨hr.memory, hr.saved hok⟩
  | crash =>
    have hr : Rises (s.node i) ((s.node i).newRaftNode E) True := rises_newRaftNode True hn
    exact ⟨hr.memory, hr.saved trivial⟩
  | crashDuring _ h => exact ⟨(h.rises hnames hn).file, RaftLog.loadMeta_newRaftLog⟩
  | applyRead h _ =>
    have hr := h.rises hnames hn
    exact ⟨hr.memory, hr.saved fun k hk => absurd hk (Nat.not_lt_zero k)⟩

/-! ## Roles -/

/-- What a step makes of a node's role. -/
inductive RoleMove (M : Membership) (s : Cluster σ) (st : Step) (i : NodeID) (n : RaftNode σ) : Prop
  | same (hstate : n.state = (s.node i).state) (hterm : n.currentTerm = (s.node i).currentTerm)
  | follower (hstate : n.state = .follower)
      (hterm : Named M s → (s.node i).raftLog.loadMeta = (s.node i).ballot →
        (s.node i).currentTerm ≤ n.currentTerm)
  | candidate {disk : Disk} (hst : st = .act disk (.electionTimeout i))
      (hfree : s.election i = none) (hn : n = ((s.node i).startElection disk).1)
  | leader {disk : Disk} {el : RaftNode.Election} (hst : st = .act disk (.finishElection i))
      (hel : s.election i = some el) (hwon : el.won = true)
      (hold : (s.node i).state = .candidate) (hstate : n.state = .leader)
      (hterm : n.currentTerm = (s.node i).currentTerm)

/-- The role and the term are those of a node that has joined a term. -/
theorem RoleMove.of_joins {ok : Bool} {term : Nat} (hm : Joins ok (s.node i) term m)
    (hstate : n.state = m.state) (hterm : n.currentTerm = m.currentTerm) : RoleMove M s st i n := by
  cases hm with
  | same _ => exact .same hstate hterm
  | down ht => exact .follower hstate fun _ _ => by rw [hterm]; exact Nat.le_of_lt ht

/-- **The roles of a node.** -/
theorem Moved.role (h : Moved E M s st i n) : RoleMove M s st i n := by
  cases h with
  | crash => exact .follower rfl fun _ hn => Nat.le_of_eq (congrArg Prod.fst hn).symm
  | crashDuring _ h => exact .follower rfl fun hnames hn => ((h.rises hnames hn).file).term_le
  | @applyRead disk i k reads n gs gs' _ hn =>
    have ho := RaftNode.onlyApplies_applyCommitted E disk { s.node i with goroutines := gs }
    rw [← hn] at ho
    exact .same ho.state ho.currentTerm
  | @act disk _ _ _ h =>
    cases h with
    | panic => exact .follower rfl fun _ hn => Nat.le_of_eq (congrArg Prod.fst hn).symm
    | down _ ht => exact .follower rfl fun _ _ => Nat.le_of_lt ht
    | timeout _ _ hfree => exact .candidate rfl hfree rfl
    | grant _ _ hm _ _ => exact .of_joins hm rfl rfl
    | lead hel hwon hrole => exact .leader rfl hel hwon hrole rfl rfl
    | mismatch _ _ hm => exact .of_joins hm rfl rfl
    | splice _ _ hm _ _ => exact .of_joins hm rfl rfl
    | restore _ hm => exact .of_joins hm rfl rfl
    | install _ hm _ => exact .of_joins hm rfl rfl
    | @apply i k gs =>
      have ho := RaftNode.onlyApplies_applyCommitted E disk { s.node i with goroutines := gs }
      exact .same ho.state ho.currentTerm
    | _ => exact .same rfl rfl

theorem step_role (hs : s.step E M st = some s') (i : NodeID) : RoleMove M s st i (s'.node i) :=
  forall_node_of_moved (P := fun i n => RoleMove M s st i n) hs (fun _ => .same rfl rfl)
    (fun _ _ hmoved => hmoved.role) i

/-- How the candidate `n` has come about: it was candidate of the term before, or its election has
just started. -/
inductive Stands (s : Cluster σ) (st : Step) (i : NodeID) (n : RaftNode σ) : Prop
  | still (hcand : (s.node i).state = .candidate) (hterm : n.currentTerm = (s.node i).currentTerm)
  | started {disk : Disk} (hst : st = .act disk (.electionTimeout i)) (hfree : s.election i = none)
      (hn : n = ((s.node i).startElection disk).1)

theorem step_stands (hs : s.step E M st = some s')
    (hcand : (s'.node i).state = .candidate) : Stands s st i (s'.node i) := by
  cases step_role hs i with
  | same hstate hterm => exact .still (by rw [← hstate]; exact hcand) hterm
  | follower hstate _ =>
    rw [hstate] at hcand
    exact absurd hcand (by simp)
  | candidate hst hfree hn => exact .started hst hfree hn
  | leader _ _ _ _ hstate _ =>
    rw [hstate] at hcand
    exact absurd hcand (by simp)

/-- How the leader `n` has come about: it was leader of the term before, or its election has just
been won. -/
inductive Leads (s : Cluster σ) (st : Step) (i : NodeID) (n : RaftNode σ) : Prop
  | still (hlead : (s.node i).state = .leader) (hterm : n.currentTerm = (s.node i).currentTerm)
  | elected {disk : Disk} {el : RaftNode.Election} (hst : st = .act disk (.finishElection i))
      (hel : s.election i = some el) (hwon : el.won = true)
      (hold : (s.node i).state = .candidate) (hterm : n.currentTerm = (s.node i).currentTerm)

theorem step_leads (hs : s.step E M st = some s')
    (hlead : (s'.node i).state = .leader) : Leads s st i (s'.node i) := by
  cases step_role hs i with
  | same hstate hterm => exact .still (by rw [← hstate]; exact hlead) hterm
  | follower hstate _ =>
    rw [hstate] at hlead
    exact absurd hlead (by simp)
  | candidate _ _ hn =>
    rw [hn] at hlead
    exact absurd hlead (by simp [RaftNode.startElection])
  | leader hst hel hwon hold _ hterm => exact .elected hst hel hwon hold hterm

section Runs

variable {store : NodeID → σ} {threshold : NodeID → Int} {ok : Cluster σ → Step → Prop}
  {past : List (Cluster σ × Step)}

/-- The file holds the current ballot. -/
theorem Reaches.saved (hmeta : ∀ s st, ok s st → MetaDurable s st)
    (h : Reaches E M store threshold ok past s) (i : NodeID) :
    (s.node i).raftLog.loadMeta = (s.node i).ballot := by
  refine Reaches.forall_node (P := fun _ n => n.raftLog.loadMeta = n.ballot) (fun _ => rfl)
    (fun past s st i n hr hinv hok hmoved => ?_) h i
  exact (hmoved.rises hr.named (hinv i) (hmeta s st hok)).2

theorem step_ballot (hmeta : ∀ s st, ok s st → MetaDurable s st)
    (h : Reaches E M store threshold ok past s) (hok : ok s st) (hs : s.step E M st = some s')
    (i : NodeID) : BallotLe (s.node i).ballot (s'.node i).ballot :=
  forall_node_of_moved (P := fun i n => BallotLe (s.node i).ballot n.ballot) hs
    (fun _ => .refl _) (fun i _ hmoved => (hmoved.rises h.named (h.saved hmeta i) (hmeta s st hok)).1) i

/-- **Ballots rise along a run.** -/
theorem Reaches.ballot_le (hmeta : ∀ s st, ok s st → MetaDurable s st)
    (h : Reaches E M store threshold ok past s) {τ : Cluster σ} (hτ : τ ∈ Lib.visited past s)
    (i : NodeID) : BallotLe (τ.node i).ballot (s.node i).ballot :=
  Lib.Run.rel (R := fun τ s : Cluster σ => ∀ i, BallotLe (τ.node i).ballot (s.node i).ballot)
    (fun _ _ => .refl _) (fun _ _ _ h h' i => (h i).trans (h' i))
    (fun _ _ _ _ hr hok hs => step_ballot hmeta hr hok hs) h hτ i

theorem Reaches.term_le (hmeta : ∀ s st, ok s st → MetaDurable s st)
    (h : Reaches E M store threshold ok past s) {τ : Cluster σ} (hτ : τ ∈ Lib.visited past s)
    (i : NodeID) : (τ.node i).currentTerm ≤ (s.node i).currentTerm :=
  (h.ballot_le hmeta hτ i).term_le

/-- **One vote per node and term**, over the whole run. -/
theorem Reaches.vote_unique (hmeta : ∀ s st, ok s st → MetaDurable s st)
    (h : Reaches E M store threshold ok past s) {τ ω : Cluster σ} (hτ : τ ∈ Lib.visited past s)
    (hω : ω ∈ Lib.visited past s) {v x y : NodeID} {t : Nat} (hx : x ≠ []) (hy : y ≠ [])
    (hvx : (τ.node v).ballot = (t, x)) (hvy : (ω.node v).ballot = (t, y)) : x = y := by
  have horder : ∀ {x y : NodeID}, x ≠ [] → BallotLe (t, x) (t, y) → x = y := by
    rintro x y hx (hlt | ⟨_, hv | hv⟩)
    · exact absurd hlt (Nat.lt_irrefl t)
    · exact absurd hv hx
    · exact hv
  have htotal := Lib.Run.rel_total
    (R := fun τ s : Cluster σ => ∀ i, BallotLe (τ.node i).ballot (s.node i).ballot)
    (fun _ _ => .refl _) (fun _ _ _ h h' i => (h i).trans (h' i))
    (fun _ _ _ _ hr hok hs => step_ballot hmeta hr hok hs) h hτ hω
  rcases htotal with hle | hle
  · have := hle v
    rw [hvx, hvy] at this
    exact horder hx this
  · have := hle v
    rw [hvx, hvy] at this
    exact (horder hy this).symm

end Runs

/-- A peer is another member. -/
theorem mem_peers {i p : NodeID} (hi : i ∈ M.ids) (hp : p ∈ (M.peers i).map Peer.id) :
    p ∈ M.ids ∧ p ≠ i := by
  have hmem := (M.peers_perm i hi).mem_iff.mp hp
  exact ⟨List.mem_of_mem_erase hmem, fun h => by
    rw [h] at hmem
    exact (List.Nodup.not_mem_erase M.nodup) hmem⟩

theorem ne_nil_of_mem {i : NodeID} (hi : i ∈ M.ids) : i ≠ [] :=
  fun h => M.nonempty (h ▸ hi)

theorem length_peers {i : NodeID} (hi : i ∈ M.ids) : (M.peers i).length + 1 = M.ids.length := by
  have h := (M.peers_perm i hi).length_eq
  rw [List.length_map, List.length_erase_of_mem hi] at h
  have := List.length_pos_of_mem hi
  omega

end Cluster

end Raftrix
