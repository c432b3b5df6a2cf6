import Raftrix.Cluster.Shipped
import Raftrix.Cluster.Terms
import Raftrix.Lib.LogHistory

/-!
# Election safety

A `startElection` counts the votes for the term it started in, over goroutines that each take the
lock again, and decides after all of them have returned. Three facts make the count honest:

* a counted answer was given for the election's own term, because a node runs one election at a time
  and waits for all its calls (`Reaches.idle`, `Poll.waiting`);
* different goroutines ask different peers, so the counted votes come from different nodes
  (`Poll.distinct`), each of which has cast its vote of the term for the candidate (`Poll.voted`);
* a node that is still candidate at the end is in the term it started in (`Reaches.election_term`).

For a cluster of odd size `len(peers)/2 + 1` is a majority, two majorities share a voter, and a voter
has one vote per term, over crashes too (`Reaches.vote_unique`). **`election_safety`**: in a run whose
`SaveMeta` calls succeed, two nodes that are leader in the same term are the same node.

The ids have to be valid UTF-8 for that, as those of a `Membership` are. Ids that are not are one id in the
JSON text of a request, and the voter has one vote for all of them (`two_leaders_over_http`).
-/

namespace Raftrix

namespace Cluster

variable {σ : Type} {E : Engine σ} {M : Membership} {s s' : Cluster σ} {st : Step}

/-! ## How a step changes the elections and the RequestVote calls -/

/-- The running elections and the RequestVote calls after a step. -/
inductive Polled (s s' : Cluster σ) (st : Step) : Prop
  | quiet (hel : s'.election = s.election) (hcalls : s'.voteCalls = s.voteCalls)
  | timeout {disk : Disk} {i : NodeID} (hst : st = .act disk (.electionTimeout i))
      (hnode : s'.node i = ((s.node i).startElection disk).1) (hfree : s.election i = none)
      (hel : s'.election =
        (s.setElection i (some ⟨(s.node i).currentTerm + 1, 1, false⟩)).election)
      (hcalls : s'.voteCalls = s.voteCalls ++ (s.node i).peers.map fun p =>
        ⟨i, p.id, ((s.node i).startElection disk).2, .pending, true⟩)
  | vote {k : Nat} {reply : Reply RequestVoteResponse} (hel : s'.election = s.election)
      (hcalls : s'.voteCalls = s.voteCalls.setReply k reply)
  | voted {disk : Disk} {k : Nat} {c : VoteCall}
      {resp : RequestVoteResponse} {el : RaftNode.Election} (hk : s.voteCalls[k]? = some c)
      (hr : c.reply = .answered resp) (hw : c.waiting = true) (hsome : s.election c.src = some el)
      (hel : s'.election =
        (s.setElection c.src (some ((s.node c.src).voteResponse disk el resp).2)).election)
      (hcalls : s'.voteCalls = s.voteCalls.settle k)
  | voteFailed {k : Nat} (hel : s'.election = s.election)
      (hcalls : s'.voteCalls = s.voteCalls.settle k)
  | finished {i : NodeID} (hdone : ∀ c ∈ s.voteCalls, c.src = i → c.waiting = false)
      (hel : s'.election = (s.setElection i none).election) (hcalls : s'.voteCalls = s.voteCalls)
  | restart {i : NodeID} {calls : Calls RequestVoteRequest RequestVoteResponse}
      (hf : s.voteCalls.Fades calls) (hel : s'.election = (s.setElection i none).election)
      (hcalls : s'.voteCalls = calls.orphan i)

theorem lose_election (a : Action) : (s.lose a).election = s.election := by
  cases a <;> rfl

theorem step_polled (h : s.step E M st = some s') : Polled s s' st := by
  cases step_cases h with
  | crash => exact .restart (.refl _) rfl rfl
  | @crashDuring a cut i s₁ _ _ _ =>
    refine .restart (fades_lose a).1 ?_ rfl
    funext j
    change (if j = i then none else (s.lose a).election j) = _
    rw [lose_election]
    rfl
  | applyRead _ => exact .quiet rfl rfl
  | @act disk a _ hx =>
    cases hx with
    | @timeout i _ _ hfree =>
      refine .timeout rfl ?_ hfree rfl (Calls.foldl_send _ _ _ _)
      exact setNode_self s i _
    | vote _ _ => exact .vote rfl rfl
    | voted hk hr hw hel => exact .voted hk hr hw hel rfl rfl
    | voteFailed _ _ => exact .voteFailed rfl rfl
    | @finished i el _ hdone =>
      refine .finished hdone ?_ (endElection_voteCalls disk i el)
      unfold endElection
      split <;> rfl
    | sendPanic _ _ => exact .restart (.refl _) rfl rfl
    | appendPanic _ => exact .restart (.refl _) rfl rfl
    | installPanic _ => exact .restart (.refl _) rfl rfl
    | sent _ _ _ _ => exact .quiet (sendTo_election _ _ _) (sendTo_voteCalls _ _ _)
    | resumed _ => exact .quiet (runGoroutine_election _ _ _ _) (runGoroutine_voteCalls _ _ _ _)
    | _ => exact .quiet rfl rfl

/-- The RequestVote calls that node `i` waits for after a step are among those it waited for before. -/
def SameAsked (s s' : Cluster σ) (i : NodeID) : Prop :=
  ∀ (k : Nat) (c' : VoteCall), s'.voteCalls[k]? = some c' → c'.src = i → c'.waiting = true →
    ∃ c : VoteCall, s.voteCalls[k]? = some c ∧ c.src = i ∧ c.waiting = true ∧ c'.dst = c.dst ∧
      c'.req = c.req

theorem sameAsked_of_fades {i : NodeID} (h : s.voteCalls.Fades s'.voteCalls) : SameAsked s s' i := by
  intro k c' hk hsrc hw
  obtain ⟨c, hc, hf⟩ := h k c' hk
  exact ⟨c, hc, hf.src.symm.trans hsrc, hf.waiting hw, hf.dst, hf.req⟩

/-- What a step does to the election of one node. -/
inductive PolledAt (s s' : Cluster σ) (st : Step) (i : NodeID) : Prop
  | kept (hel : s'.election i = s.election i) (hcalls : SameAsked s s' i)
  | started {disk : Disk} (hst : st = .act disk (.electionTimeout i))
      (hnode : s'.node i = ((s.node i).startElection disk).1) (hfree : s.election i = none)
      (hel : s'.election i = some ⟨(s.node i).currentTerm + 1, 1, false⟩)
      (hcalls : s'.voteCalls = s.voteCalls ++ (s.node i).peers.map fun p =>
        ⟨i, p.id, ((s.node i).startElection disk).2, .pending, true⟩)
  | counted {disk : Disk} {k : Nat} {c : VoteCall} {resp : RequestVoteResponse}
      {el : RaftNode.Election} (hk : s.voteCalls[k]? = some c) (hr : c.reply = .answered resp)
      (hw : c.waiting = true) (hsrc : c.src = i) (hsome : s.election i = some el)
      (hel : s'.election i = some ((s.node i).voteResponse disk el resp).2)
      (hcalls : s'.voteCalls = s.voteCalls.settle k)
  | ended (hel : s'.election i = none) (hdone : ∀ c ∈ s'.voteCalls, c.src = i → c.waiting = false)

theorem Polled.at (h : Polled s s' st) (i : NodeID) : PolledAt s s' st i := by
  have hother : ∀ {j : NodeID} {x : Option RaftNode.Election},
      s'.election = (s.setElection j x).election → i ≠ j → s'.election i = s.election i := by
    intro j x hel hij
    rw [hel, setElection_other _ _ _ hij]
  cases h with
  | quiet hel hcalls =>
    exact .kept (by rw [hel]) (sameAsked_of_fades (by rw [hcalls]; exact .refl _))
  | @timeout disk j hst hnode hfree hel hcalls =>
    by_cases hij : i = j
    · subst hij
      exact .started hst hnode hfree (by rw [hel, setElection_self]) hcalls
    · refine .kept (hother hel hij) fun k c' hk hsrc hw => ?_
      rw [hcalls] at hk
      rcases Nat.lt_or_ge k s.voteCalls.length with hlt | hge
      · rw [List.getElem?_append_left hlt] at hk
        exact ⟨c', hk, hsrc, hw, rfl, rfl⟩
      · -- the new calls are those of `j`
        rw [List.getElem?_append_right hge, List.getElem?_map] at hk
        obtain ⟨p, _, rfl⟩ := Option.map_eq_some_iff.mp hk
        exact absurd hsrc.symm hij
  | vote hel hcalls =>
    refine .kept (by rw [hel]) fun k c' hk hsrc hw => ?_
    rw [hcalls] at hk
    obtain ⟨c, hc, ⟨_, rfl⟩ | ⟨_, rfl⟩⟩ := Calls.getElem?_modify_cases hk
    · exact ⟨c, hc, hsrc, hw, rfl, rfl⟩
    · exact ⟨_, hc, hsrc, hw, rfl, rfl⟩
  | @voted disk k c resp el hk hr hw hsome hel hcalls =>
    by_cases hij : i = c.src
    · subst hij
      exact .counted hk hr hw rfl hsome (by rw [hel, setElection_self]) hcalls
    · exact .kept (hother hel hij) (sameAsked_of_fades (by rw [hcalls]; exact Calls.fades_settle _ _))
  | voteFailed hel hcalls =>
    exact .kept (by rw [hel]) (sameAsked_of_fades (by rw [hcalls]; exact Calls.fades_settle _ _))
  | @finished j hdone hel hcalls =>
    by_cases hij : i = j
    · subst hij
      exact .ended (by rw [hel, setElection_self]) (by rw [hcalls]; exact hdone)
    · exact .kept (hother hel hij) (sameAsked_of_fades (by rw [hcalls]; exact .refl _))
  | @restart j calls hf hel hcalls =>
    by_cases hij : i = j
    · subst hij
      refine .ended (by rw [hel, setElection_self]) fun c' hc' hsrc => ?_
      rw [hcalls] at hc'
      obtain ⟨k, hk⟩ := List.mem_iff_getElem?.mp hc'
      obtain ⟨c, _, ⟨_, rfl⟩ | ⟨hne, rfl⟩⟩ := Calls.getElem?_orphan_cases hk
      · rfl
      · exact absurd hsrc hne
    · exact .kept (hother hel hij)
        (sameAsked_of_fades (by rw [hcalls]; exact hf.trans (Calls.fades_orphan _ _)))

/-- An election found after a step was running before it, for the same term, or has just been
started. -/
theorem election_origin (h : s.step E M st = some s') {i : NodeID} {el' : RaftNode.Election}
    (hel' : s'.election i = some el') :
    (∃ el, s.election i = some el ∧ el'.term = el.term) ∨
      ∃ disk, s'.node i = ((s.node i).startElection disk).1 ∧
        el'.term = (s.node i).currentTerm + 1 := by
  cases (step_polled h).at i with
  | kept hel _ => exact Or.inl ⟨el', by rw [← hel]; exact hel', rfl⟩
  | @started disk _ hnode _ hel _ =>
    rw [hel, Option.some.injEq] at hel'
    exact Or.inr ⟨disk, hnode, by rw [← hel']⟩
  | @counted disk k c resp el _ _ _ _ hsome hel _ =>
    rw [hel, Option.some.injEq] at hel'
    refine Or.inl ⟨el, hsome, ?_⟩
    rw [← hel']
    unfold RaftNode.voteResponse
    split
    · rfl
    · split <;> rfl
  | ended hel _ =>
    rw [hel] at hel'
    exact absurd hel' (by simp)

section Runs

variable {store : NodeID → σ} {threshold : NodeID → Int} {ok : Cluster σ → Step → Prop}
  {past : List (Cluster σ × Step)}

/-- **The term of an election**: a node that is still candidate is in the term its election
started in. -/
theorem Reaches.election_term (h : Reaches E M store threshold ok past s) {i : NodeID}
    {el : RaftNode.Election} (hel : s.election i = some el) :
    (s.node i).state = .candidate → el.term = (s.node i).currentTerm := by
  refine Reaches.invariant (P := fun _ s => ∀ i el, s.election i = some el →
    (s.node i).state = .candidate → el.term = (s.node i).currentTerm) ?_ ?_ h i el hel
  · exact fun i el hel => absurd hel (by simp [init])
  · intro past s st s' hr hinv hok hs i el' hel' hcand
    rcases election_origin hs hel' with ⟨el, hel, hterm⟩ | ⟨disk, hnode, hterm⟩
    · cases step_stands hs hcand with
      | still hcand hcur =>
        rw [hterm, hcur]
        exact hinv i el hel hcand
      | started _ hfree _ =>
        rw [hel] at hfree
        exact absurd hfree (by simp)
    · rw [hterm, hnode]
      rfl

/-! ## The votes behind a count -/

/-- The node has cast its vote of term `t` for `x`. -/
def Voted (past : List (Cluster σ × Step)) (s : Cluster σ) (v : NodeID) (t : Nat) (x : NodeID) :
    Prop :=
  ∃ τ ∈ Lib.visited past s, (τ.node v).ballot = (t, x)

theorem Voted.mono {v x : NodeID} {t : Nat} (h : Voted past s v t x) :
    Voted ((s, st) :: past) s' v t x := by
  obtain ⟨τ, hτ, hb⟩ := h
  exact ⟨τ, Lib.mem_visited_cons.mpr (Or.inr hτ), hb⟩

/-- A granted answer is backed by the voter's ballot. -/
theorem Reaches.granted (h : Reaches E M store threshold ok past s)
    {c : VoteCall} (hc : c ∈ s.voteCalls)
    {resp : RequestVoteResponse} (hr : c.reply = .answered resp) (hg : resp.voteGranted = true) :
    Voted past s c.dst c.req.term c.src := by
  refine Reaches.invariant (P := fun past s => ∀ c ∈ s.voteCalls, ∀ resp,
    c.reply = .answered resp → resp.voteGranted = true → Voted past s c.dst c.req.term c.src)
    ?_ ?_ h c hc resp hr hg
  · exact fun c hc => absurd hc List.not_mem_nil
  · intro past s st s' hreach hinv hok hs c' hc' resp hr hg
    obtain ⟨k, hk⟩ := List.mem_iff_getElem?.mp hc'
    cases step_voteCall hs hk with
    | @old c hk hf =>
      rw [hf.src, hf.dst, hf.req]
      rcases hf.reply with hrep | hrep
      · exact (hinv c (List.mem_of_getElem? hk) resp (by rw [← hrep]; exact hr) hg).mono
      · rw [hrep] at hr
        exact absurd hr (by simp)
    | @answered c resp' hj hp ha hc =>
      obtain ⟨disk, rfl, rfl⟩ := ha
      subst hc
      obtain rfl := Reply.answered.inj hr
      have hsrc := (hreach.voteCall_ends (List.mem_of_getElem? hj)).2.2
      have hb := ballot_of_granted hg
      rw [hsrc] at hb
      refine ⟨s', Lib.self_mem_visited _ _, ?_⟩
      cases step_cases hs with
      | act hx =>
        cases hx with
        | vote hj' _ =>
          obtain rfl := Option.some.inj (hj.symm.trans hj')
          rw [← hb]
          exact congrArg RaftNode.ballot (setNode_self s _ _)
    | new _ hp =>
      rw [hp] at hr
      exact absurd hr (by simp)

/-- No goroutine of `startElection` is left when it has returned. -/
theorem Reaches.idle (h : Reaches E M store threshold ok past s) {i : NodeID}
    (hel : s.election i = none) {c : VoteCall}
    (hc : c ∈ s.voteCalls) (hsrc : c.src = i) : c.waiting = false := by
  refine Reaches.invariant (P := fun _ s => ∀ i, s.election i = none → ∀ c ∈ s.voteCalls,
    c.src = i → c.waiting = false) ?_ ?_ h i hel c hc hsrc
  · exact fun i _ c hc => absurd hc List.not_mem_nil
  · intro past s st s' hr hinv hok hs i hel' c' hc' hsrc
    cases (step_polled hs).at i with
    | kept hel hcalls =>
      rw [hel] at hel'
      by_contra hw
      obtain ⟨k, hk⟩ := List.mem_iff_getElem?.mp hc'
      obtain ⟨c, hc, hsrc, hwaits, _⟩ := hcalls k c' hk hsrc (Bool.eq_true_of_not_eq_false hw)
      rw [hinv i hel' c (List.mem_of_getElem? hc) hsrc] at hwaits
      exact absurd hwaits (by simp)
    | started _ _ _ hel _ =>
      rw [hel] at hel'
      exact absurd hel' (by simp)
    | counted _ _ _ _ _ hel _ =>
      rw [hel] at hel'
      exact absurd hel' (by simp)
    | ended _ hdone => exact hdone c' hc' hsrc

/-- The count of a running election: the nodes `W` have voted for `i` in its term, and none of them
is asked by a goroutine that is still waiting. -/
structure Poll (M : Membership) (past : List (Cluster σ × Step)) (s : Cluster σ) (i : NodeID)
    (el : RaftNode.Election) (W : Finset NodeID) : Prop where
  sub : W ⊆ M.ids.toFinset
  self : i ∈ W
  votes : el.votes ≤ W.card
  won : el.won = true → (M.peers i).length / 2 + 1 ≤ W.card
  voted : ∀ v ∈ W, Voted past s v el.term i
  waiting : ∀ c ∈ s.voteCalls, c.src = i → c.waiting = true → c.req.term = el.term ∧ c.dst ∉ W
  distinct : ∀ (k k' : Nat) (c c' : VoteCall), s.voteCalls[k]? = some c →
    s.voteCalls[k']? = some c' → c.src = i → c'.src = i → c.waiting = true →
    c'.waiting = true → c.dst = c'.dst → k = k'

/-- A count stays right while calls only settle. -/
theorem Poll.of_calls {i : NodeID} {el : RaftNode.Election} {W : Finset NodeID}
    (h : Poll M past s i el W)
    (hcalls : SameAsked s s' i) : Poll M ((s, st) :: past) s' i el W where
  sub := h.sub
  self := h.self
  votes := h.votes
  won := h.won
  voted v hv := (h.voted v hv).mono
  waiting c' hc' hsrc hw := by
    obtain ⟨k, hk⟩ := List.mem_iff_getElem?.mp hc'
    obtain ⟨c, hk', hsrc', hw', hdst, hreq⟩ := hcalls k c' hk hsrc hw
    rw [hdst, hreq]
    exact h.waiting c (List.mem_of_getElem? hk') hsrc' hw'
  distinct k k' c c' hk hk' hsrc hsrc' hw hw' hdst := by
    obtain ⟨d, hd, hds, hdw, hdd, _⟩ := hcalls k c hk hsrc hw
    obtain ⟨d', hd', hds', hdw', hdd', _⟩ := hcalls k' c' hk' hsrc' hw'
    exact h.distinct k k' d d' hd hd' hds hds' hdw hdw' (by rw [← hdd, ← hdd', hdst])

/-- The count of an election that has just started: the candidate's own vote. -/
theorem poll_start {i : NodeID} {disk : Disk} (hi : i ∈ M.ids) (hid : (s.node i).id = i)
    (hpeers : (s.node i).peers = M.peers i)
    (hidle : ∀ c ∈ s.voteCalls, c.src = i → c.waiting = false)
    (hnode : s'.node i = ((s.node i).startElection disk).1)
    (hcalls : s'.voteCalls = s.voteCalls ++ (s.node i).peers.map fun p =>
      ⟨i, p.id, ((s.node i).startElection disk).2, .pending, true⟩) :
    Poll M ((s, st) :: past) s' i ⟨(s.node i).currentTerm + 1, 1, false⟩ {i} := by
  -- a waiting call of `i` is one of the new ones
  have hnew : ∀ (k : Nat) (c : VoteCall), s'.voteCalls[k]? = some c → c.src = i →
      c.waiting = true → s.voteCalls.length ≤ k ∧
        ((M.peers i).map Peer.id)[k - s.voteCalls.length]? = some c.dst ∧
        c.req = ((s.node i).startElection disk).2 := by
    intro k c hk hsrc hw
    rw [hcalls] at hk
    rcases Nat.lt_or_ge k s.voteCalls.length with hlt | hge
    · rw [List.getElem?_append_left hlt] at hk
      have := hidle c (List.mem_of_getElem? hk) hsrc
      rw [hw] at this
      exact absurd this (by simp)
    · rw [List.getElem?_append_right hge, List.getElem?_map] at hk
      obtain ⟨p, hp, rfl⟩ := Option.map_eq_some_iff.mp hk
      rw [hpeers] at hp
      refine ⟨hge, ?_, rfl⟩
      rw [List.getElem?_map, hp]
      rfl
  refine ⟨?_, Finset.mem_singleton_self i, ?_, fun h => absurd h (by simp), ?_, ?_, ?_⟩
  · intro v hv
    rw [Finset.mem_singleton.mp hv, List.mem_toFinset]
    exact hi
  · exact Nat.le_of_eq (Finset.card_singleton i).symm
  · intro v hv
    rw [Finset.mem_singleton.mp hv]
    refine ⟨s', Lib.self_mem_visited _ _, ?_⟩
    rw [hnode]
    exact Prod.ext rfl hid
  · intro c hc hsrc hw
    obtain ⟨k, hk⟩ := List.mem_iff_getElem?.mp hc
    obtain ⟨_, hdst, hreq⟩ := hnew k c hk hsrc hw
    refine ⟨by rw [hreq]; rfl, fun hmem => ?_⟩
    exact (mem_peers hi (List.mem_of_getElem? hdst)).2 (Finset.mem_singleton.mp hmem)
  · intro k k' c c' hk hk' hsrc hsrc' hw hw' hdst
    obtain ⟨hge, hd, _⟩ := hnew k c hk hsrc hw
    obtain ⟨hge', hd', _⟩ := hnew k' c' hk' hsrc' hw'
    have hnodup : ((M.peers i).map Peer.id).Nodup :=
      (M.peers_perm i hi).nodup_iff.mpr (M.nodup.erase i)
    have hlt := (List.getElem?_eq_some_iff.mp hd).1
    have := (List.getElem?_inj hlt hnodup).mp (hd.trans (by rw [hdst]; exact hd'.symm))
    omega

/-- The count after an answer. -/
theorem Poll.count {i : NodeID} {el : RaftNode.Election} {W : Finset NodeID} {disk : Disk}
    {k : Nat} {c : VoteCall} {resp : RequestVoteResponse} (h : Poll M past s i el W)
    (hpeers : (s.node i).peers = M.peers i) (hk : s.voteCalls[k]? = some c) (hsrc : c.src = i)
    (hw : c.waiting = true) (hdst : c.dst ∈ M.ids)
    (hvote : resp.voteGranted = true → Voted past s c.dst c.req.term i)
    (hcalls : s'.voteCalls = s.voteCalls.settle k) :
    ∃ W', Poll M ((s, st) :: past) s' i ((s.node i).voteResponse disk el resp).2 W' := by
  have hf : SameAsked s s' i := sameAsked_of_fades (by rw [hcalls]; exact Calls.fades_settle _ _)
  unfold RaftNode.voteResponse
  split
  · exact ⟨W, h.of_calls hf⟩
  · split
    · rename_i hg
      obtain ⟨hterm, hnot⟩ := h.waiting c (List.mem_of_getElem? hk) hsrc hw
      have hcard : (insert c.dst W).card = W.card + 1 := Finset.card_insert_of_notMem hnot
      have hfade : Poll M ((s, st) :: past) s' i el W := h.of_calls hf
      have hvotes := h.votes
      refine ⟨insert c.dst W, ?_, Finset.mem_insert_of_mem h.self, ?_, ?_, ?_, ?_,
        hfade.distinct⟩
      · exact Finset.insert_subset (List.mem_toFinset.mpr hdst) h.sub
      · rw [hcard]
        exact Nat.succ_le_succ hvotes
      · intro hwon
        rw [hcard]
        rcases Bool.or_eq_true_iff.mp hwon with hwon | hwon
        · have := h.won hwon
          omega
        · have := of_decide_eq_true hwon
          rw [RaftNode.quorum, hpeers] at this
          omega
      · intro v hv
        rcases Finset.mem_insert.mp hv with rfl | hv
        · have := hvote hg
          rw [hterm] at this
          exact this.mono
        · exact hfade.voted v hv
      · intro c' hc' hsrc' hw'
        obtain ⟨k', hk'⟩ := List.mem_iff_getElem?.mp hc'
        obtain ⟨hterm', hnot'⟩ := hfade.waiting c' hc' hsrc' hw'
        refine ⟨hterm', fun hmem => ?_⟩
        rcases Finset.mem_insert.mp hmem with heq | hmem
        · rw [hcalls] at hk'
          obtain ⟨d, hd, ⟨_, rfl⟩ | ⟨hne, rfl⟩⟩ := Calls.getElem?_modify_cases hk'
          · exact absurd hw' (by simp)
          · exact hne (h.distinct k' k _ c hd hk hsrc' hsrc hw' hw heq)
        · exact hnot' hmem
    · exact ⟨W, h.of_calls hf⟩

/-- **Every running election counts honestly.** -/
theorem Reaches.poll (h : Reaches E M store threshold ok past s) {i : NodeID}
    {el : RaftNode.Election} (hel : s.election i = some el) : ∃ W, Poll M past s i el W := by
  refine Reaches.invariant (P := fun past s => ∀ i el, s.election i = some el →
    ∃ W, Poll M past s i el W) ?_ ?_ h i el hel
  · exact fun i el hel => absurd hel (by simp [init])
  · intro past s st s' hr hinv hok hs i el' hel'
    cases (step_polled hs).at i with
    | kept hel hcalls =>
      obtain ⟨W, hW⟩ := hinv i el' (by rw [← hel]; exact hel')
      exact ⟨W, hW.of_calls hcalls⟩
    | @started disk hst hnode hfree hel hcalls =>
      obtain ⟨hid, hpeers⟩ := hr.identity i
      have hi : i ∈ M.ids := by
        subst hst
        cases step_cases hs with
        | act hx =>
          cases hx with
          | timeout hi _ _ => exact hi
      rw [hel, Option.some.injEq] at hel'
      subst hel'
      exact ⟨{i}, poll_start hi hid hpeers (fun c hc hsrc => hr.idle hfree hc hsrc) hnode hcalls⟩
    | @counted disk k c resp el hk hrep hw hsrc hsome hel hcalls =>
      obtain ⟨W, hW⟩ := hinv i el hsome
      rw [hel, Option.some.injEq] at hel'
      subst hel' hsrc
      have hc := List.mem_of_getElem? hk
      obtain ⟨hsrc, hdst, _⟩ := hr.voteCall_ends hc
      exact hW.count (hr.identity c.src).2 hk rfl hw (mem_peers hsrc hdst).1
        (fun hg => hr.granted hc hrep hg) hcalls
    | ended hel _ =>
      rw [hel] at hel'
      exact absurd hel' (by simp)

/-! ## Winners -/

/-- A majority has voted for `x` in term `t`. -/
def Won (M : Membership) (past : List (Cluster σ × Step)) (s : Cluster σ) (t : Nat) (x : NodeID) :
    Prop :=
  ∃ W, Lib.Majority M.ids W ∧ ∀ v ∈ W, Voted past s v t x

theorem Won.mono {t : Nat} {x : NodeID} (h : Won M past s t x) :
    Won M ((s, st) :: past) s' t x := by
  obtain ⟨W, hW, hv⟩ := h
  exact ⟨W, hW, fun v hv' => (hv v hv').mono⟩

theorem Poll.member {i : NodeID} {el : RaftNode.Election} {W : Finset NodeID}
    (h : Poll M past s i el W) : i ∈ M.ids :=
  List.mem_toFinset.mp (h.sub h.self)

/-- With an odd number of nodes `len(peers)/2 + 1` votes are a majority. -/
theorem Poll.majority (hodd : M.ids.length % 2 = 1) {i : NodeID} {el : RaftNode.Election}
    {W : Finset NodeID} (h : Poll M past s i el W) (hwon : el.won = true) :
    Lib.Majority M.ids W := by
  refine ⟨h.sub, ?_⟩
  have hcard := h.won hwon
  have hlen := length_peers h.member
  omega

/-- Only members of the cluster lead. -/
theorem Reaches.leader_mem (h : Reaches E M store threshold ok past s) {i : NodeID}
    (hl : (s.node i).state = .leader) : i ∈ M.ids := by
  refine Reaches.invariant (P := fun _ s => ∀ i, (s.node i).state = .leader → i ∈ M.ids) ?_ ?_ h i hl
  · exact fun i hl => absurd hl (by simp [init])
  · intro past s st s' hr hinv hok hs i hl
    cases step_leads hs hl with
    | still hl _ => exact hinv i hl
    | elected _ hel _ _ _ =>
      obtain ⟨W, hW⟩ := hr.poll hel
      exact hW.member

/-- **A leader has won its term.** -/
theorem Reaches.won (hodd : M.ids.length % 2 = 1) (h : Reaches E M store threshold ok past s)
    {i : NodeID} (hl : (s.node i).state = .leader) : Won M past s (s.node i).currentTerm i := by
  refine Reaches.invariant (P := fun past s => ∀ i, (s.node i).state = .leader →
    Won M past s (s.node i).currentTerm i) ?_ ?_ h i hl
  · exact fun i hl => absurd hl (by simp [init])
  · intro past s st s' hr hinv hok hs i hl
    cases step_leads hs hl with
    | still hl hterm =>
      rw [hterm]
      exact (hinv i hl).mono
    | elected _ hel hwon hold hterm =>
      obtain ⟨W, hW⟩ := hr.poll hel
      rw [hterm, ← hr.election_term hel hold]
      exact Won.mono ⟨W, hW.majority hodd hwon, hW.voted⟩

/-- At most one node wins a term. -/
theorem Reaches.won_unique (hmeta : ∀ s st, ok s st → MetaDurable s st)
    (h : Reaches E M store threshold ok past s) {t : Nat} {x y : NodeID} (hx : x ∈ M.ids)
    (hy : y ∈ M.ids) (hwx : Won M past s t x) (hwy : Won M past s t y) : x = y := by
  obtain ⟨W, hW, hvx⟩ := hwx
  obtain ⟨W', hW', hvy⟩ := hwy
  obtain ⟨v, hv, hv'⟩ := hW.meet hW'
  obtain ⟨τ, hτ, hbx⟩ := hvx v hv
  obtain ⟨ω, hω, hby⟩ := hvy v hv'
  exact h.vote_unique hmeta hτ hω (ne_nil_of_mem hx) (ne_nil_of_mem hy) hbx hby

theorem Voted.of_visited {earlier : List (Cluster σ × Step)} {τ : Cluster σ} {v x : NodeID}
    {t : Nat} (hsub : ∀ ω ∈ Lib.visited earlier τ, ω ∈ Lib.visited past s)
    (h : Voted earlier τ v t x) : Voted past s v t x := by
  obtain ⟨ω, hω, hb⟩ := h
  exact ⟨ω, hsub ω hω, hb⟩

/-- Leaders of one term are one node, over all states of a run. -/
theorem Reaches.leader_unique (hodd : M.ids.length % 2 = 1)
    (hmeta : ∀ s st, ok s st → MetaDurable s st) (h : Reaches E M store threshold ok past s)
    {τ ω : Cluster σ} (hτ : τ ∈ Lib.visited past s) (hω : ω ∈ Lib.visited past s) {x y : NodeID}
    (hx : (τ.node x).state = .leader) (hy : (ω.node y).state = .leader)
    (hterm : (τ.node x).currentTerm = (ω.node y).currentTerm) : x = y := by
  have hwon : ∀ {τ : Cluster σ} {x : NodeID}, τ ∈ Lib.visited past s →
      (τ.node x).state = .leader → x ∈ M.ids ∧ Won M past s (τ.node x).currentTerm x := by
    intro τ x hτ hx
    obtain ⟨earlier, he, hsub⟩ := h.of_visited hτ
    obtain ⟨W, hW, hv⟩ := Reaches.won hodd he hx
    exact ⟨Reaches.leader_mem he hx, W, hW, fun v hv' => (hv v hv').of_visited hsub⟩
  obtain ⟨hxm, hwx⟩ := hwon hτ hx
  obtain ⟨hym, hwy⟩ := hwon hω hy
  rw [← hterm] at hwy
  exact h.won_unique hmeta hxm hym hwx hwy

/-- **Election safety.** In every run of a cluster of odd size whose `SaveMeta` calls succeed, with any
other disk outcomes, message delays, losses and crashes, at most one node is ever leader in a term. -/
theorem election_safety (hodd : M.ids.length % 2 = 1)
    (h : Reaches E M store threshold MetaDurable past s) {τ ω : Cluster σ}
    (hτ : τ ∈ Lib.visited past s) (hω : ω ∈ Lib.visited past s) {x y : NodeID}
    (hx : (τ.node x).state = .leader) (hy : (ω.node y).state = .leader)
    (hterm : (τ.node x).currentTerm = (ω.node y).currentTerm) : x = y :=
  h.leader_unique hodd (fun _ _ h => h) hτ hω hx hy hterm

open Shipped (node1 node2 nodeFF nodeFE)

/-- `node-1` and `node-2` stand in term 1, and `node-3` is asked by both; the other calls are lost. -/
def bothStand : List Action :=
  [.electionTimeout node1, .electionTimeout node2, .handleVote 1, .voteReturn 1, .handleVote 3,
    .voteReturn 3, .voteFail 0, .voteFail 2, .finishElection node1, .finishElection node2]

/-- `node-1` wins the term, and nobody else has led it in any state of the run. -/
theorem election_safety_bothStand : ∃ past s, Shipped.Reaches MetaDurable past s ∧
    (s.node node1).state = .leader ∧ (s.node node1).currentTerm = 1 ∧
    (s.node node2).state = .candidate ∧ (s.node node2).currentTerm = 1 ∧
    ∀ τ ∈ Lib.visited past s, ∀ x, (τ.node x).state = .leader → (τ.node x).currentTerm = 1 →
      x = node1 := by
  have hrun : Shipped.Reaches MetaDurable (Shipped.play (fun _ _ => True) bothStand).1
      (Shipped.play (fun _ _ => True) bothStand).2 :=
    (Shipped.reaches_play (fun _ _ => True) bothStand).mono fun _ _ h => h.2.metaDurable
  have hlead : ((Shipped.play (fun _ _ => True) bothStand).2.node node1).state = .leader := by
    decide +kernel
  have hterm : ((Shipped.play (fun _ _ => True) bothStand).2.node node1).currentTerm = 1 := by
    decide +kernel
  refine ⟨_, _, hrun, hlead, hterm, by decide +kernel, by decide +kernel, fun τ hτ x hx ht => ?_⟩
  exact election_safety rfl hrun hτ (Lib.self_mem_visited _ _) hx hlead (ht.trans hterm.symm)

/-- The same with the ids `ff` and `fe`, over HTTP. -/
def binaryStand : List Action :=
  [.electionTimeout nodeFF, .electionTimeout nodeFE, .handleVote 1, .voteReturn 1, .handleVote 3,
    .voteReturn 3, .voteFail 0, .voteFail 2, .finishElection nodeFF, .finishElection nodeFE]

/-- **Two leaders of one term.** The voter gets two requests from U+FFFD and grants both. -/
theorem two_leaders_over_http : ∃ past s, Shipped.BinaryReaches past s ∧ nodeFF ≠ nodeFE ∧
    (s.node nodeFF).state = .leader ∧ (s.node nodeFE).state = .leader ∧
    (s.node nodeFF).currentTerm = 1 ∧ (s.node nodeFE).currentTerm = 1 :=
  ⟨_, _, Shipped.reaches_binaryPlay binaryStand, by decide, by decide +kernel, by decide +kernel,
    by decide +kernel, by decide +kernel⟩

end Runs

end Cluster

end Raftrix
