import Raftrix.Cluster.ElectionSafety
import Raftrix.Cluster.LogChange

/-!
# The leader of a term

What the one leader of a term does with its log, and what the other nodes know of it. `LedTerm` says that
a node has led a term; requests come from nodes that have (`Reaches.appendCall_led`,
`Reaches.snapshotCall_led`), so no request of its own term reaches a leader.

* **`leader_append_only`**: as long as it takes no snapshot, a leader keeps every entry of its log, in
  runs with holes in the logs and with failing writes too, and over every interleaving with its calls.
* **`leader_hint`**: the `leaderID` of a node, which `Propose` returns in `NotLeaderError` and the status
  endpoint reports, is empty or names a member that has led a term up to the node's own; a leader names
  itself.
-/

namespace Raftrix

namespace Cluster

variable {σ : Type} {E : Engine σ} {M : Membership} {disk : Disk} {s s' : Cluster σ} {a : Action}
  {st : Step} {i : NodeID} {n m : RaftNode σ} {store : NodeID → σ} {threshold : NodeID → Int}
  {ok : Cluster σ → Step → Prop} {past : List (Cluster σ × Step)}

/-- The node has led the term. -/
def LedTerm (past : List (Cluster σ × Step)) (s : Cluster σ) (x : NodeID) (t : Nat) : Prop :=
  ∃ τ ∈ Lib.visited past s, (τ.node x).state = .leader ∧ (τ.node x).currentTerm = t

theorem LedTerm.mono {x : NodeID} {t : Nat} (h : LedTerm past s x t) :
    LedTerm ((s, st) :: past) s' x t := by
  obtain ⟨τ, hτ, hlead⟩ := h
  exact ⟨τ, Lib.mem_visited_cons.mpr (Or.inr hτ), hlead⟩

/-- A leader has led its term. -/
theorem ledTerm_self (hl : (s.node i).state = .leader) : LedTerm past s i (s.node i).currentTerm :=
  ⟨s, Lib.self_mem_visited _ _, hl, rfl⟩

/-- Only members have led. -/
theorem Reaches.ledTerm_mem (h : Reaches E M store threshold ok past s) {x : NodeID} {t : Nat}
    (hled : LedTerm past s x t) : x ∈ M.ids := by
  obtain ⟨τ, hτ, hlead, _⟩ := hled
  obtain ⟨_, he, _⟩ := h.of_visited hτ
  exact Reaches.leader_mem he hlead

/-! ## The senders of requests -/

/-- Who sends an AppendEntries request has led its term. -/
theorem Reaches.appendCall_led (h : Reaches E M store threshold ok past s) {c : AppendCall}
    (hc : c ∈ s.appendCalls) : LedTerm past s c.src c.req.term ∧ c.req.leaderID = c.src := by
  refine Reaches.invariant (P := fun past s => ∀ c ∈ s.appendCalls,
    LedTerm past s c.src c.req.term ∧ c.req.leaderID = c.src) ?_ ?_ h c hc
  · exact fun c hc => absurd hc List.not_mem_nil
  · intro past s st s' hr hinv _ hs c' hc'
    obtain ⟨k, hk⟩ := List.mem_iff_getElem?.mp hc'
    rcases (step_appendCall hs hk).origin with ⟨c, hc, hsrc, _, hreq⟩ | ⟨ls, _, _, hlead, _, hreq⟩
    · rw [hsrc, hreq]
      exact ⟨(hinv c hc).1.mono, (hinv c hc).2⟩
    · unfold RaftNode.peerRequest at hreq
      dsimp only at hreq
      split at hreq
      · exact absurd hreq (by simp)
      · rw [← RaftNode.PeerRequest.appendEntries.inj hreq]
        exact ⟨(ledTerm_self hlead).mono, (hr.identity c'.src).1⟩

/-- Who sends an InstallSnapshot request has led its term, and sends it to another member. -/
theorem Reaches.snapshotCall_led (h : Reaches E M store threshold ok past s) {c : SnapshotCall}
    (hc : c ∈ s.snapshotCalls) :
    LedTerm past s c.src c.req.term ∧ c.req.leaderID = c.src ∧ c.dst ∈ M.ids ∧ c.dst ≠ c.src := by
  refine Reaches.invariant (P := fun past s => ∀ c ∈ s.snapshotCalls,
    LedTerm past s c.src c.req.term ∧ c.req.leaderID = c.src ∧ c.dst ∈ M.ids ∧ c.dst ≠ c.src) ?_ ?_ h c hc
  · exact fun c hc => absurd hc List.not_mem_nil
  · intro past s st s' hr hinv _ hs c' hc'
    obtain ⟨k, hk⟩ := List.mem_iff_getElem?.mp hc'
    rcases (step_snapshotCall hs hk).origin with
      ⟨c, hc, hsrc, hdst, hreq⟩ | ⟨_, ls, _, hpeer, hlead, _, hreq⟩
    · rw [hsrc, hdst, hreq]
      exact ⟨(hinv c hc).1.mono, (hinv c hc).2⟩
    · rw [(RaftNode.of_peerRequest_installSnapshot hreq).2]
      rw [(hr.identity c'.src).2] at hpeer
      exact ⟨(ledTerm_self hlead).mono, (hr.identity c'.src).1,
        mem_peers (hr.leader_mem hlead) hpeer⟩

/-- **No request of its own term reaches a leader**: its sender would be another leader of the term. -/
theorem Reaches.no_rival (hodd : M.ids.length % 2 = 1)
    (hmeta : ∀ s st, ok s st → MetaDurable s st) (h : Reaches E M store threshold ok past s)
    (hl : (s.node i).state = .leader) {x : NodeID} (hx : x ≠ i) :
    ¬ LedTerm past s x (s.node i).currentTerm := by
  rintro ⟨τ, hτ, hlead, hterm⟩
  exact hx (h.leader_unique hodd hmeta hτ (Lib.self_mem_visited _ _) hlead hl hterm)

/-! ## From one state of a leadership to another -/

/-- Who has led a term is past it, or not a candidate in it. -/
theorem Reaches.led_not_candidate (hmeta : ∀ s st, ok s st → MetaDurable s st)
    (h : Reaches E M store threshold ok past s) {t : Nat} (hled : LedTerm past s i t) :
    t < (s.node i).currentTerm ∨ t = (s.node i).currentTerm ∧ (s.node i).state ≠ .candidate := by
  refine Reaches.invariant (P := fun past s => ∀ i t, LedTerm past s i t → t < (s.node i).currentTerm ∨
    t = (s.node i).currentTerm ∧ (s.node i).state ≠ .candidate) ?_ ?_ h i t hled
  · rintro i t ⟨τ, hτ, hlead, _⟩
    rw [List.mem_singleton.mp hτ] at hlead
    exact absurd hlead (by simp [init])
  · rintro past s st s' hr hinv hok hs i t ⟨τ, hτ, hlead, rfl⟩
    rcases Lib.mem_visited_cons.mp hτ with rfl | hτ
    · exact Or.inr ⟨rfl, by rw [hlead]; simp⟩
    · have hold := hinv i _ ⟨τ, hτ, hlead, rfl⟩
      cases step_role hs i with
      | same hstate hterm =>
        rw [hstate, hterm]
        exact hold
      | follower hstate hterm =>
        have hle := hterm hr.named (hr.saved hmeta i)
        rcases Nat.eq_or_lt_of_le hle with heq | hlt
        · rw [← heq, hstate]
          exact hold.imp id fun h => ⟨h.1, by simp⟩
        · exact Or.inl (by omega)
      | candidate _ _ hn =>
        rw [hn]
        refine Or.inl (Nat.lt_succ_of_le ?_)
        rcases hold with hlt | ⟨heq, _⟩
        · exact Nat.le_of_lt hlt
        · exact Nat.le_of_eq heq
      | leader _ _ _ _ hstate hterm =>
        rw [hterm, hstate]
        exact hold.imp id fun h => ⟨h.1, by simp⟩

/-- **Between two states in which a node leads one term it has led throughout.** -/
theorem Reaches.leads_since (hmeta : ∀ s st, ok s st → MetaDurable s st)
    (h : Reaches E M store threshold ok past s) {τ : Cluster σ} (hτ : τ ∈ Lib.visited past s)
    (hlead : (τ.node i).state = .leader) (hl : (s.node i).state = .leader)
    (hterm : (τ.node i).currentTerm = (s.node i).currentTerm) :
    Lib.Since (fun s : Cluster σ => (s.node i).state = .leader) past s τ := by
  refine Reaches.invariant (P := fun past s => τ ∈ Lib.visited past s → (s.node i).state = .leader →
    (τ.node i).currentTerm = (s.node i).currentTerm →
    Lib.Since (fun s : Cluster σ => (s.node i).state = .leader) past s τ) ?_ ?_ h hτ hl hterm
  · intro hτ hl _
    rw [List.mem_singleton.mp hτ]
    exact .now hl
  · intro past s st s' hr hinv hok hs hτ hl hterm
    rcases Lib.mem_visited_cons.mp hτ with rfl | hτ
    · exact .now hl
    · cases step_leads hs hl with
      | still hold hsame => exact .next (hinv hτ hold (hterm.trans hsame)) hl
      | elected _ _ _ hold hsame =>
        -- a candidate of the term has not led it before
        rcases hr.led_not_candidate hmeta ⟨τ, hτ, hlead, rfl⟩ with hlt | ⟨_, hnot⟩
        · omega
        · exact absurd hold hnot

/-! ## The log of a leader -/

/-- What the log answers stays, where it answers. -/
def KeepsEntries (n n' : RaftNode σ) : Prop :=
  ∀ k e, n.raftLog.get k = some e → n'.raftLog.get k = some e

theorem KeepsEntries.of_get_eq (h : n.raftLog.get = m.raftLog.get) : KeepsEntries m n := by
  intro k e he
  rw [h]
  exact he

/-- A handler that has accepted a request of another leader has left the role. -/
theorem Reaches.joins_rival (hodd : M.ids.length % 2 = 1)
    (hmeta : ∀ s st, ok s st → MetaDurable s st) (h : Reaches E M store threshold ok past s)
    (hl : (s.node i).state = .leader) {written : Bool} {term : Nat} {x : NodeID}
    (hm : Joins written (s.node i) term m) (hl' : m.state = .leader) (hx : x ≠ i) :
    ¬ LedTerm past s x term := by
  intro hled
  cases hm with
  | same heq =>
    rw [← heq] at hled
    exact h.no_rival hodd hmeta hl hx hled
  | down _ => exact absurd hl' (by simp)

/-- A step in which a leader goes on leading and takes no snapshot. -/
theorem Reaches.keepsEntries (hodd : M.ids.length % 2 = 1)
    (hmeta : ∀ s st, ok s st → MetaDurable s st) (h : Reaches E M store threshold ok past s)
    (hsnap : NoSnapshot s st) (hmoved : Moved E M s st i n) (hl : (s.node i).state = .leader)
    (hl' : n.state = .leader) : KeepsEntries (s.node i) n := by
  have hkept : ∀ {n : RaftNode σ}, LogChange s st i n → (∀ k, st.action? ≠ some (.handleAppend k)) →
      (∀ k, st.action? ≠ some (.handleSnapshot k)) → KeepsEntries (s.node i) n := by
    intro n hchange happend hinstall
    cases hchange with
    | same heq => exact .of_get_eq heq
    | appended hidx ha heq =>
      intro k e he
      have hle := RaftLog.le_lastIndex he
      rw [heq, RaftLog.get_append ha, if_neg (by omega)]
      exact he
    | spliced hst _ _ _ _ _ => exact absurd hst (happend _)
    | installed hst _ _ _ _ => exact absurd hst (hinstall _)
    | compacted hst hg _ => exact absurd (hsnap.not_compacts hst hg) (by simp [Goroutine.compacts])
  have hchange := hmoved.change
  cases hmoved with
  | crash => exact absurd hl' (by simp)
  | crashDuring _ _ => exact absurd hl' (by simp)
  | applyRead _ _ => exact hkept hchange (fun _ => by simp [Step.action?]) fun _ => by simp [Step.action?]
  | act hmove =>
    cases hmove with
    | idle => exact fun _ _ he => he
    | panic => exact absurd hl' (by simp)
    | down _ _ => exact absurd hl' (by simp)
    | mismatch hk _ hm => exact .of_get_eq hm.get
    | splice hk _ hm _ _ _ =>
      have hc := List.mem_of_getElem? hk
      obtain ⟨hsrc, hdst⟩ := h.appendCall_ends hc
      exact absurd (h.appendCall_led hc).1
        (h.joins_rival hodd hmeta hl hm hl' (mem_peers hsrc hdst).2.symm)
    | restore hk hm => exact .of_get_eq hm.get
    | install hk hm _ =>
      obtain ⟨hled, _, _, hdst⟩ := h.snapshotCall_led (List.mem_of_getElem? hk)
      exact absurd hled (h.joins_rival hodd hmeta hl hm hl' hdst.symm)
    | _ => exact hkept hchange (fun _ => by simp [Step.action?]) fun _ => by simp [Step.action?]

/-- **A leader only appends.** In every run of an odd number of members with valid UTF-8 ids whose
`SaveMeta` calls succeed and in which no snapshot is taken, with any other disk outcomes, message delays, losses and crashes: what the log of a leader holds
at an index, it holds there in every later state in which the node leads the same term. -/
theorem leader_append_only (hodd : M.ids.length % 2 = 1)
    (h : Reaches E M store threshold (fun s st => MetaDurable s st ∧ NoSnapshot s st) past s)
    {τ : Cluster σ} (hτ : τ ∈ Lib.visited past s) (hlead : (τ.node i).state = .leader)
    (hl : (s.node i).state = .leader) (hterm : (τ.node i).currentTerm = (s.node i).currentTerm)
    {k : Nat} {e : LogEntry} (hk : (τ.node i).raftLog.get k = some e) :
    (s.node i).raftLog.get k = some e := by
  have hmeta : ∀ (s : Cluster σ) st, MetaDurable s st ∧ NoSnapshot s st → MetaDurable s st :=
    fun _ _ h => h.1
  refine Lib.Run.rel_since (R := fun τ s : Cluster σ => KeepsEntries (τ.node i) (s.node i))
    (fun _ _ _ he => he) (fun _ _ _ h h' k e he => h' k e (h k e he)) ?_ h
    (h.leads_since hmeta hτ hlead hl hterm) k e hk
  intro past s st s' hr hok hs hbefore hafter
  exact forall_node_of_moved (P := fun i n => (s.node i).state = .leader → n.state = .leader →
    KeepsEntries (s.node i) n) hs (fun _ _ _ _ _ he => he)
    (fun _ _ hmoved hb ha => Reaches.keepsEntries hodd hmeta hr hok.2 hmoved hb ha) i hbefore hafter

open Shipped (node1 node2 elect termOne)

/-- Right after its election the log of `node-1` ends with its no-op; a command follows, and the no-op
stays. -/
theorem leader_append_only_termOne : ∃ past s,
    Shipped.Reaches (fun s st => MetaDurable s st ∧ NoSnapshot s st) past s ∧
    ∃ τ ∈ Lib.visited past s, (τ.node node1).raftLog.lastIndex = 1 ∧
      (s.node node1).raftLog.lastIndex = 2 ∧ (τ.node node1).raftLog.get 1 = some ⟨1, 1, .noop⟩ ∧
      (s.node node1).raftLog.get 1 = some ⟨1, 1, .noop⟩ := by
  have hrun : Shipped.Reaches (fun s st => MetaDurable s st ∧ NoSnapshot s st)
      (Shipped.play NoSnapshot termOne).1 (Shipped.play NoSnapshot termOne).2 :=
    (Shipped.reaches_play NoSnapshot termOne).mono fun _ _ h => ⟨h.2.metaDurable, h.1⟩
  obtain ⟨τ, hτ, h1, hl, ht, hget⟩ : ∃ τ ∈ (Shipped.play NoSnapshot termOne).1.map Prod.fst,
      (τ.node node1).raftLog.lastIndex = 1 ∧ (τ.node node1).state = .leader ∧
      (τ.node node1).currentTerm =
        ((Shipped.play NoSnapshot termOne).2.node node1).currentTerm ∧
      (τ.node node1).raftLog.get 1 = some ⟨1, 1, .noop⟩ := by
    decide +kernel
  exact ⟨_, _, hrun, τ, List.mem_cons_of_mem _ hτ, h1, by decide +kernel, hget,
    leader_append_only rfl hrun (List.mem_cons_of_mem _ hτ) hl (by decide +kernel) ht hget⟩

/-! ## What the others know -/

/-- The leader a node knows of has led a term up to the node's own. -/
def HintOk (past : List (Cluster σ × Step)) (s : Cluster σ) (n : RaftNode σ) : Prop :=
  n.leaderID = [] ∨ ∃ t ≤ n.currentTerm, LedTerm past s n.leaderID t

theorem HintOk.of_term_le (h : HintOk past s (s.node i)) (hid : n.leaderID = (s.node i).leaderID)
    (hterm : (s.node i).currentTerm ≤ n.currentTerm) : HintOk ((s, st) :: past) s' n := by
  rcases h with h | ⟨t, ht, hled⟩
  · exact Or.inl (hid.trans h)
  · exact Or.inr ⟨t, ht.trans hterm, by rw [hid]; exact hled.mono⟩

theorem HintOk.of_leader {term : Nat} {x : NodeID} (hled : LedTerm past s x term)
    (hid : n.leaderID = x) (hterm : n.currentTerm = term) : HintOk ((s, st) :: past) s' n :=
  Or.inr ⟨term, by rw [hterm], by rw [hid]; exact hled.mono⟩

theorem hintOk_newRaftNode (n : RaftNode σ) : HintOk past s (n.newRaftNode E) := Or.inl rfl

theorem leaderID_applyCommitted (E : Engine σ) (disk : Disk) (n : RaftNode σ) :
    (n.applyCommitted E disk).1.leaderID = n.leaderID := by
  refine applyCommitted_rounds E disk (P := fun m _ => m.leaderID = n.leaderID) ?_
    (fun _ _ _ _ h => h) rfl
  intro written m e _ _ _ hm
  rw [← hm]
  unfold RaftNode.applyEntry
  dsimp only
  cases m.pending.lookup (m.lastApplied + 1) <;> dsimp only <;> split <;> rfl

theorem Reaches.hintOk_move (h : Reaches E M store threshold ok past s)
    (hinv : HintOk past s (s.node i)) (hmove : Move E M disk s a i n) (hn : s'.node i = n) :
    HintOk ((s, st) :: past) s' n := by
  cases hmove with
  | panic => exact hintOk_newRaftNode _
  | down _ ht => exact hinv.of_term_le rfl (Nat.le_of_lt ht)
  | timeout _ _ _ => exact hinv.of_term_le rfl (Nat.le_succ _)
  | grant _ _ hm _ _ =>
    cases hm with
    | same _ => exact hinv.of_term_le rfl (le_refl _)
    | down hlt => exact hinv.of_term_le rfl (Nat.le_of_lt hlt)
  | lead _ _ _ =>
    refine Or.inr ⟨_, le_refl _, s', Lib.self_mem_visited _ _, ?_⟩
    dsimp only
    rw [(h.identity i).1, hn]
    exact ⟨rfl, rfl⟩
  | mismatch hk _ hm =>
    obtain ⟨hled, hid⟩ := h.appendCall_led (List.mem_of_getElem? hk)
    exact .of_leader hled hid hm.term_eq
  | splice hk _ hm _ _ _ =>
    obtain ⟨hled, hid⟩ := h.appendCall_led (List.mem_of_getElem? hk)
    exact .of_leader hled hid hm.term_eq
  | restore hk hm =>
    obtain ⟨hled, hid, _⟩ := h.snapshotCall_led (List.mem_of_getElem? hk)
    exact .of_leader hled hid hm.term_eq
  | install hk hm _ =>
    obtain ⟨hled, hid, _⟩ := h.snapshotCall_led (List.mem_of_getElem? hk)
    exact .of_leader hled hid hm.term_eq
  | @apply i k gs =>
    have ho := RaftNode.onlyApplies_applyCommitted E disk { s.node i with goroutines := gs }
    exact hinv.of_term_le (leaderID_applyCommitted E disk _) (le_of_eq ho.currentTerm.symm)
  | _ => exact hinv.of_term_le rfl (le_refl _)

/-- **Who a node takes for the leader has led.** -/
theorem Reaches.hintOk (h : Reaches E M store threshold ok past s) (i : NodeID) :
    HintOk past s (s.node i) := by
  refine Reaches.invariant (P := fun past s => ∀ i, HintOk past s (s.node i)) ?_ ?_ h i
  · exact fun i => Or.inl rfl
  · intro past s st s' hr hinv _ hs i
    obtain ⟨j, hmoved, hother⟩ := step_moved hs
    by_cases hij : i = j
    · subst hij
      generalize hn : s'.node i = n at hmoved ⊢
      cases hmoved with
      | act hmove => exact hr.hintOk_move (hinv i) hmove hn
      | crash => exact hintOk_newRaftNode _
      | crashDuring _ _ => exact hintOk_newRaftNode _
      | @applyRead disk _ _ _ _ gs gs' _ happly =>
        have ho := RaftNode.onlyApplies_applyCommitted E disk { s.node i with goroutines := gs }
        rw [happly]
        exact (hinv i).of_term_le (leaderID_applyCommitted E disk _) (le_of_eq ho.currentTerm.symm)
    · rw [hother i hij]
      exact (hinv i).of_term_le rfl (le_refl _)

/-- A leader names itself. -/
theorem Reaches.leader_names_itself (hodd : M.ids.length % 2 = 1)
    (hmeta : ∀ s st, ok s st → MetaDurable s st) (h : Reaches E M store threshold ok past s)
    (hl : (s.node i).state = .leader) : (s.node i).leaderID = i := by
  refine Reaches.forall_node (P := fun i n => n.state = .leader → n.leaderID = i)
    (fun _ hl => absurd hl (by simp [init])) ?_ h i hl
  intro past s st i n hr hinv _ hmoved hl'
  cases hmoved with
  | crash => exact absurd hl' (by simp)
  | crashDuring _ _ => exact absurd hl' (by simp)
  | @applyRead disk _ _ _ _ gs _ _ happly =>
    have ho := RaftNode.onlyApplies_applyCommitted E disk { s.node i with goroutines := gs }
    rw [happly] at hl' ⊢
    exact (leaderID_applyCommitted E disk _).trans (hinv i (ho.state.symm.trans hl'))
  | @act disk _ _ _ hmove =>
    cases hmove with
    | panic => exact absurd hl' (by simp)
    | down _ _ => exact absurd hl' (by simp)
    | timeout _ _ _ => exact absurd hl' (by simp [RaftNode.startElection])
    | grant _ _ hm _ _ =>
      have hold := hm.leader hl'
      cases hm with
      | same _ => exact hinv _ hold
      | down _ => exact absurd hl' (by simp)
    | lead _ _ _ => exact (hr.identity i).1
    -- the handlers that note a leader have left the role
    | mismatch hk _ hm =>
      have hc := List.mem_of_getElem? hk
      obtain ⟨hsrc, hdst⟩ := hr.appendCall_ends hc
      exact absurd (hr.appendCall_led hc).1
        (hr.joins_rival hodd hmeta (hm.leader hl') hm hl' (mem_peers hsrc hdst).2.symm)
    | splice hk _ hm _ _ _ =>
      have hc := List.mem_of_getElem? hk
      obtain ⟨hsrc, hdst⟩ := hr.appendCall_ends hc
      exact absurd (hr.appendCall_led hc).1
        (hr.joins_rival hodd hmeta (hm.leader hl') hm hl' (mem_peers hsrc hdst).2.symm)
    | restore hk hm =>
      obtain ⟨hled, _, _, hdst⟩ := hr.snapshotCall_led (List.mem_of_getElem? hk)
      exact absurd hled (hr.joins_rival hodd hmeta (hm.leader hl') hm hl' hdst.symm)
    | install hk hm _ =>
      obtain ⟨hled, _, _, hdst⟩ := hr.snapshotCall_led (List.mem_of_getElem? hk)
      exact absurd hled (hr.joins_rival hodd hmeta (hm.leader hl') hm hl' hdst.symm)
    | @apply i k gs =>
      have ho := RaftNode.onlyApplies_applyCommitted E disk { s.node i with goroutines := gs }
      exact (leaderID_applyCommitted E disk _).trans (hinv i (ho.state.symm.trans hl'))
    | _ => exact hinv _ hl'

/-- **The leader a node points to.** In every run of an odd number of members with valid UTF-8 ids whose
`SaveMeta` calls succeed, with any other disk outcomes, message delays, losses and crashes: the `leaderID` of a node is empty, or it is a member that
has led a term up to the node's own; and a leader names itself. -/
theorem leader_hint (hodd : M.ids.length % 2 = 1) (h : Reaches E M store threshold MetaDurable past s)
    (i : NodeID) :
    ((s.node i).leaderID = [] ∨ (s.node i).leaderID ∈ M.ids ∧
      ∃ t ≤ (s.node i).currentTerm, LedTerm past s (s.node i).leaderID t) ∧
    ((s.node i).state = .leader → (s.node i).leaderID = i) := by
  refine ⟨(h.hintOk i).imp id ?_, h.leader_names_itself hodd fun _ _ h => h⟩
  rintro ⟨t, ht, hled⟩
  exact ⟨h.ledTerm_mem hled, t, ht, hled⟩

/-- A request of `node-1`, leader of term 1, has reached `node-2`. -/
theorem leader_hint_heard :
    ∃ past s, Shipped.Reaches MetaDurable past s ∧ (s.node node2).state = .follower ∧
      (s.node node2).leaderID = node1 ∧
      (∃ t ≤ (s.node node2).currentTerm, LedTerm past s node1 t) ∧
      (s.node node1).leaderID = node1 := by
  let steps := elect node1 0 1 ++ [.replicate node1 node2, .handleAppend 0]
  have hrun : Shipped.Reaches MetaDurable (Shipped.play NoSnapshot steps).1
      (Shipped.play NoSnapshot steps).2 :=
    (Shipped.reaches_play NoSnapshot steps).mono fun _ _ h => h.2.metaDurable
  have hid : ((Shipped.play NoSnapshot steps).2.node node2).leaderID = node1 := by decide +kernel
  refine ⟨_, _, hrun, by decide +kernel, hid, ?_,
    (leader_hint rfl hrun node1).2 (by decide +kernel)⟩
  rcases (leader_hint rfl hrun node2).1 with hnil | ⟨_, hled⟩
  · exact absurd (hid.symm.trans hnil) (by decide)
  · rwa [hid] at hled

end Cluster

end Raftrix
