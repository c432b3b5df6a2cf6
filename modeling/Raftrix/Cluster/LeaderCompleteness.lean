import Raftrix.Cluster.Coherence
import Raftrix.Node.Receiver

/-!
# Leader completeness

A leader commits an index of its own term once `matchIndex` covers it for a majority. In an orderly
run a successful answer tells the truth about the follower's log (`Reaches.answered`): it was a slice
of a log of the leader of the request's term, of the length the answer claims.

The leader does not compare the term of the request with its own, so it may count an answer to a
request of an earlier term of its own, and then the claim is about a log that is not its current one.
`FreshAck` excludes the answers for which that matters: the answer belongs to the current term, or
what it claims lies below the current term's entries, where nothing is counted. Under it `matchIndex`
tells the truth about the entries of the current term (**`Reaches.ledger`**), what is committed was
acknowledged by a majority (`Reaches.committed`), and the general argument of `Lib/LogHistory.lean`
gives **`committed_in_later_leaders`**.

Without the condition on requests it fails (`committed_entry_lost`), and without the one on
acknowledgements too (`late_acknowledgement_loses_entry`).
-/

namespace Raftrix

namespace Cluster

variable {σ : Type} {E : Engine σ} {M : Membership} {s s' : Cluster σ} {st : Step} {i : NodeID}
  {n : RaftNode σ} {store : NodeID → σ} {threshold : NodeID → Int}
  {ok : Cluster σ → Step → Prop} {past : List (Cluster σ × Step)}

/-! ## The condition on acknowledgements -/

/-- If the call brings leader `n` an acknowledgement, then of a request of its current term, or of
entries that are all older than the current term. -/
def AckOk (n : RaftNode σ) (c : AppendCall) : Prop :=
  match c.reply with
  | .answered resp =>
    resp.success = true → n.state = .leader → c.req.term = n.currentTerm ∨
      resp.matchIndex ≤ n.raftLog.lastIndex ∧ n.raftLog.termAt resp.matchIndex ≠ n.currentTerm
  | _ => True

instance (n : RaftNode σ) (c : AppendCall) : Decidable (AckOk n c) := by
  unfold AckOk
  split <;> infer_instance

/-- A step that brings a leader an acknowledgement brings one that is `AckOk`. -/
def FreshAck (s : Cluster σ) (st : Step) : Prop :=
  match st.action? with
  | some (.appendReturn k) => ∀ c ∈ s.appendCalls[k]?, AckOk (s.node c.src) c
  | _ => True

instance (s : Cluster σ) (st : Step) : Decidable (FreshAck s st) :=
  decidable_of_iff ((match st.action? with
    | some (.appendReturn k) => decide (∀ c ∈ s.appendCalls[k]?, AckOk (s.node c.src) c)
    | _ => true) = true) (by unfold FreshAck; split <;> simp)

theorem FreshAck.apply (h : FreshAck s st) {k : Nat} (ha : st.action? = some (.appendReturn k))
    {c : AppendCall} (hk : s.appendCalls[k]? = some c) {resp : AppendEntriesResponse}
    (hr : c.reply = .answered resp) (hs : resp.success = true)
    (hl : (s.node c.src).state = .leader) : c.req.term = (s.node c.src).currentTerm ∨
      resp.matchIndex ≤ (s.node c.src).raftLog.lastIndex ∧
        (s.node c.src).raftLog.termAt resp.matchIndex ≠ (s.node c.src).currentTerm := by
  unfold FreshAck at h
  rw [ha] at h
  have hok := h c hk
  unfold AckOk at hok
  rw [hr] at hok
  exact hok hs hl

/-- The steps are orderly and bring no misleading acknowledgement. -/
structure Faithful (ok : Cluster σ → Step → Prop) : Prop extends Orderly ok where
  ack : ∀ s st, ok s st → FreshAck s st

/-! ## What a successful answer claims -/

/-- The callee after handling the `k`-th AppendEntries call. -/
theorem node_of_handleAppend {disk : Disk} {k : Nat} {c : AppendCall}
    (hs : s.step E M (.act disk (.handleAppend k)) = some s') (hk : s.appendCalls[k]? = some c) :
    s'.node c.dst = ((s.node c.dst).handleAppendEntries disk c.req).1 := by
  cases step_cases hs with
  | act hx =>
    cases hx with
    | append hk' _ =>
      obtain rfl := Option.some.inj (hk.symm.trans hk')
      exact setNode_self s _ _

/-- What is behind a successful answer: at some moment the follower, in the request's term, held a log
of the length the answer claims, which was part of a log of the term's leader. -/
structure Answered (past : List (Cluster σ × Step)) (s : Cluster σ) (c : AppendCall)
    (resp : AppendEntriesResponse) (τ : Cluster σ) : Prop where
  respTerm : resp.term = c.req.term
  visited : τ ∈ Lib.visited past s
  term : (τ.node c.dst).currentTerm = c.req.term
  length : (τ.log c.dst).length = resp.matchIndex
  led : ∃ l, (history past s).led c.req.term l ∧ τ.log c.dst <+: l

/-- The log of a follower that has just taken over the log of the leader of its term is part of a log
of that leader. -/
theorem Reaches.led_of_full (hodd : M.ids.length % 2 = 1) (hord : Orderly ok)
    (h : Reaches E M store threshold ok past s) {τ : Cluster σ} (hτ : τ ∈ Lib.visited past s)
    {x : NodeID} (hx : (τ.node x).state = .leader)
    (hterm : (s.node i).currentTerm = (τ.node x).currentTerm)
    (hfull : τ.log x <+: s.log i ∨ s.log i = (τ.log x).dropLast) :
    ∃ l, (history past s).led (s.node i).currentTerm l ∧ s.log i <+: l := by
  have hled : (history past s).led (s.node i).currentTerm (τ.log x) :=
    ⟨τ, hτ, x, hx, hterm.symm, rfl⟩
  rcases hfull with hle | heq
  · -- the leader's last entry is of the current term, so the follower's is
    obtain ⟨earlier, he, _⟩ := h.of_visited hτ
    obtain ⟨e, hlast, het⟩ := Reaches.leader_last hodd hord he hx
    have hmem : e ∈ s.log i := hle.subset (List.mem_of_getLast? hlast)
    obtain ⟨d, hd⟩ : ∃ d, (s.log i).getLast? = some d :=
      Option.isSome_iff_exists.mp (by
        rw [List.getLast?_isSome]
        exact List.ne_nil_of_mem hmem)
    obtain ⟨hsort, hbound⟩ := h.sorted hodd hord i
    have h1 : e.term ≤ d.term := hsort.le_last hd hmem
    have h2 := hbound d (List.mem_of_getLast? hd)
    have hdt : d.term = (s.node i).currentTerm := by omega
    rw [← hdt]
    exact (h.traced hodd hord (Lib.self_mem_visited _ _) i).whole hd
  · exact ⟨_, hled, by rw [heq]; exact List.dropLast_prefix _⟩

theorem Answered.mono {c : AppendCall} {resp : AppendEntriesResponse} {τ : Cluster σ}
    (h : Answered past s c resp τ) : Answered ((s, st) :: past) s' c resp τ := by
  obtain ⟨l, hl, hle⟩ := h.led
  exact ⟨h.respTerm, Lib.mem_visited_cons.mpr (Or.inr h.visited), h.term, h.length, l, led_mono hl, hle⟩

theorem Answered.congr {c c' : AppendCall} {resp : AppendEntriesResponse} {τ : Cluster σ}
    (h : Answered past s c resp τ) (hdst : c'.dst = c.dst) (hreq : c'.req = c.req) :
    Answered past s c' resp τ := by
  constructor
  · rw [hreq]
    exact h.respTerm
  · exact h.visited
  · rw [hdst, hreq]
    exact h.term
  · rw [hdst]
    exact h.length
  · rw [hdst, hreq]
    exact h.led

/-- The answer a follower has just given. -/
theorem Reaches.answered_now (hodd : M.ids.length % 2 = 1) (hord : Orderly ok)
    (h : Reaches E M store threshold ok past s) {disk : Disk} {k : Nat} {c : AppendCall}
    (hok : ok s (.act disk (.handleAppend k)))
    (hs : s.step E M (.act disk (.handleAppend k)) = some s') (hk : s.appendCalls[k]? = some c)
    (hsucc : ((s.node c.dst).handleAppendEntries disk c.req).2.success = true) :
    Answered ((s, .act disk (.handleAppend k)) :: past) s' c
      ((s.node c.dst).handleAppendEntries disk c.req).2 s' := by
  have hnext : Reaches E M store threshold ok ((s, .act disk (.handleAppend k)) :: past) s' :=
    .next h hok hs
  have hnode := node_of_handleAppend hs hk
  obtain ⟨m, hm, hprev, hdone, hlog, hterm, hresp, hmatch⟩ := RaftNode.handleAppendEntries_success hsucc
  have hc := List.mem_of_getElem? hk
  have hadm := hm.admits hprev
  obtain ⟨τ, hτ⟩ := h.source hord hc
  obtain ⟨hmatching, hle, hle', htake⟩ := h.slice hodd hord hτ hadm
  have hshape := hord.shape h
  obtain ⟨es', hes', hmerge, _⟩ := merge_of_admitted (hshape.holds_log c.dst) hm
    (hshape.listed c hc) hprev ((hord.gap s _ hok).apply rfl hk hadm)
  have hlog' : s'.log c.dst = es' := by
    rw [log, hnode, hlog]
    exact hes'.entries_eq
  rw [hdone, hτ.entries] at hmerge
  rw [← hnode] at hterm hmatch
  have hfull := (hmerge.full hmatching hle hle' htake).imp id And.left
  rw [← hlog'] at hfull
  obtain ⟨l, hl, hpre⟩ := hnext.led_of_full hodd hord
    (Lib.mem_visited_cons.mpr (Or.inr hτ.visited)) hτ.leader (hterm.trans hτ.term.symm) hfull
  refine ⟨hresp, Lib.self_mem_visited _ _, hterm, ?_, l, ?_, hpre⟩
  · have hlast := ((hord.shape hnext).holds_log c.dst).lastIndex
    rw [← hlast]
    exact hmatch.symm
  · rw [← hterm]
    exact hl

/-- **A successful answer tells the truth.** -/
theorem Reaches.answered (hodd : M.ids.length % 2 = 1) (hord : Orderly ok)
    (h : Reaches E M store threshold ok past s) {c : AppendCall} (hc : c ∈ s.appendCalls)
    {resp : AppendEntriesResponse} (hr : c.reply = .answered resp) (hs : resp.success = true) :
    ∃ τ, Answered past s c resp τ := by
  refine Reaches.invariant (P := fun past s => ∀ c ∈ s.appendCalls, ∀ resp,
    c.reply = .answered resp → resp.success = true → ∃ τ, Answered past s c resp τ)
    ?_ ?_ h c hc resp hr hs
  · exact fun c hc => absurd hc List.not_mem_nil
  · intro past s st s' hreach hinv hok hs c' hc' resp hr hsucc
    obtain ⟨k, hk⟩ := List.mem_iff_getElem?.mp hc'
    cases step_appendCall hs hk with
    | @old c hk hf =>
      rcases hf.reply with hrep | hrep
      · obtain ⟨τ, hτ⟩ := hinv c (List.mem_of_getElem? hk) resp (by rw [← hrep]; exact hr) hsucc
        exact ⟨τ, hτ.mono.congr hf.dst hf.req⟩
      · rw [hrep] at hr
        exact absurd hr (by simp)
    | new _ hp =>
      rw [hp] at hr
      exact absurd hr (by simp)
    | @answered c resp' hj hp ha hc =>
      obtain ⟨disk, rfl, rfl⟩ := ha
      subst hc
      obtain rfl := Reply.answered.inj hr
      exact ⟨s', (hreach.answered_now hodd hord hok hs hj hsucc).congr rfl rfl⟩

/-! ## What `matchIndex` claims -/

theorem acked_mono {earlier : List (Cluster σ × Step)} {τ : Cluster σ}
    (hsub : ∀ ω ∈ Lib.visited earlier τ, ω ∈ Lib.visited past s) {v : NodeID} {t : Nat}
    {X : List LogEntry} (h : (history earlier τ).Acked v t X) : (history past s).Acked v t X := by
  obtain ⟨l, ⟨ω, hω, ht, hl⟩, hle⟩ := h
  exact ⟨l, ⟨ω, hsub ω hω, ht, hl⟩, hle⟩

/-- The bookkeeping `ls` of leader `x`: its keys are the peers, and for the entries of the current
term it tells what the peers acknowledged. -/
structure Ledger (M : Membership) (past : List (Cluster σ × Step)) (s : Cluster σ) (x : NodeID)
    (ls : LeaderState) : Prop where
  keys : ∀ p, p ∈ ls.matchIndex ↔ p ∈ (M.peers x).map Peer.id
  le : ∀ p, ls.matchIndex.at p ≤ (s.log x).length
  acked : ∀ p k, 1 ≤ k → k ≤ ls.matchIndex.at p → termOf (s.log x) k = (s.node x).currentTerm →
    (history past s).Acked p (s.node x).currentTerm ((s.log x).take k)

theorem getLast?_take {l : List LogEntry} {k : Nat} (h1 : 1 ≤ k) (hk : k ≤ l.length) :
    ∃ e, (l.take k).getLast? = some e ∧ e.term = termOf l k := by
  obtain ⟨j, rfl⟩ : ∃ j, k = j + 1 := ⟨k - 1, by omega⟩
  have hj : l[j]? = some l[j] := List.getElem?_eq_getElem hk
  refine ⟨l[j], ?_, (termOf_eq hj).symm⟩
  rw [List.getLast?_eq_getElem?, List.length_take_of_le hk, Nat.add_sub_cancel,
    List.getElem?_take_of_lt (Nat.lt_succ_self j)]
  exact hj

theorem Ledger.mono {x : NodeID} {ls : LeaderState} (h : Ledger M past s x ls)
    (hle : s.log x <+: s'.log x) (hterm : (s'.node x).currentTerm = (s.node x).currentTerm) :
    Ledger M ((s, st) :: past) s' x ls where
  keys := h.keys
  le p := (h.le p).trans hle.length_le
  acked p k h1 hk ht := by
    have hlen := hk.trans (h.le p)
    have htake : (s'.log x).take k = (s.log x).take k := by
      obtain ⟨t, ht⟩ := hle
      rw [← ht, List.take_append_of_le_length hlen]
    rw [hterm] at ht ⊢
    rw [← termOf_take (le_refl k), htake, termOf_take (le_refl k)] at ht
    rw [htake]
    exact acked_mono (fun ω hω => Lib.mem_visited_cons.mpr (Or.inr hω)) (h.acked p k h1 hk ht)

/-- Counting one more acknowledgement. -/
theorem Ledger.acknowledge {x p : NodeID} {ls : LeaderState} {index : Nat}
    (h : Ledger M past s x ls) (hp : p ∈ (M.peers x).map Peer.id)
    (hle : index ≤ (s.log x).length)
    (hacked : ∀ k, 1 ≤ k → k ≤ index → termOf (s.log x) k = (s.node x).currentTerm →
      (history past s).Acked p (s.node x).currentTerm ((s.log x).take k)) :
    Ledger M past s x (ls.acknowledge p index) where
  keys q := by
    rw [LeaderState.mem_acknowledge ((h.keys p).mpr hp)]
    exact h.keys q
  le q := by
    rw [LeaderState.acknowledge_matchIndex]
    have := h.le q
    split <;> omega
  acked q k h1 hk ht := by
    rw [LeaderState.acknowledge_matchIndex] at hk
    split at hk
    · rename_i hq
      subst hq
      rcases Nat.lt_or_ge (ls.matchIndex.at q) k with hnew | hold
      · exact hacked k h1 (by omega) ht
      · exact h.acked q k h1 hold ht
    · exact h.acked q k h1 hk ht

theorem termOf_mono {H : Lib.LogHistory NodeID LogEntry} (hH : H.term = LogEntry.term)
    {l : List LogEntry} (h : H.Sorted l) {j k : Nat} (h1 : 1 ≤ j) (hjk : j ≤ k)
    (hk : k ≤ l.length) : termOf l j ≤ termOf l k := by
  rcases Nat.eq_or_lt_of_le hjk with rfl | hlt
  · exact le_refl _
  · obtain ⟨a, rfl⟩ : ∃ a, j = a + 1 := ⟨j - 1, by omega⟩
    obtain ⟨b, rfl⟩ : ∃ b, k = b + 1 := ⟨k - 1, by omega⟩
    have ha : l[a]? = some l[a] := List.getElem?_eq_getElem (by omega)
    have hb : l[b]? = some l[b] := List.getElem?_eq_getElem hk
    rw [termOf_eq ha, termOf_eq hb, ← hH]
    exact List.pairwise_iff_getElem.mp h a b (by omega) hk (by omega)

/-- An acknowledgement the leader may count. -/
theorem Reaches.ledger_acked (hodd : M.ids.length % 2 = 1) (hord : Orderly ok)
    (h : Reaches E M store threshold ok past s) {c : AppendCall} (hc : c ∈ s.appendCalls)
    {resp : AppendEntriesResponse} (hr : c.reply = .answered resp) (hs : resp.success = true)
    (hl : (s.node c.src).state = .leader)
    (hfresh : c.req.term = (s.node c.src).currentTerm ∨
      resp.matchIndex ≤ (s.node c.src).raftLog.lastIndex ∧
        (s.node c.src).raftLog.termAt resp.matchIndex ≠ (s.node c.src).currentTerm)
    {ls : LeaderState} (hled : Ledger M past s c.src ls) :
    Ledger M past s c.src (ls.acknowledge c.dst resp.matchIndex) := by
  have hes := (hord.shape h).holds_log c.src
  have hp := (h.appendCall_ends hc).2
  rcases hfresh with hcur | ⟨hle, hne⟩
  · obtain ⟨τ, hτ⟩ := h.answered hodd hord hc hr hs
    obtain ⟨l, hl', hpre⟩ := hτ.led
    rw [hcur] at hl'
    have hlog : τ.log c.dst <+: s.log c.src := hpre.trans (h.led_le hodd hord hl hl')
    have hlen := hlog.length_le
    rw [hτ.length] at hlen
    refine hled.acknowledge hp hlen fun k h1 hk ht => ?_
    obtain ⟨e, he, het⟩ := getLast?_take h1 (hk.trans hlen)
    refine ⟨_, ⟨τ, hτ.visited, hτ.term.trans hcur, rfl⟩, ?_, e, he, het.trans ht⟩
    refine List.prefix_of_prefix_length_le (List.take_prefix _ _) hlog ?_
    rw [List.length_take, hτ.length]
    omega
  · rw [hes.lastIndex] at hle
    rw [hes.termAt] at hne
    refine hled.acknowledge hp hle fun k h1 hk ht => absurd ?_ hne
    -- an entry of the current term below `matchIndex` would make that one of the current term too
    obtain ⟨hsort, hbound⟩ := h.sorted hodd hord c.src
    have hmono := termOf_mono rfl hsort h1 hk hle
    obtain ⟨e, he, het⟩ := getLast?_take (h1.trans hk) hle
    have := hbound e ((List.take_prefix _ _).subset (List.mem_of_getLast? he))
    omega

/-- A node that is leader after a step was in the same term before. -/
theorem term_of_leader (hs : s.step E M st = some s') (hl' : (s'.node i).state = .leader) :
    (s'.node i).currentTerm = (s.node i).currentTerm := by
  cases step_leads hs hl' with
  | still _ hterm => exact hterm
  | elected _ _ _ _ hterm => exact hterm

/-- **`matchIndex` tells the truth** about the entries of the current term. -/
theorem Reaches.ledger (hodd : M.ids.length % 2 = 1) (hf : Faithful ok)
    (h : Reaches E M store threshold ok past s) {x : NodeID} {ls : LeaderState}
    (hl : (s.node x).state = .leader) (hls : (s.node x).leader = some ls) :
    Ledger M past s x ls := by
  have hord := hf.toOrderly
  refine Reaches.invariant (P := fun past s => ∀ x ls, (s.node x).state = .leader →
    (s.node x).leader = some ls → Ledger M past s x ls) ?_ ?_ h x ls hl hls
  · exact fun x ls hl => absurd hl (by simp [init])
  · intro past s st s' hr hinv hok hs x ls' hl' hls'
    -- a ledger of the old state is one of the new state if the node was leader already
    have hkeep : ∀ ls, (s.node x).state = .leader → Ledger M past s x ls →
        Ledger M ((s, st) :: past) s' x ls := by
      intro ls hl hled
      have hterm := term_of_leader hs hl'
      rcases step_later hodd hord hr hok hs x with hlt | ⟨_, _, _, hle⟩
      · omega
      · exact hled.mono (hle hl hl') hterm
    cases step_leader hs x with
    | gone h _ =>
      rw [h] at hls'
      exact absurd hls' (by simp)
    | same h hled =>
      have hl := hled hl'
      exact hkeep ls' hl (hinv x ls' hl (by rw [← h]; exact hls'))
    | fresh h =>
      rw [h] at hls'
      obtain rfl := Option.some.inj hls'
      refine ⟨fun p => ?_, fun p => ?_, fun p k h1 hk => ?_⟩
      · rw [LeaderState.mem_newLeaderState, (hr.identity x).2]
      · rw [LeaderState.newLeaderState_matchIndex]
        exact Nat.zero_le _
      · rw [LeaderState.newLeaderState_matchIndex] at hk
        omega
    | acked hst hk hrep hsrc hrole _ hls hsucc h =>
      subst hsrc
      rw [h] at hls'
      obtain rfl := Option.some.inj hls'
      exact hkeep _ hrole (hr.ledger_acked hodd hord (List.mem_of_getElem? hk) hrep hsucc hrole
        ((hf.ack s st hok).apply hst hk hrep hsucc hrole) (hinv _ _ hrole hls))
    | backedUp _ _ _ hrole hls h =>
      rw [h] at hls'
      obtain rfl := Option.some.inj hls'
      obtain ⟨h1, h2, h3⟩ := hinv x _ hrole hls
      refine hkeep _ hrole ⟨?_, ?_, ?_⟩ <;> rw [LeaderState.backUp_matchIndex]
      · exact h1
      · exact h2
      · exact h3
    | snapshotAcked hc _ _ =>
      rw [(hord.shape hr).unsent] at hc
      exact absurd hc List.not_mem_nil

/-! ## What is committed -/

theorem length_keys {x : NodeID} {ls : LeaderState} (hx : x ∈ M.ids)
    (hkeys : ∀ p, p ∈ ls.matchIndex ↔ p ∈ (M.peers x).map Peer.id) :
    ls.matchIndex.entries.length + 1 = M.ids.length := by
  have hnodup : ((M.peers x).map Peer.id).Nodup :=
    (M.peers_perm x hx).nodup_iff.mpr (M.nodup.erase x)
  have hperm : ls.matchIndex.keys.Perm ((M.peers x).map Peer.id) :=
    (List.perm_ext_iff_of_nodup ls.matchIndex.keys_nodup hnodup).mpr fun p => by
      rw [← AList.mem_keys]
      exact hkeys p
  have hlen := hperm.length_eq
  rw [AList.keys, List.keys, List.length_map, List.length_map] at hlen
  rw [hlen]
  exact length_peers hx

/-- The leader and the peers it counts for an index are a majority. -/
theorem majority_of_count {x : NodeID} {ls : LeaderState} (hx : x ∈ M.ids)
    (hkeys : ∀ p, p ∈ ls.matchIndex ↔ p ∈ (M.peers x).map Peer.id) {r : Nat}
    (hcount : ls.majority ≤ ls.count r) : Lib.Majority M.ids (insert x (ls.holders r)) := by
  have hpeer : ∀ p ∈ ls.holders r, p ∈ M.ids ∧ p ≠ x := fun p hp =>
    mem_peers hx ((hkeys p).mp (LeaderState.mem_holders.mp hp).1)
  refine ⟨Finset.insert_subset (List.mem_toFinset.mpr hx) fun p hp =>
    List.mem_toFinset.mpr (hpeer p hp).1, ?_⟩
  rw [Finset.card_insert_of_notMem fun hmem => (hpeer x hmem).2 rfl, ls.card_holders r]
  have hlen := length_keys hx hkeys
  unfold LeaderState.majority at hcount
  omega

/-- **What a leader commits a majority has acknowledged**: the step by which a leader raises its
commit index. -/
theorem Reaches.committed (hodd : M.ids.length % 2 = 1) (hf : Faithful ok)
    (h : Reaches E M store threshold ok past s) (hok : ok s st) {disk : Disk} {k : Nat}
    {c : AppendCall} {resp : AppendEntriesResponse} {ls : LeaderState} {r : Nat}
    (hst : st = .act disk (.appendReturn k)) (hk : s.appendCalls[k]? = some c)
    (hrep : c.reply = .answered resp) (hl : (s.node c.src).state = .leader)
    (hls : (s.node c.src).leader = some ls) (hs : resp.success = true) (hpos : 0 < r)
    (hr : r = (ls.acknowledge c.dst resp.matchIndex).commitCandidate
      (s.node c.src).commitIndex (s.node c.src).raftLog.lastIndex (s.node c.src).currentTerm
      (s.node c.src).raftLog.termAt) :
    r ≤ (s.log c.src).length ∧ (history past s).Committed M.ids (s.node c.src).currentTerm
      ((s.log c.src).take r) := by
  have hord := hf.toOrderly
  have hes := (hord.shape h).holds_log c.src
  have hmem := h.leader_mem hl
  obtain ⟨_, hle, hterm, hcount⟩ := LeaderState.commitCandidate_spec hr hpos
  rw [hes.lastIndex] at hle
  rw [hes.termAt] at hterm
  have hled := h.ledger_acked hodd hord (List.mem_of_getElem? hk) hrep hs hl
    ((hf.ack s st hok).apply (by rw [hst]; rfl) hk hrep hs hl) (h.ledger hodd hf hl hls)
  refine ⟨hle, _, majority_of_count hmem hled.keys hcount, fun v hv => ?_⟩
  rcases Finset.mem_insert.mp hv with rfl | hv
  · obtain ⟨e, he, het⟩ := getLast?_take hpos hle
    exact ⟨_, ⟨s, Lib.self_mem_visited _ _, rfl, rfl⟩, List.take_prefix _ _, e, he,
      het.trans hterm⟩
  · exact hled.acked v r hpos (LeaderState.mem_holders.mp hv).2 hterm

/-- Equal entries at an index, from lists. -/
theorem get_of_take_le {rl rl' : RaftLog} {es es' : List LogEntry} (h : rl.Holds es)
    (h' : rl'.Holds es') {r : Nat} (hr : r ≤ es.length) (hle : es.take r <+: es') {i : Nat}
    (h1 : 1 ≤ i) (hi : i ≤ r) : ∃ e, rl.get i = some e ∧ rl'.get i = some e := by
  obtain ⟨j, rfl⟩ : ∃ j, i = j + 1 := ⟨i - 1, by omega⟩
  have hj : es[j]? = some es[j] := List.getElem?_eq_getElem (by omega)
  have hj' : (es.take r)[j]? = some es[j] := by
    rw [List.getElem?_take_of_lt (by omega)]
    exact hj
  rw [h.get_succ, h'.get_succ]
  exact ⟨es[j], hj, Lib.getElem?_of_le hle hj'⟩

/-! ## The theorem -/

/-- The condition of this module on the steps of a run. -/
def CarefulAck (s : Cluster σ) (st : Step) : Prop :=
  (NoSnapshot s st ∧ NoGap s st ∧ FreshAck s st) ∧ DiskOk s st

theorem faithful_carefulAck : Faithful (CarefulAck (σ := σ)) where
  disk _ _ h := h.2
  snapshot _ _ h := h.1.1
  gap _ _ h := h.1.2.1
  ack _ _ h := h.1.2.2

/-- **Leader completeness.** In every run with working disks and without snapshots, whose admitted
requests conflict at their last entry at most and whose leaders count no misleading acknowledgement:
whatever a leader of term `T` commits by processing an acknowledgement, every leader of every later
term holds at the same index. -/
theorem committed_in_later_leaders (hodd : M.ids.length % 2 = 1)
    (h : Reaches E M store threshold CarefulAck past s) {τ τ' : Cluster σ} {k : Nat}
    (hτ : (τ, st) ∈ past) (hst : st.action? = some (.appendReturn k))
    (hs : τ.step E M st = some τ') {x : NodeID} (hx : (τ.node x).state = .leader)
    (hrise : (τ.node x).commitIndex < (τ'.node x).commitIndex) {ω : Cluster σ}
    (hω : ω ∈ Lib.visited past s) {y : NodeID} (hy : (ω.node y).state = .leader)
    (hterm : (τ.node x).currentTerm < (ω.node y).currentTerm) {i : Nat} (h1 : 1 ≤ i)
    (hi : i ≤ (τ'.node x).commitIndex) :
    ∃ e, (τ'.node x).raftLog.get i = some e ∧ (ω.node y).raftLog.get i = some e := by
  have hf : Faithful (CarefulAck (σ := σ)) := faithful_carefulAck
  have hord := hf.toOrderly
  obtain ⟨_, _, _, hok, _, _⟩ := h.of_mem_past hτ
  obtain ⟨earlier, he, hsub⟩ := h.of_visited
    (List.mem_cons_of_mem s (List.mem_map_of_mem (f := Prod.fst) hτ))
  have he : Reaches E M store threshold CarefulAck earlier τ := he
  have hnext : Reaches E M store threshold CarefulAck ((τ, st) :: earlier) τ' := .next he hok hs
  cases he.logStep hodd hord hok hs x with
  | grew _ _ _ _ hcommit => omega
  | spliced hst' _ _ _ _ _ _ _ =>
    rw [hst] at hst'
    exact absurd hst' (by simp)
  | same heq _ hcommit =>
    cases hcommit with
    | same h => omega
    | reset h => omega
    | counted hst' hk hrep hsrc hl hls hsucc hpos _ hr =>
      subst hsrc
      obtain ⟨hle, Q, hQ, hack⟩ := he.committed hodd hf hok hst' hk hrep hl hls hsucc hpos hr
      have hcom : (history past s).Committed M.ids _ ((τ.log _).take _) :=
        ⟨Q, hQ, fun v hv => acked_mono hsub (hack v hv)⟩
      have hpre := (h.coherent hodd hord).leader_completeness hcom hterm
        ⟨ω, hω, y, hy, rfl, rfl⟩
      rw [← heq] at hle hpre
      exact get_of_take_le ((hord.shape hnext).holds_log _)
        ((h.shape_visited hord hω).holds_log y) hle hpre h1 hi

open Shipped (node1 node2 node3 elect)

/-- `node-2` counts the answer of `node-1` to its two entries, and `node-1` is elected next. -/
def lostEntry : List Action := overwriteTwo ++ [.appendReturn 0] ++ elect node1 5 4

/-- **A committed entry is lost.** `node-2` commits indices 1 and 2 in term 2 on the word of `node-1`,
which has thrown away index 1 and not stored the new entry, and `node-1` becomes leader of term 3
without it. -/
theorem committed_entry_lost : ∃ past s,
    Shipped.Reaches (fun s st => NoSnapshot s st ∧ DiskOk s st) past s ∧
    (∃ p ∈ past, p.2.action? = some (.appendReturn 0) ∧ (p.1.node node2).state = .leader ∧
      (p.1.node node2).currentTerm = 2 ∧ (p.1.node node2).commitIndex = 0 ∧
      ∃ τ' ∈ p.1.step Shipped.engine Shipped.membership p.2, (τ'.node node2).commitIndex = 2 ∧
        (τ'.node node2).raftLog.get 1 = some ⟨1, 2, .noop⟩) ∧
    (s.node node1).state = .leader ∧ (s.node node1).currentTerm = 3 ∧
    (s.node node1).raftLog.get 1 = none :=
  ⟨_, _, Shipped.reaches_play NoSnapshot lostEntry, by decide +kernel, by decide +kernel,
    by decide +kernel, by decide +kernel⟩

/-- `node-1` commits its no-op in term 1 with the help of `node-2`, which leads term 2. -/
def keptEntry : List Action := commitOne ++ elect node2 3 2

/-- The leader of term 2 holds what was committed in term 1. -/
theorem committed_in_later_leaders_keptEntry : ∃ past s, Shipped.Reaches CarefulAck past s ∧
    (s.node node2).state = .leader ∧ (s.node node2).currentTerm = 2 ∧
    ∃ τ' ∈ Lib.visited past s, (τ'.node node1).commitIndex = 1 ∧
      ∃ e, (τ'.node node1).raftLog.get 1 = some e ∧ (s.node node2).raftLog.get 1 = some e := by
  have hrun := Shipped.reaches_play
    (fun s st => NoSnapshot s st ∧ NoGap s st ∧ FreshAck s st) keptEntry
  generalize hplay : Shipped.play
    (fun s st => NoSnapshot s st ∧ NoGap s st ∧ FreshAck s st) keptEntry = r at hrun
  obtain ⟨p, hp, hact, hlead, hterm, τ', hs, hrise, hone⟩ : ∃ p ∈ r.1,
      p.2.action? = some (.appendReturn 0) ∧ (p.1.node node1).state = .leader ∧
      (p.1.node node1).currentTerm = 1 ∧
      ∃ τ' ∈ p.1.step Shipped.engine Shipped.membership p.2,
        (p.1.node node1).commitIndex < (τ'.node node1).commitIndex ∧
        (τ'.node node1).commitIndex = 1 := by
    rw [← hplay]
    decide +kernel
  have hleader : (r.2.node node2).state = .leader := by
    rw [← hplay]
    decide +kernel
  have htwo : (r.2.node node2).currentTerm = 2 := by
    rw [← hplay]
    decide +kernel
  obtain ⟨_, τ'', _, _, hs', hmem⟩ := hrun.of_mem_past hp
  obtain rfl : τ' = τ'' := Option.some.inj (hs.symm.trans hs')
  exact ⟨_, _, hrun, hleader, htwo, τ', hmem, hone,
    committed_in_later_leaders rfl hrun hp hact hs hlead hrise (Lib.self_mem_visited _ _) hleader
      (by rw [hterm, htwo]; decide) (le_refl 1) (by rw [hone])⟩

/-! ## Late acknowledgements -/

section Five

/-- `"node-4"`. -/
def node4 : NodeID := [110, 111, 100, 101, 45, 52]

/-- `"node-5"`. -/
def node5 : NodeID := [110, 111, 100, 101, 45, 53]

/-- A cluster of five nodes. -/
def fiveNodes : Membership where
  ids := [node1, node2, node3, node4, node5]
  peers i := ([node1, node2, node3, node4, node5].erase i).map fun j => ⟨j⟩
  nodup := by decide
  nonempty := by decide
  peers_perm := by decide
  utf8 := by decide

/-- An election of `i` with two votes. -/
def electBy (i : NodeID) (granted lost : List Nat) : List Action :=
  .electionTimeout i :: granted.flatMap (fun k => [.handleVote k, .voteReturn k]) ++
    lost.map .voteFail ++ [.finishElection i]

/-- `node-2` stores two entries of `node-1`, and its answer is delayed. `node-3` leads term 2 and
replaces the log of `node-1`, which leads term 3. -/
def lateAnswer : List Action :=
  electBy node1 [1, 2] [0, 3] ++
    [.propose node1 ⟨.put, [1], [1], []⟩, .replicate node1 node2, .handleAppend 0] ++
  electBy node3 [6, 7] [4, 5] ++
    [.replicate node3 node1, .handleAppend 1, .appendReturn 1, .replicate node3 node1,
      .handleAppend 2] ++
  electBy node1 [9, 10] [8, 11]

/-- Now the answer arrives. `node-4` stores both entries of `node-1`, and `node-3` is elected again. -/
def lateAnswerCounted : List Action :=
  lateAnswer ++
    [.appendReturn 0, .replicate node1 node4, .handleAppend 3, .appendReturn 3,
      .replicate node1 node4, .handleAppend 4, .appendReturn 4] ++
  electBy node3 [13, 15] [12, 14]

/-- **The condition on acknowledgements is needed.** In a careful run `node-1` commits index 2 in
term 3, counting `node-2`, whose answer was about a log of term 1; two of five nodes hold the entry,
and the leader of term 4 holds another one there. -/
theorem late_acknowledgement_loses_entry : ∃ past s,
    Reaches Shipped.engine fiveNodes (fun _ => .empty) (fun _ => 10000) Careful past s ∧
    (s.node node1).commitIndex = 2 ∧ (s.node node1).raftLog.get 2 = some ⟨2, 3, .noop⟩ ∧
    (s.node node3).state = .leader ∧ (s.node node3).currentTerm = 4 ∧
    (s.node node3).raftLog.get 2 = some ⟨2, 4, .noop⟩ :=
  ⟨_, _, reaches_play Shipped.engine fiveNodes _ _ (fun s st => NoSnapshot s st ∧ NoGap s st)
    lateAnswerCounted, by decide +kernel, by decide +kernel, by decide +kernel, by decide +kernel,
    by decide +kernel⟩

end Five

end Cluster

end Raftrix
