import Raftrix.Cluster.ElectionSafety
import Raftrix.Cluster.LogShape

/-!
# Log matching

The history of a run, as a history of replicated logs (`Lib/LogHistory.lean`): which node held which
log in which term, and the logs of each term's leader. In a run with working disks, without
snapshots, whose admitted requests conflict at their last entry at most (`Orderly`):

* the logs of one term's leader grow (`Reaches.chain`): the leader of a term is one node, it keeps its
  log while it leads, and once it has stepped down it does not lead the term again (`Later`);
* a request is a slice of a log its sender had as leader of the request's term (`Reaches.request`);
* every entry of every log came from the leader of its term together with all entries before it
  (`Reaches.traced`), because a follower splices such a log into its own (`Merge.splice`).

**`log_matching`**: two logs that hold an entry of the same index and term are equal up to it. Without
the condition on requests it fails (`log_mismatch`).
-/

namespace Raftrix

namespace Cluster

variable {σ : Type} {E : Engine σ} {M : Membership} {s s' : Cluster σ} {st : Step} {i : NodeID}
  {n : RaftNode σ} {store : NodeID → σ} {threshold : NodeID → Int}
  {ok : Cluster σ → Step → Prop} {past : List (Cluster σ × Step)}

/-- The log of a node, by ascending index. -/
def log (s : Cluster σ) (i : NodeID) : List LogEntry := (s.node i).raftLog.entries

theorem Shape.holds_log (h : Shape s) (i : NodeID) : (s.node i).raftLog.Holds (s.log i) := by
  obtain ⟨es, hes⟩ := h.holds i
  rw [log, hes.entries_eq]
  exact hes

/-- What a step does to the log of any node. -/
theorem Shape.logMove (hshape : Shape s) (hr : Reaches E M store threshold ok past s)
    (hsnap : NoSnapshot s st) (hgap : NoGap s st) (hs : s.step E M st = some s') (i : NodeID) :
    LogMove s st i (s'.node i) (s.log i) (s'.log i) := by
  refine forall_node_of_moved (P := fun i n => LogMove s st i n (s.log i) n.raftLog.entries) hs
    (fun i => .same rfl (fun _ hl => hl) (.same rfl)) (fun i n hmoved => ?_) i
  obtain ⟨es', hes', hlog⟩ := hmoved.log hr.named hsnap hgap hshape.unsent (hr.term_pos i) hshape.listed
    (hshape.holds_log i)
  rw [hes'.entries_eq]
  exact hlog

/-- The steps work on their disks, take no snapshot and open no gap. -/
structure Orderly (ok : Cluster σ → Step → Prop) : Prop where
  disk : ∀ s st, ok s st → DiskOk s st
  snapshot : ∀ s st, ok s st → NoSnapshot s st
  gap : ∀ s st, ok s st → NoGap s st

theorem Orderly.metaDurable (h : Orderly ok) : ∀ s st, ok s st → MetaDurable s st :=
  fun s st hok => (h.disk s st hok).metaDurable

theorem Orderly.shape (hord : Orderly ok) (h : Reaches E M store threshold ok past s) : Shape s :=
  h.shape hord.snapshot hord.gap

/-- The history of a run. -/
def history (past : List (Cluster σ × Step)) (s : Cluster σ) : Lib.LogHistory NodeID LogEntry where
  term := LogEntry.term
  held v t l := ∃ τ ∈ Lib.visited past s, (τ.node v).currentTerm = t ∧ τ.log v = l
  led t l := ∃ τ ∈ Lib.visited past s, ∃ x, (τ.node x).state = .leader ∧
    (τ.node x).currentTerm = t ∧ τ.log x = l

theorem led_mono {t : Nat} {l : List LogEntry} (h : (history past s).led t l) :
    (history ((s, st) :: past) s').led t l := by
  obtain ⟨τ, hτ, hx⟩ := h
  exact ⟨τ, Lib.mem_visited_cons.mpr (Or.inr hτ), hx⟩

theorem traced_mono {l : List LogEntry} (h : (history past s).Traced l) :
    (history ((s, st) :: past) s').Traced l := by
  intro i e hi
  obtain ⟨l', hl', hle⟩ := h i e hi
  exact ⟨l', led_mono hl', hle⟩

/-! ## Requests -/

/-- **What a request carries**: a slice of a log its sender had as leader of the request's term. -/
theorem Reaches.request (hord : Orderly ok) (h : Reaches E M store threshold ok past s)
    {c : AppendCall} (hc : c ∈ s.appendCalls) : ∃ τ ∈ Lib.visited past s,
      (τ.node c.src).state = .leader ∧ (τ.node c.src).currentTerm = c.req.term ∧
      c.req.leaderCommit = (τ.node c.src).commitIndex ∧
      c.req.prevLogTerm = termOf (τ.log c.src) c.req.prevLogIndex ∧
      c.req.entries = (τ.log c.src).drop c.req.prevLogIndex := by
  refine Reaches.invariant (P := fun past s => ∀ c ∈ s.appendCalls, ∃ τ ∈ Lib.visited past s,
      (τ.node c.src).state = .leader ∧ (τ.node c.src).currentTerm = c.req.term ∧
      c.req.leaderCommit = (τ.node c.src).commitIndex ∧
      c.req.prevLogTerm = termOf (τ.log c.src) c.req.prevLogIndex ∧
      c.req.entries = (τ.log c.src).drop c.req.prevLogIndex) ?_ ?_ h c hc
  · exact fun c hc => absurd hc List.not_mem_nil
  · intro past s st s' hr hinv hok hs c' hc'
    obtain ⟨k, hk⟩ := List.mem_iff_getElem?.mp hc'
    rcases (step_appendCall hs hk).origin with ⟨c, hc, hsrc, _, hreq⟩ | hsent
    · rw [hsrc, hreq]
      obtain ⟨τ, hτ, hrest⟩ := hinv c hc
      exact ⟨τ, Lib.mem_visited_cons.mpr (Or.inr hτ), hrest⟩
    · obtain ⟨hterm, hcommit, hprev, hentries⟩ := hr.sent hsent ((hord.shape hr).holds_log c'.src)
      obtain ⟨_, _, _, hrole, _⟩ := hsent
      exact ⟨s, Lib.mem_visited_cons.mpr (Or.inr (Lib.self_mem_visited _ _)), hrole, hterm.symm,
        hcommit, hprev, hentries⟩

/-! ## The leader of a term keeps its log -/

/-- A node at a later moment: in a later term, or in the same term with the role and, for a leader,
the log it can have then. -/
def Later (n n' : RaftNode σ) : Prop :=
  n.currentTerm < n'.currentTerm ∨
    n.currentTerm = n'.currentTerm ∧ (n.state = .follower → n'.state = .follower) ∧
      (n.state = .leader → n'.state ≠ .candidate) ∧
      (n.state = .leader → n'.state = .leader → n.raftLog.entries <+: n'.raftLog.entries)

theorem Later.refl (n : RaftNode σ) : Later n n :=
  Or.inr ⟨rfl, id, fun h h' => by rw [h] at h'; exact absurd h' (by simp),
    fun _ _ => List.prefix_refl _⟩

theorem Later.trans {a b c : RaftNode σ} (h : Later a b) (h' : Later b c) : Later a c := by
  rcases h with h | ⟨h, hf, hnc, hle⟩
  · rcases h' with h' | ⟨h', _⟩
    · exact Or.inl (by omega)
    · exact Or.inl (by omega)
  · rcases h' with h' | ⟨h', hf', hnc', hle'⟩
    · exact Or.inl (by omega)
    · refine Or.inr ⟨h.trans h', fun ha => hf' (hf ha), ?_, ?_⟩
      · intro ha hc
        cases hb : b.state with
        | follower =>
          rw [hf' hb] at hc
          exact absurd hc (by simp)
        | candidate => exact hnc ha hb
        | leader => exact hnc' hb hc
      · intro ha hc
        cases hb : b.state with
        | follower =>
          rw [hf' hb] at hc
          exact absurd hc (by simp)
        | candidate => exact absurd hb (hnc ha)
        | leader => exact (hle ha hb).trans (hle' hb hc)

theorem Reaches.later_of_moved (hodd : M.ids.length % 2 = 1) (hord : Orderly ok)
    (h : Reaches E M store threshold ok past s) (hok : ok s st) (hmoved : Moved E M s st i n) :
    Later (s.node i) n := by
  have hshape := hord.shape h
  have hsaved := h.saved hord.metaDurable i
  cases hmoved.role with
  | candidate _ _ hn =>
    rw [hn]
    exact Or.inl (Nat.lt_succ_self _)
  | follower hstate hterm =>
    rcases Nat.eq_or_lt_of_le (hterm h.named hsaved) with heq | hlt
    · refine Or.inr ⟨heq, fun _ => hstate, fun _ hc => ?_, fun _ hc => ?_⟩
      · rw [hstate] at hc
        exact absurd hc (by simp)
      · rw [hstate] at hc
        exact absurd hc (by simp)
    · exact Or.inl hlt
  | leader _ _ _ hold _ hterm =>
    refine Or.inr ⟨hterm.symm, fun hf => ?_, fun hl => ?_, fun hl => ?_⟩ <;>
      (rw [hold] at *; contradiction)
  | same hstate hterm =>
    refine Or.inr ⟨hterm.symm, fun hf => by rw [hstate]; exact hf, fun hl hc => ?_, fun hl _ => ?_⟩
    · rw [hstate, hl] at hc
      exact absurd hc (by simp)
    · obtain ⟨es', hes', hlog⟩ := hmoved.log h.named (hord.snapshot s st hok) (hord.gap s st hok)
        hshape.unsent (h.term_pos i) hshape.listed (hshape.holds_log i)
      rw [hes'.entries_eq]
      cases hlog with
      | same heq _ _ =>
        rw [heq]
        exact List.prefix_refl _
      | grew heq _ _ _ _ _ _ _ =>
        rw [heq]
        exact List.prefix_append _ _
      | @spliced k c _ _ hk hdst _ hreq _ _ _ =>
        -- a request of the own term would come from the node itself
        have hc := List.mem_of_getElem? hk
        obtain ⟨τ, hτ, hlead, hτt, _⟩ := h.request hord hc
        obtain ⟨hsrc, hdst'⟩ := h.appendCall_ends hc
        have heq : c.src = i := h.leader_unique hodd hord.metaDurable hτ (Lib.self_mem_visited _ _)
          hlead hl (by rw [hτt, ← hreq hsaved, hterm])
        exact absurd (hdst.trans heq.symm) (mem_peers hsrc hdst').2

theorem step_later (hodd : M.ids.length % 2 = 1) (hord : Orderly ok)
    (h : Reaches E M store threshold ok past s) (hok : ok s st) (hs : s.step E M st = some s')
    (i : NodeID) : Later (s.node i) (s'.node i) :=
  forall_node_of_moved (P := fun i n => Later (s.node i) n) hs (fun _ => .refl _)
    (fun _ _ hmoved => h.later_of_moved hodd hord hok hmoved) i

/-- Along a run a node gets later. -/
theorem Reaches.later (hodd : M.ids.length % 2 = 1) (hord : Orderly ok)
    (h : Reaches E M store threshold ok past s) {τ : Cluster σ} (hτ : τ ∈ Lib.visited past s)
    (i : NodeID) : Later (τ.node i) (s.node i) :=
  Lib.Run.rel (R := fun τ s : Cluster σ => ∀ i, Later (τ.node i) (s.node i))
    (fun _ _ => .refl _) (fun _ _ _ h h' i => (h i).trans (h' i))
    (fun _ _ _ _ hr hok hs => step_later hodd hord hr hok hs) h hτ i

/-- What the leader of the term has had it still has. -/
theorem Reaches.led_le (hodd : M.ids.length % 2 = 1) (hord : Orderly ok)
    (h : Reaches E M store threshold ok past s) (hl : (s.node i).state = .leader)
    {l : List LogEntry} (hled : (history past s).led (s.node i).currentTerm l) : l <+: s.log i := by
  obtain ⟨τ, hτ, y, hy, hyt, rfl⟩ := hled
  obtain rfl := h.leader_unique hodd hord.metaDurable hτ (Lib.self_mem_visited _ _) hy hl hyt
  rcases h.later hodd hord hτ y with hlt | ⟨_, _, _, hle⟩
  · omega
  · exact hle hy hl

/-- **The logs of one term's leader grow.** -/
theorem Reaches.chain (hodd : M.ids.length % 2 = 1) (hord : Orderly ok)
    (h : Reaches E M store threshold ok past s) {t : Nat} {l l' : List LogEntry}
    (hl : (history past s).led t l) (hl' : (history past s).led t l') : l <+: l' ∨ l' <+: l := by
  obtain ⟨τ, hτ, x, hx, hxt, rfl⟩ := hl
  obtain ⟨ω, hω, y, hy, hyt, rfl⟩ := hl'
  obtain rfl := h.leader_unique hodd hord.metaDurable hτ hω hx hy (hxt.trans hyt.symm)
  have hgrows : ∀ {a b : RaftNode σ}, Later a b → a.currentTerm = b.currentTerm →
      a.state = .leader → b.state = .leader → a.raftLog.entries <+: b.raftLog.entries := by
    rintro a b (hlt | ⟨_, _, _, hle⟩) ht ha hb
    · exact absurd ht (Nat.ne_of_lt hlt)
    · exact hle ha hb
  rcases Lib.Run.rel_total (R := fun τ s : Cluster σ => ∀ i, Later (τ.node i) (s.node i))
    (fun _ _ => .refl _) (fun _ _ _ h h' i => (h i).trans (h' i))
    (fun _ _ _ _ hr hok hs => step_later hodd hord hr hok hs) h hτ hω with hle | hle
  · exact Or.inl (hgrows (hle x) (hxt.trans hyt.symm) hx hy)
  · exact Or.inr (hgrows (hle x) (hyt.trans hxt.symm) hy hx)

/-! ## Every log is traced -/

theorem Reaches.logMove (hord : Orderly ok) (h : Reaches E M store threshold ok past s)
    (hok : ok s st) (hs : s.step E M st = some s') (i : NodeID) :
    LogMove s st i (s'.node i) (s.log i) (s'.log i) :=
  (hord.shape h).logMove h (hord.snapshot s st hok) (hord.gap s st hok) hs i

/-- The log of a follower and the log a request was cut from: they match, and they agree up to where
the request starts. -/
theorem slice_of_admits {H : Lib.LogHistory NodeID LogEntry} (hH : H.term = LogEntry.term)
    (hchain : ∀ {t l l'}, H.led t l → H.led t l' → l <+: l' ∨ l' <+: l) {es l : List LogEntry}
    {req : AppendEntriesRequest} (hes : n.raftLog.Holds es) (hlisted : Listed l)
    (htes : H.Traced es) (htl : H.Traced l) (hadm : n.Admits req)
    (hprev : req.prevLogTerm = termOf l req.prevLogIndex) :
    Matching es l ∧ req.prevLogIndex ≤ es.length ∧ req.prevLogIndex ≤ l.length ∧
      es.take req.prevLogIndex = l.take req.prevLogIndex := by
  have hmatch : Matching es l := fun i e e' he he' hterm =>
    htes.matching hchain htl he he' (by rw [hH]; exact hterm)
  refine ⟨hmatch, hmatch.take_prev hes.listed hlisted ?_⟩
  rw [← hprev]
  exact (hes.checkPrev req).mp hadm.2

/-- Where a request was cut from, with the state in which its sender had that log. -/
structure Source (past : List (Cluster σ × Step)) (s : Cluster σ) (c : AppendCall)
    (τ : Cluster σ) : Prop where
  visited : τ ∈ Lib.visited past s
  leader : (τ.node c.src).state = .leader
  term : (τ.node c.src).currentTerm = c.req.term
  commit : c.req.leaderCommit = (τ.node c.src).commitIndex
  prevTerm : c.req.prevLogTerm = termOf (τ.log c.src) c.req.prevLogIndex
  entries : c.req.entries = (τ.log c.src).drop c.req.prevLogIndex

theorem Reaches.source (hord : Orderly ok) (h : Reaches E M store threshold ok past s)
    {c : AppendCall} (hc : c ∈ s.appendCalls) : ∃ τ, Source past s c τ := by
  obtain ⟨τ, hτ, h1, h2, h3, h4, h5⟩ := h.request hord hc
  exact ⟨τ, hτ, h1, h2, h3, h4, h5⟩

/-- A visited state has well-formed logs. -/
theorem Reaches.shape_visited (hord : Orderly ok) (h : Reaches E M store threshold ok past s)
    {τ : Cluster σ} (hτ : τ ∈ Lib.visited past s) : Shape τ := by
  obtain ⟨_, he, _⟩ := h.of_visited hτ
  exact hord.shape he

/-- A leader's own entry is traced by the log it has just made. -/
theorem traced_grew {l : List LogEntry} {e : LogEntry} (h : (history past s).Traced l)
    (hled : (history past s).led e.term (l ++ [e])) : (history past s).Traced (l ++ [e]) := by
  intro i x hi
  rcases getElem?_concat_cases hi with hi | ⟨_, rfl⟩
  · obtain ⟨l', hl', hle⟩ := h i x hi
    refine ⟨l', hl', ?_⟩
    rw [List.take_append_of_le_length (List.getElem?_eq_some_iff.mp hi).1]
    exact hle
  · exact ⟨_, hled, List.take_prefix _ _⟩

/-- **Every log is traced.** -/
theorem Reaches.traced (hodd : M.ids.length % 2 = 1) (hord : Orderly ok)
    (h : Reaches E M store threshold ok past s) {τ : Cluster σ} (hτ : τ ∈ Lib.visited past s)
    (i : NodeID) : (history past s).Traced (τ.log i) := by
  refine Reaches.invariant (P := fun past s => ∀ τ ∈ Lib.visited past s, ∀ i,
    (history past s).Traced (τ.log i)) ?_ ?_ h τ hτ i
  · intro τ hτ i k e hk
    rw [List.mem_singleton.mp hτ] at hk
    exact absurd hk (by simp [log, init, RaftLog.entries, RaftLog.fresh, Lib.Bucket.empty])
  · intro past s st s' hr hinv hok hs τ hτ i
    rcases Lib.mem_visited_cons.mp hτ with rfl | hτ
    · have hold := hinv s (Lib.self_mem_visited _ _) i
      cases hr.logMove hord hok hs i with
      | same heq _ _ =>
        rw [heq]
        exact traced_mono hold
      | @grew e heq hrole _ _ hterm _ _ _ =>
        rw [heq]
        refine traced_grew (traced_mono hold) ?_
        exact ⟨τ, Lib.self_mem_visited _ _, i, hrole, hterm.symm, heq⟩
      | @spliced k c _ _ hk hdst hadm _ _ hmerge _ =>
        subst hdst
        have hc := List.mem_of_getElem? hk
        obtain ⟨ω, hω⟩ := hr.source hord hc
        have htl := hinv ω hω.visited c.src
        obtain ⟨hmatch, hle, hle', htake⟩ := slice_of_admits rfl (hr.chain hodd hord)
          ((hord.shape hr).holds_log c.dst)
          ((hr.shape_visited hord hω.visited).holds_log c.src).listed hold htl hadm hω.prevTerm
        rw [hω.entries] at hmerge
        rcases (hmerge.splice hmatch hle hle' htake).le_or with heq | hpre
        · rw [heq]
          exact traced_mono hold
        · exact traced_mono (htl.of_le hpre)
    · exact traced_mono (hinv τ hτ i)

/-! ## The theorem -/

/-- The condition of this module on the steps of a run. -/
def Careful (s : Cluster σ) (st : Step) : Prop := (NoSnapshot s st ∧ NoGap s st) ∧ DiskOk s st

theorem orderly_careful : Orderly (Careful (σ := σ)) :=
  ⟨fun _ _ h => h.2, fun _ _ h => h.1.1, fun _ _ h => h.1.2⟩

/-- **Log matching.** In every run with working disks and without snapshots, whose admitted requests
conflict at their last entry at most: where the logs of two nodes hold entries of the same index and
term, both hold the same entry at every index up to it. -/
theorem log_matching (hodd : M.ids.length % 2 = 1) (h : Reaches E M store threshold Careful past s)
    {x y : NodeID} {i : Nat} {e e' : LogEntry} (hx : (s.node x).raftLog.get i = some e)
    (hy : (s.node y).raftLog.get i = some e') (hterm : e.term = e'.term) {j : Nat} (hj : 1 ≤ j)
    (hji : j ≤ i) :
    ∃ d, (s.node x).raftLog.get j = some d ∧ (s.node y).raftLog.get j = some d := by
  have hord : Orderly (Careful (σ := σ)) := orderly_careful
  have hsx := (hord.shape h).holds_log x
  have hsy := (hord.shape h).holds_log y
  have hself := Lib.self_mem_visited past s
  obtain ⟨k, rfl⟩ : ∃ k, i = k + 1 := ⟨i - 1, by omega⟩
  rw [hsx.get_succ] at hx
  rw [hsy.get_succ] at hy
  have heq := (h.traced hodd hord hself x).matching (h.chain hodd hord)
    (h.traced hodd hord hself y) hx hy hterm
  obtain ⟨m, rfl⟩ : ∃ m, j = m + 1 := ⟨j - 1, by omega⟩
  have hlt : m < (s.log x).length := by
    have := (List.getElem?_eq_some_iff.mp hx).1
    omega
  have hm : (s.log x)[m]? = (s.log y)[m]? := by
    have := congrArg (fun l => l[m]?) heq
    simpa only [List.getElem?_take_of_lt (show m < k + 1 by omega)] using this
  rw [hsx.get_succ, hsy.get_succ, ← hm]
  exact ⟨_, List.getElem?_eq_getElem hlt, List.getElem?_eq_getElem hlt⟩

open Shipped (node1 node2 node3)

/-- **Two logs that do not match.** After the run `overwriteTwo` both `node-1` and `node-2` hold the
entry of index 2 and term 2, and `node-1` holds none below it. -/
theorem log_mismatch : ∃ past s,
    Shipped.Reaches (fun s st => NoSnapshot s st ∧ DiskOk s st) past s ∧
    (∃ e, (s.node node1).raftLog.get 2 = some e ∧ (s.node node2).raftLog.get 2 = some e) ∧
    (s.node node1).raftLog.get 1 = none :=
  ⟨_, _, Shipped.reaches_play NoSnapshot overwriteTwo,
    ⟨⟨2, 2, ⟨.put, [1], [2], []⟩⟩, by decide +kernel, by decide +kernel⟩, by decide +kernel⟩

/-- `node-1` has overwritten its own no-op with the one of `node-2`; the two logs match. -/
theorem log_matching_overwriteOne : ∃ past s, Shipped.Reaches Careful past s ∧
    (s.node node1).raftLog.get 1 = some ⟨1, 2, .noop⟩ ∧
    ∃ d, (s.node node1).raftLog.get 1 = some d ∧ (s.node node2).raftLog.get 1 = some d := by
  have hrun := Shipped.reaches_play (fun s st => NoSnapshot s st ∧ NoGap s st) overwriteOne
  have h1 : (((Shipped.play (fun s st => NoSnapshot s st ∧ NoGap s st) overwriteOne).2.node
      node1).raftLog.get 1) = some ⟨1, 2, .noop⟩ := by decide +kernel
  have h2 : (((Shipped.play (fun s st => NoSnapshot s st ∧ NoGap s st) overwriteOne).2.node
      node2).raftLog.get 1) = some ⟨1, 2, .noop⟩ := by decide +kernel
  exact ⟨_, _, hrun, h1, log_matching rfl hrun h1 h2 rfl (le_refl 1) (le_refl 1)⟩

end Cluster

end Raftrix
