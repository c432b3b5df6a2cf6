import Raftrix.Cluster.LogMatching

/-!
# What the votes carry

The history of an orderly run is that of a replicated log (`Lib.LogHistory.Coherent`): besides the
facts about the logs of `Cluster/LogMatching.lean`,

* terms do not decrease along a log, and no entry is newer than the term of its holder
  (`Reaches.sorted`);
* what a node acknowledged it keeps, unless the leader of a later term lacked it (`Reaches.kept`):
  the leaders it took entries from either share what was acknowledged, and then the splice keeps it
  (`Lib.Splice.keeps`), or are such leaders;
* a vote carries what the voter acknowledged into the log of the candidate (`Reaches.carried`), since
  the candidate's log is as its request says until it has won.

**`Reaches.coherent`** puts them together.
-/

namespace Raftrix

namespace Cluster

variable {σ : Type} {E : Engine σ} {M : Membership} {s s' : Cluster σ} {st : Step} {i : NodeID}
  {n m : RaftNode σ} {store : NodeID → σ} {threshold : NodeID → Int}
  {ok : Cluster σ → Step → Prop} {past : List (Cluster σ × Step)}

/-! ## What a step does to a log, with the log it takes over -/

/-- A node's log before and after a step. -/
inductive LogStep (past : List (Cluster σ × Step)) (s s' : Cluster σ) (st : Step) (i : NodeID) : Prop
  | same (heq : s'.log i = s.log i)
      (hled : (s'.node i).state = .leader → (s.node i).state = .leader)
      (hcommit : CommitMove s st i (s'.node i))
  | grew {e : LogEntry} (heq : s'.log i = s.log i ++ [e]) (hrole : (s'.node i).state = .leader)
      (hcur : (s'.node i).currentTerm = (s.node i).currentTerm)
      (hterm : e.term = (s'.node i).currentTerm)
      (hcommit : (s'.node i).commitIndex = (s.node i).commitIndex)
  /-- The log `τ.log c.src` of the leader is taken over, in full if the commit index follows. -/
  | spliced {k : Nat} {c : AppendCall} {τ : Cluster σ} (hst : st.action? = some (.handleAppend k))
      (hk : s.appendCalls[k]? = some c) (hdst : c.dst = i) (hsrc : Source past s c τ)
      (hterm : (s'.node i).currentTerm = c.req.term)
      (hstate : (s'.node i).state = .leader → (s.node i).state = .leader)
      (hsplice : Lib.Splice LogEntry.term (s.log i) (τ.log c.src) (s'.log i))
      (hcommit : (s'.node i).commitIndex = (s.node i).commitIndex ∨ (s'.node i).commitIndex = 0 ∨
        (s.node i).commitIndex < (s'.node i).commitIndex ∧
          (s'.node i).commitIndex = min (τ.log c.src).length (τ.node c.src).commitIndex ∧
          (τ.log c.src <+: s'.log i ∨ s'.log i = (τ.log c.src).dropLast ∧
            (s.node i).Admits c.req ∧ LastConflicts (s.node i).raftLog c.req ∧
            c.req.prevLogIndex + c.req.entries.length = (τ.log c.src).length))

/-- What an admitted request is to the log it meets. -/
theorem Reaches.slice (hodd : M.ids.length % 2 = 1) (hord : Orderly ok)
    (h : Reaches E M store threshold ok past s) {c : AppendCall} {τ : Cluster σ}
    (hτ : Source past s c τ) (hadm : (s.node c.dst).Admits c.req) :
    Matching (s.log c.dst) (τ.log c.src) ∧ c.req.prevLogIndex ≤ (s.log c.dst).length ∧
      c.req.prevLogIndex ≤ (τ.log c.src).length ∧
      (s.log c.dst).take c.req.prevLogIndex = (τ.log c.src).take c.req.prevLogIndex :=
  slice_of_admits rfl (h.chain hodd hord) ((hord.shape h).holds_log c.dst)
    ((h.shape_visited hord hτ.visited).holds_log c.src).listed
    (h.traced hodd hord (Lib.self_mem_visited _ _) c.dst) (h.traced hodd hord hτ.visited c.src)
    hadm hτ.prevTerm

theorem Reaches.logStep (hodd : M.ids.length % 2 = 1) (hord : Orderly ok)
    (h : Reaches E M store threshold ok past s) (hok : ok s st) (hs : s.step E M st = some s')
    (i : NodeID) : LogStep past s s' st i := by
  cases h.logMove hord hok hs i with
  | same heq hled hcommit => exact .same heq (hled (hord.disk s st hok)) hcommit
  | grew heq hrole _ hcur hterm _ hcommit _ => exact .grew heq hrole hcur hterm hcommit
  | @spliced k c done hst hk hdst hadm hterm hstate hmerge hcommit =>
    subst hdst
    obtain ⟨τ, hτ⟩ := h.source hord (List.mem_of_getElem? hk)
    obtain ⟨hmatch, hle, hle', htake⟩ := h.slice hodd hord hτ hadm
    have hes := (hord.shape h).holds_log c.dst
    have hlen : c.req.prevLogIndex + c.req.entries.length = (τ.log c.src).length := by
      rw [hτ.entries, List.length_drop]
      omega
    have hslice := hmerge
    rw [hτ.entries] at hslice
    refine .spliced hst hk rfl hτ (hterm (h.saved hord.metaDurable c.dst)) hstate
      (hslice.splice hmatch hle hle' htake) (hcommit.imp id (Or.imp id ?_))
    rintro ⟨rfl, hlt, heq⟩
    rw [hlen, hτ.commit] at heq
    refine ⟨hlt, heq, (hslice.full hmatch hle hle' htake).imp id ?_⟩
    rintro ⟨hdrop, hshort⟩
    exact ⟨hdrop, hadm, (hmerge.lastConflicts hes hshort).1, hlen⟩

/-! ## Terms along a log -/

theorem step_term (hord : Orderly ok) (h : Reaches E M store threshold ok past s) (hok : ok s st)
    (hs : s.step E M st = some s') (i : NodeID) :
    (s.node i).currentTerm ≤ (s'.node i).currentTerm :=
  (step_ballot hord.metaDurable h hok hs i).term_le

/-- **Terms do not decrease along a log**, and none is newer than the term of the node. -/
theorem Reaches.sorted_visited (hodd : M.ids.length % 2 = 1) (hord : Orderly ok)
    (h : Reaches E M store threshold ok past s) {τ : Cluster σ} (hτ : τ ∈ Lib.visited past s)
    (i : NodeID) : (history past s).Sorted (τ.log i) ∧
      ∀ e ∈ τ.log i, e.term ≤ (τ.node i).currentTerm := by
  refine Reaches.invariant (P := fun past s => ∀ τ ∈ Lib.visited past s, ∀ i,
    (history past s).Sorted (τ.log i) ∧ ∀ e ∈ τ.log i, e.term ≤ (τ.node i).currentTerm)
    ?_ ?_ h τ hτ i
  · intro τ hτ i
    have hnil : τ.log i = [] := by rw [List.mem_singleton.mp hτ]; rfl
    rw [hnil]
    exact ⟨List.Pairwise.nil, fun e he => absurd he List.not_mem_nil⟩
  · intro past s st s' hr hinv hok hs τ hτ i
    rcases Lib.mem_visited_cons.mp hτ with rfl | hτ
    · obtain ⟨hsort, hle⟩ := hinv s (Lib.self_mem_visited _ _) i
      have hterm := step_term hord hr hok hs i
      cases hr.logStep hodd hord hok hs i with
      | same heq _ _ =>
        rw [heq]
        exact ⟨hsort, fun e he => (hle e he).trans hterm⟩
      | grew heq _ hcur hnew _ =>
        rw [heq]
        constructor
        · refine List.pairwise_append.mpr ⟨hsort, List.pairwise_singleton _ _, ?_⟩
          intro a ha b hb
          rw [List.mem_singleton.mp hb]
          change a.term ≤ LogEntry.term _
          rw [hnew, hcur]
          exact hle a ha
        · intro e he
          rcases List.mem_append.mp he with he | he
          · exact (hle e he).trans hterm
          · rw [List.mem_singleton.mp he, hnew]
      | @spliced k c ω _ _ _ hsrc hnew _ hsplice _ =>
        obtain ⟨hsort', hle'⟩ := hinv ω hsrc.visited c.src
        rcases hsplice.le_or with heq | hpre
        · rw [heq]
          exact ⟨hsort, fun e he => (hle e he).trans hterm⟩
        · refine ⟨hsort'.of_le hpre, fun e he => ?_⟩
          rw [hnew, ← hsrc.term]
          exact hle' e (hpre.subset he)
    · exact hinv τ hτ i

theorem Reaches.sorted (hodd : M.ids.length % 2 = 1) (hord : Orderly ok)
    (h : Reaches E M store threshold ok past s) (i : NodeID) :
    (history past s).Sorted (s.log i) ∧ ∀ e ∈ s.log i, e.term ≤ (s.node i).currentTerm :=
  h.sorted_visited hodd hord (Lib.self_mem_visited _ _) i

/-- **A leader's log ends in its own term**: it starts its term with a no-op. -/
theorem Reaches.leader_last (hodd : M.ids.length % 2 = 1) (hord : Orderly ok)
    (h : Reaches E M store threshold ok past s) (hl : (s.node i).state = .leader) :
    ∃ e, (s.log i).getLast? = some e ∧ e.term = (s.node i).currentTerm := by
  refine Reaches.invariant (P := fun past s => ∀ i, (s.node i).state = .leader →
    ∃ e, (s.log i).getLast? = some e ∧ e.term = (s.node i).currentTerm) ?_ ?_ h i hl
  · exact fun i hl => absurd hl (by simp [init])
  · intro past s st s' hr hinv hok hs i hl
    -- a leader that was leader before: in the same term, with a log that has grown
    have hold : (s.node i).state = .leader → (s'.node i).currentTerm = (s.node i).currentTerm →
        ∃ e, (s'.log i).getLast? = some e ∧ e.term = (s'.node i).currentTerm := by
      intro hlead hcur
      obtain ⟨e, he, hterm⟩ := hinv i hlead
      rcases step_later hodd hord hr hok hs i with hlt | ⟨_, _, _, hle⟩
      · omega
      · have hmem : e ∈ s'.log i := (hle hlead hl).subset (List.mem_of_getLast? he)
        obtain ⟨d, hd⟩ : ∃ d, (s'.log i).getLast? = some d :=
          Option.isSome_iff_exists.mp (by
            rw [List.getLast?_isSome]
            exact List.ne_nil_of_mem hmem)
        have hnext : Reaches E M store threshold ok ((s, st) :: past) s' := .next hr hok hs
        obtain ⟨hsort, hbound⟩ := hnext.sorted hodd hord i
        have h1 : e.term ≤ d.term := hsort.le_last hd hmem
        have h2 := hbound d (List.mem_of_getLast? hd)
        exact ⟨d, hd, by omega⟩
    cases step_leads hs hl with
    | still hlead hterm => exact hold hlead hterm
    | elected _ _ _ hcand _ =>
      have hnot : (s.node i).state ≠ .leader := by rw [hcand]; simp
      cases hr.logStep hodd hord hok hs i with
      | same _ hled _ => exact absurd (hled hl) hnot
      | grew heq _ _ hnew _ => exact ⟨_, by rw [heq, List.getLast?_concat], hnew⟩
      | spliced _ _ _ _ _ hstate _ _ => exact absurd (hstate hl) hnot

/-! ## What was acknowledged -/

theorem acked_cases {v : NodeID} {t : Nat} {X : List LogEntry}
    (h : (history ((s, st) :: past) s').Acked v t X) :
    (history past s).Acked v t X ∨ (s'.node v).currentTerm = t ∧ X <+: s'.log v := by
  obtain ⟨l, ⟨τ, hτ, ht, rfl⟩, hle, hlast⟩ := h
  rcases Lib.mem_visited_cons.mp hτ with rfl | hτ
  · exact Or.inr ⟨ht, hle⟩
  · exact Or.inl ⟨_, ⟨τ, hτ, ht, rfl⟩, hle, hlast⟩

/-- Acknowledgements of a term the node has left are old. -/
theorem acked_of_lt {v : NodeID} {t : Nat} {X : List LogEntry}
    (h : (history ((s, st) :: past) s').Acked v t X) (hlt : t < (s'.node v).currentTerm) :
    (history past s).Acked v t X := by
  rcases acked_cases h with h | ⟨h, _⟩
  · exact h
  · omega

theorem lacked_mono {t u u' : Nat} {X : List LogEntry} (h : (history past s).Lacked t u X)
    (hle : u ≤ u') : (history ((s, st) :: past) s').Lacked t u' X := by
  obtain ⟨w, l, htw, hwu, hled, hnot⟩ := h
  exact ⟨w, l, htw, hwu.trans hle, led_mono hled, hnot⟩

theorem Source.led {c : AppendCall} {τ : Cluster σ} (h : Source past s c τ) :
    (history past s).led c.req.term (τ.log c.src) :=
  ⟨τ, h.visited, c.src, h.leader, h.term, rfl⟩

/-- What was acknowledged in a term is part of a log of the term's leader. -/
theorem Reaches.acked_led (hodd : M.ids.length % 2 = 1) (hord : Orderly ok)
    (h : Reaches E M store threshold ok past s) {v : NodeID} {t : Nat} {X : List LogEntry}
    (hX : (history past s).Acked v t X) : t ≤ (s.node v).currentTerm ∧
      ∃ l, (history past s).led t l ∧ X <+: l := by
  obtain ⟨l, ⟨τ, hτ, ht, rfl⟩, hle, e, he, het⟩ := hX
  constructor
  · rw [← ht]
    exact h.term_le hord.metaDurable hτ v
  · rw [← het]
    exact ((h.traced hodd hord hτ v).of_le hle).whole he

/-- **What a node acknowledged it keeps**, unless a later leader lacked it. -/
theorem Reaches.kept (hodd : M.ids.length % 2 = 1) (hord : Orderly ok)
    (h : Reaches E M store threshold ok past s) {v : NodeID} {t : Nat} {X : List LogEntry}
    (hX : (history past s).Acked v t X) :
    X <+: s.log v ∨ (history past s).Lacked t (s.node v).currentTerm X := by
  refine Reaches.invariant (P := fun past s => ∀ v t X, (history past s).Acked v t X →
    X <+: s.log v ∨ (history past s).Lacked t (s.node v).currentTerm X) ?_ ?_ h v t X hX
  · rintro v t X ⟨l, ⟨τ, hτ, ht, rfl⟩, hle, _⟩
    rw [List.mem_singleton.mp hτ] at hle
    exact Or.inl hle
  · intro past s st s' hr hinv hok hs v t X hX
    have hterm := step_term hord hr hok hs v
    rcases acked_cases hX with hX | ⟨_, hle⟩
    · rcases hinv v t X hX with hle | hlack
      · cases hr.logStep hodd hord hok hs v with
        | same heq _ _ =>
          rw [heq]
          exact Or.inl hle
        | grew heq _ _ _ _ =>
          rw [heq]
          exact Or.inl (hle.trans (List.prefix_append _ _))
        | @spliced k c τ _ _ _ hsrc hnew _ hsplice _ =>
          obtain ⟨hle', l, hled, hXl⟩ := hr.acked_led hodd hord hX
          by_cases hcomp : X <+: τ.log c.src ∨ τ.log c.src <+: X
          · exact Or.inl (hsplice.keeps hle hcomp)
          · right
            rw [not_or] at hcomp
            refine ⟨c.req.term, τ.log c.src, lt_of_le_of_ne (by omega) ?_, hnew.ge,
              led_mono hsrc.led, hcomp.1⟩
            -- the leader of the term of `X` itself has a comparable log
            rintro rfl
            rcases hr.chain hodd hord hsrc.led hled with hle' | hle'
            · rcases Lib.comparable_of_le hXl hle' with h | h
              · exact hcomp.1 h
              · exact hcomp.2 h
            · exact hcomp.1 (hXl.trans hle')
      · exact Or.inr (lacked_mono hlack hterm)
    · exact Or.inl hle

/-! ## Votes -/

/-- How a step changes a ballot of node `v`, in memory or in the file. -/
inductive VoteMove (s : Cluster σ) (st : Step) (v : NodeID) (b : Nat × NodeID) : Prop
  | same (h : b = (s.node v).ballot)
  | cleared (h : b.2 = [])
  | own (h : b = ((s.node v).currentTerm + 1, (s.node v).id))
  | granted {k : Nat} {c : VoteCall} (hst : st.action? = some (.handleVote k))
      (hk : s.voteCalls[k]? = some c) (hdst : c.dst = v) (h : b = (c.req.term, c.req.candidateID))
      (hle : (s.node v).currentTerm ≤ c.req.term)
      (hup : RaftNode.candidateUpToDate (s.node v).raftLog c.req)

theorem Joins.vote {v : NodeID} {written : Bool} {term : Nat}
    (hn : (s.node v).raftLog.loadMeta = (s.node v).ballot) (h : Joins written (s.node v) term m) :
    VoteMove s st v m.ballot ∧ VoteMove s st v m.raftLog.loadMeta := by
  cases h with
  | same _ => exact ⟨.same rfl, .same hn⟩
  | down _ =>
    refine ⟨.cleared rfl, ?_⟩
    cases written with
    | true => exact .cleared rfl
    | false => exact .same hn

theorem Joins.upToDate {written : Bool} {term : Nat} (h : Joins written n term m)
    {req : RequestVoteRequest} (hup : RaftNode.candidateUpToDate m.raftLog req) :
    RaftNode.candidateUpToDate n.raftLog req := by
  cases h with
  | same _ => exact hup
  | down _ => cases written <;> exact hup

/-- Both ballots of a node whose ballot has not changed. -/
theorem VoteMove.of_same {v : NodeID} (hn : (s.node v).raftLog.loadMeta = (s.node v).ballot)
    (hterm : n.currentTerm = (s.node v).currentTerm) (hvote : n.votedFor = (s.node v).votedFor)
    (hfile : n.raftLog.loadMeta = (s.node v).raftLog.loadMeta) :
    VoteMove s st v n.ballot ∧ VoteMove s st v n.raftLog.loadMeta :=
  ⟨.same (Prod.ext hterm hvote), .same (hfile.trans hn)⟩

theorem Move.vote {disk : Disk} {a : Action} {v : NodeID} (hst : st.action? = some a)
    (hnames : Named M s) (hn : (s.node v).raftLog.loadMeta = (s.node v).ballot) (h : Move E M disk s a v n) :
    VoteMove s st v n.ballot ∧ VoteMove s st v n.raftLog.loadMeta := by
  have hjoin : ∀ {written : Bool} {term : Nat} {m : RaftNode σ},
      Joins written (s.node v) term m → n.currentTerm = m.currentTerm → n.votedFor = m.votedFor →
      n.raftLog.loadMeta = m.raftLog.loadMeta →
      VoteMove s st v n.ballot ∧ VoteMove s st v n.raftLog.loadMeta := by
    intro written term m hm hterm hvote hfile
    have hb : n.ballot = m.ballot := Prod.ext hterm hvote
    rw [hb, hfile]
    exact hm.vote hn
  cases h with
  | panic =>
    exact VoteMove.of_same hn (congrArg Prod.fst hn) (congrArg Prod.snd hn) RaftLog.loadMeta_newRaftLog
  | down _ ht => exact hjoin (.down ht) rfl rfl rfl
  | timeout hi _ _ =>
    refine ⟨.own rfl, ?_⟩
    change VoteMove s st v ((s.node v).raftLog.saveMeta _ _ _).loadMeta
    rw [RaftLog.loadMeta_saveMeta, hnames.own hi]
    split
    · exact .own rfl
    · exact .same hn
  | @grant k c m hk _ hm _ hup =>
    have hb : ({ m with
        votedFor := c.req.candidateID
        raftLog := m.raftLog.saveMeta (disk 1) m.currentTerm c.req.candidateID } :
        RaftNode σ).ballot = (c.req.term, c.req.candidateID) := Prod.ext hm.term_eq rfl
    have hgrant : VoteMove s st c.dst (c.req.term, c.req.candidateID) :=
      .granted hst hk rfl rfl hm.le (hm.upToDate hup)
    refine ⟨by rw [hb]; exact hgrant, ?_⟩
    change VoteMove s st c.dst (m.raftLog.saveMeta _ _ _).loadMeta
    rw [RaftLog.loadMeta_saveMeta, hm.term_eq, hnames.candidateID (List.mem_of_getElem? hk)]
    split
    · exact hgrant
    · exact (hm.vote hn).2
  | lead _ _ _ =>
    refine VoteMove.of_same hn rfl rfl ?_
    change (((s.node v).raftLog.append (disk 0) (s.node v).noopEntry).getD _).loadMeta = _
    cases hap : (s.node v).raftLog.append (disk 0) (s.node v).noopEntry with
    | none => rfl
    | some rl => exact RaftLog.loadMeta_append hap
  | propose _ hrl => exact VoteMove.of_same hn rfl rfl (RaftLog.loadMeta_append hrl)
  | mismatch _ _ hm => exact hjoin hm rfl rfl rfl
  | splice _ _ hm _ _ => exact hjoin hm rfl rfl (RaftLog.loadMeta_appendEntries _ _ _ _ _)
  | restore _ hm => exact hjoin hm rfl rfl rfl
  | install _ hm hrl => exact hjoin hm rfl rfl (RaftLog.loadMeta_compact hrl)
  | @apply i k gs =>
    have ho := RaftNode.onlyApplies_applyCommitted E disk { s.node v with goroutines := gs }
    exact VoteMove.of_same hn ho.currentTerm ho.votedFor (congrArg RaftLog.loadMeta ho.raftLog)
  | compact _ hrl => exact VoteMove.of_same hn rfl rfl (RaftLog.loadMeta_compact hrl)
  | _ => exact VoteMove.of_same hn rfl rfl rfl

/-- **How a vote is cast.** -/
theorem step_vote (hord : Orderly ok) (h : Reaches E M store threshold ok past s)
    (hs : s.step E M st = some s') (v : NodeID) : VoteMove s st v (s'.node v).ballot := by
  refine forall_node_of_moved (P := fun v n => VoteMove s st v n.ballot) hs (fun _ => .same rfl)
    (fun v n hmoved => ?_) v
  have hn := h.saved hord.metaDurable v
  cases hmoved with
  | act hmove => exact (hmove.vote rfl h.named hn).1
  | crash => exact .same hn
  | crashDuring _ hmove => exact (hmove.vote rfl h.named hn).2
  | applyRead hmove _ => exact (hmove.vote rfl h.named hn).1

/-- How a vote for `x` in term `t` has come about: it was there before the step, or the step starts an
election of the voter, or it grants a request of `x`. -/
inductive VoteCast (past : List (Cluster σ × Step)) (s : Cluster σ) (st : Step) (v : NodeID) (t : Nat)
    (x : NodeID) : Prop
  | old (h : Voted past s v t x)
  | own (hx : x = v) (ht : t = (s.node v).currentTerm + 1)
  | granted {k : Nat} {c : VoteCall} (hst : st.action? = some (.handleVote k)) (hc : c ∈ s.voteCalls)
      (hsrc : c.src = x) (ht : c.req.term = t) (hle : (s.node v).currentTerm ≤ t)
      (hup : RaftNode.candidateUpToDate (s.node v).raftLog c.req)

theorem Reaches.voteCast (hord : Orderly ok) (h : Reaches E M store threshold ok past s)
    (hs : s.step E M st = some s') {v x : NodeID} {t : Nat} (hx : x ≠ [])
    (hv : Voted ((s, st) :: past) s' v t x) : VoteCast past s st v t x := by
  obtain ⟨τ, hτ, hb⟩ := hv
  rcases Lib.mem_visited_cons.mp hτ with rfl | hτ
  · have hvote := step_vote hord h hs v
    rw [hb] at hvote
    cases hvote with
    | same hold => exact .old ⟨s, Lib.self_mem_visited _ _, hold.symm⟩
    | cleared hnone => exact absurd hnone hx
    | own hown =>
      obtain ⟨ht, hid⟩ := Prod.mk.inj hown
      exact .own (hid.trans (h.identity v).1) ht
    | granted hst hk _ hreq hle hup =>
      have hc := List.mem_of_getElem? hk
      obtain ⟨ht, hcand⟩ := Prod.mk.inj hreq
      refine .granted hst hc ?_ ht.symm (by rw [ht]; exact hle) hup
      rw [hcand, (h.voteCall_ends hc).2.2]
  · exact .old ⟨τ, hτ, hb⟩

/-- A voter has reached the term of its vote. -/
theorem Reaches.voted_le (hord : Orderly ok) (h : Reaches E M store threshold ok past s)
    {v x : NodeID} {t : Nat} (hv : Voted past s v t x) : t ≤ (s.node v).currentTerm := by
  obtain ⟨τ, hτ, hb⟩ := hv
  have hle := h.term_le hord.metaDurable hτ v
  rwa [show (τ.node v).currentTerm = t from congrArg Prod.fst hb] at hle

/-- A candidate keeps its log as long as its term has no leader. -/
theorem Reaches.candidate_keeps (hodd : M.ids.length % 2 = 1) (hord : Orderly ok)
    (h : Reaches E M store threshold ok past s) (hok : ok s st) (hs : s.step E M st = some s')
    (hcand : (s'.node i).state = .candidate)
    (hno : ¬ ∃ l, (history past s).led (s'.node i).currentTerm l) : s'.log i = s.log i := by
  cases h.logStep hodd hord hok hs i with
  | same heq _ _ => exact heq
  | grew _ hrole _ _ _ =>
    rw [hrole] at hcand
    exact absurd hcand (by simp)
  | spliced _ _ _ hsrc hterm _ _ _ => exact absurd ⟨_, hterm ▸ hsrc.led⟩ hno

theorem not_led_of_not_led {t : Nat} (h : ¬ ∃ l, (history ((s, st) :: past) s').led t l) :
    ¬ ∃ l, (history past s).led t l := fun ⟨l, hl⟩ => h ⟨l, led_mono hl⟩

/-- A RequestVote request is not ahead of its sender, and as long as the sender is candidate in its
term and the term has no leader, it describes the sender's log. -/
structure VoteRequest (past : List (Cluster σ × Step)) (s : Cluster σ) (c : VoteCall) : Prop where
  term_le : c.req.term ≤ (s.node c.src).currentTerm
  log : (s.node c.src).state = .candidate → (s.node c.src).currentTerm = c.req.term →
    (¬ ∃ l, (history past s).led c.req.term l) →
    c.req.lastLogIndex = (s.log c.src).length ∧
      c.req.lastLogTerm = termOf (s.log c.src) (s.log c.src).length

theorem Reaches.voteRequest (hodd : M.ids.length % 2 = 1) (hord : Orderly ok)
    (h : Reaches E M store threshold ok past s) {c : VoteCall} (hc : c ∈ s.voteCalls) :
    VoteRequest past s c := by
  refine Reaches.invariant (P := fun past s => ∀ c ∈ s.voteCalls, VoteRequest past s c) ?_ ?_ h c hc
  · exact fun c hc => absurd hc List.not_mem_nil
  · intro past s st s' hr hinv hok hs c' hc'
    obtain ⟨k, hk⟩ := List.mem_iff_getElem?.mp hc'
    have hterm := step_term hord hr hok hs c'.src
    rcases (step_voteCall hs hk).origin with ⟨c, hc, hsrc, _, hreq⟩ | hsent
    · obtain ⟨hle, hlog⟩ := hinv c hc
      rw [← hsrc, ← hreq] at hle hlog
      refine ⟨hle.trans hterm, fun hcand hcur hno => ?_⟩
      have hno' := not_led_of_not_led hno
      rw [hr.candidate_keeps hodd hord hok hs hcand (by rw [hcur]; exact hno')]
      cases step_stands hs hcand with
      | still hcand hsame => exact hlog hcand (by rw [← hsame]; exact hcur) hno'
      | started _ _ hn =>
        have : (s'.node c'.src).currentTerm = (s.node c'.src).currentTerm + 1 := by rw [hn]; rfl
        omega
    · obtain ⟨disk, i, p, rfl, _, _, rfl⟩ := hsent
      have hnode : s'.node i = ((s.node i).startElection disk).1 := by
        cases step_cases hs with
        | act hx =>
          cases hx with
          | timeout _ _ _ => exact setNode_self s i _
      have hes := (hord.shape hr).holds_log i
      refine ⟨by rw [hnode]; exact le_refl _, fun hcand hcur hno => ?_⟩
      have hno' := not_led_of_not_led hno
      rw [hr.candidate_keeps hodd hord hok hs hcand (by rw [hcur]; exact hno')]
      exact ⟨hes.lastIndex, hes.lastTerm⟩

/-- A vote is not ahead of the node it was cast for. -/
theorem Reaches.vote_le (hodd : M.ids.length % 2 = 1) (hord : Orderly ok)
    (h : Reaches E M store threshold ok past s) {v x : NodeID} {t : Nat} (hx : x ≠ [])
    (hv : Voted past s v t x) : t ≤ (s.node x).currentTerm := by
  refine Reaches.invariant (P := fun past s => ∀ v x t, x ≠ [] → Voted past s v t x →
    t ≤ (s.node x).currentTerm) ?_ ?_ h v x t hx hv
  · rintro v x t hx ⟨τ, hτ, hb⟩
    rw [List.mem_singleton.mp hτ] at hb
    exact absurd (congrArg Prod.snd hb).symm hx
  · intro past s st s' hr hinv hok hs v x t hx hv
    have hnext : Reaches E M store threshold ok ((s, st) :: past) s' := .next hr hok hs
    have hterm := step_term hord hr hok hs x
    cases hr.voteCast hord hs hx hv with
    | old hv => exact (hinv v x t hx hv).trans hterm
    | own hxv _ =>
      -- a node's own vote
      subst hxv
      exact hnext.voted_le hord hv
    | granted _ hc hsrc ht _ _ =>
      subst hsrc
      rw [← ht]
      exact (hr.voteRequest hodd hord hc).term_le.trans hterm

theorem termOf_length (past : List (Cluster σ × Step)) (s : Cluster σ) (l : List LogEntry) :
    termOf l l.length = (history past s).lastTerm l := by
  unfold termOf Lib.LogHistory.lastTerm
  rw [List.getLast?_eq_getElem?]
  split
  · rename_i h
    rw [List.eq_nil_of_length_eq_zero h]
    rfl
  · rfl

/-- A voter that grants its vote passes on what it holds. -/
theorem Reaches.grant_carries (hodd : M.ids.length % 2 = 1) (hord : Orderly ok)
    (h : Reaches E M store threshold ok past s) {v x : NodeID} {t u : Nat} {X : List LogEntry}
    {req : RequestVoteRequest} (hup : RaftNode.candidateUpToDate (s.node v).raftLog req)
    (hidx : req.lastLogIndex = (s.log x).length)
    (hlast : req.lastLogTerm = termOf (s.log x) (s.log x).length)
    (hu : (s.node x).currentTerm = u) (hv : (s.node v).currentTerm ≤ u)
    (hX : (history past s).Acked v t X) : X <+: s.log x ∨ (history past s).Lacked t u X := by
  have hvs := (hord.shape h).holds_log v
  have hself := Lib.self_mem_visited past s
  rcases h.kept hodd hord hX with hle | ⟨w, l, htw, hwu, hled, hnot⟩
  · obtain ⟨_, _, _, e, he, het⟩ := hX
    refine Lib.LogHistory.vote_carries (h.chain hodd hord) (h.traced hodd hord hself v)
      (h.sorted hodd hord v).1 (h.traced hodd hord hself x) ?_ hle he het
      (fun e he => hvs.listed.term_pos he) ?_
    · rw [← hu]
      exact (h.sorted hodd hord x).2
    · unfold RaftNode.candidateUpToDate at hup
      rw [hvs.lastTerm, hvs.lastIndex, hidx, hlast, termOf_length past s,
        termOf_length past s] at hup
      exact hup
  · exact Or.inr ⟨w, l, htw, hwu.trans hv, hled, hnot⟩

/-- **A vote carries what the voter acknowledged** into the candidate's log, as long as the candidate
has not won and the term has no leader. -/
theorem Reaches.carried (hodd : M.ids.length % 2 = 1) (hord : Orderly ok)
    (h : Reaches E M store threshold ok past s) {v x : NodeID} (hx : x ≠ [])
    (hcand : (s.node x).state = .candidate) (hv : Voted past s v (s.node x).currentTerm x)
    (hno : ¬ ∃ l, (history past s).led (s.node x).currentTerm l) {t : Nat} {X : List LogEntry}
    (ht : t < (s.node x).currentTerm) (hX : (history past s).Acked v t X) :
    X <+: s.log x ∨ (history past s).Lacked t (s.node x).currentTerm X := by
  refine Reaches.invariant (P := fun past s => ∀ v x, x ≠ [] → (s.node x).state = .candidate →
    Voted past s v (s.node x).currentTerm x → (¬ ∃ l, (history past s).led (s.node x).currentTerm l) →
    ∀ t X, t < (s.node x).currentTerm → (history past s).Acked v t X →
      X <+: s.log x ∨ (history past s).Lacked t (s.node x).currentTerm X)
    ?_ ?_ h v x hx hcand hv hno t X ht hX
  · exact fun v x _ hcand => absurd hcand (by simp [init])
  · intro past s st s' hr hinv hok hs v x hx hcand hv hno t X ht hX
    have hnext : Reaches E M store threshold ok ((s, st) :: past) s' := .next hr hok hs
    have hno' := not_led_of_not_led hno
    have hlog := hr.candidate_keeps hodd hord hok hs hcand hno'
    cases step_stands hs hcand with
    | @started disk hst _ hn =>
      -- the election has just started: the vote is the candidate's own
      have hcur : (s'.node x).currentTerm = (s.node x).currentTerm + 1 := by rw [hn]; rfl
      cases hr.voteCast hord hs hx hv with
      | old hv =>
        have := hr.vote_le hodd hord hx hv
        omega
      | own hxv _ =>
        subst hxv
        exact hnext.kept hodd hord hX
      | granted hst' _ _ _ _ _ =>
        rw [hst] at hst'
        exact absurd hst' (by simp [Step.action?])
    | still hcand hsame =>
      rw [hsame] at hv ht hno hno' ⊢
      rw [hlog]
      -- the voter has reached the term of the vote, so nothing older is acknowledged any more
      have hvt : (s.node x).currentTerm ≤ (s'.node v).currentTerm := hnext.voted_le hord hv
      have hX' := acked_of_lt hX (lt_of_lt_of_le ht hvt)
      cases hr.voteCast hord hs hx hv with
      | old hv =>
        exact (hinv v x hx hcand hv hno' t X ht hX').imp id fun h => lacked_mono h (le_refl _)
      | own hxv hcur =>
        subst hxv
        omega
      | granted _ hc hsrc hterm hle hup =>
        subst hsrc
        obtain ⟨hidx, hlast⟩ := (hr.voteRequest hodd hord hc).log hcand hterm.symm
          (by rw [hterm]; exact hno')
        exact (hr.grant_carries hodd hord hup hidx hlast rfl hle hX').imp id
          fun h => lacked_mono h (le_refl _)

/-! ## Elections -/

/-- The leader's log was voted for by a majority, each of which passed on what it had acknowledged. -/
def Elected (M : Membership) (past : List (Cluster σ × Step)) (s : Cluster σ) (u : Nat)
    (l : List LogEntry) : Prop :=
  ∃ W, Lib.Majority M.ids W ∧ ∀ v ∈ W, u ≤ (s.node v).currentTerm ∧ ∀ t X, t < u →
    (history past s).Acked v t X → X <+: l ∨ (history past s).Lacked t (u - 1) X

theorem Elected.mono (hord : Orderly ok) (h : Reaches E M store threshold ok past s) (hok : ok s st)
    (hs : s.step E M st = some s') {u : Nat} {l l' : List LogEntry} (hle : l <+: l')
    (hel : Elected M past s u l) : Elected M ((s, st) :: past) s' u l' := by
  obtain ⟨W, hW, hv⟩ := hel
  refine ⟨W, hW, fun v hvW => ?_⟩
  obtain ⟨hu, hcarry⟩ := hv v hvW
  have hu' := hu.trans (step_term hord h hok hs v)
  refine ⟨hu', fun t X ht hX => ?_⟩
  exact (hcarry t X ht (acked_of_lt hX (lt_of_lt_of_le ht hu'))).imp (fun h => h.trans hle)
    fun h => lacked_mono h (le_refl _)

/-- The election that made a leader. -/
theorem Reaches.elected_step (hodd : M.ids.length % 2 = 1) (hord : Orderly ok)
    (h : Reaches E M store threshold ok past s) (hok : ok s st) (hs : s.step E M st = some s')
    {disk : Disk} {el : RaftNode.Election} (hst : st = .act disk (.finishElection i))
    (hel : s.election i = some el) (hwon : el.won = true) (hold : (s.node i).state = .candidate)
    (hl : (s'.node i).state = .leader) (hterm : (s'.node i).currentTerm = (s.node i).currentTerm) :
    Elected M ((s, st) :: past) s' (s'.node i).currentTerm (s'.log i) := by
  have hnext : Reaches E M store threshold ok ((s, st) :: past) s' := .next h hok hs
  obtain ⟨W, hW⟩ := h.poll hel
  have hcur := h.election_term hel hold
  -- the term had no leader before: it would be the candidate itself
  have hno : ¬ ∃ l, (history past s).led (s.node i).currentTerm l := by
    rintro ⟨l, τ, hτ, y, hy, hyt, _⟩
    have hτ' : τ ∈ Lib.visited ((s, st) :: past) s' := Lib.mem_visited_cons.mpr (Or.inr hτ)
    obtain rfl := hnext.leader_unique hodd hord.metaDurable hτ' (Lib.self_mem_visited _ _) hy hl
      (by rw [hyt, hterm])
    rcases h.later hodd hord hτ y with hlt | ⟨_, _, hnc, _⟩
    · omega
    · exact hnc hy hold
  have hle : s.log i <+: s'.log i := by
    cases h.logStep hodd hord hok hs i with
    | same heq _ _ => rw [heq]
    | grew heq _ _ _ _ =>
      rw [heq]
      exact List.prefix_append _ _
    | spliced hst' _ _ _ _ _ _ _ =>
      rw [hst] at hst'
      exact absurd hst' (by simp [Step.action?])
  refine ⟨W, hW.majority hodd hwon, fun v hv => ?_⟩
  have hvoted := hW.voted v hv
  rw [hcur] at hvoted
  rw [hterm]
  have hvt : (s.node i).currentTerm ≤ (s'.node v).currentTerm :=
    (h.voted_le hord hvoted).trans (step_term hord h hok hs v)
  refine ⟨hvt, fun t X ht hX => ?_⟩
  rcases h.carried hodd hord (ne_nil_of_mem hW.member) hold hvoted hno ht
    (acked_of_lt hX (lt_of_lt_of_le ht hvt)) with hX | ⟨w, l, htw, hwu, hled, hnot⟩
  · exact Or.inl (hX.trans hle)
  · have hne : w ≠ (s.node i).currentTerm := by
      rintro rfl
      exact hno ⟨l, hled⟩
    exact Or.inr ⟨w, l, htw, by omega, led_mono hled, hnot⟩

/-- **Every log of every leader was voted for.** -/
theorem Reaches.elected (hodd : M.ids.length % 2 = 1) (hord : Orderly ok)
    (h : Reaches E M store threshold ok past s) {u : Nat} {l : List LogEntry}
    (hl : (history past s).led u l) : Elected M past s u l := by
  refine Reaches.invariant (P := fun past s => ∀ u l, (history past s).led u l →
    Elected M past s u l) ?_ ?_ h u l hl
  · rintro u l ⟨τ, hτ, x, hx, _⟩
    rw [List.mem_singleton.mp hτ] at hx
    exact absurd hx (by simp [init])
  · rintro past s st s' hr hinv hok hs u l ⟨τ, hτ, x, hx, rfl, rfl⟩
    rcases Lib.mem_visited_cons.mp hτ with rfl | hτ
    · cases step_leads hs hx with
      | still hlead hterm =>
        have hbefore := hinv _ _ ⟨s, Lib.self_mem_visited _ _, x, hlead, rfl, rfl⟩
        rw [hterm]
        rcases step_later hodd hord hr hok hs x with hlt | ⟨_, _, _, hle⟩
        · omega
        · exact hbefore.mono hord hr hok hs (hle hlead hx)
      | elected hst hel hwon hold hterm =>
        exact hr.elected_step hodd hord hok hs hst hel hwon hold hx hterm
    · exact (hinv _ _ ⟨τ, hτ, x, hx, rfl, rfl⟩).mono hord hr hok hs (List.prefix_refl _)

/-- **The history of an orderly run is that of a replicated log.** -/
theorem Reaches.coherent (hodd : M.ids.length % 2 = 1) (hord : Orderly ok)
    (h : Reaches E M store threshold ok past s) : (history past s).Coherent M.ids where
  chain := h.chain hodd hord
  sorted := by
    rintro v t l ⟨τ, hτ, _, rfl⟩
    exact (h.sorted_visited hodd hord hτ v).1
  traced := by
    rintro v t l ⟨τ, hτ, _, rfl⟩
    exact h.traced hodd hord hτ v
  elected hl := by
    obtain ⟨W, hW, hv⟩ := h.elected hodd hord hl
    exact ⟨W, hW, fun v hvW => (hv v hvW).2⟩

end Cluster

end Raftrix
