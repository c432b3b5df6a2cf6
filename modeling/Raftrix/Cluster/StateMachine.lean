import Raftrix.Cluster.Apply
import Raftrix.Cluster.LeaderCompleteness

/-!
# State machine safety

A node commits what a majority has acknowledged, directly as leader (`Reaches.committed`) or by taking
over `LeaderCommit` together with the leader's log. In a run as in `Cluster/LeaderCompleteness.lean`,
whose cut-off tails moreover lie above the `LeaderCommit` of the request that cuts them
(`CommitsStored`), every node holds what it has committed (**`Reaches.covered`**). So `applyCommitted`
finds every entry, and what it applies at an index is the committed entry (`Reaches.applied`).

**`state_machine_safety`**: where two nodes have passed an index, both have applied a command there,
and no node has ever applied another one. Without the conditions a node can pass an index without
applying anything (`passed_without_applying`).
-/

namespace Raftrix

namespace Cluster

variable {σ : Type} {E : Engine σ} {M : Membership} {s s' : Cluster σ} {st : Step} {i : NodeID}
  {store : NodeID → σ} {threshold : NodeID → Int} {ok : Cluster σ → Step → Prop}
  {past : List (Cluster σ × Step)}

/-- An admitted request whose last entry conflicts does not ask the follower to commit that entry. -/
def CommitsStored : Cluster σ → Step → Prop :=
  OnAdmitted fun n req => LastConflicts n.raftLog req →
    req.leaderCommit < req.prevLogIndex + req.entries.length

instance (s : Cluster σ) (st : Step) : Decidable (CommitsStored s st) :=
  inferInstanceAs (Decidable (OnAdmitted _ s st))

/-- The steps are faithful, and followers commit only what they store. -/
structure Settled (ok : Cluster σ → Step → Prop) : Prop extends Faithful ok where
  stored : ∀ s st, ok s st → CommitsStored s st

/-! ## What is committed is held -/

/-- The first `c` entries of the log `l` are part of what a majority acknowledged in a term up to
`t`. -/
def Covered (M : Membership) (past : List (Cluster σ × Step)) (s : Cluster σ) (l : List LogEntry)
    (t c : Nat) : Prop :=
  c = 0 ∨ ∃ u X, (history past s).Committed M.ids u X ∧ u ≤ t ∧ c ≤ X.length ∧ X.take c <+: l

theorem committed_mono {earlier : List (Cluster σ × Step)} {τ : Cluster σ}
    (hsub : ∀ ω ∈ Lib.visited earlier τ, ω ∈ Lib.visited past s) {t : Nat} {X : List LogEntry}
    (h : (history earlier τ).Committed M.ids t X) : (history past s).Committed M.ids t X := by
  obtain ⟨Q, hQ, hack⟩ := h
  exact ⟨Q, hQ, fun v hv => acked_mono hsub (hack v hv)⟩

theorem visited_sub : ∀ ω ∈ Lib.visited past s, ω ∈ Lib.visited ((s, st) :: past) s' :=
  fun _ hω => Lib.mem_visited_cons.mpr (Or.inr hω)

theorem Covered.mono {l l' : List LogEntry} {t t' c : Nat} (h : Covered M past s l t c)
    (hl : l <+: l') (ht : t ≤ t') : Covered M ((s, st) :: past) s' l' t' c := by
  rcases h with h | ⟨u, X, hX, hu, hc, hle⟩
  · exact Or.inl h
  · exact Or.inr ⟨u, X, committed_mono visited_sub hX, hu.trans ht, hc, hle.trans hl⟩

theorem Covered.le_length {l : List LogEntry} {t c : Nat} (h : Covered M past s l t c) :
    c ≤ l.length := by
  rcases h with h | ⟨_, X, _, _, hc, hle⟩
  · omega
  · have := hle.length_le
    rw [List.length_take_of_le hc] at this
    exact this

theorem ids_ne_nil (hodd : M.ids.length % 2 = 1) : M.ids ≠ [] := by
  intro h
  rw [h] at hodd
  exact absurd hodd (by simp)

/-- What a follower has committed survives the splice with a leader's log. -/
theorem Reaches.covered_splice (hodd : M.ids.length % 2 = 1) (hord : Orderly ok)
    (h : Reaches E M store threshold ok past s) {l l₀ l₁ : List LogEntry} {t u c : Nat}
    (hcov : Covered M past s l₀ t c) (htu : t ≤ u) (hled : (history past s).led u l)
    (hsplice : Lib.Splice LogEntry.term l₀ l l₁) : Covered M past s l₁ u c := by
  rcases hcov with h0 | ⟨w, X, hX, hw, hc, hle⟩
  · exact Or.inl h0
  · refine Or.inr ⟨w, X, hX, hw.trans htu, hc, hsplice.keeps hle ?_⟩
    rcases (h.coherent hodd hord).committed_comparable_led (ids_ne_nil hodd) hX (hw.trans htu) hled
      with hXl | hlX
    · exact Or.inl ((List.take_prefix c X).trans hXl)
    · exact Lib.comparable_of_le (List.take_prefix c X) hlX

/-- What a leader had committed, in the log of a follower that has taken over the leader's. -/
theorem Covered.follow {l l₁ : List LogEntry} {t c : Nat} (h : Covered M past s l t c)
    (hfull : l <+: l₁ ∨ l₁ = l.dropLast ∧ c < l.length) : Covered M past s l₁ t c := by
  rcases h with h0 | ⟨u, X, hX, hu, hc, hle⟩
  · exact Or.inl h0
  · refine Or.inr ⟨u, X, hX, hu, hc, ?_⟩
    rcases hfull with hfull | ⟨heq, hlt⟩
    · exact hle.trans hfull
    · rw [heq]
      exact Lib.le_dropLast hle (by rw [List.length_take_of_le hc]; exact hlt)

/-- **Every node holds what it has committed.** -/
theorem Reaches.covered (hodd : M.ids.length % 2 = 1) (hset : Settled ok)
    (h : Reaches E M store threshold ok past s) {τ : Cluster σ} (hτ : τ ∈ Lib.visited past s)
    (i : NodeID) :
    Covered M past s (τ.log i) (τ.node i).currentTerm (τ.node i).commitIndex := by
  have hf := hset.toFaithful
  have hord := hf.toOrderly
  refine Reaches.invariant (P := fun past s => ∀ τ ∈ Lib.visited past s, ∀ i,
    Covered M past s (τ.log i) (τ.node i).currentTerm (τ.node i).commitIndex) ?_ ?_ h τ hτ i
  · intro τ hτ i
    rw [List.mem_singleton.mp hτ]
    exact Or.inl rfl
  · intro past s st s' hr hinv hok hs τ hτ i
    rcases Lib.mem_visited_cons.mp hτ with rfl | hτ
    · have hold := hinv s (Lib.self_mem_visited _ _) i
      have hterm := step_term hord hr hok hs i
      cases hr.logStep hodd hord hok hs i with
      | same heq _ hcommit =>
        rw [heq]
        cases hcommit with
        | same h =>
          rw [h]
          exact hold.mono (List.prefix_refl _) hterm
        | reset h => exact Or.inl h
        | counted hst hk hrep hsrc hl hls hsucc hpos _ h =>
          subst hsrc
          obtain ⟨hle, hcom⟩ := hr.committed hodd hf hok hst hk hrep hl hls hsucc hpos h
          refine Or.inr ⟨_, _, committed_mono visited_sub hcom, hterm, ?_, ?_⟩
          · rw [List.length_take_of_le hle]
          · exact (List.take_prefix _ _).trans (List.take_prefix _ _)
      | grew heq _ _ _ hcommit =>
        rw [heq, hcommit]
        exact hold.mono (List.prefix_append _ _) hterm
      | @spliced k c ω hst hk hdst hsrc hnew _ hsplice hcommit =>
        rcases hcommit with h | h | ⟨hlt, heq, hfull⟩
        · rw [h, hnew]
          exact (hr.covered_splice hodd hord hold (by rw [← hnew]; exact hterm) hsrc.led
            hsplice).mono (List.prefix_refl _) (le_refl _)
        · exact Or.inl h
        · -- the leader's commit index lies within its log, so it is the new one
          have hlead := hinv ω hsrc.visited c.src
          have hmin : (τ.node i).commitIndex = (ω.node c.src).commitIndex := by
            rw [heq]
            exact Nat.min_eq_right hlead.le_length
          rw [hmin, hnew, ← hsrc.term]
          refine (hlead.follow (hfull.imp id ?_)).mono (List.prefix_refl _) (le_refl _)
          rintro ⟨hdrop, hadm, hconf, hlen⟩
          subst hdst
          have := (hset.stored s st hok).apply hst hk hadm hconf
          rw [hlen, hsrc.commit] at this
          exact ⟨hdrop, this⟩
    · exact (hinv τ hτ i).mono (List.prefix_refl _) (le_refl _)

/-! ## What is applied -/

/-- What a node has applied at an index is the committed entry, and it has applied something at every
index it has passed. -/
structure AppliedOk (M : Membership) (past : List (Cluster σ × Step)) (s : Cluster σ) : Prop where
  entry : ∀ x ∈ s.trace, 1 ≤ x.2.index ∧
    ∃ u X, (history past s).Committed M.ids u X ∧ X[x.2.index - 1]? = some x.2.entry
  passed : ∀ i j, 1 ≤ j → j ≤ (s.node i).lastApplied → ∃ a, (i, a) ∈ s.trace ∧ a.index = j

theorem applyEntry_event (E : Engine σ) (written : Bool) (n : RaftNode σ) (e : LogEntry) :
    (n.applyEntry E written e).2.index = n.lastApplied ∧
      (n.applyEntry E written e).2.entry = e := ⟨rfl, rfl⟩

/-- The committed entry at an index the node has committed. -/
theorem Covered.entry {l : List LogEntry} {t c k : Nat} (h : Covered M past s l t c) (hk : k < c) :
    ∃ e, l[k]? = some e ∧ ∃ u X, (history past s).Committed M.ids u X ∧ X[k]? = some e := by
  rcases h with h0 | ⟨u, X, hX, _, hc, hle⟩
  · omega
  · have hXk : X[k]? = some X[k] := List.getElem?_eq_getElem (by omega)
    refine ⟨X[k], Lib.getElem?_of_le hle ?_, u, X, hX, hXk⟩
    rw [List.getElem?_take_of_lt hk]
    exact hXk

/-- One run of `applyCommitted`. -/
theorem Reaches.applied_run (hodd : M.ids.length % 2 = 1) (hset : Settled ok)
    (h : Reaches E M store threshold ok past s) (hinv : AppliedOk M past s) (disk : Disk)
    (gs : List Goroutine) :
    (∀ a ∈ (({ s.node i with goroutines := gs }).applyCommitted E disk).2, 1 ≤ a.index ∧
      ∃ u X, (history past s).Committed M.ids u X ∧ X[a.index - 1]? = some a.entry) ∧
    ∀ j, 1 ≤ j → j ≤ (({ s.node i with goroutines := gs }).applyCommitted E disk).1.lastApplied →
      (∃ a, (i, a) ∈ s.trace ∧ a.index = j) ∨
        ∃ a ∈ (({ s.node i with goroutines := gs }).applyCommitted E disk).2, a.index = j := by
  have hord := hset.toFaithful.toOrderly
  have hes := (hord.shape h).holds_log i
  have hcov := h.covered hodd hset (Lib.self_mem_visited _ _) i
  have hla := h.lastApplied_le i
  -- the entry at the next index is there and committed
  have hnext : ∀ {k : Nat}, k < max (s.node i).commitIndex (s.node i).lastApplied → ∃ e,
      (s.node i).raftLog.get (k + 1) = some e ∧
        ∃ u X, (history past s).Committed M.ids u X ∧ X[k]? = some e := by
    intro k hk
    rw [hes.get_succ]
    exact hcov.entry (by omega)
  have hrun := applyCommitted_rounds E disk (n := { s.node i with goroutines := gs })
    (P := fun m done => m.raftLog = (s.node i).raftLog ∧
      (∀ a ∈ done, 1 ≤ a.index ∧
        ∃ u X, (history past s).Committed M.ids u X ∧ X[a.index - 1]? = some a.entry) ∧
      ∀ j, 1 ≤ j → j ≤ m.lastApplied → (∃ a, (i, a) ∈ s.trace ∧ a.index = j) ∨
        ∃ a ∈ done, a.index = j) ?_ ?_ ?_
  · exact hrun.2
  · rintro written m e done hget hlt ⟨hlog, hgood, hall⟩
    obtain ⟨hidx, hentry⟩ := applyEntry_event E written
      { m with lastApplied := m.lastApplied + 1 } e
    refine ⟨(RaftNode.onlyApplies_applyEntry E _ _ _).raftLog.trans hlog, fun a ha => ?_,
      fun j h1 hj => ?_⟩
    · rcases List.mem_append.mp ha with ha | ha
      · exact hgood a ha
      · rw [List.mem_singleton.mp ha, hidx, hentry]
        obtain ⟨e', he', hcom⟩ := hnext hlt
        rw [hlog, he'] at hget
        obtain rfl := Option.some.inj hget
        exact ⟨Nat.succ_pos _, hcom⟩
    · rw [RaftNode.lastApplied_applyEntry] at hj
      rcases Nat.lt_or_ge m.lastApplied j with hlast | hle
      · refine Or.inr ⟨_, List.mem_append_right _ List.mem_cons_self, ?_⟩
        rw [hidx]
        exact le_antisymm hlast hj
      · exact (hall j h1 hle).imp id fun ⟨a, ha, haj⟩ => ⟨a, List.mem_append_left _ ha, haj⟩
  · rintro m done hget hlt ⟨hlog, _⟩
    obtain ⟨e, he, _⟩ := hnext hlt
    rw [hlog, he] at hget
    exact absurd hget (by simp)
  · exact ⟨rfl, fun a ha => absurd ha List.not_mem_nil,
      fun j h1 hj => Or.inl (hinv.passed i j h1 hj)⟩

/-- **What is applied is committed**, in every state of a run. -/
theorem Reaches.applied (hodd : M.ids.length % 2 = 1) (hset : Settled ok)
    (h : Reaches E M store threshold ok past s) : AppliedOk M past s := by
  have hord := hset.toFaithful.toOrderly
  refine Reaches.invariant (P := fun past s => AppliedOk M past s) ?_ ?_ h
  · exact ⟨fun x hx => absurd hx List.not_mem_nil, fun i j h1 hj => absurd hj (by simp [init]; omega)⟩
  · intro past s st s' hr hinv hok hs
    have hentry : ∀ {e : LogEntry} {j : Nat},
        (∃ u X, (history past s).Committed M.ids u X ∧ X[j]? = some e) →
        ∃ u X, (history ((s, st) :: past) s').Committed M.ids u X ∧ X[j]? = some e := by
      rintro e j ⟨u, X, hX, he⟩
      exact ⟨u, X, committed_mono visited_sub hX, he⟩
    have hpassed : ∀ i j, (s'.node i).lastApplied = (s.node i).lastApplied → 1 ≤ j →
        j ≤ (s'.node i).lastApplied → ∃ a, (i, a) ∈ s'.trace ∧ a.index = j := by
      intro i j hlast h1 hj
      rw [hlast] at hj
      obtain ⟨a, ha, haj⟩ := hinv.passed i j h1 hj
      exact ⟨a, trace_mono hs ha, haj⟩
    rcases step_applied hs with ⟨htrace, hserve⟩ | ⟨i, ⟨disk, gs, gs', hnode, htrace⟩, hother⟩
    · refine ⟨fun x hx => ?_, fun i j h1 hj => ?_⟩
      · rw [htrace] at hx
        exact ⟨(hinv.entry x hx).1, hentry (hinv.entry x hx).2⟩
      · cases hserve i with
        | same _ _ hlast => exact hpassed i j hlast h1 hj
        | restarted _ _ hlast => omega
        | proposed _ _ _ _ hlast => exact hpassed i j hlast h1 hj
        | released _ _ _ _ hlast => exact hpassed i j hlast h1 hj
        | installed hc _ _ =>
          rw [(hord.shape hr).unsent] at hc
          exact absurd hc List.not_mem_nil
    · obtain ⟨hgood, hall⟩ := hr.applied_run hodd hset hinv (i := i) disk gs
      refine ⟨fun x hx => ?_, fun j k h1 hk => ?_⟩
      · rw [htrace] at hx
        rcases List.mem_append.mp hx with hx | hx
        · exact ⟨(hinv.entry x hx).1, hentry (hinv.entry x hx).2⟩
        · obtain ⟨a, ha, rfl⟩ := List.mem_map.mp hx
          exact ⟨(hgood a ha).1, hentry (hgood a ha).2⟩
      · by_cases hji : j = i
        · subst hji
          rw [hnode] at hk
          rcases hall k h1 hk with ⟨a, ha, hak⟩ | ⟨a, ha, hak⟩
          · exact ⟨a, trace_mono hs ha, hak⟩
          · refine ⟨a, ?_, hak⟩
            rw [htrace]
            exact List.mem_append_right _ (List.mem_map_of_mem ha)
        · exact hpassed j k (by rw [hother j hji]) h1 hk

/-! ## The theorem -/

/-- The condition of this module on the steps of a run. -/
def CarefulCommit (s : Cluster σ) (st : Step) : Prop :=
  (NoSnapshot s st ∧ NoGap s st ∧ FreshAck s st ∧ CommitsStored s st) ∧ DiskOk s st

theorem settled_carefulCommit : Settled (CarefulCommit (σ := σ)) where
  disk _ _ h := h.2
  snapshot _ _ h := h.1.1
  gap _ _ h := h.1.2.1
  ack _ _ h := h.1.2.2.1
  stored _ _ h := h.1.2.2.2

/-- **State machine safety.** In every run with working disks and without snapshots, whose admitted
requests conflict at their last entry at most and then do not ask to commit it, and whose leaders
count no misleading acknowledgement: where two nodes have passed index `i`, both have applied a command
at it, and every command any node has applied at `i` is the same one. -/
theorem state_machine_safety (hodd : M.ids.length % 2 = 1)
    (h : Reaches E M store threshold CarefulCommit past s) {x y : NodeID} {i : Nat} (h1 : 1 ≤ i)
    (hx : i ≤ (s.node x).lastApplied) (hy : i ≤ (s.node y).lastApplied) :
    ∃ cmd, (∃ a, (x, a) ∈ s.trace ∧ a.index = i) ∧ (∃ b, (y, b) ∈ s.trace ∧ b.index = i) ∧
      ∀ z a, (z, a) ∈ s.trace → a.index = i → a.entry.command = cmd := by
  have hset : Settled (CarefulCommit (σ := σ)) := settled_carefulCommit
  have happ := h.applied hodd hset
  obtain ⟨a, ha, hai⟩ := happ.passed x i h1 hx
  refine ⟨a.entry.command, ⟨a, ha, hai⟩, happ.passed y i h1 hy, fun z b hb hbi => ?_⟩
  obtain ⟨_, u, X, hX, hXa⟩ := happ.entry _ ha
  obtain ⟨_, w, Y, hY, hYb⟩ := happ.entry _ hb
  rw [hai] at hXa
  rw [hbi] at hYb
  rcases (h.coherent hodd hset.toFaithful.toOrderly).committed_comparable (ids_ne_nil hodd) hX hY
    with hle | hle
  · have := Lib.getElem?_of_le hle hXa
    rw [hYb] at this
    rw [Option.some.inj this]
  · have := Lib.getElem?_of_le hle hYb
    rw [hXa] at this
    rw [Option.some.inj this]

open Shipped (node1 node2 node3)

/-- `node-2` commits its two entries on the word of `node-1`, tells `node-1`, and both apply. -/
def skippedEntry : List Action :=
  overwriteTwo ++ [.appendReturn 0, .replicate node2 node1, .handleAppend 1, .resume node1 0,
    .resume node2 0]

/-- **A node passes an index without applying anything.** `node-1` has a hole at index 1; its
`lastApplied` moves past it, while `node-2` has applied its no-op there. -/
theorem passed_without_applying : ∃ past s,
    Shipped.Reaches (fun s st => NoSnapshot s st ∧ DiskOk s st) past s ∧
    (s.node node1).lastApplied = 1 ∧ (s.node node2).lastApplied = 2 ∧
    (∃ x ∈ s.trace, x.1 = node2 ∧ x.2.index = 1 ∧ x.2.entry = ⟨1, 2, .noop⟩) ∧
    ∀ x ∈ s.trace, x.1 ≠ node1 :=
  ⟨_, _, Shipped.reaches_play NoSnapshot skippedEntry, by decide +kernel, by decide +kernel,
    by decide +kernel, by decide +kernel⟩

/-- `node-1` commits and applies its no-op and tells `node-2`, which applies it too. -/
def appliedEntry : List Action :=
  commitOne ++ [.replicate node1 node2, .handleAppend 1, .resume node2 0]

/-- Two nodes have passed index 1 and have applied the same command. -/
theorem state_machine_safety_appliedEntry : ∃ past s, Shipped.Reaches CarefulCommit past s ∧
    (s.node node1).lastApplied = 1 ∧ (s.node node2).lastApplied = 1 ∧
    ∃ cmd, (∃ a, (node1, a) ∈ s.trace ∧ a.index = 1) ∧ (∃ b, (node2, b) ∈ s.trace ∧ b.index = 1) ∧
      ∀ z a, (z, a) ∈ s.trace → a.index = 1 → a.entry.command = cmd := by
  have hrun := Shipped.reaches_play (fun s st => NoSnapshot s st ∧ NoGap s st ∧ FreshAck s st ∧
    CommitsStored s st) appliedEntry
  have h1 : ((Shipped.play (fun s st => NoSnapshot s st ∧ NoGap s st ∧ FreshAck s st ∧
    CommitsStored s st) appliedEntry).2.node node1).lastApplied = 1 := by decide +kernel
  have h2 : ((Shipped.play (fun s st => NoSnapshot s st ∧ NoGap s st ∧ FreshAck s st ∧
    CommitsStored s st) appliedEntry).2.node node2).lastApplied = 1 := by decide +kernel
  exact ⟨_, _, hrun, h1, h2,
    state_machine_safety rfl hrun (le_refl 1) (by rw [h1]) (by rw [h2])⟩

end Cluster

end Raftrix
