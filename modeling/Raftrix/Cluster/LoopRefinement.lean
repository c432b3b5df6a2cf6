import Raftrix.Cluster.EventLoop
import Raftrix.Cluster.Reign
import Raftrix.Cluster.Roles

/-!
# The event loop against the cluster

`Model/Cluster.lean` lets elections start and requests leave at any moment. That is what the event loop
does:

* **`event_loop_exact`**: the runs that `run`, its timers and its goroutines show are the runs of the
  cluster, step for step and under any condition on the steps. So what is proved of all runs of the cluster
  holds of the event loop, and a run of the cluster that breaks a property is one the event loop has.
* **`run_never_stuck`**: wherever the loop is, it comes to an election or to a round of requests in a few
  steps of its own.
* **`leader_without_election_timer`**: a leader's election timer is stopped, and the branch of `run` that
  would reset it is never taken.
-/

namespace Raftrix

namespace Process

variable {σ : Type} {M : Membership} {i : NodeID} {n : RaftNode σ} {el : Option RaftNode.Election}
  {p p' : Process}

/-! ## What the loop comes to by itself -/

/-- The loop comes to a process with `P` in at most `k` steps of its own. -/
def Comes (n : RaftNode σ) (k : Nat) (P : Process → Prop) (p : Process) : Prop :=
  ∃ ls p', ls.length ≤ k ∧ p.loopSteps n ls = some p' ∧ P p'

theorem Comes.now {P : Process → Prop} (k : Nat) (h : P p) : Comes n k P p :=
  ⟨[], p, Nat.zero_le k, rfl, h⟩

theorem Comes.step {k : Nat} {P : Process → Prop} {l : LoopStep} (hl : p.loopStep n l = some p')
    (h : Comes n k P p') : Comes n (k + 1) P p := by
  obtain ⟨ls, q, hlen, hq, hP⟩ := h
  refine ⟨l :: ls, q, Nat.succ_le_succ hlen, ?_, hP⟩
  rw [loopSteps, hl]
  exact hq

theorem Comes.mono {k k' : Nat} {P : Process → Prop} (h : Comes n k P p) (hk : k ≤ k') :
    Comes n k' P p := by
  obtain ⟨ls, q, hlen, hq⟩ := h
  exact ⟨ls, q, hlen.trans hk, hq⟩

theorem ticks_cases {t : Timer} (h : t.ticks = true) : t = .armed ∨ t = .fired := by
  cases t <;> simp_all [Timer.ticks]

/-! To `startElection`: -/

theorem comes_of_electionTick (hloop : p.loop = .electionTick) (hrole : n.state ≠ .leader) :
    Comes n 1 (fun p => p.loop = .starting) p := by
  have hl : p.loopStep n .checkElection = some { p with loop := .starting } := by
    rw [loopStep, if_pos hloop, if_pos hrole]
  exact .step hl (.now 0 rfl)

theorem comes_of_waiting {heartbeat : Bool} (hloop : p.loop = .waiting heartbeat)
    (ht : p.electionTimer.ticks = true) (hrole : n.state ≠ .leader) :
    Comes n 3 (fun p => p.loop = .starting) p := by
  have hfired : ∀ {p : Process}, p.loop = .waiting heartbeat → p.electionTimer = .fired →
      Comes n 2 (fun p => p.loop = .starting) p := by
    intro p hloop ht
    have hl : p.loopStep n .receiveElection =
        some { p with loop := .electionTick, electionTimer := .stopped } := by
      rw [loopStep, hloop, ht]
      rfl
    exact .step hl (comes_of_electionTick rfl hrole)
  rcases ticks_cases ht with ht | ht
  · have hl : p.loopStep n .expireElection = some { p with electionTimer := .fired } := by
      rw [loopStep, ht]
      rfl
    exact .step hl (hfired hloop rfl)
  · exact (hfired hloop ht).mono (by omega)

theorem comes_of_top (hloop : p.loop = .top) (ht : p.electionTimer.ticks = true)
    (hrole : n.state ≠ .leader) : Comes n 4 (fun p => p.loop = .starting) p := by
  have hl : p.loopStep n .select =
      some { p with loop := .waiting (decide (p.heartbeatTimer ≠ .unset)) } := by
    rw [loopStep, if_pos hloop]
  exact .step hl (comes_of_waiting rfl ht hrole)

/-- **A node that does not lead, left alone, starts an election.** -/
theorem Sound.comes_election (h : Sound M i n el p) (hstop : p.stopping ≠ .timersStopped)
    (hret : p.loop ≠ .returned) (hrole : n.state ≠ .leader) (hel : el = none) :
    Comes n 5 (fun p => p.loop = .starting) p := by
  have ht := h.election hrole hstop
  cases hloop : p.loop with
  | top => exact (comes_of_top hloop (by simpa [hloop] using ht) hrole).mono (by omega)
  | waiting heartbeat => exact (comes_of_waiting hloop (by simpa [hloop] using ht) hrole).mono (by omega)
  | electionTick => exact (comes_of_electionTick hloop hrole).mono (by omega)
  | starting => exact .now _ hloop
  | electing => exact absurd hel (h.electing.mp hloop)
  | heartbeatTick =>
    have hl : p.loopStep n .checkHeartbeat = some { p with loop := .top } := by
      rw [Process.loopStep, if_pos hloop, if_neg hrole]
    exact .step hl (comes_of_top rfl (by simpa [hloop] using ht) hrole)
  | broadcasting =>
    have hl : p.loopStep n .broadcast = some { p with loop := .top } := by
      rw [Process.loopStep, if_pos hloop, broadcastAppendEntries, if_pos hrole]
    exact .step hl (comes_of_top rfl (by simpa [hloop] using ht) hrole)
  | returned => exact absurd hloop hret

/-! To `broadcastAppendEntries`: -/

/-- A `replicateToPeer` goroutine is there for every peer. -/
def SendsAll (n : RaftNode σ) (p : Process) : Prop := ∀ peer ∈ n.peers.map Peer.id, peer ∈ p.sends

theorem sends_of_broadcasting (hloop : p.loop = .broadcasting) (hrole : n.state = .leader) :
    Comes n 1 (SendsAll n) p := by
  have hl : p.loopStep n .broadcast =
      some { p with loop := .top, sends := p.sends ++ n.peers.map Peer.id } := by
    rw [loopStep, if_pos hloop, broadcastAppendEntries, if_neg (not_not.mpr hrole)]
  exact .step hl (.now 0 fun peer hpeer => List.mem_append_right _ hpeer)

theorem sends_of_heartbeatTick (hloop : p.loop = .heartbeatTick) (hrole : n.state = .leader) :
    Comes n 2 (SendsAll n) p := by
  have hl : p.loopStep n .checkHeartbeat =
      some { p with loop := .broadcasting, heartbeatTimer := p.heartbeatTimer.reset } := by
    rw [loopStep, if_pos hloop, if_pos hrole]
  exact .step hl (sends_of_broadcasting rfl hrole)

theorem sends_of_waiting (hloop : p.loop = .waiting true) (ht : p.heartbeatTimer.ticks = true)
    (hrole : n.state = .leader) : Comes n 4 (SendsAll n) p := by
  have hfired : ∀ {p : Process}, p.loop = .waiting true → p.heartbeatTimer = .fired →
      Comes n 3 (SendsAll n) p := by
    intro p hloop ht
    have hl : p.loopStep n .receiveHeartbeat =
        some { p with loop := .heartbeatTick, heartbeatTimer := .stopped } := by
      rw [loopStep, hloop, ht]
      rfl
    exact .step hl (sends_of_heartbeatTick rfl hrole)
  rcases ticks_cases ht with ht | ht
  · have hl : p.loopStep n .expireHeartbeat = some { p with heartbeatTimer := .fired } := by
      rw [loopStep, ht]
      rfl
    exact .step hl (hfired hloop rfl)
  · exact (hfired hloop ht).mono (by omega)

theorem sends_of_top (hloop : p.loop = .top) (ht : p.heartbeatTimer.ticks = true)
    (hrole : n.state = .leader) : Comes n 5 (SendsAll n) p := by
  have hset : p.heartbeatTimer ≠ .unset := by
    intro hunset
    rw [hunset] at ht
    cases ht
  have hl : p.loopStep n .select = some { p with loop := .waiting true } := by
    rw [loopStep, if_pos hloop, decide_eq_true hset]
  exact .step hl (sends_of_waiting rfl ht hrole)

/-- **A leader, left alone, sends to every peer.** -/
theorem Sound.comes_sends (h : Sound M i n el p) (hstop : p.stopping ≠ .timersStopped)
    (hret : p.loop ≠ .returned) (hrole : n.state = .leader) : Comes n 6 (SendsAll n) p := by
  have ht := h.heartbeat hrole hstop
  cases hloop : p.loop with
  | top => exact (sends_of_top hloop (by simpa [hloop] using ht) hrole).mono (by omega)
  | waiting heartbeat =>
    cases heartbeat with
    | false => exact absurd hloop (h.listens hrole)
    | true => exact (sends_of_waiting hloop (by simpa [hloop] using ht) hrole).mono (by omega)
  | electionTick =>
    have hl : p.loopStep n .checkElection =
        some { p with loop := .top, electionTimer := p.electionTimer.reset } := by
      rw [Process.loopStep, if_pos hloop, if_neg (not_not.mpr hrole)]
    exact .step hl (sends_of_top rfl (by simpa [hloop] using ht) hrole)
  | starting => exact absurd hrole (h.follows (Or.inl hloop))
  | electing => exact absurd hrole (h.follows (Or.inr hloop))
  | heartbeatTick => exact (sends_of_heartbeatTick hloop hrole).mono (by omega)
  | broadcasting => exact (sends_of_broadcasting hloop hrole).mono (by omega)
  | returned => exact absurd hloop hret

/-! To the `select` of a `Propose`: -/

theorem comes_announced (n : RaftNode σ) (id : Nat) : ∀ (k : Nat) (p : Process), p.announcing.length ≤ k →
    Comes n k (fun p => id ∉ p.announcing) p
  | 0, p, hlen => .now 0 fun hmem => by
      rw [List.length_eq_zero_iff.mp (Nat.le_zero.mp hlen)] at hmem
      exact absurd hmem List.not_mem_nil
  | k + 1, p, hlen => by
    by_cases hmem : id ∈ p.announcing
    · have hl : p.loopStep n (.announce id) =
          some { p.broadcastAppendEntries n with announcing := p.announcing.erase id } := by
        rw [loopStep, if_pos hmem]
      refine .step hl (comes_announced n id k _ ?_)
      dsimp only
      rw [List.length_erase_of_mem hmem]
      omega
    · exact .now _ hmem

/-- Nobody has called `Stop`. -/
structure Running (p : Process) : Prop where
  stopping : p.stopping = .running
  loop : p.loop ≠ .returned
  gaveUp : p.gaveUp = []

theorem Running.loopStep (h : Running p) {l : LoopStep} (hp : p.loopStep n l = some p') : Running p' := by
  obtain ⟨hstop, hloop, hgave⟩ := h
  cases l with
  | expireElection =>
    obtain ⟨t, _, rfl⟩ := Option.map_eq_some_iff.mp hp
    exact ⟨hstop, hloop, hgave⟩
  | expireHeartbeat =>
    obtain ⟨t, _, rfl⟩ := Option.map_eq_some_iff.mp hp
    exact ⟨hstop, hloop, hgave⟩
  | receiveElection =>
    simp only [Process.loopStep] at hp
    split at hp
    · obtain ⟨t, _, rfl⟩ := Option.map_eq_some_iff.mp hp
      exact ⟨hstop, by simp, hgave⟩
    · cases hp
  | receiveHeartbeat =>
    simp only [Process.loopStep] at hp
    split at hp
    · obtain ⟨t, _, rfl⟩ := Option.map_eq_some_iff.mp hp
      exact ⟨hstop, by simp, hgave⟩
    · cases hp
  | select =>
    simp only [Process.loopStep] at hp
    split at hp <;> cases hp
    exact ⟨hstop, by simp, hgave⟩
  | skip peer =>
    simp only [Process.loopStep] at hp
    split at hp <;> cases hp
    exact ⟨hstop, hloop, hgave⟩
  | checkElection =>
    simp only [Process.loopStep] at hp
    split at hp
    · split at hp <;> cases hp <;> exact ⟨hstop, by simp, hgave⟩
    · cases hp
  | checkHeartbeat =>
    simp only [Process.loopStep] at hp
    split at hp
    · split at hp <;> cases hp <;> exact ⟨hstop, by simp, hgave⟩
    · cases hp
  | broadcast =>
    simp only [Process.loopStep, broadcastAppendEntries] at hp
    split at hp
    · split at hp <;> cases hp <;> exact ⟨hstop, by simp, hgave⟩
    · cases hp
  | announce id =>
    simp only [Process.loopStep, broadcastAppendEntries] at hp
    split at hp
    · split at hp <;> cases hp <;> exact ⟨hstop, hloop, hgave⟩
    · cases hp

theorem Running.loopSteps : ∀ {ls : List LoopStep} {p : Process}, Running p →
    p.loopSteps n ls = some p' → Running p'
  | [], p, h, hp => by
    obtain rfl := Option.some.inj hp
    exact h
  | l :: ls, p, h, hp => by
    obtain ⟨p₁, hp₁, hrest⟩ := Option.bind_eq_some_iff.mp hp
    exact (h.loopStep hp₁).loopSteps hrest

theorem running_start : Running start := ⟨rfl, by simp [start], rfl⟩

theorem Running.after (h : Running p) (disk : Disk) (s : Cluster σ) (a : Action) :
    Running (p.after disk s a) := by
  obtain ⟨hstop, hloop, hgave⟩ := h
  unfold Process.after
  split
  · exact ⟨hstop, by simp, hgave⟩
  · split <;> exact ⟨hstop, by simp, hgave⟩
  · exact ⟨hstop, hloop, hgave⟩
  · split <;> exact ⟨hstop, hloop, hgave⟩
  · split <;> exact ⟨hstop, hloop, hgave⟩

end Process

namespace Runtime

variable {σ : Type} {E : Engine σ} {M : Membership} {store : NodeID → σ} {threshold : NodeID → Int}
  {ok : Cluster σ → Step → Prop} {past : List (Runtime σ × RuntimeStep)} {w w' : Runtime σ}
  {b : RuntimeStep} {st : Step} {i j : NodeID}

/-! ## The loop can show every step of the cluster -/

/-- Nobody has called `Stop`. -/
def Running (w : Runtime σ) : Prop := ∀ i, (w.proc i).Running

theorem Running.setProc (h : w.Running) {p : Process} (hp : p.Running) : (w.setProc i p).Running := by
  intro j
  by_cases hj : j = i
  · subst hj
    rw [setProc_self]
    exact hp
  · rw [setProc_other _ _ hj]
    exact h j

theorem Running.procAfter (h : w.Running) (s' : Cluster σ) (st : Step) :
    (⟨s', w.procAfter st⟩ : Runtime σ).Running := by
  intro j
  dsimp only
  unfold Runtime.procAfter
  split
  · split
    · split
      · exact Process.running_start
      · exact (h _).after _ _ _
    · exact h _
  · split
    · exact Process.running_start
    · exact h _
  · split
    · exact Process.running_start
    · exact h _
  · exact h _

/-- A silent step of the runtime. -/
abbrev SilentStep (E : Engine σ) (M : Membership) (ok : Cluster σ → Step → Prop) :
    Runtime σ → Runtime σ → Prop :=
  Lib.Silent Runtime.cluster RuntimeStep.shows (step E M) (Allows ok)

theorem silent_loopSteps (hi : i ∈ M.ids) : ∀ {ls : List LoopStep} {w : Runtime σ} {p : Process},
    (w.proc i).loopSteps (w.cluster.node i) ls = some p →
      Relation.ReflTransGen (SilentStep E M ok) w (w.setProc i p)
  | [], w, p, hp => by
    obtain rfl := Option.some.inj hp
    have hsame : w.setProc i (w.proc i) = w := by
      unfold setProc
      congr 1
      funext j
      split
      · rename_i hj
        rw [hj]
      · rfl
    rw [hsame]
  | l :: ls, w, p, hp => by
    obtain ⟨p₁, hp₁, hrest⟩ := Option.bind_eq_some_iff.mp hp
    have hstep : SilentStep E M ok w (w.setProc i p₁) := by
      refine ⟨.loop i l, rfl, fun st hst => (by cases hst), ?_, rfl⟩
      rw [Runtime.step, if_pos hi, hp₁]
      rfl
    have hlast : (w.setProc i p₁).setProc i p = w.setProc i p := by
      unfold setProc
      congr 1
      funext j
      dsimp only
      split <;> rfl
    rw [← hlast]
    exact .head hstep (silent_loopSteps hi (by rw [setProc_self]; exact hrest))

/-- A runtime in which a goroutine is about to enter the critical section, reached by silent steps. -/
def Prepares (E : Engine σ) (M : Membership) (ok : Cluster σ → Step → Prop) (w : Runtime σ)
    (a : Action) : Prop :=
  ∃ w₁, Relation.ReflTransGen (SilentStep E M ok) w w₁ ∧ w₁.cluster = w.cluster ∧ w₁.Running ∧
    w₁.admits a

theorem prepares_of_comes (hrun : w.Running) (hi : i ∈ M.ids) {k : Nat} {P : Process → Prop} {a : Action}
    (h : (w.proc i).Comes (w.cluster.node i) k P)
    (hP : ∀ p, P p → p.Running → (w.setProc i p).admits a) : Prepares E M ok w a := by
  obtain ⟨ls, p, _, hp, hgoal⟩ := h
  have hrunning := (hrun i).loopSteps hp
  exact ⟨w.setProc i p, silent_loopSteps hi hp, rfl, hrun.setProc hrunning, hP p hgoal hrunning⟩

theorem prepares_now (hrun : w.Running) {a : Action} (h : w.admits a) : Prepares E M ok w a :=
  ⟨w, .refl, rfl, hrun, h⟩

/-- `Propose` gets to its `select`. -/
theorem prepares_select (hsound : w.Sound M) (hrun : w.Running) (i : NodeID) (id : Nat) {a : Action}
    (ha : ∀ w : Runtime σ, w.admits a ↔ id ∉ (w.proc i).announcing ∧ id ∉ (w.proc i).gaveUp) :
    Prepares E M ok w a := by
  by_cases hmem : id ∈ (w.proc i).announcing
  · have hi := (hsound i).announces (List.ne_nil_of_mem hmem)
    refine prepares_of_comes hrun hi (Process.comes_announced _ id _ _ le_rfl) fun p hp hrunning => ?_
    rw [ha, setProc_self, hrunning.gaveUp]
    exact ⟨hp, List.not_mem_nil⟩
  · refine prepares_now hrun ((ha w).mpr ⟨hmem, ?_⟩)
    rw [(hrun i).gaveUp]
    exact List.not_mem_nil

/-- **Whenever the critical section is possible, the processes can come to it.** -/
theorem Sound.prepares (hsound : w.Sound M) (hrun : w.Running) {disk : Disk} {a : Action} {s' : Cluster σ}
    (h : w.cluster.exec E M disk a = some s') : Prepares E M ok w a := by
  have hstop : ∀ i, (w.proc i).stopping ≠ .timersStopped := fun i => by simp [(hrun i).stopping]
  cases a with
  | electionTimeout i =>
    cases Cluster.exec_cases h with
    | timeout hi hrole hfree =>
      refine prepares_of_comes hrun hi
        ((hsound i).comes_election (hstop i) (hrun i).loop hrole hfree) fun p hp _ => ?_
      rw [admits, setProc_self]
      exact hp
  | finishElection i =>
    cases Cluster.exec_cases h with
    | finished hel _ => exact prepares_now hrun ((hsound i).electing.mpr (by rw [hel]; simp))
  | replicate i peer =>
    simp only [Cluster.exec] at h
    split at h
    · rename_i hc
      refine prepares_of_comes hrun hc.1
        ((hsound i).comes_sends (hstop i) (hrun i).loop hc.2.2) fun p hp _ => ?_
      rw [admits, setProc_self]
      exact hp peer hc.2.1
    · cases h
  | receive i id => exact prepares_select hsound hrun i id fun _ => Iff.rfl
  | cancel i id => exact prepares_select hsound hrun i id fun _ => Iff.rfl
  | _ => exact prepares_now hrun trivial

theorem Sound.prepares_step (hsound : w.Sound M) (hrun : w.Running) {s' : Cluster σ}
    (h : w.cluster.step E M st = some s') :
    ∃ w₁, Relation.ReflTransGen (SilentStep E M ok) w w₁ ∧ w₁.cluster = w.cluster ∧ w₁.Running ∧
      w₁.admitsStep st := by
  cases st with
  | act disk a => exact hsound.prepares hrun h
  | crashDuring a cut =>
    simp only [Cluster.step] at h
    split at h
    · cases h
    · split at h
      · rename_i hx
        exact hsound.prepares hrun hx
      · cases h
  | crash i => exact ⟨w, .refl, rfl, hrun, trivial⟩
  | applyRead disk i k reads => exact ⟨w, .refl, rfl, hrun, trivial⟩

/-- Every run of the cluster is shown by a run in which nobody calls `Stop`. -/
theorem Reaches.of_cluster {past : List (Cluster σ × Step)} {s : Cluster σ}
    (h : Cluster.Reaches E M store threshold ok past s) :
    ∃ past' w, Reaches E M store threshold ok past' w ∧
      Lib.shown Runtime.cluster RuntimeStep.shows past' = past ∧ w.cluster = s ∧ w.Running := by
  refine Lib.Run.lift h ?_ ?_
  · rintro s rfl
    exact ⟨init M store threshold, rfl, rfl, fun _ => Process.running_start⟩
  · intro past' w st s' hr hrun hok hs
    obtain ⟨w₁, hpath, hsame, hrun₁, hadm⟩ := (Reaches.sound hr).prepares_step hrun hs
    refine ⟨w₁, .cluster st, ⟨s', w₁.procAfter st⟩, hpath, rfl, ?_, ?_, rfl, hrun₁.procAfter s' st⟩
    · intro st' hst'
      obtain rfl := Option.some.inj hst'
      rw [hsame]
      exact hok
    · rw [← hsame] at hs
      rw [Runtime.step, if_pos hadm, clusterStep_of_step hs]
      rfl

/-- **The event loop shows exactly the runs of the cluster.** For timeouts whose bounds are in order, so that
`rand.Intn` does not panic: `run`, its timers and the goroutines it starts, over every interleaving and with ticks at any moment, take the steps of `Cluster` in every order in
which `Cluster` can take them, and in no other. The steps, the states they are taken in and any condition
`ok` on them are the same on both sides. -/
theorem event_loop_exact {past : List (Cluster σ × Step)} {s : Cluster σ} :
    Cluster.Reaches E M store threshold ok past s ↔
      ∃ past' w, Reaches E M store threshold ok past' w ∧
        Lib.shown Runtime.cluster RuntimeStep.shows past' = past ∧ w.cluster = s := by
  constructor
  · intro h
    obtain ⟨past', w, hr, hshown, hs, _⟩ := Reaches.of_cluster h
    exact ⟨past', w, hr, hshown, hs⟩
  · rintro ⟨past', w, hr, rfl, rfl⟩
    exact hr.cluster

/-- **`run` never gets stuck.** For timeouts whose bounds are in order: from every reachable state, until `Stop` has stopped the timers or `run` has
returned: a node that does not lead and is in no election comes to `startElection`, and a leader to a
`replicateToPeer` goroutine for every peer, by at most five and six steps of its own loop and its own
timers. -/
theorem run_never_stuck (h : Reaches E M store threshold ok past w) (i : NodeID)
    (hstop : (w.proc i).stopping ≠ .timersStopped) (hret : (w.proc i).loop ≠ .returned) :
    ((w.cluster.node i).state ≠ .leader → w.cluster.election i = none →
      ∃ ls p, ls.length ≤ 5 ∧ (w.proc i).loopSteps (w.cluster.node i) ls = some p ∧
        p.loop = .starting) ∧
    ((w.cluster.node i).state = .leader →
      ∃ ls p, ls.length ≤ 6 ∧ (w.proc i).loopSteps (w.cluster.node i) ls = some p ∧
        ∀ peer ∈ (w.cluster.node i).peers, peer.id ∈ p.sends) := by
  refine ⟨(h.sound i).comes_election hstop hret, fun hrole => ?_⟩
  obtain ⟨ls, p, hlen, hp, hall⟩ := (h.sound i).comes_sends hstop hret hrole
  exact ⟨ls, p, hlen, hp, fun peer hpeer => hall _ (List.mem_map_of_mem hpeer)⟩

open Shipped (node1 node2 elect)

/-- The loop of `node-1` comes to an election, which it wins. -/
def loopElect : List RuntimeStep :=
  [.loop node1 .select, .loop node1 .expireElection, .loop node1 .receiveElection,
    .loop node1 .checkElection] ++ (elect node1 0 1).map fun a => .cluster (.act (fun _ => true) a)

/-- Carry out the steps in the shipped cluster. -/
def play (steps : List RuntimeStep) : List (Runtime BoltEngine × RuntimeStep) × Runtime BoltEngine :=
  (Lib.follow (step Shipped.engine Shipped.membership) (fun _ _ => True) []
    (init Shipped.membership (fun _ => .empty) fun _ => 10000) steps).getD
      ([], init Shipped.membership (fun _ => .empty) fun _ => 10000)

theorem reaches_loopElect :
    Reaches Shipped.engine Shipped.membership (fun _ => .empty) (fun _ => 10000) Cluster.MetaDurable
      (play loopElect).1 (play loopElect).2 := by
  have hok : ∀ (w : Runtime BoltEngine), ∀ b ∈ loopElect, Allows Cluster.MetaDurable w b := by
    intro w b hb st hst
    rcases List.mem_append.mp hb with hb | hb
    · simp only [List.mem_cons, List.not_mem_nil, or_false] at hb
      rcases hb with rfl | rfl | rfl | rfl <;> cases hst
    · obtain ⟨a, _, rfl⟩ := List.mem_map.mp hb
      obtain rfl := Option.some.inj hst
      exact Cluster.DiskOk.metaDurable fun _ => rfl
  have hstart : Reaches Shipped.engine Shipped.membership (fun _ => .empty) (fun _ => 10000)
      Cluster.MetaDurable [] (init Shipped.membership (fun _ => .empty) fun _ => 10000) := .start rfl
  unfold play
  cases h : Lib.follow (step Shipped.engine Shipped.membership) (fun _ _ => True) []
      (init Shipped.membership (fun _ => .empty) fun _ => 10000) loopElect with
  | none => exact hstart
  | some r =>
    exact (Lib.Run.of_follow hok (hstart.mono fun _ _ h => ⟨trivial, h⟩) h).mono fun _ _ h => h.2

/-- `node-1` leads, `node-2` follows. -/
theorem run_never_stuck_elected : ∃ past w,
    Reaches Shipped.engine Shipped.membership (fun _ => .empty) (fun _ => 10000) Cluster.MetaDurable past w ∧
    (w.cluster.node node1).state = .leader ∧ (w.cluster.node node2).state = .follower ∧
    (∃ ls p, ls.length ≤ 6 ∧ (w.proc node1).loopSteps (w.cluster.node node1) ls = some p ∧
      ∀ peer ∈ (w.cluster.node node1).peers, peer.id ∈ p.sends) ∧
    ∃ ls p, ls.length ≤ 5 ∧ (w.proc node2).loopSteps (w.cluster.node node2) ls = some p ∧
      p.loop = .starting := by
  have hl : ((play loopElect).2.cluster.node node1).state = .leader := by decide +kernel
  have hf : ((play loopElect).2.cluster.node node2).state = .follower := by decide +kernel
  exact ⟨_, _, reaches_loopElect, hl, hf,
    (run_never_stuck reaches_loopElect node1 (by decide +kernel) (by decide +kernel)).2 hl,
    (run_never_stuck reaches_loopElect node2 (by decide +kernel) (by decide +kernel)).1
      (by rw [hf]; simp) (by decide +kernel)⟩

end Runtime

namespace Cluster

variable {σ : Type} {E : Engine σ} {M : Membership} {disk : Disk} {s s' : Cluster σ} {a : Action}
  {i : NodeID} {store : NodeID → σ} {threshold : NodeID → Int} {ok : Cluster σ → Step → Prop}
  {past past' : List (Cluster σ × Step)}

/-- While a node leads, nothing resets its election timer. -/
theorem Reaches.leader_not_reset (hodd : M.ids.length % 2 = 1)
    (hmeta : ∀ s st, ok s st → MetaDurable s st) (h : Reaches E M store threshold ok past s)
    (h' : Reaches E M store threshold ok past' s') (hx : s.exec E M disk a = some s')
    (hi : s.actor a = some i) (hl : (s.node i).state = .leader) (hl' : (s'.node i).state = .leader) :
    s.resetsElection disk a = false := by
  by_contra hreset
  rw [Bool.not_eq_false] at hreset
  -- a newer term would have made it a follower
  have hsame : ∀ {c : Prop} [Decidable c], (s'.node i).state = (if c then .follower else (s.node i).state) →
      ¬ c := by
    intro c _ hstate hc
    rw [if_pos hc, hl'] at hstate
    cases hstate
  cases a with
  | handleVote k =>
    cases exec_cases hx with
    | @vote _ c hk _ =>
      obtain rfl : c.dst = i := by simpa [actor, hk] using hi
      obtain ⟨hsrc, hdst, hcand⟩ := h.voteCall_ends (List.mem_of_getElem? hk)
      simp only [resetsElection, hk, Bool.or_eq_true, decide_eq_true_eq] at hreset
      have hnode := setNode_self s c.dst ((s.node c.dst).handleRequestVote disk c.req).1
      rcases hreset with hnew | hgranted
      · refine hsame ?_ hnew
        rw [← RaftNode.state_handleRequestVote disk]
        exact congrArg RaftNode.state hnode
      · -- a leader has voted for itself
        have hown := (h'.roleHolds (h'.leader_mem hl')).own (by rw [hl']; simp)
        have hvote := congrArg Prod.snd (ballot_of_granted hgranted)
        rw [(h'.identity c.dst).1] at hown
        have hboth : c.req.candidateID = c.dst := by
          rw [← hown]
          exact hvote.symm.trans (congrArg RaftNode.votedFor hnode).symm
        exact (mem_peers hsrc hdst).2 (hboth.symm.trans hcand)
  | voteReturn k =>
    cases exec_cases hx with
    | @voted _ c resp el hk hr _ hel =>
      obtain rfl : c.src = i := by simpa [actor, hk] using hi
      obtain ⟨src, dst, req, reply, waiting⟩ := c
      obtain rfl : reply = _ := hr
      simp only [resetsElection, hk, decide_eq_true_eq] at hreset
      refine hsame ?_ hreset
      rw [← RaftNode.state_voteResponse disk _ el]
      exact congrArg RaftNode.state (setNode_self s _ _)
  | handleAppend k =>
    cases exec_cases hx with
    | @append _ c hk _ =>
      obtain rfl : c.dst = i := by simpa [actor, hk] using hi
      have hc := List.mem_of_getElem? hk
      obtain ⟨hsrc, hdst⟩ := h.appendCall_ends hc
      simp only [resetsElection, hk, decide_eq_true_eq] at hreset
      have hge : ¬ (s.node c.dst).currentTerm < c.req.term := by
        refine hsame ?_
        rw [← RaftNode.state_handleAppendEntries disk]
        exact congrArg RaftNode.state (setNode_self s _ _)
      have hled := (h.appendCall_led hc).1
      rw [Nat.le_antisymm (Nat.le_of_not_lt hge) hreset] at hled
      exact h.no_rival hodd hmeta hl (mem_peers hsrc hdst).2.symm hled
  | handleSnapshot k =>
    cases exec_cases hx with
    | @snapshot _ c hk _ =>
      obtain rfl : c.dst = i := by simpa [actor, hk] using hi
      obtain ⟨hled, _, _, hdst⟩ := h.snapshotCall_led (List.mem_of_getElem? hk)
      simp only [resetsElection, hk, decide_eq_true_eq] at hreset
      have hge : ¬ (s.node c.dst).currentTerm < c.req.term := by
        refine hsame ?_
        rw [← RaftNode.state_handleInstallSnapshot E disk]
        exact congrArg RaftNode.state (setNode_self s _ _)
      rw [Nat.le_antisymm (Nat.le_of_not_lt hge) hreset] at hled
      exact h.no_rival hodd hmeta hl hdst.symm hled
  | appendReturn k =>
    have hs : s.step E M (.act disk (.appendReturn k)) = some s' := hx
    obtain ⟨c, resp, hk, hr, hnode⟩ := step_appendReturn hs
    obtain rfl : c.src = i := by simpa [actor, hk] using hi
    obtain ⟨src, dst, req, reply, waiting⟩ := c
    obtain rfl : reply = _ := hr
    simp only [resetsElection, hk, decide_eq_true_eq] at hreset
    cases hn : (s.node src).appendResponse disk dst resp with
    | none =>
      rw [hnode, hn] at hl'
      exact absurd hl' (by simp)
    | some n =>
      refine hsame ?_ hreset
      rw [hnode, hn]
      exact RaftNode.state_appendResponse hn
  | snapshotReturn k =>
    have hs : s.step E M (.act disk (.snapshotReturn k)) = some s' := hx
    obtain ⟨c, resp, hk, hr, hnode, _⟩ := step_snapshotReturn hs
    obtain rfl : c.src = i := by simpa [actor, hk] using hi
    obtain ⟨src, dst, req, reply, waiting⟩ := c
    obtain rfl : reply = _ := hr
    simp only [resetsElection, hk, decide_eq_true_eq] at hreset
    cases hn : (s.node src).snapshotResponse disk dst req.lastIncludedIndex resp with
    | none =>
      rw [hnode, hn] at hl'
      exact absurd hl' (by simp)
    | some n =>
      refine hsame ?_ hreset
      rw [hnode, hn]
      exact RaftNode.state_snapshotResponse hn
  | _ => cases hreset

end Cluster

namespace Runtime

variable {σ : Type} {E : Engine σ} {M : Membership} {store : NodeID → σ} {threshold : NodeID → Int}
  {ok : Cluster σ → Step → Prop} {past : List (Runtime σ × RuntimeStep)} {w w' : Runtime σ}
  {st : Step} {i : NodeID}

/-- The election timer is off and no tick of it is left. -/
def TimerOff (p : Process) : Prop := p.electionTimer = .stopped ∧ p.loop ≠ .electionTick

theorem TimerOff.loopStep {n : RaftNode σ} {p p' : Process} (h : TimerOff p) {l : LoopStep}
    (hp : p.loopStep n l = some p') : TimerOff p' := by
  obtain ⟨ht, hloop⟩ := h
  cases l with
  | expireElection =>
    rw [Process.loopStep, ht] at hp
    cases hp
  | receiveElection =>
    rw [Process.loopStep, ht] at hp
    split at hp <;> cases hp
  | checkElection =>
    rw [Process.loopStep, if_neg hloop] at hp
    cases hp
  | expireHeartbeat =>
    obtain ⟨t, _, rfl⟩ := Option.map_eq_some_iff.mp hp
    exact ⟨ht, hloop⟩
  | receiveHeartbeat =>
    simp only [Process.loopStep] at hp
    split at hp
    · obtain ⟨t, _, rfl⟩ := Option.map_eq_some_iff.mp hp
      exact ⟨ht, by simp⟩
    · cases hp
  | select =>
    simp only [Process.loopStep] at hp
    split at hp <;> cases hp
    exact ⟨ht, by simp⟩
  | checkHeartbeat =>
    simp only [Process.loopStep] at hp
    split at hp
    · split at hp <;> cases hp <;> exact ⟨ht, by simp⟩
    · cases hp
  | broadcast =>
    simp only [Process.loopStep, Process.broadcastAppendEntries] at hp
    split at hp
    · split at hp <;> cases hp <;> exact ⟨ht, by simp⟩
    · cases hp
  | announce id =>
    simp only [Process.loopStep, Process.broadcastAppendEntries] at hp
    split at hp
    · split at hp <;> cases hp <;> exact ⟨ht, hloop⟩
    · cases hp
  | skip peer =>
    simp only [Process.loopStep] at hp
    split at hp <;> cases hp
    exact ⟨ht, hloop⟩

theorem TimerOff.stopStep {n : RaftNode σ} {p p' : Process} (h : TimerOff p) {l : StopStep}
    (hp : p.stopStep n l = some p') : TimerOff p' := by
  obtain ⟨ht, hloop⟩ := h
  cases l with
  | close =>
    simp only [Process.stopStep] at hp
    split at hp <;> cases hp
    exact ⟨ht, hloop⟩
  | stopTimers =>
    simp only [Process.stopStep] at hp
    split at hp <;> cases hp
    exact ⟨by rw [ht]; rfl, hloop⟩
  | leave =>
    simp only [Process.stopStep] at hp
    split at hp
    · split at hp <;> cases hp
      exact ⟨ht, by simp⟩
    · cases hp
  | giveUp id =>
    simp only [Process.stopStep] at hp
    split at hp
    · split at hp <;> cases hp
      exact ⟨ht, hloop⟩
    · cases hp

/-- A critical section that is no part of an election and resets nothing. -/
theorem TimerOff.after {disk : Disk} {s : Cluster σ} {p : Process} {a : Action} (h : TimerOff p)
    (ht : ∀ i, a ≠ .electionTimeout i) (hf : ∀ i, a ≠ .finishElection i)
    (hreset : s.resetsElection disk a = false) : TimerOff (p.after disk s a) := by
  unfold Process.after
  split
  · exact absurd rfl (ht _)
  · exact absurd rfl (hf _)
  · exact h
  · split <;> exact h
  · rw [hreset]
    exact h

/-- `becomeLeader` stops the timer. -/
theorem timerOff_becomeLeader {disk : Disk} {s : Cluster σ} {p : Process} {el : RaftNode.Election}
    (hset : p.electionTimer ≠ .unset) (hel : s.election i = some el) (hwon : el.won = true)
    (hcand : (s.node i).state = .candidate) : TimerOff (p.after disk s (.finishElection i)) := by
  have hafter : p.after disk s (.finishElection i) =
      { p with
        loop := .top
        electionTimer := p.electionTimer.stop
        heartbeatTimer := p.heartbeatTimer.reset } := by
    simp [Process.after, hel, hwon, hcand]
  rw [hafter]
  refine ⟨?_, by simp⟩
  dsimp only
  cases ht : p.electionTimer with
  | unset => exact absurd ht hset
  | stopped => rfl
  | armed => rfl
  | fired => rfl

/-- A step of the cluster after which the node leads. -/
theorem Reaches.timerOff_cluster (hodd : M.ids.length % 2 = 1)
    (h : Reaches E M store threshold Cluster.MetaDurable past w)
    (hold : (w.cluster.node i).state = .leader → TimerOff (w.proc i)) {s' : Cluster σ}
    (hok : Cluster.MetaDurable w.cluster st) (hs : w.cluster.step E M st = some s')
    (hl' : (s'.node i).state = .leader) : TimerOff (w.procAfter st i) := by
  have hbefore := h.cluster
  have hafter : Cluster.Reaches E M store threshold Cluster.MetaDurable _ s' := .next hbefore hok hs
  cases Cluster.step_leads hs hl' with
  | @elected disk el hst hel hwon hcand _ =>
    subst hst
    have hproc : w.procAfter (.act disk (.finishElection i)) i =
        (w.proc i).after disk w.cluster (.finishElection i) := by
      have hactor : w.cluster.actor (.finishElection i) = some i := rfl
      rw [procAfter, if_pos hactor]
      rfl
    rw [hproc]
    exact timerOff_becomeLeader (h.sound i).set hel hwon hcand
  | still hl _ =>
    have hoff := hold hl
    cases st with
    | act disk a =>
      have hx : w.cluster.exec E M disk a = some s' := hs
      unfold procAfter
      dsimp only
      split
      · rename_i hi
        split
        · rename_i hpanic
          obtain ⟨hnode, _⟩ := Cluster.exec_panics hs hi hpanic
          rw [hnode] at hl'
          exact absurd hl' (by simp)
        · refine hoff.after ?_ ?_ (hbefore.leader_not_reset hodd (fun _ _ h => h) hafter hs hi hl hl')
          · rintro j rfl
            cases Cluster.exec_cases hx with
            | timeout _ hrole _ =>
              obtain rfl := Option.some.inj hi
              exact hrole hl
          · rintro j rfl
            cases Cluster.exec_cases hx with
            | finished hel _ =>
              obtain rfl := Option.some.inj hi
              have hloop := (h.sound j).electing.mpr (by rw [hel]; simp)
              exact (h.sound j).follows (Or.inr hloop) hl
      · exact hoff
    | crash j =>
      unfold procAfter
      dsimp only
      split
      · rename_i hj
        subst hj
        cases Cluster.step_cases hs with
        | crash =>
          rw [Cluster.restart_self] at hl'
          exact absurd hl' (by simp)
      · exact hoff
    | crashDuring a cut =>
      unfold procAfter
      dsimp only
      split
      · rename_i hi
        cases Cluster.step_cases hs with
        | crashDuring _ hj _ =>
          obtain rfl := Option.some.inj (hj.symm.trans hi)
          rw [Cluster.restart_self] at hl'
          exact absurd hl' (by simp)
      · exact hoff
    | applyRead disk j k reads => exact hoff

/-- **A leader has its election timer stopped.** In every run of an odd number of members with valid UTF-8
ids whose `SaveMeta` calls succeed, over every interleaving of `run` with handlers, answers and `Stop`: while a node leads, its election timer stays
stopped and no tick of it is left, so `run` never takes the branch in which a leader resets it. -/
theorem leader_without_election_timer (hodd : M.ids.length % 2 = 1)
    (h : Reaches E M store threshold Cluster.MetaDurable past w) (i : NodeID)
    (hl : (w.cluster.node i).state = .leader) :
    (w.proc i).electionTimer = .stopped ∧ (w.proc i).loop ≠ .electionTick := by
  refine Lib.Run.invariant (P := fun (_ : List (Runtime σ × RuntimeStep)) (w : Runtime σ) =>
    ∀ i, (w.cluster.node i).state = .leader → TimerOff (w.proc i)) ?_ ?_ h i hl
  · rintro w rfl i hl
    exact absurd hl (by simp [init, Cluster.init])
  · intro past w b w' hr hinv hok hs i hl'
    cases b with
    | loop j l =>
      simp only [Runtime.step] at hs
      split at hs
      · obtain ⟨p, hp, rfl⟩ := Option.map_eq_some_iff.mp hs
        by_cases hij : i = j
        · subst hij
          rw [setProc_self]
          exact (hinv i hl').loopStep hp
        · rw [setProc_other _ _ hij]
          exact hinv i hl'
      · cases hs
    | stop j l =>
      simp only [Runtime.step] at hs
      split at hs
      · obtain ⟨p, hp, rfl⟩ := Option.map_eq_some_iff.mp hs
        by_cases hij : i = j
        · subst hij
          rw [setProc_self]
          exact (hinv i hl').stopStep hp
        · rw [setProc_other _ _ hij]
          exact hinv i hl'
      · cases hs
    | cluster st =>
      simp only [Runtime.step] at hs
      split at hs
      · rename_i hadm
        obtain ⟨s', hs', rfl⟩ := Option.map_eq_some_iff.mp hs
        have hstep := (Reaches.sound hr).step_of_clusterStep hadm hs'
        exact Reaches.timerOff_cluster hodd hr (hinv i) (hok st rfl) hstep hl'
      · cases hs

open Shipped (node1)

/-- `node-1` leads. -/
theorem leader_without_election_timer_elected : ∃ past w,
    Reaches Shipped.engine Shipped.membership (fun _ => .empty) (fun _ => 10000) Cluster.MetaDurable past w ∧
    (w.cluster.node node1).state = .leader ∧ (w.proc node1).electionTimer = .stopped ∧
    (w.proc node1).loop ≠ .electionTick := by
  have hl : ((play loopElect).2.cluster.node node1).state = .leader := by decide +kernel
  exact ⟨_, _, reaches_loopElect, hl, leader_without_election_timer rfl reaches_loopElect node1 hl⟩

end Runtime

end Raftrix
