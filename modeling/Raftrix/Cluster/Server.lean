import Raftrix.Cluster.EventLoop
import Raftrix.Cluster.Linearizability
import Raftrix.Model.Server

/-!
# The requests of a deployment

What every request of a run has to do with the cluster under it, in runs as in
`Cluster/Linearizability.lean`. `Reaches.runtime` and `Reaches.cluster` say that what a deployment shows is
a run of the runtime and a run of the cluster. `Tracked` is the invariant of one request:

* while it is in `Propose`, the call is one of its node's, waits, and was made at a known moment of the run
  (`Made`), by which everything that came before the request had been applied;
* every call of it that has received a result did so from one event of the trace;
* its answer is the one its results call for (`Outcome`).
-/

namespace Raftrix

namespace Cluster

variable {σ : Type} {E : Engine σ} {M : Membership} {empty : σ} {threshold : NodeID → Int}
  {hist hist' : List (Cluster σ × Step)} {s s' : Cluster σ} {st : Step} {o : Option Step} {i : NodeID}

/-! ## What a process keeps -/

/-- A run of `applyCommitted` drops no call. -/
theorem calls_applyCommitted (E : Engine σ) (disk : Disk) (n : RaftNode σ) {id : Nat} {p : Proposal}
    (hp : n.proposals[id]? = some p) :
    ∃ p', (n.applyCommitted E disk).1.proposals[id]? = some p' ∧ SameCall p p' ∧
      p'.waiting = p.waiting := by
  refine applyCommitted_rounds E disk (P := fun m _ => ∃ p', m.proposals[id]? = some p' ∧
    SameCall p p' ∧ p'.waiting = p.waiting) ?_ (fun _ _ _ _ h => h) ⟨p, hp, ⟨rfl, rfl, rfl⟩, rfl⟩
  rintro written m e _ _ _ ⟨q, hq, hsame, hwait⟩
  rw [proposals_applyEntry, hq]
  refine ⟨_, rfl, ?_⟩
  split <;> exact ⟨hsame, hwait⟩

/-- `Propose` fails, or a call is there. -/
theorem propose_cases (disk : Disk) (n : RaftNode σ) (cmd : Command) :
    (∃ leaderID, (n.propose disk cmd).2 = .notLeader leaderID) ∨
      (n.propose disk cmd).2 = .appendFailed ∨
      (n.propose disk cmd).2 = .waiting n.proposals.length ∧
        (n.propose disk cmd).1.proposals = n.proposals ++
          [{ index := (n.proposalEntry cmd).index
             term := (n.proposalEntry cmd).term
             command := cmd }] := by
  unfold RaftNode.propose
  split
  · exact Or.inl ⟨_, rfl⟩
  · dsimp only
    split
    · exact Or.inr (Or.inl rfl)
    · exact Or.inr (Or.inr ⟨rfl, rfl⟩)

/-- The step is the end of the call. -/
def Ends (o : Option Step) (i : NodeID) (id : Nat) : Prop :=
  ∃ st, o = some st ∧ (st.action? = some (.receive i id) ∨ st.action? = some (.cancel i id))

/-- What a process that goes on keeps. -/
structure LivesOn (o : Option Step) (i : NodeID) (n n' : RaftNode σ) : Prop where
  applied : n.lastApplied ≤ n'.lastApplied
  calls : ∀ (id : Nat) (p : Proposal), n.proposals[id]? = some p → ∃ p',
    n'.proposals[id]? = some p' ∧ SameCall p p' ∧ (p.done ≠ none → p'.done = p.done) ∧
      (p.waiting = false → p'.waiting = false) ∧ (p'.waiting = p.waiting ∨ Ends o i id)

theorem LivesOn.refl (n : RaftNode σ) : LivesOn o i n n :=
  ⟨le_refl _, fun _ p hp => ⟨p, hp, ⟨rfl, rfl, rfl⟩, fun _ => rfl, fun h => h, Or.inl rfl⟩⟩

theorem CallsMove.livesOn {n n' : RaftNode σ} (h : CallsMove st i n n')
    (hlast : n'.lastApplied = n.lastApplied) : LivesOn (some st) i n n' := by
  refine ⟨le_of_eq hlast.symm, fun id p hp => ?_⟩
  cases h with
  | kept h => exact ⟨p, by rw [h]; exact hp, ⟨rfl, rfl, rfl⟩, fun _ => rfl, fun h => h, Or.inl rfl⟩
  | proposed _ h =>
    refine ⟨p, ?_, ⟨rfl, rfl, rfl⟩, fun _ => rfl, fun h => h, Or.inl rfl⟩
    rw [h, List.getElem?_append_left (List.getElem?_eq_some_iff.mp hp).1]
    exact hp
  | @released id' hst h =>
    by_cases hid : id' = id
    · subst hid
      refine ⟨{ p with waiting := false }, ?_, ⟨rfl, rfl, rfl⟩, fun _ => rfl, fun _ => rfl,
        Or.inr ⟨st, rfl, hst⟩⟩
      simp [h, hp]
    · refine ⟨p, ?_, ⟨rfl, rfl, rfl⟩, fun _ => rfl, fun h => h, Or.inl rfl⟩
      simp [h, hp, hid]

/-- A cluster makes a step, or nothing happens to it. -/
inductive Advances (E : Engine σ) (M : Membership) (empty : σ) (hist : List (Cluster σ × Step))
    (s : Cluster σ) : Option Step → List (Cluster σ × Step) → Cluster σ → Prop
  | idle : Advances E M empty hist s none hist s
  | step {st : Step} {s' : Cluster σ} (hok : Serial E empty s st) (hs : s.step E M st = some s') :
      Advances E M empty hist s (some st) ((s, st) :: hist) s'

/-- The runs of this module. -/
abbrev SerialRun (E : Engine σ) (M : Membership) (empty : σ) (threshold : NodeID → Int) :=
  Reaches E M (fun _ => empty) threshold (Serial E empty)

namespace Advances

theorem run (h : Advances E M empty hist s o hist' s') (hr : SerialRun E M empty threshold hist s) :
    SerialRun E M empty threshold hist' s' := by
  cases h with
  | idle => exact hr
  | step hok hs => exact .next hr hok hs

theorem visited (h : Advances E M empty hist s o hist' s') :
    ∀ τ ∈ Lib.visited hist s, τ ∈ Lib.visited hist' s' := by
  cases h with
  | idle => exact fun _ => id
  | step _ _ => exact visited_sub

theorem trace (h : Advances E M empty hist s o hist' s') {e : NodeID × Applied σ} (he : e ∈ s.trace) :
    e ∈ s'.trace := by
  cases h with
  | idle => exact he
  | step _ hs => exact trace_mono hs he

/-- Every moment of the run is a moment of the longer one. -/
theorem moment (h : Advances E M empty hist s o hist' s') {k : Nat} {p : Cluster σ × Step}
    (hk : hist[k]? = some p) : ∃ k' : Nat, hist'[k']? = some p := by
  cases h with
  | idle => exact ⟨k, hk⟩
  | step _ _ => exact ⟨k + 1, hk⟩

theorem livesOn (h : Advances E M empty hist s o hist' s')
    (hr : SerialRun E M empty threshold hist s) (hlive : ∀ st ∈ o, ¬ Dies s st i) :
    LivesOn o i (s.node i) (s'.node i) := by
  cases h with
  | idle => exact .refl _
  | @step st _ hok hs =>
    have hord := (settled_serial : Settled (Serial E empty)).toFaithful.toOrderly
    rcases step_store hr.leaderSet (hord.shape hr).unsent hs with
      ⟨_, hmove⟩ | ⟨j, ⟨disk, gs, gs', _, hnode, _⟩, hother⟩
    · cases hmove i with
      | same hkeep hcalls => exact hcalls.livesOn hkeep.2
      | reopened _ hdies _ _ => exact absurd hdies (hlive st rfl)
    · by_cases hij : i = j
      · subst hij
        rw [hnode]
        have hw : Waits { s.node i with goroutines := gs } :=
          hr.waits (fun _ _ h => h.2.1) (fun _ _ h => h.2.2.1) i
        refine ⟨(lastApplied_applyCommitted E disk { s.node i with goroutines := gs }).1,
          fun id p hp => ?_⟩
        obtain ⟨p', hp', hsame, hwait⟩ :=
          calls_applyCommitted E disk { s.node i with goroutines := gs } hp
        refine ⟨p', hp', hsame, fun hdone => ?_, hwait.trans, Or.inl hwait⟩
        -- who has a result waits for no entry
        rcases (hw.applyCommitted disk).2 id p' hp' with hold | ⟨q, hq, hnone, _⟩
        · rw [Option.some.inj (hold.symm.trans hp)]
        · rw [Option.some.inj (hq.symm.trans hp)] at hnone
          exact absurd hnone hdone
      · rw [hother i hij]
        exact .refl _

/-- What the step has applied, its node had not applied before. -/
theorem fresh (h : Advances E M empty hist s o hist' s') (hr : SerialRun E M empty threshold hist s)
    {e : NodeID × Applied σ} (he : e ∈ s'.trace.drop s.trace.length) :
    (s.node e.1).lastApplied < e.2.index ∧ e.2.index ≤ (s'.node e.1).lastApplied := by
  cases h with
  | idle =>
    rw [List.drop_length] at he
    exact absurd he List.not_mem_nil
  | step hok hs =>
    have hord := (settled_serial : Settled (Serial E empty)).toFaithful.toOrderly
    rcases step_store hr.leaderSet (hord.shape hr).unsent hs with
      ⟨htrace, _⟩ | ⟨j, ⟨disk, gs, gs', _, hnode, htrace⟩, _⟩
    · rw [htrace, List.drop_length] at he
      exact absurd he List.not_mem_nil
    · rw [htrace, List.drop_left] at he
      obtain ⟨a, ha, rfl⟩ := List.mem_map.mp he
      have hrun := (lastApplied_applyCommitted E disk { s.node j with goroutines := gs }).2 a ha
      exact ⟨hrun.1, by rw [hnode]; exact hrun.2⟩

theorem propose {disk : Disk} {cmd : Command}
    (h : Advances E M empty hist s (some (.act disk (.propose i cmd))) hist' s') :
    hist' = (s, .act disk (.propose i cmd)) :: hist ∧
      s.step E M (.act disk (.propose i cmd)) = some s' ∧
      s'.node i = ((s.node i).propose disk cmd).1 := by
  cases h with
  | step _ hs =>
    refine ⟨rfl, hs, ?_⟩
    cases step_cases hs with
    | act hx =>
      cases hx with
      | proposed _ => exact setNode_self _ _ _

theorem receive {disk : Disk} {id : Nat}
    (h : Advances E M empty hist s (some (.act disk (.receive i id))) hist' s') :
    ∃ p r, (s.node i).proposals[id]? = some p ∧ p.waiting = true ∧ p.done = some r ∧
      s'.node i = (s.node i).release id := by
  cases h with
  | step _ hs =>
    cases step_cases hs with
    | act hx =>
      cases hx with
      | received hp hw hd =>
        obtain ⟨r, hr⟩ := Option.ne_none_iff_exists'.mp hd
        exact ⟨_, r, hp, hw, hr, setNode_self _ _ _⟩

end Advances

end Cluster

namespace Runtime

variable {σ : Type} {E : Engine σ} {M : Membership} {w w' : Runtime σ} {b : RuntimeStep} {i : NodeID}

/-- A process that has not ended has not died. -/
theorem not_dies {st : Step} (h : w.ends (.cluster st) i = false) : ¬ Cluster.Dies w.cluster st i := by
  cases st with
  | act disk a => exact id
  | crash j => exact of_decide_eq_false (p := j = i) h
  | crashDuring a cut => exact of_decide_eq_false (p := w.cluster.actor a = some i) h
  | applyRead disk j k reads => exact id

/-- Who ends applies nothing. -/
theorem ends_trace {st : Step} {s' : Cluster σ} (h : w.ends (.cluster st) i = true)
    (hs : w.cluster.step E M st = some s') : s'.trace = w.cluster.trace := by
  cases st with
  | crash j =>
    cases Cluster.step_cases hs with
    | crash => rfl
  | crashDuring a cut =>
    cases Cluster.step_cases hs with
    | crashDuring _ _ _ => exact Cluster.lose_trace a
  | applyRead disk j k reads => cases h
  | act disk a =>
    have hpanic : w.cluster.panics disk a = true := (Bool.and_eq_true_iff.mp h).2
    cases Cluster.step_cases hs with
    | act hx =>
      cases hx with
      | sent _ _ _ _ => exact Cluster.sendTo_trace _ _ _
      | sendPanic _ _ => rfl
      | appended _ _ _ _ => rfl
      | appendPanic _ => rfl
      | installed _ _ _ _ => rfl
      | installPanic _ => rfl
      | _ => cases hpanic

end Runtime

namespace Api

namespace Session

variable {x : Session}

/-- The positions in the history that the request has to do with. -/
def points (x : Session) : List Nat := x.told.map Told.index ++ (x.query.map Prod.snd).toList

theorem mem_points {m : Nat} :
    m ∈ x.points ↔ (∃ t ∈ x.told, t.index = m) ∨ ∃ q, x.query = some (q, m) := by
  simp [points]

/-- The goroutine is in its loop. -/
def Open (x : Session) : Prop := x.stage = .ready ∨ ∃ id, x.stage = .proposing id

/-- The request had been answered before. -/
def AnsweredBefore (x : Session) (time : Nat) : Prop :=
  ∃ reply t, x.stage = .answered reply t ∧ t < time

@[simp] theorem cutOff_node : x.cutOff.node = x.node := by unfold cutOff; split <;> rfl

@[simp] theorem cutOff_caller : x.cutOff.caller = x.caller := by unfold cutOff; split <;> rfl

@[simp] theorem cutOff_cmds : x.cutOff.cmds = x.cmds := by unfold cutOff; split <;> rfl

@[simp] theorem cutOff_told : x.cutOff.told = x.told := by unfold cutOff; split <;> rfl

@[simp] theorem cutOff_query : x.cutOff.query = x.query := by unfold cutOff; split <;> rfl

@[simp] theorem cutOff_opened : x.cutOff.opened = x.opened := by unfold cutOff; split <;> rfl

@[simp] theorem cutOff_process : x.cutOff.process = x.process := by unfold cutOff; split <;> rfl

@[simp] theorem cutOff_points : x.cutOff.points = x.points := by simp [points]

/-- Nobody is answered by the end of a process. -/
theorem cutOff_answered {reply : Api.Result} {time : Nat} :
    x.cutOff.stage = .answered reply time ↔ x.stage = .answered reply time := by
  unfold cutOff
  split
  · exact Iff.rfl
  · rename_i h
    exact iff_of_false (by simp) (h reply time)

theorem not_open_cutOff : ¬ x.cutOff.Open := by
  unfold cutOff Open
  split
  · rename_i h
    simp [h]
  · simp

end Session

end Api

namespace Deployment

open Api (Session Told Query)
open Cluster (Advances LivesOn SerialRun)

variable {σ : Type} {E : ScanEngine σ} {M : Membership} {empty : σ} {threshold : NodeID → Int}
  {hist hist' : List (Cluster σ × Step)} {v v' : Deployment σ} {x y : Session} {i : NodeID}
  {o : Option Step}

/-! ## The invariant of a request -/

/-- The position came before the request: it is one of its own, it belongs to a request that had been
answered before, or to an earlier process of the same node. -/
inductive Before (v : Deployment σ) (x : Session) (m : Nat) : Prop
  | own {t : Told} (ht : t ∈ x.told) (hm : t.index = m)
  | answered {y : Session} (hy : y ∈ v.sessions) (ht : y.AnsweredBefore x.opened) (hm : m ∈ y.points)
  | ended {y : Session} (hy : y ∈ v.sessions) (hnode : y.node = x.node)
      (hprocess : y.process ≠ x.process) (hm : m ∈ y.points)

/-- The call was made in a step of the run by which everything earlier had been applied. -/
def Made (E : Engine σ) (M : Membership) (hist : List (Cluster σ × Step)) (i : NodeID) (p : Proposal)
    (earlier : Nat → Prop) : Prop :=
  ∃ (k : Nat) (ω : Cluster σ) (st : Step) (ω' : Cluster σ) (cmd : Command) (q : Proposal),
    hist[k]? = some (ω, st) ∧ st.action? = some (.propose i cmd) ∧ ω.step E M st = some ω' ∧
    (ω'.node i).proposals[(ω.node i).proposals.length]? = some q ∧ q.index = p.index ∧
    q.term = p.term ∧ ∀ m, 0 < m → earlier m → ∃ e ∈ ω.trace, e.2.index = m

/-- The `j`-th command of the request has been applied, with this result, as an entry of a term that its
node has led. -/
def Heard (hist : List (Cluster σ × Step)) (s : Cluster σ) (x : Session) (j : Nat) (t : Told) : Prop :=
  ∃ a, (x.node, a) ∈ s.trace ∧ a.index = t.index ∧ a.result = t.result ∧
    x.cmds[j]? = some a.entry.command ∧ ∃ τ ∈ Lib.visited hist s,
      (τ.node x.node).state = .leader ∧ (τ.node x.node).currentTerm = a.entry.term

/-- A store that node `i` had when it had applied `m` entries. -/
def Seen (hist : List (Cluster σ × Step)) (s : Cluster σ) (i : NodeID) (m : Nat) (store : σ) : Prop :=
  (∃ τ ∈ Lib.visited hist s, (τ.node i).lastApplied = m ∧ (τ.node i).storage = store) ∨
    ∃ a, (i, a) ∈ s.trace ∧ a.index = m + 1 ∧ a.store = store

/-- The answer is the one that the results call for. -/
inductive Outcome (E : ScanEngine σ) (seen : Nat → σ → Prop) (x : Session) : Api.Result → Prop
  /-- The handler has refused the request. -/
  | refused {resp : Api.Response} (hcmds : x.cmds = []) (hquery : x.query = none)
      (hstatus : resp.status = 400 ∨ resp.status = 405) : Outcome E seen x (.http resp)
  | read {q : Query} {m : Nat} {store : σ} (hcmds : x.cmds = []) (hquery : x.query = some (q, m))
      (hseen : seen m store) : Outcome E seen x (.http (q.answer E store))
  /-- Every command has succeeded. -/
  | succeeded (hquery : x.query = none) (hall : x.told.length = x.cmds.length)
      (hnil : ∀ t ∈ x.told, t.result = none) : Outcome E seen x x.caller.succeed
  /-- A command has been applied with an error, all before it have succeeded. -/
  | failed {before : List Told} {t : Told} {err : ApplyError} (hquery : x.query = none)
      (htold : x.told = before ++ [t]) (hnil : ∀ u ∈ before, u.result = none)
      (ht : t.result = some err) :
      Outcome E seen x (x.caller.fail x.cmds before.length (.apply err))
  /-- `Propose` has returned without a result, all commands before have succeeded. -/
  | gaveUp {err : Api.ProposeError} (hquery : x.query = none)
      (hlt : x.told.length < x.cmds.length) (hnil : ∀ t ∈ x.told, t.result = none)
      (herr : ∀ e, err ≠ .apply e) :
      Outcome E seen x (x.caller.fail x.cmds x.told.length err)

/-- What a request has to do with the cluster, whatever it does now. -/
structure Kept (hist : List (Cluster σ × Step)) (v : Deployment σ) (x : Session) : Prop where
  opened : x.opened < v.clock
  process : x.process ≤ v.restarts x.node
  heard : ∀ (j : Nat) (t : Told), x.told[j]? = some t → Heard hist v.runtime.cluster x j t
  order : x.told.Pairwise fun t u => t.index < u.index
  read : ∀ q m, x.query = some (q, m) → m = 0 ∨ ∃ e ∈ v.runtime.cluster.trace, e.2.index = m
  /-- As long as the process goes on, the calls are there, and what has been seen stays applied. -/
  current : x.process = v.restarts x.node →
    (∀ t ∈ x.told, ∃ p, (v.runtime.cluster.node x.node).proposals[t.id]? = some p ∧
      p.index = t.index ∧ p.done ≠ none ∧ p.waiting = false) ∧
    ∀ m ∈ x.points, m ≤ (v.runtime.cluster.node x.node).lastApplied

/-- **The invariant of a request.** -/
structure Tracked (E : ScanEngine σ) (M : Membership) (hist : List (Cluster σ × Step))
    (v : Deployment σ) (x : Session) : Prop extends Kept hist v x where
  /-- In the loop: the process goes on, and every command so far has succeeded. -/
  going : x.Open → x.process = v.restarts x.node ∧ x.query = none ∧
    x.told.length < x.cmds.length ∧ ∀ t ∈ x.told, t.result = none
  asked : ∀ id, x.stage = .proposing id → ∃ p, (v.runtime.cluster.node x.node).proposals[id]? = some p ∧
    p.waiting = true ∧ x.cmds[x.told.length]? = some p.command ∧
    Made E.toEngine M hist x.node p (Before v x)
  answered : ∀ reply time, x.stage = .answered reply time → time < v.clock ∧
    Outcome E (Seen hist v.runtime.cluster x.node) x reply

theorem Made.mono {s s' : Cluster σ} {p p' : Proposal} {earlier earlier' : Nat → Prop}
    (h : Made E.toEngine M hist i p earlier) (hadv : Advances E.toEngine M empty hist s o hist' s')
    (hsame : Cluster.SameCall p p') (hsub : ∀ m, earlier' m → earlier m) :
    Made E.toEngine M hist' i p' earlier' := by
  obtain ⟨k, ω, st, ω', cmd, q, hk, hst, hs, hq, hidx, hterm, hbefore⟩ := h
  obtain ⟨k', hk'⟩ := hadv.moment hk
  exact ⟨k', ω, st, ω', cmd, q, hk', hst, hs, hq, hidx.trans hsame.1.symm, hterm.trans hsame.2.1.symm,
    fun m hpos hm => hbefore m hpos (hsub m hm)⟩

theorem Heard.mono {s s' : Cluster σ} {j : Nat} {t : Told} (h : Heard hist s x j t)
    (hadv : Advances E.toEngine M empty hist s o hist' s') : Heard hist' s' x j t := by
  obtain ⟨a, ha, hidx, hres, hcmd, τ, hτ, hlead⟩ := h
  exact ⟨a, hadv.trace ha, hidx, hres, hcmd, τ, hadv.visited τ hτ, hlead⟩

theorem Seen.mono {s s' : Cluster σ} {m : Nat} {store : σ} (h : Seen hist s i m store)
    (hadv : Advances E.toEngine M empty hist s o hist' s') : Seen hist' s' i m store := by
  rcases h with ⟨τ, hτ, hrest⟩ | ⟨a, ha, hrest⟩
  · exact Or.inl ⟨τ, hadv.visited τ hτ, hrest⟩
  · exact Or.inr ⟨a, hadv.trace ha, hrest⟩

theorem Outcome.mono {seen seen' : Nat → σ → Prop} {reply : Api.Result} (h : Outcome E seen x reply)
    (hsub : ∀ m store, seen m store → seen' m store) : Outcome E seen' x reply := by
  cases h with
  | refused hcmds hquery hstatus => exact .refused hcmds hquery hstatus
  | read hcmds hquery hseen => exact .read hcmds hquery (hsub _ _ hseen)
  | succeeded hquery hall hnil => exact .succeeded hquery hall hnil
  | failed hquery htold hnil ht => exact .failed hquery htold hnil ht
  | gaveUp hquery hlt hnil herr => exact .gaveUp hquery hlt hnil herr

/-- An outcome does not depend on the stage. -/
theorem Outcome.congr {seen : Nat → σ → Prop} {reply : Api.Result} (h : Outcome E seen x reply)
    (hcaller : y.caller = x.caller) (hcmds : y.cmds = x.cmds) (htold : y.told = x.told)
    (hquery : y.query = x.query) : Outcome E seen y reply := by
  obtain ⟨_, _, _, _, _, _, _, _⟩ := x
  obtain ⟨_, _, _, _, _, _, _, _⟩ := y
  dsimp only at hcaller hcmds htold hquery
  subst hcaller hcmds htold hquery
  cases h with
  | refused hcmds hquery hstatus => exact .refused hcmds hquery hstatus
  | read hcmds hquery hseen => exact .read hcmds hquery hseen
  | succeeded hquery hall hnil => exact .succeeded hquery hall hnil
  | failed hquery htold hnil ht => exact .failed hquery htold hnil ht
  | gaveUp hquery hlt hnil herr => exact .gaveUp hquery hlt hnil herr

/-- What every position of a request was seen in. -/
theorem Kept.traced (h : Kept hist v x) {m : Nat} (hm : m ∈ x.points) (hpos : 0 < m) :
    ∃ e ∈ v.runtime.cluster.trace, e.2.index = m := by
  rcases Session.mem_points.mp hm with ⟨t, ht, rfl⟩ | ⟨q, hq⟩
  · obtain ⟨j, hj⟩ := List.getElem?_of_mem ht
    obtain ⟨a, ha, hidx, _⟩ := h.heard j t hj
    exact ⟨_, ha, hidx⟩
  · exact (h.read q m hq).resolve_left (Nat.pos_iff_ne_zero.mp hpos)

/-- A call comes after everything that came before its request. -/
theorem Made.lt {s : Cluster σ} {p : Proposal} {earlier : Nat → Prop} {m : Nat}
    (hodd : M.ids.length % 2 = 1) (hr : SerialRun E.toEngine M empty threshold hist s)
    (h : Made E.toEngine M hist i p earlier) {e : NodeID × Applied σ} (he : e ∈ s.trace)
    (hidx : e.2.index = p.index) (hterm : e.2.entry.term = p.term) (hm : earlier m) : m < p.index := by
  have hset : Cluster.Settled (Cluster.Serial E.toEngine empty) := Cluster.settled_serial
  obtain ⟨k, ω, st, ω', cmd, q, hk, hst, hs, hq, hqi, hqt, hbefore⟩ := h
  rcases Nat.eq_zero_or_pos m with rfl | hpos
  · rw [← hidx]
    exact ((Cluster.Reaches.applied hodd hset hr).entry _ he).1
  · obtain ⟨d, hd, rfl⟩ := hbefore m hpos hm
    rw [← hqi]
    exact hr.proposed_after hodd hset hk hst hs hq hd he (hidx.trans hqi.symm) (hterm.trans hqt.symm)

/-! ## Requests over a step -/

section Step

variable (hadv : Advances E.toEngine M empty hist v.runtime.cluster o hist' v'.runtime.cluster)
  (hclock : v'.clock = v.clock + 1)

include hadv hclock

/-- The process goes on. -/
theorem Kept.carry (h : Kept hist v x) (hr : SerialRun E.toEngine M empty threshold hist v.runtime.cluster)
    (hlive : ∀ st ∈ o, ¬ Cluster.Dies v.runtime.cluster st x.node)
    (hrestarts : v'.restarts x.node = v.restarts x.node) : Kept hist' v' x where
  opened := by rw [hclock]; exact h.opened.trans (Nat.lt_succ_self _)
  process := by rw [hrestarts]; exact h.process
  heard := fun j t ht => (h.heard j t ht).mono hadv
  order := h.order
  read := fun q m hq => (h.read q m hq).imp_right fun ⟨e, he, hm⟩ => ⟨e, hadv.trace he, hm⟩
  current := by
    rw [hrestarts]
    intro hcur
    have hkeeps := hadv.livesOn hr hlive
    obtain ⟨hcalls, hpoints⟩ := h.current hcur
    refine ⟨fun t ht => ?_, fun m hm => (hpoints m hm).trans hkeeps.applied⟩
    obtain ⟨p, hp, hidx, hdone, hwait⟩ := hcalls t ht
    obtain ⟨p', hp', hsame, hdone', hw, _⟩ := hkeeps.calls t.id p hp
    exact ⟨p', hp', hsame.1.trans hidx, by rw [hdone' hdone]; exact hdone, hw hwait⟩

/-- A request that the step does not concern. -/
theorem Tracked.carry (h : Tracked E M hist v x)
    (hr : SerialRun E.toEngine M empty threshold hist v.runtime.cluster)
    (hlive : ∀ st ∈ o, ¬ Cluster.Dies v.runtime.cluster st x.node)
    (hrestarts : v'.restarts x.node = v.restarts x.node)
    (hwaits : ∀ id, x.stage = .proposing id → ¬ Cluster.Ends o x.node id)
    (hbefore : x.Open → ∀ m, Before v' x m → Before v x m) : Tracked E M hist' v' x where
  toKept := h.toKept.carry hadv hclock hr hlive hrestarts
  going := by rw [hrestarts]; exact h.going
  asked := by
    intro id hid
    obtain ⟨p, hp, hwait, hcmd, hmade⟩ := h.asked id hid
    obtain ⟨p', hp', hsame, _, _, hw⟩ := (hadv.livesOn hr hlive).calls id p hp
    exact ⟨p', hp', (hw.resolve_right (hwaits id hid)).trans hwait, hsame.2.2 ▸ hcmd,
      hmade.mono hadv hsame (hbefore (Or.inr ⟨id, hid⟩))⟩
  answered := by
    intro reply time hst
    obtain ⟨htime, hout⟩ := h.answered reply time hst
    exact ⟨by rw [hclock]; exact htime.trans (Nat.lt_succ_self _),
      hout.mono fun _ _ hseen => hseen.mono hadv⟩

/-- A request whose process ends. -/
theorem Tracked.ended (h : Tracked E M hist v x)
    (hrestarts : v'.restarts x.node = v.restarts x.node + 1) : Tracked E M hist' v' x.cutOff where
  opened := by
    rw [Session.cutOff_opened, hclock]
    exact h.opened.trans (Nat.lt_succ_self _)
  process := by
    rw [Session.cutOff_process, Session.cutOff_node, hrestarts]
    exact Nat.le_succ_of_le h.process
  heard := by
    intro j t ht
    rw [Session.cutOff_told] at ht
    simpa only [Heard, Session.cutOff_node, Session.cutOff_cmds] using (h.heard j t ht).mono hadv
  order := by
    rw [Session.cutOff_told]
    exact h.order
  read := by
    intro q m hq
    rw [Session.cutOff_query] at hq
    exact (h.read q m hq).imp_right fun ⟨e, he, hm⟩ => ⟨e, hadv.trace he, hm⟩
  current := by
    intro hcur
    rw [Session.cutOff_process, Session.cutOff_node, hrestarts] at hcur
    have := h.process
    omega
  going := fun hopen => absurd hopen Session.not_open_cutOff
  asked := fun id hid => absurd (Or.inr ⟨id, hid⟩) Session.not_open_cutOff
  answered := by
    intro reply time hst
    obtain ⟨htime, hout⟩ := h.answered reply time (Session.cutOff_answered.mp hst)
    refine ⟨by rw [hclock]; exact htime.trans (Nat.lt_succ_self _), ?_⟩
    rw [Session.cutOff_node]
    exact (hout.mono fun _ _ hseen => hseen.mono hadv).congr Session.cutOff_caller Session.cutOff_cmds
      Session.cutOff_told Session.cutOff_query

/-- A request that is answered by the step. -/
theorem Tracked.close (h : Tracked E M hist v x)
    (hr : SerialRun E.toEngine M empty threshold hist v.runtime.cluster)
    (hlive : ∀ st ∈ o, ¬ Cluster.Dies v.runtime.cluster st x.node)
    (hrestarts : v'.restarts x.node = v.restarts x.node) {err : Api.ProposeError} (hopen : x.Open)
    (herr : ∀ e, err ≠ .apply e) :
    Tracked E M hist' v' (x.fail v.clock x.told.length err) := by
  have hk := h.toKept.carry hadv hclock hr hlive hrestarts
  obtain ⟨_, hquery, hlt, hnil⟩ := h.going hopen
  refine ⟨⟨hk.opened, hk.process, hk.heard, hk.order, hk.read, hk.current⟩, ?_, ?_, ?_⟩
  · rintro (hst | ⟨id, hst⟩) <;> cases hst
  · intro id hst
    cases hst
  · intro reply time hst
    cases hst
    refine ⟨by rw [hclock]; exact Nat.lt_succ_self _, ?_⟩
    exact Outcome.gaveUp hquery hlt hnil herr

omit hadv in
/-- A request that has just arrived. -/
theorem tracked_start {work : Api.Work} {store : σ} {applied : Nat}
    (hstatus : ∀ resp, work = .reply resp → resp.status = 400 ∨ resp.status = 405)
    (hseen : Seen hist' v'.runtime.cluster i applied store)
    (happlied : applied ≤ (v'.runtime.cluster.node i).lastApplied)
    (hread : applied = 0 ∨ ∃ e ∈ v'.runtime.cluster.trace, e.2.index = applied)
    (hrestarts : v'.restarts i = v.restarts i) :
    Tracked E M hist' v' (.start E v.clock (v.restarts i) i store applied work) := by
  have hnow : v.clock < v'.clock := by rw [hclock]; exact Nat.lt_succ_self _
  have hkept : ∀ (caller : Api.Caller) (cmds : List Command) (stage : Api.Stage)
      (query : Option (Query × Nat)), (∀ q m, query = some (q, m) → m = applied) →
      Kept hist' v' ⟨i, caller, cmds, [], stage, query, v.clock, v.restarts i⟩ := by
    intro caller cmds stage query hquery
    refine ⟨hnow, le_of_eq hrestarts.symm, fun j t ht => by simp at ht, List.Pairwise.nil, ?_, ?_⟩
    · intro q m hq
      rw [hquery q m hq]
      exact hread
    · intro _
      refine ⟨fun t ht => absurd ht List.not_mem_nil, fun m hm => ?_⟩
      rcases Session.mem_points.mp hm with ⟨t, ht, _⟩ | ⟨q, hq⟩
      · exact absurd ht List.not_mem_nil
      · rw [hquery q m hq]
        exact happlied
  cases work with
  | reply resp =>
    refine ⟨hkept _ _ _ none (by simp), ?_, ?_, ?_⟩
    · rintro (hst | ⟨id, hst⟩) <;> cases hst
    · intro id hst
      cases hst
    · intro reply time hst
      cases hst
      exact ⟨hnow, .refused rfl rfl (hstatus resp rfl)⟩
  | query q =>
    refine ⟨hkept _ _ _ (some (q, applied)) (by simp), ?_, ?_, ?_⟩
    · rintro (hst | ⟨id, hst⟩) <;> cases hst
    · intro id hst
      cases hst
    · intro reply time hst
      cases hst
      exact ⟨hnow, .read rfl rfl hseen⟩
  | propose caller cmds =>
    simp only [Session.start, Session.proceed]
    split
    · rename_i hlt
      refine ⟨hkept _ _ _ none (by simp), ?_, ?_, ?_⟩
      · exact fun _ => ⟨hrestarts.symm, rfl, hlt, fun t ht => absurd ht List.not_mem_nil⟩
      · intro id hst
        cases hst
      · intro reply time hst
        cases hst
    · rename_i hge
      refine ⟨hkept _ _ _ none (by simp), ?_, ?_, ?_⟩
      · rintro (hst | ⟨id, hst⟩) <;> cases hst
      · intro id hst
        cases hst
      · intro reply time hst
        cases hst
        exact ⟨hnow, .succeeded rfl (Nat.le_antisymm (Nat.zero_le _) (Nat.not_lt.mp hge))
          fun t ht => absurd ht List.not_mem_nil⟩

/-- A request whose `Propose` has left its critical section. -/
theorem Tracked.propose (h : Tracked E M hist v x)
    (hr : SerialRun E.toEngine M empty threshold hist v.runtime.cluster) {disk : Disk} {cmd : Command}
    (ho : o = some (.act disk (.propose x.node cmd)))
    (hrestarts : v'.restarts x.node = v.restarts x.node) (hready : x.stage = .ready)
    (hcmd : x.cmds[x.told.length]? = some cmd)
    (hbefore : ∀ id m, 0 < m → Before v' { x with stage := .proposing id } m →
      ∃ e ∈ v.runtime.cluster.trace, e.2.index = m) :
    Tracked E M hist' v'
      (x.proposed v.clock ((v.runtime.cluster.node x.node).propose disk cmd).2) := by
  have hlive : ∀ st ∈ o, ¬ Cluster.Dies v.runtime.cluster st x.node := by
    rintro st hst
    rw [ho] at hst
    cases hst
    exact id
  have hfail : ∀ {err : Api.ProposeError}, (∀ e, err ≠ .apply e) →
      Tracked E M hist' v' (x.fail v.clock x.told.length err) :=
    h.close hadv hclock hr hlive hrestarts (Or.inl hready)
  rcases Cluster.propose_cases disk (v.runtime.cluster.node x.node) cmd with
    ⟨leaderID, hout⟩ | hout | ⟨hout, hcalls⟩
  · rw [hout]
    exact hfail (by simp)
  · rw [hout]
    exact hfail (by simp)
  · rw [hout]
    have hk := h.toKept.carry hadv hclock hr hlive hrestarts
    obtain ⟨hproc, hquery, hlt, hnil⟩ := h.going (Or.inl hready)
    subst ho
    obtain ⟨rfl, hs, hnode⟩ := hadv.propose
    have hnew : (v'.runtime.cluster.node x.node).proposals[
        (v.runtime.cluster.node x.node).proposals.length]? = some
          { index := ((v.runtime.cluster.node x.node).proposalEntry cmd).index
            term := ((v.runtime.cluster.node x.node).proposalEntry cmd).term
            command := cmd } := by
      rw [hnode, hcalls, List.getElem?_concat_length]
    refine ⟨⟨hk.opened, hk.process, hk.heard, hk.order, hk.read, hk.current⟩, ?_, ?_, ?_⟩
    · exact fun _ => ⟨hproc.trans hrestarts.symm, hquery, hlt, hnil⟩
    · intro id hst
      cases hst
      exact ⟨_, hnew, rfl, hcmd, 0, _, _, _, cmd, _, rfl, rfl, hs, hnew, rfl, rfl,
        fun m hpos hm => hbefore _ m hpos hm⟩
    · intro reply time hst
      cases hst

/-- A request whose `Propose` has received a result. -/
theorem Tracked.receive (hodd : M.ids.length % 2 = 1) (h : Tracked E M hist v x)
    (hr : SerialRun E.toEngine M empty threshold hist v.runtime.cluster) {disk : Disk} {id : Nat}
    (ho : o = some (.act disk (.receive x.node id)))
    (hrestarts : v'.restarts x.node = v.restarts x.node) (hst : x.stage = .proposing id) :
    ∃ p r, (v.runtime.cluster.node x.node).proposals[id]? = some p ∧ p.done = some r ∧
      (∀ m, Before v x m → m < p.index) ∧
      Tracked E M hist' v' (x.received v.clock ⟨id, p.index, r⟩) := by
  have hlive : ∀ st ∈ o, ¬ Cluster.Dies v.runtime.cluster st x.node := by
    rintro st hst
    rw [ho] at hst
    cases hst
    exact fun h => h
  have hord := (Cluster.settled_serial :
    Cluster.Settled (Cluster.Serial E.toEngine empty)).toFaithful.toOrderly
  have hk := h.toKept.carry hadv hclock hr hlive hrestarts
  obtain ⟨hproc, hquery, hlt, hnil⟩ := h.going (Or.inr ⟨id, hst⟩)
  obtain ⟨p, hp, hwait, hcmd, hmade⟩ := h.asked id hst
  have hkeeps := hadv.livesOn hr hlive
  subst ho
  obtain ⟨p', r, hp', _, hdone, hnode⟩ := hadv.receive
  obtain rfl : p = p' := Option.some.inj (hp.symm.trans hp')
  -- the event that gave the result
  obtain ⟨hle, a, ha, hans⟩ := Cluster.Reaches.returned (fun _ _ h => h.1.1.1) (fun _ _ h => h.1.1.2.1)
    (fun _ _ h => h.2.1) (fun _ _ h => h.2.2.1) hr hp (by rw [hdone]; simp)
  obtain ⟨τ, hτ, hlead, hterm, _⟩ := (Cluster.Reaches.lined hodd hord hr x.node).led id p hp
  have hres : a.result = r := Option.some.inj (hans.sent.symm.trans hdone)
  have hlater : ∀ m, Before v x m → m < p.index := fun m hm =>
    hmade.lt hodd hr ha hans.index (by rw [hans.entry]; rfl) hm
  have hkept : ∀ stage, Kept hist' v' { x with told := x.told ++ [⟨id, p.index, r⟩], stage := stage } := by
    intro stage
    refine ⟨hk.opened, hk.process, fun j t ht => ?_, ?_, hk.read, fun hcur => ⟨fun t ht => ?_, ?_⟩⟩
    · rcases getElem?_concat_cases ht with ht | ⟨rfl, rfl⟩
      · exact hk.heard j t ht
      · exact ⟨a, hadv.trace ha, hans.index, hres, by rw [hans.entry]; exact hcmd, τ,
          hadv.visited τ hτ, hlead, by rw [hans.entry]; exact hterm⟩
    · refine List.pairwise_append.mpr ⟨hk.order, List.pairwise_singleton _ _, fun t ht u hu => ?_⟩
      rw [List.mem_singleton.mp hu]
      exact hlater _ (.own ht rfl)
    · rcases List.mem_append.mp ht with ht | ht
      · exact (hk.current hcur).1 t ht
      · rw [List.mem_singleton.mp ht]
        refine ⟨{ p with waiting := false }, ?_, rfl, by simp [hdone], rfl⟩
        rw [hnode]
        simp [RaftNode.release, hp]
    · intro m hm
      rcases Session.mem_points.mp hm with ⟨t, ht, rfl⟩ | ⟨q, hq⟩
      · rcases List.mem_append.mp ht with ht | ht
        · exact (hk.current hcur).2 _ (Session.mem_points.mpr (Or.inl ⟨t, ht, rfl⟩))
        · rw [List.mem_singleton.mp ht]
          exact hle.trans hkeeps.applied
      · rw [hquery] at hq
        cases hq
  have hnow : v.clock < v'.clock := by rw [hclock]; exact Nat.lt_succ_self _
  refine ⟨p, r, hp, hdone, hlater, ?_⟩
  unfold Session.received
  cases r with
  | some err =>
    refine ⟨hkept _, ?_, ?_, ?_⟩
    · rintro (hst | ⟨id, hst⟩) <;> cases hst
    · intro id hst
      cases hst
    · intro reply time hst
      cases hst
      exact ⟨hnow, .failed hquery rfl hnil rfl⟩
  | none =>
    have hnil' : ∀ t ∈ x.told ++ [⟨id, p.index, none⟩], t.result = none := by
      intro t ht
      rcases List.mem_append.mp ht with ht | ht
      · exact hnil t ht
      · rw [List.mem_singleton.mp ht]
    simp only [Session.proceed]
    split
    · rename_i hlt'
      refine ⟨hkept _, ?_, ?_, ?_⟩
      · exact fun _ => ⟨hproc.trans hrestarts.symm, hquery, hlt', hnil'⟩
      · intro id hst
        cases hst
      · intro reply time hst
        cases hst
    · rename_i hge
      refine ⟨hkept _, ?_, ?_, ?_⟩
      · rintro (hst | ⟨id, hst⟩) <;> cases hst
      · intro id hst
        cases hst
      · intro reply time hst
        cases hst
        refine ⟨hnow, .succeeded hquery ?_ hnil'⟩
        rw [List.length_append] at hge ⊢
        simp only [List.length_singleton] at hge ⊢
        omega

end Step

end Deployment

end Raftrix
