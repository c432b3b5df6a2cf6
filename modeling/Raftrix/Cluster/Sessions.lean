import Raftrix.Cluster.Server

/-!
# What the clients of a deployment see

The requests of a run against one another and against the history of `Cluster/Linearizability.lean`.

* **`clients_see_one_store`**: in every run as there, one list of entries explains every answer of every
  server. The commands of a request stand in it in their order, each once and with the result a single
  store gives there, and an answer says how far the request has come: `{"ok": true}` that every command has
  succeeded, an error which command failed, all before it having succeeded. A `GET` or a scan is answered
  from a prefix of the list. A request that is made after another one has been answered comes after it,
  whichever servers the two were sent to, except that a read may be older, unless the same process has
  answered both.

The invariant is `Consistent`: every request is `Tracked` (`Cluster/Server.lean`), and pairs of requests are
in order. What a step does to the list of requests is said once (`Next`).
-/

namespace Raftrix

namespace Deployment

open Api (Session Told Query)
open Cluster (Advances SerialRun)

variable {σ : Type} {E : ScanEngine σ} {M : Membership} {store : NodeID → σ} {empty : σ}
  {threshold : NodeID → Int} {ok : Cluster σ → Step → Prop}
  {past : List (Deployment σ × DeploymentStep)} {hist hist' : List (Cluster σ × Step)}
  {v v' : Deployment σ} {b : DeploymentStep} {x y : Session} {o : Option Step} {i : NodeID}

/-! ## Runs -/

/-- The guard of a deployment: one on the steps of its cluster. -/
def Allows (ok : Cluster σ → Step → Prop) (v : Deployment σ) (b : DeploymentStep) : Prop :=
  ∀ r, b.shows = some r → Runtime.Allows ok v.runtime r

/-- The runs of a deployment from its initial state, over the cluster steps `ok` allows. -/
abbrev Reaches (E : ScanEngine σ) (M : Membership) (store : NodeID → σ) (threshold : NodeID → Int)
    (ok : Cluster σ → Step → Prop) :=
  Lib.Run (fun v => v = init M store threshold) (step E M) (Allows ok)

/-- The outcomes of a step. -/
inductive Stepped (E : ScanEngine σ) (M : Membership) (v : Deployment σ) :
    DeploymentStep → Deployment σ → Prop
  | request {i : NodeID} {req : Api.Incoming} :
      Stepped E M v (.request i req)
        { v with sessions := v.sessions ++ [v.accept E i req], clock := v.clock + 1 }
  | call {k : Nat} {x : Session} {r : RuntimeStep} {w : Runtime σ} (hx : v.sessions[k]? = some x)
      (ht : x.takes r) (hw : v.runtime.step E.toEngine M r = some w) :
      Stepped E M v (.call k r)
        { v with
          runtime := w
          sessions := v.sessions.set k (x.after v.clock v.runtime r)
          clock := v.clock + 1 }
  | other {r : RuntimeStep} {reads : List (Api.Incoming × Nat)} {w : Runtime σ}
      (hr : r.isCall = false) (hw : v.runtime.step E.toEngine M r = some w) :
      Stepped E M v (.other r reads)
        { runtime := w
          sessions :=
            v.sessions.map (fun x => if v.runtime.ends r x.node then x.cutOff else x) ++
              reads.filterMap
                (v.readMeanwhile E (w.cluster.trace.drop v.runtime.cluster.trace.length))
          clock := v.clock + 1
          restarts := fun i => if v.runtime.ends r i then v.restarts i + 1 else v.restarts i }

theorem step_cases (h : v.step E M b = some v') : Stepped E M v b v' := by
  cases b with
  | request i req =>
    simp only [step] at h
    split at h <;> cases h
    exact .request
  | call k r =>
    simp only [step] at h
    split at h
    · rename_i hx
      split at h
      · rename_i ht
        obtain ⟨w, hw, rfl⟩ := Option.map_eq_some_iff.mp h
        exact .call hx ht hw
      · cases h
    · cases h
  | other r reads =>
    simp only [step] at h
    split at h
    · cases h
    · rename_i hr
      obtain ⟨w, hw, rfl⟩ := Option.map_eq_some_iff.mp h
      exact .other (Bool.eq_false_iff.mpr hr) hw

/-- What a run of the deployment shows is a run of the runtime. -/
theorem Reaches.runtime (h : Reaches E M store threshold ok past v) :
    Runtime.Reaches E.toEngine M store threshold ok
      (Lib.shown Deployment.runtime DeploymentStep.shows past) v.runtime := by
  refine Lib.Run.shown h ?_ ?_ ?_
  · rintro v rfl
    rfl
  · intro past v b v' _ _ hs hb
    cases step_cases hs with
    | request => rfl
    | call _ _ _ => cases hb
    | other _ _ => cases hb
  · intro past v b v' r _ hok hs hb
    refine ⟨hok r hb, ?_⟩
    cases step_cases hs with
    | request => cases hb
    | call _ _ hw =>
      obtain rfl := Option.some.inj hb
      exact hw
    | other _ hw =>
      obtain rfl := Option.some.inj hb
      exact hw

/-- The transitions of the cluster in a run. -/
def history (past : List (Deployment σ × DeploymentStep)) : List (Cluster σ × Step) :=
  Lib.shown Runtime.cluster RuntimeStep.shows (Lib.shown Deployment.runtime DeploymentStep.shows past)

/-- They are a run of the cluster. -/
theorem Reaches.cluster (h : Reaches E M store threshold ok past v) :
    Cluster.Reaches E.toEngine M store threshold ok (history past) v.runtime.cluster :=
  Runtime.Reaches.cluster h.runtime

/-- The step of the cluster. -/
def shown (b : DeploymentStep) : Option Step := b.shows.bind RuntimeStep.shows

theorem takes_cases {r : RuntimeStep} (h : x.takes r) :
    (∃ disk cmd, r = .cluster (.act disk (.propose x.node cmd)) ∧ x.stage = .ready ∧
      x.cmds[x.told.length]? = some cmd) ∨
    (∃ disk id, r = .cluster (.act disk (.receive x.node id)) ∧ x.stage = .proposing id) ∨
    (∃ disk id, r = .cluster (.act disk (.cancel x.node id)) ∧ x.stage = .proposing id) ∨
    ∃ id, r = .stop x.node (.giveUp id) ∧ x.stage = .proposing id := by
  unfold Session.takes at h
  split at h
  · obtain ⟨hready, rfl, hcmd⟩ := h
    exact Or.inl ⟨_, _, rfl, hready, hcmd⟩
  · obtain ⟨hst, rfl⟩ := h
    exact Or.inr (Or.inl ⟨_, _, rfl, hst⟩)
  · obtain ⟨hst, rfl⟩ := h
    exact Or.inr (Or.inr (Or.inl ⟨_, _, rfl, hst⟩))
  · obtain ⟨hst, rfl⟩ := h
    exact Or.inr (Or.inr (Or.inr ⟨_, rfl, hst⟩))
  · exact h.elim

/-- A request after a step of its own. -/
structure Called (v : Deployment σ) (x x' : Session) : Prop where
  node : x'.node = x.node
  query : x'.query = x.query
  opened : x'.opened = x.opened
  process : x'.process = x.process
  goes : x.Open
  time : ∀ reply time, x'.stage = .answered reply time → time = v.clock
  id : ∀ id, x'.stage = .proposing id → id = (v.runtime.cluster.node x.node).proposals.length
  told : x'.told = x.told ∨ ∃ t, x'.told = x.told ++ [t] ∧ x.stage = .proposing t.id ∧
    (∃ p, (v.runtime.cluster.node x.node).proposals[t.id]? = some p ∧ p.index = t.index ∧
      p.done ≠ none) ∧ ∀ m, Before v x m → m < t.index

/-- A request that the step has brought. -/
structure Fresh (v : Deployment σ) (z : Session) : Prop where
  told : z.told = []
  opened : z.opened = v.clock
  process : z.process = v.restarts z.node
  time : ∀ reply time, z.stage = .answered reply time → time = v.clock
  stage : ∀ id, z.stage ≠ .proposing id
  query : ∀ q m, z.query = some (q, m) → (v.runtime.cluster.node z.node).lastApplied ≤ m

/-- The `k`-th request after a step. -/
inductive Next (v : Deployment σ) (b : DeploymentStep) (k : Nat) : Session → Prop
  | kept {x : Session} (hx : v.sessions[k]? = some x) : Next v b k x
  | ended {x : Session} (hx : v.sessions[k]? = some x) : Next v b k x.cutOff
  | called {x x' : Session} {r : RuntimeStep} (hx : v.sessions[k]? = some x) (hb : b = .call k r)
      (h : Called v x x') : Next v b k x'
  | fresh {z : Session} (hk : v.sessions.length ≤ k) (h : Fresh v z) : Next v b k z

theorem called_fail (hopen : x.Open) (n : Nat) (err : Api.ProposeError) :
    Called v x (x.fail v.clock n err) where
  node := rfl
  query := rfl
  opened := rfl
  process := rfl
  goes := hopen
  time := by
    intro reply time hst
    cases hst
    rfl
  id := by
    intro id hst
    cases hst
  told := Or.inl rfl

theorem called_propose (hopen : x.Open) (disk : Disk) (cmd : Command) :
    Called v x (x.proposed v.clock ((v.runtime.cluster.node x.node).propose disk cmd).2) := by
  rcases Cluster.propose_cases disk (v.runtime.cluster.node x.node) cmd with
    ⟨leaderID, hout⟩ | hout | ⟨hout, _⟩
  · rw [hout]
    exact called_fail hopen _ _
  · rw [hout]
    exact called_fail hopen _ _
  · rw [hout]
    refine ⟨rfl, rfl, rfl, rfl, hopen, ?_, ?_, Or.inl rfl⟩
    · intro reply time hst
      cases hst
    · intro id hst
      cases hst
      rfl

theorem called_receive {id : Nat} {p : Proposal} {r : Option ApplyError}
    (hst : x.stage = .proposing id)
    (hp : (v.runtime.cluster.node x.node).proposals[id]? = some p) (hdone : p.done = some r)
    (hlater : ∀ m, Before v x m → m < p.index) :
    Called v x (x.received v.clock ⟨id, p.index, r⟩) := by
  have htold : ∃ t : Told, x.told ++ [⟨id, p.index, r⟩] = x.told ++ [t] ∧ x.stage = .proposing t.id ∧
      (∃ p, (v.runtime.cluster.node x.node).proposals[t.id]? = some p ∧ p.index = t.index ∧
        p.done ≠ none) ∧ ∀ m, Before v x m → m < t.index :=
    ⟨_, rfl, hst, ⟨p, hp, rfl, by rw [hdone]; simp⟩, hlater⟩
  have hopen : x.Open := Or.inr ⟨id, hst⟩
  unfold Session.received
  cases r with
  | some err =>
    refine ⟨rfl, rfl, rfl, rfl, hopen, ?_, ?_, Or.inr htold⟩
    · intro reply time h
      cases h
      rfl
    · intro id h
      cases h
  | none =>
    simp only [Session.proceed]
    split
    · refine ⟨rfl, rfl, rfl, rfl, hopen, ?_, ?_, Or.inr htold⟩
      · intro reply time h
        cases h
      · intro id h
        cases h
    · refine ⟨rfl, rfl, rfl, rfl, hopen, ?_, ?_, Or.inr htold⟩
      · intro reply time h
        cases h
        rfl
      · intro id h
        cases h

theorem fresh_start {work : Api.Work} {st : σ} {applied : Nat}
    (happlied : (v.runtime.cluster.node i).lastApplied ≤ applied) :
    Fresh v (.start E v.clock (v.restarts i) i st applied work) := by
  cases work with
  | reply resp =>
    refine ⟨rfl, rfl, rfl, ?_, by simp [Session.start], by simp [Session.start]⟩
    intro reply time h
    cases h
    rfl
  | query q =>
    refine ⟨rfl, rfl, rfl, ?_, by simp [Session.start], ?_⟩
    · intro reply time h
      cases h
      rfl
    · intro q m h
      cases h
      exact happlied
  | propose caller cmds =>
    simp only [Session.start, Session.proceed]
    split
    · exact ⟨rfl, rfl, rfl, by simp, by simp, by simp⟩
    · refine ⟨rfl, rfl, rfl, ?_, by simp, by simp⟩
      intro reply time h
      cases h
      rfl

/-! ## The invariant of a run -/

/-- **The invariant of a run.** -/
structure Consistent (E : ScanEngine σ) (M : Membership) (hist : List (Cluster σ × Step))
    (v : Deployment σ) : Prop where
  tracked : ∀ x ∈ v.sessions, Tracked E M hist v x
  /-- No two requests wait on one channel. -/
  solo : ∀ (k k' : Nat) (x y : Session) (id : Nat), v.sessions[k]? = some x →
    v.sessions[k']? = some y → x.node = y.node → x.stage = .proposing id →
      y.stage = .proposing id → k = k'
  /-- No two requests have an index in common. -/
  apart : ∀ (k k' : Nat) (x y : Session) (t u : Told), v.sessions[k]? = some x →
    v.sessions[k']? = some y → t ∈ x.told → u ∈ y.told → t.index = u.index → k = k'
  /-- A request comes after those that had been answered before it was made. -/
  timely : ∀ x ∈ v.sessions, ∀ y ∈ v.sessions, x.AnsweredBefore y.opened → ∀ m ∈ x.points,
    (∀ u ∈ y.told, m < u.index) ∧
      (x.node = y.node → x.process = y.process → ∀ q n, y.query = some (q, n) → m ≤ n)

/-- Nothing comes before a waiting request later on. -/
theorem before_of_next {m : Nat} (hall : ∀ y ∈ v.sessions, Tracked E M hist v y)
    (hnext : ∀ (k : Nat) (y : Session), v'.sessions[k]? = some y → Next v b k y)
    (hx : Tracked E M hist v x) (hopen : x.Open) (h : Before v' x m) : Before v x m := by
  have hearly := hx.opened
  cases h with
  | own ht hm => exact .own ht hm
  | answered hy ht hm =>
    obtain ⟨k, hk⟩ := List.getElem?_of_mem hy
    cases hnext k _ hk with
    | kept hold => exact .answered (List.mem_of_getElem? hold) ht hm
    | ended hold =>
      obtain ⟨reply, time, hst, hlt⟩ := ht
      exact .answered (List.mem_of_getElem? hold) ⟨reply, time, Session.cutOff_answered.mp hst, hlt⟩
        (Session.cutOff_points ▸ hm)
    | called _ _ hc =>
      obtain ⟨reply, time, hst, hlt⟩ := ht
      have := hc.time reply time hst
      omega
    | fresh _ hf =>
      obtain ⟨reply, time, hst, hlt⟩ := ht
      have := hf.time reply time hst
      omega
  | ended hy hnode hprocess hm =>
    obtain ⟨k, hk⟩ := List.getElem?_of_mem hy
    cases hnext k _ hk with
    | kept hold => exact .ended (List.mem_of_getElem? hold) hnode hprocess hm
    | ended hold =>
      exact .ended (List.mem_of_getElem? hold) (Session.cutOff_node ▸ hnode)
        (Session.cutOff_process ▸ hprocess) (Session.cutOff_points ▸ hm)
    | called hold _ hc =>
      refine absurd ?_ hprocess
      rw [hc.process, ((hall _ (List.mem_of_getElem? hold)).going hc.goes).1, ← hc.node, hnode]
      exact (hx.going hopen).1.symm
    | fresh _ hf =>
      refine absurd ?_ hprocess
      rw [hf.process, hnode]
      exact (hx.going hopen).1.symm

/-- A result that a request has: it had it before the step, or it has just received it. -/
theorem told_of_next {k : Nat} {t : Told} (h : Next v b k x) (ht : t ∈ x.told) :
    (∃ y, v.sessions[k]? = some y ∧ t ∈ y.told) ∨
      ∃ y r, v.sessions[k]? = some y ∧ b = .call k r ∧ y.stage = .proposing t.id ∧
        (∃ p, (v.runtime.cluster.node y.node).proposals[t.id]? = some p ∧ p.index = t.index ∧
          p.done ≠ none) ∧ ∀ m, Before v y m → m < t.index := by
  cases h with
  | kept hy => exact Or.inl ⟨_, hy, ht⟩
  | ended hy => exact Or.inl ⟨_, hy, Session.cutOff_told ▸ ht⟩
  | called hy hb hc =>
    rcases hc.told with hsame | ⟨u, htold, hst, hp, hlater⟩
    · exact Or.inl ⟨_, hy, hsame ▸ ht⟩
    · rw [htold] at ht
      rcases List.mem_append.mp ht with ht | ht
      · exact Or.inl ⟨_, hy, ht⟩
      · obtain rfl := List.mem_singleton.mp ht
        exact Or.inr ⟨_, _, hy, hb, hst, hp, hlater⟩
  | fresh _ hf =>
    rw [hf.told] at ht
    exact absurd ht List.not_mem_nil

/-- **The index of a call that receives its result is nobody else's.** -/
theorem Consistent.index_new (hodd : M.ids.length % 2 = 1) (h : Consistent E M hist v)
    (hr : SerialRun E.toEngine M empty threshold hist v.runtime.cluster) (hx : x ∈ v.sessions)
    (hy : y ∈ v.sessions) {id : Nat} (hst : x.stage = .proposing id) {p : Proposal}
    (hp : (v.runtime.cluster.node x.node).proposals[id]? = some p) (hdone : p.done ≠ none)
    (hlater : ∀ m, Before v x m → m < p.index) {u : Told} (hu : u ∈ y.told) : p.index ≠ u.index := by
  intro heq
  have hset : Cluster.Settled (Cluster.Serial E.toEngine empty) := Cluster.settled_serial
  have hord := hset.toFaithful.toOrderly
  obtain ⟨X, hevents, _⟩ := hr.exists_common hodd hset fun _ _ h => h.2.2.2
  -- at one index there is one entry, so the calls are of one term, and of the leader of that term
  have hentry : ∀ {d e : NodeID × Applied σ}, d ∈ v.runtime.cluster.trace →
      e ∈ v.runtime.cluster.trace → d.2.index = e.2.index → d.2.entry = e.2.entry := by
    intro d e hd he hidx
    have hX := (hevents d hd).entry
    rw [hidx, (hevents e he).entry] at hX
    exact (Option.some.inj hX).symm
  have hreturned := fun {i : NodeID} {id : Nat} {p : Proposal}
    (hp : (v.runtime.cluster.node i).proposals[id]? = some p) hdone =>
      Cluster.Reaches.returned (fun _ _ h => h.1.1.1) (fun _ _ h => h.1.1.2.1) (fun _ _ h => h.2.1)
        (fun _ _ h => h.2.2.1) hr hp hdone
  have hlined := Cluster.Reaches.lined hodd hord hr
  obtain ⟨_, a, ha, hans⟩ := hreturned hp hdone
  obtain ⟨j, hj⟩ := List.getElem?_of_mem hu
  obtain ⟨c, hc, hcu, _, _, τ, hτ, hlead, hterm⟩ := (h.tracked y hy).heard j u hj
  have hac : a.entry = c.entry := hentry ha hc (by rw [hans.index, hcu, heq])
  obtain ⟨ω, hω, hlead', hterm', _⟩ := (hlined x.node).led id p hp
  have hnode : y.node = x.node :=
    hr.leader_unique hodd hord.metaDurable hτ hω hlead hlead' (by rw [hterm, hterm', ← hac, hans.entry]; rfl)
  obtain ⟨hcur, _⟩ := (h.tracked x hx).going (Or.inr ⟨id, hst⟩)
  by_cases hproc : y.process = v.restarts y.node
  · -- both calls are there, and calls of one term stand in the order of their indices
    obtain ⟨q, hq, hqu, hqd, hqw⟩ := ((h.tracked y hy).current hproc).1 u hu
    rw [hnode] at hq
    obtain ⟨p', hp', hwait, _⟩ := (h.tracked x hx).asked id hst
    obtain ⟨_, d, hd, hansd⟩ := hreturned hq hqd
    have hpq : p.term = q.term := by
      have := hentry ha hd (by rw [hans.index, hansd.index, hqu, heq])
      rw [hans.entry, hansd.entry] at this
      exact congrArg LogEntry.term this
    rcases Nat.lt_trichotomy id u.id with hlt | hid | hlt
    · have := (hlined x.node).apart id u.id p q hlt hp hq hpq
      omega
    · rw [← hid, hp'] at hq
      rw [Option.some.inj hq, hqw] at hwait
      cases hwait
    · have := (hlined x.node).apart u.id id q p hlt hq hp hpq.symm
      omega
  · -- the process that has received the other result had ended before the call was made
    have hbefore : Before v x u.index := by
      refine .ended hy hnode (fun hsame => hproc ?_)
        (Session.mem_points.mpr (Or.inl ⟨u, hu, rfl⟩))
      rw [hsame, hcur, hnode]
    have := hlater _ hbefore
    omega

/-- Pairs of requests over a step. -/
theorem Consistent.next (hodd : M.ids.length % 2 = 1) (h : Consistent E M hist v)
    (hr : SerialRun E.toEngine M empty threshold hist v.runtime.cluster)
    (hnext : ∀ (k : Nat) (y : Session), v'.sessions[k]? = some y → Next v b k y)
    (htracked : ∀ y ∈ v'.sessions, Tracked E M hist' v' y) : Consistent E M hist' v' where
  tracked := htracked
  solo := by
    have hlast : ∀ {k : Nat} {x x' y : Session} {id : Nat}, Called v x x' →
        v.sessions[k]? = some y → x'.node = y.node → x'.stage = .proposing id →
        y.stage ≠ .proposing id := by
      intro k x x' y id hc hy hnode hst hst'
      obtain ⟨p, hp, _⟩ := (h.tracked y (List.mem_of_getElem? hy)).asked id hst'
      have hlt := (List.getElem?_eq_some_iff.mp hp).1
      rw [hc.id id hst, ← hnode, hc.node] at hlt
      exact lt_irrefl _ hlt
    intro k k' x y id hx hy hnode hst hst'
    cases hnext k x hx with
    | ended _ => exact absurd (Or.inr ⟨id, hst⟩) Session.not_open_cutOff
    | fresh _ hf => exact absurd hst (hf.stage id)
    | kept hx =>
      cases hnext k' y hy with
      | ended _ => exact absurd (Or.inr ⟨id, hst'⟩) Session.not_open_cutOff
      | fresh _ hf => exact absurd hst' (hf.stage id)
      | kept hy => exact h.solo k k' x y id hx hy hnode hst hst'
      | called _ _ hc => exact absurd hst (hlast hc hx hnode.symm hst')
    | called _ hb hc =>
      cases hnext k' y hy with
      | ended _ => exact absurd (Or.inr ⟨id, hst'⟩) Session.not_open_cutOff
      | fresh _ hf => exact absurd hst' (hf.stage id)
      | kept hy => exact absurd hst' (hlast hc hy hnode hst)
      | called _ hb' _ =>
        rw [hb] at hb'
        cases hb'
        rfl
  apart := by
    intro k k' x y t u hx hy ht hu hidx
    rcases told_of_next (hnext k x hx) ht with
      ⟨x₀, hx₀, ht⟩ | ⟨x₀, r, hx₀, hb, hst, ⟨p, hp, hpt, hdone⟩, hlater⟩
    · rcases told_of_next (hnext k' y hy) hu with
        ⟨y₀, hy₀, hu⟩ | ⟨y₀, r, hy₀, hb, hst, ⟨p, hp, hpu, hdone⟩, hlater⟩
      · exact h.apart k k' x₀ y₀ t u hx₀ hy₀ ht hu hidx
      · refine absurd ?_ (h.index_new hodd hr (List.mem_of_getElem? hy₀) (List.mem_of_getElem? hx₀) hst hp
          hdone (by rw [hpu]; exact hlater) ht)
        rw [hpu, hidx]
    · rcases told_of_next (hnext k' y hy) hu with
        ⟨y₀, hy₀, hu⟩ | ⟨y₀, r', hy₀, hb', _⟩
      · refine absurd ?_ (h.index_new hodd hr (List.mem_of_getElem? hx₀) (List.mem_of_getElem? hy₀) hst hp
          hdone (by rw [hpt]; exact hlater) hu)
        rw [hpt, hidx]
      · rw [hb] at hb'
        cases hb'
        rfl
  timely := by
    intro x hx y hy hbefore m hm
    obtain ⟨k, hk⟩ := List.getElem?_of_mem hx
    obtain ⟨k', hk'⟩ := List.getElem?_of_mem hy
    have hopened : y.opened ≤ v.clock := by
      cases hnext k' y hk' with
      | kept hold => exact le_of_lt (h.tracked _ (List.mem_of_getElem? hold)).opened
      | ended hold =>
        rw [Session.cutOff_opened]
        exact le_of_lt (h.tracked _ (List.mem_of_getElem? hold)).opened
      | called hold _ hc =>
        rw [hc.opened]
        exact le_of_lt (h.tracked _ (List.mem_of_getElem? hold)).opened
      | fresh _ hf => exact le_of_eq hf.opened
    -- the one that had been answered is as it was
    obtain ⟨x₀, hx₀, hbefore₀, hm₀, hnode₀, hproc₀⟩ : ∃ x₀ ∈ v.sessions,
        x₀.AnsweredBefore y.opened ∧ m ∈ x₀.points ∧ x₀.node = x.node ∧ x₀.process = x.process := by
      cases hnext k x hk with
      | kept hold => exact ⟨x, List.mem_of_getElem? hold, hbefore, hm, rfl, rfl⟩
      | @ended x₀ hold =>
        obtain ⟨reply, time, hst, hlt⟩ := hbefore
        exact ⟨x₀, List.mem_of_getElem? hold, ⟨reply, time, Session.cutOff_answered.mp hst, hlt⟩,
          Session.cutOff_points ▸ hm, Session.cutOff_node.symm, Session.cutOff_process.symm⟩
      | called _ _ hc =>
        obtain ⟨reply, time, hst, hlt⟩ := hbefore
        have := hc.time reply time hst
        omega
      | fresh _ hf =>
        obtain ⟨reply, time, hst, hlt⟩ := hbefore
        have := hf.time reply time hst
        omega
    rw [← hnode₀, ← hproc₀]
    cases hnext k' y hk' with
    | kept hold => exact h.timely x₀ hx₀ y (List.mem_of_getElem? hold) hbefore₀ m hm₀
    | @ended y₀ hold =>
      rw [Session.cutOff_told, Session.cutOff_node, Session.cutOff_process, Session.cutOff_query]
      rw [Session.cutOff_opened] at hbefore₀
      exact h.timely x₀ hx₀ y₀ (List.mem_of_getElem? hold) hbefore₀ m hm₀
    | @called y₀ _ _ hold _ hc =>
      rw [hc.opened] at hbefore₀
      obtain ⟨hlt, hread⟩ := h.timely x₀ hx₀ y₀ (List.mem_of_getElem? hold) hbefore₀ m hm₀
      refine ⟨fun u hu => ?_, by rw [hc.node, hc.process, hc.query]; exact hread⟩
      rcases hc.told with hsame | ⟨t, htold, _, _, hlater⟩
      · exact hlt u (hsame ▸ hu)
      · rw [htold] at hu
        rcases List.mem_append.mp hu with hu | hu
        · exact hlt u hu
        · rw [List.mem_singleton.mp hu]
          exact hlater m (.answered hx₀ hbefore₀ hm₀)
    | fresh _ hf =>
      refine ⟨fun u hu => absurd hu (by rw [hf.told]; exact List.not_mem_nil), ?_⟩
      intro hnode hproc q n hq
      have hcur : x₀.process = v.restarts x₀.node := by rw [hproc, hf.process, hnode]
      have hle := ((h.tracked x₀ hx₀).current hcur).2 m hm₀
      rw [hnode] at hle
      exact hle.trans (hf.query q n hq)

/-! ## Every step keeps it -/

theorem Before.traced {m : Nat} (hall : ∀ y ∈ v.sessions, Tracked E M hist v y)
    (hx : Tracked E M hist v x) (h : Before v x m) (hpos : 0 < m) :
    ∃ e ∈ v.runtime.cluster.trace, e.2.index = m := by
  cases h with
  | own ht hm => exact hx.traced (Session.mem_points.mpr (Or.inl ⟨_, ht, hm⟩)) hpos
  | answered hy _ hm => exact (hall _ hy).traced hm hpos
  | ended hy _ _ hm => exact (hall _ hy).traced hm hpos

/-- What has been applied has been seen. -/
theorem applied_seen (hodd : M.ids.length % 2 = 1) {s : Cluster σ}
    (hr : SerialRun E.toEngine M empty threshold hist s) {m : Nat} (hm : m ≤ (s.node i).lastApplied) :
    m = 0 ∨ ∃ e ∈ s.trace, e.2.index = m := by
  rcases Nat.eq_zero_or_pos m with h0 | hpos
  · exact Or.inl h0
  · obtain ⟨a, ha, hidx⟩ :=
      (Cluster.Reaches.applied hodd Cluster.settled_serial hr).passed i m hpos hm
    exact Or.inr ⟨_, ha, hidx⟩

theorem status_of_reply {req : Api.Incoming} {resp : Api.Response} (h : req.work = .reply resp) :
    resp.status = 400 ∨ resp.status = 405 := by
  cases req with
  | scan start => cases h
  | commit txn => cases h
  | client req =>
    simp only [Api.Incoming.work] at h
    split at h
    · rename_i status message herr
      cases h
      cases req with
      | key method path body =>
        simp only [Api.handle, Api.handleKey] at herr
        split at herr
        · cases herr
          exact Or.inl rfl
        · split at herr
          · cases herr
          · cases body <;> cases herr
            exact Or.inl rfl
          · cases herr
          · cases herr
            exact Or.inr rfl
      | cas method path body =>
        simp only [Api.handle, Api.handleCAS] at herr
        split at herr
        · cases herr
          exact Or.inr rfl
        · split at herr
          · cases herr
            exact Or.inl rfl
          · split at herr <;> cases herr
            exact Or.inl rfl
      | txn method body =>
        simp only [Api.handle, Api.handleTxn] at herr
        split at herr
        · cases herr
          exact Or.inr rfl
        · split at herr <;> cases herr
          exact Or.inl rfl
    · cases h
    · cases h

/-- A request arrives. -/
theorem Consistent.request (hodd : M.ids.length % 2 = 1) (h : Consistent E M hist v)
    (hr : SerialRun E.toEngine M empty threshold hist v.runtime.cluster) (i : NodeID)
    (req : Api.Incoming) :
    Consistent E M hist
      { v with sessions := v.sessions ++ [v.accept E i req], clock := v.clock + 1 } := by
  have hnext : ∀ (k : Nat) (y : Session), (v.sessions ++ [v.accept E i req])[k]? = some y →
      Next v (.request i req) k y := by
    intro k y hk
    rcases getElem?_concat_cases hk with hk | ⟨rfl, rfl⟩
    · exact .kept hk
    · exact .fresh le_rfl (fresh_start le_rfl)
  refine h.next hodd hr hnext fun y hy => ?_
  rcases List.mem_append.mp hy with hy | hy
  · have hadv : Advances E.toEngine M empty hist v.runtime.cluster none hist v.runtime.cluster := .idle
    refine Tracked.carry (v := v) hadv rfl (h.tracked y hy) hr ?_ rfl ?_ fun hopen m hm => ?_
    · intro st hst
      cases hst
    · rintro id _ ⟨st, hst, _⟩
      cases hst
    · exact before_of_next h.tracked hnext (h.tracked y hy) hopen hm
  · rw [List.mem_singleton.mp hy]
    exact tracked_start rfl (fun resp => status_of_reply)
      (Or.inl ⟨_, Lib.self_mem_visited _ _, rfl, rfl⟩) le_rfl (applied_seen hodd hr le_rfl) rfl

theorem getElem?_set_cases {α : Type} {l : List α} {a c : α} {k j : Nat}
    (h : (l.set k a)[j]? = some c) : l[j]? = some c ∧ k ≠ j ∨ k = j ∧ c = a := by
  by_cases hkj : k = j
  · subst hkj
    have hlt : k < l.length := by
      have := (List.getElem?_eq_some_iff.mp h).1
      rwa [List.length_set] at this
    rw [List.getElem?_set_self hlt] at h
    exact Or.inr ⟨rfl, (Option.some.inj h).symm⟩
  · rw [List.getElem?_set_ne hkj] at h
    exact Or.inl ⟨h, hkj⟩

/-- A request has taken a step of its own, and the others go on. -/
theorem Consistent.of_called (hodd : M.ids.length % 2 = 1) (h : Consistent E M hist v)
    (hr : SerialRun E.toEngine M empty threshold hist v.runtime.cluster) {k : Nat} {r : RuntimeStep}
    {x' : Session} (hx : v.sessions[k]? = some x)
    (hadv : Advances E.toEngine M empty hist v.runtime.cluster o hist' v'.runtime.cluster)
    (hclock : v'.clock = v.clock + 1) (hrestarts : v'.restarts = v.restarts)
    (hsessions : v'.sessions = v.sessions.set k x') (hcalled : Called v x x')
    (hlive : ∀ i, ∀ st ∈ o, ¬ Cluster.Dies v.runtime.cluster st i)
    (hends : ∀ i id, Cluster.Ends o i id → i = x.node ∧ x.stage = .proposing id)
    (htracked : (∀ m, Before v' x m → Before v x m) → Tracked E M hist' v' x') :
    Consistent E M hist' v' := by
  have hnext : ∀ (j : Nat) (y : Session), v'.sessions[j]? = some y → Next v (.call k r) j y := by
    intro j y hj
    rw [hsessions] at hj
    rcases getElem?_set_cases hj with ⟨hj, _⟩ | ⟨rfl, rfl⟩
    · exact .kept hj
    · exact .called hx rfl hcalled
  refine h.next hodd hr hnext fun y hy => ?_
  obtain ⟨j, hj⟩ := List.getElem?_of_mem hy
  rw [hsessions] at hj
  rcases getElem?_set_cases hj with ⟨hj, hne⟩ | ⟨rfl, rfl⟩
  · have hyt := h.tracked y (List.mem_of_getElem? hj)
    refine hyt.carry hadv hclock hr (hlive _) (by rw [hrestarts]) (fun id hst hend => ?_)
      fun hopen m hm => before_of_next h.tracked hnext hyt hopen hm
    obtain ⟨hnode, hst'⟩ := hends _ id hend
    exact hne (h.solo k j x y id hx hj hnode.symm hst' hst)
  · exact htracked fun m hm =>
      before_of_next h.tracked hnext (h.tracked x (List.mem_of_getElem? hx)) hcalled.goes hm

/-- A request takes a step of its `Propose` call. -/
theorem Consistent.call (hodd : M.ids.length % 2 = 1) (h : Consistent E M hist v)
    (hr : SerialRun E.toEngine M empty threshold hist v.runtime.cluster) {k : Nat} {r : RuntimeStep}
    (hx : v.sessions[k]? = some x) (ht : x.takes r)
    (hadv : Advances E.toEngine M empty hist v.runtime.cluster r.shows hist' v'.runtime.cluster)
    (hclock : v'.clock = v.clock + 1) (hrestarts : v'.restarts = v.restarts)
    (hsessions : v'.sessions = v.sessions.set k (x.after v.clock v.runtime r)) :
    Consistent E M hist' v' := by
  have hxt := h.tracked x (List.mem_of_getElem? hx)
  have hrest : v'.restarts x.node = v.restarts x.node := by rw [hrestarts]
  rcases takes_cases ht with ⟨disk, cmd, rfl, hready, hcmd⟩ | ⟨disk, id, rfl, hst⟩ |
    ⟨disk, id, rfl, hst⟩ | ⟨id, rfl, hst⟩
  · have hlive : ∀ i, ∀ st ∈ RuntimeStep.shows (.cluster (.act disk (.propose x.node cmd))),
        ¬ Cluster.Dies v.runtime.cluster st i := by
      rintro i st ⟨⟩
      exact id
    refine h.of_called (r := .cluster (.act disk (.propose x.node cmd))) hodd hr hx hadv hclock hrestarts
      hsessions (called_propose (Or.inl hready) disk cmd) hlive ?_ fun hbefore => ?_
    · rintro i id ⟨st, ⟨⟩, hst | hst⟩ <;> cases hst
    · refine hxt.propose hadv hclock hr rfl hrest hready hcmd fun id m hpos hm => ?_
      have hm' : Before v' x m := by
        cases hm with
        | own ht hm => exact .own ht hm
        | answered hy ht hm => exact .answered hy ht hm
        | ended hy hnode hprocess hm => exact .ended hy hnode hprocess hm
      exact (hbefore m hm').traced h.tracked hxt hpos
  · have hlive : ∀ i, ∀ st ∈ RuntimeStep.shows (.cluster (.act disk (.receive x.node id))),
        ¬ Cluster.Dies v.runtime.cluster st i := by
      rintro i st ⟨⟩
      exact fun h => h
    obtain ⟨p, res, hp, hdone, hlater, htracked⟩ := hxt.receive hadv hclock hodd hr rfl hrest hst
    have hafter : x.after v.clock v.runtime (.cluster (.act disk (.receive x.node id))) =
        x.received v.clock ⟨id, p.index, res⟩ := by
      obtain ⟨index, term, command, done, waiting⟩ := p
      subst hdone
      simp only [Session.after, hp]
    rw [hafter] at hsessions
    refine h.of_called (r := .cluster (.act disk (.receive x.node id))) hodd hr hx hadv hclock hrestarts
      hsessions (called_receive hst hp hdone hlater) hlive ?_ fun _ => htracked
    rintro i id' ⟨st, ⟨⟩, hact | hact⟩
    · cases hact
      exact ⟨rfl, hst⟩
    · cases hact
  · have hlive : ∀ i, ∀ st ∈ RuntimeStep.shows (.cluster (.act disk (.cancel x.node id))),
        ¬ Cluster.Dies v.runtime.cluster st i := by
      rintro i st ⟨⟩
      exact fun h => h
    refine h.of_called (r := .cluster (.act disk (.cancel x.node id))) hodd hr hx hadv hclock hrestarts
      hsessions (called_fail (Or.inr ⟨id, hst⟩) _ .contextEnded) hlive ?_ fun _ =>
        hxt.close hadv hclock hr (hlive _) hrest (Or.inr ⟨id, hst⟩) (by simp)
    rintro i id' ⟨st, ⟨⟩, hact | hact⟩
    · cases hact
    · cases hact
      exact ⟨rfl, hst⟩
  · have hlive : ∀ i, ∀ st ∈ RuntimeStep.shows (.stop x.node (.giveUp id)),
        ¬ Cluster.Dies v.runtime.cluster st i := by
      rintro i st ⟨⟩
    refine h.of_called (r := .stop x.node (.giveUp id)) hodd hr hx hadv hclock hrestarts hsessions
      (called_fail (Or.inr ⟨id, hst⟩) _ .nodeStopped) hlive ?_ fun _ =>
        hxt.close hadv hclock hr (hlive _) hrest (Or.inr ⟨id, hst⟩) (by simp)
    rintro i id' ⟨st, ⟨⟩, _⟩

/-- A request that reads the store while commands are applied. -/
theorem read_cases {applied : List (NodeID × Applied σ)} {rd : Api.Incoming × Nat} {z : Session}
    (h : v.readMeanwhile E applied rd = some z) : ∃ i a q, (i, a) ∈ applied ∧
      z = .start E v.clock (v.restarts i) i a.store (a.index - 1) (.query q) := by
  obtain ⟨req, r⟩ := rd
  simp only [readMeanwhile] at h
  split at h
  · rename_i i a q ha _
    exact ⟨i, a, q, List.mem_of_getElem? ha, (Option.some.inj h).symm⟩
  · cases h

/-- Anything else happens. -/
theorem Consistent.other (hodd : M.ids.length % 2 = 1) (h : Consistent E M hist v)
    (hr : SerialRun E.toEngine M empty threshold hist v.runtime.cluster) {r : RuntimeStep}
    {reads : List (Api.Incoming × Nat)} (hcall : r.isCall = false) (hsound : v.runtime.Sound M)
    (hw : v.runtime.step E.toEngine M r = some v'.runtime)
    (hadv : Advances E.toEngine M empty hist v.runtime.cluster r.shows hist' v'.runtime.cluster)
    (hclock : v'.clock = v.clock + 1)
    (hrestarts : ∀ i, v'.restarts i =
      if v.runtime.ends r i then v.restarts i + 1 else v.restarts i)
    (hsessions : v'.sessions =
      v.sessions.map (fun x => if v.runtime.ends r x.node then x.cutOff else x) ++
        reads.filterMap
          (v.readMeanwhile E (v'.runtime.cluster.trace.drop v.runtime.cluster.trace.length))) :
    Consistent E M hist' v' := by
  -- a request that the step brings
  have hbrought : ∀ {z : Session}, z ∈ reads.filterMap
      (v.readMeanwhile E (v'.runtime.cluster.trace.drop v.runtime.cluster.trace.length)) →
      Fresh v z ∧ Tracked E M hist' v' z := by
    intro z hz
    obtain ⟨rd, _, hrd⟩ := List.mem_filterMap.mp hz
    obtain ⟨i, a, q, ha, rfl⟩ := read_cases hrd
    obtain ⟨hlo, hhi⟩ := hadv.fresh hr ha
    dsimp only at hlo hhi
    have hlives : v.runtime.ends r i = false := by
      by_contra hends
      rcases hsound.shows hw with ⟨_, hsame⟩ | ⟨st, rfl, hs⟩
      · rw [hsame, List.drop_length] at ha
        exact absurd ha List.not_mem_nil
      · rw [Runtime.ends_trace (Bool.eq_true_of_not_eq_false hends) hs, List.drop_length] at ha
        exact absurd ha List.not_mem_nil
    refine ⟨fresh_start (Nat.le_sub_one_of_lt hlo), tracked_start hclock ?_ ?_ ?_ ?_ ?_⟩
    · intro resp hresp
      cases hresp
    · exact Or.inr ⟨a, List.mem_of_mem_drop ha, by omega, rfl⟩
    · omega
    · exact applied_seen hodd (hadv.run hr) (i := i) (by omega)
    · rw [hrestarts, hlives]
      rfl
  have hnext : ∀ (k : Nat) (y : Session), v'.sessions[k]? = some y → Next v (.other r reads) k y := by
    intro k y hk
    rw [hsessions] at hk
    rcases Nat.lt_or_ge k v.sessions.length with hlt | hge
    · rw [List.getElem?_append_left (by rw [List.length_map]; exact hlt), List.getElem?_map] at hk
      obtain ⟨x, hx, rfl⟩ := Option.map_eq_some_iff.mp hk
      split
      · exact .ended hx
      · exact .kept hx
    · rw [List.getElem?_append_right (by rw [List.length_map]; exact hge)] at hk
      exact .fresh hge (hbrought (List.mem_of_getElem? hk)).1
  refine h.next hodd hr hnext fun y hy => ?_
  rw [hsessions] at hy
  rcases List.mem_append.mp hy with hy | hy
  · obtain ⟨x, hx, rfl⟩ := List.mem_map.mp hy
    have hxt := h.tracked x hx
    split
    · rename_i hends
      exact hxt.ended hadv hclock (by rw [hrestarts, if_pos hends])
    · rename_i hends
      have hlives := Bool.eq_false_iff.mpr hends
      refine hxt.carry hadv hclock hr ?_ (by rw [hrestarts, if_neg hends]) ?_
        fun hopen m hm => before_of_next h.tracked hnext hxt hopen hm
      · intro st hst
        cases r with
        | loop i l => cases hst
        | stop i l => cases hst
        | cluster st' =>
          cases hst
          exact Runtime.not_dies hlives
      · rintro id _ ⟨st, hst, hact⟩
        cases r with
        | loop i l => cases hst
        | stop i l => cases hst
        | cluster st' =>
          cases hst
          -- the end of a call is a step of its request, unless the process dies over it
          cases st with
          | act disk a => rcases hact with hact | hact <;> (cases hact; cases hcall)
          | crash j => rcases hact with hact | hact <;> cases hact
          | applyRead disk j k reads => rcases hact with hact | hact <;> cases hact
          | crashDuring a cut =>
            rcases hact with hact | hact <;>
              (cases hact; exact absurd rfl (of_decide_eq_false hlives))
  · exact (hbrought hy).2

open Shipped (node1 node2 elect)

/-- A step in which no write fails. -/
inductive Plan where
  | asks (i : NodeID) (req : Api.Incoming)
  | calls (k : Nat) (a : Action)
  | does (a : Action)
  | loops (i : NodeID) (l : LoopStep)

def Plan.step : Plan → DeploymentStep
  | .asks i req => .request i req
  | .calls k a => .call k (.cluster (.act (fun _ => true) a))
  | .does a => .other (.cluster (.act (fun _ => true) a)) []
  | .loops i l => .other (.loop i l) []

/-- The condition of `Cluster/Linearizability.lean`, for runs in which no process ends. -/
def Lively (v : Deployment σ) (b : DeploymentStep) : Prop :=
  ∀ st ∈ shown b, Cluster.SerialLife v.runtime.cluster st

instance (v : Deployment σ) (b : DeploymentStep) : Decidable (Lively v b) :=
  inferInstanceAs (Decidable (∀ st ∈ shown b, Cluster.SerialLife v.runtime.cluster st))

/-- The file-backed engine, with `Scan`. -/
def scanEngine : ScanEngine BoltEngine := BoltEngine.scanEngine Shipped.json

/-- Carry out the plan in the shipped cluster. -/
def play (plan : List Plan) :
    List (Deployment BoltEngine × DeploymentStep) × Deployment BoltEngine :=
  (Lib.follow (step scanEngine Shipped.membership) Lively []
    (init Shipped.membership (fun _ => .empty) fun _ => 10000) (plan.map Plan.step)).getD
      ([], init Shipped.membership (fun _ => .empty) fun _ => 10000)

theorem reaches_play (plan : List Plan) :
    Reaches scanEngine Shipped.membership (fun _ => .empty) (fun _ => 10000)
      (Cluster.Serial scanEngine.toEngine .empty) (play plan).1 (play plan).2 := by
  have hdisk : ∀ (v : Deployment BoltEngine), ∀ b ∈ plan.map Plan.step, ∀ st, shown b = some st →
      Cluster.DiskOk v.runtime.cluster st := by
    intro v b hb st hst
    obtain ⟨p, _, rfl⟩ := List.mem_map.mp hb
    cases p with
    | asks i req => cases hst
    | calls k a =>
      cases hst
      exact fun _ => rfl
    | does a =>
      cases hst
      exact fun _ => rfl
    | loops i l => cases hst
  have hstart : Lib.Run (fun v => v = init Shipped.membership (fun _ => .empty) fun _ => 10000)
      (step scanEngine Shipped.membership) (fun v b => Lively v b ∧ ∀ st, shown b = some st →
        Cluster.DiskOk v.runtime.cluster st) [] _ := .start rfl
  unfold play
  cases h : Lib.follow (step scanEngine Shipped.membership) Lively []
      (init Shipped.membership (fun _ => .empty) fun _ => 10000) (plan.map Plan.step) with
  | none => exact .start rfl
  | some r =>
    refine (Lib.Run.of_follow hdisk hstart h).mono fun v b hok r hr st hst => ?_
    have hst' : shown b = some st := by rw [shown, hr]; exact hst
    exact Cluster.serial_of_life ⟨hok.1 st hst', hok.2 st hst'⟩

end Deployment

end Raftrix
