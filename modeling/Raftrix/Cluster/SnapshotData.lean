import Raftrix.Cluster.LogChange
import Raftrix.Log.Boundary
import Raftrix.Node.Resume
import Raftrix.Node.Snapshots

/-!
# What a leader sends as a snapshot

An InstallSnapshot request pairs two things that the node keeps apart: the boundary it has cached
(`LastIncludedIndex`), which is read from the file when the process starts and never moved after that, and
`snapshotData`, the bytes the last `takeSnapshot` read, or the last installed snapshot brought. The bytes
are read without the lock, at some moment after the `go` statement, and are gone after a restart.

`storeAt s index` is the store that the committed commands `1..index` make of the empty one, and
`ExactAt s index data` says that `data` restores to it. Which index a node's store is at follows from what
the node has done (`storeIndex`): `applyCommitted` moves it on by the next committed command, an installed
snapshot sets it, a restart leaves it alone, and whatever else reaches the store loses it. The two agree
(`Synced`).

**`snapshot_request_exact`**: every InstallSnapshot request is exact in the runs in which a process that
has started with a boundary reads its store only when nothing but no-ops has reached it since the command
at this boundary, installs only snapshots for this boundary, and sends no snapshot before it has bytes
(`SnapshotsFit`). The last of these is what goes wrong first: a leader that was restarted sends no bytes at
all (`restarted_leader_sends_nothing`).
-/

namespace Raftrix

variable {σ : Type}

/-- Whatever the engine holds, it restores the bytes of its snapshot of `S` to `S`. -/
def Engine.RoundTrips (E : Engine σ) (S : σ) : Prop :=
  ∀ data, E.snapshot S = .ok data → ∀ X, E.restoreSnapshot X data = .ok S

/-- The stores that commands with valid UTF-8 keys make of `empty`. -/
inductive Engine.Filled (E : Engine σ) (empty : σ) : σ → Prop
  | empty : Engine.Filled E empty empty
  | apply {S : σ} {cmd : Command} (h : Engine.Filled E empty S)
      (hkey : Lib.Utf8.coerceUtf8 cmd.key = cmd.key) :
      Engine.Filled E empty (applyCommand E true S cmd).1

theorem BoltEngine.sound_of_filled {json : MapCodec} {b : BoltEngine}
    (h : (engine json).Filled .empty b) : StorageType.persistent.Sound json b := by
  induction h with
  | empty => exact StorageType.sound_empty .persistent
  | @apply S cmd _ hkey ih => exact StorageType.sound_run (c := (cmd, true)) ih hkey

/-- **`BoltEngine` restores every store that commands have filled**, if `encoding/json` reads back the maps
it has written. -/
theorem BoltEngine.roundTrips {json : MapCodec} (hjson : json.RoundTrips) {b : BoltEngine}
    (h : (engine json).Filled .empty b) : (engine json).RoundTrips b := by
  intro data hdata X
  obtain ⟨data', r, hdata', hr, hcontents⟩ :=
    StorageType.restore_snapshot hjson (sound_of_filled h) X
  cases hdata
  cases hdata'
  rw [show r = b from Lib.Bucket.ext_get fun key => congrFun hcontents key] at hr
  exact hr

/-- The goroutine is about to read the store. -/
def Goroutine.reads : Goroutine → Bool
  | .takeSnapshot _ _ => true
  | _ => false

namespace Cluster

variable {E : Engine σ} {M : Membership} {disk : Disk} {s s' : Cluster σ} {a : Action} {st : Step}
  {i : NodeID} {n m : RaftNode σ} {empty : σ} {past : List (Cluster σ × Step)}

/-! ## The store at an index -/

/-- The command that was applied first at `index`. -/
def committedCommand (s : Cluster σ) (index : Nat) : Option Command :=
  (s.trace.find? fun x => x.2.index == index).map fun x => x.2.entry.command

/-- What the committed commands `1..index` make of the store `empty`. -/
def storeAt (E : Engine σ) (empty : σ) (s : Cluster σ) : Nat → Option σ
  | 0 => some empty
  | index + 1 =>
    match storeAt E empty s index, s.committedCommand (index + 1) with
    | some S, some cmd => some (applyCommand E true S cmd).1
    | _, _ => none

/-- The bytes restore to the store at `index`. -/
def ExactAt (E : Engine σ) (empty : σ) (s : Cluster σ) (index : Nat) (data : Bytes) : Prop :=
  ∃ S, s.storeAt E empty index = some S ∧ ∀ X, E.restoreSnapshot X data = .ok S

theorem committedCommand_mono (h : s.trace <+: s'.trace) {index : Nat} {cmd : Command}
    (hcmd : s.committedCommand index = some cmd) : s'.committedCommand index = some cmd := by
  obtain ⟨l, hl⟩ := h
  unfold committedCommand at hcmd ⊢
  obtain ⟨x, hx, hcmd⟩ := Option.map_eq_some_iff.mp hcmd
  rw [← hl, List.find?_append, hx]
  exact congrArg some hcmd

/-- The store at an index is settled once it is known. -/
theorem storeAt_mono (h : s.trace <+: s'.trace) : ∀ {index : Nat} {S : σ},
    s.storeAt E empty index = some S → s'.storeAt E empty index = some S
  | 0, _, hS => hS
  | index + 1, S, hS => by
    unfold storeAt at hS ⊢
    split at hS
    · rename_i S₀ cmd hS₀ hcmd
      rw [storeAt_mono h hS₀, committedCommand_mono h hcmd]
      exact hS
    · cases hS

theorem ExactAt.mono (h : s.trace <+: s'.trace) {index : Nat} {data : Bytes}
    (hexact : s.ExactAt E empty index data) : s'.ExactAt E empty index data := by
  obtain ⟨S, hS, hdata⟩ := hexact
  exact ⟨S, storeAt_mono h hS, hdata⟩

/-- Only `applyCommitted` adds to the trace. -/
theorem trace_runGoroutine {k : Nat} {g : Goroutine} (hg : g ≠ .applyCommitted) :
    (s.runGoroutine E disk i k g).trace = s.trace := by
  cases g with
  | applyCommitted => exact absurd rfl hg
  | takeSnapshot index term =>
    simp only [runGoroutine]
    split <;> rfl
  | compactLog index term data => rfl

theorem trace_prefix (h : s.step E M st = some s') : s.trace <+: s'.trace := by
  rcases step_applied h with ⟨heq, _⟩ | ⟨i, ⟨_, _, _, _, heq⟩, _⟩
  · rw [heq]
  · rw [heq]
    exact List.prefix_append _ _

/-! ## The index a store is at -/

/-- The index a store at `v` is at after one more round of `applyCommitted`: the committed command at
`v + 1` moves it on, and a no-op leaves it alone. -/
def followRound (s : Cluster σ) (written : Bool) (x : Applied σ) (v : Nat) : Option Nat :=
  if x.index = v + 1 ∧ written = true ∧ s.committedCommand x.index = some x.entry.command then
    some (v + 1)
  else if x.entry.command.op = .noop then some v
  else none

/-- The rounds of one run, from the `k`-th write on. -/
def followRounds (s : Cluster σ) (disk : Disk) : Nat → List (Applied σ) → Nat → Option Nat
  | _, [], v => some v
  | k, x :: xs, v => (s.followRound (disk k) x v).bind (s.followRounds disk (k + 1) xs)

/-- `HandleInstallSnapshot` replaces the store. -/
def ReplacesStore (E : Engine σ) (disk : Disk) (n : RaftNode σ) (req : InstallSnapshotRequest) : Prop :=
  ¬ req.term < n.currentTerm ∧
    (commitWrite (disk 1) n.storage (E.restoreSnapshot n.storage req.data)).2 = none

instance (E : Engine σ) (disk : Disk) (n : RaftNode σ) (req : InstallSnapshotRequest) :
    Decidable (ReplacesStore E disk n req) :=
  inferInstanceAs (Decidable (_ ∧ _))

/-- The index the store of `i` is at after the step from `s` to `s'`, if it was at `v`. -/
def storeIndexAfter (E : Engine σ) (s s' : Cluster σ) (i : NodeID) (v : Option Nat) :
    Step → Option Nat
  | .act disk (.resume j _) | .applyRead disk j _ _ =>
    if j = i then v.bind (s'.followRounds disk 0 ((s'.trace.drop s.trace.length).map Prod.snd)) else v
  | .act disk (.handleSnapshot k) =>
    match s.snapshotCalls[k]? with
    | some c =>
      if c.dst = i ∧ ReplacesStore E disk (s.node i) c.req then some c.req.lastIncludedIndex else v
    | none => v
  -- how far the run or the installation has come is not known
  | .crashDuring (.resume j _) _ => if j = i then none else v
  | .crashDuring (.handleSnapshot k) _ => if (s.snapshotCalls[k]?).map Call.dst = some i then none else v
  | _ => v

theorem storeIndexAfter_handleSnapshot {k : Nat} {c : SnapshotCall} {v : Option Nat}
    (hk : s.snapshotCalls[k]? = some c) :
    storeIndexAfter E s s' i v (.act disk (.handleSnapshot k)) =
      if c.dst = i ∧ ReplacesStore E disk (s.node i) c.req then some c.req.lastIncludedIndex else v := by
  simp only [storeIndexAfter, hk]

/-- The index the store of `i` is at after the run `past` to `s`. -/
def storeIndex (E : Engine σ) : List (Cluster σ × Step) → Cluster σ → NodeID → Option Nat
  | [], _, _ => some 0
  | (s, st) :: past, s', i => storeIndexAfter E s s' i (storeIndex E past s i) st

/-- The store of every node is the one at the index. -/
def Synced (E : Engine σ) (empty : σ) (s : Cluster σ) (index : NodeID → Option Nat) : Prop :=
  ∀ i v, index i = some v → s.storeAt E empty v = some (s.node i).storage

theorem applyCommand_noop {written : Bool} {S : σ} {cmd : Command} (h : cmd.op = .noop) :
    (applyCommand E written S cmd).1 = S := by
  simp only [applyCommand, h]

/-- A round of `applyCommitted` and the index. -/
theorem storeAt_followRound {written : Bool} {x : Applied σ} {v v' : Nat} {S : σ}
    (hv : s.storeAt E empty v = some S) (h : s.followRound written x v = some v') :
    s.storeAt E empty v' = some (applyCommand E written S x.entry.command).1 := by
  unfold followRound at h
  split at h
  · rename_i hnext
    obtain ⟨hindex, rfl, hcmd⟩ := hnext
    cases h
    rw [hindex] at hcmd
    rw [storeAt, hv, hcmd]
  · split at h
    · rename_i hnoop
      cases h
      rw [applyCommand_noop hnoop, hv]
    · cases h

/-- The loop of `applyCommitted` and the index. -/
theorem storeAt_followRounds (disk : Disk) : ∀ (k fuel : Nat) (n : RaftNode σ) {v v' : Nat},
    s.storeAt E empty v = some n.storage →
    s.followRounds disk k (n.applyFrom E disk k fuel).2 v = some v' →
    s.storeAt E empty v' = some (n.applyFrom E disk k fuel).1.storage
  | _, 0, n, _, _, hv, h => by
    cases h
    exact hv
  | k, fuel + 1, n, v, v', hv, h => by
    cases hget : n.raftLog.get (n.lastApplied + 1) with
    | none =>
      rw [RaftNode.applyFrom_missing E disk hget] at h ⊢
      cases h
      exact hv
    | some e =>
      rw [RaftNode.applyFrom_entry E disk hget] at h ⊢
      obtain ⟨w, hround, hrest⟩ := Option.bind_eq_some_iff.mp h
      have hw := storeAt_followRound hv hround
      refine storeAt_followRounds disk (k + 1) fuel _ ?_ hrest
      rw [RaftNode.storage_applyEntry]
      exact hw

theorem Joins.storage {written : Bool} {term : Nat} (h : Joins written n term m) :
    m.storage = n.storage := by
  cases h <;> rfl

/-- What `HandleInstallSnapshot` leaves as the store. -/
theorem storage_handleInstallSnapshot (E : Engine σ) (disk : Disk) (n : RaftNode σ)
    (req : InstallSnapshotRequest) :
    (ReplacesStore E disk n req ∧
      E.restoreSnapshot n.storage req.data = .ok (n.handleInstallSnapshot E disk req).1.storage) ∨
    (¬ ReplacesStore E disk n req ∧ (n.handleInstallSnapshot E disk req).1.storage = n.storage) := by
  have hreplaced : ∀ {S : σ}, ¬ req.term < n.currentTerm → disk 1 = true →
      E.restoreSnapshot n.storage req.data = .ok S → ReplacesStore E disk n req := by
    intro S hterm hwritten hS
    exact ⟨hterm, by rw [hS, hwritten]; rfl⟩
  have hcases := installed E disk n req
  generalize n.handleInstallSnapshot E disk req = r at hcases ⊢
  cases hcases with
  | stale hlt => exact Or.inr ⟨fun h => h.1 hlt, rfl⟩
  | unrestored hm hfail =>
    refine Or.inr ⟨fun h => ?_, hm.storage⟩
    have hwrite := h.2
    unfold commitWrite at hwrite
    split at hwrite
    · cases hwrite
    · rename_i S hS
      split at hwrite
      · rename_i hwritten
        obtain ⟨err, herr⟩ := hfail hwritten
        rw [hS] at herr
        cases herr
      · cases hwrite
  | uncompacted hm hwritten hstore _ =>
    exact Or.inl ⟨hreplaced (Nat.not_lt.mpr hm.le) hwritten hstore, hstore⟩
  | done hm hwritten hstore _ _ =>
    exact Or.inl ⟨hreplaced (Nat.not_lt.mpr hm.le) hwritten hstore, hstore⟩

/-- A run of `applyCommitted`, with reads meanwhile or without. -/
theorem Synced.applied {index : NodeID → Option Nat} (h : Synced E empty s index) {v : Nat}
    (hn : n.storage = (s.node i).storage)
    (htrace : s'.trace = s.trace ++ (n.applyCommitted E disk).2.map fun a => (i, a))
    (hstorage : (s'.node i).storage = (n.applyCommitted E disk).1.storage)
    (hv : (index i).bind (s'.followRounds disk 0 ((s'.trace.drop s.trace.length).map Prod.snd)) =
      some v) :
    s'.storeAt E empty v = some (s'.node i).storage := by
  obtain ⟨w, hw, hv⟩ := Option.bind_eq_some_iff.mp hv
  have hevents : (s'.trace.drop s.trace.length).map Prod.snd = (n.applyCommitted E disk).2 := by
    rw [htrace, List.drop_left, List.map_map]
    exact List.map_id _
  have hbefore : s'.storeAt E empty w = some n.storage := by
    rw [hn]
    exact storeAt_mono (htrace ▸ List.prefix_append _ _) (h i w hw)
  rw [hevents] at hv
  rw [hstorage]
  exact storeAt_followRounds disk 0 _ n hbefore hv

section Sync

variable (hkeeps : ∀ S : σ, E.reopen S = S)
include hkeeps

/-- Only `applyCommitted` and `HandleInstallSnapshot` write to a store. -/
theorem Move.storage (h : Move E M disk s a i n) (hresume : ∀ j k, a ≠ .resume j k)
    (hsnapshot : ∀ k, a ≠ .handleSnapshot k) : n.storage = (s.node i).storage := by
  cases h with
  | panic => exact hkeeps _
  | grant _ _ hm _ _ => exact hm.storage
  | mismatch _ _ hm => exact hm.storage
  | splice _ _ hm _ _ _ => exact hm.storage
  | restore _ _ => exact absurd rfl (hsnapshot _)
  | install _ _ _ => exact absurd rfl (hsnapshot _)
  | apply _ => exact absurd rfl (hresume _ _)
  | read _ => exact absurd rfl (hresume _ _)
  | compact _ _ _ => exact absurd rfl (hresume _ _)
  | _ => rfl

theorem Exec.storage (h : Exec E M disk s a s') (hresume : ∀ j k, a ≠ .resume j k)
    (hsnapshot : ∀ k, a ≠ .handleSnapshot k) (i : NodeID) :
    (s'.node i).storage = (s.node i).storage := by
  obtain ⟨j, _, hmove, hother⟩ := h.move
  by_cases hij : i = j
  · subst hij
    exact hmove.storage hkeeps hresume hsnapshot
  · rw [hother i hij]

/-- A restart opens the store again. -/
theorem storage_restart (s : Cluster σ) (j : NodeID) (n : RaftNode σ)
    (h : n.storage = (s.node j).storage) (i : NodeID) :
    ((s.restart E j n).node i).storage = (s.node i).storage := by
  by_cases hij : i = j
  · subst hij
    rw [restart_self]
    exact (hkeeps _).trans h
  · rw [restart_other _ hij]

/-- **A step keeps the stores at their indices.** -/
theorem Synced.step {index : NodeID → Option Nat} (h : Synced E empty s index)
    (hcalls : ∀ c ∈ s.snapshotCalls, s.ExactAt E empty c.req.lastIncludedIndex c.req.data)
    (hs : s.step E M st = some s') :
    Synced E empty s' fun i => storeIndexAfter E s s' i (index i) st := by
  have htrace := trace_prefix hs
  -- a node whose store and index are as before
  have hsame : ∀ {i : NodeID} {v : Nat}, index i = some v →
      (s'.node i).storage = (s.node i).storage →
      s'.storeAt E empty v = some (s'.node i).storage := by
    intro i v hv hstorage
    rw [hstorage]
    exact storeAt_mono htrace (h i v hv)
  intro i v (hv : storeIndexAfter E s s' i (index i) st = some v)
  cases step_cases hs with
  | @crash j => exact hsame hv (storage_restart hkeeps s j _ rfl i)
  | @crashDuring a cut j s₁ _ hj hx =>
    by_cases hij : i = j
    · subst hij
      -- an applying or installing process loses its index
      cases a with
      | resume j' k =>
        obtain rfl : j' = i := Option.some.inj hj
        simp only [storeIndexAfter, if_pos] at hv
        cases hv
      | handleSnapshot k =>
        have hdst : (s.snapshotCalls[k]?).map Call.dst = some i := hj
        simp only [storeIndexAfter, if_pos hdst] at hv
        cases hv
      | _ =>
        refine hsame hv ?_
        rw [restart_self]
        exact (hkeeps _).trans (hx.storage hkeeps (by simp) (by simp) i)
    · have hold : ((s.lose a).restart E j (s₁.node j)).node i = s.node i := by
        rw [restart_other _ hij, lose_node]
      refine hsame ?_ (congrArg RaftNode.storage hold)
      cases a with
      | resume j' k =>
        obtain rfl : j' = j := Option.some.inj hj
        simpa only [storeIndexAfter, if_neg (Ne.symm hij)] using hv
      | handleSnapshot k =>
        have hdst : (s.snapshotCalls[k]?).map Call.dst ≠ some i := by
          intro hi
          exact hij (Option.some.inj (hi.symm.trans hj))
        simpa only [storeIndexAfter, if_neg hdst] using hv
      | _ => exact hv
  | @applyRead disk j k reads _ =>
    by_cases hij : j = i
    · subst hij
      simp only [storeIndexAfter, if_true] at hv
      refine h.applied (n := { s.node j with goroutines := (s.node j).goroutines.eraseIdx k }) rfl rfl
        ?_ hv
      rw [setNode_self, runGoroutine_apply]
    · simp only [storeIndexAfter, if_neg hij] at hv
      refine hsame hv ?_
      rw [setNode_other _ _ _ (Ne.symm hij)]
      exact congrArg RaftNode.storage (runGoroutine_other (Ne.symm hij))
  | @act disk a _ hx =>
    cases a with
    | resume j k =>
      by_cases hij : j = i
      · subst hij
        simp only [storeIndexAfter, if_true] at hv
        cases hx with
        | @resumed _ _ g hg =>
          by_cases hap : g = .applyCommitted
          · subst hap
            refine h.applied (n := { s.node j with goroutines := (s.node j).goroutines.eraseIdx k })
              rfl rfl ?_ hv
            rw [runGoroutine_apply]
          · -- nothing is applied, and the store stays
            have heq : (s.runGoroutine E disk j k g).trace = s.trace := trace_runGoroutine hap
            rw [heq, List.drop_length] at hv
            obtain ⟨w, hw, hwv⟩ := Option.bind_eq_some_iff.mp hv
            cases hwv
            refine hsame hw ?_
            cases g with
            | applyCommitted => exact absurd rfl hap
            | takeSnapshot index term =>
              simp only [Cluster.runGoroutine]
              split <;> rw [setNode_self]
            | compactLog index term data =>
              simp only [Cluster.runGoroutine, setNode_self, RaftNode.compactLog]
              split <;> rfl
      · simp only [storeIndexAfter, if_neg hij] at hv
        refine hsame hv ?_
        cases hx with
        | resumed _ => exact congrArg RaftNode.storage (runGoroutine_other (Ne.symm hij))
    | handleSnapshot k =>
      cases hx with
      | @snapshot _ c hk _ =>
        by_cases hi : c.dst = i
        · subst hi
          rcases storage_handleInstallSnapshot E disk (s.node c.dst) c.req with
            ⟨hrep, hstore⟩ | ⟨hno, hstore⟩
          · rw [storeIndexAfter_handleSnapshot hk, if_pos ⟨rfl, hrep⟩] at hv
            cases hv
            obtain ⟨S, hS, hdata⟩ := hcalls c (List.mem_of_getElem? hk)
            refine storeAt_mono htrace (hS.trans ?_)
            rw [setNode_self]
            exact congrArg some (Except.ok.inj ((hdata _).symm.trans hstore))
          · rw [storeIndexAfter_handleSnapshot hk, if_neg fun hr => hno hr.2] at hv
            refine hsame hv ?_
            rw [setNode_self]
            exact hstore
        · rw [storeIndexAfter_handleSnapshot hk, if_neg fun hr => hi hr.1] at hv
          refine hsame hv ?_
          rw [setNode_other _ _ _ (Ne.symm hi)]
    | _ => exact hsame hv (hx.storage hkeeps (by simp) (by simp) i)

end Sync

/-! ## The condition -/

/-- Nothing but no-ops is committed above `b` and up to `v`. -/
def Quiet (s : Cluster σ) (b v : Nat) : Prop :=
  b ≤ v ∧ ∀ j ∈ List.range' (b + 1) (v - b), (s.committedCommand j).map Command.op = some .noop

instance (s : Cluster σ) (b v : Nat) : Decidable (Quiet s b v) :=
  inferInstanceAs (Decidable (_ ∧ _))

/-- A process with a cached boundary keeps to it: it reads its store when that is at an index and only
no-ops have been applied since the boundary, which excludes the reads during `applyCommitted`; it installs
snapshots for this boundary; and it sends a snapshot when it has the bytes of one. -/
def StepFits (E : Engine σ) (past : List (Cluster σ × Step)) (s : Cluster σ) (st : Step) : Prop :=
  match st with
  | .act _ (.resume i k) =>
    ∀ g ∈ (s.node i).goroutines[k]?, g.reads = true → (s.node i).raftLog.snapshotIndex ≠ 0 →
      ((storeIndex E past s i).any fun v => decide (Quiet s (s.node i).raftLog.snapshotIndex v)) = true
  | .applyRead _ i _ _ => (s.node i).raftLog.snapshotIndex = 0
  | .act _ (.handleSnapshot k) =>
    ∀ c ∈ s.snapshotCalls[k]?, (s.node c.dst).currentTerm ≤ c.req.term →
      (s.node c.dst).raftLog.snapshotIndex ≠ 0 →
      c.req.lastIncludedIndex = (s.node c.dst).raftLog.snapshotIndex
  | .act _ (.replicate i p) =>
    ∀ ls ∈ (s.node i).leader, ls.nextIndex.at p ≤ (s.node i).raftLog.snapshotIndex →
      (s.node i).snapshotData ≠ []
  | _ => True

instance (past : List (Cluster σ × Step)) (s : Cluster σ) (st : Step) :
    Decidable (StepFits E past s st) :=
  decidable_of_iff ((match st with
    | .act _ (.resume i k) =>
      decide (∀ g ∈ (s.node i).goroutines[k]?, g.reads = true →
        (s.node i).raftLog.snapshotIndex ≠ 0 → ((storeIndex E past s i).any fun v =>
          decide (Quiet s (s.node i).raftLog.snapshotIndex v)) = true)
    | .applyRead _ i _ _ => decide ((s.node i).raftLog.snapshotIndex = 0)
    | .act _ (.handleSnapshot k) =>
      decide (∀ c ∈ s.snapshotCalls[k]?, (s.node c.dst).currentTerm ≤ c.req.term →
        (s.node c.dst).raftLog.snapshotIndex ≠ 0 →
        c.req.lastIncludedIndex = (s.node c.dst).raftLog.snapshotIndex)
    | .act _ (.replicate i p) =>
      decide (∀ ls ∈ (s.node i).leader, ls.nextIndex.at p ≤ (s.node i).raftLog.snapshotIndex →
        (s.node i).snapshotData ≠ [])
    | _ => true) = true) (by unfold StepFits; split <;> simp only [decide_eq_true_iff])

/-- Every step of a run fits. -/
def SnapshotsFit (E : Engine σ) : List (Cluster σ × Step) → Prop
  | [] => True
  | (s, st) :: past => StepFits E past s st ∧ SnapshotsFit E past

instance decidableSnapshotsFit (E : Engine σ) :
    ∀ past : List (Cluster σ × Step), Decidable (SnapshotsFit E past)
  | [] => isTrue trivial
  | (s, st) :: past =>
    haveI := decidableSnapshotsFit E past
    inferInstanceAs (Decidable (StepFits E past s st ∧ SnapshotsFit E past))

/-- No-ops do not change the store. -/
theorem storeAt_of_quiet {b v : Nat} {S : σ} (hq : Quiet s b v) (hS : s.storeAt E empty v = some S) :
    s.storeAt E empty b = some S := by
  obtain ⟨hle, hnoops⟩ := hq
  obtain ⟨d, rfl⟩ := Nat.exists_eq_add_of_le hle
  induction d with
  | zero => exact hS
  | succ d ih =>
    have hnoop := hnoops (b + d + 1) (List.mem_range'_1.mpr ⟨by omega, by omega⟩)
    obtain ⟨cmd, hcmd, hop⟩ := Option.map_eq_some_iff.mp hnoop
    rw [← Nat.add_assoc, storeAt, hcmd] at hS
    refine ih ?_ (Nat.le_add_right b d) fun j hj => hnoops j ?_
    · split at hS
      · rename_i S₀ cmd' hS₀ hcmd'
        cases hcmd'
        rw [applyCommand_noop hop] at hS
        rw [hS₀]
        exact hS
      · cases hS
    · have := List.mem_range'_1.mp hj
      exact List.mem_range'_1.mpr ⟨this.1, by omega⟩

/-- Commands with valid keys have filled the store at every index. -/
theorem filled_of_storeAt (hkeys : ∀ x ∈ s.trace, x.2.entry.stored = x.2.entry) : ∀ {v : Nat} {S : σ},
    s.storeAt E empty v = some S → E.Filled empty S
  | 0, _, hS => by
    cases hS
    exact .empty
  | v + 1, S, hS => by
    unfold storeAt at hS
    split at hS
    · rename_i S₀ cmd hS₀ hcmd
      cases hS
      obtain ⟨x, hx, rfl⟩ := Option.map_eq_some_iff.mp hcmd
      refine .apply (filled_of_storeAt hkeys hS₀) ?_
      exact congrArg (fun e : LogEntry => e.command.key) (hkeys x (List.mem_of_find?_eq_some hx))
    · cases hS

/-! ## The bytes of a node -/

/-- What a process with a cached boundary has for a snapshot, or is about to have, is the store at this
boundary. -/
structure Fits (E : Engine σ) (empty : σ) (s : Cluster σ) (n : RaftNode σ) : Prop where
  data : n.raftLog.snapshotIndex ≠ 0 → n.snapshotData ≠ [] →
    s.ExactAt E empty n.raftLog.snapshotIndex n.snapshotData
  reading : n.raftLog.snapshotIndex ≠ 0 → ∀ index term data,
    Goroutine.compactLog index term data ∈ n.goroutines →
    s.ExactAt E empty n.raftLog.snapshotIndex data

theorem Fits.mono (h : s.trace <+: s'.trace) (hn : Fits E empty s n) : Fits E empty s' n :=
  ⟨fun h0 hne => (hn.data h0 hne).mono h, fun h0 index term data hg =>
    (hn.reading h0 index term data hg).mono h⟩

theorem fits_newRaftNode (n : RaftNode σ) : Fits E empty s (n.newRaftNode E) :=
  ⟨fun _ hne => absurd rfl hne, fun _ _ _ _ hg => absurd hg List.not_mem_nil⟩

theorem Fits.of_boundary_eq_zero (h : n.raftLog.snapshotIndex = 0) : Fits E empty s n :=
  ⟨fun h0 => absurd h h0, fun h0 => absurd h h0⟩

theorem Fits.congr (h : Fits E empty s n)
    (hindex : m.raftLog.snapshotIndex = n.raftLog.snapshotIndex)
    (hdata : m.snapshotData = n.snapshotData)
    (hgs : ∀ index term data, Goroutine.compactLog index term data ∈ m.goroutines →
      Goroutine.compactLog index term data ∈ n.goroutines) : Fits E empty s m := by
  constructor
  · rw [hindex, hdata]
    exact h.data
  · rw [hindex]
    exact fun h0 index term data hg => h.reading h0 index term data (hgs index term data hg)

theorem Joins.background {written : Bool} {term : Nat} (h : Joins written n term m) :
    m.snapshotData = n.snapshotData ∧ m.goroutines = n.goroutines := by
  cases h <;> exact ⟨rfl, rfl⟩

theorem Joins.fits {written : Bool} {term : Nat} (h : Joins written n term m)
    (hn : Fits E empty s n) : Fits E empty s m :=
  hn.congr h.boundary.1 h.background.1 fun _ _ _ hg => by rw [← h.background.2]; exact hg

/-- `applyCommitted` starts snapshots and finishes none. -/
theorem background_applyCommitted (E : Engine σ) (disk : Disk) (n : RaftNode σ) :
    (n.applyCommitted E disk).1.snapshotData = n.snapshotData ∧ ∀ index term data,
      Goroutine.compactLog index term data ∈ (n.applyCommitted E disk).1.goroutines →
      Goroutine.compactLog index term data ∈ n.goroutines := by
  refine applyCommitted_rounds E disk (n := n) (P := fun m _ => m.snapshotData = n.snapshotData ∧
    ∀ index term data, Goroutine.compactLog index term data ∈ m.goroutines →
      Goroutine.compactLog index term data ∈ n.goroutines) ?_ ?_ ⟨rfl, fun _ _ _ h => h⟩
  · rintro written m e done _ _ ⟨hdata, hgs⟩
    unfold RaftNode.applyEntry
    dsimp only
    split <;> split
    all_goals
      refine ⟨hdata, fun index term data hg => hgs index term data ?_⟩
      simpa using hg
  · exact fun m done _ _ h => h

/-- What is known of a state before the next step: the stores are at their indices, the engine can restore
each of them, and the requests are exact. -/
structure Exact (E : Engine σ) (empty : σ) (past : List (Cluster σ × Step)) (s : Cluster σ) : Prop where
  synced : Synced E empty s (storeIndex E past s)
  trips : ∀ {v : Nat} {S : σ}, s.storeAt E empty v = some S → E.RoundTrips S
  calls : ∀ c ∈ s.snapshotCalls, s.ExactAt E empty c.req.lastIncludedIndex c.req.data

/-- **A critical section keeps the bytes exact.** -/
theorem Move.fits (hmove : Move E M disk s a i n) (hfit : StepFits E past s (.act disk a))
    (hexact : Exact E empty past s) (h : Fits E empty s (s.node i)) : Fits E empty s n := by
  cases hmove with
  | panic => exact fits_newRaftNode _
  | down _ _ => exact h.congr (RaftLog.snapshotIndex_saveMeta _ _ _) rfl fun _ _ _ hg => hg
  | timeout _ _ _ => exact h.congr (RaftLog.snapshotIndex_saveMeta _ _ _) rfl fun _ _ _ hg => hg
  | grant _ _ hm _ _ =>
    exact (hm.fits h).congr (RaftLog.snapshotIndex_saveMeta _ _ _) rfl fun _ _ _ hg => hg
  | lead _ _ _ =>
    cases hrl : (s.node i).raftLog.append (disk 0) (s.node i).noopEntry with
    | none => exact h.congr rfl rfl fun _ _ _ hg => hg
    | some rl => exact h.congr (RaftLog.boundary_append hrl).2 rfl fun _ _ _ hg => hg
  | propose _ hrl => exact h.congr (RaftLog.boundary_append hrl).2 rfl fun _ _ _ hg => hg
  | mismatch _ _ hm => exact (hm.fits h).congr rfl rfl fun _ _ _ hg => hg
  | splice _ _ hm _ _ hgs =>
    refine (hm.fits h).congr (RaftLog.SameBounds.appendEntries _ _ _).indices.2 rfl fun _ _ _ hg => ?_
    rcases hgs _ hg with hg | hg
    · exact hg
    · cases hg
  | acked _ _ _ _ _ _ _ _ hgs =>
    refine h.congr rfl rfl fun _ _ _ hg => ?_
    rcases hgs _ hg with hg | hg
    · exact hg
    · cases hg
  | restore _ hm => exact (hm.fits h).congr rfl rfl fun _ _ _ hg => hg
  | @install k c m store rl hk hm hrl =>
    have hcached : rl.snapshotIndex = (s.node c.dst).raftLog.snapshotIndex :=
      (RaftLog.cached_compact hrl).1.trans hm.boundary.1
    have hjoined := hm.fits h
    refine ⟨fun h0 _ => ?_, fun h0 index term data hg => ?_⟩
    · dsimp only at h0 ⊢
      rw [hcached] at h0 ⊢
      rw [← hfit c hk hm.le h0]
      exact hexact.calls c (List.mem_of_getElem? hk)
    · dsimp only at h0 hg ⊢
      rw [hcached, ← hm.boundary.1] at h0 ⊢
      exact hjoined.reading h0 index term data hg
  | @apply i k gs hgs =>
    have ho := RaftNode.onlyApplies_applyCommitted E disk { s.node i with goroutines := gs }
    obtain ⟨hdata, hold⟩ := background_applyCommitted E disk { s.node i with goroutines := gs }
    exact h.congr (by rw [ho.raftLog]) hdata fun index term data hg =>
      hgs _ (hold index term data hg)
  | @read i k gs hgs =>
    refine ⟨h.data, fun h0 index term data hg => ?_⟩
    rcases hgs _ hg with hold | ⟨_, _, _, heq, htake, hdata⟩
    · exact h.reading h0 index term data hold
    · -- the bytes have just been read
      cases heq
      obtain ⟨v, hv, hquiet⟩ := (Option.any_eq_true _ _).mp (hfit _ htake rfl h0)
      have hstore := hexact.synced _ v hv
      exact ⟨_, storeAt_of_quiet (of_decide_eq_true hquiet) hstore, hexact.trips hstore _ hdata⟩
  | @compact i k index term data gs rl hg hrl hgs =>
    have hcached := (RaftLog.cached_compact hrl).1
    refine ⟨fun h0 _ => ?_, fun h0 index' term' data' hg' => ?_⟩
    · dsimp only at h0 ⊢
      rw [hcached] at h0 ⊢
      exact h.reading h0 index term data (List.mem_of_getElem? hg)
    · dsimp only at h0 hg' ⊢
      rw [hcached] at h0 ⊢
      exact h.reading h0 index' term' data' (hgs _ hg')
  | _ => exact h.congr rfl rfl fun _ _ _ hg => hg

theorem Moved.fits (hmoved : Moved E M s st i n) (hfit : StepFits E past s st)
    (hexact : Exact E empty past s) (h : Fits E empty s (s.node i)) : Fits E empty s n := by
  cases hmoved with
  | act hmove => exact hmove.fits hfit hexact h
  | crash => exact fits_newRaftNode _
  | crashDuring _ _ => exact fits_newRaftNode _
  | @applyRead disk i k reads n gs gs' _ hn =>
    have ho := RaftNode.onlyApplies_applyCommitted E disk { s.node i with goroutines := gs }
    rw [← hn] at ho
    refine .of_boundary_eq_zero ?_
    rw [show ({ n with goroutines := gs' } : RaftNode σ).raftLog = _ from ho.raftLog]
    exact hfit

section Runs

variable {store : NodeID → σ} {threshold : NodeID → Int} {ok : Cluster σ → Step → Prop}

/-- The request a leader has just built. -/
theorem Reaches.exact_of_sent (h : Reaches E M store threshold ok past s)
    (hfit : StepFits E past s st) (hfits : ∀ i, Fits E empty s (s.node i)) {c : SnapshotCall}
    (hsent : SnapshotSent s st c) : s.ExactAt E empty c.req.lastIncludedIndex c.req.data := by
  obtain ⟨disk, ls, rfl, hdst, _, hls, hreq⟩ := hsent
  rw [(h.identity c.src).2] at hdst
  have hpos := h.nextIndex_pos c.src hls hdst
  obtain ⟨hle, hreq⟩ := RaftNode.of_peerRequest_installSnapshot hreq
  rw [hreq]
  exact (hfits c.src).data (by omega) (hfit ls hls hle)

/-- What has been applied was read from a log. -/
theorem Reaches.clean_trace (h : Reaches E M store threshold ok past s) :
    ∀ x ∈ s.trace, x.2.entry.stored = x.2.entry := by
  refine Reaches.invariant (P := fun _ s => ∀ x ∈ s.trace, x.2.entry.stored = x.2.entry) ?_ ?_ h
  · exact fun x hx => absurd hx List.not_mem_nil
  · intro past s st s' hr hinv _ hs x hx
    rcases step_applied hs with ⟨heq, _⟩ | ⟨i, ⟨disk, gs, gs', _, heq⟩, _⟩
    · rw [heq] at hx
      exact hinv x hx
    · rw [heq] at hx
      rcases List.mem_append.mp hx with hold | hnew
      · exact hinv x hold
      · obtain ⟨a, ha, rfl⟩ := List.mem_map.mp hnew
        obtain ⟨d, hd⟩ := List.mem_iff_getElem?.mp ha
        exact Reaches.clean hr i ((RaftNode.applyFrom_events E disk 0 _ _).2 d a hd).2.1

/-- **Snapshots are exact.** For an engine that keeps its store over a restart and restores the snapshots of
the stores that commands fill, and in every run from empty stores in which each process that has started
with a snapshot boundary keeps to it: the bytes of every InstallSnapshot request that a leader has built
restore to exactly the store that the committed commands up to its `LastIncludedIndex` make of the empty
store. -/
theorem snapshot_request_exact (hkeeps : ∀ S, E.reopen S = S)
    (htrips : ∀ S, E.Filled empty S → E.RoundTrips S)
    (h : Reaches E M (fun _ => empty) threshold ok past s) (hfit : SnapshotsFit E past)
    {c : SnapshotCall} (hc : c ∈ s.snapshotCalls) :
    s.ExactAt E empty c.req.lastIncludedIndex c.req.data := by
  have hinv : SnapshotsFit E past →
      (∀ i, Fits E empty s (s.node i)) ∧ Exact E empty past s := by
    refine Reaches.invariant (P := fun past s => SnapshotsFit E past →
      (∀ i, Fits E empty s (s.node i)) ∧ Exact E empty past s) ?_ ?_ h
    · refine fun _ => ⟨fun i => .of_boundary_eq_zero rfl, ⟨fun i v hv => ?_, fun hS => ?_,
        fun c hc => absurd hc List.not_mem_nil⟩⟩
      · cases hv
        rfl
      · exact htrips _ (filled_of_storeAt (fun x hx => absurd hx List.not_mem_nil) hS)
    · intro past s st s' hr hinv hok hs hfit
      obtain ⟨hfits, hexact⟩ := hinv hfit.2
      have htrace := trace_prefix hs
      refine ⟨fun i => Fits.mono htrace ?_,
        ⟨hexact.synced.step hkeeps hexact.calls hs,
          fun hS => htrips _ (filled_of_storeAt (Reaches.clean_trace (.next hr hok hs)) hS),
          fun c' hc' => ExactAt.mono htrace ?_⟩⟩
      · exact forall_node_of_moved (P := fun _ n => Fits E empty s n) hs hfits
          (fun i n hmoved => hmoved.fits hfit.1 hexact (hfits i)) i
      · obtain ⟨k, hk⟩ := List.mem_iff_getElem?.mp hc'
        rcases (step_snapshotCall hs hk).origin with ⟨c, hc, _, _, hreq⟩ | hsent
        · rw [hreq]
          exact hexact.calls c hc
        · exact Reaches.exact_of_sent hr hfit.1 hfits hsent
  exact (hinv hfit).2.calls c hc

open Shipped (node1 node2 node3 elect)

/-- `node-1` leads term 1, commits its no-op and a `PUT` with the help of `node-2`, applies both and
compacts its log at index 2. Its process dies, and the next one is elected in term 2; `node-3`, which has
nothing, turns its request away. -/
def putCompacted : List Event :=
  acts (elect node1 0 1 ++ [.replicate node1 node2, .handleAppend 0, .appendReturn 0,
    .propose node1 ⟨.put, [1], [1], []⟩, .replicate node1 node2, .handleAppend 1, .appendReturn 1,
    .resume node1 0, .resume node1 0, .resume node1 1, .resume node1 1]) ++ [.dies node1] ++
  acts (elect node1 2 3 ++ [.replicate node1 node3, .handleAppend 2, .appendReturn 2])

/-- Three no-ops are committed: two runs of `applyCommitted` pass the compacted indices, and the third
applies the no-ops. Then `takeSnapshot` reads the store, and `node-3` is sent a snapshot. -/
def putSent : List Event :=
  putCompacted ++ acts [.replicate node1 node2, .handleAppend 3, .appendReturn 3, .resume node1 0,
    .propose node1 .noop, .replicate node1 node2, .handleAppend 4, .appendReturn 4, .resume node1 0,
    .propose node1 .noop, .replicate node1 node2, .handleAppend 5, .appendReturn 5, .resume node1 0,
    .resume node1 0, .resume node1 2, .replicate node1 node3]

/-- The snapshot for index 2 has the pair of the `PUT`. -/
theorem snapshot_request_exact_putSent : ∃ past s c S,
    Shipped.EagerReaches (fun _ _ => True) past s ∧ SnapshotsFit Shipped.engine past ∧
    c ∈ s.snapshotCalls ∧ c.req.lastIncludedIndex = 2 ∧
    s.storeAt Shipped.engine .empty 2 = some S ∧ Lib.Bucket.get S [1] = some [1] ∧
    ∀ X, Shipped.engine.restoreSnapshot X c.req.data = .ok S := by
  have hrun := (Shipped.reaches_eagerPlay (fun _ _ => True) putSent).mono fun _ _ _ => trivial
  have hfit : SnapshotsFit Shipped.engine (Shipped.eagerPlay (fun _ _ => True) putSent).1 := by
    decide +kernel
  have hcall : ∃ c ∈ (Shipped.eagerPlay (fun _ _ => True) putSent).2.snapshotCalls,
      c.req.lastIncludedIndex = 2 := by decide +kernel
  have hpair : ((Shipped.eagerPlay (fun _ _ => True) putSent).2.storeAt Shipped.engine .empty 2).map
      (Lib.Bucket.get · [1]) = some (some [1]) := by decide +kernel
  obtain ⟨c, hc, hindex⟩ := hcall
  have htrips : ∀ S, Shipped.engine.Filled .empty S → Shipped.engine.RoundTrips S :=
    fun _ => BoltEngine.roundTrips mapJson_roundTrips
  obtain ⟨S, hS, hdata⟩ := snapshot_request_exact (fun _ => rfl) htrips hrun hfit hc
  rw [hindex] at hS
  rw [hS] at hpair
  exact ⟨_, _, c, S, hrun, hfit, hc, hindex, hS, Option.some.inj hpair, hdata⟩

/-- `node-1` has been restarted and leads again; it sends `node-3` a snapshot for index 1 without any
bytes, which no store restores. -/
theorem restarted_leader_sends_nothing : ∃ past s c,
    Shipped.EagerReaches (fun _ _ => True) past s ∧ c ∈ s.snapshotCalls ∧
    c.req.lastIncludedIndex = 1 ∧ c.req.data = [] ∧
    ¬ s.ExactAt Shipped.engine .empty c.req.lastIncludedIndex c.req.data := by
  have hrun := (Shipped.reaches_eagerPlay (fun _ _ => True)
    (Shipped.restartedLeader ++ acts [.replicate node1 node3])).mono fun _ _ _ => trivial
  have hcall : ∃ c ∈ (Shipped.eagerPlay (fun _ _ => True)
      (Shipped.restartedLeader ++ acts [.replicate node1 node3])).2.snapshotCalls,
      c.req.lastIncludedIndex = 1 ∧ c.req.data = [] := by decide +kernel
  obtain ⟨c, hc, hindex, hdata⟩ := hcall
  refine ⟨_, _, c, hrun, hc, hindex, hdata, ?_⟩
  rintro ⟨S, _, hrestore⟩
  rw [hdata] at hrestore
  have hempty : Shipped.engine.restoreSnapshot .empty [] = .error .invalidSnapshot := rfl
  cases hempty.symm.trans (hrestore .empty)

end Runs

end Cluster

end Raftrix
