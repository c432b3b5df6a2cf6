import Raftrix.Cluster.Shipped
import Raftrix.Cluster.Terms
import Raftrix.Lib.Register
import Raftrix.Log.Holds

/-!
# Recovery by replay

`lastApplied` is not persisted and the file-backed store is: a restarted node applies its log again
from index 1, on the store its predecessor has left.

`applyCommitted` on a log without gaps folds `applyCommand` over the commands (`storage_applyUpTo`), and
the value of one key goes through a register (`get_applyAll`): an accepted PUT and a DELETE set it, an
accepted CAS swaps it. So the general results on registers (`Lib/Register.lean`) say when the second
pass ends where a single one does (**`Recoverable`**): for every key, some command of the list sets it,
or no accepted CAS among the commands applied before the crash expects the value that the store was
left with and writes another.

* **`recovery_restores_store`**: the condition is enough, and where the accepted CASes on a key write
  pairwise different and non-empty values it is necessary.
* `recovery_diverges`: two CASes on one key that leave another value when they are run twice.
-/

namespace Raftrix

/-! ## One key of the file-backed store -/

/-- bbolt accepts the pair. -/
def Writable (key value : Bytes) : Prop :=
  key ≠ [] ∧ key.length ≤ BoltEngine.maxKeySize ∧ value.length ≤ BoltEngine.maxValueSize

instance (key value : Bytes) : Decidable (Writable key value) :=
  inferInstanceAs (Decidable (_ ∧ _ ∧ _))

theorem BoltEngine.put_eq (b : BoltEngine) (key value : Bytes) :
    (Writable key value ∧ put b key value = .ok (Lib.Bucket.put b key value)) ∨
      (¬ Writable key value ∧ ∃ err, put b key value = .error err) := by
  unfold put Writable
  by_cases h0 : key = []
  · exact Or.inr ⟨fun h => h.1 h0, _, if_pos h0⟩
  · rw [if_neg h0]
    by_cases h1 : maxKeySize < key.length
    · exact Or.inr ⟨fun h => absurd h.2.1 (by omega), _, if_pos h1⟩
    · rw [if_neg h1]
      by_cases h2 : maxValueSize < value.length
      · exact Or.inr ⟨fun h => absurd h.2.2 (by omega), _, if_pos h2⟩
      · exact Or.inl ⟨⟨h0, by omega, by omega⟩, if_neg h2⟩

/-- Pairs that bbolt accepts are all written. -/
theorem BoltEngine.foldlM_put {l : List (Bytes × Bytes)} (h : ∀ p ∈ l, Writable p.1 p.2)
    (b : BoltEngine) :
    l.foldlM (fun b p => put b p.1 p.2) b =
      .ok (l.foldl (fun b p => Lib.Bucket.put b p.1 p.2) b) := by
  induction l generalizing b with
  | nil => rfl
  | cons p l ih =>
    obtain ⟨hp, hl⟩ := List.forall_mem_cons.mp h
    rcases b.put_eq p.1 p.2 with ⟨_, hput⟩ | ⟨hno, _⟩
    · rw [List.foldlM_cons, hput]
      exact ih hl _
    · exact absurd hp hno

/-- One pair that it does not accept makes the whole transaction fail. -/
theorem BoltEngine.foldlM_put_error {l : List (Bytes × Bytes)} (h : ¬ ∀ p ∈ l, Writable p.1 p.2)
    (b : BoltEngine) : ∃ err, l.foldlM (fun b p => put b p.1 p.2) b = .error err := by
  induction l generalizing b with
  | nil => exact absurd (fun _ hp => absurd hp List.not_mem_nil) h
  | cons p l ih =>
    rw [List.foldlM_cons]
    rcases b.put_eq p.1 p.2 with ⟨hp, hput⟩ | ⟨_, err, hput⟩
    · rw [hput]
      exact ih (fun hl => h (List.forall_mem_cons.mpr ⟨hp, hl⟩)) _
    · rw [hput]
      exact ⟨err, rfl⟩

/-- What a command does to the value of `key`. -/
def Command.regOp (key : Bytes) (cmd : Command) : Lib.RegOp Bytes :=
  if cmd.key = key then
    match cmd.op with
    | .put => if Writable key cmd.value then .set (some cmd.value) else .keep
    | .delete => .set none
    | .cas => if Writable key cmd.value then .swap cmd.prevValue cmd.value else .keep
    | _ => .keep
  else .keep

section Store

variable {json : MapCodec} {store : BoltEngine} {cmd : Command} {key : Bytes}

/-- A write of an accepted pair. -/
theorem get_commitWrite_put (store : BoltEngine) (k value key : Bytes) :
    Lib.Bucket.get (commitWrite true store (BoltEngine.put store k value)).1 key =
      if k = key ∧ Writable key value then some value else Lib.Bucket.get store key := by
  rcases store.put_eq k value with ⟨hw, heq⟩ | ⟨hw, err, heq⟩
  · rw [heq]
    change Lib.Bucket.get (Lib.Bucket.put store k value) key = _
    rw [Lib.Bucket.get_put]
    by_cases hk : key = k
    · subst hk
      rw [if_pos rfl, if_pos ⟨rfl, hw⟩]
    · rw [if_neg hk, if_neg fun h => hk h.1.symm]
  · rw [heq, if_neg]
    · rfl
    · rintro ⟨rfl, h⟩
      exact hw h

/-- A CAS reads an absent key as the empty value. -/
theorem applyCommand_cas (store : BoltEngine) (k value prev : Bytes) :
    (applyCommand (BoltEngine.engine json) true store ⟨.cas, k, value, prev⟩).1 =
      if (Lib.Bucket.get store k).getD [] = prev then
        (commitWrite true store (BoltEngine.put store k value)).1
      else store := by
  unfold applyCommand BoltEngine.engine BoltEngine.get
  dsimp only
  cases Lib.Bucket.get store k with
  | none =>
    dsimp only [Option.getD_none]
    split <;> rfl
  | some existing =>
    dsimp only [Option.getD_some]
    split <;> rfl

/-- **A command on one key is an operation on a register.** -/
theorem get_applyCommand (store : BoltEngine) (cmd : Command) (key : Bytes) :
    Lib.Bucket.get (applyCommand (BoltEngine.engine json) true store cmd).1 key =
      Lib.RegOp.step [] (Lib.Bucket.get store key) (cmd.regOp key) := by
  obtain ⟨op, k, value, prev⟩ := cmd
  unfold Command.regOp
  dsimp only
  cases op with
  | put =>
    refine (get_commitWrite_put store k value key).trans ?_
    by_cases hk : k = key
    · rw [if_pos hk]
      by_cases hw : Writable key value
      · rw [if_pos ⟨hk, hw⟩, if_pos hw]
        rfl
      · rw [if_neg fun h => hw h.2, if_neg hw]
        rfl
    · rw [if_neg fun h => hk h.1, if_neg hk]
      rfl
  | delete =>
    refine (Lib.Bucket.get_delete store k key).trans ?_
    by_cases hk : k = key
    · rw [if_pos hk.symm, if_pos hk]
      rfl
    · rw [if_neg fun h => hk h.symm, if_neg hk]
      rfl
  | cas =>
    rw [applyCommand_cas]
    dsimp only
    by_cases hk : k = key
    · subst hk
      rw [if_pos rfl]
      by_cases hw : Writable k value
      · rw [if_pos hw]
        by_cases hold : (Lib.Bucket.get store k).getD [] = prev
        · rw [if_pos hold, get_commitWrite_put, if_pos ⟨rfl, hw⟩, Lib.RegOp.step_swap_hit hold]
        · rw [if_neg hold, Lib.RegOp.step_swap_miss hold]
      · rw [if_neg hw]
        split
        · rw [get_commitWrite_put, if_neg fun h => hw h.2]
          rfl
        · rfl
    · rw [if_neg hk]
      split
      · rw [get_commitWrite_put, if_neg fun h => hk h.1]
        rfl
      · rfl
  | noop =>
    rw [ite_self]
    rfl
  | other op =>
    rw [ite_self]
    rfl

/-- The commands one after another, every write succeeding. -/
def applyAll (json : MapCodec) (store : BoltEngine) (cmds : List Command) : BoltEngine :=
  cmds.foldl (fun store cmd => (applyCommand (BoltEngine.engine json) true store cmd).1) store

/-- **A key goes through its register.** -/
theorem get_applyAll (cmds : List Command) (store : BoltEngine) (key : Bytes) :
    Lib.Bucket.get (applyAll json store cmds) key =
      Lib.RegOp.run [] (Lib.Bucket.get store key) (cmds.map (Command.regOp key)) := by
  induction cmds generalizing store with
  | nil => rfl
  | cons cmd cmds ih =>
    rw [List.map_cons, Lib.RegOp.run_cons, ← get_applyCommand]
    exact ih _

end Store

/-! ## The condition -/

/-- Whatever the key holds, the command sets it. -/
def Command.Overwrites (cmd : Command) (key : Bytes) : Prop :=
  cmd.key = key ∧ (cmd.op = .delete ∨ cmd.op = .put ∧ Writable key cmd.value)

/-- The command is a CAS on the key whose write the store accepts. -/
def Command.Swaps (cmd : Command) (key : Bytes) : Prop :=
  cmd.key = key ∧ cmd.op = .cas ∧ Writable key cmd.value

instance (cmd : Command) (key : Bytes) : Decidable (cmd.Overwrites key) :=
  inferInstanceAs (Decidable (_ ∧ _))

instance (cmd : Command) (key : Bytes) : Decidable (cmd.Swaps key) :=
  inferInstanceAs (Decidable (_ ∧ _))

/-- Every key is set by some command, or no CAS among the first `k` commands expects what `store` holds
for it and writes another value. -/
def Recoverable (cmds : List Command) (k : Nat) (store : BoltEngine) : Prop :=
  ∀ key, (∃ cmd ∈ cmds, cmd.Overwrites key) ∨
    ∀ v, Lib.Bucket.get store key = some v →
      ∀ cmd ∈ cmds.take k, cmd.Swaps key → cmd.prevValue = v → cmd.value = v

/-- The CASes on one key write pairwise different values, and never the empty one. -/
def DistinctSwaps (cmds : List Command) : Prop :=
  ∀ key, ((cmds.filter fun cmd => decide (cmd.Swaps key)).map Command.value).Nodup ∧
    ∀ cmd ∈ cmds, cmd.Swaps key → cmd.value ≠ []

section Registers

variable {cmds : List Command} {cmd : Command} {key : Bytes}

theorem regOp_eq_set : (∃ value, cmd.regOp key = .set value) ↔ cmd.Overwrites key := by
  unfold Command.regOp Command.Overwrites
  obtain ⟨op, k, value, prev⟩ := cmd
  by_cases hk : k = key
  · cases op <;> by_cases hw : Writable key value <;> simp [hk, hw]
  · simp [hk]

theorem regOp_eq_swap {old new : Bytes} : cmd.regOp key = .swap old new ↔
    cmd.Swaps key ∧ cmd.prevValue = old ∧ cmd.value = new := by
  unfold Command.regOp Command.Swaps
  obtain ⟨op, k, value, prev⟩ := cmd
  by_cases hk : k = key
  · cases op <;> by_cases hw : Writable key value <;> simp [hk, hw]
  · simp [hk]

theorem writes_regOp (key : Bytes) : ∀ cmds : List Command,
    Lib.RegOp.writes (cmds.map (Command.regOp key)) =
      (cmds.filter fun cmd => decide (cmd.Swaps key)).map Command.value
  | [] => rfl
  | cmd :: cmds => by
    rw [List.map_cons]
    by_cases hs : cmd.Swaps key
    · rw [regOp_eq_swap.mpr ⟨hs, rfl, rfl⟩, List.filter_cons_of_pos (by simpa using hs), List.map_cons,
        Lib.RegOp.writes, writes_regOp key cmds]
    · rw [List.filter_cons_of_neg (by simpa using hs), ← writes_regOp key cmds]
      cases hop : cmd.regOp key with
      | keep => rfl
      | set value => rfl
      | swap old new => exact absurd (regOp_eq_swap.mp hop).1 hs

/-- The condition, key by key. -/
theorem recoverable_iff {json : MapCodec} {k : Nat} :
    Recoverable cmds k (applyAll json .empty (cmds.take k)) ↔
      ∀ key, Lib.RegOp.Replayable [] (cmds.map (Command.regOp key)) k := by
  refine forall_congr' fun key => or_congr ?_ (forall_congr' fun v => ?_)
  · constructor
    · rintro ⟨cmd, hmem, how⟩
      obtain ⟨value, heq⟩ := regOp_eq_set.mpr how
      exact ⟨value, heq ▸ List.mem_map_of_mem hmem⟩
    · rintro ⟨value, hmem⟩
      obtain ⟨cmd, hcmd, heq⟩ := List.mem_map.mp hmem
      exact ⟨cmd, hcmd, regOp_eq_set.mp ⟨value, heq⟩⟩
  · rw [get_applyAll, ← List.map_take]
    refine imp_congr Iff.rfl ⟨fun h new hmem => ?_, fun h cmd hmem hs hprev => ?_⟩
    · obtain ⟨cmd, hcmd, heq⟩ := List.mem_map.mp hmem
      obtain ⟨hs, hprev, rfl⟩ := regOp_eq_swap.mp heq
      exact h cmd hcmd hs hprev
    · refine h cmd.value ?_
      rw [← regOp_eq_swap.mpr ⟨hs, hprev, rfl⟩]
      exact List.mem_map_of_mem hmem

/-- **A second pass over a recoverable list ends where one pass ends.** -/
theorem applyAll_replay {json : MapCodec} {k : Nat}
    (h : Recoverable cmds k (applyAll json .empty (cmds.take k))) :
    applyAll json (applyAll json .empty (cmds.take k)) cmds = applyAll json .empty cmds := by
  refine Lib.Bucket.ext_get fun key => ?_
  rw [get_applyAll, get_applyAll, get_applyAll, List.map_take]
  exact Lib.RegOp.run_replay (recoverable_iff.mp h key)

/-- The converse, for CASes with distinct values. -/
theorem recoverable_of_replay {json : MapCodec} {k : Nat} (hdist : DistinctSwaps cmds)
    (heq : applyAll json (applyAll json .empty (cmds.take k)) cmds = applyAll json .empty cmds) :
    Recoverable cmds k (applyAll json .empty (cmds.take k)) := by
  refine recoverable_iff.mpr fun key => ?_
  obtain ⟨hnodup, hne⟩ := hdist key
  refine Lib.RegOp.replayable_of_run_replay (by rw [writes_regOp]; exact hnodup) ?_ ?_
  · rw [writes_regOp, List.mem_map]
    rintro ⟨cmd, hmem, hnil⟩
    obtain ⟨hcmd, hs⟩ := List.mem_filter.mp hmem
    exact hne cmd hcmd (of_decide_eq_true hs) hnil
  · have hkey : Lib.Bucket.get _ key = Lib.Bucket.get _ key := congrArg (Lib.Bucket.get · key) heq
    rw [get_applyAll, get_applyAll, get_applyAll, List.map_take] at hkey
    exact hkey

end Registers

/-! ## `applyCommitted` on a log without gaps -/

namespace RaftNode

variable {σ : Type}

/-- `applyCommitted` up to `commit`, every write succeeding. -/
def applyUpTo (E : Engine σ) (n : RaftNode σ) (commit : Nat) : RaftNode σ :=
  ({ n with commitIndex := commit }.applyCommitted E fun _ => true).1

/-- The node applies `k` entries, its process dies, and the next one applies the log up to `commit`. -/
def recover (E : Engine σ) (n : RaftNode σ) (k commit : Nat) : RaftNode σ :=
  ((n.applyUpTo E k).newRaftNode E).applyUpTo E commit

theorem storage_applyEntry (E : Engine σ) (written : Bool) (n : RaftNode σ) (e : LogEntry) :
    (n.applyEntry E written e).1.storage = (applyCommand E written n.storage e.command).1 := by
  unfold applyEntry
  dsimp only
  cases n.pending.lookup n.lastApplied <;> dsimp only <;> split <;> rfl

/-- The loop folds `applyCommand` over the entries after `lastApplied`. -/
theorem storage_applyFrom (E : Engine σ) {es : List LogEntry} : ∀ (k fuel : Nat) (n : RaftNode σ),
    n.raftLog.Holds es → n.lastApplied + fuel ≤ es.length →
    (n.applyFrom E (fun _ => true) k fuel).1.storage =
      (((es.drop n.lastApplied).take fuel).map LogEntry.command).foldl
        (fun store cmd => (applyCommand E true store cmd).1) n.storage
  | _, 0, n, _, _ => rfl
  | k, fuel + 1, n, h, hle => by
    have hlt : n.lastApplied < es.length := by omega
    have hget : n.raftLog.get (n.lastApplied + 1) = some es[n.lastApplied] := by
      rw [h.get_succ, List.getElem?_eq_getElem hlt]
    have ho := onlyApplies_applyEntry E true { n with lastApplied := n.lastApplied + 1 }
      es[n.lastApplied]
    rw [applyFrom_entry E _ hget, List.drop_eq_getElem_cons hlt, List.take_succ_cons, List.map_cons,
      List.foldl_cons]
    dsimp only
    rw [storage_applyFrom E (k + 1) fuel _ (by rw [ho.raftLog]; exact h)
      (by rw [lastApplied_applyEntry]; dsimp only; omega), lastApplied_applyEntry, storage_applyEntry]

variable {n : RaftNode BoltEngine} {es : List LogEntry} {json : MapCodec} {c : Nat}

/-- **The store after applying the log from its beginning.** -/
theorem storage_applyUpTo (h : n.raftLog.Holds es) (hlast : n.lastApplied = 0) (hc : c ≤ es.length) :
    (n.applyUpTo (BoltEngine.engine json) c).storage =
      applyAll json n.storage ((es.take c).map LogEntry.command) := by
  have hfold := storage_applyFrom (BoltEngine.engine json) 0 (c - n.lastApplied)
    { n with commitIndex := c } h (by dsimp only; omega)
  refine hfold.trans ?_
  dsimp only
  rw [hlast, List.drop_zero, Nat.sub_zero]
  rfl

theorem raftLog_applyUpTo (E : Engine BoltEngine) (n : RaftNode BoltEngine) (c : Nat) :
    (n.applyUpTo E c).raftLog = n.raftLog :=
  (onlyApplies_applyCommitted E _ { n with commitIndex := c }).raftLog

end RaftNode

/-! ## Recovery -/

section Recovery

variable {n : RaftNode BoltEngine} {es : List LogEntry} {json : MapCodec} {k c : Nat}

open RaftNode

theorem storage_recover (h : n.raftLog.Holds es) (hc : c ≤ es.length) :
    (n.recover (BoltEngine.engine json) k c).storage =
      applyAll json (n.applyUpTo (BoltEngine.engine json) k).storage
        ((es.take c).map LogEntry.command) := by
  have hlog : (n.applyUpTo (BoltEngine.engine json) k).raftLog.Holds es := by
    rw [raftLog_applyUpTo]
    exact h
  have hnew : ((n.applyUpTo (BoltEngine.engine json) k).newRaftNode
      (BoltEngine.engine json)).raftLog.Holds es := hlog.newRaftLog
  exact storage_applyUpTo hnew rfl hc

/-- **Recovery restores the store.** A node with an empty store and the log `es` applies `k` entries,
dies, and applies the log again up to `c`. If no CAS it had applied expects what the store was left
with, or else its key is set by some command, the store ends as if the log had been applied once; and
if the CASes on a key write pairwise different and non-empty values, only then. -/
theorem recovery_restores_store (h : n.raftLog.Holds es) (hstore : n.storage = Lib.Bucket.empty)
    (hlast : n.lastApplied = 0) (hk : k ≤ c) (hc : c ≤ es.length) :
    (Recoverable ((es.take c).map LogEntry.command) k
        (n.applyUpTo (BoltEngine.engine json) k).storage →
      (n.recover (BoltEngine.engine json) k c).storage =
        (n.applyUpTo (BoltEngine.engine json) c).storage) ∧
    (DistinctSwaps ((es.take c).map LogEntry.command) →
      (n.recover (BoltEngine.engine json) k c).storage =
        (n.applyUpTo (BoltEngine.engine json) c).storage →
      Recoverable ((es.take c).map LogEntry.command) k
        (n.applyUpTo (BoltEngine.engine json) k).storage) := by
  have hleft : (n.applyUpTo (BoltEngine.engine json) k).storage =
      applyAll json .empty (((es.take c).map LogEntry.command).take k) := by
    rw [storage_applyUpTo h hlast (hk.trans hc), hstore, ← List.map_take, List.take_take,
      Nat.min_eq_left hk]
  rw [storage_recover h hc, storage_applyUpTo h hlast hc, hleft, hstore]
  exact ⟨applyAll_replay, recoverable_of_replay⟩

/-- A node that has the commands in its log, as entries of term 1, and has applied nothing. -/
def nodeWith (cmds : List Command) : RaftNode BoltEngine :=
  { Shipped.start.node Shipped.node1 with
    raftLog := ⟨RaftLog.bucketOf (cmds.mapIdx fun k cmd => ⟨k + 1, 1, cmd⟩), none, none, 0, 0⟩ }

theorem holds_nodeWith {cmds : List Command} (h : ∀ cmd ∈ cmds, cmd.stored = cmd) :
    (nodeWith cmds).raftLog.Holds (cmds.mapIdx fun k cmd => ⟨k + 1, 1, cmd⟩) where
  get := RaftLog.get_bucketOf _
  listed k e he := by
    rw [List.getElem?_mapIdx] at he
    obtain ⟨cmd, hcmd, rfl⟩ := Option.map_eq_some_iff.mp he
    refine ⟨rfl, le_refl _, ?_⟩
    rw [LogEntry.stored, h cmd (List.mem_of_getElem? hcmd)]
  boundary := rfl
  record := rfl

/-- Two CASes on the key `k`, the second from the value the first writes. -/
def casChain : List Command := [⟨.cas, [107], [98], []⟩, ⟨.cas, [107], [99], [98]⟩]

/-- A crash between the two CASes of a chain is recovered from. -/
theorem recovery_restores_store_casChain :
    ((nodeWith casChain).recover Shipped.engine 1 2).storage =
      ((nodeWith casChain).applyUpTo Shipped.engine 2).storage ∧
    Lib.Bucket.get ((nodeWith casChain).applyUpTo Shipped.engine 2).storage [107] = some [99] := by
  refine ⟨(recovery_restores_store (holds_nodeWith (by decide)) rfl rfl (by decide)
    (by decide)).1 fun key => Or.inr fun v hv cmd hmem hs hprev => ?_, by decide⟩
  -- the first CAS expects an absent key, and the store is left with the value it wrote
  obtain rfl : cmd = ⟨.cas, [107], [98], []⟩ := List.mem_singleton.mp hmem
  obtain rfl : [107] = key := hs.1
  have hleft : Lib.Bucket.get ((nodeWith casChain).applyUpTo Shipped.engine 1).storage [107] =
      some [98] := by decide
  obtain rfl : [98] = v := Option.some.inj (hleft.symm.trans hv)
  exact absurd hprev (by decide)

/-- The same two CASes in the other order. -/
def casReversed : List Command := casChain.reverse

/-- **Recovery ends with another store.** The first CAS fails and the second writes `b`; when they are
run again the first finds `b` and writes `c`. -/
theorem recovery_diverges :
    (nodeWith casReversed).raftLog.Holds (casReversed.mapIdx fun k cmd => ⟨k + 1, 1, cmd⟩) ∧
    (nodeWith casReversed).storage = Lib.Bucket.empty ∧ (nodeWith casReversed).lastApplied = 0 ∧
    Lib.Bucket.get ((nodeWith casReversed).applyUpTo Shipped.engine 2).storage [107] = some [98] ∧
    Lib.Bucket.get ((nodeWith casReversed).recover Shipped.engine 2 2).storage [107] = some [99] :=
  ⟨holds_nodeWith (by decide), rfl, rfl, by decide, by decide⟩

end Recovery

end Raftrix
