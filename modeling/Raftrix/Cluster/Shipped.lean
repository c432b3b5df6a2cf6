import Raftrix.Cluster.Exec
import Raftrix.Model.Http

/-!
# The shipped cluster

The three nodes of `config/cluster`, each with the other two as peers, over the file-backed engine
and with the shipped snapshot threshold. The concrete runs of this development are runs of it, but for
those over HTTP of three nodes whose ids are not valid UTF-8 (`binaryRoster`).
-/

namespace Raftrix

namespace Cluster

section Play

variable {σ : Type} (E : Engine σ) (M : Membership) (store : NodeID → σ) (threshold : NodeID → Int)
  (ok : Cluster σ → Step → Prop) [∀ s st, Decidable (ok s st)]

/-- Carry out the actions, every transaction succeeding; nothing happens if one of them is not
allowed or not possible. -/
def play (actions : List Action) : List (Cluster σ × Step) × Cluster σ :=
  (Lib.follow (step E M) ok [] (init M store threshold)
    (actions.map (.act fun _ => true))).getD ([], init M store threshold)

theorem reaches_play (actions : List Action) :
    Reaches E M store threshold (fun s st => ok s st ∧ DiskOk s st)
      (play E M store threshold ok actions).1 (play E M store threshold ok actions).2 := by
  unfold play
  cases h : Lib.follow (step E M) ok [] (init M store threshold)
      (actions.map (.act fun _ => true)) with
  | none => exact .start rfl
  | some r =>
    refine Lib.Run.of_follow (fun s st hst => ?_) (.start rfl) h
    obtain ⟨a, _, rfl⟩ := List.mem_map.mp hst
    exact fun _ => rfl

/-- Something that happens in a cluster whose disks do not fail: a critical section, or the end of a
process. -/
inductive Event where
  | does (a : Action)
  | dies (i : NodeID)

/-- The step of an event. -/
def Event.step : Event → Step
  | does a => .act (fun _ => true) a
  | dies i => .crash i

/-- Critical sections, one after another. -/
def acts (actions : List Action) : List Event := actions.map .does

/-- Carry out the events; nothing happens if one of them is not allowed or not possible. -/
def playEvents (events : List Event) : List (Cluster σ × Step) × Cluster σ :=
  (Lib.follow (step E M) ok [] (init M store threshold)
    (events.map Event.step)).getD ([], init M store threshold)

theorem reaches_playEvents (events : List Event) :
    Reaches E M store threshold (fun s st => ok s st ∧ DiskOk s st)
      (playEvents E M store threshold ok events).1 (playEvents E M store threshold ok events).2 := by
  unfold playEvents
  cases h : Lib.follow (Cluster.step E M) ok [] (init M store threshold)
      (events.map Event.step) with
  | none => exact .start rfl
  | some r =>
    refine Lib.Run.of_follow (fun s st hst => ?_) (.start rfl) h
    obtain ⟨event, _, rfl⟩ := List.mem_map.mp hst
    cases event with
    | does a => exact fun _ => rfl
    | dies i => trivial

end Play

end Cluster

namespace Shipped

/-- `"node-1"`. -/
def node1 : NodeID := [110, 111, 100, 101, 45, 49]

/-- `"node-2"`. -/
def node2 : NodeID := [110, 111, 100, 101, 45, 50]

/-- `"node-3"`. -/
def node3 : NodeID := [110, 111, 100, 101, 45, 51]

/-- The three nodes. -/
def membership : Membership where
  ids := [node1, node2, node3]
  peers i := ([node1, node2, node3].erase i).map fun j => ⟨j⟩
  nodup := by decide
  nonempty := by decide
  peers_perm := by decide
  utf8 := by decide

/-- `encoding/json` on the maps of the stores. -/
def json : MapCodec := mapJson.maps

/-- The file-backed engine. -/
def engine : Engine BoltEngine := BoltEngine.engine json

/-- `{}`, the snapshot of an empty store. -/
def emptySnapshot : Bytes := [123, 125]

/-- The runs of the shipped cluster. -/
abbrev Reaches (ok : Cluster BoltEngine → Step → Prop) :=
  Cluster.Reaches engine membership (fun _ => .empty) (fun _ => 10000) ok

/-- The cluster before its first step. -/
def start : Cluster BoltEngine := Cluster.init membership (fun _ => .empty) (fun _ => 10000)

section Play

variable (ok : Cluster BoltEngine → Step → Prop) [∀ s st, Decidable (ok s st)]

/-- Carry out the actions in the shipped cluster. -/
def play (actions : List Action) : List (Cluster BoltEngine × Step) × Cluster BoltEngine :=
  Cluster.play engine membership (fun _ => .empty) (fun _ => 10000) ok actions

theorem reaches_play (actions : List Action) :
    Reaches (fun s st => ok s st ∧ Cluster.DiskOk s st) (play ok actions).1
      (play ok actions).2 :=
  Cluster.reaches_play engine membership _ _ ok actions

end Play

/-! The same nodes with `snapshot_threshold: 1`, where every entry that is applied starts a
`takeSnapshot`. -/

/-- The runs of the cluster with threshold 1. -/
abbrev EagerReaches (ok : Cluster BoltEngine → Step → Prop) :=
  Cluster.Reaches engine membership (fun _ => .empty) (fun _ => 1) ok

/-- The cluster with threshold 1 before its first step. -/
def eagerStart : Cluster BoltEngine := Cluster.init membership (fun _ => .empty) (fun _ => 1)

section EagerPlay

variable (ok : Cluster BoltEngine → Step → Prop) [∀ s st, Decidable (ok s st)]

/-- Carry out the events in the cluster with threshold 1. -/
def eagerPlay (events : List Cluster.Event) : List (Cluster BoltEngine × Step) × Cluster BoltEngine :=
  Cluster.playEvents engine membership (fun _ => .empty) (fun _ => 1) ok events

theorem reaches_eagerPlay (events : List Cluster.Event) :
    EagerReaches (fun s st => ok s st ∧ Cluster.DiskOk s st) (eagerPlay ok events).1
      (eagerPlay ok events).2 :=
  Cluster.reaches_playEvents engine membership _ _ ok events

end EagerPlay

/-! Three nodes over HTTP whose ids a configuration file gives as `!!binary`: -/

/-- The first node: one byte that is not valid UTF-8. -/
def nodeFF : NodeID := [0xFF]

/-- The second node. -/
def nodeFE : NodeID := [0xFE]

/-- The third node. -/
def nodeFD : NodeID := [0xFD]

/-- The three nodes. -/
def binaryRoster : Roster where
  ids := [nodeFF, nodeFE, nodeFD]
  peers i := ([nodeFF, nodeFE, nodeFD].erase i).map fun j => ⟨j⟩
  nodup := by decide
  nonempty := by decide
  peers_perm := by decide

/-- Their runs over HTTP with disks that do not fail. -/
abbrev BinaryReaches :=
  Cluster.HttpReaches engine binaryRoster (fun _ => .empty) (fun _ => 10000) fun s x =>
    Cluster.DiskOk s x.1

/-- Carry out the actions over HTTP, every transaction succeeding; nothing happens if one of them is not
possible. -/
def binaryPlay (actions : List Action) :
    List (Cluster BoltEngine × (Step × Wording)) × Cluster BoltEngine :=
  (Lib.follow (Cluster.stepHttp engine binaryRoster) (fun _ _ => True) []
    (Cluster.init binaryRoster (fun _ => .empty) fun _ => 10000)
    (actions.map fun a => (.act (fun _ => true) a, ⟨true, []⟩))).getD
      ([], Cluster.init binaryRoster (fun _ => .empty) fun _ => 10000)

theorem reaches_binaryPlay (actions : List Action) :
    BinaryReaches (binaryPlay actions).1 (binaryPlay actions).2 := by
  have hrun : Cluster.HttpReaches engine binaryRoster (fun _ => .empty) (fun _ => 10000)
      (fun s x => True ∧ Cluster.DiskOk s x.1) (binaryPlay actions).1 (binaryPlay actions).2 := by
    unfold binaryPlay
    cases h : Lib.follow (Cluster.stepHttp engine binaryRoster) (fun _ _ => True) []
        (Cluster.init binaryRoster (fun _ => .empty) fun _ => 10000)
        (actions.map fun a => (.act (fun _ => true) a, ⟨true, []⟩)) with
    | none => exact .start rfl
    | some r =>
      refine Lib.Run.of_follow (fun s x hx => ?_) (.start rfl) h
      obtain ⟨a, _, rfl⟩ := List.mem_map.mp hx
      exact fun _ => rfl
  exact hrun.mono fun _ _ h => h.2

/-- An election of `i`, from the timeout to the end: the RequestVote call `granted` is answered, the
call `lost` is not. -/
def elect (i : NodeID) (granted lost : Nat) : List Action :=
  [.electionTimeout i, .handleVote granted, .voteReturn granted, .voteFail lost, .finishElection i]

/-- `node-1` is elected by `node-2` and then proposes a command. -/
def termOne : List Action := elect node1 0 1 ++ [.propose node1 ⟨.put, [1], [1], []⟩]

/-- `node-1` leads term 1 and makes its proposals, then `node-2`, elected by `node-3`, leads term 2;
neither has sent anything. -/
def twoLeaders (proposals : List Action) : List Action :=
  elect node1 0 1 ++ proposals ++ elect node2 3 2

/-! With threshold 1: -/

open Cluster (Event acts)

/-- `node-1` leads term 1, replicates its no-op to `node-2`, commits and applies it and compacts its log,
which is then empty. -/
def compactedLeader : List Event :=
  acts (elect node1 0 1 ++ [.replicate node1 node2, .handleAppend 0, .appendReturn 0,
    .resume node1 0, .resume node1 0, .resume node1 0])

/-- The process of `node-1` dies, and the next one is elected in term 2. It sends its no-op to `node-3`
twice; the first of the two requests is turned away, since `node-3` has nothing at index 1. -/
def restartedLeader : List Event :=
  compactedLeader ++ [.dies node1] ++ acts (elect node1 2 3 ++ [.replicate node1 node3,
    .replicate node1 node3, .handleAppend 1, .appendReturn 1])

/-- `node-1` commits its no-op and a `DELETE` with the help of `node-2`, applies them and takes a
snapshot; then it sends a snapshot to `node-3`, which installs it. -/
def snapshotInstalled : List Event :=
  restartedLeader ++ acts [.replicate node1 node2, .handleAppend 3, .appendReturn 3, .resume node1 0,
    .propose node1 ⟨.delete, [1], [], []⟩, .replicate node1 node2, .handleAppend 4, .appendReturn 4,
    .resume node1 0, .resume node1 0, .resume node1 1, .replicate node1 node3, .handleSnapshot 0]

end Shipped

end Raftrix
