import Mathlib.Logic.Function.Basic
import Raftrix.Node.Engines

/-!
# A store as a map

The store of a node is one of two engines (`storage.type`). What both are for is a map from keys to
values, on which a PUT, a DELETE and a CAS act (`Contents.apply`), and which may refuse some pairs.
`MapEngine` says that an engine is such a map, `StorageType.mapEngine` that both are, and
`MapEngine.refines` that `applyCommand` on the engine is `Contents.apply` on its contents; so two states
with one contents cannot be told apart (`MapEngine.observe_eq`).

`Contents.Ends` lists the ways a command can end. From it **`commands_atomic`**: a command that fails
leaves the store alone, one that succeeds changes its own key as it says, a CAS succeeds exactly if it
saw what it expected, and the CASes that succeed form a chain with the other writes of the key.
`large_value_refused` is why the third needs a value that the engine accepts.
-/

namespace Raftrix

/-! ## Commands on a map -/

/-- What a store holds. -/
abbrev Contents := Bytes → Option Bytes

namespace Contents

variable {refusal : Bytes → Bytes → Option EngineError} {written : Bool} {c : Contents} {cmd : Command}

/-- The map with the pair, unless it is refused or the transaction fails. -/
def write (refusal : Bytes → Bytes → Option EngineError) (written : Bool) (c : Contents)
    (key value : Bytes) : Contents × Option ApplyError :=
  match refusal key value with
  | some err => (c, some (.engine err))
  | none =>
    if written then (Function.update c key (some value), none) else (c, some (.engine .disk))

/-- A command on a map. -/
def apply (refusal : Bytes → Bytes → Option EngineError) (written : Bool) (c : Contents)
    (cmd : Command) : Contents × Option ApplyError :=
  match cmd.op with
  | .noop => (c, none)
  | .put => c.write refusal written cmd.key cmd.value
  | .delete =>
    if written then (Function.update c cmd.key none, none) else (c, some (.engine .disk))
  | .cas =>
    if (c cmd.key).getD [] = cmd.prevValue then c.write refusal written cmd.key cmd.value
    else (c, some .casMismatch)
  | .other op => (c, some (.unknownOp op))

/-- How a command ends. -/
inductive Ends (refusal : Bytes → Bytes → Option EngineError) (written : Bool) (c : Contents)
    (cmd : Command) : Contents × Option ApplyError → Prop
  | idle (hop : cmd.op = .noop) : Ends refusal written c cmd (c, none)
  | stored (hop : cmd.op = .put ∨ cmd.op = .cas)
      (hseen : cmd.op = .cas → (c cmd.key).getD [] = cmd.prevValue)
      (hok : refusal cmd.key cmd.value = none) (hwritten : written = true) :
      Ends refusal written c cmd (Function.update c cmd.key (some cmd.value), none)
  | deleted (hop : cmd.op = .delete) (hwritten : written = true) :
      Ends refusal written c cmd (Function.update c cmd.key none, none)
  | failed {err : ApplyError} (hcas : cmd.op = .cas → refusal cmd.key cmd.value = none →
      written = true → (c cmd.key).getD [] ≠ cmd.prevValue) : Ends refusal written c cmd (c, some err)

theorem ends_write (hop : cmd.op = .put ∨ cmd.op = .cas)
    (hseen : cmd.op = .cas → (c cmd.key).getD [] = cmd.prevValue) :
    Ends refusal written c cmd (c.write refusal written cmd.key cmd.value) := by
  unfold write
  cases hok : refusal cmd.key cmd.value with
  | some err => exact .failed fun _ h => by rw [hok] at h; cases h
  | none =>
    cases hwritten : written with
    | false => exact .failed fun _ _ h => by cases h
    | true => exact .stored hop hseen hok rfl

theorem ends_apply (refusal : Bytes → Bytes → Option EngineError) (written : Bool) (c : Contents)
    (cmd : Command) : Ends refusal written c cmd (c.apply refusal written cmd) := by
  unfold apply
  split
  · rename_i hop
    exact .idle hop
  · rename_i hop
    exact ends_write (Or.inl hop) fun h => by rw [hop] at h; cases h
  · rename_i hop
    split
    · rename_i hwritten
      exact .deleted hop hwritten
    · exact .failed fun h => by rw [hop] at h; cases h
  · rename_i hop
    split
    · rename_i hseen
      exact ends_write (Or.inr hop) fun _ => hseen
    · rename_i hseen
      exact .failed fun _ _ _ => hseen
  · rename_i hop
    exact .failed fun h => by rw [hop] at h; cases h

end Contents

/-! ## Engines that are maps -/

/-- The engine is a map that refuses some pairs. -/
structure MapEngine {σ : Type} (E : ScanEngine σ) where
  contents : σ → Contents
  /-- The error of `Put` for a pair. -/
  refusal : Bytes → Bytes → Option EngineError
  get_eq : ∀ s key, E.get s key = found? (contents s key)
  put_eq : ∀ s key value,
    (∃ err, refusal key value = some err ∧ E.put s key value = .error err) ∨
      refusal key value = none ∧ ∃ s', E.put s key value = .ok s' ∧
        contents s' = Function.update (contents s) key (some value)
  delete_eq : ∀ s key, ∃ s', E.delete s key = .ok s' ∧
    contents s' = Function.update (contents s) key none
  scan_eq : ∀ s start key, (E.scan s start).lookup key = if start <+: key then contents s key else none

/-- A command with the outcome of its write. -/
def ScanEngine.run {σ : Type} (E : ScanEngine σ) (s : σ) (c : Command × Bool) :
    σ × Option ApplyError :=
  applyCommand E.toEngine c.2 s c.1

namespace MapEngine

variable {σ : Type} {E : ScanEngine σ} (L : MapEngine E)

theorem write_refines (written : Bool) (s : σ) (key value : Bytes) :
    L.contents (commitWrite written s (E.put s key value)).1 =
        ((L.contents s).write L.refusal written key value).1 ∧
      (commitWrite written s (E.put s key value)).2 =
        ((L.contents s).write L.refusal written key value).2 := by
  unfold Contents.write
  rcases L.put_eq s key value with ⟨err, href, hput⟩ | ⟨href, s', hput, hs'⟩
  · rw [href, hput]
    exact ⟨rfl, rfl⟩
  · rw [href, hput]
    cases written with
    | false => exact ⟨rfl, rfl⟩
    | true => exact ⟨hs', rfl⟩

/-- **A command on the engine is the command on its contents.** -/
theorem refines (written : Bool) (s : σ) (cmd : Command) :
    L.contents (applyCommand E.toEngine written s cmd).1 =
        ((L.contents s).apply L.refusal written cmd).1 ∧
      (applyCommand E.toEngine written s cmd).2 =
        ((L.contents s).apply L.refusal written cmd).2 := by
  unfold applyCommand Contents.apply
  cases cmd.op with
  | noop => exact ⟨rfl, rfl⟩
  | put => exact L.write_refines written s cmd.key cmd.value
  | delete =>
    obtain ⟨s', hdelete, hs'⟩ := L.delete_eq s cmd.key
    rw [hdelete]
    cases written with
    | false => exact ⟨rfl, rfl⟩
    | true => exact ⟨hs', rfl⟩
  | cas =>
    have hwrite := L.write_refines written s cmd.key cmd.value
    rw [L.get_eq]
    cases L.contents s cmd.key with
    | none =>
      dsimp only [found?, Option.getD_none]
      split
      · exact hwrite
      · exact ⟨rfl, rfl⟩
    | some value =>
      dsimp only [found?, Option.getD_some]
      split
      · exact hwrite
      · exact ⟨rfl, rfl⟩
  | other op => exact ⟨rfl, rfl⟩

/-- How a command ends on the engine. -/
theorem ends (s : σ) (c : Command × Bool) :
    Contents.Ends L.refusal c.2 (L.contents s) c.1 (L.contents (E.run s c).1, (E.run s c).2) := by
  obtain ⟨hcontents, hresult⟩ := L.refines c.2 s c.1
  rw [ScanEngine.run, hcontents, hresult]
  exact Contents.ends_apply _ _ _ _

/-- Two states with one contents cannot be told apart by commands. -/
theorem observe_eq {s t : σ} (h : L.contents s = L.contents t) (cmds : List (Command × Bool)) :
    Lib.observe E.run s cmds = Lib.observe E.run t cmds := by
  induction cmds generalizing s t with
  | nil => rfl
  | cons c rest ih =>
    obtain ⟨hs, hs'⟩ := L.refines c.2 s c.1
    obtain ⟨ht, ht'⟩ := L.refines c.2 t c.1
    rw [h] at hs hs'
    exact congrArg₂ List.cons (hs'.trans ht'.symm) (ih (hs.trans ht.symm))

end MapEngine

/-! ## The two engines -/

/-- `storage.type`. -/
inductive StorageType where
  | memory
  | persistent
  deriving Repr, DecidableEq

namespace StorageType

/-- The contents of the engine. -/
abbrev State : StorageType → Type
  | memory => MemoryEngine
  | persistent => BoltEngine

/-- The engine `main` opens. -/
def engine (json : MapCodec) : (t : StorageType) → ScanEngine t.State
  | memory => MemoryEngine.scanEngine json
  | persistent => BoltEngine.scanEngine json

/-- A new engine. -/
def empty : (t : StorageType) → t.State
  | memory => (∅ : StringMap)
  | persistent => Lib.Bucket.empty

/-- `Put` accepts the pair. -/
def Accepts : StorageType → Bytes → Bytes → Prop
  | memory, _, _ => True
  | persistent, key, value => Writable key value

end StorageType

/-- The error of `BoltEngine.Put`, which does not depend on the contents. -/
def BoltEngine.refusal (key value : Bytes) : Option EngineError :=
  if key = [] then some .keyRequired
  else if maxKeySize < key.length then some .keyTooLarge
  else if maxValueSize < value.length then some .valueTooLarge
  else none

theorem BoltEngine.put_refusal (b : BoltEngine) (key value : Bytes) :
    (∃ err, refusal key value = some err ∧ put b key value = .error err) ∨
      refusal key value = none ∧ put b key value = .ok (Lib.Bucket.put b key value) := by
  unfold refusal put
  split
  · exact Or.inl ⟨_, rfl, rfl⟩
  · split
    · exact Or.inl ⟨_, rfl, rfl⟩
    · split
      · exact Or.inl ⟨_, rfl, rfl⟩
      · exact Or.inr ⟨rfl, rfl⟩

theorem BoltEngine.refusal_eq_none {key value : Bytes} :
    refusal key value = none ↔ Writable key value := by
  rcases put_refusal .empty key value with ⟨err, href, hput⟩ | ⟨href, hput⟩ <;>
    rcases BoltEngine.put_eq .empty key value with ⟨hyes, hput'⟩ | ⟨hno, err', hput'⟩ <;>
      simp_all

/-! What the writes do, as functions of the key. -/

theorem StringMap.lookup_insert_eq (m : StringMap) (key value : Bytes) :
    (fun k => AList.lookup k (m.insert key value)) =
      Function.update (fun k => AList.lookup k m) key (some value) := by
  funext k
  by_cases hk : k = key
  · subst hk
    simp
  · simp [hk]

theorem StringMap.lookup_erase_eq (m : StringMap) (key : Bytes) :
    (fun k => AList.lookup k (m.erase key)) = Function.update (fun k => AList.lookup k m) key none := by
  funext k
  by_cases hk : k = key
  · subst hk
    simp
  · simp [hk]

theorem BoltEngine.get_put_eq (b : BoltEngine) (key value : Bytes) :
    Lib.Bucket.get (Lib.Bucket.put b key value) =
      Function.update (Lib.Bucket.get b) key (some value) := by
  funext k
  rw [Lib.Bucket.get_put]
  by_cases hk : k = key
  · subst hk
    simp
  · simp [hk]

theorem BoltEngine.get_delete_eq (b : BoltEngine) (key : Bytes) :
    Lib.Bucket.get (Lib.Bucket.delete b key) = Function.update (Lib.Bucket.get b) key none := by
  funext k
  rw [Lib.Bucket.get_delete]
  by_cases hk : k = key
  · subst hk
    simp
  · simp [hk]

namespace StorageType

/-- The Go map is a map that refuses nothing. -/
def memoryMap (json : MapCodec) : MapEngine (engine json memory) where
  contents m key := AList.lookup key m
  refusal _ _ := none
  get_eq _ _ := rfl
  put_eq m key value := Or.inr ⟨rfl, _, rfl, StringMap.lookup_insert_eq m key value⟩
  delete_eq m key := ⟨_, rfl, StringMap.lookup_erase_eq m key⟩
  scan_eq m start key := by
    ext value
    change (StringMap.collect start (StringMap.pairs m)).lookup key = _ ↔ _
    rw [StringMap.lookup_collect (StringMap.nodup_keys m), StringMap.mem_pairs]
    split <;> simp_all

/-- The file is a map that refuses what bbolt does not accept. -/
def persistentMap (json : MapCodec) : MapEngine (engine json persistent) where
  contents b := Lib.Bucket.get b
  refusal := BoltEngine.refusal
  get_eq _ _ := rfl
  put_eq b key value := (BoltEngine.put_refusal b key value).imp_right fun h =>
    ⟨h.1, _, h.2, BoltEngine.get_put_eq b key value⟩
  delete_eq b key := ⟨_, rfl, BoltEngine.get_delete_eq b key⟩
  scan_eq b start key := by
    ext value
    change (StringMap.collect start (Lib.Bucket.pairs b)).lookup key = _ ↔ _
    rw [StringMap.lookup_collect (Lib.Bucket.nodup_keys b), ← Lib.Bucket.get_eq_some_iff]
    split <;> simp_all

/-- **Both engines are maps.** -/
def mapEngine (json : MapCodec) : (t : StorageType) → MapEngine (t.engine json)
  | memory => memoryMap json
  | persistent => persistentMap json

theorem refusal_eq_none {json : MapCodec} {key value : Bytes} : ∀ {t : StorageType},
    (t.mapEngine json).refusal key value = none ↔ t.Accepts key value
  | memory => iff_of_true rfl trivial
  | persistent => BoltEngine.refusal_eq_none

end StorageType

/-! ## Atomicity -/

section Atomicity

variable {σ : Type} {E : ScanEngine σ} {key : Bytes}

/-- The value of a key; an absent one counts as empty. -/
def ScanEngine.current (E : ScanEngine σ) (s : σ) (key : Bytes) : Bytes :=
  match E.get s key with
  | .ok value => value
  | .error _ => []

/-- The commands that succeed, of a list with the outcomes of their writes. -/
def ScanEngine.succeeded (E : ScanEngine σ) : σ → List (Command × Bool) → List Command
  | _, [] => []
  | s, c :: rest =>
    if (E.run s c).2 = none then c.1 :: E.succeeded (E.run s c).1 rest
    else E.succeeded (E.run s c).1 rest

/-- The store they leave. -/
def ScanEngine.after (E : ScanEngine σ) (s : σ) (cmds : List (Command × Bool)) : σ :=
  cmds.foldl (fun s c => (E.run s c).1) s

/-- The command writes the key if it succeeds. -/
def Command.Updates (cmd : Command) (key : Bytes) : Prop :=
  cmd.key = key ∧ (cmd.op = .put ∨ cmd.op = .delete ∨ cmd.op = .cas)

instance (cmd : Command) (key : Bytes) : Decidable (cmd.Updates key) :=
  inferInstanceAs (Decidable (_ ∧ (_ ∨ _ ∨ _)))

/-- What it leaves there. -/
def Command.leaves (cmd : Command) : Bytes := if cmd.op = .delete then [] else cmd.value

/-- Every CAS has seen the value the write before it has left, the first the value `seen`. -/
def Chained : Bytes → List Command → Prop
  | _, [] => True
  | seen, cmd :: rest => (cmd.op = .cas → cmd.prevValue = seen) ∧ Chained cmd.leaves rest

/-- The value at the end of the chain. -/
def chainEnd : Bytes → List Command → Bytes
  | seen, [] => seen
  | _, cmd :: rest => chainEnd cmd.leaves rest

/-- Commands are atomic on the engine, which accepts the pairs `accepts`. -/
structure CommandsAtomic (E : ScanEngine σ) (accepts : Bytes → Bytes → Prop) : Prop where
  error : ∀ s c, (E.run s c).2 ≠ none → (E.run s c).1 = s
  frame : ∀ s c key, (E.run s c).2 = none → key ≠ c.1.key → E.get (E.run s c).1 key = E.get s key
  stored : ∀ s c, (E.run s c).2 = none → c.1.op = .put ∨ c.1.op = .cas →
    E.get (E.run s c).1 c.1.key = .ok c.1.value
  deleted : ∀ s c, (E.run s c).2 = none → c.1.op = .delete →
    E.get (E.run s c).1 c.1.key = .error .keyNotFound
  /-- The second component is the outcome of the transaction. -/
  cas : ∀ s c, c.1.op = .cas → accepts c.1.key c.1.value →
    ((E.run s c).2 = none ↔ c.2 = true ∧ E.current s c.1.key = c.1.prevValue)
  noLostUpdate : ∀ s cmds key,
    Chained (E.current s key) ((E.succeeded s cmds).filter (·.Updates key)) ∧
      E.current (E.after s cmds) key =
        chainEnd (E.current s key) ((E.succeeded s cmds).filter (·.Updates key))

theorem commitWrite_error {written : Bool} {s : σ} {write : Except EngineError σ}
    (h : (commitWrite written s write).2 ≠ none) : (commitWrite written s write).1 = s := by
  unfold commitWrite at h ⊢
  split at h
  · rfl
  · split at h
    · exact absurd rfl h
    · rename_i hw
      rw [if_neg hw]

/-- A command that fails leaves the store of any engine alone. -/
theorem applyCommand_error {E : Engine σ} {written : Bool} {s : σ} {cmd : Command}
    (h : (applyCommand E written s cmd).2 ≠ none) : (applyCommand E written s cmd).1 = s := by
  revert h
  fun_cases applyCommand E written s cmd with
  | _ => first | exact fun _ => rfl | exact commitWrite_error

namespace MapEngine

variable (L : MapEngine E)

include L

theorem current_eq (s : σ) (key : Bytes) : E.current s key = (L.contents s key).getD [] := by
  rw [ScanEngine.current, L.get_eq]
  cases L.contents s key <;> rfl

/-- What a command that succeeds does to the contents. -/
theorem ends_ok {s : σ} {c : Command × Bool} (h : (E.run s c).2 = none) :
    c.1.op = .noop ∧ L.contents (E.run s c).1 = L.contents s ∨
    (c.1.op = .put ∨ c.1.op = .cas) ∧
        (c.1.op = .cas → (L.contents s c.1.key).getD [] = c.1.prevValue) ∧
        L.contents (E.run s c).1 = Function.update (L.contents s) c.1.key (some c.1.value) ∨
      c.1.op = .delete ∧ L.contents (E.run s c).1 = Function.update (L.contents s) c.1.key none := by
  have hends := L.ends s c
  rw [h] at hends
  generalize L.contents (E.run s c).1 = after at hends ⊢
  cases hends with
  | idle hop => exact Or.inl ⟨hop, rfl⟩
  | stored hop hseen _ _ => exact Or.inr (Or.inl ⟨hop, hseen, rfl⟩)
  | deleted hop _ => exact Or.inr (Or.inr ⟨hop, rfl⟩)

/-- A CAS on a pair that is not refused succeeds exactly if it finds what it expects. -/
theorem cas_iff {s : σ} {c : Command × Bool} (hop : c.1.op = .cas)
    (hok : L.refusal c.1.key c.1.value = none) :
    (E.run s c).2 = none ↔ c.2 = true ∧ E.current s c.1.key = c.1.prevValue := by
  rw [L.current_eq]
  have hends := L.ends s c
  generalize L.contents (E.run s c).1 = after, (E.run s c).2 = result at hends ⊢
  cases hends with
  | idle h => rw [hop] at h; cases h
  | stored _ hseen _ hwritten => exact iff_of_true rfl ⟨hwritten, hseen hop⟩
  | deleted h _ => rw [hop] at h; cases h
  | failed hcas => exact iff_of_false (by simp) fun h => hcas hop hok h.1 h.2

/-- A write of the key leaves its value; a CAS has seen the one before. -/
theorem current_update {s : σ} {c : Command × Bool} (h : (E.run s c).2 = none)
    (hu : c.1.Updates key) :
    E.current (E.run s c).1 key = c.1.leaves ∧ (c.1.op = .cas → c.1.prevValue = E.current s key) := by
  obtain ⟨rfl, hop⟩ := hu
  rw [L.current_eq, L.current_eq, Command.leaves]
  rcases L.ends_ok h with ⟨hnoop, _⟩ | ⟨hwrite, hseen, hafter⟩ | ⟨hdelete, hafter⟩
  · rw [hnoop] at hop
    simp at hop
  · rw [hafter, Function.update_self]
    refine ⟨?_, fun hcas => (hseen hcas).symm⟩
    rcases hwrite with hput | hcas
    · rw [hput]
      rfl
    · rw [hcas]
      rfl
  · rw [hafter, Function.update_self, hdelete]
    exact ⟨rfl, fun hcas => by cases hcas⟩

/-- Every other command leaves the key alone. -/
theorem get_other {s : σ} {c : Command × Bool} (h : (E.run s c).2 = none) (hu : ¬ c.1.Updates key) :
    E.get (E.run s c).1 key = E.get s key := by
  rw [L.get_eq, L.get_eq]
  rcases L.ends_ok h with ⟨_, hafter⟩ | ⟨hwrite, _, hafter⟩ | ⟨hdelete, hafter⟩
  · rw [hafter]
  · have hne : key ≠ c.1.key := fun heq => hu ⟨heq.symm, hwrite.imp_right Or.inr⟩
    rw [hafter, Function.update_of_ne hne]
  · have hne : key ≠ c.1.key := fun heq => hu ⟨heq.symm, Or.inr (Or.inl hdelete)⟩
    rw [hafter, Function.update_of_ne hne]

/-- **No update is lost**: by induction over the commands, the chain starting at the current value. -/
theorem chained (cmds : List (Command × Bool)) (s : σ) (key : Bytes) :
    Chained (E.current s key) ((E.succeeded s cmds).filter (·.Updates key)) ∧
      E.current (E.after s cmds) key =
        chainEnd (E.current s key) ((E.succeeded s cmds).filter (·.Updates key)) := by
  induction cmds generalizing s with
  | nil => exact ⟨trivial, rfl⟩
  | cons c rest ih =>
    have ih := ih (E.run s c).1
    change _ ∧ E.current (E.after (E.run s c).1 rest) key = _
    rw [ScanEngine.succeeded]
    by_cases h : (E.run s c).2 = none
    · rw [if_pos h]
      by_cases hu : c.1.Updates key
      · obtain ⟨hleft, hseen⟩ := L.current_update h hu
        rw [hleft] at ih
        rw [List.filter_cons_of_pos (by simpa using hu)]
        exact ⟨⟨hseen, ih.1⟩, ih.2⟩
      · rw [ScanEngine.current, L.get_other h hu] at ih
        rw [List.filter_cons_of_neg (by simpa using hu)]
        exact ih
    · rw [if_neg h]
      rw [show (E.run s c).1 = s from applyCommand_error h] at ih ⊢
      exact ih

/-- Commands are atomic on a map. -/
theorem atomic {accepts : Bytes → Bytes → Prop}
    (hacc : ∀ key value, accepts key value → L.refusal key value = none) : CommandsAtomic E accepts where
  error _ _ := applyCommand_error
  frame _ _ _ h hne := L.get_other h fun hu => hne hu.1.symm
  stored s c h hop := by
    rw [L.get_eq]
    rcases L.ends_ok h with ⟨hnoop, _⟩ | ⟨_, _, hafter⟩ | ⟨hdelete, _⟩
    · rw [hnoop] at hop
      simp at hop
    · rw [hafter, Function.update_self]
      rfl
    · rw [hdelete] at hop
      simp at hop
  deleted s c h hop := by
    rw [L.get_eq]
    rcases L.ends_ok h with ⟨hnoop, _⟩ | ⟨hwrite, _, _⟩ | ⟨_, hafter⟩
    · rw [hop] at hnoop
      cases hnoop
    · rw [hop] at hwrite
      simp at hwrite
    · rw [hafter, Function.update_self]
      rfl
  cas _ _ hop h := L.cas_iff hop (hacc _ _ h)
  noLostUpdate s cmds key := L.chained cmds s key

end MapEngine

/-- **Commands are atomic on either engine**, for every state, the map of `MemoryEngine` not being nil, every
command, and every outcome of the writes. A CAS
on a pair the engine accepts succeeds exactly if its transaction does and the current value is the
expected one; in every list of commands each CAS that succeeds has seen what the last write of its key
has left, and the key ends with what the last of them leaves. -/
theorem commands_atomic (json : MapCodec) (t : StorageType) :
    CommandsAtomic (t.engine json) t.Accepts :=
  (t.mapEngine json).atomic fun _ _ => StorageType.refusal_eq_none.mpr

/-- A CAS of `"k"` from nothing to the value. -/
def firstSwap (value : Bytes) : Command := ⟨.cas, [107], value, []⟩

theorem run_firstSwap {value : Bytes} (h : BoltEngine.maxValueSize < value.length) :
    ((StorageType.persistent.engine Shipped.json).run .empty (firstSwap value, true)).2 =
      some (.engine .valueTooLarge) := by
  have hput : BoltEngine.put .empty [107] value = .error .valueTooLarge := by
    unfold BoltEngine.put
    rw [if_neg (by decide), if_neg (by decide), if_pos h]
  change (commitWrite true _ (BoltEngine.put .empty [107] value)).2 = _
  rw [hput]
  rfl

/-- **An accepted key is not enough.** `Put` accepts the key, and it is absent, as the CAS expects; the
CAS fails because its value has one byte more than bbolt takes. -/
theorem large_value_refused :
    let cmd := firstSwap (List.replicate (BoltEngine.maxValueSize + 1) 0)
    StorageType.persistent.Accepts cmd.key [] ∧
      (StorageType.persistent.engine Shipped.json).current .empty cmd.key = cmd.prevValue ∧
      ((StorageType.persistent.engine Shipped.json).run .empty (cmd, true)).2 =
        some (.engine .valueTooLarge) := by
  refine ⟨?_, rfl, run_firstSwap ?_⟩
  · change Writable [107] []
    decide
  · rw [List.length_replicate]
    exact Nat.lt_succ_self _

end Atomicity

end Raftrix
