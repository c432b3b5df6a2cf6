import Raftrix.Model.Types

/-!
# The client API (`pkg/api/v1/kvstore.go`)

The handlers of the HTTP server as far as they decide what is proposed: `handleKey`, `handleCAS` and
`handleTxn` with the checks they make and the texts they answer with. A path arrives percent-decoded, so
its bytes are arbitrary; a body arrives as what `encoding/json` decodes from it, `none` if it does not,
and the strings in it are valid UTF-8. `strings.ToUpper` is applied to the op of a transaction before it
is an `OpType`.
-/

namespace Raftrix

namespace Api

/-- `r.Method`. -/
inductive Method where
  | get
  | put
  | delete
  | post
  | other
  deriving Repr, DecidableEq

/-- What a handler does with a request. -/
inductive Handled where
  /-- `writeError` or `http.Error`. -/
  | error (status : Nat) (message : String)
  /-- `getKey` reads the local store. -/
  | read (key : Bytes)
  /-- The commands are proposed, one after another as long as none fails. -/
  | propose (cmds : List Command)
  deriving Repr, DecidableEq

def Handled.commands : Handled → List Command
  | .propose cmds => cmds
  | _ => []

/-- `strings.TrimPrefix`. -/
def trimStart (s start : Bytes) : Bytes := if start.isPrefixOf s then s.drop start.length else s

/-- `"/v1/keys/"`. -/
def keysPath : Bytes := [47, 118, 49, 47, 107, 101, 121, 115, 47]

/-- `"/v1/cas/"`. -/
def casPath : Bytes := [47, 118, 49, 47, 99, 97, 115, 47]

/-- `putKey`, over `body.Value`. -/
def putKey (key : Bytes) : Option Bytes → Handled
  | none => .error 400 "invalid JSON body"
  | some value => .propose [⟨.put, key, value, []⟩]

/-- `deleteKey`. -/
def deleteKey (key : Bytes) : Handled := .propose [⟨.delete, key, [], []⟩]

/-- `handleKey`. -/
def handleKey (method : Method) (path : Bytes) (body : Option Bytes) : Handled :=
  let key := trimStart path keysPath
  if key = [] then .error 400 "key is required"
  else
    match method with
    | .get => .read key
    | .put => putKey key body
    | .delete => deleteKey key
    | _ => .error 405 "method not allowed"

/-- `handleCAS`, over `body.PrevValue` and `body.NewValue`. -/
def handleCAS (method : Method) (path : Bytes) (body : Option (Bytes × Bytes)) : Handled :=
  if method ≠ .post then .error 405 "method not allowed"
  else
    let key := trimStart path casPath
    if key = [] then .error 400 "key is required"
    else
      match body with
      | none => .error 400 "invalid JSON body"
      | some (prev, new) => .propose [⟨.cas, key, new, prev⟩]

/-- One of `body.Ops`, with the op in upper case. -/
structure TxnOp where
  op : OpType
  key : Bytes
  value : Bytes
  prevValue : Bytes
  /-- The strings come from a JSON text. -/
  op_text : op.stored = op
  key_text : Lib.Utf8.coerceUtf8 key = key

/-- `handleTxn`. -/
def handleTxn (method : Method) (body : Option (List TxnOp)) : Handled :=
  if method ≠ .post then .error 405 "method not allowed"
  else
    match body with
    | none => .error 400 "invalid JSON body"
    | some ops => .propose (ops.map fun op => ⟨op.op, op.key, op.value, op.prevValue⟩)

/-- A request that may propose something. -/
inductive Request where
  | key (method : Method) (path : Bytes) (body : Option Bytes)
  | cas (method : Method) (path : Bytes) (body : Option (Bytes × Bytes))
  | txn (method : Method) (body : Option (List TxnOp))

/-- The handler of the request. -/
def handle : Request → Handled
  | .key method path body => handleKey method path body
  | .cas method path body => handleCAS method path body
  | .txn method body => handleTxn method body

/-- The API can propose the command. -/
def Proposes (cmd : Command) : Prop := ∃ req, cmd ∈ (handle req).commands

/-! ## What is proposed -/

theorem handleKey_commands {method : Method} {path : Bytes} {body : Option Bytes} {cmd : Command}
    (h : cmd ∈ (handleKey method path body).commands) :
    (cmd.op = .put ∨ cmd.op = .delete) ∧ cmd.key ≠ [] := by
  unfold handleKey at h
  dsimp only at h
  split at h
  · exact absurd h List.not_mem_nil
  · rename_i hkey
    split at h
    · exact absurd h List.not_mem_nil
    · cases body with
      | none => exact absurd h List.not_mem_nil
      | some value =>
        obtain rfl := List.mem_singleton.mp h
        exact ⟨Or.inl rfl, hkey⟩
    · obtain rfl := List.mem_singleton.mp h
      exact ⟨Or.inr rfl, hkey⟩
    · exact absurd h List.not_mem_nil

theorem handleCAS_commands {method : Method} {path : Bytes} {body : Option (Bytes × Bytes)}
    {cmd : Command} (h : cmd ∈ (handleCAS method path body).commands) :
    cmd.op = .cas ∧ cmd.key ≠ [] := by
  unfold handleCAS at h
  dsimp only at h
  split at h
  · exact absurd h List.not_mem_nil
  · split at h
    · exact absurd h List.not_mem_nil
    · rename_i hkey
      split at h
      · exact absurd h List.not_mem_nil
      · obtain rfl := List.mem_singleton.mp h
        exact ⟨rfl, hkey⟩

/-- The strings of a transaction have been through JSON before. -/
theorem handleTxn_commands {method : Method} {body : Option (List TxnOp)} {cmd : Command}
    (h : cmd ∈ (handleTxn method body).commands) : cmd.stored = cmd := by
  unfold handleTxn at h
  split at h
  · exact absurd h List.not_mem_nil
  · split at h
    · exact absurd h List.not_mem_nil
    · obtain ⟨op, _, rfl⟩ := List.mem_map.mp h
      rw [Command.stored, op.op_text, op.key_text]

/-- A command is proposed with a non-empty key of a path, or with the strings of a transaction. -/
theorem proposes_cases {cmd : Command} (h : Proposes cmd) :
    (cmd.op = .put ∨ cmd.op = .delete ∨ cmd.op = .cas) ∧ cmd.key ≠ [] ∨ cmd.stored = cmd := by
  obtain ⟨req, hmem⟩ := h
  cases req with
  | key method path body =>
    obtain ⟨hop, hkey⟩ := handleKey_commands hmem
    exact Or.inl ⟨hop.imp_right Or.inl, hkey⟩
  | cas method path body =>
    obtain ⟨hop, hkey⟩ := handleCAS_commands hmem
    exact Or.inl ⟨Or.inr (Or.inr hop), hkey⟩
  | txn method body => exact Or.inr (handleTxn_commands hmem)

end Api

end Raftrix
