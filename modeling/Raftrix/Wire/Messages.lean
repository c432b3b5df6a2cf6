import Raftrix.Log.File
import Raftrix.Model.Wire

/-!
# The JSON of entries and messages is read back

For every type that is written as JSON there is a condition (`Writable`) under which the text gives the
value back: its numbers are `uint64` values, which in the source they are by their type, and its ids are
valid UTF-8. An entry comes back as `LogEntry.stored` says (`LogEntry.ofJson_toJson`), so the entries of a
log come back as they are.

An op that is spelt like one of the four known ones is that one (`OpType.Proper`); in the source it is a
string, and there is nothing to say.
-/

namespace Raftrix

open Lib.Json (Value ascii record record_coerce record_cons record_nil record_omitEmpty record_omitZero
  map_uint64 map_bytes)
open Lib.Utf8 (coerceUtf8 coerceFrom tailLen)

/-! ## Commands and entries -/

/-- No known op is written as another one. -/
def OpType.Proper (op : OpType) : Prop := OpType.ofText op.text = op

instance (op : OpType) : Decidable op.Proper := inferInstanceAs (Decidable (_ = _))

/-- Nothing is replaced in a string that comes back as ASCII. -/
theorem eq_of_coerceFrom_ascii (n : Nat) (s : Bytes) (h : ∀ c ∈ coerceFrom n s, c < 0x80) :
    coerceFrom n s = s := by
  fun_induction coerceFrom n s with
  | case1 => rfl
  | case2 b rest skip ih => rw [ih (List.forall_mem_cons.mp h).2]
  | case3 b rest n hlen ih => rw [ih (List.forall_mem_cons.mp h).2]
  | case4 b rest hlen ih => exact absurd (h 0xEF (by simp)) (by decide)

theorem ofText_coerce {op : OpType} (h : op.Proper) :
    OpType.ofText (coerceUtf8 op.text) = op.stored := by
  cases op with
  | other op =>
    -- a string that comes back as a known op was that op
    have hne : ∀ known : Bytes, known.all (fun c => decide (c < 0x80)) = true → op ≠ known →
        coerceUtf8 op ≠ known := by
      rintro known hascii hne rfl
      simp only [List.all_eq_true, decide_eq_true_eq] at hascii
      exact hne (eq_of_coerceFrom_ascii 0 op hascii).symm
    unfold OpType.Proper OpType.ofText OpType.text at h
    have h1 : op ≠ ascii "PUT" := by rintro rfl; cases h
    have h2 : op ≠ ascii "DELETE" := by rintro rfl; cases h
    have h3 : op ≠ ascii "CAS" := by rintro rfl; cases h
    have h4 : op ≠ ascii "NOOP" := by rintro rfl; cases h
    rw [OpType.text, OpType.ofText, if_neg (hne _ rfl h1), if_neg (hne _ rfl h2),
      if_neg (hne _ rfl h3), if_neg (hne _ rfl h4)]
    rfl
  | _ => decide

theorem OpType.Proper.stored {op : OpType} (h : op.Proper) : op.stored.Proper := by
  cases op with
  | other op =>
    have htext := ofText_coerce h
    exact htext
  | _ => exact h

theorem Command.ofJson_toJson (c : Command) (h : c.op.Proper) :
    record Command.fields .zero c.toJson.coerce = some c.stored := by
  obtain ⟨op, key, value, prev⟩ := c
  rw [Command.toJson, record_coerce, List.map_append, List.map_append]
  refine (record_cons rfl rfl _).trans ?_
  refine (record_cons rfl rfl _).trans ?_
  refine (record_omitEmpty rfl (map_bytes _ _) (by rintro rfl; rfl) _).trans ?_
  rw [← List.append_nil (List.map _ _)]
  refine (record_omitEmpty rfl (map_bytes _ _) (by rintro rfl; rfl) _).trans ?_
  exact congrArg (fun op => some (⟨op, coerceUtf8 key, value, prev⟩ : Command)) (ofText_coerce h)

/-- The numbers of an entry are `uint64` values, and its op is spelt as it is. -/
structure LogEntry.Writable (e : LogEntry) : Prop where
  index : IsIndex e.index
  term : IsIndex e.term
  op : e.command.op.Proper

/-- **What the JSON text of an entry gives back** is what `LogEntry.stored` says. -/
theorem LogEntry.ofJson_toJson {e : LogEntry} (h : e.Writable) :
    LogEntry.ofJson e.toJson.coerce = some e.stored := by
  obtain ⟨index, term, command⟩ := e
  rw [LogEntry.toJson, LogEntry.ofJson, record_coerce]
  refine (record_cons rfl (map_uint64 h.index _ _) _).trans ?_
  refine (record_cons rfl (map_uint64 h.term _ _) _).trans ?_
  exact record_cons rfl (congrArg (Option.map _) (Command.ofJson_toJson command h.op)) _

/-- The entries of a list that come back as they are. -/
theorem mapM_ofJson {es : List LogEntry} (h : ∀ e ∈ es, e.Writable ∧ e.stored = e) :
    (es.map fun e => e.toJson.coerce).mapM LogEntry.ofJson = some es := by
  induction es with
  | nil => rfl
  | cons e es ih =>
    obtain ⟨⟨hw, hstored⟩, hes⟩ := List.forall_mem_cons.mp h
    rw [List.map_cons, List.mapM_cons, LogEntry.ofJson_toJson hw, hstored, ih hes]
    rfl

/-! ## Requests and responses -/

structure AppendEntriesRequest.Writable (req : AppendEntriesRequest) : Prop where
  term : IsIndex req.term
  leaderID : coerceUtf8 req.leaderID = req.leaderID
  prevLogIndex : IsIndex req.prevLogIndex
  prevLogTerm : IsIndex req.prevLogTerm
  entries : ∀ e ∈ req.entries, e.Writable ∧ e.stored = e
  leaderCommit : IsIndex req.leaderCommit

theorem AppendEntriesRequest.ofJson_toJson {req : AppendEntriesRequest} (h : req.Writable)
    (isNil : Bool) : AppendEntriesRequest.ofJson (req.toJson isNil).coerce = some req := by
  have hentries : Lib.Json.slice LogEntry.ofJson (Value.coerce
      (if req.entries = [] ∧ isNil then .null else .array (req.entries.map LogEntry.toJson))) =
        some req.entries := by
    split
    · rename_i hnil
      rw [hnil.1, Lib.Json.coerce_null, Lib.Json.slice]
    · rw [Lib.Json.coerce_array, List.map_map, Lib.Json.slice]
      exact mapM_ofJson h.entries
  rw [AppendEntriesRequest.toJson, AppendEntriesRequest.ofJson, record_coerce]
  refine (record_cons rfl (map_uint64 h.term _ _) _).trans ?_
  refine (record_cons rfl rfl _).trans ?_
  refine (record_cons rfl (map_uint64 h.prevLogIndex _ _) _).trans ?_
  refine (record_cons rfl (map_uint64 h.prevLogTerm _ _) _).trans ?_
  refine (record_cons rfl (congrArg (Option.map _) hentries) _).trans ?_
  refine (record_cons rfl (map_uint64 h.leaderCommit _ _) _).trans ?_
  exact congrArg (fun id => some { req with leaderID := id }) h.leaderID

structure AppendEntriesResponse.Writable (resp : AppendEntriesResponse) : Prop where
  term : IsIndex resp.term
  followerID : coerceUtf8 resp.followerID = resp.followerID
  matchIndex : IsIndex resp.matchIndex
  conflictIndex : IsIndex resp.conflictIndex
  conflictTerm : IsIndex resp.conflictTerm

theorem AppendEntriesResponse.ofJson_toJson {resp : AppendEntriesResponse} (h : resp.Writable) :
    AppendEntriesResponse.ofJson resp.toJson.coerce = some resp := by
  obtain ⟨term, success, followerID, matchIndex, conflictIndex, conflictTerm⟩ := resp
  rw [AppendEntriesResponse.toJson, AppendEntriesResponse.ofJson, record_coerce, List.map_append,
    List.map_append]
  refine (record_cons rfl (map_uint64 h.term _ _) _).trans ?_
  refine (record_cons rfl rfl _).trans ?_
  refine (record_cons rfl rfl _).trans ?_
  refine (record_cons rfl (map_uint64 h.matchIndex _ _) _).trans ?_
  refine (record_omitZero rfl (map_uint64 h.conflictIndex _ _) (by rintro rfl; rfl) _).trans ?_
  rw [← List.append_nil (List.map _ _)]
  refine (record_omitZero rfl (map_uint64 h.conflictTerm _ _) (by rintro rfl; rfl) _).trans ?_
  exact congrArg (fun id => some (⟨term, success, id, matchIndex, conflictIndex, conflictTerm⟩ :
    AppendEntriesResponse)) h.followerID

structure RequestVoteRequest.Writable (req : RequestVoteRequest) : Prop where
  term : IsIndex req.term
  candidateID : coerceUtf8 req.candidateID = req.candidateID
  lastLogIndex : IsIndex req.lastLogIndex
  lastLogTerm : IsIndex req.lastLogTerm

theorem RequestVoteRequest.ofJson_toJson {req : RequestVoteRequest} (h : req.Writable) :
    RequestVoteRequest.ofJson req.toJson.coerce = some req := by
  rw [RequestVoteRequest.toJson, RequestVoteRequest.ofJson, record_coerce]
  refine (record_cons rfl (map_uint64 h.term _ _) _).trans ?_
  refine (record_cons rfl rfl _).trans ?_
  refine (record_cons rfl (map_uint64 h.lastLogIndex _ _) _).trans ?_
  refine (record_cons rfl (map_uint64 h.lastLogTerm _ _) _).trans ?_
  exact congrArg (fun id => some { req with candidateID := id }) h.candidateID

structure RequestVoteResponse.Writable (resp : RequestVoteResponse) : Prop where
  term : IsIndex resp.term
  voterID : coerceUtf8 resp.voterID = resp.voterID

theorem RequestVoteResponse.ofJson_toJson {resp : RequestVoteResponse} (h : resp.Writable) :
    RequestVoteResponse.ofJson resp.toJson.coerce = some resp := by
  rw [RequestVoteResponse.toJson, RequestVoteResponse.ofJson, record_coerce]
  refine (record_cons rfl (map_uint64 h.term _ _) _).trans ?_
  refine (record_cons rfl rfl _).trans ?_
  refine (record_cons rfl rfl _).trans ?_
  exact congrArg (fun id => some { resp with voterID := id }) h.voterID

structure InstallSnapshotRequest.Writable (req : InstallSnapshotRequest) : Prop where
  term : IsIndex req.term
  leaderID : coerceUtf8 req.leaderID = req.leaderID
  lastIncludedIndex : IsIndex req.lastIncludedIndex
  lastIncludedTerm : IsIndex req.lastIncludedTerm

theorem InstallSnapshotRequest.ofJson_toJson {req : InstallSnapshotRequest} (h : req.Writable)
    (isNil : Bool) : InstallSnapshotRequest.ofJson (req.toJson isNil).coerce = some req := by
  have hdata : Lib.Json.bytes (Value.coerce (if req.data = [] ∧ isNil then .null else .bytes req.data)) =
      some req.data := by
    split
    · rename_i hnil
      rw [hnil.1, Lib.Json.coerce_null, Lib.Json.bytes]
    · rw [Lib.Json.coerce_bytes, Lib.Json.bytes_bytes]
  rw [InstallSnapshotRequest.toJson, InstallSnapshotRequest.ofJson, record_coerce]
  refine (record_cons rfl (map_uint64 h.term _ _) _).trans ?_
  refine (record_cons rfl rfl _).trans ?_
  refine (record_cons rfl (map_uint64 h.lastIncludedIndex _ _) _).trans ?_
  refine (record_cons rfl (map_uint64 h.lastIncludedTerm _ _) _).trans ?_
  refine (record_cons rfl (congrArg (Option.map _) hdata) _).trans ?_
  exact congrArg (fun id => some { req with leaderID := id }) h.leaderID

structure InstallSnapshotResponse.Writable (resp : InstallSnapshotResponse) : Prop where
  term : IsIndex resp.term
  followerID : coerceUtf8 resp.followerID = resp.followerID

theorem InstallSnapshotResponse.ofJson_toJson {resp : InstallSnapshotResponse} (h : resp.Writable) :
    InstallSnapshotResponse.ofJson resp.toJson.coerce = some resp := by
  rw [InstallSnapshotResponse.toJson, InstallSnapshotResponse.ofJson, record_coerce]
  refine (record_cons rfl (map_uint64 h.term _ _) _).trans ?_
  refine (record_cons rfl rfl _).trans ?_
  refine (record_cons rfl rfl _).trans ?_
  exact congrArg (fun id => some { resp with followerID := id }) h.followerID

end Raftrix
