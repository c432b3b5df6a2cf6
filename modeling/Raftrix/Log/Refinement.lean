import Raftrix.Lib.Simulation
import Raftrix.Log.File
import Raftrix.Log.Stored

/-!
# The log file refines a list

`AbsLog` is what the log is for: a base `(s, t)`, the snapshot boundary, and after it a list of entries
with consecutive indices. It is compared with the file over sequences of operations (`LogOp`): writes
whose transaction may fail, closing and reopening, and the five reading functions.

Between the two stands `RaftLog`, the log with plain indices as keys. `LogFile.Encodes` relates the
file to it, `RaftLog.Represents` relates it to the list; `Encodes.step` and `Represents.step` say that
one operation keeps the relation and is answered alike. For whole sequences,
**`LogFile.observe_eq_list`**: the file answers exactly as the list, for every boundary, as long as
the entries appended are the next ones and `GetRange` starts after the boundary.
-/

namespace Raftrix

/-! ## The abstract log -/

/-- A boundary and the entries after it. -/
structure AbsLog where
  /-- Index of the boundary. -/
  base : Nat
  /-- Term of the boundary. -/
  baseTerm : Nat
  entries : List LogEntry
  contiguous : entries.map LogEntry.index = List.range' (base + 1) entries.length

namespace AbsLog

variable (a : AbsLog)

def lastIndex : Nat := a.base + a.entries.length

def get (index : Nat) : Option LogEntry :=
  if index ≤ a.base then none else a.entries[index - a.base - 1]?

/-- The term at an index: the boundary's at the boundary, `0` at index `0` and at a missing one. -/
def termAt (index : Nat) : Nat :=
  if index = 0 then 0
  else if index = a.base then a.baseTerm else ((a.get index).map LogEntry.term).getD 0

def lastTerm : Nat := a.termAt a.lastIndex

/-- The entries `first..last`, as far as there are any. -/
def getRange (first last : Nat) : List LogEntry :=
  (a.entries.drop (first - a.base - 1)).take (last + 1 - first)

/-- The entries are the next ones. -/
def Next (es : List LogEntry) : Prop :=
  es.map LogEntry.index = List.range' (a.lastIndex + 1) es.length

instance (es : List LogEntry) : Decidable (a.Next es) :=
  inferInstanceAs (Decidable (es.map LogEntry.index = _))

/-- The log with the next entries at its end; other entries are not added. -/
def append (es : List LogEntry) : AbsLog :=
  if h : a.Next es then
    { a with
      entries := a.entries ++ es
      contiguous := by
        rw [List.map_append, a.contiguous, h, List.length_append, lastIndex, ← List.range'_append_1,
          Nat.add_right_comm] }
  else a

/-- The log without the entries from `index` on. -/
def truncateFrom (index : Nat) : AbsLog :=
  { a with
    entries := a.entries.take (index - a.base - 1)
    contiguous := by
      rw [List.map_take, a.contiguous, List.length_take]
      rcases Nat.le_total a.entries.length (index - a.base - 1) with h | h
      · rw [List.take_range'_of_length_le h, Nat.min_eq_right h]
      · rw [List.take_range'_of_length_ge h, Nat.min_eq_left h] }

end AbsLog

/-! ## Operations -/

/-- The functions of a log store; a write takes the outcome of its transaction. -/
structure LogStore (τ : Type) where
  append : Bool → τ → LogEntry → Option τ
  appendBatch : Bool → τ → List LogEntry → Option τ
  truncateFrom : Bool → τ → Nat → Option τ
  /-- Close, and open with `newRaftLog`. -/
  reopen : τ → τ
  get : τ → Nat → Option LogEntry
  getRange : τ → Nat → Nat → List LogEntry
  lastIndex : τ → Nat
  lastTerm : τ → Nat
  termAt : τ → Nat → Nat

def LogFile.store : LogStore LogFile where
  append := LogFile.append
  appendBatch := LogFile.appendBatch
  truncateFrom := LogFile.truncateFrom
  reopen := LogFile.newRaftLog
  get := LogFile.get
  getRange := LogFile.getRange
  lastIndex := LogFile.lastIndex
  lastTerm := LogFile.lastTerm
  termAt := LogFile.termAt

def RaftLog.store : LogStore RaftLog where
  append := RaftLog.append
  appendBatch := RaftLog.appendBatch
  truncateFrom := RaftLog.truncateFrom
  reopen := RaftLog.newRaftLog
  get := RaftLog.get
  getRange := RaftLog.getRange
  lastIndex := RaftLog.lastIndex
  lastTerm := RaftLog.lastTerm
  termAt := RaftLog.termAt

/-- A failed transaction changes nothing; no transaction is needed for an empty batch. -/
def AbsLog.store : LogStore AbsLog where
  append ok a e := if ok then some (a.append [e]) else none
  appendBatch ok a es := if es = [] then some a else if ok then some (a.append es) else none
  truncateFrom ok a index := if ok then some (a.truncateFrom index) else none
  reopen a := a
  get := AbsLog.get
  getRange := AbsLog.getRange
  lastIndex := AbsLog.lastIndex
  lastTerm := AbsLog.lastTerm
  termAt := AbsLog.termAt

/-- A call of the log store. -/
inductive LogOp where
  | append (ok : Bool) (entry : LogEntry)
  | appendBatch (ok : Bool) (entries : List LogEntry)
  | truncateFrom (ok : Bool) (index : Nat)
  | reopen
  | get (index : Nat)
  | getRange (first last : Nat)
  | lastIndex
  | lastTerm
  | termAt (index : Nat)

/-- What the caller sees. -/
inductive LogAnswer where
  | written (ok : Bool)
  | opened
  | entry (found : Option LogEntry)
  | entries (found : List LogEntry)
  | index (index : Nat)
  | term (term : Nat)

namespace LogOp

variable {τ τ' : Type} {L : LogStore τ} {L' : LogStore τ'}

/-- The outcome of a transaction. -/
def commit (t : τ) : Option τ → τ × LogAnswer
  | some t' => (t', .written true)
  | none => (t, .written false)

def run (L : LogStore τ) (t : τ) : LogOp → τ × LogAnswer
  | append ok e => commit t (L.append ok t e)
  | appendBatch ok es => commit t (L.appendBatch ok t es)
  | truncateFrom ok index => commit t (L.truncateFrom ok t index)
  | reopen => (L.reopen t, .opened)
  | get index => (t, .entry (L.get t index))
  | getRange first last => (t, .entries (L.getRange t first last))
  | lastIndex => (t, .index (L.lastIndex t))
  | lastTerm => (t, .term (L.lastTerm t))
  | termAt index => (t, .term (L.termAt t index))

theorem commit_rel {rel : τ → τ' → Prop} {t : τ} {t' : τ'} (h : rel t t') {o : Option τ}
    {o' : Option τ'} (ho : Option.Rel rel o o') :
    (commit t o).2 = (commit t' o').2 ∧ rel (commit t o).1 (commit t' o').1 := by
  cases ho with
  | some h' => exact ⟨rfl, h'⟩
  | none => exact ⟨rfl, h⟩

/-- The arguments are `uint64` indices. -/
def InRange : LogOp → Prop
  | append _ e => IsIndex e.index
  | appendBatch _ es => ∀ e ∈ es, IsIndex e.index
  | truncateFrom _ index | get index | termAt index => IsIndex index
  | getRange first last => IsIndex first ∧ IsIndex last
  | reopen | lastIndex | lastTerm => True

instance : DecidablePred InRange
  | append _ e => inferInstanceAs (Decidable (IsIndex e.index))
  | appendBatch _ es => inferInstanceAs (Decidable (∀ e ∈ es, IsIndex e.index))
  | truncateFrom _ index => inferInstanceAs (Decidable (IsIndex index))
  | get index => inferInstanceAs (Decidable (IsIndex index))
  | termAt index => inferInstanceAs (Decidable (IsIndex index))
  | getRange first last => inferInstanceAs (Decidable (IsIndex first ∧ IsIndex last))
  | reopen => inferInstanceAs (Decidable True)
  | lastIndex => inferInstanceAs (Decidable True)
  | lastTerm => inferInstanceAs (Decidable True)

end LogOp

/-- The file and the log answer one operation alike. -/
theorem LogFile.Encodes.step {f : LogFile} {rl : RaftLog} (h : f.Encodes rl) {op : LogOp}
    (hop : op.InRange) :
    (op.run LogFile.store f).2 = (op.run RaftLog.store rl).2 ∧
      (op.run LogFile.store f).1.Encodes (op.run RaftLog.store rl).1 := by
  cases op with
  | append ok e => exact LogOp.commit_rel h (h.append ok hop)
  | appendBatch ok es => exact LogOp.commit_rel h (h.appendBatch ok hop)
  | truncateFrom ok index => exact LogOp.commit_rel h (h.truncateFrom ok hop)
  | reopen => exact ⟨rfl, h.newRaftLog⟩
  | get index => exact ⟨congrArg LogAnswer.entry (h.get hop), h⟩
  | getRange first last => exact ⟨congrArg LogAnswer.entries (h.getRange hop.1 hop.2), h⟩
  | lastIndex => exact ⟨congrArg LogAnswer.index h.lastIndex, h⟩
  | lastTerm => exact ⟨congrArg LogAnswer.term h.lastTerm, h⟩
  | termAt index => exact ⟨congrArg LogAnswer.term (h.termAt hop), h⟩

/-! ## The log represents the list -/

namespace RaftLog

/-- The log is the list `a`, and its boundary, cached and recorded, is the list's base. -/
structure Represents (rl : RaftLog) (a : AbsLog) : Prop where
  get : ∀ index, rl.get index = a.get index
  cached : (rl.snapshotIndex, rl.snapshotTerm) = (a.base, a.baseTerm)
  record : rl.metaSnapshot.getD (0, 0) = (a.base, a.baseTerm)

namespace Represents

variable {rl : RaftLog} {a : AbsLog} {index : Nat}

theorem snapshotIndex (h : Represents rl a) : rl.snapshotIndex = a.base :=
  congrArg Prod.fst h.cached

theorem snapshotTerm (h : Represents rl a) : rl.snapshotTerm = a.baseTerm :=
  congrArg Prod.snd h.cached

theorem get_after (h : Represents rl a) (k : Nat) : rl.get (a.base + k + 1) = a.entries[k]? := by
  rw [h.get, AbsLog.get, if_neg (by omega), show a.base + k + 1 - a.base - 1 = k by omega]

theorem lastIndex (h : Represents rl a) : rl.lastIndex = a.lastIndex := by
  have hnone : ∀ j, a.lastIndex < j → rl.get j = none := by
    intro j hj
    unfold AbsLog.lastIndex at hj
    rw [h.get, AbsLog.get, if_neg (by omega), List.getElem?_eq_none (by omega)]
  rcases Nat.eq_zero_or_pos a.entries.length with h0 | hpos
  · have hbase : a.lastIndex = a.base := by
      unfold AbsLog.lastIndex
      omega
    rw [hbase, ← h.snapshotIndex]
    refine lastIndex_eq_of_empty fun k => ?_
    by_cases hk : k ≤ a.base
    · rw [h.get, AbsLog.get, if_pos hk]
    · exact hnone k (by omega)
  · have hlast := h.get_after (a.entries.length - 1)
    rw [List.getElem?_eq_getElem (by omega), Nat.add_assoc, Nat.sub_add_cancel hpos] at hlast
    exact lastIndex_eq_of_get hlast hnone

theorem termAt (h : Represents rl a) (index : Nat) : rl.termAt index = a.termAt index := by
  unfold RaftLog.termAt AbsLog.termAt
  rw [h.snapshotIndex, h.snapshotTerm, h.get]
  cases a.get index <;> rfl

theorem lastTerm (h : Represents rl a) : rl.lastTerm = a.lastTerm := by
  rw [lastTerm_eq_termAt, h.lastIndex, h.termAt]
  rfl

theorem getRangeFrom (h : Represents rl a) (n k : Nat) :
    rl.getRangeFrom n (a.base + k + 1) = (a.entries.drop k).take n := by
  induction n generalizing k with
  | zero => rfl
  | succ n ih =>
    rw [RaftLog.getRangeFrom, h.get_after]
    cases hk : a.entries[k]? with
    | none => rw [List.drop_of_length_le (List.getElem?_eq_none_iff.mp hk), List.take_nil]
    | some e =>
      obtain ⟨hlt, rfl⟩ := List.getElem?_eq_some_iff.mp hk
      rw [List.drop_eq_getElem_cons hlt, List.take_succ_cons]
      exact congrArg _ (ih (k + 1))

theorem getRange (h : Represents rl a) {first last : Nat} (hf : a.base < first) :
    rl.getRange first last = a.getRange first last := by
  have := h.getRangeFrom (last + 1 - first) (first - a.base - 1)
  rwa [show a.base + (first - a.base - 1) + 1 = first by omega] at this

/-! ### Writing -/

/-- The loop of `AppendBatch` over consecutive entries from index `i` on. -/
theorem get_foldl_put {es : List LogEntry} (hstored : ∀ e ∈ es, e.stored = e) {i : Nat}
    (hidx : es.map LogEntry.index = List.range' i es.length) (b : Lib.Bucket Nat LogEntry) (k : Nat) :
    (es.foldl (fun log e => log.put e.index e.stored) b).get k =
      if i ≤ k ∧ k < i + es.length then es[k - i]? else b.get k := by
  induction es generalizing i b with
  | nil => rw [if_neg (by simp), List.foldl_nil]
  | cons e es ih =>
    obtain ⟨he, hes⟩ := List.forall_mem_cons.mp hstored
    rw [List.map_cons, List.length_cons, List.range'_succ] at hidx
    obtain ⟨hi, hrest⟩ := List.cons.inj hidx
    rw [List.foldl_cons, ih hes hrest, Lib.Bucket.get_put, he, hi, List.length_cons]
    by_cases hki : k = i
    · subst hki
      rw [if_neg (by omega), if_pos rfl, if_pos (by omega), Nat.sub_self]
      rfl
    · by_cases hk : i + 1 ≤ k ∧ k < i + 1 + es.length
      · rw [if_pos hk, if_pos (by omega), show k - i = k - (i + 1) + 1 by omega,
          List.getElem?_cons_succ]
      · rw [if_neg hk, if_neg hki, if_neg (by omega)]

/-- So the next entries come after the list. -/
theorem foldl_put (h : Represents rl a) {es : List LogEntry} (hnext : a.Next es)
    (hstored : ∀ e ∈ es, e.stored = e) :
    Represents { rl with log := es.foldl (fun log e => log.put e.index e.stored) rl.log }
      (a.append es) := by
  rw [AbsLog.append, dif_pos hnext]
  refine ⟨fun k => (get_foldl_put hstored hnext rl.log k).trans ?_, h.cached, h.record⟩
  rw [show rl.log.get k = a.get k from h.get k]
  unfold AbsLog.get AbsLog.lastIndex
  dsimp only
  by_cases hk : k ≤ a.base
  · rw [if_neg (by omega), if_pos hk, if_pos hk]
  · rw [if_neg hk, if_neg hk]
    by_cases hin : k - a.base - 1 < a.entries.length
    · rw [if_neg (by omega), List.getElem?_append_left hin]
    · rw [List.getElem?_append_right (by omega)]
      split_ifs with hlt
      · rw [show k - (a.base + a.entries.length + 1) = k - a.base - 1 - a.entries.length by omega]
      · rw [List.getElem?_eq_none (by omega), List.getElem?_eq_none (by omega)]

theorem append (h : Represents rl a) (ok : Bool) {e : LogEntry} (hnext : a.Next [e])
    (hstored : e.stored = e) :
    Option.Rel Represents (rl.append ok e) (AbsLog.store.append ok a e) := by
  cases ok with
  | false => exact .none
  | true => exact .some (h.foldl_put hnext (by simpa using hstored))

theorem appendBatch (h : Represents rl a) (ok : Bool) {es : List LogEntry} (hnext : a.Next es)
    (hstored : ∀ e ∈ es, e.stored = e) :
    Option.Rel Represents (rl.appendBatch ok es) (AbsLog.store.appendBatch ok a es) := by
  unfold RaftLog.appendBatch
  change Option.Rel _ _ (if es = [] then _ else _)
  by_cases hnil : es = []
  · rw [if_pos hnil, if_pos hnil]
    exact .some h
  · rw [if_neg hnil, if_neg hnil]
    cases ok with
    | false => exact .none
    | true => exact .some (h.foldl_put hnext hstored)

theorem truncateFrom (h : Represents rl a) (ok : Bool) (index : Nat) :
    Option.Rel Represents (rl.truncateFrom ok index) (AbsLog.store.truncateFrom ok a index) := by
  cases ok with
  | false => exact .none
  | true =>
    have hcut : rl.truncateFrom true index =
        some { rl with log := rl.log.deleteAll (rl.log.seek index) } := rfl
    rw [hcut]
    refine .some ⟨fun k => ?_, h.cached, h.record⟩
    rw [get_truncateFrom hcut, h.get]
    unfold AbsLog.get
    change _ = if k ≤ a.base then none else (a.entries.take (index - a.base - 1))[k - a.base - 1]?
    rw [List.getElem?_take]
    split_ifs <;> first | rfl | omega

theorem newRaftLog (h : Represents rl a) : Represents rl.newRaftLog a := by
  have hrecord := h.record
  refine ⟨fun k => by rw [get_newRaftLog, h.get], ?_, ?_⟩
  all_goals
    unfold RaftLog.newRaftLog
    cases hsnap : rl.metaSnapshot with
    | none =>
      rw [hsnap] at hrecord
      exact hrecord
    | some p =>
      rw [hsnap] at hrecord
      exact hrecord

end Represents

end RaftLog

namespace AbsLog

/-- The callers' side: entries are the next ones and survive their JSON text, indices are `uint64`
values, and a range starts after the boundary. -/
def Admits (a : AbsLog) (op : LogOp) : Prop :=
  op.InRange ∧
    match op with
    | .append _ e => a.Next [e] ∧ e.stored = e
    | .appendBatch _ es => a.Next es ∧ ∀ e ∈ es, e.stored = e
    | .getRange first _ => a.base < first
    | _ => True

end AbsLog

/-- The log and the list answer one operation alike. -/
theorem RaftLog.Represents.step {rl : RaftLog} {a : AbsLog} (h : rl.Represents a) {op : LogOp}
    (hop : a.Admits op) :
    (op.run RaftLog.store rl).2 = (op.run AbsLog.store a).2 ∧
      (op.run RaftLog.store rl).1.Represents (op.run AbsLog.store a).1 := by
  obtain ⟨_, hop⟩ := hop
  cases op with
  | append ok e => exact LogOp.commit_rel h (h.append ok hop.1 hop.2)
  | appendBatch ok es => exact LogOp.commit_rel h (h.appendBatch ok hop.1 hop.2)
  | truncateFrom ok index => exact LogOp.commit_rel h (h.truncateFrom ok index)
  | reopen => exact ⟨rfl, h.newRaftLog⟩
  | get index => exact ⟨congrArg LogAnswer.entry (h.get index), h⟩
  | getRange first last => exact ⟨congrArg LogAnswer.entries (h.getRange hop), h⟩
  | lastIndex => exact ⟨congrArg LogAnswer.index h.lastIndex, h⟩
  | lastTerm => exact ⟨congrArg LogAnswer.term h.lastTerm, h⟩
  | termAt index => exact ⟨congrArg LogAnswer.term (h.termAt index), h⟩

namespace LogFile

/-- The file stores the abstract log. -/
def Stores (f : LogFile) (a : AbsLog) : Prop :=
  ∃ rl, f.Encodes rl ∧ rl.Represents a

/-- A file without entries, opened at the boundary `(index, term)`. -/
def openedAt (index term : Nat) : LogFile :=
  newRaftLog ⟨.empty, none, some (index, term), 0, 0⟩

theorem stores_openedAt (index term : Nat) : (openedAt index term).Stores ⟨index, term, [], rfl⟩ := by
  refine ⟨RaftLog.newRaftLog ⟨.empty, none, some (index, term), 0, 0⟩, ?_, ?_, rfl, rfl⟩
  · exact ⟨Lib.KeyCode.Codes.empty, rfl, rfl, rfl, rfl⟩
  · intro k
    change none = if k ≤ index then none else ([] : List LogEntry)[k - index - 1]?
    rw [List.getElem?_nil, ite_self]

/-- **The log file refines the list**: whatever boundary it was opened at and whatever it stores, a
sequence of operations is answered by the file exactly as by the list. -/
theorem observe_eq_list (f : LogFile) (a : AbsLog) (h : f.Stores a) (ops : List LogOp)
    (hops : Lib.Always (LogOp.run AbsLog.store) AbsLog.Admits a ops) :
    Lib.observe (LogOp.run store) f ops = Lib.observe (LogOp.run AbsLog.store) a ops := by
  rw [← List.forall₂_eq_eq_eq]
  refine Lib.forall₂_observe (fun f a op hstores hop => ?_) h hops
  obtain ⟨rl, henc, hrep⟩ := hstores
  obtain ⟨hanswer, hencodes⟩ := henc.step hop.1
  obtain ⟨hanswer', hrepresents⟩ := hrep.step hop
  exact ⟨hanswer.trans hanswer', _, hencodes, hrepresents⟩

/-- Three entries after the boundary `(3, 2)`, the last two cut off again. -/
def cutAfterFour : List LogOp :=
  [.append true ⟨4, 2, .noop⟩,
    .appendBatch true [⟨5, 2, .noop⟩, ⟨6, 3, .noop⟩],
    .lastTerm, .truncateFrom true 5, .reopen, .lastIndex, .getRange 4 9, .termAt 3, .get 5]

theorem observe_eq_list_cutAfterFour :
    (openedAt 3 2).Stores ⟨3, 2, [], rfl⟩ ∧
      Lib.Always (LogOp.run AbsLog.store) AbsLog.Admits ⟨3, 2, [], rfl⟩ cutAfterFour ∧
      Lib.observe (LogOp.run store) (openedAt 3 2) cutAfterFour =
        [.written true, .written true, .term 3, .written true, .opened, .index 4,
          .entries [⟨4, 2, .noop⟩], .term 2, .entry none] := by
  have hops : Lib.Always (LogOp.run AbsLog.store) AbsLog.Admits ⟨3, 2, [], rfl⟩ cutAfterFour := by
    refine ⟨⟨?_, ?_, rfl⟩, ⟨?_, ?_, ?_⟩, ⟨trivial, trivial⟩, ⟨?_, trivial⟩, ⟨trivial, trivial⟩,
      ⟨trivial, trivial⟩, ⟨?_, ?_⟩, ⟨?_, trivial⟩, ⟨?_, trivial⟩, trivial⟩
    all_goals decide
  exact ⟨stores_openedAt 3 2, hops, observe_eq_list _ _ (stores_openedAt 3 2) _ hops⟩

end LogFile

end Raftrix
