import Mathlib.Data.Set.Insert
import Mathlib.Order.Bounds.Defs
import Raftrix.Log.File

/-!
# The keys of the log bucket

An entry is kept under the eight big-endian bytes of its index. `indexKey` and `bytesToIndex` are an
order isomorphism between the `uint64` values and the strings of eight bytes. So whatever set of
indices a file stores (`Keeps`), its cursor goes through them in numeric order (`Scans`): the last key
is that of the largest index, `TruncateFrom` visits exactly the indices from its argument on, and
`Compact` exactly those up to its own (**`indexKey_iso`**). Both loops are taken round by round, with
the bucket changing under the cursor; `truncateFrom_eq_loop` and `compact_eq_loop` say that they are
the ones of `TruncateFrom` and `Compact`.

Every write keeps a file of this kind, and the set of indices changes as the comments of the source
say (`Keeps.step`), so all this holds in every run (**`Keeps.run`**). It holds of the file of every
log that the rest of the development works with (`Keeps.of_encodes`).
-/

namespace Raftrix

variable {key key' : Bytes} {i : Nat}

/-- `binary.BigEndian.PutUint64` writes the highest eight bits first. -/
theorem indexKey_eq_shifts (i : Nat) :
    indexKey i = [56, 48, 40, 32, 24, 16, 8, 0].map fun s => UInt8.ofNat (i >>> s) := by
  simp only [indexKey, Lib.BigEndian.encode_eq_map, Nat.shiftRight_eq_div_pow]
  rfl

example : indexKey 258 = [0, 0, 0, 0, 0, 0, 1, 2] := by decide

theorem length_indexKey (i : Nat) : (indexKey i).length = 8 := Lib.BigEndian.length_encode 8 i

theorem isIndex_bytesToIndex (h : key.length = 8) : IsIndex (bytesToIndex key) := by
  have hlt := Lib.BigEndian.decode_lt key
  rw [h] at hlt
  exact hlt

theorem indexKey_bytesToIndex (h : key.length = 8) : indexKey (bytesToIndex key) = key := by
  have hkey := Lib.BigEndian.encode_decode key
  rw [h] at hkey
  exact hkey

theorem bytesToIndex_lt_iff (h : key.length = 8) (h' : key'.length = 8) :
    bytesToIndex key < bytesToIndex key' ↔ key < key' :=
  Lib.BigEndian.decode_lt_decode_iff (h.trans h'.symm)

namespace LogFile

/-! ## The loops of `TruncateFrom` and `Compact` -/

theorem truncateLoop_eq (f : LogFile) (index : Nat) :
    f.truncateLoop index =
      (f.log.seek (indexKey index), f.log.deleteAll (f.log.seek (indexKey index))) := by
  have hall : (f.log.seek (indexKey index)).takeWhile (fun _ => true) = f.log.seek (indexKey index) :=
    List.takeWhile_eq_self_iff.mpr fun _ _ => rfl
  rw [truncateLoop, Lib.Bucket.deleteWhile_seekFirst, hall]

theorem truncateFrom_eq_loop (f : LogFile) (index : Nat) :
    f.truncateFrom true index = some { f with log := (f.truncateLoop index).2 } := by
  rw [truncateLoop_eq, truncateFrom, if_pos rfl]

theorem compactLoop_eq (f : LogFile) (index : Nat) :
    f.compactLoop index =
      (f.log.pairs.takeWhile fun p => bytesToIndex p.1 ≤ index,
        f.log.deleteAll (f.log.pairs.takeWhile fun p => bytesToIndex p.1 ≤ index)) :=
  Lib.Bucket.deleteWhile_first _ _

theorem compact_eq_loop (f : LogFile) (index term : Nat) :
    f.compact true index term =
      some { f with log := (f.compactLoop index).2, metaSnapshot := some (index, term) } := by
  rw [compactLoop_eq, compact, if_pos rfl]

/-! ## What a cursor visits -/

/-- `S` is the set of stored indices: the keys of the bucket are those of `S`. -/
structure Keeps (f : LogFile) (S : Set Nat) : Prop where
  isIndex : ∀ i ∈ S, IsIndex i
  key_iff : ∀ key, (∃ e, f.log.get key = some e) ↔ ∃ i ∈ S, indexKey i = key

/-- The walk goes through the indices of `S`, each once and in ascending order. -/
structure Visits (walk : List (Bytes × LogEntry)) (S : Set Nat) : Prop where
  ascending : walk.Pairwise fun p q => bytesToIndex p.1 < bytesToIndex q.1
  mem_iff : ∀ i, (∃ p ∈ walk, bytesToIndex p.1 = i) ↔ i ∈ S

/-- The cursor of the file goes through `S` in numeric order. -/
structure Scans (f : LogFile) (S : Set Nat) : Prop where
  last_empty : S = ∅ → f.log.last = none
  /-- The last key is the key of the largest index, and `LastIndex` answers it. -/
  last : S.Nonempty →
    IsGreatest S f.lastIndex ∧ f.log.last.map Prod.fst = some (indexKey f.lastIndex)
  truncateFrom : ∀ index, IsIndex index → Visits (f.truncateLoop index).1 {i ∈ S | index ≤ i}
  compact : ∀ index, Visits (f.compactLoop index).1 {i ∈ S | i ≤ index}

variable {f : LogFile} {S : Set Nat}

namespace Keeps

theorem length_key (h : f.Keeps S) {p : Bytes × LogEntry} (hp : p ∈ f.log.pairs) :
    p.1.length = 8 := by
  obtain ⟨i, -, hi⟩ := (h.key_iff p.1).mp ⟨p.2, Lib.Bucket.get_eq_some_iff.mpr hp⟩
  rw [← hi, length_indexKey]

theorem mem_iff (h : f.Keeps S) : i ∈ S ↔ ∃ p ∈ f.log.pairs, bytesToIndex p.1 = i := by
  constructor
  · intro hi
    obtain ⟨e, he⟩ := (h.key_iff _).mpr ⟨i, hi, rfl⟩
    exact ⟨_, Lib.Bucket.get_eq_some_iff.mp he, bytesToIndex_indexKey (h.isIndex i hi)⟩
  · rintro ⟨p, hp, rfl⟩
    obtain ⟨i, hi, hkey⟩ := (h.key_iff p.1).mp ⟨p.2, Lib.Bucket.get_eq_some_iff.mpr hp⟩
    rw [← hkey, bytesToIndex_indexKey (h.isIndex i hi)]
    exact hi

/-- The order of the keys is the order of the indices. -/
theorem ascending (h : f.Keeps S) :
    f.log.pairs.Pairwise fun p q => bytesToIndex p.1 < bytesToIndex q.1 :=
  f.log.sorted.imp_of_mem fun hp hq hlt =>
    (bytesToIndex_lt_iff (h.length_key hp) (h.length_key hq)).mpr hlt

/-- The pairs of some of the indices. -/
theorem visits_filter (h : f.Keeps S) {P : Bytes × LogEntry → Bool} {Q : Nat → Prop}
    (hPQ : ∀ p ∈ f.log.pairs, P p ↔ Q (bytesToIndex p.1)) :
    Visits (f.log.pairs.filter P) {i ∈ S | Q i} where
  ascending := h.ascending.filter P
  mem_iff i := by
    constructor
    · rintro ⟨p, hp, rfl⟩
      obtain ⟨hp, hP⟩ := List.mem_filter.mp hp
      exact ⟨h.mem_iff.mpr ⟨p, hp, rfl⟩, (hPQ p hp).mp hP⟩
    · rintro ⟨hi, hQ⟩
      obtain ⟨p, hp, rfl⟩ := h.mem_iff.mp hi
      exact ⟨p, List.mem_filter.mpr ⟨hp, (hPQ p hp).mpr hQ⟩, rfl⟩

theorem visits_truncateLoop (h : f.Keeps S) {index : Nat} (hi : IsIndex index) :
    Visits (f.truncateLoop index).1 {i ∈ S | index ≤ i} := by
  rw [truncateLoop_eq, Lib.Bucket.seek_eq_filter]
  refine h.visits_filter fun p hp => ?_
  rw [decide_eq_true_eq, ← not_lt, ← not_lt, ← bytesToIndex_lt_iff (h.length_key hp) (length_indexKey _),
    bytesToIndex_indexKey hi]

/-- The first index beyond `index` ends the loop, and none up to `index` comes after it. -/
theorem visits_compactLoop (h : f.Keeps S) (index : Nat) :
    Visits (f.compactLoop index).1 {i ∈ S | i ≤ index} := by
  have hdown : f.log.pairs.Pairwise fun p q =>
      decide (bytesToIndex q.1 ≤ index) → decide (bytesToIndex p.1 ≤ index) :=
    h.ascending.imp fun hlt hq => by simpa using (Nat.le_of_lt hlt).trans (by simpa using hq)
  rw [compactLoop_eq, Lib.Bucket.takeWhile_eq_filter hdown]
  exact h.visits_filter fun p _ => decide_eq_true_iff

theorem last_eq_none_iff (h : f.Keeps S) : f.log.last = none ↔ S = ∅ := by
  rw [Lib.Bucket.last_eq_none_iff, Set.eq_empty_iff_forall_notMem]
  constructor
  · intro hnone i hi
    obtain ⟨e, he⟩ := (h.key_iff _).mpr ⟨i, hi, rfl⟩
    rw [hnone] at he
    exact absurd he (by simp)
  · intro hempty key
    by_contra hne
    obtain ⟨e, he⟩ := Option.ne_none_iff_exists'.mp hne
    obtain ⟨i, hi, -⟩ := (h.key_iff key).mp ⟨e, he⟩
    exact hempty i hi

theorem isGreatest_last (h : f.Keeps S) {p : Bytes × LogEntry} (hlast : f.log.last = some p) :
    IsGreatest S (bytesToIndex p.1) ∧ p.1 = indexKey (bytesToIndex p.1) := by
  obtain ⟨hget, habove⟩ := Lib.Bucket.get_last hlast
  have hp : p ∈ f.log.pairs := Lib.Bucket.get_eq_some_iff.mp hget
  have hkey := h.length_key hp
  refine ⟨⟨h.mem_iff.mpr ⟨p, hp, rfl⟩, fun i hi => ?_⟩, (indexKey_bytesToIndex hkey).symm⟩
  -- a larger index would have a larger key
  obtain ⟨q, hq, rfl⟩ := h.mem_iff.mp hi
  by_contra hlt
  have hnone := habove q.1 ((bytesToIndex_lt_iff hkey (h.length_key hq)).mp (Nat.not_le.mp hlt))
  rw [Lib.Bucket.get_eq_some_iff.mpr hq] at hnone
  exact absurd hnone (by simp)

/-- The file of a log keeps the indices of its entries. -/
theorem of_encodes {rl : RaftLog} (h : f.Encodes rl) : f.Keeps {i | ∃ e, rl.get i = some e} where
  isIndex i hi := hi.elim fun e he => h.log.keys i e he
  key_iff key := by
    constructor
    · rintro ⟨e, he⟩
      obtain ⟨i, hi, rfl⟩ := h.log.onto key e he
      exact ⟨i, ⟨e, (h.log.get i hi).symm.trans he⟩, rfl⟩
    · rintro ⟨i, ⟨e, he⟩, rfl⟩
      exact ⟨e, (h.log.get i (h.log.keys i e he)).trans he⟩

theorem scans (h : f.Keeps S) : f.Scans S where
  last_empty := h.last_eq_none_iff.mpr
  last hne := by
    cases hlast : f.log.last with
    | none => exact absurd (h.last_eq_none_iff.mp hlast) hne.ne_empty
    | some p =>
      obtain ⟨hgreatest, hkey⟩ := h.isGreatest_last hlast
      have hindex : f.lastIndex = bytesToIndex p.1 := by rw [lastIndex, hlast]
      rw [hindex]
      exact ⟨hgreatest, congrArg some hkey⟩
  truncateFrom _ := h.visits_truncateLoop
  compact := h.visits_compactLoop

end Keeps

/-! ## Writing -/

/-- A write to the file, with the outcome of its transaction, or closing and reopening it. -/
inductive FileWrite where
  | append (ok : Bool) (entry : LogEntry)
  | appendBatch (ok : Bool) (entries : List LogEntry)
  | truncateFrom (ok : Bool) (index : Nat)
  | compact (ok : Bool) (index term : Nat)
  | reopen

namespace FileWrite

/-- The file after it; a failed transaction leaves it as it was. -/
def run (f : LogFile) : FileWrite → LogFile
  | append ok e => (f.append ok e).getD f
  | appendBatch ok es => (f.appendBatch ok es).getD f
  | truncateFrom ok index => (f.truncateFrom ok index).getD f
  | compact ok index term => (f.compact ok index term).getD f
  | reopen => f.newRaftLog

/-- The stored indices after it. -/
def indices (S : Set Nat) : FileWrite → Set Nat
  | append ok e => if ok then insert e.index S else S
  | appendBatch ok es => if ok then {i | i ∈ S ∨ i ∈ es.map LogEntry.index} else S
  | truncateFrom ok index => if ok then {i ∈ S | i < index} else S
  | compact ok index _ => if ok then {i ∈ S | index < i} else S
  | reopen => S

/-- The indices it writes or cuts at are `uint64` values. -/
def InRange : FileWrite → Prop
  | append _ e => IsIndex e.index
  | appendBatch _ es => ∀ e ∈ es, IsIndex e.index
  | truncateFrom _ index => IsIndex index
  | compact _ _ _ | reopen => True

end FileWrite

namespace Keeps

variable {f' : LogFile} {walk : List (Bytes × LogEntry)}

theorem empty (hlog : f.log = .empty) : f.Keeps ∅ where
  isIndex i hi := absurd hi (Set.notMem_empty i)
  key_iff key := by simp [hlog]

/-- The file is looked at through its log bucket only. -/
theorem of_log (h : f.Keeps S) (hlog : f'.log = f.log) : f'.Keeps S :=
  ⟨h.isIndex, hlog ▸ h.key_iff⟩

theorem put (h : f.Keeps S) (hi : IsIndex i) {e : LogEntry} (hlog : f'.log = f.log.put (indexKey i) e) :
    f'.Keeps (insert i S) where
  isIndex j hj := by
    rcases hj with rfl | hj
    · exact hi
    · exact h.isIndex j hj
  key_iff key := by
    rw [hlog]
    simp only [Lib.Bucket.get_put, Set.mem_insert_iff, exists_eq_or_imp]
    by_cases hkey : key = indexKey i
    · simp [hkey]
    · simp only [if_neg hkey, h.key_iff, Ne.symm hkey, false_or]

theorem putAll (h : f.Keeps S) {es : List LogEntry} (hes : ∀ e ∈ es, IsIndex e.index)
    (hlog : f'.log = es.foldl (fun log e => log.put (indexKey e.index) e.stored) f.log) :
    f'.Keeps {i | i ∈ S ∨ i ∈ es.map LogEntry.index} := by
  induction es generalizing f S with
  | nil => simpa using h.of_log hlog
  | cons e es ih =>
    obtain ⟨he, hes⟩ := List.forall_mem_cons.mp hes
    have hput : ({ f with log := f.log.put (indexKey e.index) e.stored } : LogFile).Keeps
        (insert e.index S) := h.put he rfl
    have hset : {i | i ∈ S ∨ i ∈ (e :: es).map LogEntry.index} =
        {i | i ∈ insert e.index S ∨ i ∈ es.map LogEntry.index} := by
      ext i
      simp only [Set.mem_ofPred_eq, Set.mem_insert_iff, List.map_cons, List.mem_cons]
      exact or_left_comm.trans or_assoc.symm
    rw [hset]
    exact ih hput hes hlog

/-- Deleting along a walk removes the indices visited. -/
theorem deleteAll (h : f.Keeps S) {Q Q' : Nat → Prop} (hsub : walk.Sublist f.log.pairs)
    (hvisits : Visits walk {i ∈ S | Q i}) (hlog : f'.log = f.log.deleteAll walk)
    (hQ : ∀ i, Q' i ↔ ¬ Q i) : f'.Keeps {i ∈ S | Q' i} where
  isIndex i hi := h.isIndex i hi.1
  key_iff key := by
    rw [hlog]
    simp only [Lib.Bucket.get_deleteAll]
    constructor
    · rintro ⟨e, he⟩
      split at he
      · cases he
      · rename_i hnot
        obtain ⟨i, hi, rfl⟩ := (h.key_iff key).mp ⟨e, he⟩
        refine ⟨i, ⟨hi, (hQ i).mpr fun hQi => hnot ?_⟩, rfl⟩
        obtain ⟨p, hp, rfl⟩ := (hvisits.mem_iff i).mpr ⟨hi, hQi⟩
        rw [indexKey_bytesToIndex (h.length_key (hsub.subset hp))]
        exact List.mem_map_of_mem hp
    · rintro ⟨i, ⟨hi, hQi⟩, rfl⟩
      have hnot : indexKey i ∉ walk.map Prod.fst := by
        intro hmem
        obtain ⟨p, hp, hkey⟩ := List.mem_map.mp hmem
        have hread : bytesToIndex p.1 = i := by rw [hkey, bytesToIndex_indexKey (h.isIndex i hi)]
        exact (hQ i).mp hQi ((hvisits.mem_iff i).mp ⟨p, hp, hread⟩).2
      rw [if_neg hnot]
      exact (h.key_iff _).mpr ⟨i, hi, rfl⟩

/-- **One write** keeps the file to index keys and does to the set of stored indices what it should. -/
theorem step (h : f.Keeps S) {w : FileWrite} (hw : w.InRange) : (w.run f).Keeps (w.indices S) := by
  cases w with
  | append ok e =>
    cases ok with
    | false => exact h
    | true => exact h.put hw rfl
  | appendBatch ok es =>
    cases ok with
    | false =>
      refine h.of_log ?_
      by_cases hnil : es = [] <;> simp [FileWrite.run, appendBatch, hnil]
    | true =>
      refine h.putAll hw ?_
      by_cases hnil : es = [] <;> simp [FileWrite.run, appendBatch, hnil]
  | truncateFrom ok index =>
    cases ok with
    | false => exact h
    | true =>
      have hvisits := h.visits_truncateLoop hw
      rw [truncateLoop_eq] at hvisits
      exact h.deleteAll (List.dropWhile_sublist _) hvisits rfl fun _ => Nat.not_le.symm
  | compact ok index term =>
    cases ok with
    | false => exact h
    | true =>
      have hvisits := h.visits_compactLoop index
      rw [compactLoop_eq] at hvisits
      exact h.deleteAll (List.takeWhile_sublist _) hvisits rfl fun _ => Nat.not_le.symm
  | reopen =>
    refine h.of_log ?_
    change f.newRaftLog.log = f.log
    unfold newRaftLog
    split <;> rfl

/-- **Whole runs**: after any writes the file keeps exactly the indices it should. -/
theorem run (h : f.Keeps S) {ws : List FileWrite} (hws : ∀ w ∈ ws, w.InRange) :
    (ws.foldl FileWrite.run f).Keeps (ws.foldl FileWrite.indices S) := by
  induction ws generalizing f S with
  | nil => exact h
  | cons w ws ih =>
    obtain ⟨hw, hws⟩ := List.forall_mem_cons.mp hws
    exact ih (h.step hw) hws

end Keeps

/-- Indices on both sides of the first two carries between bytes. -/
def carryWrites : List FileWrite :=
  [.append true ⟨256, 1, .noop⟩, .appendBatch true [⟨65536, 1, .noop⟩, ⟨255, 1, .noop⟩]]

def acrossCarries : LogFile := carryWrites.foldl FileWrite.run ⟨.empty, none, none, 0, 0⟩

theorem keeps_acrossCarries : acrossCarries.Keeps {255, 256, 65536} := by
  have hrange : ∀ w ∈ carryWrites, w.InRange := by
    rintro w (_ | ⟨_, _ | ⟨_, ⟨⟩⟩⟩)
    · change IsIndex 256
      decide
    · change ∀ e ∈ [(⟨65536, 1, .noop⟩ : LogEntry), ⟨255, 1, .noop⟩], IsIndex e.index
      decide
  have hset : carryWrites.foldl FileWrite.indices ∅ = {255, 256, 65536} := by
    ext i
    change (i = 256 ∨ i ∈ (∅ : Set Nat)) ∨ i ∈ [65536, 255] ↔ i = 255 ∨ i = 256 ∨ i = 65536
    simp only [Set.mem_empty_iff_false, List.mem_cons, List.not_mem_nil, or_false]
    omega
  rw [← hset]
  exact (Keeps.empty rfl).run hrange

end LogFile

/-- **The log key encoding is an order isomorphism**, and therefore the cursor of a file goes through
the stored indices in numeric order, whatever set they are. -/
theorem indexKey_iso :
    (∀ i, IsIndex i → (indexKey i).length = 8 ∧ bytesToIndex (indexKey i) = i) ∧
    (∀ i j, IsIndex i → IsIndex j → (indexKey i < indexKey j ↔ i < j)) ∧
    (∀ key : Bytes, key.length = 8 →
      IsIndex (bytesToIndex key) ∧ indexKey (bytesToIndex key) = key) ∧
    ∀ (f : LogFile) (S : Set Nat), f.Keeps S → f.Scans S :=
  ⟨fun i hi => ⟨length_indexKey i, bytesToIndex_indexKey hi⟩, fun _ _ => keyCode.lt_iff,
    fun _ h => ⟨isIndex_bytesToIndex h, indexKey_bytesToIndex h⟩, fun _ _ h => h.scans⟩

theorem indexKey_iso_acrossCarries :
    bytesToIndex (indexKey 65536) = 65536 ∧ (indexKey 255 < indexKey 256 ↔ 255 < 256) ∧
      indexKey (bytesToIndex [1, 0, 0, 0, 0, 0, 0, 255]) = [1, 0, 0, 0, 0, 0, 0, 255] ∧
      LogFile.acrossCarries.Scans {255, 256, 65536} := by
  obtain ⟨hread, horder, hkey, hscans⟩ := indexKey_iso
  exact ⟨(hread _ (by decide)).2, horder _ _ (by decide) (by decide), (hkey _ rfl).2,
    hscans _ _ LogFile.keeps_acrossCarries⟩

end Raftrix
