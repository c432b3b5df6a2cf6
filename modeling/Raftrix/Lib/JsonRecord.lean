import Raftrix.Lib.Base64
import Raftrix.Lib.Json

/-!
# Records in JSON

A record is written as an object whose members are its fields. A decoder goes through the members of an
object and sets the field of each name; it takes a field whose name differs in case only if there is no
other, and passes over members of other names. `null` leaves a number, a string, a truth value or a record
as it is and makes a slice empty. Byte strings are written in base64.

An object is read back member by member (`record_cons`, `record_omitEmpty`, `record_omitZero`), numbers
and byte strings by `map_uint64` and `map_bytes`.
-/

namespace Lib

namespace Json

/-! ## Single values -/

/-- An unsigned number of 64 bits. -/
def uint64 (old : Nat) : Value → Option Nat
  | .null => some old
  | .number l => (natOf l.1).filter fun n => n < 2 ^ 64
  | _ => none

def text (old : List UInt8) : Value → Option (List UInt8)
  | .null => some old
  | .string s => some s
  | _ => none

def truth (old : Bool) : Value → Option Bool
  | .null => some old
  | .bool b => some b
  | _ => none

/-- One byte of a byte string that is given as an array. -/
def byte : Value → Option UInt8
  | .null => some 0
  | .number l => ((natOf l.1).filter fun n => n < 256).map UInt8.ofNat
  | _ => none

def bytes : Value → Option (List UInt8)
  | .null => some []
  | .string s => Base64.decode s
  | .array vs => vs.mapM byte
  | _ => none

def slice {β : Type} (elem : Value → Option β) : Value → Option (List β)
  | .null => some []
  | .array vs => vs.mapM elem
  | _ => none

/-- The value of a byte string. -/
def Value.bytes (b : List UInt8) : Value := .string (Base64.encode b)

/-! ## Objects -/

/-- A name without the case of its letters. `ſ` and the Kelvin sign count as the letters they fold to. -/
def foldName : List UInt8 → List UInt8
  | [] => []
  | 0xC5 :: 0xBF :: rest => 83 :: foldName rest
  | 0xE2 :: 0x84 :: 0xAA :: rest => 75 :: foldName rest
  | c :: rest => (if 97 ≤ c ∧ c ≤ 122 then c - 32 else c) :: foldName rest

/-- A field of a record: its name, and how a decoder sets it. -/
structure RecordField (α : Type) where
  name : List UInt8
  set : α → Value → Option α

variable {α : Type}

/-- The field for a member: the one of its name, or else one of its name in another case. -/
def RecordField.find (fields : List (RecordField α)) (key : List UInt8) : Option (RecordField α) :=
  match fields.find? fun f => f.name == key with
  | some f => some f
  | none => fields.find? fun f => foldName f.name == foldName key

/-- Decode one member into a record. -/
def RecordField.setMember (fields : List (RecordField α)) (a : α) (m : List UInt8 × Value) : Option α :=
  match RecordField.find fields m.1 with
  | some f => f.set a m.2
  | none => some a

/-- Decode a value into a record. -/
def record (fields : List (RecordField α)) (a : α) : Value → Option α
  | .null => some a
  | .object ms => ms.foldlM (RecordField.setMember fields) a
  | _ => none

/-- A member that is left out if the byte string is empty. -/
def omitEmpty (name b : List UInt8) : List (List UInt8 × Value) :=
  if b = [] then [] else [(name, .bytes b)]

/-- A member that is left out if the number is zero. -/
def omitZero (name : List UInt8) (n : Nat) : List (List UInt8 × Value) :=
  if n = 0 then [] else [(name, .nat n)]

/-! ## What comes back -/

theorem coerceFrom_ascii {s : List UInt8} (h : ∀ c ∈ s, c < 0x80) : Utf8.coerceFrom 0 s = s := by
  induction s with
  | nil => rfl
  | cons c s ih =>
    obtain ⟨hc, hs⟩ := List.forall_mem_cons.mp h
    simp only [Utf8.coerceFrom, Utf8.tailLen, if_pos hc, ih hs]

/-- ASCII is UTF-8. -/
theorem coerceUtf8_ascii {s : List UInt8} (h : ∀ c ∈ s, c < 0x80) : Utf8.coerceUtf8 s = s :=
  coerceFrom_ascii h

@[simp] theorem coerce_nat (n : Nat) : (Value.nat n).coerce = .nat n := by
  rw [Value.nat, Value.coerce]

@[simp] theorem coerce_bool (b : Bool) : (Value.bool b).coerce = .bool b := by rw [Value.coerce]

@[simp] theorem coerce_null : Value.null.coerce = .null := by rw [Value.coerce]

@[simp] theorem coerce_string (s : List UInt8) :
    (Value.string s).coerce = .string (Utf8.coerceUtf8 s) := by
  rw [Value.coerce]

@[simp] theorem coerce_bytes (b : List UInt8) : (Value.bytes b).coerce = .bytes b := by
  rw [Value.bytes, coerce_string, coerceUtf8_ascii (Base64.encode_ascii b)]

theorem coerceElems_eq (vs : List Value) : Value.coerceElems vs = vs.map Value.coerce := by
  induction vs with
  | nil => rfl
  | cons v vs ih => rw [Value.coerceElems, ih, List.map_cons]

theorem coerceMembers_eq (ms : List (List UInt8 × Value)) :
    Value.coerceMembers ms = ms.map fun m => (Utf8.coerceUtf8 m.1, m.2.coerce) := by
  induction ms with
  | nil => rfl
  | cons m ms ih => rw [Value.coerceMembers, ih, List.map_cons]

@[simp] theorem coerce_array (vs : List Value) :
    (Value.array vs).coerce = .array (vs.map Value.coerce) := by
  rw [Value.coerce, coerceElems_eq]

@[simp] theorem coerce_object (ms : List (List UInt8 × Value)) :
    (Value.object ms).coerce = .object (ms.map fun m => (Utf8.coerceUtf8 m.1, m.2.coerce)) := by
  rw [Value.coerce, coerceMembers_eq]

/-! Setting a field to what comes back of the value written for it. -/

variable {β : Type}

theorem map_uint64 {n : Nat} (h : n < 2 ^ 64) (old : Nat) (g : Nat → β) :
    (uint64 old (Value.nat n).coerce).map g = some (g n) := by
  have hread : uint64 old (.nat n) = some n := by simpa [uint64, Value.nat] using h
  rw [coerce_nat, hread, Option.map_some]

theorem bytes_bytes (b : List UInt8) : bytes (.bytes b) = some b := Base64.decode_encode b

theorem map_bytes (b : List UInt8) (g : List UInt8 → β) :
    (bytes (.bytes b)).map g = some (g b) := by
  rw [bytes_bytes, Option.map_some]

/-! ## Objects are read back -/

/-- What comes back of a list of members. -/
def coerceMember (m : List UInt8 × Value) : List UInt8 × Value := (Utf8.coerceUtf8 m.1, m.2.coerce)

theorem record_coerce (fields : List (RecordField α)) (a : α) (ms : List (List UInt8 × Value)) :
    record fields a (Value.object ms).coerce = record fields a (.object (ms.map coerceMember)) := by
  rw [coerce_object]
  rfl

variable {fields : List (RecordField α)} {a a' : α} {f : RecordField α}

theorem record_nil : record fields a (.object []) = some a := rfl

/-- One member. -/
theorem record_cons {key : List UInt8} {v : Value} (hf : RecordField.find fields key = some f)
    (hset : f.set a v = some a') (ms : List (List UInt8 × Value)) :
    record fields a (.object ((key, v) :: ms)) = record fields a' (.object ms) := by
  have hmember : RecordField.setMember fields a (key, v) = some a' := by
    rw [RecordField.setMember, hf]
    exact hset
  rw [record, List.foldlM_cons, hmember]
  rfl

/-- A member that may be left out, which is as if the empty byte string were read. -/
theorem record_omitEmpty {name b : List UInt8}
    (hf : RecordField.find fields (Utf8.coerceUtf8 name) = some f)
    (hset : f.set a (.bytes b) = some a') (hnil : b = [] → a' = a) (ms : List (List UInt8 × Value)) :
    record fields a (.object ((omitEmpty name b).map coerceMember ++ ms)) =
      record fields a' (.object ms) := by
  unfold omitEmpty
  split
  · rename_i hb
    rw [hnil hb]
    rfl
  · rw [List.map_singleton, List.singleton_append, coerceMember, coerce_bytes, record_cons hf hset]

/-- The same for numbers. -/
theorem record_omitZero {name : List UInt8} {n : Nat}
    (hf : RecordField.find fields (Utf8.coerceUtf8 name) = some f)
    (hset : f.set a (Value.nat n).coerce = some a') (hzero : n = 0 → a' = a) (ms : List (List UInt8 × Value)) :
    record fields a (.object ((omitZero name n).map coerceMember ++ ms)) =
      record fields a' (.object ms) := by
  unfold omitZero
  split
  · rename_i hn
    rw [hzero hn]
    rfl
  · rw [List.map_singleton, List.singleton_append, coerceMember, record_cons hf hset]

end Json

end Lib
