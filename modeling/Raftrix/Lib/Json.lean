import Mathlib.Data.List.TakeWhile
import Mathlib.Data.Nat.Digits.Lemmas
import Raftrix.Lib.Bytes

/-!
# JSON texts

Values, the compact text an encoder writes for them (`print`) and a reader of texts (`value`) with the
whole grammar: white space, escapes, surrogate pairs, signed and fractional numbers. Strings are byte
strings. In a text they are UTF-8: the encoder replaces a byte that starts no well-formed sequence by the
escape of U+FFFD and the reader by the character itself, so what comes back from a string is `coerceUtf8`
of it. The encoder also escapes `<`, `>` and `&`, and the line separators U+2028 and U+2029.

The reader gives back every value, its strings coerced (**`value_print`**), whatever follows the text.
A number is kept as its literal, which is one by its type (`Literal`); it runs as far as there are
characters of numbers.
-/

namespace Lib

namespace Json

/-- The bytes of an ASCII text. -/
def ascii (s : String) : List UInt8 := s.toList.map fun c => UInt8.ofNat c.toNat

/-! ## Numbers -/

def isDigit (c : UInt8) : Bool := decide (48 ≤ c) && decide (c ≤ 57)

/-- A digit, a sign, the point or the letter of an exponent. -/
def numeric (c : UInt8) : Bool :=
  isDigit c || c == 45 || c == 43 || c == 46 || c == 101 || c == 69

/-- What follows one digit or more. -/
def afterDigits : List UInt8 → Option (List UInt8)
  | [] => none
  | c :: rest => if isDigit c then some (rest.dropWhile isDigit) else none

def afterMinus : List UInt8 → List UInt8
  | 45 :: rest => rest
  | text => text

/-- What follows the digits before the point: no zero in front of others. -/
def afterInt : List UInt8 → Option (List UInt8)
  | 48 :: rest => some rest
  | text => afterDigits text

def afterFrac : List UInt8 → Option (List UInt8)
  | 46 :: rest => afterDigits rest
  | text => some text

def afterSign : List UInt8 → List UInt8
  | 43 :: rest => rest
  | 45 :: rest => rest
  | text => text

def afterExp : List UInt8 → Option (List UInt8)
  | 101 :: rest => afterDigits (afterSign rest)
  | 69 :: rest => afterDigits (afterSign rest)
  | text => some text

/-- The literal of a number. -/
def isNumber (text : List UInt8) : Bool :=
  text.all numeric && (((afterInt (afterMinus text)).bind afterFrac).bind afterExp == some [])

abbrev Literal := { text : List UInt8 // isNumber text = true }

/-- The decimal digits of a number. -/
def decimal (n : Nat) : List UInt8 :=
  if n = 0 then [48] else (Nat.digits 10 n).reverse.map fun d => UInt8.ofNat (48 + d)

/-- The number of decimal digits. -/
def natOf (text : List UInt8) : Option Nat :=
  if text ≠ [] ∧ text.all isDigit then
    some (text.foldl (fun n c => 10 * n + (c.toNat - 48)) 0)
  else none

/-! ## Strings -/

/-- A digit of base 16, in lower case. -/
def hexDigit (n : Nat) : UInt8 := if n < 10 then UInt8.ofNat (48 + n) else UInt8.ofNat (87 + n)

def hexValue (c : UInt8) : Option Nat :=
  if 48 ≤ c ∧ c ≤ 57 then some (c.toNat - 48)
  else if 97 ≤ c ∧ c ≤ 102 then some (c.toNat - 87)
  else if 65 ≤ c ∧ c ≤ 70 then some (c.toNat - 55)
  else none

/-- The escape of a code point below `0x10000`. -/
def escapeU (u : Nat) : List UInt8 :=
  [92, 117, hexDigit (u / 4096 % 16), hexDigit (u / 256 % 16), hexDigit (u / 16 % 16),
    hexDigit (u % 16)]

/-- An ASCII character in a text. -/
def escape (b : UInt8) : List UInt8 :=
  if b = 34 ∨ b = 92 then [92, b]
  else if b = 8 then [92, 98]
  else if b = 12 then [92, 102]
  else if b = 10 then [92, 110]
  else if b = 13 then [92, 114]
  else if b = 9 then [92, 116]
  else if b < 32 ∨ b = 60 ∨ b = 62 ∨ b = 38 then escapeU b.toNat
  else [b]

/-- The text of one character, given as its UTF-8 sequence. -/
def rune (b : UInt8) (rest : List UInt8) : List UInt8 :=
  if rest = [] then escape b
  -- the line separators
  else if b = 0xE2 ∧ rest = [0x80, 0xA8] then escapeU 0x2028
  else if b = 0xE2 ∧ rest = [0x80, 0xA9] then escapeU 0x2029
  else b :: rest

/-- Pass over `skip` bytes, then write a string up to its closing quote. -/
def quoteFrom : Nat → List UInt8 → List UInt8
  | _, [] => []
  | skip + 1, _ :: rest => quoteFrom skip rest
  | 0, b :: rest =>
    match Utf8.tailLen (b :: rest) with
    | none => escapeU 0xFFFD ++ quoteFrom 0 rest
    | some n => rune b (rest.take n) ++ quoteFrom n rest

def quote (s : List UInt8) : List UInt8 := 34 :: (quoteFrom 0 s ++ [34])

/-- The code point of four digits of base 16. -/
def hex4 : List UInt8 → Option Nat
  | a :: b :: c :: d :: _ => do
    let p ← hexValue a
    let q ← hexValue b
    let r ← hexValue c
    let s ← hexValue d
    some (p * 4096 + q * 256 + r * 16 + s)
  | _ => none

/-- The UTF-8 sequence of a code point. -/
def utf8 (u : Nat) : List UInt8 :=
  if u < 0x80 then [UInt8.ofNat u]
  else if u < 0x800 then [UInt8.ofNat (0xC0 + u / 64), UInt8.ofNat (0x80 + u % 64)]
  else if u < 0x10000 then
    [UInt8.ofNat (0xE0 + u / 4096), UInt8.ofNat (0x80 + u / 64 % 64), UInt8.ofNat (0x80 + u % 64)]
  else
    [UInt8.ofNat (0xF0 + u / 262144), UInt8.ofNat (0x80 + u / 4096 % 64),
      UInt8.ofNat (0x80 + u / 64 % 64), UInt8.ofNat (0x80 + u % 64)]

/-- U+FFFD. -/
def replacement : List UInt8 := [0xEF, 0xBF, 0xBD]

/-- Half of a surrogate pair. -/
def surrogate (u : Nat) : Bool := decide (0xD800 ≤ u) && decide (u < 0xE000)

/-- The code point of a surrogate pair. -/
def pair (hi lo : Nat) : Option Nat :=
  if hi < 0xDC00 ∧ 0xDC00 ≤ lo ∧ lo < 0xE000 then
    some ((hi - 0xD800) * 1024 + (lo - 0xDC00) + 0x10000)
  else none

/-- The code point of an escape at the head of the text. -/
def codeUnit : List UInt8 → Option Nat
  | 92 :: 117 :: rest => hex4 rest
  | _ => none

/-- The character of a one-letter escape. -/
def unescape (c : UInt8) : Option UInt8 :=
  if c = 34 ∨ c = 92 ∨ c = 47 then some c
  else if c = 98 then some 8
  else if c = 102 then some 12
  else if c = 110 then some 10
  else if c = 114 then some 13
  else if c = 116 then some 9
  else none

/-- Behind a backslash: the bytes an escape stands for, and its length. -/
def readEscape : List UInt8 → Option (List UInt8 × Nat)
  | [] => none
  | c :: rest =>
    if c = 117 then do
      let u ← hex4 rest
      if surrogate u then
        match (codeUnit (rest.drop 4)).bind (pair u) with
        | some u' => some (utf8 u', 11)
        -- half a pair; what follows is read for itself
        | none => some (replacement, 5)
      else some (utf8 u, 5)
    else (unescape c).map fun d => ([d], 1)

/-- Bytes in front of what has been read. -/
def emit (bytes : List UInt8) (r : Option (List UInt8 × List UInt8)) :
    Option (List UInt8 × List UInt8) :=
  r.map fun r => (bytes ++ r.1, r.2)

/-- Pass over `skip` bytes, then read a string up to its closing quote. -/
def unquoteFrom : Nat → List UInt8 → Option (List UInt8 × List UInt8)
  | _, [] => none
  | skip + 1, _ :: rest => unquoteFrom skip rest
  | 0, b :: rest =>
    if b = 34 then some ([], rest)
    else if b = 92 then
      match readEscape rest with
      | none => none
      | some (bytes, n) => emit bytes (unquoteFrom n rest)
    else if b < 32 then none
    else
      match Utf8.tailLen (b :: rest) with
      | none => emit replacement (unquoteFrom 0 rest)
      | some n => emit (b :: rest.take n) (unquoteFrom n rest)

def unquote (text : List UInt8) : Option (List UInt8 × List UInt8) := unquoteFrom 0 text

/-! ## Values -/

inductive Value where
  | null
  | bool (b : Bool)
  | number (literal : Literal)
  | string (s : List UInt8)
  | array (elems : List Value)
  | object (members : List (List UInt8 × Value))

mutual

/-- The compact text of a value. -/
def print : Value → List UInt8
  | .null => ascii "null"
  | .bool b => if b then ascii "true" else ascii "false"
  | .number literal => literal.1
  | .string s => quote s
  | .array elems => 91 :: printElems elems
  | .object members => 123 :: printMembers members

/-- The elements of an array, up to its closing bracket. -/
def printElems : List Value → List UInt8
  | [] => [93]
  | [v] => print v ++ [93]
  | v :: vs => print v ++ 44 :: printElems vs

/-- The members of an object, up to its closing brace. -/
def printMembers : List (List UInt8 × Value) → List UInt8
  | [] => [125]
  | [(key, v)] => quote key ++ 58 :: (print v ++ [125])
  | (key, v) :: ms => quote key ++ 58 :: (print v ++ 44 :: printMembers ms)

end

mutual

/-- The value that comes back from its text. -/
def Value.coerce : Value → Value
  | .null => .null
  | .bool b => .bool b
  | .number literal => .number literal
  | .string s => .string (Utf8.coerceUtf8 s)
  | .array elems => .array (coerceElems elems)
  | .object members => .object (coerceMembers members)

def Value.coerceElems : List Value → List Value
  | [] => []
  | v :: vs => v.coerce :: coerceElems vs

def Value.coerceMembers : List (List UInt8 × Value) → List (List UInt8 × Value)
  | [] => []
  | (key, v) :: ms => (Utf8.coerceUtf8 key, v.coerce) :: coerceMembers ms

end

/-! ## Reading -/

def isSpace (c : UInt8) : Bool := c == 32 || c == 9 || c == 10 || c == 13

def skipSpace (text : List UInt8) : List UInt8 := text.dropWhile isSpace

/-- What follows a word. -/
def expect : List UInt8 → List UInt8 → Option (List UInt8)
  | [], text => some text
  | _ :: _, [] => none
  | c :: cs, d :: text => if c = d then expect cs text else none

/-- A number runs as far as there are characters of numbers. -/
def readNumber (text : List UInt8) : Option (Value × List UInt8) :=
  if h : isNumber (text.takeWhile numeric) = true then
    some (.number ⟨text.takeWhile numeric, h⟩, text.dropWhile numeric)
  else none

mutual

/-- The value at the head of the text and what follows it, with at most `fuel` nested calls. -/
def value : Nat → List UInt8 → Option (Value × List UInt8)
  | 0, _ => none
  | fuel + 1, text =>
    match skipSpace text with
    | [] => none
    | c :: rest =>
      if c = 34 then (unquote rest).map fun r => (.string r.1, r.2)
      else if c = 91 then
        match skipSpace rest with
        | 93 :: rest => some (.array [], rest)
        | rest => (elements fuel rest).map fun r => (.array r.1, r.2)
      else if c = 123 then
        match skipSpace rest with
        | 125 :: rest => some (.object [], rest)
        | rest => (members fuel rest).map fun r => (.object r.1, r.2)
      else if c = 110 then (expect (ascii "ull") rest).map fun rest => (.null, rest)
      else if c = 116 then (expect (ascii "rue") rest).map fun rest => (.bool true, rest)
      else if c = 102 then (expect (ascii "alse") rest).map fun rest => (.bool false, rest)
      else readNumber (c :: rest)

/-- One element or more, and the closing bracket. -/
def elements : Nat → List UInt8 → Option (List Value × List UInt8)
  | 0, _ => none
  | fuel + 1, text => do
    let (v, text) ← value fuel text
    match skipSpace text with
    | 44 :: text => (elements fuel text).map fun r => (v :: r.1, r.2)
    | 93 :: text => some ([v], text)
    | _ => none

/-- One member or more, and the closing brace. -/
def members : Nat → List UInt8 → Option (List (List UInt8 × Value) × List UInt8)
  | 0, _ => none
  | fuel + 1, text =>
    match skipSpace text with
    | 34 :: text => do
      let (key, text) ← unquote text
      match skipSpace text with
      | 58 :: text =>
        let (v, text) ← value fuel text
        match skipSpace text with
        | 44 :: text => (members fuel text).map fun r => ((key, v) :: r.1, r.2)
        | 125 :: text => some ([(key, v)], text)
        | _ => none
      | _ => none
    | _ => none

end

/-- The first value of a stream. -/
def decode (text : List UInt8) : Option Value := (value (text.length + 1) text).map Prod.fst

/-- The value that is the whole text. -/
def unmarshal (text : List UInt8) : Option Value :=
  match value (text.length + 1) text with
  | none => none
  | some (v, rest) => if skipSpace rest = [] then some v else none

/-! ## The digits of a number -/

theorem isDigit_of_lt : ∀ d < 10, isDigit (UInt8.ofNat (48 + d)) = true := by decide

theorem toNat_of_lt : ∀ d < 10, (UInt8.ofNat (48 + d)).toNat - 48 = d := by decide

theorem ofNat_ne_zero : ∀ d < 10, d ≠ 0 → UInt8.ofNat (48 + d) ≠ 48 := by decide

theorem numeric_of_isDigit {c : UInt8} (h : isDigit c = true) : numeric c = true := by
  simp [numeric, h]

theorem digits_lt {n d : Nat} (h : d ∈ Nat.digits 10 n) : d < 10 :=
  Nat.digits_lt_base (by decide) h

/-- The digits behind the first one, which is not zero unless it is alone. -/
theorem decimal_cases (n : Nat) : ∃ c cs, decimal n = c :: cs ∧ isDigit c = true ∧
    cs.all isDigit = true ∧ (c = 48 → cs = []) := by
  by_cases hn : n = 0
  · exact ⟨48, [], by rw [decimal, if_pos hn], by decide, rfl, fun _ => rfl⟩
  · have hne : Nat.digits 10 n ≠ [] := Nat.digits_ne_nil_iff_ne_zero.mpr hn
    have hlast := Nat.getLast_digit_ne_zero 10 hn
    have hlt : (Nat.digits 10 n).getLast hne < 10 := digits_lt (List.getLast_mem hne)
    refine ⟨UInt8.ofNat (48 + (Nat.digits 10 n).getLast hne),
      (Nat.digits 10 n).dropLast.reverse.map fun d => UInt8.ofNat (48 + d), ?_, isDigit_of_lt _ hlt, ?_,
      fun h => absurd h (ofNat_ne_zero _ hlt hlast)⟩
    · rw [decimal, if_neg hn]
      conv_lhs => rw [← List.dropLast_append_getLast hne]
      rw [List.reverse_append, List.reverse_singleton, List.singleton_append, List.map_cons]
    · simp only [List.all_eq_true, List.mem_map, List.mem_reverse]
      rintro c ⟨d, hd, rfl⟩
      exact isDigit_of_lt d (digits_lt (List.dropLast_subset _ hd))

theorem all_isDigit_decimal (n : Nat) : (decimal n).all isDigit = true := by
  obtain ⟨c, cs, h, hc, hcs, _⟩ := decimal_cases n
  rw [h, List.all_cons, hc, hcs]
  rfl

theorem decimal_ne_nil (n : Nat) : decimal n ≠ [] := by
  obtain ⟨c, cs, h, _⟩ := decimal_cases n
  rw [h]
  exact List.cons_ne_nil _ _

theorem foldr_digits (ds : List Nat) (h : ∀ d ∈ ds, d < 10) :
    ds.foldr (fun d n => 10 * n + ((UInt8.ofNat (48 + d)).toNat - 48)) 0 = Nat.ofDigits 10 ds := by
  induction ds with
  | nil => rfl
  | cons d ds ih =>
    rw [List.foldr_cons, ih fun d hd => h d (List.mem_cons_of_mem _ hd),
      toNat_of_lt d (h d List.mem_cons_self), Nat.ofDigits_cons]
    exact Nat.add_comm _ _

/-- A number is read back from its digits. -/
@[simp] theorem natOf_decimal (n : Nat) : natOf (decimal n) = some n := by
  rw [natOf, if_pos ⟨decimal_ne_nil n, all_isDigit_decimal n⟩]
  by_cases hn : n = 0
  · rw [decimal, if_pos hn, hn]
    rfl
  · rw [decimal, if_neg hn, List.foldl_map, List.foldl_reverse,
      foldr_digits _ fun d hd => digits_lt hd, Nat.ofDigits_digits]

/-- The digits of a number are a literal. -/
theorem isNumber_decimal (n : Nat) : isNumber (decimal n) = true := by
  obtain ⟨c, cs, h, hc, hcs, hzero⟩ := decimal_cases n
  have hall : (c :: cs).all numeric = true := by
    rw [List.all_cons, numeric_of_isDigit hc, Bool.true_and]
    rw [List.all_eq_true] at hcs ⊢
    exact fun d hd => numeric_of_isDigit (hcs d hd)
  have hminus : afterMinus (c :: cs) = c :: cs := by
    unfold afterMinus
    split
    · rename_i heq
      cases heq
      cases hc
    · rfl
  have hint : afterInt (c :: cs) = some [] := by
    unfold afterInt
    split
    · rename_i heq
      cases heq
      rw [hzero rfl]
    · rw [afterDigits, if_pos hc, List.dropWhile_eq_nil_iff.mpr (List.all_eq_true.mp hcs)]
  rw [isNumber, h, hall, hminus, hint]
  rfl

/-- An unsigned number as a value. -/
def Value.nat (n : Nat) : Value := .number ⟨decimal n, isNumber_decimal n⟩

/-! ## Strings are read back -/

open Utf8 (tailLen coerceFrom coerceUtf8 cont second3 second4 between)

/-- The sequence at the head of a string, and what follows it: whatever follows, the sequence is recognised. -/
theorem tailLen_split {b : UInt8} {rest : List UInt8} {n : Nat} (h : tailLen (b :: rest) = some n) :
    ∃ cs tl, rest = cs ++ tl ∧ cs.length = n ∧ (∀ text, tailLen (b :: (cs ++ text)) = some n) ∧
      (n = 0 ∨ 0x80 ≤ b) := by
  simp only [tailLen] at h
  split at h
  · rename_i hb
    cases h
    exact ⟨[], rest, rfl, rfl, fun text => by simp [tailLen, hb], .inl rfl⟩
  · rename_i hb
    have hb' : 0x80 ≤ b := UInt8.not_lt.mp hb
    split at h
    · rename_i h2
      split at h
      · rename_i c tl
        split at h
        · rename_i hc
          cases h
          exact ⟨[c], tl, rfl, rfl, fun text => by simp [tailLen, hb, h2, hc], .inr hb'⟩
        · cases h
      · cases h
    · rename_i h2
      split at h
      · rename_i h3
        split at h
        · rename_i c d tl
          split at h
          · rename_i hc
            cases h
            refine ⟨[c, d], tl, rfl, rfl, fun text => ?_, .inr hb'⟩
            simp only [tailLen, List.cons_append, List.nil_append, if_neg hb, if_neg h2, if_pos h3,
              if_pos hc]
          · cases h
        · cases h
      · rename_i h3
        split at h
        · rename_i h4
          split at h
          · rename_i c d e tl
            split at h
            · rename_i hc
              cases h
              refine ⟨[c, d, e], tl, rfl, rfl, fun text => ?_, .inr hb'⟩
              simp only [tailLen, List.cons_append, List.nil_append, if_neg hb, if_neg h2, if_neg h3,
                if_pos h4, if_pos hc]
            · cases h
          · cases h
        · cases h

theorem coerceFrom_append (cs tl : List UInt8) :
    coerceFrom cs.length (cs ++ tl) = cs ++ coerceFrom 0 tl := by
  induction cs with
  | nil => rfl
  | cons c cs ih => simp only [List.length_cons, List.cons_append, coerceFrom, ih]

theorem unquoteFrom_append (cs text : List UInt8) :
    unquoteFrom cs.length (cs ++ text) = unquoteFrom 0 text := by
  induction cs with
  | nil => rfl
  | cons c cs ih => simpa only [List.length_cons, List.cons_append, unquoteFrom] using ih

theorem hexValue_hexDigit : ∀ n < 16, hexValue (hexDigit n) = some n := by decide

theorem readEscape_escapeU {u : Nat} (hu : u < 0x10000) (hs : surrogate u = false) (text : List UInt8) :
    readEscape ((escapeU u).tail ++ text) = some (utf8 u, 5) := by
  have hdigit : ∀ k, hexValue (hexDigit (k % 16)) = some (k % 16) := fun k =>
    hexValue_hexDigit _ (Nat.mod_lt _ (by decide))
  have hsum : u / 4096 % 16 * 4096 + u / 256 % 16 * 256 + u / 16 % 16 * 16 + u % 16 = u := by omega
  simp [escapeU, readEscape, hex4, hdigit, hsum, hs]

theorem unquoteFrom_escapeU {u : Nat} (hu : u < 0x10000) (hs : surrogate u = false) (text : List UInt8) :
    unquoteFrom 0 (escapeU u ++ text) = emit (utf8 u) (unquoteFrom 0 text) := by
  have hread := readEscape_escapeU hu hs text
  rw [show escapeU u ++ text = 92 :: ((escapeU u).tail ++ text) from rfl, unquoteFrom, if_neg (by decide),
    if_pos rfl, hread]
  exact congrArg (emit (utf8 u)) (unquoteFrom_append (escapeU u).tail text)

/-- A character that is written as it is. -/
theorem unquoteFrom_raw {b : UInt8} {cs : List UInt8} (hquote : b ≠ 34) (hback : b ≠ 92) (hctl : ¬ b < 32)
    (h : ∀ text, tailLen (b :: (cs ++ text)) = some cs.length) (text : List UInt8) :
    unquoteFrom 0 (b :: (cs ++ text)) = emit (b :: cs) (unquoteFrom 0 text) := by
  rw [unquoteFrom, if_neg hquote, if_neg hback, if_neg hctl, h text]
  dsimp only
  rw [unquoteFrom_append, List.take_left]

theorem unquoteFrom_short {c d : UInt8} (hu : c ≠ 117) (h : unescape c = some d) (text : List UInt8) :
    unquoteFrom 0 (92 :: c :: text) = emit [d] (unquoteFrom 0 text) := by
  rw [unquoteFrom, if_neg (by decide), if_pos rfl, readEscape, if_neg hu, h]
  rfl

theorem utf8_ascii {b : UInt8} (hb : b < 0x80) : utf8 b.toNat = [b] := by
  have hlt : b.toNat < 0x80 := UInt8.lt_iff_toNat_lt.mp hb
  rw [utf8, if_pos hlt, UInt8.ofNat_toNat]

theorem unquoteFrom_escape {b : UInt8} (hb : b < 0x80) (text : List UInt8) :
    unquoteFrom 0 (escape b ++ text) = emit [b] (unquoteFrom 0 text) := by
  have hlt : b.toNat < 0x80 := UInt8.lt_iff_toNat_lt.mp hb
  unfold escape
  split
  · rename_i h
    exact unquoteFrom_short (by rintro rfl; revert h; decide)
      (by rw [unescape, if_pos (by tauto)]) text
  split
  · subst b
    exact unquoteFrom_short (by decide) rfl text
  split
  · subst b
    exact unquoteFrom_short (by decide) rfl text
  split
  · subst b
    exact unquoteFrom_short (by decide) rfl text
  split
  · subst b
    exact unquoteFrom_short (by decide) rfl text
  split
  · subst b
    exact unquoteFrom_short (by decide) rfl text
  split
  · rw [unquoteFrom_escapeU (by omega) (by simp [surrogate]; omega), utf8_ascii hb]
  · rename_i hmark _ _ _ _ _ hplain
    simp only [not_or] at hmark hplain
    have hascii : ∀ text, tailLen (b :: ([] ++ text)) = some 0 := fun text => by simp [tailLen, hb]
    exact unquoteFrom_raw hmark.1 hmark.2 hplain.1 hascii text

theorem unquoteFrom_rune {b : UInt8} {cs : List UInt8}
    (h : ∀ text, tailLen (b :: (cs ++ text)) = some cs.length) (hlead : cs.length = 0 ∨ 0x80 ≤ b)
    (text : List UInt8) :
    unquoteFrom 0 (rune b cs ++ text) = emit (b :: cs) (unquoteFrom 0 text) := by
  unfold rune
  split
  · rename_i hnil
    subst hnil
    refine unquoteFrom_escape ?_ text
    by_contra hb
    have h0 := h []
    simp only [tailLen, List.nil_append, if_neg hb] at h0
    split_ifs at h0
  · rename_i hne
    split
    · rename_i hsep
      rw [hsep.1, hsep.2]
      exact unquoteFrom_escapeU (by decide) (by decide) text
    split
    · rename_i hsep
      rw [hsep.1, hsep.2]
      exact unquoteFrom_escapeU (by decide) (by decide) text
    · have hb : 0x80 ≤ b := hlead.resolve_left fun hnil => hne (List.length_eq_zero_iff.mp hnil)
      have hge : ∀ k < 0x80, b ≠ k := fun k hk heq => absurd (heq ▸ hb) (UInt8.not_le.mpr hk)
      have hctl : ¬ b < 32 := fun hlt =>
        absurd (UInt8.lt_of_lt_of_le hlt (by decide : (32 : UInt8) ≤ 0x80)) (UInt8.not_lt.mpr hb)
      exact unquoteFrom_raw (hge 34 (by decide)) (hge 92 (by decide)) hctl h text

theorem unquoteFrom_quoteFrom (n : Nat) (s rest : List UInt8) :
    unquoteFrom 0 (quoteFrom n s ++ 34 :: rest) = some (coerceFrom 0 (s.drop n), rest) := by
  fun_induction quoteFrom n s with
  | case1 n => simp [unquoteFrom, coerceFrom]
  | case2 skip b tl ih => exact ih
  | case3 b tl h ih =>
    rw [List.append_assoc, unquoteFrom_escapeU (by decide) (by decide), ih]
    simp only [List.drop_zero, coerceFrom, h]
    rfl
  | case4 b tl n h ih =>
    obtain ⟨cs, tl, rfl, rfl, hseq, hlead⟩ := tailLen_split h
    rw [List.take_left, List.append_assoc, unquoteFrom_rune hseq hlead, ih, List.drop_left]
    simp only [List.drop_zero, coerceFrom, h, coerceFrom_append]
    rfl

/-- **A string is read back as UTF-8.** -/
theorem unquote_quote (s rest : List UInt8) :
    unquote (quoteFrom 0 s ++ 34 :: rest) = some (coerceUtf8 s, rest) :=
  unquoteFrom_quoteFrom 0 s rest

/-! ## Values are read back -/

/-- What follows a value does not go on with a number. -/
def Ends (rest : List UInt8) : Prop := ∀ c ∈ rest.head?, numeric c = false

theorem ends_nil : Ends [] := by simp [Ends]

theorem ends_cons {c : UInt8} {rest : List UInt8} (h : numeric c = false) : Ends (c :: rest) := by
  simpa [Ends] using h

theorem skipSpace_cons {c : UInt8} (h : isSpace c = false) (rest : List UInt8) :
    skipSpace (c :: rest) = c :: rest := by
  rw [skipSpace, List.dropWhile_cons_of_neg (by simp [h])]

theorem expect_append (word text : List UInt8) : expect word (word ++ text) = some text := by
  induction word with
  | nil => rfl
  | cons c cs ih => rw [List.cons_append, expect, if_pos rfl, ih]

theorem isSpace_of_numeric {c : UInt8} (h : numeric c = true) : isSpace c = false := by
  by_contra hs
  rw [Bool.not_eq_false] at hs
  simp only [isSpace, Bool.or_eq_true, beq_iff_eq] at hs
  rcases hs with ((rfl | rfl) | rfl) | rfl <;> revert h <;> decide

theorem takeWhile_literal (l : Literal) {rest : List UInt8} (hrest : Ends rest) :
    (l.1 ++ rest).takeWhile numeric = l.1 ∧ (l.1 ++ rest).dropWhile numeric = rest := by
  have hall : ∀ c ∈ l.1, numeric c = true := by
    have h := l.2
    simp only [isNumber, Bool.and_eq_true, List.all_eq_true] at h
    exact h.1
  have hstop : rest.takeWhile numeric = [] ∧ rest.dropWhile numeric = rest := by
    cases rest with
    | nil => exact ⟨rfl, rfl⟩
    | cons c rest =>
      have hc : ¬ numeric c = true := by simp [hrest c rfl]
      exact ⟨List.takeWhile_cons_of_neg hc, List.dropWhile_cons_of_neg hc⟩
  constructor
  · rw [List.takeWhile_append_of_pos hall, hstop.1, List.append_nil]
  · rw [List.dropWhile_append_of_pos hall, hstop.2]

/-- A literal has a first character. -/
theorem literal_cons (l : Literal) : ∃ c cs, l.1 = c :: cs ∧ numeric c = true := by
  obtain ⟨text, h⟩ := l
  cases text with
  | nil => cases h
  | cons c cs =>
    simp only [isNumber, Bool.and_eq_true, List.all_cons] at h
    exact ⟨c, cs, rfl, h.1.1⟩

theorem readNumber_literal (l : Literal) {rest : List UInt8} (hrest : Ends rest) :
    readNumber (l.1 ++ rest) = some (.number l, rest) := by
  obtain ⟨htake, hdrop⟩ := takeWhile_literal l hrest
  rw [readNumber, dif_pos (by rw [htake]; exact l.2)]
  simp only [htake, hdrop]

theorem value_literal (l : Literal) (fuel : Nat) {rest : List UInt8} (hrest : Ends rest) :
    value (fuel + 1) (l.1 ++ rest) = some (.number l, rest) := by
  rw [← readNumber_literal l hrest]
  obtain ⟨c, cs, heq, hc⟩ := literal_cons l
  have hne : ∀ k, numeric k = false → c ≠ k := by
    rintro k hk rfl
    rw [hc] at hk
    cases hk
  rw [heq, List.cons_append, value, skipSpace_cons (isSpace_of_numeric hc)]
  dsimp only
  rw [if_neg (hne 34 rfl), if_neg (hne 91 rfl), if_neg (hne 123 rfl), if_neg (hne 110 rfl),
    if_neg (hne 116 rfl), if_neg (hne 102 rfl)]

/-- A value starts with a character that is no white space and closes nothing. -/
theorem print_cons (v : Value) : ∃ c cs, print v = c :: cs ∧ isSpace c = false ∧ c ≠ 93 := by
  cases v with
  | null => exact ⟨_, _, rfl, rfl, by decide⟩
  | bool b => cases b <;> exact ⟨_, _, rfl, rfl, by decide⟩
  | number l =>
    obtain ⟨c, cs, heq, hc⟩ := literal_cons l
    exact ⟨c, cs, by rw [print, heq], isSpace_of_numeric hc, by rintro rfl; cases hc⟩
  | string s => exact ⟨34, _, by rw [print, quote], rfl, by decide⟩
  | array vs => exact ⟨91, _, by rw [print], rfl, by decide⟩
  | object ms => exact ⟨123, _, by rw [print], rfl, by decide⟩

/-! One call of the readers, by what the text starts with. -/

theorem value_string (fuel : Nat) (text : List UInt8) :
    value (fuel + 1) (34 :: text) = (unquote text).map fun r => (.string r.1, r.2) := by
  rw [value, skipSpace_cons rfl]
  rfl

theorem value_array_nil (fuel : Nat) (text : List UInt8) :
    value (fuel + 1) (91 :: 93 :: text) = some (.array [], text) := by
  rw [value, skipSpace_cons rfl]
  simp only [skipSpace_cons (show isSpace 93 = false from rfl)]
  rfl

theorem value_array {c : UInt8} (hs : isSpace c = false) (hc : c ≠ 93) (fuel : Nat) (text : List UInt8) :
    value (fuel + 1) (91 :: c :: text) =
      (elements fuel (c :: text)).map fun r => (.array r.1, r.2) := by
  rw [value, skipSpace_cons rfl]
  dsimp only
  rw [if_neg (by decide), if_pos rfl, skipSpace_cons hs]
  split
  · rename_i heq
    cases heq
    exact absurd rfl hc
  · rfl

theorem value_object_nil (fuel : Nat) (text : List UInt8) :
    value (fuel + 1) (123 :: 125 :: text) = some (.object [], text) := by
  rw [value, skipSpace_cons rfl]
  simp only [skipSpace_cons (show isSpace 125 = false from rfl)]
  rfl

theorem value_object (fuel : Nat) (text : List UInt8) :
    value (fuel + 1) (123 :: 34 :: text) =
      (members fuel (34 :: text)).map fun r => (.object r.1, r.2) := by
  rw [value, skipSpace_cons rfl]
  simp only [skipSpace_cons (show isSpace 34 = false from rfl)]
  rfl

theorem elements_last {fuel : Nat} {text rest : List UInt8} {v : Value}
    (h : value fuel text = some (v, 93 :: rest)) : elements (fuel + 1) text = some ([v], rest) := by
  simp [elements, h, skipSpace_cons (show isSpace 93 = false from rfl)]

theorem elements_more {fuel : Nat} {text rest : List UInt8} {v : Value}
    (h : value fuel text = some (v, 44 :: rest)) :
    elements (fuel + 1) text = (elements fuel rest).map fun r => (v :: r.1, r.2) := by
  simp [elements, h, skipSpace_cons (show isSpace 44 = false from rfl)]

theorem members_last {fuel : Nat} {text rest : List UInt8} {v : Value} (key : List UInt8)
    (h : value fuel text = some (v, 125 :: rest)) :
    members (fuel + 1) (quote key ++ 58 :: text) = some ([(coerceUtf8 key, v)], rest) := by
  simp [members, quote, unquote_quote, h, skipSpace_cons (show isSpace 34 = false from rfl),
    skipSpace_cons (show isSpace 58 = false from rfl), skipSpace_cons (show isSpace 125 = false from rfl)]

theorem members_more {fuel : Nat} {text rest : List UInt8} {v : Value} (key : List UInt8)
    (h : value fuel text = some (v, 44 :: rest)) :
    members (fuel + 1) (quote key ++ 58 :: text) =
      (members fuel rest).map fun r => ((coerceUtf8 key, v) :: r.1, r.2) := by
  simp [members, quote, unquote_quote, h, skipSpace_cons (show isSpace 34 = false from rfl),
    skipSpace_cons (show isSpace 58 = false from rfl), skipSpace_cons (show isSpace 44 = false from rfl)]

theorem printElems_cons (v : Value) (vs : List Value) :
    ∃ c cs, printElems (v :: vs) = c :: cs ∧ isSpace c = false ∧ c ≠ 93 := by
  obtain ⟨c, cs, heq, hspace, hclose⟩ := print_cons v
  cases vs with
  | nil => exact ⟨c, cs ++ [93], by rw [printElems, heq, List.cons_append], hspace, hclose⟩
  | cons w vs =>
    exact ⟨c, cs ++ 44 :: printElems (w :: vs), by simp [printElems, heq], hspace, hclose⟩

theorem printMembers_cons (m : List UInt8 × Value) (ms : List (List UInt8 × Value)) :
    ∃ cs, printMembers (m :: ms) = 34 :: cs := by
  cases ms with
  | nil => exact ⟨_, by rw [printMembers, quote, List.cons_append]⟩
  | cons m' ms => exact ⟨_, by simp only [printMembers, quote, List.cons_append]; rfl⟩

mutual

-- The fuel is counted against the length of the text: every nested call has a shorter one.
/-- **A value is read back from its text**, its strings as UTF-8. -/
theorem value_print : ∀ (v : Value) (fuel : Nat) (rest : List UInt8), (print v).length ≤ fuel →
    Ends rest → value fuel (print v ++ rest) = some (v.coerce, rest)
  | v, 0, rest, hfuel, _ => by
    obtain ⟨c, cs, heq, _⟩ := print_cons v
    rw [heq] at hfuel
    cases hfuel
  | .null, fuel + 1, rest, _, _ => by
    rw [print, show ascii "null" = 110 :: ascii "ull" from rfl, List.cons_append, value,
      skipSpace_cons rfl]
    simp [expect_append, Value.coerce]
  | .bool true, fuel + 1, rest, _, _ => by
    rw [print, if_pos rfl, show ascii "true" = 116 :: ascii "rue" from rfl, List.cons_append, value,
      skipSpace_cons rfl]
    simp [expect_append, Value.coerce]
  | .bool false, fuel + 1, rest, _, _ => by
    rw [print, if_neg (by decide), show ascii "false" = 102 :: ascii "alse" from rfl, List.cons_append,
      value, skipSpace_cons rfl]
    simp [expect_append, Value.coerce]
  | .number l, fuel + 1, rest, _, hrest => by
    rw [print, value_literal l fuel hrest, Value.coerce]
  | .string s, fuel + 1, rest, _, _ => by
    rw [print, quote, List.cons_append, List.append_assoc, List.singleton_append, value_string,
      unquote_quote, Value.coerce]
    rfl
  | .array [], fuel + 1, rest, _, _ => by
    rw [print, printElems, List.cons_append, List.singleton_append, value_array_nil, Value.coerce,
      Value.coerceElems]
  | .array (v :: vs), fuel + 1, rest, hfuel, _ => by
    have helems := elements_print v vs fuel rest (by simpa [print] using hfuel)
    obtain ⟨c, cs, heq, hspace, hclose⟩ := printElems_cons v vs
    rw [heq, List.cons_append] at helems
    rw [print, List.cons_append, heq, List.cons_append, value_array hspace hclose, helems, Value.coerce]
    rfl
  | .object [], fuel + 1, rest, _, _ => by
    rw [print, printMembers, List.cons_append, List.singleton_append, value_object_nil, Value.coerce,
      Value.coerceMembers]
  | .object (m :: ms), fuel + 1, rest, hfuel, _ => by
    have hmembers := members_print m.1 m.2 ms fuel rest (by simpa [print] using hfuel)
    obtain ⟨cs, heq⟩ := printMembers_cons m ms
    rw [heq, List.cons_append] at hmembers
    rw [print, List.cons_append, heq, List.cons_append, value_object, hmembers, Value.coerce]
    rfl

theorem elements_print : ∀ (v : Value) (vs : List Value) (fuel : Nat) (rest : List UInt8),
    (printElems (v :: vs)).length ≤ fuel →
      elements fuel (printElems (v :: vs) ++ rest) = some (Value.coerceElems (v :: vs), rest)
  | v, vs, 0, rest, hfuel => by
    obtain ⟨c, cs, heq, _⟩ := printElems_cons v vs
    rw [heq] at hfuel
    cases hfuel
  | v, [], fuel + 1, rest, hfuel => by
    have hv := value_print v fuel (93 :: rest) (by simpa [printElems] using hfuel) (ends_cons rfl)
    rw [printElems, List.append_assoc, List.singleton_append, elements_last hv]
    rfl
  | v, w :: vs, fuel + 1, rest, hfuel => by
    have heq : printElems (v :: w :: vs) = print v ++ 44 :: printElems (w :: vs) := by
      simp [printElems]
    rw [heq, List.length_append, List.length_cons] at hfuel
    have hv := value_print v fuel (44 :: (printElems (w :: vs) ++ rest)) (by omega) (ends_cons rfl)
    have hvs := elements_print w vs fuel rest (by omega)
    rw [heq, List.append_assoc, List.cons_append, elements_more hv, hvs]
    rfl

theorem members_print : ∀ (key : List UInt8) (v : Value) (ms : List (List UInt8 × Value)) (fuel : Nat)
    (rest : List UInt8), (printMembers ((key, v) :: ms)).length ≤ fuel →
      members fuel (printMembers ((key, v) :: ms) ++ rest) =
        some (Value.coerceMembers ((key, v) :: ms), rest)
  | key, v, ms, 0, rest, hfuel => by
    obtain ⟨cs, heq⟩ := printMembers_cons (key, v) ms
    rw [heq] at hfuel
    cases hfuel
  | key, v, [], fuel + 1, rest, hfuel => by
    simp only [printMembers, List.length_append, List.length_cons] at hfuel
    have hv := value_print v fuel (125 :: rest) (by omega) (ends_cons rfl)
    have hmember := members_last key hv
    rw [printMembers, List.append_assoc, List.cons_append, List.append_assoc, List.singleton_append,
      hmember]
    rfl
  | key, v, (key', w) :: ms, fuel + 1, rest, hfuel => by
    have heq : printMembers ((key, v) :: (key', w) :: ms) =
        quote key ++ 58 :: (print v ++ 44 :: printMembers ((key', w) :: ms)) := by
      simp [printMembers]
    rw [heq] at hfuel
    simp only [List.length_append, List.length_cons] at hfuel
    have hv := value_print v fuel (44 :: (printMembers ((key', w) :: ms) ++ rest)) (by omega)
      (ends_cons rfl)
    have hms := members_print key' w ms fuel rest (by omega)
    rw [heq, List.append_assoc, List.cons_append, List.append_assoc, List.cons_append,
      members_more key hv, hms]
    rfl

end

/-- What a decoder reads from the text of a value, with or without a line break behind it. -/
theorem decode_print (v : Value) (rest : List UInt8) (hrest : Ends rest) :
    decode (print v ++ rest) = some v.coerce := by
  rw [decode, value_print v _ rest (by simp only [List.length_append]; omega) hrest]
  rfl

theorem unmarshal_print (v : Value) : unmarshal (print v) = some v.coerce := by
  have hv := value_print v ((print v).length + 1) [] (Nat.le_succ _) ends_nil
  rw [List.append_nil] at hv
  rw [unmarshal, hv]
  rfl

end Json

end Lib
