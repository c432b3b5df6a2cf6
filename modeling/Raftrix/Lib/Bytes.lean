import Mathlib.Data.List.Lex
import Mathlib.Order.Defs.LinearOrder

/-!
# Byte strings: their order, and their JSON text

Bytes are ordered as numbers, so byte strings are ordered lexicographically.

A JSON encoder writes a byte string as text: every byte that does not start a well-formed UTF-8
sequence is replaced by U+FFFD, and well-formed sequences are kept. `coerceUtf8` is what comes
back after encoding and decoding. It is idempotent (`coerceUtf8_idem`): a second encoding changes
nothing, since the replacement character is itself well-formed.
-/

namespace Lib

/-- Bytes in numeric order. -/
instance linearOrderUInt8 : LinearOrder UInt8 where
  le_refl := UInt8.le_refl
  le_trans := fun _ _ _ => UInt8.le_trans
  le_antisymm := fun _ _ => UInt8.le_antisymm
  le_total := UInt8.le_total
  lt_iff_le_not_ge := fun a b => by
    rw [UInt8.not_le]
    exact ⟨fun h => ⟨UInt8.le_of_lt h, h⟩, fun h => h.2⟩
  toDecidableLE := inferInstance
  toDecidableLT := inferInstance
  toDecidableEq := inferInstance

namespace Utf8

/-- Between two bounds, inclusive. -/
def between (lo hi b : UInt8) : Bool := decide (lo ≤ b) && decide (b ≤ hi)

/-- A continuation byte. -/
def cont (b : UInt8) : Bool := between 0x80 0xBF b

/-- The bounds on the second byte of a three-byte sequence starting with `a`. -/
def second3 (a b : UInt8) : Bool :=
  if a = 0xE0 then between 0xA0 0xBF b
  else if a = 0xED then between 0x80 0x9F b
  else cont b

/-- The bounds on the second byte of a four-byte sequence starting with `a`. -/
def second4 (a b : UInt8) : Bool :=
  if a = 0xF0 then between 0x90 0xBF b
  else if a = 0xF4 then between 0x80 0x8F b
  else cont b

/-- The number of continuation bytes of the well-formed sequence at the head of the string, or
`none` when the head byte starts none. -/
def tailLen : List UInt8 → Option Nat
  | [] => none
  | a :: rest =>
    if a < 0x80 then some 0
    else if between 0xC2 0xDF a then
      match rest with
      | b :: _ => if cont b then some 1 else none
      | _ => none
    else if between 0xE0 0xEF a then
      match rest with
      | b :: c :: _ => if second3 a b && cont c then some 2 else none
      | _ => none
    else if between 0xF0 0xF4 a then
      match rest with
      | b :: c :: d :: _ => if second4 a b && cont c && cont d then some 3 else none
      | _ => none
    else none

/-- Copy `skip` bytes, then replace every byte that starts no well-formed sequence. -/
def coerceFrom : Nat → List UInt8 → List UInt8
  | _, [] => []
  | skip + 1, b :: rest => b :: coerceFrom skip rest
  | 0, b :: rest =>
    match tailLen (b :: rest) with
    | some n => b :: coerceFrom n rest
    | none => 0xEF :: 0xBF :: 0xBD :: coerceFrom 0 rest

/-- The string a JSON encoding and decoding gives back. -/
def coerceUtf8 (s : List UInt8) : List UInt8 := coerceFrom 0 s

/-- The head sequence is recognised again in the rewritten string. -/
theorem tailLen_coerceFrom {b : UInt8} {rest : List UInt8} {n : Nat}
    (h : tailLen (b :: rest) = some n) : tailLen (b :: coerceFrom n rest) = some n := by
  simp only [tailLen] at h ⊢
  split at h
  · rename_i hb
    rw [if_pos hb]
    exact h
  · rename_i hb
    rw [if_neg hb]
    split at h
    · rename_i h2
      rw [if_pos h2]
      split at h
      · rename_i c tl
        split at h
        · rename_i hc
          cases h
          simp [coerceFrom, hc]
        · cases h
      · cases h
    · rename_i h2
      rw [if_neg h2]
      split at h
      · rename_i h3
        rw [if_pos h3]
        split at h
        · rename_i c d tl
          split at h
          · rename_i hc
            cases h
            simp only [coerceFrom, hc, if_true]
          · cases h
        · cases h
      · rename_i h3
        rw [if_neg h3]
        split at h
        · rename_i h4
          rw [if_pos h4]
          split at h
          · rename_i c d e tl
            split at h
            · rename_i hc
              cases h
              simp only [coerceFrom, hc, if_true]
            · cases h
          · cases h
        · cases h

theorem coerceFrom_idem (n : Nat) (s : List UInt8) :
    coerceFrom n (coerceFrom n s) = coerceFrom n s := by
  fun_induction coerceFrom n s with
  | case1 => simp [coerceFrom]
  | case2 b rest skip ih => simp only [coerceFrom, ih]
  | case3 b rest n h ih =>
    simp only [coerceFrom, tailLen_coerceFrom h, ih]
  | case4 b rest h ih =>
    have hrep : ∀ l : List UInt8, tailLen (0xEF :: 0xBF :: 0xBD :: l) = some 2 := fun _ => rfl
    simp only [coerceFrom, hrep, ih]

/-- **Encoding twice is encoding once.** -/
theorem coerceUtf8_idem (s : List UInt8) : coerceUtf8 (coerceUtf8 s) = coerceUtf8 s :=
  coerceFrom_idem 0 s

/-- A stray continuation byte is replaced, a two-byte sequence is kept. -/
example : coerceUtf8 [0x61, 0x80, 0xC3, 0xA9] = [0x61, 0xEF, 0xBF, 0xBD, 0xC3, 0xA9] := by decide

end Utf8

end Lib
