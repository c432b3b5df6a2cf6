import Raftrix.Lib.Bytes

/-!
# Base64

The standard alphabet with padding (RFC 4648). `encode` writes every three bytes as four characters and
pads the last group; `decode` passes over line breaks, and the bits that padding leaves over are not
looked at. `decode` inverts `encode` (**`decode_encode`**). The characters are ASCII (`encode_ascii`).

A group is worked on as one number below `2^24`: its six-bit digits are the characters (`sextet`), its
eight-bit digits the bytes (`octet`).
-/

namespace Lib

namespace Base64

/-- The character of a six-bit digit. -/
def char (n : Nat) : UInt8 :=
  if n < 26 then UInt8.ofNat (65 + n)
  else if n < 52 then UInt8.ofNat (71 + n)
  else if n < 62 then UInt8.ofNat (n - 4)
  else if n = 62 then 43
  else 47

/-- The digit of a character. -/
def value (c : UInt8) : Option Nat :=
  if 65 ≤ c ∧ c ≤ 90 then some (c.toNat - 65)
  else if 97 ≤ c ∧ c ≤ 122 then some (c.toNat - 71)
  else if 48 ≤ c ∧ c ≤ 57 then some (c.toNat + 4)
  else if c = 43 then some 62
  else if c = 47 then some 63
  else none

/-- The padding character. -/
def pad : UInt8 := 61

/-- The six-bit digit of a group at the place `d`, as a character. -/
def sextet (n d : Nat) : UInt8 := char (n / d % 64)

/-- The byte of a group at the place `d`. -/
def octet (n d : Nat) : UInt8 := UInt8.ofNat (n / d % 256)

def encode : List UInt8 → List UInt8
  | [] => []
  | [a] =>
    let n := a.toNat * 65536
    [sextet n 262144, sextet n 4096, pad, pad]
  | [a, b] =>
    let n := a.toNat * 65536 + b.toNat * 256
    [sextet n 262144, sextet n 4096, sextet n 64, pad]
  | a :: b :: c :: rest =>
    let n := a.toNat * 65536 + b.toNat * 256 + c.toNat
    sextet n 262144 :: sextet n 4096 :: sextet n 64 :: sextet n 1 :: encode rest

/-- Decode groups of four characters, the last one perhaps padded. -/
def decodeGroups : List UInt8 → Option (List UInt8)
  | [] => some []
  | w :: x :: y :: z :: rest => do
    let p ← value w
    let q ← value x
    if z = pad then
      if rest ≠ [] then none
      else if y = pad then
        let n := p * 262144 + q * 4096
        some [octet n 65536]
      else
        let r ← value y
        let n := p * 262144 + q * 4096 + r * 64
        some [octet n 65536, octet n 256]
    else
      let r ← value y
      let s ← value z
      let n := p * 262144 + q * 4096 + r * 64 + s
      let bytes ← decodeGroups rest
      some (octet n 65536 :: octet n 256 :: octet n 1 :: bytes)
  | _ => none

/-- A character that is no line break. -/
def kept (c : UInt8) : Bool := c != 10 && c != 13

def decode (text : List UInt8) : Option (List UInt8) := decodeGroups (text.filter kept)

/-! ## The digits -/

theorem value_char_lt : ∀ n < 64, value (char n) = some n := by decide

theorem kept_char_lt : ∀ n < 64, kept (char n) = true := by decide

theorem char_ne_pad_lt : ∀ n < 64, char n ≠ pad := by decide

theorem char_ascii_lt : ∀ n < 64, char n < 0x80 := by decide

@[simp] theorem value_sextet (n d : Nat) : value (sextet n d) = some (n / d % 64) :=
  value_char_lt _ (Nat.mod_lt _ (by decide))

@[simp] theorem kept_sextet (n d : Nat) : kept (sextet n d) = true :=
  kept_char_lt _ (Nat.mod_lt _ (by decide))

@[simp] theorem sextet_ne_pad (n d : Nat) : sextet n d ≠ pad :=
  char_ne_pad_lt _ (Nat.mod_lt _ (by decide))

theorem sextet_ascii (n d : Nat) : sextet n d < 0x80 :=
  char_ascii_lt _ (Nat.mod_lt _ (by decide))

/-- The digits of a group make the group. -/
theorem digits_eq {n : Nat} (hn : n < 16777216) :
    n / 262144 % 64 * 262144 + n / 4096 % 64 * 4096 + n / 64 % 64 * 64 + n / 1 % 64 = n := by
  omega

/-- The bytes of a group are those it was made of. -/
theorem octet_group (a b c : UInt8) :
    octet (a.toNat * 65536 + b.toNat * 256 + c.toNat) 65536 = a ∧
      octet (a.toNat * 65536 + b.toNat * 256 + c.toNat) 256 = b ∧
      octet (a.toNat * 65536 + b.toNat * 256 + c.toNat) 1 = c := by
  have ha := a.toNat_lt
  have hb := b.toNat_lt
  have hc := c.toNat_lt
  unfold octet
  refine ⟨?_, ?_, ?_⟩
  · rw [show (a.toNat * 65536 + b.toNat * 256 + c.toNat) / 65536 % 256 = a.toNat by omega,
      UInt8.ofNat_toNat]
  · rw [show (a.toNat * 65536 + b.toNat * 256 + c.toNat) / 256 % 256 = b.toNat by omega,
      UInt8.ofNat_toNat]
  · rw [show (a.toNat * 65536 + b.toNat * 256 + c.toNat) / 1 % 256 = c.toNat by omega,
      UInt8.ofNat_toNat]

/-! ## The round trip -/

/-- `encode` writes no line breaks. -/
theorem filter_encode (bytes : List UInt8) : (encode bytes).filter kept = encode bytes := by
  have hpad : kept pad = true := rfl
  fun_induction encode bytes with
  | case1 => rfl
  | case2 a n => simp [hpad]
  | case3 a b n => simp [hpad]
  | case4 a b c rest n ih => simp [ih]

theorem decodeGroups_encode (bytes : List UInt8) : decodeGroups (encode bytes) = some bytes := by
  fun_induction encode bytes with
  | case1 => rfl
  | case2 a n =>
    have hgroup := (octet_group a 0 0).1
    have hdigits : n / 262144 % 64 * 262144 + n / 4096 % 64 * 4096 = n := by
      have ha := a.toNat_lt
      omega
    have h2 : octet n 65536 = a := by simpa [n] using hgroup
    simp only [decodeGroups, value_sextet, Option.bind_eq_bind, Option.bind_some, hdigits, h2]
    rfl
  | case3 a b n =>
    have hgroup := octet_group a b 0
    have hdigits : n / 262144 % 64 * 262144 + n / 4096 % 64 * 4096 + n / 64 % 64 * 64 = n := by
      have ha := a.toNat_lt
      have hb := b.toNat_lt
      omega
    have h2 : octet n 65536 = a := by simpa [n] using hgroup.1
    have h1 : octet n 256 = b := by simpa [n] using hgroup.2.1
    simp only [decodeGroups, value_sextet, Option.bind_eq_bind, Option.bind_some, hdigits, h2, h1,
      if_neg (sextet_ne_pad _ _)]
    rfl
  | case4 a b c rest n ih =>
    obtain ⟨h2, h1, h0⟩ := octet_group a b c
    have hlt : n < 16777216 := by
      have ha := a.toNat_lt
      have hb := b.toNat_lt
      have hc := c.toNat_lt
      omega
    simp only [decodeGroups, value_sextet, Option.bind_eq_bind, Option.bind_some, digits_eq hlt, ih,
      if_neg (sextet_ne_pad _ _)]
    simp only [n, h2, h1, h0]

/-- **`decode` inverts `encode`.** -/
theorem decode_encode (bytes : List UInt8) : decode (encode bytes) = some bytes := by
  rw [decode, filter_encode, decodeGroups_encode]

/-- The text is ASCII. -/
theorem encode_ascii (bytes : List UInt8) : ∀ c ∈ encode bytes, c < 0x80 := by
  have hpad : pad < 0x80 := by decide
  fun_induction encode bytes with
  | case1 => simp
  | case2 a n => simp [sextet_ascii, hpad]
  | case3 a b n => simp [sextet_ascii, hpad]
  | case4 a b c rest n ih => simpa [sextet_ascii] using ih

/-- The empty string, one byte with two paddings, three bytes. -/
example : encode [] = [] ∧ encode [0xFF] = [47, 119, pad, pad] ∧ encode [1, 2, 3] = [65, 81, 73, 68] := by
  decide

end Base64

end Lib
