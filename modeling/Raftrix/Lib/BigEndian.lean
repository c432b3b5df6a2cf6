import Mathlib.Algebra.Ring.Nat
import Raftrix.Lib.Bytes

/-!
# Big-endian integers

`encode w n` is the natural number `n` in `w` bytes, the most significant first, and `decode` reads it
back (`decode_encode`); every string of `w` bytes is the encoding of a number (`encode_decode`). The
byte strings of one length are ordered as the numbers are (**`encode_lt_encode_iff`**), which is why
an ordered store sorts such keys numerically.
-/

namespace Lib

namespace BigEndian

/-- `n` in `w` bytes; what does not fit is cut off. -/
def encode : Nat → Nat → List UInt8
  | 0, _ => []
  | w + 1, n => UInt8.ofNat (n / 256 ^ w) :: encode w (n % 256 ^ w)

/-- The number a byte string stands for. -/
def decode : List UInt8 → Nat
  | [] => 0
  | b :: bs => b.toNat * 256 ^ bs.length + decode bs

@[simp] theorem length_encode (w n : Nat) : (encode w n).length = w := by
  induction w generalizing n with
  | zero => rfl
  | succ w ih => simp [encode, ih]

variable {w n m k : Nat}

/-- Cutting off higher bytes leaves the byte of weight `256 ^ k`. -/
theorem ofNat_mod_div (n : Nat) (h : k < w) :
    UInt8.ofNat (n % 256 ^ w / 256 ^ k) = UInt8.ofNat (n / 256 ^ k) := by
  obtain ⟨j, rfl⟩ : ∃ j, w = k + (j + 1) := ⟨w - k - 1, by omega⟩
  have hdvd : 256 ∣ 256 ^ (j + 1) := ⟨256 ^ j, by rw [Nat.pow_succ, Nat.mul_comm]⟩
  rw [Nat.pow_add, Nat.mod_mul_right_div_self, ← UInt8.toNat_inj, UInt8.toNat_ofNat',
    UInt8.toNat_ofNat']
  exact Nat.mod_mod_of_dvd _ hdvd

/-- One byte for each weight, the highest first. -/
theorem encode_eq_map (w n : Nat) :
    encode w n = (List.range w).reverse.map fun k => UInt8.ofNat (n / 256 ^ k) := by
  induction w generalizing n with
  | zero => rfl
  | succ w ih =>
    rw [encode, ih, List.range_succ, List.reverse_append, List.reverse_singleton,
      List.singleton_append, List.map_cons]
    refine congrArg _ (List.map_congr_left fun k hk => ?_)
    exact ofNat_mod_div n (by simpa using hk)

/-- The first byte of a number that fits. -/
theorem toNat_ofNat_div (h : n < 256 ^ (w + 1)) : (UInt8.ofNat (n / 256 ^ w)).toNat = n / 256 ^ w := by
  have hlt : n / 256 ^ w < 256 := Nat.div_lt_of_lt_mul (by rw [← Nat.pow_succ]; exact h)
  exact UInt8.toNat_ofNat_of_lt' hlt

/-- **A number that fits is read back.** -/
theorem decode_encode (h : n < 256 ^ w) : decode (encode w n) = n := by
  induction w generalizing n with
  | zero => simp_all [encode, decode]
  | succ w ih =>
    rw [encode, decode, toNat_ofNat_div h, length_encode, ih (Nat.mod_lt _ (Nat.pow_pos (by decide))),
      Nat.mul_comm]
    exact Nat.div_add_mod n (256 ^ w)

/-- A string of `w` bytes stands for a number below `256 ^ w`. -/
theorem decode_lt (bs : List UInt8) : decode bs < 256 ^ bs.length := by
  induction bs with
  | nil => exact Nat.one_pos
  | cons b bs ih =>
    have hb : b.toNat + 1 ≤ 256 := b.toNat_lt
    calc b.toNat * 256 ^ bs.length + decode bs
        < b.toNat * 256 ^ bs.length + 256 ^ bs.length := Nat.add_lt_add_left ih _
      _ = (b.toNat + 1) * 256 ^ bs.length := (Nat.succ_mul _ _).symm
      _ ≤ 256 * 256 ^ bs.length := Nat.mul_le_mul_right _ hb
      _ = 256 ^ (b :: bs).length := by rw [List.length_cons, Nat.pow_succ, Nat.mul_comm]

/-- **Every byte string is the encoding of its number.** -/
theorem encode_decode (bs : List UInt8) : encode bs.length (decode bs) = bs := by
  induction bs with
  | nil => rfl
  | cons b bs ih =>
    have hlt := decode_lt bs
    have hdiv : (b.toNat * 256 ^ bs.length + decode bs) / 256 ^ bs.length = b.toNat := by
      rw [Nat.mul_comm, Nat.mul_add_div (Nat.pow_pos (by decide)), Nat.div_eq_of_lt hlt, Nat.add_zero]
    have hmod : (b.toNat * 256 ^ bs.length + decode bs) % 256 ^ bs.length = decode bs := by
      rw [Nat.mul_comm, Nat.mul_add_mod, Nat.mod_eq_of_lt hlt]
    rw [List.length_cons, decode, encode, hdiv, hmod, ih, UInt8.ofNat_toNat]

/-- A larger number has a larger encoding. -/
theorem encode_lt_encode (hlt : n < m) (hm : m < 256 ^ w) : encode w n < encode w m := by
  induction w generalizing n m with
  | zero => simp_all
  | succ w ih =>
    have hpos : 0 < 256 ^ w := Nat.pow_pos (by decide)
    rcases Nat.lt_or_eq_of_le (Nat.div_le_div_right (c := 256 ^ w) (Nat.le_of_lt hlt)) with hdiv | hdiv
    · refine List.Lex.rel ?_
      rw [UInt8.lt_iff_toNat_lt, toNat_ofNat_div (hlt.trans hm), toNat_ofNat_div hm]
      exact hdiv
    · rw [encode, encode, hdiv]
      refine List.Lex.cons (ih ?_ (Nat.mod_lt _ hpos))
      have hn := Nat.div_add_mod n (256 ^ w)
      have hm' := Nat.div_add_mod m (256 ^ w)
      rw [hdiv] at hn
      omega

/-- **Encodings are ordered as the numbers are.** -/
theorem encode_lt_encode_iff (hn : n < 256 ^ w) (hm : m < 256 ^ w) :
    encode w n < encode w m ↔ n < m := by
  refine ⟨fun h => ?_, fun h => encode_lt_encode h hm⟩
  by_contra hge
  rcases Nat.lt_or_eq_of_le (Nat.not_lt.mp hge) with hlt | rfl
  · exact lt_asymm h (encode_lt_encode hlt hn)
  · exact lt_irrefl _ h

/-- Strings of one length are ordered as the numbers they stand for. -/
theorem decode_lt_decode_iff {as bs : List UInt8} (h : as.length = bs.length) :
    decode as < decode bs ↔ as < bs := by
  have has : decode as < 256 ^ bs.length := h ▸ decode_lt as
  have hencode : encode bs.length (decode as) = as := h ▸ encode_decode as
  rw [← encode_lt_encode_iff has (decode_lt bs), hencode, encode_decode]

end BigEndian

end Lib
