import Raftrix.Lib.Bucket

/-!
# Buckets with encoded keys

A `KeyCode` encodes keys of one ordered type in another, in their order. `Codes` relates a bucket to
the one that keeps the same values under the encoded keys. Every bucket operation respects it:
`Codes.put`, `Codes.last`, `Codes.deleteAll_seek`, `Codes.deleteAll_upTo`. So a program that stores
encoded keys may be read as one that stores the keys themselves.
-/

namespace Lib

/-- An encoding of the valid keys that keeps their order. -/
structure KeyCode (κ κ' : Type) [LinearOrder κ] [LinearOrder κ'] where
  encode : κ → κ'
  valid : κ → Prop
  lt_iff : ∀ {x y : κ}, valid x → valid y → (encode x < encode y ↔ x < y)

namespace KeyCode

variable {κ κ' ν : Type} [LinearOrder κ] [LinearOrder κ'] {C : KeyCode κ κ'} {x y k : κ}

theorem le_iff (hx : C.valid x) (hy : C.valid y) : C.encode x ≤ C.encode y ↔ x ≤ y := by
  rw [← not_lt, C.lt_iff hy hx, not_lt]

theorem encode_inj (hx : C.valid x) (hy : C.valid y) : C.encode x = C.encode y ↔ x = y := by
  refine ⟨fun h => le_antisymm ?_ ?_, congrArg C.encode⟩
  · exact (C.le_iff hx hy).mp (le_of_eq h)
  · exact (C.le_iff hy hx).mp (le_of_eq h.symm)

variable (C) in
/-- `c` keeps the values of `b` under the encoded keys. -/
structure Codes (b : Bucket κ ν) (c : Bucket κ' ν) : Prop where
  get : ∀ k, C.valid k → c.get (C.encode k) = b.get k
  keys : ∀ k v, b.get k = some v → C.valid k
  onto : ∀ q v, c.get q = some v → ∃ k, C.valid k ∧ C.encode k = q

namespace Codes

variable {b : Bucket κ ν} {c : Bucket κ' ν} {v : ν}

theorem empty : C.Codes (.empty : Bucket κ ν) .empty where
  get _ _ := rfl
  keys k v h := by simp at h
  onto q v h := by simp at h

theorem put (h : C.Codes b c) (hk : C.valid k) : C.Codes (b.put k v) (c.put (C.encode k) v) where
  get q hq := by
    rw [Bucket.get_put, Bucket.get_put, h.get q hq]
    simp only [C.encode_inj hq hk]
  keys q w hw := by
    rw [Bucket.get_put] at hw
    split at hw
    · rename_i heq
      rw [heq]
      exact hk
    · exact h.keys q w hw
  onto q w hw := by
    rw [Bucket.get_put] at hw
    split at hw
    · rename_i heq
      exact ⟨k, hk, heq.symm⟩
    · exact h.onto q w hw

/-- Keeping part of both. -/
theorem filter (h : C.Codes b c) {b' : Bucket κ ν} {c' : Bucket κ' ν} {P : κ → Prop} {Q : κ' → Prop}
    [DecidablePred P] [DecidablePred Q] (hP : ∀ q, C.valid q → (Q (C.encode q) ↔ P q))
    (hb : ∀ q, b'.get q = if P q then b.get q else none)
    (hc : ∀ q, c'.get q = if Q q then c.get q else none) : C.Codes b' c' where
  get q hq := by
    rw [hb, hc, h.get q hq]
    simp only [hP q hq]
  keys q w hw := by
    rw [hb] at hw
    split at hw
    · exact h.keys q w hw
    · exact absurd hw (by simp)
  onto q w hw := by
    rw [hc] at hw
    split at hw
    · exact h.onto q w hw
    · exact absurd hw (by simp)

theorem deleteAll_seek (h : C.Codes b c) (hk : C.valid k) :
    C.Codes (b.deleteAll (b.seek k)) (c.deleteAll (c.seek (C.encode k))) :=
  h.filter (P := fun q => q < k) (Q := fun q => q < C.encode k) (fun _ hq => C.lt_iff hq hk)
    (b.get_deleteAll_seek k) (c.get_deleteAll_seek (C.encode k))

theorem deleteAll_upTo (h : C.Codes b c) (hk : C.valid k) :
    C.Codes (b.deleteAll (b.upTo k)) (c.deleteAll (c.upTo (C.encode k))) :=
  h.filter (P := fun q => k < q) (Q := fun q => C.encode k < q) (fun _ hq => C.lt_iff hk hq)
    (b.get_deleteAll_upTo k) (c.get_deleteAll_upTo (C.encode k))

/-- The last key is the encoding of the last key. -/
theorem last (h : C.Codes b c) : c.last = b.last.map fun p => (C.encode p.1, p.2) := by
  cases hb : b.last with
  | none =>
    rw [Option.map_none, Bucket.last_eq_none_iff]
    intro q
    by_contra hne
    obtain ⟨v, hv⟩ := Option.ne_none_iff_exists'.mp hne
    obtain ⟨k, hk, rfl⟩ := h.onto q v hv
    rw [h.get k hk, Bucket.last_eq_none_iff.mp hb] at hv
    exact absurd hv (by simp)
  | some p =>
    obtain ⟨hget, habove⟩ := Bucket.get_last hb
    have hp := h.keys _ _ hget
    cases hc : c.last with
    | none =>
      rw [← h.get _ hp, Bucket.last_eq_none_iff.mp hc] at hget
      exact absurd hget (by simp)
    | some q =>
      obtain ⟨hget', habove'⟩ := Bucket.get_last hc
      obtain ⟨k, hk, hkq⟩ := h.onto _ _ hget'
      rw [← hkq, h.get k hk] at hget'
      -- neither key is above the other
      have hkp : k = p.1 := by
        rcases lt_trichotomy k p.1 with hlt | heq | hgt
        · have := habove' (C.encode p.1) (by rw [← hkq]; exact (C.lt_iff hk hp).mpr hlt)
          rw [h.get _ hp, hget] at this
          exact absurd this (by simp)
        · exact heq
        · rw [habove k hgt] at hget'
          exact absurd hget' (by simp)
      rw [hkp, hget] at hget'
      rw [Option.map_some, ← hkp, hkq, Option.some.inj hget']

end Codes

end KeyCode

end Lib
