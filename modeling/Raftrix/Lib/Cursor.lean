import Mathlib.Data.List.TakeWhile
import Raftrix.Lib.Bucket

/-!
# Loops that delete along a cursor

`deleteWhile` is the loop `for p := start; p != nil && P(p); p = Next() { Delete(p) }`. The bucket
changes under the cursor, and `next` asks the changed one, from a key that is gone. It visits all the
same what stood there before the loop, up to the first key without `P`: `deleteWhile_first` for a loop
that starts at `First`, `deleteWhile_seekFirst` for one that starts at `Seek k`. As many rounds as
there are pairs are enough for both.
-/

namespace Lib

namespace Bucket

variable {κ ν : Type} [LinearOrder κ]

/-- The cursor's `First`. -/
def first (b : Bucket κ ν) : Option (κ × ν) := b.pairs.head?

/-- The cursor's `Seek`: the first pair at or above `k`. -/
def seekFirst (b : Bucket κ ν) (k : κ) : Option (κ × ν) := b.pairs.find? fun p => k ≤ p.1

/-- The cursor's `Next` on the key `k`: the first pair above `k`. -/
def next (b : Bucket κ ν) (k : κ) : Option (κ × ν) := b.pairs.find? fun p => k < p.1

/-- The loop, for at most so many rounds: the pairs deleted, in order, and the bucket left. -/
def deleteWhile (P : κ → Bool) : Nat → Bucket κ ν → Option (κ × ν) → List (κ × ν) × Bucket κ ν
  | 0, b, _ => ([], b)
  | _ + 1, b, none => ([], b)
  | n + 1, b, some p =>
    if P p.1 then
      let rest := deleteWhile P n (b.delete p.1) ((b.delete p.1).next p.1)
      (p :: rest.1, rest.2)
    else ([], b)

variable {P : κ → Bool} {b : Bucket κ ν} {before rest : List (κ × ν)} {p : κ × ν}

theorem pairs_delete (h : b.pairs = before ++ p :: rest) : (b.delete p.1).pairs = before ++ rest := by
  obtain ⟨-, hrest, hbefore⟩ := List.pairwise_append.mp (h ▸ b.sorted)
  have hlt : ∀ q ∈ before, q.1 ≠ p.1 := fun q hq => ne_of_lt (hbefore q hq p List.mem_cons_self)
  have hgt : ∀ q ∈ rest, q.1 ≠ p.1 := fun q hq => ne_of_gt ((List.pairwise_cons.mp hrest).1 q hq)
  change b.pairs.filter (fun q => q.1 ≠ p.1) = before ++ rest
  rw [h, List.filter_append, List.filter_cons_of_neg (by simp),
    List.filter_eq_self.mpr (by simpa using hlt), List.filter_eq_self.mpr (by simpa using hgt)]

/-- After the pair under the cursor is deleted, `Next` finds the one that came after it. -/
theorem next_delete (h : b.pairs = before ++ p :: rest) : (b.delete p.1).next p.1 = rest.head? := by
  obtain ⟨-, hrest, hbefore⟩ := List.pairwise_append.mp (h ▸ b.sorted)
  have hnone : before.find? (fun q => p.1 < q.1) = none :=
    List.find?_eq_none.mpr fun q hq => by simpa using le_of_lt (hbefore q hq p List.mem_cons_self)
  rw [next, pairs_delete h, List.find?_append, hnone, Option.none_or]
  cases rest with
  | nil => rfl
  | cons q rest =>
    have hq : p.1 < q.1 := (List.pairwise_cons.mp hrest).1 q List.mem_cons_self
    exact List.find?_cons_of_pos (by simpa using hq)

/-- **The loop deletes what stands from the cursor on, up to the first key without `P`.** -/
theorem deleteWhile_of_split {n : Nat} (h : b.pairs = before ++ rest) (hn : rest.length ≤ n) :
    deleteWhile P n b rest.head? =
      (rest.takeWhile fun p => P p.1, b.deleteAll (rest.takeWhile fun p => P p.1)) := by
  -- round by round: what is before the cursor stays, so the bucket is again split there
  induction rest generalizing b n with
  | nil => cases n <;> rfl
  | cons p rest ih =>
    cases n with
    | zero => exact absurd hn (by simp)
    | succ n =>
      rw [List.head?_cons, deleteWhile, next_delete h,
        ih (pairs_delete h) (Nat.le_of_succ_le_succ hn), List.takeWhile_cons]
      cases P p.1 <;> rfl

theorem deleteWhile_first (P : κ → Bool) (b : Bucket κ ν) :
    deleteWhile P b.pairs.length b b.first =
      (b.pairs.takeWhile fun p => P p.1, b.deleteAll (b.pairs.takeWhile fun p => P p.1)) :=
  deleteWhile_of_split (List.nil_append b.pairs).symm (Nat.le_refl _)

theorem deleteWhile_seekFirst (P : κ → Bool) (b : Bucket κ ν) (k : κ) :
    deleteWhile P b.pairs.length b (b.seekFirst k) =
      ((b.seek k).takeWhile fun p => P p.1, b.deleteAll ((b.seek k).takeWhile fun p => P p.1)) := by
  have hfirst : b.seekFirst k = (b.seek k).head? := by
    simp only [seekFirst, seek, List.find?_eq_head?_dropWhile_not, ← decide_not, not_le]
  have hsplit : b.pairs = b.pairs.takeWhile (fun p => p.1 < k) ++ b.seek k :=
    (List.takeWhile_append_dropWhile).symm
  rw [hfirst]
  exact deleteWhile_of_split hsplit (List.dropWhile_sublist _).length_le

end Bucket

end Lib
