import Mathlib.Data.List.Basic
import Mathlib.Data.List.Induction
import Mathlib.Data.Nat.Notation
import Mathlib.Order.Lattice

/-!
# Ordered buckets

A transactional ordered map as an embedded B-tree store offers it: `put`, `get`, `delete`, and a
cursor that can jump to the last key (`last`) or to the first key at or above a given one (`seek`)
and walk upwards from there. The bucket is the list of its pairs, strictly ascending in the key,
and carries the proof of that, so a cursor walk is a walk along the list.

`get` determines the bucket (`ext_get`), so every operation is specified by what `get` answers
afterwards: `get_put`, `get_delete`, `get_deleteAll`, `get_last`, `mem_seek`.
-/

namespace Lib

/-- An ordered map: key-value pairs, strictly ascending in the key. -/
structure Bucket (κ ν : Type) [LinearOrder κ] where
  pairs : List (κ × ν)
  sorted : pairs.Pairwise (fun a b => a.1 < b.1)

namespace Bucket

variable {κ ν : Type} [LinearOrder κ]

instance [DecidableEq ν] : DecidableEq (Bucket κ ν) := fun a b =>
  decidable_of_iff (a.pairs = b.pairs)
    ⟨fun h => by cases a; cases b; cases h; rfl, congrArg Bucket.pairs⟩

/-- The bucket without pairs. -/
def empty : Bucket κ ν := ⟨[], List.Pairwise.nil⟩

/-- The value stored under `k`. -/
def get (b : Bucket κ ν) (k : κ) : Option ν := (b.pairs.find? fun p => p.1 = k).map Prod.snd

/-- Insert or replace the pair of `k`, keeping the order. -/
def insertPair (k : κ) (v : ν) : List (κ × ν) → List (κ × ν)
  | [] => [(k, v)]
  | p :: rest =>
    if k < p.1 then (k, v) :: p :: rest
    else if k = p.1 then (k, v) :: rest
    else p :: insertPair k v rest

theorem mem_insertPair {k : κ} {v : ν} {l : List (κ × ν)} {p : κ × ν}
    (h : p ∈ insertPair k v l) : p = (k, v) ∨ p ∈ l := by
  induction l with
  | nil => exact Or.inl (List.mem_singleton.mp h)
  | cons q rest ih =>
    simp only [insertPair] at h
    split at h
    · rcases List.mem_cons.mp h with h | h
      · exact Or.inl h
      · exact Or.inr h
    · split at h
      · rcases List.mem_cons.mp h with h | h
        · exact Or.inl h
        · exact Or.inr (List.mem_cons_of_mem _ h)
      · rcases List.mem_cons.mp h with rfl | h
        · exact Or.inr List.mem_cons_self
        · exact (ih h).imp id (List.mem_cons_of_mem _)

theorem sorted_insertPair (k : κ) (v : ν) {l : List (κ × ν)}
    (hl : l.Pairwise fun a b => a.1 < b.1) :
    (insertPair k v l).Pairwise fun a b => a.1 < b.1 := by
  induction l with
  | nil => exact List.pairwise_singleton _ _
  | cons q rest ih =>
    obtain ⟨hq, hrest⟩ := List.pairwise_cons.mp hl
    simp only [insertPair]
    split
    · rename_i hk
      refine List.pairwise_cons.mpr ⟨fun p hp => ?_, hl⟩
      rcases List.mem_cons.mp hp with rfl | hp
      · exact hk
      · exact lt_trans hk (hq p hp)
    · rename_i hk
      split
      · rename_i hk'
        exact List.pairwise_cons.mpr ⟨fun p hp => hk' ▸ hq p hp, hrest⟩
      · rename_i hk'
        refine List.pairwise_cons.mpr ⟨fun p hp => ?_, ih hrest⟩
        rcases mem_insertPair hp with rfl | hp
        · exact lt_of_le_of_ne (not_lt.mp hk) (Ne.symm hk')
        · exact hq p hp

/-- Store `v` under `k`, replacing what was there. -/
def put (b : Bucket κ ν) (k : κ) (v : ν) : Bucket κ ν :=
  ⟨insertPair k v b.pairs, sorted_insertPair k v b.sorted⟩

/-- Remove `k`; nothing happens when it is absent. -/
def delete (b : Bucket κ ν) (k : κ) : Bucket κ ν :=
  ⟨b.pairs.filter fun p => p.1 ≠ k, b.sorted.filter _⟩

/-- Delete the keys of a cursor walk one after the other. -/
def deleteAll (b : Bucket κ ν) (walk : List (κ × ν)) : Bucket κ ν :=
  walk.foldl (fun b p => b.delete p.1) b

/-- The cursor's `Last`. -/
def last (b : Bucket κ ν) : Option (κ × ν) := b.pairs.getLast?

/-- What a cursor visits from `Seek k` on. -/
def seek (b : Bucket κ ν) (k : κ) : List (κ × ν) := b.pairs.dropWhile fun p => p.1 < k

/-- What a cursor visits from `First` until the first key beyond `k`. -/
def upTo (b : Bucket κ ν) (k : κ) : List (κ × ν) := b.pairs.takeWhile fun p => p.1 ≤ k

/-! ## `get` -/

@[simp] theorem get_empty (k : κ) : (empty : Bucket κ ν).get k = none := rfl

theorem find_eq_some_iff {l : List (κ × ν)} (hl : l.Pairwise fun a b => a.1 < b.1) {k : κ}
    {p : κ × ν} : l.find? (fun p => p.1 = k) = some p ↔ p ∈ l ∧ p.1 = k := by
  constructor
  · intro h
    exact ⟨List.mem_of_find?_eq_some h, by simpa using List.find?_some h⟩
  · rintro ⟨hp, hk⟩
    induction l with
    | nil => exact absurd hp List.not_mem_nil
    | cons q rest ih =>
      obtain ⟨hq, hrest⟩ := List.pairwise_cons.mp hl
      rcases List.mem_cons.mp hp with rfl | hp
      · simp [hk]
      · have hne : q.1 ≠ k := fun e => absurd (hq p hp) (by rw [hk, e]; exact lt_irrefl k)
        rw [List.find?_cons_of_neg (by simpa using hne)]
        exact ih hrest hp

theorem get_eq_some_iff {b : Bucket κ ν} {k : κ} {v : ν} :
    b.get k = some v ↔ (k, v) ∈ b.pairs := by
  unfold get
  rw [Option.map_eq_some_iff]
  constructor
  · rintro ⟨⟨k', v'⟩, h, rfl⟩
    obtain ⟨hm, rfl⟩ := (find_eq_some_iff b.sorted).mp h
    exact hm
  · intro h
    exact ⟨(k, v), (find_eq_some_iff b.sorted).mpr ⟨h, rfl⟩, rfl⟩

theorem get_eq_none_iff {b : Bucket κ ν} {k : κ} :
    b.get k = none ↔ ∀ p ∈ b.pairs, p.1 ≠ k := by
  rw [Option.eq_none_iff_forall_ne_some]
  constructor
  · rintro h ⟨k', v⟩ hp rfl
    exact h v (get_eq_some_iff.mpr hp)
  · intro h v hv
    exact h _ (get_eq_some_iff.mp hv) rfl

/-- A bucket is determined by the answers of `get`. -/
theorem ext_get {a b : Bucket κ ν} (h : ∀ k, a.get k = b.get k) : a = b := by
  have hmem : ∀ p, p ∈ a.pairs ↔ p ∈ b.pairs := fun p => by
    rw [← get_eq_some_iff (k := p.1) (v := p.2), h, get_eq_some_iff]
  have hpairs : a.pairs = b.pairs :=
    List.Perm.eq_of_pairwise (fun x y _ _ hxy hyx => absurd (lt_trans hxy hyx) (lt_irrefl _))
      a.sorted b.sorted
      ((List.perm_ext_iff_of_nodup (a.sorted.imp fun hlt e => absurd (e ▸ hlt) (lt_irrefl _))
        (b.sorted.imp fun hlt e => absurd (e ▸ hlt) (lt_irrefl _))).mpr hmem)
  cases a
  cases b
  cases hpairs
  rfl

/-! ## `put` and `delete` -/

theorem mem_insertPair_iff {k : κ} {v : ν} {l : List (κ × ν)}
    (hl : l.Pairwise fun a b => a.1 < b.1) {p : κ × ν} :
    p ∈ insertPair k v l ↔ p = (k, v) ∨ (p ∈ l ∧ p.1 ≠ k) := by
  induction l with
  | nil => simp [insertPair]
  | cons q rest ih =>
    obtain ⟨hq, hrest⟩ := List.pairwise_cons.mp hl
    simp only [insertPair]
    split
    · rename_i hk
      have habove : ∀ p ∈ q :: rest, p.1 ≠ k := fun p hp e => by
        rcases List.mem_cons.mp hp with rfl | hp
        · exact absurd hk (by rw [e]; exact lt_irrefl k)
        · exact absurd (lt_trans hk (hq p hp)) (by rw [e]; exact lt_irrefl k)
      rw [List.mem_cons]
      exact or_congr_right ⟨fun hp => ⟨hp, habove p hp⟩, fun hp => hp.1⟩
    · split
      · rename_i hk
        have habove : ∀ p ∈ rest, p.1 ≠ k := fun p hp e =>
          absurd (hq p hp) (by rw [e, hk]; exact lt_irrefl _)
        rw [List.mem_cons, List.mem_cons]
        refine or_congr_right ⟨fun hp => ⟨Or.inr hp, habove p hp⟩, ?_⟩
        rintro ⟨rfl | hp, hne⟩
        · exact absurd hk.symm hne
        · exact hp
      · rename_i hk
        rw [List.mem_cons, List.mem_cons, ih hrest]
        constructor
        · rintro (rfl | rfl | ⟨hp, hne⟩)
          · exact Or.inr ⟨Or.inl rfl, Ne.symm hk⟩
          · exact Or.inl rfl
          · exact Or.inr ⟨Or.inr hp, hne⟩
        · rintro (rfl | ⟨rfl | hp, hne⟩)
          · exact Or.inr (Or.inl rfl)
          · exact Or.inl rfl
          · exact Or.inr (Or.inr ⟨hp, hne⟩)

/-- **Reading after a `put`.** -/
theorem get_put (b : Bucket κ ν) (k : κ) (v : ν) (q : κ) :
    (b.put k v).get q = if q = k then some v else b.get q := by
  ext w
  rw [get_eq_some_iff, put, mem_insertPair_iff b.sorted]
  split
  · rename_i h
    subst h
    simp [eq_comm]
  · rename_i h
    rw [get_eq_some_iff]
    simp [h]

/-- **Reading after a `delete`.** -/
theorem get_delete (b : Bucket κ ν) (k q : κ) :
    (b.delete k).get q = if q = k then none else b.get q := by
  ext w
  rw [get_eq_some_iff, delete, List.mem_filter]
  split
  · rename_i h
    simp [h]
  · rename_i h
    rw [get_eq_some_iff]
    simp [h]

/-- Deleting along a walk removes exactly the keys visited. -/
theorem get_deleteAll (walk : List (κ × ν)) (b : Bucket κ ν) (q : κ) :
    (b.deleteAll walk).get q = if q ∈ walk.map Prod.fst then none else b.get q := by
  induction walk generalizing b with
  | nil => simp [deleteAll]
  | cons p walk ih =>
    have hstep : b.deleteAll (p :: walk) = (b.delete p.1).deleteAll walk := rfl
    rw [hstep, ih, get_delete, List.map_cons]
    by_cases hw : q ∈ walk.map Prod.fst
    · simp [hw]
    · by_cases hp : q = p.1 <;> simp [hw, hp]

/-! ## Cursor walks -/

/-- `Last` is the largest key. -/
theorem get_last {b : Bucket κ ν} {p : κ × ν} (h : b.last = some p) :
    b.get p.1 = some p.2 ∧ ∀ k, p.1 < k → b.get k = none := by
  obtain ⟨init, hinit⟩ := List.getLast?_eq_some_iff.mp h
  refine ⟨get_eq_some_iff.mpr (by rw [hinit]; exact List.mem_append_right _ List.mem_cons_self),
    fun k hk => get_eq_none_iff.mpr fun q hq e => ?_⟩
  rw [hinit] at hq
  rcases List.mem_append.mp hq with hq | hq
  · have hlt := (List.pairwise_append.mp (hinit ▸ b.sorted)).2.2 q hq p List.mem_cons_self
    exact absurd (lt_trans hlt hk) (by rw [e]; exact lt_irrefl k)
  · rw [List.mem_singleton.mp hq] at e
    exact absurd hk (by rw [e]; exact lt_irrefl k)

theorem last_eq_none_iff {b : Bucket κ ν} : b.last = none ↔ ∀ k, b.get k = none := by
  unfold last
  rw [List.getLast?_eq_none_iff]
  constructor
  · intro h k
    rw [get_eq_none_iff, h]
    exact fun p hp => absurd hp List.not_mem_nil
  · intro h
    by_contra hne
    obtain ⟨p, hp⟩ := List.exists_mem_of_ne_nil _ hne
    exact get_eq_none_iff.mp (h p.1) p hp rfl

/-- A walk that stops where `P` first fails meets all of `P`, if `P` holds on an initial part. -/
theorem takeWhile_eq_filter {α : Type} {P : α → Bool} {l : List α}
    (h : l.Pairwise fun x y => P y → P x) : l.takeWhile P = l.filter P := by
  induction l with
  | nil => rfl
  | cons x rest ih =>
    obtain ⟨hx, hrest⟩ := List.pairwise_cons.mp h
    by_cases hP : P x
    · rw [List.takeWhile_cons_of_pos hP, List.filter_cons_of_pos hP, ih hrest]
    · have hnone : rest.filter P = [] := List.filter_eq_nil_iff.mpr fun y hy hPy => hP (hx y hy hPy)
      rw [List.takeWhile_cons_of_neg hP, List.filter_cons_of_neg hP, hnone]

/-- A walk that starts there meets the rest. -/
theorem dropWhile_eq_filter {α : Type} {P : α → Bool} {l : List α}
    (h : l.Pairwise fun x y => P y → P x) : l.dropWhile P = l.filter fun x => !P x := by
  induction l with
  | nil => rfl
  | cons x rest ih =>
    obtain ⟨hx, hrest⟩ := List.pairwise_cons.mp h
    by_cases hP : P x
    · rw [List.dropWhile_cons_of_pos hP, List.filter_cons_of_neg (by simpa using hP), ih hrest]
    · have hall : ∀ y ∈ x :: rest, !P y := by
        intro y hy
        rcases List.mem_cons.mp hy with rfl | hy
        · simpa using hP
        · simpa using fun hPy => hP (hx y hy hPy)
      rw [List.dropWhile_cons_of_neg hP, List.filter_eq_self.mpr hall]

theorem seek_eq_filter (b : Bucket κ ν) (k : κ) : b.seek k = b.pairs.filter fun p => k ≤ p.1 := by
  have hdown : b.pairs.Pairwise fun p q => decide (q.1 < k) → decide (p.1 < k) :=
    b.sorted.imp fun hlt hk => by simpa using lt_trans hlt (by simpa using hk)
  simp only [seek, dropWhile_eq_filter hdown, ← decide_not, not_lt]

/-- `Seek k` visits exactly the keys at or above `k`. -/
theorem mem_seek {b : Bucket κ ν} {k : κ} {p : κ × ν} :
    p ∈ b.seek k ↔ b.get p.1 = some p.2 ∧ k ≤ p.1 := by
  rw [seek_eq_filter, List.mem_filter, get_eq_some_iff, decide_eq_true_eq]

/-- A walk from `First` that stops at the first key beyond `k` visits exactly the keys up to
`k`. -/
theorem mem_upTo {b : Bucket κ ν} {k : κ} {p : κ × ν} :
    p ∈ b.upTo k ↔ b.get p.1 = some p.2 ∧ p.1 ≤ k := by
  have hdown : b.pairs.Pairwise fun p q => decide (q.1 ≤ k) → decide (p.1 ≤ k) :=
    b.sorted.imp fun hlt hk => by simpa using le_trans (le_of_lt hlt) (by simpa using hk)
  rw [upTo, takeWhile_eq_filter hdown, List.mem_filter, get_eq_some_iff, decide_eq_true_eq]

/-! ## Buckets made of pairs -/

/-- The bucket that putting the pairs one after another makes. -/
def ofPairs (l : List (κ × ν)) : Bucket κ ν := l.foldl (fun b p => b.put p.1 p.2) empty

theorem nodup_keys (b : Bucket κ ν) : (b.pairs.map Prod.fst).Nodup :=
  List.pairwise_map.mpr (b.sorted.imp fun hlt => ne_of_lt hlt)

/-- Reading any kind of map after a series of puts with distinct keys. -/
theorem foldl_put_eq_some_iff {α β μ : Type} (get : μ → α → Option β) (put : μ → α → β → μ) {m : μ}
    (hempty : ∀ k, get m k = none) (hput : ∀ m k v, get (put m k v) k = some v)
    (hne : ∀ m k v q, q ≠ k → get (put m k v) q = get m q) {l : List (α × β)}
    (hl : (l.map Prod.fst).Nodup) {k : α} {v : β} :
    get (l.foldl (fun m p => put m p.1 p.2) m) k = some v ↔ (k, v) ∈ l := by
  -- from the end: the last put is the one that counts
  induction l using List.reverseRecOn with
  | nil => simp [hempty]
  | append_singleton l p ih =>
    rw [List.map_append, List.nodup_append] at hl
    have hfresh : (p.1, v) ∉ l := fun h =>
      hl.2.2 p.1 (List.mem_map.mpr ⟨_, h, rfl⟩) p.1 (by simp) rfl
    rw [List.foldl_concat, List.mem_append, List.mem_singleton]
    by_cases hk : k = p.1
    · subst hk
      simp [hput, hfresh, Prod.ext_iff, eq_comm]
    · rw [hne _ _ _ _ hk, ih hl.1]
      simp [Prod.ext_iff, hk]

theorem get_ofPairs {l : List (κ × ν)} (hl : (l.map Prod.fst).Nodup) {k : κ} {v : ν} :
    (ofPairs l).get k = some v ↔ (k, v) ∈ l :=
  foldl_put_eq_some_iff get put get_empty (fun b k v => by rw [get_put, if_pos rfl])
    (fun b k v q hq => by rw [get_put, if_neg hq]) hl

/-- **A bucket is made of its pairs.** -/
theorem ofPairs_pairs (b : Bucket κ ν) : ofPairs b.pairs = b :=
  ext_get fun k => by
    ext v
    rw [get_ofPairs b.nodup_keys, get_eq_some_iff]

/-! ## Deleting along a walk -/

/-- Deleting along a walk through all keys with `Q` keeps exactly the other keys. -/
theorem get_deleteAll_walk {b : Bucket κ ν} {walk : List (κ × ν)} {Q : κ → Prop} [DecidablePred Q]
    (hwalk : ∀ p, p ∈ walk ↔ b.get p.1 = some p.2 ∧ Q p.1) (q : κ) :
    (b.deleteAll walk).get q = if Q q then none else b.get q := by
  rw [get_deleteAll]
  by_cases hq : Q q
  · rw [if_pos hq]
    split
    · rfl
    · rename_i hnot
      cases hg : b.get q with
      | none => rfl
      | some v => exact absurd (List.mem_map.mpr ⟨(q, v), (hwalk _).mpr ⟨hg, hq⟩, rfl⟩) hnot
  · rw [if_neg hq, if_neg]
    intro hmem
    obtain ⟨p, hp, rfl⟩ := List.mem_map.mp hmem
    exact hq ((hwalk p).mp hp).2

/-- Deleting everything from `Seek k` on keeps exactly the keys below `k`. -/
theorem get_deleteAll_seek (b : Bucket κ ν) (k q : κ) :
    (b.deleteAll (b.seek k)).get q = if q < k then b.get q else none := by
  rw [get_deleteAll_walk (Q := fun q => k ≤ q) (fun _ => mem_seek) q]
  simp only [← not_lt, ite_not]

/-- Deleting everything up to `k` keeps exactly the keys above `k`. -/
theorem get_deleteAll_upTo (b : Bucket κ ν) (k q : κ) :
    (b.deleteAll (b.upTo k)).get q = if k < q then b.get q else none := by
  rw [get_deleteAll_walk (Q := fun q => q ≤ k) (fun _ => mem_upTo) q]
  simp only [← not_lt, ite_not]

end Bucket

end Lib
