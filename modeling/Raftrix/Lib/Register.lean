import Mathlib.Data.List.Nodup

/-!
# Running commands twice on a register

A register holds a value or none; an operation leaves it alone, sets it, or swaps it if it has the
expected value, where an empty register counts as holding `zero`.

A list of operations is run from the empty register, a part of it first, and then all of it again from
what that part has left. `Replayable` says that this ends as running the list once does because some
operation sets the register whatever it holds, or because no swap of the part moves the value that the
part has left.

* **`run_replay`**: it is enough.
* **`replayable_of_run_replay`**: where the swaps write values that are pairwise different, and
  different from `zero`, it is necessary: a swap that fires again takes the register to a value that the
  first run has not reached, and the two runs never meet again (`run_ne`).
-/

namespace Lib

/-- An operation on a register. -/
inductive RegOp (ν : Type) where
  | keep
  | set (value : Option ν)
  | swap (old new : ν)

namespace RegOp

variable {ν : Type} [DecidableEq ν] (zero : ν)

/-- One operation. -/
def step (v : Option ν) : RegOp ν → Option ν
  | keep => v
  | set value => value
  | swap old new => if v.getD zero = old then some new else v

/-- The operations one after another. -/
def run (v : Option ν) (ops : List (RegOp ν)) : Option ν := ops.foldl (step zero) v

/-- The values the swaps write. -/
def writes : List (RegOp ν) → List ν
  | [] => []
  | swap _ new :: ops => new :: writes ops
  | _ :: ops => writes ops

variable {zero} {ops a b : List (RegOp ν)} {op : RegOp ν} {u v : Option ν} {x y : ν} {k : Nat}

theorem run_cons : run zero v (op :: ops) = run zero (step zero v op) ops := rfl

theorem run_append : run zero v (a ++ b) = run zero (run zero v a) b := List.foldl_append

theorem run_take_drop (k : Nat) (ops : List (RegOp ν)) (v : Option ν) :
    run zero v ops = run zero (run zero v (ops.take k)) (ops.drop k) := by
  rw [← run_append, List.take_append_drop]

omit [DecidableEq ν] in
theorem writes_append : ∀ a b : List (RegOp ν), writes (a ++ b) = writes a ++ writes b
  | [], _ => rfl
  | keep :: a, b => writes_append a b
  | set _ :: a, b => writes_append a b
  | swap _ new :: a, b => congrArg (new :: ·) (writes_append a b)

theorem step_swap_hit {old new : ν} (h : v.getD zero = old) :
    step zero v (swap old new) = some new := if_pos h

theorem step_swap_miss {old new : ν} (h : v.getD zero ≠ old) :
    step zero v (swap old new) = v := if_neg h

/-! ## Runs that meet -/

/-- A set makes all runs equal. -/
theorem run_eq_of_set {value : Option ν} (h : set value ∈ ops) (u v : Option ν) :
    run zero u ops = run zero v ops := by
  obtain ⟨a, b, rfl⟩ := List.append_of_mem h
  rw [run_append, run_append, run_cons, run_cons]
  rfl

/-- No operation moves the value `x`. -/
theorem run_stays (hset : ∀ value, set value ∉ ops) (h : ∀ new, swap x new ∈ ops → new = x) :
    run zero (some x) ops = some x := by
  induction ops with
  | nil => rfl
  | cons op ops ih =>
    have hop : step zero (some x) op = some x := by
      cases op with
      | keep => rfl
      | set value => exact absurd List.mem_cons_self (hset value)
      | swap old new =>
        by_cases hold : x = old
        · subst hold
          rw [h new List.mem_cons_self]
          exact step_swap_hit rfl
        · exact step_swap_miss hold
    rw [run_cons, hop]
    exact ih (fun value hmem => hset value (List.mem_cons_of_mem _ hmem))
      fun new hmem => h new (List.mem_cons_of_mem _ hmem)

variable (zero ops k) in
/-- Some operation sets the register, or no swap of the first `k` operations moves what they leave. -/
def Replayable : Prop :=
  (∃ value, set value ∈ ops) ∨
    ∀ x, run zero none (ops.take k) = some x → ∀ new, swap x new ∈ ops.take k → new = x

/-- **Running a replayable list again changes nothing.** -/
theorem run_replay (h : Replayable zero ops k) :
    run zero (run zero none (ops.take k)) ops = run zero none ops := by
  by_cases hset : ∃ value, set value ∈ ops
  · obtain ⟨value, hmem⟩ := hset
    exact run_eq_of_set hmem _ _
  · cases hleft : run zero none (ops.take k) with
    | none => rfl
    | some x =>
      have hstays : run zero (some x) (ops.take k) = some x :=
        run_stays (fun value hmem => hset ⟨value, List.mem_of_mem_take hmem⟩)
          (h.resolve_left hset x hleft)
      rw [run_take_drop k ops (some x), run_take_drop k ops none, hleft, hstays]

/-! ## Runs that never meet -/

/-- Where a run can be: where it started, or at a written value. -/
theorem run_cases (hset : ∀ value, set value ∉ ops) (v : Option ν) :
    run zero v ops = v ∨ ∃ x ∈ writes ops, run zero v ops = some x := by
  induction ops generalizing v with
  | nil => exact Or.inl rfl
  | cons op ops ih =>
    have ih := ih (fun value hmem => hset value (List.mem_cons_of_mem _ hmem)) (step zero v op)
    rw [run_cons]
    cases op with
    | keep => exact ih
    | set value => exact absurd List.mem_cons_self (hset value)
    | swap old new =>
      rcases ih with heq | ⟨x, hx, heq⟩
      · rw [heq]
        by_cases hold : v.getD zero = old
        · rw [step_swap_hit hold]
          exact Or.inr ⟨new, List.mem_cons_self, rfl⟩
        · rw [step_swap_miss hold]
          exact Or.inl rfl
      · exact Or.inr ⟨x, List.mem_cons_of_mem _ hx, heq⟩

/-- What a run from the empty register shows. -/
theorem getD_run_none (hset : ∀ value, set value ∉ ops) :
    (run zero none ops).getD zero = zero ∨ (run zero none ops).getD zero ∈ writes ops := by
  rcases run_cases hset none with heq | ⟨x, hx, heq⟩
  · rw [heq]
    exact Or.inl rfl
  · rw [heq]
    exact Or.inr hx

/-- **Two runs that are at different values never meet** if the values still to be written are new and
pairwise different: a swap moves at most one of them, to a value the other is not at. -/
theorem run_ne (hset : ∀ value, set value ∉ ops) (hnodup : (writes ops).Nodup)
    (hu : u.getD zero ∉ writes ops) (hv : v.getD zero ∉ writes ops)
    (hne : u.getD zero ≠ v.getD zero) : run zero u ops ≠ run zero v ops := by
  induction ops generalizing u v with
  | nil => exact fun h => hne (congrArg (Option.getD · zero) h)
  | cons op ops ih =>
    have ih := fun {u v : Option ν} => ih (u := u) (v := v)
      fun value hmem => hset value (List.mem_cons_of_mem _ hmem)
    rw [run_cons, run_cons]
    cases op with
    | keep => exact ih hnodup hu hv hne
    | set value => exact absurd List.mem_cons_self (hset value)
    | swap old new =>
      obtain ⟨hnew, hnodup⟩ := List.nodup_cons.mp hnodup
      rw [writes, List.mem_cons, not_or] at hu hv
      by_cases hfu : u.getD zero = old
      · rw [step_swap_hit hfu, step_swap_miss (fun hfv => hne (hfu.trans hfv.symm))]
        exact ih hnodup hnew hv.2 fun h => hv.1 h.symm
      · rw [step_swap_miss hfu]
        by_cases hfv : v.getD zero = old
        · rw [step_swap_hit hfv]
          exact ih hnodup hu.2 hnew hu.1
        · rw [step_swap_miss hfv]
          exact ih hnodup hu.2 hv.2 hne

/-- The first swap that moves `x`. -/
theorem exists_first_move (h : ∃ new, swap x new ∈ ops ∧ new ≠ x) :
    ∃ a new b, ops = a ++ swap x new :: b ∧ new ≠ x ∧ ∀ w, swap x w ∈ a → w = x := by
  induction ops with
  | nil =>
    obtain ⟨_, hmem, _⟩ := h
    exact absurd hmem List.not_mem_nil
  | cons op ops ih =>
    by_cases hop : ∃ new, op = swap x new ∧ new ≠ x
    · obtain ⟨new, rfl, hne⟩ := hop
      exact ⟨[], new, ops, rfl, hne, fun w hw => absurd hw List.not_mem_nil⟩
    · obtain ⟨new, hmem, hne⟩ := h
      have hrest : swap x new ∈ ops := by
        rcases List.mem_cons.mp hmem with heq | hmem
        · exact absurd ⟨new, heq.symm, hne⟩ hop
        · exact hmem
      obtain ⟨a, w, b, rfl, hw, hfirst⟩ := ih ⟨new, hrest, hne⟩
      refine ⟨op :: a, w, b, rfl, hw, fun w' hw' => ?_⟩
      rcases List.mem_cons.mp hw' with heq | hw'
      · by_contra hne'
        exact hop ⟨w', heq.symm, hne'⟩
      · exact hfirst w' hw'

/-- **Only a replayable list can be run again**, if its swaps write pairwise different values, and
never `zero`. -/
theorem replayable_of_run_replay (hnodup : (writes ops).Nodup) (hzero : zero ∉ writes ops)
    (heq : run zero (run zero none (ops.take k)) ops = run zero none ops) :
    Replayable zero ops k := by
  by_contra hnot
  unfold Replayable at hnot
  push Not at hnot
  obtain ⟨hset, x, hleft, new, hmem, hmove⟩ := hnot
  obtain ⟨a, new, b, htake, hne, hfirst⟩ := exists_first_move ⟨new, hmem, hmove⟩
  -- the list, split at the first swap that moves what is left
  have hops : ops = a ++ swap x new :: (b ++ ops.drop k) := by
    conv_lhs => rw [← List.take_append_drop k ops, htake]
    rw [List.append_assoc, List.cons_append]
  generalize ops.drop k = c at hops
  rw [htake] at hleft heq
  rw [hleft] at heq
  subst hops
  rw [writes_append, writes, writes_append] at hnodup hzero
  simp only [List.mem_append, List.mem_cons, not_or] at hzero hset
  obtain ⟨_, hcons, hdisj⟩ := List.nodup_append'.mp hnodup
  obtain ⟨hnew, hrest⟩ := List.nodup_cons.mp hcons
  have hseta : ∀ value, set value ∉ a := fun value => (hset value).1
  have hsetb : ∀ value, set value ∉ b := fun value => (hset value).2.2.1
  -- the first run is not at `x` when it comes to that swap
  have hstart : (run zero none a).getD zero = zero ∨ (run zero none a).getD zero ∈ writes a :=
    getD_run_none hseta
  have hmiss : (run zero none a).getD zero ≠ x := by
    intro hat
    rw [run_append, run_cons, step_swap_hit hat] at hleft
    rcases run_cases hsetb (some new) with hsame | ⟨y, hy, hsome⟩
    · exact hne (Option.some.inj (hsame.symm.trans hleft))
    · obtain rfl := Option.some.inj (hsome.symm.trans hleft)
      rcases hstart with h0 | hin
      · rw [hat] at h0
        exact hzero.2.2.1 (h0 ▸ hy)
      · rw [hat] at hin
        exact hdisj hin (List.mem_cons_of_mem _ (List.mem_append_left _ hy))
  -- so the second run is at `new` and the first somewhere else, with new values ahead
  have hapart : run zero (some new) (b ++ c) ≠ run zero (run zero none a) (b ++ c) := by
    rw [← writes_append] at hnew hrest hdisj
    refine run_ne (fun value => ?_) hrest hnew ?_ ?_
    · rw [List.mem_append, not_or]
      exact (hset value).2.2
    · rcases hstart with h0 | hin
      · rw [h0, writes_append, List.mem_append, not_or]
        exact hzero.2.2
      · exact fun hmem => hdisj hin (List.mem_cons_of_mem _ hmem)
    · rcases hstart with h0 | hin
      · rw [h0]
        exact fun h => hzero.2.1 h.symm
      · exact fun h => hdisj hin (h ▸ List.mem_cons_self)
  have hfires : step zero (some x) (swap x new) = some new := step_swap_hit rfl
  rw [run_append, run_append, run_cons, run_cons, run_stays hseta hfirst, step_swap_miss hmiss,
    hfires] at heq
  exact hapart heq

end RegOp

end Lib
