import Mathlib.Data.List.Forall2

/-!
# Two machines side by side

A machine is a function `step : σ → ι → σ × ο` from a state and an input to the next state and an
observation. `observe` runs it on a list of inputs and `after` is the state it ends in; `Always` says that a condition on state and input
is met at every step of a run.

`forall₂_observe_iff` compares two machines on the same inputs. A relation between their states that
every step keeps, as long as a condition is met, and a condition without which the observations of the
step differ, make the condition exact: all observations of two runs correspond if and only if every
step meets it. `forall₂_observe` is the half of it in which the condition suffices.

`pairwise_observe` compares the observations of one run with each other: what the state remembers of
an observation relates it to every later one.
-/

namespace Lib

variable {σ τ ι ο ο' : Type}

/-- The observations of a run. -/
def observe (step : σ → ι → σ × ο) : σ → List ι → List ο
  | _, [] => []
  | s, i :: rest => (step s i).2 :: observe step (step s i).1 rest

/-- The state after a run. -/
def after (step : σ → ι → σ × ο) (s : σ) (is : List ι) : σ := is.foldl (fun s i => (step s i).1) s

/-- Every step of the run meets the condition. -/
def Always (step : σ → ι → σ × ο) (ok : σ → ι → Prop) : σ → List ι → Prop
  | _, [] => True
  | s, i :: rest => ok s i ∧ Always step ok (step s i).1 rest

/-- A condition on the inputs alone. -/
theorem always_of_forall {step : σ → ι → σ × ο} {ok : ι → Prop} {is : List ι} (h : ∀ i ∈ is, ok i)
    (s : σ) : Always step (fun _ => ok) s is := by
  induction is generalizing s with
  | nil => trivial
  | cons i rest ih =>
    obtain ⟨hi, hrest⟩ := List.forall_mem_cons.mp h
    exact ⟨hi, ih hrest _⟩

section Lockstep

variable {step : σ → ι → σ × ο} {step' : τ → ι → τ × ο'} {rel : σ → τ → Prop} {same : ο → ο' → Prop}
  {ok : τ → ι → Prop}

/-- **Simulation**: steps that meet the condition keep the relation and give corresponding
observations, so whole runs do. -/
theorem forall₂_observe
    (hstep : ∀ s t i, rel s t → ok t i →
      same (step s i).2 (step' t i).2 ∧ rel (step s i).1 (step' t i).1)
    {s : σ} {t : τ} (hrel : rel s t) {is : List ι} (hok : Always step' ok t is) :
    List.Forall₂ same (observe step s is) (observe step' t is) := by
  induction is generalizing s t with
  | nil => exact .nil
  | cons i rest ih =>
    obtain ⟨hsame, hnext⟩ := hstep s t i hrel hok.1
    exact .cons hsame (ih hnext hok.2)

/-- The states after two such runs are related. -/
theorem rel_after
    (hstep : ∀ s t i, rel s t → ok t i →
      same (step s i).2 (step' t i).2 ∧ rel (step s i).1 (step' t i).1)
    {s : σ} {t : τ} (hrel : rel s t) {is : List ι} (hok : Always step' ok t is) :
    rel (after step s is) (after step' t is) := by
  induction is generalizing s t with
  | nil => exact hrel
  | cons i rest ih => exact ih (hstep s t i hrel hok.1).2 hok.2

/-- **Exact simulation**: the observations correspond if and only if every step meets the
condition. -/
theorem forall₂_observe_iff
    (hstep : ∀ s t i, rel s t → ok t i →
      same (step s i).2 (step' t i).2 ∧ rel (step s i).1 (step' t i).1)
    (hbreak : ∀ s t i, rel s t → ¬ ok t i → ¬ same (step s i).2 (step' t i).2)
    {s : σ} {t : τ} (hrel : rel s t) (is : List ι) :
    List.Forall₂ same (observe step s is) (observe step' t is) ↔ Always step' ok t is := by
  refine ⟨fun h => ?_, forall₂_observe hstep hrel⟩
  induction is generalizing s t with
  | nil => trivial
  | cons i rest ih =>
    cases h with
    | cons hsame hrest =>
      have hok : ok t i := by
        by_contra hno
        exact hbreak s t i hrel hno hsame
      exact ⟨hok, ih (hstep s t i hrel hok).2 hrest⟩

end Lockstep

section Order

variable {step : σ → ι → σ × ο} {ok : σ → ι → Prop} {P : ο → σ → Prop} {R : ο → ο → Prop}

/-- An observation that the state remembers is related to all that follow. -/
theorem forall_observe (hkeep : ∀ s i o, ok s i → P o s → P o (step s i).1)
    (hrel : ∀ s i o, ok s i → P o s → R o (step s i).2) {o : ο} {s : σ} (ho : P o s)
    {is : List ι} (hok : Always step ok s is) : ∀ o' ∈ observe step s is, R o o' := by
  induction is generalizing s with
  | nil => exact fun _ h => absurd h List.not_mem_nil
  | cons i rest ih =>
    refine List.forall_mem_cons.mpr ⟨hrel s i o hok.1 ho, ?_⟩
    exact ih (hkeep s i o hok.1 ho) hok.2

/-- **The observations of a run are related in their order**, if every state remembers them. -/
theorem pairwise_observe (hnew : ∀ s i, ok s i → P (step s i).2 (step s i).1)
    (hkeep : ∀ s i o, ok s i → P o s → P o (step s i).1)
    (hrel : ∀ s i o, ok s i → P o s → R o (step s i).2) {s : σ} {is : List ι}
    (hok : Always step ok s is) : (observe step s is).Pairwise R := by
  induction is generalizing s with
  | nil => exact .nil
  | cons i rest ih =>
    exact .cons (forall_observe hkeep hrel (hnew s i hok.1) hok.2) (ih hok.2)

end Order

end Lib
