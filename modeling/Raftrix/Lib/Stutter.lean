import Mathlib.Logic.Relation
import Raftrix.Lib.Run

/-!
# Runs with silent steps

A machine with states `τ` and steps `β` that shows the steps of another one, with states `σ` and steps
`α`: `abs` is the state it shows, `label b` the step it shows, or `none` if `b` is silent. `shown` is
what a run of it looks like from outside.

* `Run.shown` (soundness): if every step shows a step of the other machine, or is silent and leaves the
  shown state alone, then what a run shows is a run.
* `Run.lift` (completeness): if the machine can show every step that is possible in the shown state, after
  silent steps, then every run is shown.
-/

namespace Lib

variable {σ α τ β : Type}

/-- What a run shows: the shown transitions, newest first. -/
def shown (abs : τ → σ) (label : β → Option α) (past : List (τ × β)) : List (σ × α) :=
  past.filterMap fun p => (label p.2).map fun a => (abs p.1, a)

section

variable {abs : τ → σ} {label : β → Option α}

theorem shown_cons_silent {t : τ} {b : β} {past : List (τ × β)} (h : label b = none) :
    shown abs label ((t, b) :: past) = shown abs label past := by
  simp [shown, h]

theorem shown_cons_some {t : τ} {b : β} {a : α} {past : List (τ × β)} (h : label b = some a) :
    shown abs label ((t, b) :: past) = (abs t, a) :: shown abs label past := by
  simp [shown, h]

/-- One silent step that the guard allows and that leaves the shown state alone. -/
def Silent (abs : τ → σ) (label : β → Option α) (step : τ → β → Option τ) (ok : τ → β → Prop)
    (t t' : τ) : Prop :=
  ∃ b, label b = none ∧ ok t b ∧ step t b = some t' ∧ abs t' = abs t

end

namespace Run

variable {init : σ → Prop} {step : σ → α → Option σ} {ok : σ → α → Prop}
variable {init' : τ → Prop} {step' : τ → β → Option τ} {ok' : τ → β → Prop}
variable {abs : τ → σ} {label : β → Option α}

/-- **Soundness.** -/
theorem shown {past : List (τ × β)} {t : τ} (h : Run init' step' ok' past t)
    (hinit : ∀ t, init' t → init (abs t))
    (hsilent : ∀ past t b t', Run init' step' ok' past t → ok' t b → step' t b = some t' →
      label b = none → abs t' = abs t)
    (hshow : ∀ past t b t' a, Run init' step' ok' past t → ok' t b → step' t b = some t' →
      label b = some a → ok (abs t) a ∧ step (abs t) a = some (abs t')) :
    Run init step ok (Lib.shown abs label past) (abs t) := by
  induction h with
  | start h0 => exact .start (hinit _ h0)
  | @next past t t' b hr hok hs ih =>
    cases hb : label b with
    | none =>
      rw [shown_cons_silent hb, hsilent _ _ _ _ hr hok hs hb]
      exact ih
    | some a =>
      obtain ⟨hoka, hsa⟩ := hshow _ _ _ _ _ hr hok hs hb
      rw [shown_cons_some hb]
      exact .next ih hoka hsa

/-- Silent steps lengthen a run and show nothing. -/
theorem silent {past : List (τ × β)} {t t' : τ} (h : Run init' step' ok' past t)
    (hpath : Relation.ReflTransGen (Silent abs label step' ok') t t') :
    ∃ past', Run init' step' ok' past' t' ∧ Lib.shown abs label past' = Lib.shown abs label past ∧
      abs t' = abs t := by
  induction hpath with
  | refl => exact ⟨past, h, rfl, rfl⟩
  | tail _ hstep ih =>
    obtain ⟨past', hr, hshown, habs⟩ := ih
    obtain ⟨b, hb, hok, hs, hsame⟩ := hstep
    exact ⟨_, .next hr hok hs, by rw [shown_cons_silent hb, hshown], hsame.trans habs⟩

/-- **Completeness.** `good` is what the constructed runs maintain. -/
theorem lift {past : List (σ × α)} {s : σ} (h : Run init step ok past s) {good : τ → Prop}
    (hinit : ∀ s, init s → ∃ t, init' t ∧ abs t = s ∧ good t)
    (hstep : ∀ past t a s', Run init' step' ok' past t → good t → ok (abs t) a →
      step (abs t) a = some s' → ∃ t₁ b t',
        Relation.ReflTransGen (Silent abs label step' ok') t t₁ ∧ label b = some a ∧ ok' t₁ b ∧
          step' t₁ b = some t' ∧ abs t' = s' ∧ good t') :
    ∃ past' t, Run init' step' ok' past' t ∧ Lib.shown abs label past' = past ∧ abs t = s ∧
      good t := by
  induction h with
  | start h0 =>
    obtain ⟨t, ht, habs, hgood⟩ := hinit _ h0
    exact ⟨[], t, .start ht, rfl, habs, hgood⟩
  | @next past s s' a _ hok hs ih =>
    obtain ⟨past', t, hr, hshown, rfl, hgood⟩ := ih
    obtain ⟨t₁, b, t', hpath, hb, hokb, hsb, habs', hgood'⟩ := hstep _ t a s' hr hgood hok hs
    obtain ⟨past₁, hr₁, hshown₁, habs₁⟩ := hr.silent hpath
    refine ⟨_, t', .next hr₁ hokb hsb, ?_, habs', hgood'⟩
    rw [shown_cons_some hb, hshown₁, hshown, habs₁]

end Run

end Lib
