import Mathlib.Data.List.Basic

/-!
# Runs of a step function

A run of a partial step function `step : σ → α → Option σ` from the states `init` allows. Steps are
labelled, and a guard `ok` says which labels a run may take in which state, so "every run whose
steps all meet a condition" is a run with that condition as its guard. The transitions taken so far
are kept, newest first; `step` being a function, the state left and the label determine the rest.

`Run.invariant` is the induction rule; its step case may use that the state is reached by a run, so
invariants build on one another. `Run.rel` lifts a reflexive and transitive relation from steps to
all states a run has visited, `Run.rel_since` to the states since which a property has held.
-/

namespace Lib

variable {σ α : Type}

/-- A run to a state, with the transitions it took, newest first. -/
inductive Run (init : σ → Prop) (step : σ → α → Option σ) (ok : σ → α → Prop) :
    List (σ × α) → σ → Prop
  | start {s : σ} (h : init s) : Run init step ok [] s
  | next {past : List (σ × α)} {s s' : σ} {a : α} (h : Run init step ok past s) (hok : ok s a)
      (hs : step s a = some s') : Run init step ok ((s, a) :: past) s'

/-- The states of a run, the current one first. -/
def visited (past : List (σ × α)) (s : σ) : List σ := s :: past.map Prod.fst

theorem self_mem_visited (past : List (σ × α)) (s : σ) : s ∈ visited past s :=
  List.mem_cons_self

theorem mem_visited_cons {past : List (σ × α)} {s s' τ : σ} {a : α} :
    τ ∈ visited ((s, a) :: past) s' ↔ τ = s' ∨ τ ∈ visited past s := by
  simp [visited]

/-- `P` has held in every state from `τ` to the current one, both included. -/
inductive Since (P : σ → Prop) : List (σ × α) → σ → σ → Prop
  | now {past : List (σ × α)} {s : σ} (h : P s) : Since P past s s
  | next {past : List (σ × α)} {s s' τ : σ} {a : α} (h : Since P past s τ) (hP : P s') :
      Since P ((s, a) :: past) s' τ

theorem Since.current {P : σ → Prop} {past : List (σ × α)} {s τ : σ} (h : Since P past s τ) : P s := by
  cases h <;> assumption

namespace Run

variable {init : σ → Prop} {step : σ → α → Option σ} {ok ok' : σ → α → Prop}
variable {past : List (σ × α)} {s : σ}

/-- A run stays a run under a weaker guard. -/
theorem mono (himp : ∀ s a, ok s a → ok' s a) (h : Run init step ok past s) :
    Run init step ok' past s := by
  induction h with
  | start h0 => exact .start h0
  | next _ hok hs ih => exact .next ih (himp _ _ hok) hs

/-- A run is a run under every guard that its transitions meet. -/
theorem guard_of_past (h : Run init step ok past s) (hok : ∀ τ a, (τ, a) ∈ past → ok' τ a) :
    Run init step ok' past s := by
  induction h with
  | start h0 => exact .start h0
  | next _ _ hs ih =>
    exact .next (ih fun τ a hm => hok τ a (List.mem_cons_of_mem _ hm)) (hok _ _ List.mem_cons_self) hs

/-- **The invariant rule.** -/
theorem invariant {P : List (σ × α) → σ → Prop} (h0 : ∀ s, init s → P [] s)
    (hstep : ∀ past s a s', Run init step ok past s → P past s → ok s a → step s a = some s' →
      P ((s, a) :: past) s') (h : Run init step ok past s) : P past s := by
  induction h with
  | start hi => exact h0 _ hi
  | next hr hok hs ih => exact hstep _ _ _ _ hr ih hok hs

/-- **A relation along a run.** What every step establishes between the state before and the state
after, a run establishes between every state it visited and the current one. -/
theorem rel {R : σ → σ → Prop} (hrefl : ∀ s, R s s) (htrans : ∀ a b c, R a b → R b c → R a c)
    (hstep : ∀ past s a s', Run init step ok past s → ok s a → step s a = some s' → R s s')
    (h : Run init step ok past s) {τ : σ} (hτ : τ ∈ visited past s) : R τ s := by
  induction h with
  | start _ =>
    rw [List.mem_singleton.mp hτ]
    exact hrefl _
  | next hr hok hs ih =>
    rcases mem_visited_cons.mp hτ with rfl | hτ
    · exact hrefl _
    · exact htrans _ _ _ (ih hτ) (hstep _ _ _ _ hr hok hs)

/-- **A relation along part of a run.** What every step between two states with `P` establishes holds
between the current state and every state since which `P` has held. -/
theorem rel_since {P : σ → Prop} {R : σ → σ → Prop} (hrefl : ∀ s, R s s)
    (htrans : ∀ a b c, R a b → R b c → R a c)
    (hstep : ∀ past s a s', Run init step ok past s → ok s a → step s a = some s' → P s → P s' →
      R s s') (h : Run init step ok past s) {τ : σ} (hτ : Since P past s τ) : R τ s := by
  induction h with
  | start _ =>
    cases hτ
    exact hrefl _
  | next hr hok hs ih =>
    cases hτ with
    | now _ => exact hrefl _
    | next hsince hP =>
      exact htrans _ _ _ (ih hsince) (hstep _ _ _ _ hr hok hs hsince.current hP)

/-- Of two states a run visited, one comes before the other. -/
theorem rel_total {R : σ → σ → Prop} (hrefl : ∀ s, R s s)
    (htrans : ∀ a b c, R a b → R b c → R a c)
    (hstep : ∀ past s a s', Run init step ok past s → ok s a → step s a = some s' → R s s')
    (h : Run init step ok past s) {τ ω : σ} (hτ : τ ∈ visited past s) (hω : ω ∈ visited past s) :
    R τ ω ∨ R ω τ := by
  induction h with
  | start _ =>
    rw [List.mem_singleton.mp hτ, List.mem_singleton.mp hω]
    exact Or.inl (hrefl _)
  | next hr hok hs ih =>
    have hlast := fun {τ} => rel hrefl htrans hstep (.next hr hok hs) (τ := τ)
    rcases mem_visited_cons.mp hτ with rfl | hτ'
    · exact Or.inr (hlast hω)
    · rcases mem_visited_cons.mp hω with rfl | hω'
      · exact Or.inl (hlast hτ)
      · exact ih hτ' hω'

/-- Every visited state is reached by a run over part of the same transitions. -/
theorem of_visited (h : Run init step ok past s) {τ : σ} (hτ : τ ∈ visited past s) :
    ∃ earlier, Run init step ok earlier τ ∧ ∀ ω ∈ visited earlier τ, ω ∈ visited past s := by
  induction h with
  | start h0 =>
    rw [List.mem_singleton.mp hτ]
    exact ⟨[], .start h0, fun _ h => h⟩
  | @next past s s' a hr hok hs ih =>
    rcases mem_visited_cons.mp hτ with rfl | hτ
    · exact ⟨_, .next hr hok hs, fun _ h => h⟩
    · obtain ⟨earlier, he, hsub⟩ := ih hτ
      exact ⟨earlier, he, fun ω hω => mem_visited_cons.mpr (Or.inr (hsub ω hω))⟩

/-- The run up to its `k`-th last transition. -/
theorem before (h : Run init step ok past s) : ∀ {k : Nat} {τ : σ} {a : α}, past[k]? = some (τ, a) →
    Run init step ok (past.drop (k + 1)) τ ∧
      ∀ ω ∈ visited (past.drop (k + 1)) τ, ω ∈ visited past s := by
  induction h with
  | start _ => exact fun hk => absurd hk (by simp)
  | @next past s s' b hr hok hs ih =>
    intro k τ a hk
    cases k with
    | zero =>
      obtain ⟨rfl, rfl⟩ := Prod.mk.inj (Option.some.inj hk)
      exact ⟨hr, fun ω hω => mem_visited_cons.mpr (Or.inr hω)⟩
    | succ k =>
      obtain ⟨hrun, hsub⟩ := ih hk
      exact ⟨hrun, fun ω hω => mem_visited_cons.mpr (Or.inr (hsub ω hω))⟩

/-- A transition of the run: it met the guard, and the run visited the state it led to. -/
theorem of_mem_past (h : Run init step ok past s) {τ : σ} {a : α} (hm : (τ, a) ∈ past) :
    ∃ earlier τ', Run init step ok earlier τ ∧ ok τ a ∧ step τ a = some τ' ∧
      τ' ∈ visited past s := by
  induction h with
  | start _ => exact absurd hm List.not_mem_nil
  | @next past s s' b hr hok hs ih =>
    rcases List.mem_cons.mp hm with heq | hm
    · obtain ⟨rfl, rfl⟩ := Prod.mk.inj heq
      exact ⟨past, s', hr, hok, hs, self_mem_visited _ _⟩
    · obtain ⟨earlier, τ', h1, h2, h3, h4⟩ := ih hm
      exact ⟨earlier, τ', h1, h2, h3, mem_visited_cons.mpr (Or.inr h4)⟩

end Run

/-- **The runs of another step function** that takes the same steps under other labels, as far as the runs
of `step` go within `n` transitions. -/
theorem Run.relabel {β : Type} {init : σ → Prop} {step : σ → α → Option σ} {step' : σ → β → Option σ}
    {ok : σ → α → Prop} {f : β → α} {n : Nat}
    (hstep : ∀ past s b, Run init step ok past s → past.length < n → step' s b = step s (f b)) :
    ∀ {past : List (σ × β)} {s : σ}, past.length ≤ n →
      (Run init step' (fun s b => ok s (f b)) past s ↔
        Run init step ok (past.map fun x => (x.1, f x.2)) s)
  | [], s, _ => by
    constructor <;> rintro ⟨h0⟩ <;> exact .start h0
  | (s₀, b) :: past, s, hlen => by
    have ih := Run.relabel hstep (s := s₀) (Nat.le_of_succ_le hlen)
    have heq (hr : Run init step ok (past.map fun x => (x.1, f x.2)) s₀) : step' s₀ b = step s₀ (f b) :=
      hstep _ s₀ b hr (by rw [List.length_map]; exact hlen)
    rw [List.map_cons]
    constructor
    · rintro (_ | ⟨h, hok, hs⟩)
      exact .next (ih.mp h) hok ((heq (ih.mp h)).symm.trans hs)
    · rintro (_ | ⟨h, hok, hs⟩)
      exact .next (ih.mpr h) hok ((heq h).trans hs)

/-! ## Runs that are carried out -/

/-- Take the listed steps one after another; `none` if one is not allowed or not possible. -/
def follow (step : σ → α → Option σ) (ok : σ → α → Prop) [∀ s a, Decidable (ok s a)] :
    List (σ × α) → σ → List α → Option (List (σ × α) × σ)
  | past, s, [] => some (past, s)
  | past, s, a :: as =>
    if ok s a then
      match step s a with
      | some s' => follow step ok ((s, a) :: past) s' as
      | none => none
    else none

/-- What was carried out is a run; a property of all listed steps may be added to its guard. -/
theorem Run.of_follow {init : σ → Prop} {step : σ → α → Option σ} {ok : σ → α → Prop}
    [∀ s a, Decidable (ok s a)] {P : σ → α → Prop} : ∀ {as : List α} {past : List (σ × α)} {s : σ}
    {r : List (σ × α) × σ}, (∀ s, ∀ a ∈ as, P s a) → Run init step (fun s a => ok s a ∧ P s a) past s →
    follow step ok past s as = some r → Run init step (fun s a => ok s a ∧ P s a) r.1 r.2
  | [], _, _, _, _, h, hf => by
    cases hf
    exact h
  | a :: as, past, s, r, hP, h, hf => by
    simp only [follow] at hf
    split at hf
    · rename_i hok
      split at hf
      · rename_i s' hs
        exact Run.of_follow (fun s b hb => hP s b (List.mem_cons_of_mem a hb))
          (.next h ⟨hok, hP s a List.mem_cons_self⟩ hs) hf
      · cases hf
    · cases hf

end Lib
