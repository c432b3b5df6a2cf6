import Mathlib.Data.Finset.Card
import Mathlib.Data.List.Basic
import Mathlib.Data.List.Infix
import Mathlib.Order.Defs.LinearOrder

/-!
# Replicated logs over terms: what a vote carries

The history of a replicated log, seen from outside: which node has held which log in which term,
and which logs the leader of each term has had. Entries carry the term of the leader that created
them. Nothing here refers to steps or messages; a protocol earns these results by showing that its
runs have the four properties of `Coherent`.

* `LogHistory.Traced.matching`: two logs with an entry of one term at one index agree up to it.
* `LogHistory.vote_carries`: a voter that holds an acknowledged log `X` passes `X` on to a candidate
  whose log is at least as up to date, unless some leader in between already lacks `X`.
* **`LogHistory.leader_completeness`**: a log a majority acknowledged in term `t` is part of every
  log of every leader of a later term. By strong induction on the later term: its voters meet the
  acknowledging majority.
* `LogHistory.committed_comparable`: of two such logs one extends the other.

`Splice` is the relation between a follower's log before and after it takes over entries of a
leader's log, for a receiver that may also stop early or cut off a conflicting tail at the leader's
last entry; `Splice.keeps` says what survives.
-/

namespace Lib

/-! ## Majorities -/

section Majority

variable {ν : Type} [DecidableEq ν]

/-- More than half of the ids. -/
def Majority (ids : List ν) (Q : Finset ν) : Prop :=
  Q ⊆ ids.toFinset ∧ ids.length < 2 * Q.card

/-- **Two majorities meet.** -/
theorem Majority.meet {ids : List ν} {Q W : Finset ν} (hQ : Majority ids Q)
    (hW : Majority ids W) : ∃ v, v ∈ Q ∧ v ∈ W := by
  by_contra hno
  have hdisj : Disjoint Q W := Finset.disjoint_left.mpr fun v hq hw => hno ⟨v, hq, hw⟩
  have hcard : (Q ∪ W).card = Q.card + W.card := Finset.card_union_of_disjoint hdisj
  have hle : (Q ∪ W).card ≤ ids.toFinset.card :=
    Finset.card_le_card (Finset.union_subset hQ.1 hW.1)
  have hlen : ids.toFinset.card ≤ ids.length := List.toFinset_card_le ids
  have h1 := hQ.2
  have h2 := hW.2
  omega

end Majority

/-! ## Comparable lists -/

section Lists

variable {ε : Type}

/-- Two lists that extend into one list are comparable. -/
theorem comparable_of_le {a b c : List ε} (ha : a <+: c) (hb : b <+: c) : a <+: b ∨ b <+: a := by
  rcases Nat.le_total a.length b.length with h | h
  · exact Or.inl (List.prefix_of_prefix_length_le ha hb h)
  · exact Or.inr (List.prefix_of_prefix_length_le hb ha h)

/-- Two lists that extend into comparable lists, the first no longer than the second. -/
theorem le_of_comparable {a b c d : List ε} (ha : a <+: c) (hb : b <+: d)
    (hcd : c <+: d ∨ d <+: c) (hlen : a.length ≤ b.length) : a <+: b := by
  rcases hcd with h | h
  · exact List.prefix_of_prefix_length_le (ha.trans h) hb hlen
  · exact List.prefix_of_prefix_length_le ha (hb.trans h) hlen

theorem getElem?_of_le {a b : List ε} (h : a <+: b) {i : Nat} {e : ε} (hi : a[i]? = some e) :
    b[i]? = some e := by
  obtain ⟨hlt, rfl⟩ := List.getElem?_eq_some_iff.mp hi
  rw [List.getElem?_eq_some_iff]
  exact ⟨lt_of_lt_of_le hlt h.length_le, (h.getElem hlt).symm⟩

/-- A list extended by another one of the same length is that list. -/
theorem eq_of_le_length {a b : List ε} (h : a <+: b) (hlen : b.length ≤ a.length) : a = b :=
  h.eq_of_length_le hlen

/-- What fits into a list and is shorter fits into the list without its last element. -/
theorem le_dropLast {a b : List ε} (h : a <+: b) (hlt : a.length < b.length) : a <+: b.dropLast :=
  List.prefix_of_prefix_length_le h (List.dropLast_prefix b) (by rw [List.length_dropLast]; omega)

end Lists

/-! ## Taking over a leader's log -/

section Splice

variable {ε : Type} (term : ε → Nat)

/-- The log of a follower before and after it takes over entries of the leader's log `l`: nothing
happened, it was extended within `l`, or its tail was cut off at the last entry of `l`, where it
had an entry of another term. -/
inductive Splice (log l : List ε) : List ε → Prop
  | kept : Splice log l log
  | extended {log' : List ε} (hlog : log <+: log') (hl : log' <+: l) : Splice log l log'
  | cut (hlog : l.dropLast <+: log) {e e' : ε} (he : log[l.length - 1]? = some e)
      (he' : l.getLast? = some e') (hne : term e ≠ term e') : Splice log l l.dropLast

variable {term}

theorem getLast?_eq_getElem?_of_le {l log : List ε} (h : l <+: log) {e : ε}
    (he : l.getLast? = some e) : log[l.length - 1]? = some e :=
  getElem?_of_le h (by rw [← List.getLast?_eq_getElem?]; exact he)

/-- **What a follower shares with the leader, it keeps.** -/
theorem Splice.keeps {log l log' X : List ε} (h : Splice term log l log') (hlog : X <+: log)
    (hl : X <+: l ∨ l <+: X) : X <+: log' := by
  cases h with
  | kept => exact hlog
  | extended hext _ => exact hlog.trans hext
  | cut _ he he' hne =>
    have hnot : ¬ l <+: log := fun hll => by
      rw [getLast?_eq_getElem?_of_le hll he', Option.some.injEq] at he
      exact hne (by rw [he])
    rcases hl with hl | hl
    · refine le_dropLast hl (lt_of_le_of_ne hl.length_le fun hlen => hnot ?_)
      rw [← eq_of_le_length hl (le_of_eq hlen.symm)]
      exact hlog
    · exact absurd (hl.trans hlog) hnot

/-- Everything in the new log was in the old one or is in the leader's. -/
theorem Splice.le_or {log l log' : List ε} (h : Splice term log l log') :
    log' = log ∨ log' <+: l := by
  cases h with
  | kept => exact Or.inl rfl
  | extended _ hl => exact Or.inr hl
  | cut _ _ _ _ => exact Or.inr (List.dropLast_prefix l)

end Splice

/-! ## Histories -/

/-- The history of a replicated log with nodes `ν` and entries `ε`. -/
structure LogHistory (ν ε : Type) where
  term : ε → Nat
  /-- At some moment the node was in the term and held the log. -/
  held : ν → Nat → List ε → Prop
  /-- At some moment the leader of the term had the log. -/
  led : Nat → List ε → Prop

namespace LogHistory

variable {ν ε : Type} (H : LogHistory ν ε)

/-- Terms do not decrease along the log. -/
def Sorted (l : List ε) : Prop := l.Pairwise fun a b => H.term a ≤ H.term b

/-- Every entry came from the leader of its term, together with all that precedes it. -/
def Traced (l : List ε) : Prop :=
  ∀ i e, l[i]? = some e → ∃ l', H.led (H.term e) l' ∧ l.take (i + 1) <+: l'

/-- In term `t` the node held `X`, whose last entry is of term `t`. -/
def Acked (v : ν) (t : Nat) (X : List ε) : Prop :=
  ∃ l, H.held v t l ∧ X <+: l ∧ ∃ e, X.getLast? = some e ∧ H.term e = t

/-- Some leader of a term after `t` and up to `u` had a log without `X`. -/
def Lacked (t u : Nat) (X : List ε) : Prop :=
  ∃ w l, t < w ∧ w ≤ u ∧ H.led w l ∧ ¬ X <+: l

/-- The term of the last entry, `0` for the empty log. -/
def lastTerm (l : List ε) : Nat := (l.getLast?.map H.term).getD 0

variable {H}

/-- The last entry traces the whole log. -/
theorem Traced.whole {l : List ε} (h : H.Traced l) {e : ε} (he : l.getLast? = some e) :
    ∃ l', H.led (H.term e) l' ∧ l <+: l' := by
  rw [List.getLast?_eq_getElem?] at he
  obtain ⟨l', hled, hle⟩ := h _ _ he
  have hpos : 0 < l.length := by
    rcases Nat.eq_zero_or_pos l.length with h0 | h0
    · rw [List.eq_nil_of_length_eq_zero h0] at he
      exact absurd he (by simp)
    · exact h0
  rw [Nat.sub_add_cancel hpos, List.take_length] at hle
  exact ⟨l', hled, hle⟩

theorem Traced.of_le {l l' : List ε} (h : H.Traced l') (hle : l <+: l') : H.Traced l := by
  intro i e hi
  obtain ⟨m, hled, hm⟩ := h i e (getElem?_of_le hle hi)
  have hlt : i < l.length := (List.getElem?_eq_some_iff.mp hi).1
  refine ⟨m, hled, List.IsPrefix.trans (List.prefix_of_prefix_length_le
    ((List.take_prefix _ _).trans hle) (List.take_prefix _ _) ?_) hm⟩
  have := hle.length_le
  rw [List.length_take, List.length_take]
  omega

theorem Sorted.of_le {l l' : List ε} (h : H.Sorted l') (hle : l <+: l') : H.Sorted l :=
  List.Pairwise.sublist hle.sublist h

/-- **Log matching.** Two traced logs with an entry of one term at one index agree up to it. -/
theorem Traced.matching (hchain : ∀ {t l l'}, H.led t l → H.led t l' → l <+: l' ∨ l' <+: l)
    {l l' : List ε} (hl : H.Traced l) (hl' : H.Traced l') {i : Nat} {e e' : ε}
    (he : l[i]? = some e) (he' : l'[i]? = some e') (hterm : H.term e = H.term e') :
    l.take (i + 1) = l'.take (i + 1) := by
  obtain ⟨m, hm, hle⟩ := hl i e he
  obtain ⟨m', hm', hle'⟩ := hl' i e' he'
  rw [← hterm] at hm'
  have hi := (List.getElem?_eq_some_iff.mp he).1
  have hi' := (List.getElem?_eq_some_iff.mp he').1
  have hlen : (l.take (i + 1)).length = (l'.take (i + 1)).length := by
    rw [List.length_take, List.length_take]
    omega
  exact eq_of_le_length (le_of_comparable hle hle' (hchain hm hm') (le_of_eq hlen))
    (le_of_eq hlen.symm)

/-- In a sorted log the last entry has the largest term. -/
theorem Sorted.le_last {l : List ε} (h : H.Sorted l) {e e' : ε} (he : l.getLast? = some e)
    (he' : e' ∈ l) : H.term e' ≤ H.term e := by
  obtain ⟨init, rfl⟩ := List.getLast?_eq_some_iff.mp he
  rcases List.mem_append.mp he' with hm | hm
  · exact (List.pairwise_append.mp h).2.2 e' hm e List.mem_cons_self
  · rw [List.mem_singleton.mp hm]

/-- **What a vote carries.** The voter holds `X`, the candidate's log `c` is at least as up to date
as the voter's log `l`. -/
theorem vote_carries (hchain : ∀ {t l l'}, H.led t l → H.led t l' → l <+: l' ∨ l' <+: l)
    {l c X : List ε} {t u : Nat} (hl : H.Traced l) (hls : H.Sorted l) (hc : H.Traced c)
    (hcu : ∀ e ∈ c, H.term e ≤ u) (hX : X <+: l) {x : ε} (hx : X.getLast? = some x)
    (hxt : H.term x = t) (hpos : ∀ e ∈ l, 1 ≤ H.term e)
    (hup : H.lastTerm l < H.lastTerm c ∨ (H.lastTerm c = H.lastTerm l ∧ l.length ≤ c.length)) :
    X <+: c ∨ H.Lacked t u X := by
  have hlast : ∀ m e, m.getLast? = some e → H.lastTerm m = H.term e := fun m e he => by
    rw [lastTerm, he]
    rfl
  have hxl : x ∈ l := hX.subset (List.mem_of_getLast? hx)
  obtain ⟨y, hy⟩ : ∃ y, l.getLast? = some y :=
    Option.isSome_iff_exists.mp (by
      rw [List.getLast?_isSome]
      exact List.ne_nil_of_mem hxl)
  have hty : t ≤ H.term y := by rw [← hxt]; exact hls.le_last hy hxl
  have hy1 : 1 ≤ H.term y := hpos y (List.mem_of_getLast? hy)
  obtain ⟨z, hz⟩ : ∃ z, c.getLast? = some z := by
    cases hcl : c.getLast? with
    | some z => exact ⟨z, rfl⟩
    | none =>
      rw [List.getLast?_eq_none_iff] at hcl
      have hnil : H.lastTerm ([] : List ε) = 0 := rfl
      rw [hcl, hnil, hlast l y hy] at hup
      rcases hup with h | h <;> omega
  obtain ⟨m, hm, hcm⟩ := hc.whole hz
  rw [hlast l y hy, hlast c z hz] at hup
  rcases hup with hlt | ⟨heq, hlen⟩
  · -- a later term: its leader either lacks `X`, or has it below the candidate's last entry
    by_cases hXm : X <+: m
    · left
      refine List.prefix_of_prefix_length_le hXm hcm ?_
      by_contra hlong
      have hzm : m[c.length - 1]? = some z := getLast?_eq_getElem?_of_le hcm hz
      have hzX : z ∈ X := by
        have hidx : c.length - 1 < X.length := by omega
        have hXi : X[c.length - 1]? = some X[c.length - 1] := List.getElem?_eq_getElem hidx
        have := getElem?_of_le hXm hXi
        rw [hzm, Option.some.injEq] at this
        rw [this]
        exact List.getElem_mem hidx
      have hle := (hls.of_le hX).le_last hx hzX
      omega
    · exact Or.inr ⟨H.term z, m, by omega, hcu z (List.mem_of_getLast? hz), hm, hXm⟩
  · obtain ⟨m', hm', hlm⟩ := hl.whole hy
    rw [← heq] at hm'
    exact Or.inl (hX.trans (le_of_comparable hlm hcm (hchain hm' hm) hlen))

section Commitment

variable [DecidableEq ν]

variable (H) in
/-- A majority acknowledged `X` in term `t`. -/
def Committed (ids : List ν) (t : Nat) (X : List ε) : Prop :=
  ∃ Q, Majority ids Q ∧ ∀ v ∈ Q, H.Acked v t X

variable (H) in
/-- What makes a history that of a replicated log. -/
structure Coherent (ids : List ν) : Prop where
  /-- The logs of one term's leader grow. -/
  chain : ∀ {t l l'}, H.led t l → H.led t l' → l <+: l' ∨ l' <+: l
  sorted : ∀ {v t l}, H.held v t l → H.Sorted l
  traced : ∀ {v t l}, H.held v t l → H.Traced l
  /-- A leader's log was voted for by a majority, each of which passed on what it had
  acknowledged before, unless a leader in between lacked it. -/
  elected : ∀ {u l}, H.led u l → ∃ W, Majority ids W ∧ ∀ v ∈ W, ∀ t X, t < u → H.Acked v t X →
    X <+: l ∨ H.Lacked t (u - 1) X

variable {ids : List ν}

/-- What was acknowledged is part of a log of the term's leader. -/
theorem Coherent.acked_led (hH : H.Coherent ids) {v : ν} {t : Nat} {X : List ε}
    (h : H.Acked v t X) : ∃ l, H.led t l ∧ X <+: l := by
  obtain ⟨l, hheld, hle, e, he, ht⟩ := h
  rw [← ht]
  exact ((hH.traced hheld).of_le hle).whole he

/-- **Leader completeness.** -/
theorem Coherent.leader_completeness (hH : H.Coherent ids) {t : Nat} {X : List ε}
    (hX : H.Committed ids t X) : ∀ {u : Nat} {l : List ε}, t < u → H.led u l → X <+: l := by
  obtain ⟨Q, hQ, hack⟩ := hX
  intro u
  induction u using Nat.strong_induction_on with
  | _ u ih =>
    intro l htu hled
    obtain ⟨W, hW, hvote⟩ := hH.elected hled
    obtain ⟨v, hvQ, hvW⟩ := hQ.meet hW
    rcases hvote v hvW t X htu (hack v hvQ) with h | ⟨w, m, htw, hwu, hm, hnot⟩
    · exact h
    · exact absurd (ih w (by omega) htw hm) hnot

/-- What is committed is part of a log of the term's leader. -/
theorem Coherent.committed_led (hH : H.Coherent ids) (hne : ids ≠ []) {t : Nat} {X : List ε}
    (hX : H.Committed ids t X) : ∃ l, H.led t l ∧ X <+: l := by
  obtain ⟨Q, hQ, hack⟩ := hX
  obtain ⟨v, hv⟩ : Q.Nonempty := by
    rw [← Finset.card_pos]
    have := hQ.2
    have : 0 < ids.length := List.length_pos_iff.mpr hne
    omega
  exact hH.acked_led (hack v hv)

/-- What is committed and a log of a leader of the same or a later term. -/
theorem Coherent.committed_comparable_led (hH : H.Coherent ids) (hne : ids ≠ []) {t u : Nat}
    {X l : List ε} (hX : H.Committed ids t X) (htu : t ≤ u) (hl : H.led u l) :
    X <+: l ∨ l <+: X := by
  rcases Nat.eq_or_lt_of_le htu with rfl | hlt
  · obtain ⟨m, hm, hXm⟩ := hH.committed_led hne hX
    rcases hH.chain hm hl with h | h
    · exact Or.inl (hXm.trans h)
    · exact comparable_of_le hXm h
  · exact Or.inl (hH.leader_completeness hX hlt hl)

/-- Of two committed logs one extends the other. -/
theorem Coherent.committed_comparable (hH : H.Coherent ids) (hne : ids ≠ []) {t u : Nat}
    {X Y : List ε} (hX : H.Committed ids t X) (hY : H.Committed ids u Y) : X <+: Y ∨ Y <+: X := by
  -- the earlier one is comparable with a leader's log that contains the later one
  have horder : ∀ {t u : Nat} {X Y : List ε}, H.Committed ids t X → H.Committed ids u Y → t ≤ u →
      X <+: Y ∨ Y <+: X := by
    intro t u X Y hX hY htu
    obtain ⟨l, hl, hYl⟩ := hH.committed_led hne hY
    rcases hH.committed_comparable_led hne hX htu hl with h | h
    · exact comparable_of_le h hYl
    · exact Or.inr (hYl.trans h)
  rcases Nat.le_total t u with h | h
  · exact horder hX hY h
  · exact (horder hY hX h).symm

end Commitment

end LogHistory

end Lib
