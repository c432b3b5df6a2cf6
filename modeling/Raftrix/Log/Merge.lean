import Raftrix.Lib.LogHistory
import Raftrix.Log.Holds
import Raftrix.Model.Node

/-!
# What the append loop of `HandleAppendEntries` does to a log

The loop walks over the request's entries. It skips an entry the log already has (same index and
term), appends one the log lacks, and at an entry of another term truncates the log from there. The
term it compares is read before the truncation, so the entry that caused the truncation is **not**
appended; the entries after it find nothing at their index and are appended beyond the gap.

`OnlyLastConflicts` is the condition under which no gap arises: no entry except possibly the last one
meets an entry of another term. Under it the loop is a function on lists (`appendEntries_merge`), in
one of three ways (`Merge`): a write failed before anything changed, the log grew within the request,
or its tail was cut off at the request's last entry. Every `Append` it made was at
`LastIndex() + 1`.

Without it the loop calls `Append` beyond `LastIndex() + 1` as soon as its writes succeed
(`appendEntries_gap`), so the condition is exact.
-/

namespace Raftrix

/-- No entry of the request, except possibly the last, meets an entry of another term at its
index. -/
def OnlyLastConflicts (rl : RaftLog) (req : AppendEntriesRequest) : Prop :=
  ∀ k q, k + 1 < req.entries.length → req.entries[k]? = some q →
    rl.termAt (req.prevLogIndex + k + 1) = 0 ∨ rl.termAt (req.prevLogIndex + k + 1) = q.term

/-- A well-formed slice of a log: its first entry has index `p + 1`. -/
def ListedFrom (p : Nat) (qs : List LogEntry) : Prop :=
  ∀ k q, qs[k]? = some q → q.index = p + k + 1 ∧ 1 ≤ q.term ∧ q.stored = q

theorem Listed.drop {es : List LogEntry} (h : Listed es) (p : Nat) : ListedFrom p (es.drop p) := by
  intro k q hk
  rw [List.getElem?_drop] at hk
  exact h _ _ hk

theorem ListedFrom.tail {p : Nat} {q : LogEntry} {qs : List LogEntry}
    (h : ListedFrom p (q :: qs)) : ListedFrom (p + 1) qs := by
  intro k r hk
  have := h (k + 1) r (by rw [List.getElem?_cons_succ]; exact hk)
  exact ⟨by omega, this.2⟩

/-- Where both the log (from position `p` on) and the request have an entry, the terms are equal. -/
def Agree (es : List LogEntry) (p : Nat) (qs : List LogEntry) : Prop :=
  ∀ k q e, qs[k]? = some q → es[p + k]? = some e → e.term = q.term

theorem Agree.cons {es : List LogEntry} {p : Nat} {q : LogEntry} {qs : List LogEntry}
    (hq : ∀ e, es[p]? = some e → e.term = q.term) (h : Agree es (p + 1) qs) :
    Agree es p (q :: qs) := by
  intro k r e hk he
  cases k with
  | zero =>
    obtain rfl : q = r := by simpa using hk
    exact hq e he
  | succ k =>
    rw [List.getElem?_cons_succ] at hk
    exact h k r e hk (by rw [Nat.add_right_comm]; exact he)

theorem Agree.of_length_le {es : List LogEntry} {p : Nat} (qs : List LogEntry)
    (h : es.length ≤ p) : Agree es p qs := by
  intro k q e _ he
  have := (List.getElem?_eq_some_iff.mp he).1
  omega

theorem Agree.dropLast_tail {es : List LogEntry} {p : Nat} {q : LogEntry} {qs : List LogEntry}
    (h : Agree es p (q :: qs).dropLast) : Agree es (p + 1) qs.dropLast := by
  intro k r e hk he
  rcases qs.eq_nil_or_concat with rfl | hqs
  · exact absurd hk (by simp)
  · refine h (k + 1) r e ?_ (by rw [← he]; congr 1; omega)
    rw [List.dropLast_cons_of_ne_nil (by rintro rfl; simp at hqs), List.getElem?_cons_succ]
    exact hk

/-- An entry that meets one of another term is the last one. -/
theorem Agree.eq_nil {es : List LogEntry} {p : Nat} {q e : LogEntry} {qs : List LogEntry}
    (h : Agree es p (q :: qs).dropLast) (he : es[p]? = some e) (ht : e.term ≠ q.term) : qs = [] := by
  by_contra hne
  refine ht (h 0 q e ?_ he)
  rw [List.dropLast_cons_of_ne_nil hne]
  rfl

/-- The log after the loop, and whether all its writes succeeded, for a request whose first entry
belongs at list position `p`. -/
inductive Merge (es : List LogEntry) (p : Nat) (qs : List LogEntry) : List LogEntry → Bool → Prop
  /-- A write failed before anything changed. -/
  | stopped : Merge es p qs es false
  /-- The missing entries were appended, at least until a write failed. -/
  | grown (j : Nat) (ok : Bool) (hagree : Agree es p qs)
      (hok : ok = true → qs.length ≤ es.length - p + j) :
      Merge es p qs (es ++ (qs.drop (es.length - p)).take j) ok
  /-- The last entry met one of another term. -/
  | cut (hlen : p + qs.length ≤ es.length) (hagree : Agree es p qs.dropLast) {e q : LogEntry}
      (he : es[p + qs.length - 1]? = some e) (hq : qs.getLast? = some q) (hne : e.term ≠ q.term) :
      Merge es p qs (es.take (p + qs.length - 1)) true

/-- The last entry of the request meets an entry of another term. -/
def LastConflicts (rl : RaftLog) (req : AppendEntriesRequest) : Prop :=
  ∃ q ∈ req.entries.getLast?, rl.termAt (req.prevLogIndex + req.entries.length) ≠ 0 ∧
    rl.termAt (req.prevLogIndex + req.entries.length) ≠ q.term

/-- After a merge in full the log reaches to the end of the request, unless its tail was cut off
there. -/
theorem Merge.length_le {es es' : List LogEntry} {p : Nat} {qs : List LogEntry} {ok : Bool}
    (h : Merge es p qs es' ok) (hp : p ≤ es.length) (hok : ok = true) :
    p + qs.length ≤ es'.length ∨ es'.length < es.length := by
  cases h with
  | stopped => exact absurd hok (by simp)
  | grown j _ _ hj =>
    left
    have := hj hok
    rw [List.length_append, List.length_take, List.length_drop]
    omega
  | cut hlen _ _ hq _ =>
    right
    have hpos : 0 < qs.length := List.length_pos_iff.mpr fun h0 => by
      rw [h0] at hq
      exact absurd hq (by simp)
    rw [List.length_take]
    omega

/-! ## The three rounds of the loop -/

section Rounds

variable {disk : Disk} {prev i : Nat} {rl : RaftLog} {q : LogEntry} {qs : List LogEntry}

theorem appendEntries_skip (h0 : rl.termAt (prev + i + 1) ≠ 0)
    (ht : rl.termAt (prev + i + 1) = q.term) :
    rl.appendEntries disk prev i (q :: qs) = rl.appendEntries disk prev (i + 1) qs := by
  rw [RaftLog.appendEntries]
  simp only [ht, ne_eq, not_true_eq_false, and_false, if_false]
  rw [if_neg (by rw [← ht]; exact h0)]

theorem appendEntries_missing (h0 : rl.termAt (prev + i + 1) = 0) :
    rl.appendEntries disk prev i (q :: qs) =
      match rl.append (disk (i + 1)) q with
      | none => ⟨rl, false, [(rl, q)]⟩
      | some rl' =>
        let r := rl'.appendEntries disk prev (i + 1) qs
        ⟨r.log, r.ok, (rl, q) :: r.appends⟩ := by
  cases happ : rl.append (disk (i + 1)) q <;> simp [RaftLog.appendEntries, h0, happ]

theorem appendEntries_conflict (h0 : rl.termAt (prev + i + 1) ≠ 0)
    (ht : rl.termAt (prev + i + 1) ≠ q.term) :
    rl.appendEntries disk prev i (q :: qs) =
      match rl.truncateFrom (disk (i + 1)) (prev + i + 1) with
      | none => ⟨rl, false, []⟩
      | some rl' => rl'.appendEntries disk prev (i + 1) qs := by
  cases hcut : rl.truncateFrom (disk (i + 1)) (prev + i + 1) <;>
    simp [RaftLog.appendEntries, h0, ht, hcut]

/-- When no write fails, the loop of `HandleAppendEntries` runs to its end. -/
theorem RaftLog.appendEntries_ok {disk : Disk} (hdisk : ∀ k, disk k = true) (prev : Nat) :
    ∀ (qs : List LogEntry) (i : Nat) (rl : RaftLog), (rl.appendEntries disk prev i qs).ok = true := by
  intro qs
  induction qs with
  | nil => exact fun _ _ => rfl
  | cons q qs ih =>
    intro i rl
    by_cases h0 : rl.termAt (prev + i + 1) = 0
    · simp [appendEntries_missing h0, RaftLog.append, hdisk, ih]
    · by_cases ht : rl.termAt (prev + i + 1) = q.term
      · rw [appendEntries_skip h0 ht, ih]
      · simp [appendEntries_conflict h0 ht, RaftLog.truncateFrom, hdisk, ih]

end Rounds

/-! ## The loop on lists -/

/-- One more matching entry in front of a merge. -/
theorem Merge.cons {es es' : List LogEntry} {p : Nat} {q : LogEntry} {qs : List LogEntry}
    {ok : Bool} (hp : p < es.length) (hq : ∀ e, es[p]? = some e → e.term = q.term)
    (h : Merge es (p + 1) qs es' ok) : Merge es p (q :: qs) es' ok := by
  cases h with
  | stopped => exact .stopped
  | grown j ok hagree hok =>
    have hdrop : qs.drop (es.length - (p + 1)) = (q :: qs).drop (es.length - p) := by
      rw [show es.length - p = es.length - (p + 1) + 1 by omega, List.drop_succ_cons]
    rw [hdrop]
    refine .grown j ok (hagree.cons hq) fun h => ?_
    have := hok h
    rw [List.length_cons]
    omega
  | cut hlen hagree he hl hne =>
    have hqs : qs ≠ [] := fun h => by rw [h] at hl; exact absurd hl (by simp)
    have hpos : p + 1 + qs.length - 1 = p + (q :: qs).length - 1 := by
      rw [List.length_cons]
      omega
    rw [hpos] at he ⊢
    refine .cut (by rw [List.length_cons]; omega) ?_ he ?_ hne
    · rw [List.dropLast_cons_of_ne_nil hqs]
      exact hagree.cons hq
    · rw [List.getLast?_cons_of_ne_nil hqs]
      exact hl

/-- A merge that starts right after an appended entry. -/
theorem Merge.append {es es' : List LogEntry} {q : LogEntry} {qs : List LogEntry} {ok : Bool}
    (h : Merge (es ++ [q]) (es.length + 1) qs es' ok) : Merge es es.length (q :: qs) es' ok := by
  have hagree : Agree es es.length (q :: qs) := .of_length_le _ (le_refl _)
  have hstart : ∀ j ok, (ok = true → (q :: qs).length ≤ j) →
      Merge es es.length (q :: qs) (es ++ (q :: qs).take j) ok := fun j ok hj => by
    have := Merge.grown (p := es.length) j ok hagree (by rw [Nat.sub_self, Nat.zero_add]; exact hj)
    rwa [Nat.sub_self, List.drop_zero] at this
  cases h with
  | stopped => exact hstart 1 false (fun h => absurd h (by simp))
  | grown j ok _ hok =>
    rw [List.length_append, List.length_singleton, Nat.sub_self, List.drop_zero,
      List.append_assoc]
    rw [List.length_append, List.length_singleton] at hok
    exact hstart (j + 1) ok fun h => by have := hok h; rw [List.length_cons]; omega
  | cut hlen _ _ hl _ =>
    rw [List.length_append, List.length_singleton] at hlen
    have hqs : qs = [] := List.eq_nil_of_length_eq_zero (by omega)
    rw [hqs] at hl
    exact absurd hl (by simp)

/-- **The loop is a merge**, and appends only at `LastIndex() + 1`. -/
theorem appendEntries_merge (disk : Disk) {prev : Nat} : ∀ {qs : List LogEntry} {i : Nat}
    {rl : RaftLog} {es : List LogEntry}, rl.Holds es → ListedFrom (prev + i) qs →
    prev + i ≤ es.length → Agree es (prev + i) qs.dropLast →
    ∃ es', (rl.appendEntries disk prev i qs).log.Holds es' ∧
      Merge es (prev + i) qs es' (rl.appendEntries disk prev i qs).ok ∧
      ∀ x ∈ (rl.appendEntries disk prev i qs).appends, x.2.index = x.1.lastIndex + 1
  | [], i, rl, es, h, _, _, _ => by
    refine ⟨es, h, ?_, fun x hx => absurd hx List.not_mem_nil⟩
    have hgrown : Merge es (prev + i) [] (es ++ (List.drop (es.length - (prev + i)) []).take 0) true :=
      .grown 0 true (fun k q e hk => absurd hk (by simp)) (fun _ => Nat.zero_le _)
    simpa [RaftLog.appendEntries] using hgrown
  | q :: qs, i, rl, es, h, hl, hp, hag => by
    rcases Nat.lt_or_ge (prev + i) es.length with hlt | hge
    · -- the index is taken
      have he : es[prev + i]? = some es[prev + i] := List.getElem?_eq_getElem hlt
      obtain ⟨hread, h0⟩ := h.termAt_taken he
      by_cases ht : rl.termAt (prev + i + 1) = q.term
      · have hq : ∀ e, es[prev + i]? = some e → e.term = q.term := fun e he' => by
          rw [← (h.termAt_taken he').1, ht]
        obtain ⟨es', h1, h2, h3⟩ := appendEntries_merge disk (i := i + 1) h hl.tail
          (by omega) hag.dropLast_tail
        rw [appendEntries_skip h0 ht]
        exact ⟨es', h1, h2.cons hlt hq, h3⟩
      · -- a conflict: the entry is the last one
        rw [hread] at ht
        obtain rfl := hag.eq_nil he ht
        rw [appendEntries_conflict h0 (by rw [hread]; exact ht)]
        cases htr : rl.truncateFrom (disk (i + 1)) (prev + i + 1) with
        | none => exact ⟨es, h, .stopped, fun x hx => absurd hx List.not_mem_nil⟩
        | some rl' =>
          refine ⟨es.take (prev + i + 1 - 1), h.truncateFrom htr, ?_,
            fun x hx => absurd hx List.not_mem_nil⟩
          exact .cut hlt (fun k r e hk => absurd hk (by simp)) he rfl ht
    · -- nothing there yet
      have heq : prev + i = es.length := by omega
      obtain ⟨hqi, hqt, hqs⟩ := hl 0 q rfl
      have hidx : q.index = rl.lastIndex + 1 := by rw [h.lastIndex]; omega
      rw [appendEntries_missing (h.termAt_missing hge)]
      cases hap : rl.append (disk (i + 1)) q with
      | none =>
        refine ⟨es, h, .stopped, fun x hx => ?_⟩
        rw [List.mem_singleton.mp hx]
        exact hidx
      | some rl' =>
        have h' := h.append (by omega) hqt hap
        rw [hqs] at h'
        have hlen : (es ++ [q]).length = prev + (i + 1) := by
          rw [List.length_append, List.length_singleton]
          omega
        obtain ⟨es', h1, h2, h3⟩ := appendEntries_merge disk (i := i + 1) h' hl.tail
          (by omega) (.of_length_le _ (by omega))
        refine ⟨es', h1, ?_, fun x hx => ?_⟩
        · rw [show prev + (i + 1) = es.length + 1 by omega] at h2
          rw [heq]
          exact h2.append
        · rcases List.mem_cons.mp hx with rfl | hx
          · exact hidx
          · exact h3 x hx

/-- **An earlier conflict opens a gap.** The entry after the conflicting one is appended one index too
far. -/
theorem appendEntries_gap {disk : Disk} {prev : Nat} (hdisk : ∀ k, disk k = true) :
    ∀ {qs : List LogEntry} {i : Nat} {rl : RaftLog} {es : List LogEntry}, rl.Holds es →
    ListedFrom (prev + i) qs → ∀ {k : Nat} {q e : LogEntry}, k + 1 < qs.length →
    qs[k]? = some q → es[prev + i + k]? = some e → e.term ≠ q.term →
    ∃ x ∈ (rl.appendEntries disk prev i qs).appends, x.2.index ≠ x.1.lastIndex + 1
  | [], _, _, _, _, _, _, _, _, hk, _, _, _ => absurd hk (Nat.not_lt_zero _)
  | r :: qs, i, rl, es, h, hl, k, q, e, hk, hq, he, hne => by
    have hlt : prev + i < es.length := by
      have := (List.getElem?_eq_some_iff.mp he).1
      omega
    have he0 : es[prev + i]? = some es[prev + i] := List.getElem?_eq_getElem hlt
    obtain ⟨hread, h0⟩ := h.termAt_taken he0
    by_cases ht : rl.termAt (prev + i + 1) = r.term
    · rw [appendEntries_skip h0 ht]
      cases k with
      | zero =>
        obtain rfl : r = q := by simpa using hq
        rw [Nat.add_zero, he0, Option.some.injEq] at he
        exact absurd (by rw [← he, ← hread, ht]) hne
      | succ k =>
        rw [List.length_cons] at hk
        rw [List.getElem?_cons_succ] at hq
        exact appendEntries_gap hdisk (i := i + 1) h hl.tail (by omega) hq
          (by rw [← he]; congr 1; omega) hne
    · obtain ⟨rl₁, htr⟩ : ∃ rl₁, rl.truncateFrom (disk (i + 1)) (prev + i + 1) = some rl₁ := by
        rw [RaftLog.truncateFrom, hdisk, if_pos rfl]
        exact ⟨_, rfl⟩
      have h' := h.truncateFrom htr
      rw [appendEntries_conflict h0 ht, htr]
      cases qs with
      | nil => exact absurd hk (by simp)
      | cons r' qs =>
        have hidx := (hl 1 r' rfl).1
        have hlen : (es.take (prev + i + 1 - 1)).length = prev + i := by
          rw [List.length_take]
          omega
        have hmiss : rl₁.termAt (prev + (i + 1) + 1) = 0 := h'.termAt_missing (by omega)
        obtain ⟨rl₂, hap⟩ : ∃ rl₂, rl₁.append (disk (i + 1 + 1)) r' = some rl₂ := by
          rw [RaftLog.append, hdisk, if_pos rfl]
          exact ⟨_, rfl⟩
        simp only [appendEntries_missing hmiss, hap]
        refine ⟨_, List.mem_cons_self, ?_⟩
        change r'.index ≠ _
        rw [h'.lastIndex, hlen]
        omega

/-- A merge that cuts the log off met a conflict at its last entry. -/
theorem Merge.lastConflicts {rl : RaftLog} {req : AppendEntriesRequest} {es es' : List LogEntry}
    {ok : Bool} (hes : rl.Holds es) (h : Merge es req.prevLogIndex req.entries es' ok)
    (hlt : es'.length < es.length) : LastConflicts rl req ∧
      es'.length + 1 = req.prevLogIndex + req.entries.length := by
  cases h with
  | stopped => exact absurd hlt (lt_irrefl _)
  | grown j _ _ _ =>
    rw [List.length_append] at hlt
    omega
  | @cut hlen _ e q he hq hne =>
    have hpos : req.entries ≠ [] := fun h0 => by rw [h0] at hq; exact absurd hq (by simp)
    have hlen0 := List.length_pos_iff.mpr hpos
    have hterm : rl.termAt (req.prevLogIndex + req.entries.length) = e.term := by
      have := termOf_eq he
      rw [hes.termAt, ← this]
      congr 1
      omega
    refine ⟨⟨q, hq, ?_, by rw [hterm]; exact hne⟩, ?_⟩
    · rw [hterm]
      have := (hes.listed _ _ he).2.1
      omega
    · rw [List.length_take]
      omega

/-! ## A merge with a slice of a leader's log -/

section Slice

variable {es l es' : List LogEntry} {p : Nat} {ok : Bool}

/-- Entries of equal term at one index come with equal logs below it. -/
def Matching (es l : List LogEntry) : Prop :=
  ∀ (i : Nat) (e e' : LogEntry), es[i]? = some e → l[i]? = some e' → e.term = e'.term →
    es.take (i + 1) = l.take (i + 1)

theorem Matching.of_le (h : es <+: l) : Matching es l := by
  intro i e _ he _ _
  have hlt : i < es.length := (List.getElem?_eq_some_iff.mp he).1
  obtain ⟨t, rfl⟩ := h
  rw [List.take_append_of_le_length hlt]

/-- Two matching logs that agree before `p` and in the terms from `p` to `k` agree before `k`. -/
theorem Matching.take_eq (hmatch : Matching es l) (hprev : es.take p = l.take p) {k : Nat}
    (hpk : p ≤ k) (hes : k ≤ es.length) (hl : k ≤ l.length) {qs : List LogEntry}
    (hagree : Agree es p qs) (hqs : qs <+: l.drop p) (hlen : k - p ≤ qs.length) :
    es.take k = l.take k := by
  rcases Nat.eq_or_lt_of_le hpk with rfl | hlt
  · exact hprev
  · have hi : p + (k - 1 - p) = k - 1 := by omega
    have he : es[k - 1]? = some es[k - 1] := List.getElem?_eq_getElem (by omega)
    have hq : qs[k - 1 - p]? = some qs[k - 1 - p] := List.getElem?_eq_getElem (by omega)
    have hl' : l[k - 1]? = some qs[k - 1 - p] := by
      have := Lib.getElem?_of_le hqs hq
      rwa [List.getElem?_drop, hi] at this
    have hterm := hagree (k - 1 - p) _ _ hq (by rw [hi]; exact he)
    have := hmatch (k - 1) _ _ he hl' hterm
    rwa [Nat.sub_add_cancel (by omega)] at this

/-- Matching logs with the same term at `p` agree up to there. -/
theorem Matching.take_prev (hmatch : Matching es l) (hes : Listed es) (hl : Listed l)
    (hprev : p = 0 ∨ p ≤ es.length ∧ termOf es p = termOf l p) :
    p ≤ es.length ∧ p ≤ l.length ∧ es.take p = l.take p := by
  rcases Nat.eq_zero_or_pos p with rfl | hpos
  · exact ⟨Nat.zero_le _, Nat.zero_le _, by rw [List.take_zero, List.take_zero]⟩
  · rcases hprev with h0 | ⟨hle, hterm⟩
    · omega
    · have hle' : p ≤ l.length := by
        by_contra hlt
        rw [(termOf_pos hl (i := p)).mpr (Or.inr (by omega))] at hterm
        rcases (termOf_pos hes).mp hterm with h | h <;> omega
      obtain ⟨k, rfl⟩ : ∃ k, p = k + 1 := ⟨p - 1, by omega⟩
      have he : es[k]? = some es[k] := List.getElem?_eq_getElem hle
      have he' : l[k]? = some l[k] := List.getElem?_eq_getElem hle'
      rw [termOf_eq he, termOf_eq he'] at hterm
      exact ⟨hle, hle', hmatch k _ _ he he' hterm⟩

/-- Matching logs that agree with a whole slice up to the end of one of them are comparable. -/
theorem Matching.comparable (hmatch : Matching es l) (hp : p ≤ es.length) (hpl : p ≤ l.length)
    (hprev : es.take p = l.take p) (hagree : Agree es p (l.drop p)) : es <+: l ∨ l <+: es := by
  have htake := fun k hpk hes hl => hmatch.take_eq hprev (k := k) hpk hes hl hagree
    (List.prefix_refl _) (by rw [List.length_drop]; omega)
  rcases Nat.le_total es.length l.length with h | h
  · left
    have := htake es.length hp (le_refl _) h
    rw [List.take_length] at this
    rw [this]
    exact List.take_prefix _ _
  · right
    have := htake l.length hpl h (le_refl _)
    rw [List.take_length] at this
    rw [← this]
    exact List.take_prefix _ _

theorem drop_slice (hp : p ≤ es.length) : (l.drop p).drop (es.length - p) = l.drop es.length := by
  rw [List.drop_drop]
  congr 1
  omega

/-- The log a cut leaves. -/
theorem Matching.take_cut (hmatch : Matching es l) (hpl : p ≤ l.length)
    (hprev : es.take p = l.take p) (hlen : p + (l.drop p).length ≤ es.length)
    (hagree : Agree es p (l.drop p).dropLast) {q : LogEntry} (hq : (l.drop p).getLast? = some q) :
    p + (l.drop p).length = l.length ∧ l.length ≤ es.length ∧ 0 < l.length ∧
      es.take (l.length - 1) = l.dropLast := by
  have hne : 0 < (l.drop p).length := List.length_pos_iff.mpr fun h0 => by
    rw [h0] at hq
    exact absurd hq (by simp)
  rw [List.length_drop] at hlen hne ⊢
  refine ⟨by omega, by omega, by omega, ?_⟩
  rw [List.dropLast_eq_take]
  exact hmatch.take_eq hprev (by omega) (by omega) (by omega) hagree (List.dropLast_prefix _)
    (by rw [List.length_dropLast, List.length_drop]; omega)

/-- **A merge takes over a leader's log.** -/
theorem Merge.splice (hmatch : Matching es l) (hp : p ≤ es.length) (hpl : p ≤ l.length)
    (hprev : es.take p = l.take p) (h : Merge es p (l.drop p) es' ok) :
    Lib.Splice LogEntry.term es l es' := by
  cases h with
  | stopped => exact .kept
  | grown j _ hagree _ =>
    rw [drop_slice hp]
    rcases hmatch.comparable hp hpl hprev hagree with hle | hle
    · obtain ⟨t, rfl⟩ := hle
      rw [List.drop_left]
      refine .extended (List.prefix_append _ _) ?_
      exact List.prefix_append_right_inj _ |>.mpr (List.take_prefix _ _)
    · rw [List.drop_eq_nil_of_le hle.length_le, List.take_nil, List.append_nil]
      exact .kept
  | cut hlen hagree he hq hne =>
    obtain ⟨heq, hles, hpos, htake⟩ := hmatch.take_cut hpl hprev hlen hagree hq
    rw [heq] at he ⊢
    rw [htake]
    have hlast : l.getLast? = (l.drop p).getLast? := by
      rw [List.getLast?_drop, if_neg]
      intro hge
      rw [List.drop_eq_nil_of_le hge] at hq
      exact absurd hq (by simp)
    refine .cut ?_ he (by rw [hlast]; exact hq) hne
    rw [← htake]
    exact List.take_prefix _ _

/-- After a successful merge the leader's log is taken over in full, or all of it but the last entry,
which conflicted. -/
theorem Merge.full (hmatch : Matching es l) (hp : p ≤ es.length) (hpl : p ≤ l.length)
    (hprev : es.take p = l.take p) (h : Merge es p (l.drop p) es' true) :
    l <+: es' ∨ es' = l.dropLast ∧ es'.length < es.length := by
  cases h with
  | grown j _ hagree hj =>
    left
    rw [drop_slice hp]
    have hj := hj rfl
    rw [List.length_drop] at hj
    rcases hmatch.comparable hp hpl hprev hagree with hle | hle
    · obtain ⟨t, rfl⟩ := hle
      rw [List.length_append] at hj
      rw [List.drop_left, List.take_of_length_le (by omega)]
    · exact hle.trans (List.prefix_append _ _)
  | cut hlen hagree _ hq _ =>
    obtain ⟨heq, hles, hpos, htake⟩ := hmatch.take_cut hpl hprev hlen hagree hq
    right
    rw [heq, htake, List.length_dropLast]
    exact ⟨rfl, by omega⟩

end Slice

end Raftrix
