import Raftrix.Model.Transport

/-!
# The health of the peers

The transport keeps a `Member` for every peer and changes it when an RPC to the peer ends; the tracker reads
it. After any RPCs, to any peers and with any outcomes, a member is given by two numbers (`member_after`):
how many RPCs to its peer have failed since the last answer (`missed`), and when that answer came
(`lastHeard`). A response that cannot be decoded is neither a failure nor an answer.

**`health_of_peers`**: a peer is live as long as less than two RPCs have failed since its last answer, so one
failure does not count. The tracker warns about a peer that has been silent for more than 30 seconds as long
as less than five have: once a peer is dead, there is no warning any more.
-/

namespace Raftrix

open Lib.Json (Value)

/-- A call of `rpc` that has ended. -/
structure Posted where
  {α : Type}
  ofJson : Value → Option α
  path : Bytes
  peer : Peer
  /-- When it ended. -/
  now : Nat
  outcome : HttpOutcome

namespace Posted

/-- There was an answer. -/
def answered (x : Posted) : Bool :=
  match x.outcome with
  | .response status body => status == 200 && ((Lib.Json.decode body).bind x.ofJson).isSome
  | .invalid | .failed => false

/-- There was no response, or one with another status. -/
def failed (x : Posted) : Bool :=
  match x.outcome with
  | .response status _ => status != 200
  | .failed => true
  | .invalid => false

end Posted

/-- The RPCs to `id` that have failed since the last answer, the newest RPC being the first. -/
def missed (id : NodeID) : List Posted → Nat
  | [] => 0
  | x :: past =>
    if x.peer.id ≠ id then missed id past
    else if x.answered then 0
    else if x.failed then missed id past + 1
    else missed id past

/-- When `id` last gave an answer; `start` if it never did. -/
def lastHeard (start : Nat) (id : NodeID) : List Posted → Nat
  | [] => start
  | x :: past => if x.peer.id = id ∧ x.answered then x.now else lastHeard start id past

/-- The state that goes with a number of failures. -/
def PeerState.ofMissed (k : Nat) : PeerState :=
  if 5 ≤ k then .dead else if 2 ≤ k then .unreachable else .alive

theorem PeerState.ofMissed_eq_alive_iff {k : Nat} : PeerState.ofMissed k = .alive ↔ k < 2 := by
  unfold ofMissed
  split
  · simp; omega
  · split <;> simp <;> omega

theorem PeerState.ofMissed_eq_dead_iff {k : Nat} : PeerState.ofMissed k = .dead ↔ 5 ≤ k := by
  unfold ofMissed
  split
  · simp; omega
  · split <;> simp <;> omega

namespace HTTPTransport

variable {t : HTTPTransport} {id : NodeID} {start : Nat} {peers : List Peer} {past : List Posted}

/-- The transport after the RPCs, the newest being the first. -/
def after (start : Nat) (peers : List Peer) : List Posted → HTTPTransport
  | [] => newHTTPTransport start peers
  | x :: past => ((after start peers past).rpc x.ofJson x.path x.now x.peer x.outcome).1

/-! ## One RPC -/

theorem lookup_update (f : Member → Member) (id id' : NodeID) :
    (t.update id f).members.lookup id' =
      if id' = id then (t.members.lookup id').map f else t.members.lookup id' := by
  by_cases hid : id' = id
  · rw [if_pos hid, hid, update]
    cases hm : t.members.lookup id with
    | none => exact hm
    | some m => exact AList.lookup_insert _
  · rw [if_neg hid, update]
    cases t.members.lookup id with
    | none => rfl
    | some m => exact AList.lookup_insert_ne hid

/-- What `rpc` records. -/
theorem rpc_eq (t : HTTPTransport) (x : Posted) :
    (t.rpc x.ofJson x.path x.now x.peer x.outcome).1 =
      if x.answered then t.recordSuccess x.now x.peer.id
      else if x.failed then t.recordFailure x.peer.id
      else t := by
  obtain ⟨ofJson, path, peer, now, outcome⟩ := x
  unfold rpc Posted.answered Posted.failed
  cases outcome with
  | invalid => rfl
  | failed => rfl
  | response status body =>
    by_cases hstatus : status = 200
    · cases hread : (Lib.Json.decode body).bind ofJson <;> simp [answer, hstatus, hread, record]
    · simp [answer, hstatus, record]

/-- The state after another failure; the first one leaves it as it was. -/
theorem recordFailure_ofMissed (peer : Peer) (seen k : Nat) :
    Member.recordFailure ⟨peer, .ofMissed k, seen, k⟩ = ⟨peer, .ofMissed (k + 1), seen, k + 1⟩ := by
  unfold Member.recordFailure PeerState.ofMissed
  dsimp only
  split
  · rfl
  · split
    · rfl
    · rw [if_neg (by omega), if_neg (by omega)]

/-! ## All RPCs -/

/-- The members at the start. -/
theorem lookup_newHTTPTransport (start : Nat) (peers : List Peer) (id : NodeID) :
    (newHTTPTransport start peers).members.lookup id =
      if id ∈ peers.map Peer.id then some ⟨⟨id⟩, .alive, start, 0⟩ else none := by
  unfold newHTTPTransport
  induction peers using List.reverseRecOn with
  | nil => simp
  | append_singleton peers p ih =>
    rw [List.foldl_append, List.foldl_cons, List.foldl_nil]
    by_cases hid : id = p.id
    · subst hid
      rw [AList.lookup_insert, if_pos (by simp)]
      rfl
    · rw [AList.lookup_insert_ne hid, ih]
      simp [hid]

/-- **The member of a peer after any RPCs.** -/
theorem member_after (hid : id ∈ peers.map Peer.id) : ∀ past : List Posted,
    (after start peers past).members.lookup id =
      some ⟨⟨id⟩, .ofMissed (missed id past), lastHeard start id past, missed id past⟩
  | [] => by
    rw [after, lookup_newHTTPTransport, if_pos hid]
    rfl
  | x :: past => by
    have ih := member_after hid past
    rw [after, rpc_eq]
    by_cases hpeer : x.peer.id = id
    · subst hpeer
      cases hanswered : x.answered with
      | true =>
        simp only [missed, lastHeard, hanswered, recordSuccess, lookup_update, ih, ne_eq, not_true_eq_false,
          and_self, if_true, if_false, Option.map_some]
        rfl
      | false =>
        cases hfailed : x.failed <;>
          simp only [missed, lastHeard, hanswered, hfailed, recordFailure, lookup_update, ih, ne_eq,
            not_true_eq_false, Bool.false_eq_true, and_false, if_true, if_false, Option.map_some,
            recordFailure_ofMissed]
    · -- the RPC is to another peer
      have hsame : ∀ f, ((after start peers past).update x.peer.id f).members.lookup id =
          (after start peers past).members.lookup id := fun f => by
        rw [lookup_update, if_neg (Ne.symm hpeer)]
      simp only [missed, lastHeard, hpeer, ne_eq, not_false_eq_true, false_and, if_true, if_false, ← ih]
      split
      · exact hsame _
      · split
        · exact hsame _
        · rfl

end HTTPTransport

/-- **What the tracker says after any RPCs**: who is live, and whom it warns about. -/
theorem health_of_peers {peers : List Peer} {h : HeartbeatTracker}
    (hmembers : ∀ id ∈ h.members, id ∈ peers.map Peer.id) (start : Nat) (past : List Posted) :
    h.livePeers (.after start peers past) = h.members.filter (fun id => missed id past < 2) ∧
      ∀ now, h.check (.after start peers past) now = h.members.filter fun id =>
        HeartbeatTracker.deadThreshold < now - lastHeard start id past ∧ missed id past < 5 := by
  constructor
  · refine List.filter_congr fun id hid => ?_
    rw [HTTPTransport.member_after (hmembers id hid), Option.any_some, Member.isAlive,
      Bool.eq_iff_iff]
    simp only [beq_iff_eq, PeerState.ofMissed_eq_alive_iff, decide_eq_true_eq]
  · intro now
    refine List.filter_congr fun id hid => ?_
    rw [HTTPTransport.member_after (hmembers id hid), Option.any_some, Bool.eq_iff_iff]
    simp only [Bool.and_eq_true, decide_eq_true_eq, bne_iff_ne, ne_eq,
      PeerState.ofMissed_eq_dead_iff, not_le]

/-- Five RPCs to the first of two peers get no response. The second one, to which none was sent, is warned
about after 30 seconds; the first one, which is dead, is not. -/
theorem health_of_peers_fiveLost :
    let lost : Posted := ⟨RequestVoteResponse.ofJson, [], ⟨[1]⟩, 5, .failed⟩
    let h : HeartbeatTracker := ⟨[[1], [2]]⟩
    let t := HTTPTransport.after 0 [⟨[1]⟩, ⟨[2]⟩] (List.replicate 5 lost)
    h.livePeers t = [[2]] ∧ h.check t 30000000001 = [[2]] := by
  intro lost h t
  have hmembers : ∀ id ∈ h.members, id ∈ [(⟨[1]⟩ : Peer), ⟨[2]⟩].map Peer.id := by decide
  obtain ⟨hlive, hcheck⟩ := health_of_peers hmembers 0 (List.replicate 5 lost)
  refine ⟨hlive.trans ?_, (hcheck _).trans ?_⟩
  · decide
  · decide

end Raftrix
