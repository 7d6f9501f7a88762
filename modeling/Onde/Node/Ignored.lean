import Onde.Node.HealGrace

/-!
# Ignored authors

* `Contained`: an event is refused and the node stays as it was, but for its counters;
* `contained_of_stopped`: so it is for an event of an ignored author that is unsigned or new;
* `Echoed`: what the gate and the presence book do with an event that is known already (`echoed_of_known`);
* `ignored_contained`: the two together; `echo_noted`: an echo of an ignored author is no refusal.
-/

namespace Onde

open Lib Crypto Reputation Protocol Social Storage

variable {h : Host}

namespace Node

/-- An event is refused, and everything but the counters stays. -/
structure Contained (n : Node h) (r : Received h) : Prop where
  rejected : ∃ reason, r.outcome = .rejected reason
  reputation : r.node.reputation = n.reputation
  gossip : r.node.gossip = n.gossip
  messageStore : r.node.messageStore = n.messageStore
  persistence : r.node.persistence = n.persistence
  socialStore : r.node.socialStore = n.socialStore
  presence : SamePresence n r.node

/-- An echo costs its author nothing and proves that the author is there. -/
structure Echoed (now : Nat) (n : Node h) (event : MeshEvent) (r : Received h) : Prop where
  charged : r.charged = false
  spamGuard : r.node.spamGuard = n.spamGuard
  presence : SamePresence (n.notePeerTraffic event.pubkey now) r.node

variable {env : Env} {now : Nat} {n : Node h} {event : MeshEvent}

/-- The gate stops an unsigned or new event of an ignored author and changes nothing. -/
theorem admitPeerEvent_ignored (env : Env) (hother : event.pubkey ≠ n.pubkeyHex)
    (hignored : n.reputation.actionFor event.pubkey now = .ignore)
    (hnew : event.signatureValid h.toPrimitives = false ∨ event.id ∉ n.gossip.knownEvents) :
    ∃ reason, n.admitPeerEvent env now event = ⟨.rejected reason, n, false, none⟩ := by
  unfold admitPeerEvent
  by_cases hs : event.signatureValid h.toPrimitives = false
  · exact ⟨_, if_pos (by simp [hs])⟩
  · have hk : event.id ∉ n.gossip.knownEvents := hnew.resolve_left hs
    dsimp only
    rw [if_neg (by simpa using hs), if_neg hother, if_neg (by simpa [GossipProtocol.isKnown] using hk),
      if_pos hignored]
    exact ⟨_, rfl⟩

/-- **An unsigned or new event of an ignored author is contained.** -/
theorem contained_of_stopped (env : Env) (hother : event.pubkey ≠ n.pubkeyHex)
    (hignored : n.reputation.actionFor event.pubkey now = .ignore)
    (hnew : event.signatureValid h.toPrimitives = false ∨ event.id ∉ n.gossip.knownEvents) :
    Contained n (n.receivePeerEvent env now event) := by
  obtain ⟨reason, hgate⟩ := admitPeerEvent_ignored env hother hignored hnew
  rw [receivePeerEvent, receivePeerEventInner, hgate]
  exact ⟨⟨reason, rfl⟩, rfl, rfl, rfl, rfl, rfl, rfl, rfl⟩

/-- **An event that is known already passes the gate for free, and its author is noted.** -/
theorem echoed_of_known (env : Env) (hother : event.pubkey ≠ n.pubkeyHex)
    (hs : event.signatureValid h.toPrimitives = true) (hk : event.id ∈ n.gossip.knownEvents) :
    Echoed now n event (n.receivePeerEvent env now event) := by
  have hverdict : n.verdict now event = .known := (verdict_known hs).mpr ⟨hother, hk⟩
  have hspec := receivePeerEvent_spec env now n event
  refine ⟨by rw [hspec.charged, hverdict]; rfl, by rw [hspec.spamGuard, hverdict]; rfl, ?_⟩
  obtain ⟨n₁, hgate, hid, hp⟩ : ∃ n₁, n.admitPeerEvent env now event = ⟨.admitted, n₁, false, none⟩ ∧
      n₁.pubkeyHex = n.pubkeyHex ∧ SamePresence n n₁ := by
    unfold admitPeerEvent
    dsimp only
    rw [if_neg (by simp [hs]), if_neg hother, if_pos (by simpa [GossipProtocol.isKnown] using hk)]
    exact ⟨_, rfl, rfl, rfl, rfl⟩
  rw [receivePeerEvent, receivePeerEventInner, hgate]
  dsimp only
  rw [if_neg (by rw [hid]; exact hother)]
  have hnoted : SamePresence (n.notePeerTraffic event.pubkey now) (n₁.notePeerTraffic event.pubkey now) := by
    constructor
    · rw [notePeerTraffic, notePeerTraffic, hp.seen]
    · rw [notePeerTraffic, notePeerTraffic]
      dsimp only
      rw [partitionSuspected_congr hp, hp.grace]
  have hroute := routePeerEvent_presence env now (n₁.notePeerTraffic event.pubkey now) event
  exact hnoted.trans ⟨hroute.seen, hroute.grace⟩

/-- The echo of an author that was never seen before is not contained. -/
theorem Echoed.not_contained {r : Received h} (he : Echoed now n event r)
    (hseen : n.peerLastSeen.lookup event.pubkey = none) : ¬Contained n r := by
  intro hc
  have hbook := hc.presence.seen.symm.trans he.presence.seen
  rw [hbook, notePeerTraffic, AList.lookup_insert] at hseen
  cases hseen

/-- **Ignore containment.** An event of an ignored author that is not signed, or not known yet, is refused, and the
reputation, the gossip, both stores, the presence book and the grace stay as they were. One that is known already is an
echo: it costs no budget, and its author is noted as present. -/
theorem ignored_contained (env : Env) (now : Nat) (n : Node h) (event : MeshEvent)
    (hother : event.pubkey ≠ n.pubkeyHex) (hignored : n.reputation.actionFor event.pubkey now = .ignore) :
    (event.signatureValid h.toPrimitives = false ∨ event.id ∉ n.gossip.knownEvents →
      Contained n (n.receivePeerEvent env now event)) ∧
    (event.signatureValid h.toPrimitives = true → event.id ∈ n.gossip.knownEvents →
      Echoed now n event (n.receivePeerEvent env now event)) :=
  ⟨contained_of_stopped env hother hignored, echoed_of_known env hother⟩

/-! ## A known event of an ignored author -/

/-- A node that ignores the author after three violations, -/
def ignoringNode : Node knownHost :=
  let flooded := fun n : Node knownHost => n.recordViolation knownAuthor .excessiveRate 1700000000
  flooded (flooded (flooded strangerNode))

/-- and one that has seen an offer of help before, which has no handler. -/
def familiarNode : Node knownHost :=
  { ignoringNode with gossip := { ignoringNode.gossip with knownEvents := {(knownEvent .mutualAid).id} } }

theorem ignoring_ignores : ignoringNode.reputation.actionFor knownAuthor 1700000000 = .ignore := by decide +kernel

theorem knownEvent_other (kind : OndeMessageType) : (knownEvent kind).pubkey ≠ ignoringNode.pubkeyHex := by
  rw [knownEvent_pubkey]
  exact stranger_pubkey

theorem knownEvent_ignored (kind : OndeMessageType) :
    ignoringNode.reputation.actionFor (knownEvent kind).pubkey 1700000000 = .ignore := by
  rw [knownEvent_pubkey]
  exact ignoring_ignores

theorem ignored_contained_known :
    Contained ignoringNode (ignoringNode.receivePeerEvent (.still 1700000000) 1700000000 (knownEvent .alert)) :=
  (ignored_contained (.still 1700000000) 1700000000 ignoringNode (knownEvent .alert) (knownEvent_other .alert)
    (knownEvent_ignored .alert)).1 (.inr (Finset.notMem_empty _))

/-- **An echo of an ignored author is not contained**: the node had never heard of the author, and notes it. No handler
sees the event, and it is not refused either. -/
theorem echo_noted :
    (knownEvent .mutualAid).pubkey ≠ familiarNode.pubkeyHex ∧
      familiarNode.reputation.actionFor (knownEvent .mutualAid).pubkey 1700000000 = .ignore ∧
      (knownEvent .mutualAid).id ∈ familiarNode.gossip.knownEvents ∧
      (∀ n : Node knownHost, n.routePeerEvent (.still 1700000000) 1700000000 (knownEvent .mutualAid) =
        ⟨.other, n, false, none⟩) ∧
      ¬Contained familiarNode
        (familiarNode.receivePeerEvent (.still 1700000000) 1700000000 (knownEvent .mutualAid)) := by
  have hother : (knownEvent .mutualAid).pubkey ≠ familiarNode.pubkeyHex := knownEvent_other .mutualAid
  have hk : (knownEvent .mutualAid).id ∈ familiarNode.gossip.knownEvents := Finset.mem_singleton_self _
  refine ⟨hother, knownEvent_ignored .mutualAid, hk, fun _ => rfl, ?_⟩
  exact (echoed_of_known _ hother (knownEvent_signatureValid .mutualAid) hk).not_contained rfl

end Node

end Onde
