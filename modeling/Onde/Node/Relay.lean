import Onde.Node.Verdict

/-!
# Is every accepted publication relayed?

Alerts and social events enter the outbox in their handlers. A request for mutual aid has no handler, so it is let
through and forgotten: `relayed_iff` says exactly when a publication the node does not reject is relayed, and
`mutualAid_not_relayed` is one that is not.
-/

namespace Onde

open Lib Crypto Reputation Protocol

variable {h : Host}

/-- The kinds users publish. -/
def OndePublication (kind : OndeMessageType) : Prop := kind = .alert ∨ kind = .mutualAid ∨ kind.isSocial = true

/-- The event is known, in the outbox, and offered to every peer that is not marked as having it. -/
structure Relayed (g : GossipProtocol) (event : MeshEvent) : Prop where
  known : event.id ∈ g.knownEvents
  pending : event ∈ g.pendingBroadcasts
  offered : ∀ peer, event.id ∉ g.deliveredTo peer → ∀ max, g.pendingBroadcasts.length ≤ max →
    event ∈ (g.peekPendingForPeer peer max).1

/-- An event that is known and in the outbox is offered. -/
theorem relayed_of_pending {g : GossipProtocol} {event : MeshEvent} (hk : event.id ∈ g.knownEvents)
    (hp : event ∈ g.pendingBroadcasts) : Relayed g event := by
  refine ⟨hk, hp, ?_⟩
  intro peer hd max hmax
  have hle : (g.pendingBroadcasts.filter fun e => e.id ∉ g.deliveredTo peer).length ≤ max :=
    (List.length_filter_le _ _).trans hmax
  rw [GossipProtocol.peekPendingForPeer_fst, List.take_of_length_le hle]
  exact List.mem_filter.mpr ⟨hp, decide_eq_true hd⟩

/-- **A new event that is inserted is relayed**, whatever the eviction order. -/
theorem relayed_insertNew {ord : HashOrder} {g : GossipProtocol} {event : MeshEvent}
    (hnew : event.id ∉ g.knownEvents) : Relayed (g.insertNew ord event).2 event := by
  obtain ⟨_, hp, _, _, _⟩ := GossipProtocol.insertNew_new ord hnew
  refine relayed_of_pending GossipProtocol.self_mem_insertNew ?_
  rw [hp]
  exact self_mem_pushBounded _ _ _

namespace Node

variable {env : Env} {now : Nat} {n : Node h} {event : MeshEvent}

/-- A valid publication with a well-formed payload is no violation. -/
theorem routeViolation_valid (hv : event.validateWithReputation h.toPrimitives env.clock n.reputation = .ok ())
    (hk : OndePublication event.kind)
    (hp : event.kind.isSocial = true → ∃ effect, socialPayload h event = .ok effect) :
    n.routeViolation env event = none := by
  unfold routeViolation
  rcases hk with ha | hm | hs
  · rw [if_pos ha, hv]
  · simp [hm, OndeMessageType.isSocial]
  · obtain ⟨effect, he⟩ := hp hs
    have ha : event.kind ≠ .alert := by
      intro he
      rw [he] at hs
      cases hs
    have hend : event.kind ≠ .endorsement := by
      intro he
      rw [he] at hs
      cases hs
    rw [if_neg ha, if_neg hend, if_pos hs, he]
    simp only [hv]

/-- A valid publication with a well-formed payload registers, unless it is a request for mutual aid. -/
theorem registers_publication (hv : event.validateWithReputation h.toPrimitives env.clock n.reputation = .ok ())
    (hk : OndePublication event.kind)
    (hp : event.kind.isSocial = true → ∃ effect, socialPayload h event = .ok effect) (hm : event.kind ≠ .mutualAid) :
    n.Registers env event := by
  refine ⟨hv, ?_⟩
  rcases hk with ha | hm' | hs
  · exact accepts_alert ha
  · exact absurd hm' hm
  · exact (accepts_social hs).mpr (hp hs)

/-- A valid event of another key that is not known is stopped by the gate exactly when its author is ignored or has no
room left. -/
theorem passes_iff (hs : event.signatureValid h.toPrimitives = true) (hother : event.pubkey ≠ n.pubkeyHex)
    (hnew : event.id ∉ n.gossip.knownEvents) : (n.verdict now event).passes = false ↔
      n.reputation.actionFor event.pubkey now = .ignore ∨ ¬n.HasRoom now event.pubkey := by
  unfold verdict
  rw [if_neg (by simp [hs]), if_neg hother, if_neg hnew]
  by_cases hi : n.reputation.actionFor event.pubkey now = .ignore
  · simp [hi, Verdict.passes]
  · by_cases hr : n.HasRoom now event.pubkey
    · simp [hi, hr, Verdict.passes]
    · simp [hi, hr, Verdict.passes]

/-- **A request for mutual aid is never relayed**: it leaves the gossip state as it was. -/
theorem mutualAid_forgotten (env : Env) (now : Nat) (n : Node h) (event : MeshEvent) (hm : event.kind = .mutualAid)
    (hnew : event.id ∉ n.gossip.knownEvents) :
    ¬Relayed (n.receivePeerEvent env now event).node.gossip event := by
  rintro ⟨hknown, _, _⟩
  have hreg : ¬n.Registers env event := by
    rintro ⟨_, ha | ha | ha | ha⟩
    · rw [hm] at ha
      cases ha
    · rw [ha.1] at hm
      cases hm
    · rw [ha.1] at hm
      cases hm
    · rw [hm] at ha
      cases ha.1
  rw [(receivePeerEvent_spec env now n event).unregistered fun hr => hreg hr.2] at hknown
  exact hnew hknown

/-- **When a publication the node does not reject is relayed.** In every state, for every valid publication of another
key with a well-formed payload that is not known yet: not rejecting it relays it, exactly when it is no request for
mutual aid or the gate stops it. -/
theorem relayed_iff (env : Env) (now : Nat) (n : Node h) (event : MeshEvent) (hk : OndePublication event.kind)
    (hother : event.pubkey ≠ n.pubkeyHex)
    (hp : event.kind.isSocial = true → ∃ effect, socialPayload h event = .ok effect)
    (hv : event.validateWithReputation h.toPrimitives env.clock n.reputation = .ok ())
    (hnew : event.id ∉ n.gossip.knownEvents) :
    ((∀ reason, (n.receivePeerEvent env now event).outcome ≠ .rejected reason) →
      Relayed (n.receivePeerEvent env now event).node.gossip event) ↔
    event.kind ≠ .mutualAid ∨ n.reputation.actionFor event.pubkey now = .ignore ∨
      ¬n.HasRoom now event.pubkey := by
  have hs : event.signatureValid h.toPrimitives = true :=
    (checkSigned_ok.mp (validateWithPowMin_ok.mp hv).1).2.2.2
  have hspec := receivePeerEvent_spec env now n event
  have hrejected : (∃ reason, (n.receivePeerEvent env now event).outcome = .rejected reason) ↔
      (n.verdict now event).passes = false := receivePeerEvent_rejected (routeViolation_valid hv hk hp)
  have hstopped : (n.verdict now event).passes = false ↔ _ := passes_iff hs hother hnew
  constructor
  · intro hrelayed
    by_contra hnot
    obtain ⟨hmutual, hgate⟩ := not_or.mp hnot
    have hpass : (n.verdict now event).passes = true := Bool.not_eq_false _ ▸ mt hstopped.mp hgate
    have hadmitted : ∀ reason, (n.receivePeerEvent env now event).outcome ≠ .rejected reason := by
      intro reason hr
      have hstop := hrejected.mp ⟨reason, hr⟩
      rw [hpass] at hstop
      cases hstop
    exact mutualAid_forgotten env now n event (not_not.mp hmutual) hnew (hrelayed hadmitted)
  · rintro hcond hadmitted
    cases hpass : (n.verdict now event).passes with
    | false =>
      obtain ⟨reason, hr⟩ := hrejected.mpr hpass
      exact absurd hr (hadmitted reason)
    | true =>
      rcases hcond with hmutual | hgate
      · rw [hspec.registered hpass (registers_publication hv hk hp hmutual)]
        exact relayed_insertNew hnew
      · rw [hstopped.mpr hgate] at hpass
        cases hpass

end Node

/-! ## A request for mutual aid -/

/-- It does not reject them. -/
theorem trusting_accepts {kind : OndeMessageType} (hk : OndePublication kind) (hs : kind.isSocial = false)
    (reason : String) : (trustingNode.receivePeerEvent (.still 1700000000) 1700000000 (knownEvent kind)).outcome ≠
      .rejected reason := by
  intro hr
  have hroute : trustingNode.routeViolation (.still 1700000000) (knownEvent kind) = none := by
    refine Node.routeViolation_valid (trusting_valid kind) hk ?_
    rw [knownEvent_kind, hs]
    intro hf
    cases hf
  have hstop := (Node.receivePeerEvent_rejected hroute).mp ⟨reason, hr⟩
  rw [trusting_verdict] at hstop
  cases hstop

/-- **A valid request for mutual aid is not rejected and not relayed.** -/
theorem mutualAid_not_relayed :
    (knownEvent .mutualAid).validateWithReputation knownHost.toPrimitives 1700000000 trustingNode.reputation =
      .ok () ∧
    (∀ reason, (trustingNode.receivePeerEvent (.still 1700000000) 1700000000 (knownEvent .mutualAid)).outcome ≠
      .rejected reason) ∧
    ¬Relayed (trustingNode.receivePeerEvent (.still 1700000000) 1700000000 (knownEvent .mutualAid)).node.gossip
      (knownEvent .mutualAid) :=
  ⟨trusting_valid .mutualAid, trusting_accepts (Or.inr (Or.inl rfl)) rfl,
    Node.mutualAid_forgotten _ _ _ _ (knownEvent_kind _) (trusting_new _)⟩

/-- An alert, by contrast, is relayed. -/
theorem relayed_alert :
    Relayed (trustingNode.receivePeerEvent (.still 1700000000) 1700000000 (knownEvent .alert)).node.gossip
      (knownEvent .alert) := by
  have hiff := Node.relayed_iff (.still 1700000000) 1700000000 trustingNode (knownEvent .alert) (Or.inl rfl)
    (Node.verdict_room (trusting_verdict 0 .alert)).1 (fun hsocial => nomatch hsocial) (trusting_valid .alert)
    (trusting_new _)
  exact hiff.mpr (Or.inl (by decide)) (trusting_accepts (Or.inl rfl) rfl)

end Onde
