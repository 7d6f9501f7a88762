import Onde.Node.Receptions

/-!
# Does a redelivery cost its author?

* `known_after`: which deliveries make an event known;
* `routeViolation_again`: what passed once is refused later for its proof of work only;
* `redelivery_free_iff`: over every run, the redeliveries that cost nothing;
* `transcription_charged`: a kind without a handler takes a unit of the budget each time.
-/

namespace Onde

open Lib Crypto Reputation Protocol

variable {h : Host}

/-- A reception takes no unit of the budget of the author and records no violation. -/
def Received.Free (r : Received h) : Prop := r.charged = false ∧ r.violation = none

/-- The receptions of an event accepted before that cost nothing: the event is the node's own or known, and an alert
or a social event still has the proof of work asked for; or it is new, and of an ignored author. -/
def Harmless (now : Nat) (n : Node h) (event : MeshEvent) : Prop :=
  ((event.pubkey = n.pubkeyHex ∨ event.id ∈ n.gossip.knownEvents) ∧
    (event.kind = .alert ∨ event.kind.isSocial = true →
      n.reputation.requiredPowDifficulty event.pubkey ≤ event.powDifficulty)) ∨
  (event.pubkey ≠ n.pubkeyHex ∧ event.id ∉ n.gossip.knownEvents ∧
    n.reputation.actionFor event.pubkey now = .ignore)

namespace Node

variable {env env' : Env} {now : Nat} {n n' : Node h} {event : MeshEvent}

/-- **After a delivery that passes the gate an event is known** exactly when it was or it registers. -/
theorem known_after (hpass : (n.verdict now event).passes = true) :
    event.id ∈ (n.receivePeerEvent env now event).node.gossip.knownEvents ↔
      event.id ∈ n.gossip.knownEvents ∨ n.Registers env event := by
  have hspec := receivePeerEvent_spec env now n event
  by_cases hreg : n.Registers env event
  · rw [hspec.registered hpass hreg]
    exact ⟨fun _ => Or.inr hreg, fun _ => GossipProtocol.self_mem_insertNew⟩
  · rw [hspec.unregistered fun hc => hreg hc.2]
    exact ⟨Or.inl, fun hc => hc.resolve_right hreg⟩

/-- An event that registered is harmless, as long as it has the proof of work asked for. -/
theorem harmless_of_registers {now' : Nat} (hpass : (n.verdict now event).passes = true) (hreg : n.Registers env event)
    (hfloor : (n.receivePeerEvent env now event).node.reputation.requiredPowDifficulty event.pubkey ≤
      event.powDifficulty) : Harmless now' (n.receivePeerEvent env now event).node event :=
  Or.inl ⟨Or.inr ((known_after hpass).mpr (Or.inr hreg)), fun _ => hfloor⟩

/-- A valid event is valid later as long as it has the proof of work asked for. -/
theorem validate_again (hv : event.validateWithReputation h.toPrimitives env.clock n.reputation = .ok ())
    (hle : env.clock ≤ env'.clock) :
    event.validateWithReputation h.toPrimitives env'.clock n'.reputation = .ok () ↔
      n'.reputation.requiredPowDifficulty event.pubkey ≤ event.powDifficulty := by
  obtain ⟨hsigned, hpow⟩ := validateWithPowMin_ok.mp hv
  constructor
  · intro hv'
    exact (checkPow_ok.mp (validateWithPowMin_ok.mp hv').2).1
  · intro hfloor
    exact validateWithPowMin_ok.mpr ⟨checkSigned_later hsigned hle, checkPow_ok.mpr ⟨hfloor, (checkPow_ok.mp hpow).2⟩⟩

/-- **What the dispatcher let pass it penalises later for its proof of work only**, under any reputation. -/
theorem routeViolation_again (hv : n.routeViolation env event = none) (hle : env.clock ≤ env'.clock) :
    n'.routeViolation env' event = none ↔ (event.kind = .alert ∨ event.kind.isSocial = true →
      n'.reputation.requiredPowDifficulty event.pubkey ≤ event.powDifficulty) := by
  obtain ⟨halert, hend, hsocial⟩ := routeViolation_none.mp hv
  rw [routeViolation_none]
  constructor
  · rintro ⟨halert', _, hsocial'⟩ (hk | hk)
    · exact (validate_again (halert hk) hle).mp (halert' hk)
    · exact (validate_again (hsocial hk).2 hle).mp (hsocial' hk).2
  · intro hfloor
    refine ⟨?_, hend, ?_⟩
    · intro hk
      exact (validate_again (halert hk) hle).mpr (hfloor (Or.inl hk))
    · intro hk
      exact ⟨(hsocial hk).1, (validate_again (hsocial hk).2 hle).mpr (hfloor (Or.inr hk))⟩

/-- A reception of a signed event that the dispatcher lets pass under the floor costs nothing exactly when it is
`Harmless`. -/
theorem free_iff (hs : event.signatureValid h.toPrimitives = true)
    (hroute : n.routeViolation env event = none ↔ (event.kind = .alert ∨ event.kind.isSocial = true →
      n.reputation.requiredPowDifficulty event.pubkey ≤ event.powDifficulty)) :
    (n.receivePeerEvent env now event).Free ↔ Harmless now n event := by
  have hspec := receivePeerEvent_spec env now n event
  rw [Received.Free, hspec.charged, hspec.violation, Harmless, ← hroute, ← verdict_ignored hs]
  cases hv : n.verdict now event with
  | unsigned =>
    rw [verdict_unsigned, hs] at hv
    cases hv
  | own =>
    have hown := (verdict_own hs).mp hv
    simp [hown, Verdict.passes]
  | known =>
    have hknown := ((verdict_known hs).mp hv).2
    simp [hknown, Verdict.passes]
  | ignored => simp [Verdict.passes]
  | room =>
    obtain ⟨ho, hk, _⟩ := verdict_room hv
    simp [ho, hk]
  | full =>
    obtain ⟨ho, hk, _⟩ := verdict_full hv
    simp [ho, hk]

/-! ## Runs -/

/-- Whatever else a node does without forgetting a known id. -/
def Keeping (n n' : Node h) : Prop := Aside n n' ∧ n.gossip.knownEvents ⊆ n'.gossip.knownEvents

/-- A reception forgets nothing as long as the known set is not full. -/
theorem known_receive (env : Env) (now : Nat) (event : MeshEvent) (hroom : n.gossip.knownEvents.card < maxKnownEvents) :
    n.gossip.knownEvents ⊆ (n.receivePeerEvent env now event).node.gossip.knownEvents := by
  have hspec := receivePeerEvent_spec env now n event
  by_cases hc : (n.verdict now event).passes = true ∧ n.Registers env event
  · rw [hspec.registered hc.1 hc.2]
    intro id hid
    exact GossipProtocol.mem_insertNew hroom (Or.inr hid)
  · rw [hspec.unregistered hc]

/-- **A run that never finds the known set full forgets nothing.** -/
theorem known_run {n₀ : Node h} {vs : List (Visit (Node h) Call)} (hr : Run Receives Keeping n₀ vs n)
    (hroom : ∀ v ∈ vs, v.state.gossip.knownEvents.card < maxKnownEvents) :
    n.identity = n₀.identity ∧ n₀.gossip.knownEvents ⊆ n.gossip.knownEvents := by
  induction hr with
  | start => exact ⟨rfl, Finset.Subset.refl _⟩
  | @visit ws s s' c hw hv ih =>
    obtain rfl : s' = _ := hv
    obtain ⟨hid, hknown⟩ := ih fun v hmem => hroom v (List.mem_append_left _ hmem)
    have hs : s.gossip.knownEvents.card < maxKnownEvents :=
      hroom ⟨s, c⟩ (List.mem_append_right _ (List.mem_singleton_self _))
    exact ⟨(receivePeerEvent_spec c.env c.now s c.event).identity.trans hid,
      hknown.trans (known_receive c.env c.now c.event hs)⟩
  | silent _ hs ih =>
    obtain ⟨hid, hknown⟩ := ih hroom
    exact ⟨hs.1.1.trans hid, hknown.trans hs.2⟩

/-- **When a redelivery costs its author nothing.** For every delivery that passed the gate without a violation:
the event is known afterwards exactly when it was or it registered; in every later state a redelivery costs nothing
exactly when it is `Harmless`; and in every run that forgets nothing, an event that is known or the node's own after the
first delivery costs nothing again, as long as an alert or a social event keeps the proof of work asked for. -/
theorem redelivery_free_iff (env : Env) (now : Nat) (n : Node h) (event : MeshEvent)
    (hadmitted : (n.admitPeerEvent env now event).decision = .admitted)
    (hviol : (n.receivePeerEvent env now event).violation = none) :
    (event.id ∈ (n.receivePeerEvent env now event).node.gossip.knownEvents ↔
      event.id ∈ n.gossip.knownEvents ∨ n.Registers env event) ∧
    (∀ (env' : Env) (now' : Nat) (n' : Node h), env.clock ≤ env'.clock →
      ((n'.receivePeerEvent env' now' event).Free ↔ Harmless now' n' event)) ∧
    ∀ vs n', Run Receives Keeping (n.receivePeerEvent env now event).node vs n' →
      (∀ v ∈ vs, v.state.gossip.knownEvents.card < maxKnownEvents) →
      event.pubkey = n.pubkeyHex ∨ event.id ∈ n.gossip.knownEvents ∨ n.Registers env event →
      ∀ v ∈ vs, v.label.event = event → env.clock ≤ v.label.env.clock →
        (event.kind = .alert ∨ event.kind.isSocial = true →
          v.state.reputation.requiredPowDifficulty event.pubkey ≤ event.powDifficulty) →
        (v.state.receivePeerEvent v.label.env v.label.now event).Free := by
  have hpass : (n.verdict now event).passes = true := by
    rcases (admitPeerEvent_spec env now n event).admitted with ⟨⟨reason, hd⟩, _⟩ | ⟨_, hp⟩
    · rw [hadmitted] at hd
      cases hd
    · exact hp
  have hs : event.signatureValid h.toPrimitives = true :=
    signatureValid_of_verdict fun hu => by rw [hu] at hpass; cases hpass
  have hfull : n.verdict now event ≠ .full := fun hf => by rw [hf] at hpass; cases hpass
  have hroute : n.routeViolation env event = none := by
    rwa [(receivePeerEvent_spec env now n event).violation, if_neg hfull, if_pos hpass] at hviol
  refine ⟨known_after hpass, fun env' now' n' hclock => free_iff hs (routeViolation_again hroute hclock), ?_⟩
  rintro vs n' hr hroom hin v hmem _ hclock hfloor
  obtain ⟨past, rest, heq⟩ := List.append_of_mem hmem
  -- nothing was forgotten since the first delivery
  obtain ⟨hid, hknown⟩ := known_run (hr.upTo heq) fun w hw => hroom w (heq ▸ List.mem_append_left _ hw)
  refine (free_iff hs (routeViolation_again hroute hclock)).mpr (Or.inl ⟨?_, hfloor⟩)
  rcases hin with hown | hin
  · left
    rw [pubkeyHex, hid, (receivePeerEvent_spec env now n event).identity]
    exact hown
  · right
    exact hknown ((known_after hpass).mpr hin)

end Node

/-! ## An event that is charged again, and one that is not -/

theorem trusting_admitted (kind : OndeMessageType) :
    (trustingNode.admitPeerEvent (.still 1700000000) 1700000000 (knownEvent kind)).decision = .admitted := by
  rcases (Node.admitPeerEvent_spec (.still 1700000000) 1700000000 trustingNode (knownEvent kind)).admitted with
    ⟨_, hp⟩ | ⟨hd, _⟩
  · rw [trusting_verdict] at hp
    cases hp
  · exact hd

theorem trusting_violation (kind : OndeMessageType) :
    (trustingNode.receivePeerEvent (.still 1700000000) 1700000000 (knownEvent kind)).violation =
      trustingNode.routeViolation (.still 1700000000) (knownEvent kind) := by
  rw [(Node.receivePeerEvent_spec _ _ _ _).violation, trusting_verdict, if_neg (by decide), if_pos (by decide)]

theorem transcription_violation :
    (trustingNode.receivePeerEvent (.still 1700000000) 1700000000 (knownEvent .transcription)).violation = none := by
  rw [trusting_violation, Node.routeViolation_none, knownEvent_kind]
  exact ⟨fun hk => (nomatch hk), fun hk => (nomatch hk), fun hk => (nomatch hk)⟩

/-- **A transcription takes a unit of the budget of its author at each delivery.** -/
theorem transcription_charged :
    (trustingNode.admitPeerEvent (.still 1700000000) 1700000000 (knownEvent .transcription)).decision = .admitted ∧
    (trustingNode.receivePeerEvent (.still 1700000000) 1700000000 (knownEvent .transcription)).violation = none ∧
    ((trustingNode.receivePeerEvent (.still 1700000000) 1700000000 (knownEvent .transcription)).node.receivePeerEvent
      (.still 1700000000) 1700000000 (knownEvent .transcription)).charged = true := by
  refine ⟨trusting_admitted _, transcription_violation, ?_⟩
  have hspec := Node.receivePeerEvent_spec (.still 1700000000) 1700000000 trustingNode (knownEvent .transcription)
  have hreg : ¬trustingNode.Registers (.still 1700000000) (knownEvent .transcription) := by
    rintro ⟨_, ha⟩
    rw [Node.Accepts, Node.EndorsementAccepted, Node.AbuseReportAccepted, knownEvent_kind] at ha
    rcases ha with ha | ha | ha | ha
    · cases ha
    · cases ha.1
    · cases ha.1
    · cases ha.1
  have hnew : (knownEvent .transcription).id ∉ (trustingNode.receivePeerEvent (.still 1700000000) 1700000000
      (knownEvent .transcription)).node.gossip.knownEvents := by
    rw [hspec.unregistered fun hc => hreg hc.2]
    exact trusting_new _
  have hclean : (trustingNode.receivePeerEvent (.still 1700000000) 1700000000
      (knownEvent .transcription)).node.reputation.abuse.lookup knownAuthor = none := by
    have habuse := Node.receivePeerEvent_abuse transcription_violation
    rwa [knownEvent_pubkey] at habuse
  have hstamps : ((trustingNode.receivePeerEvent (.still 1700000000) 1700000000
      (knownEvent .transcription)).node.spamGuard.stamps knownAuthor).length < spamBudgetPerWindow := by
    have hle := (Node.stamps_receive (.still 1700000000) 1700000000 trustingNode (knownEvent .transcription)
      knownAuthor).length_le
    rw [if_pos ⟨knownEvent_pubkey _, trusting_verdict _ _⟩] at hle
    exact Nat.lt_of_le_of_lt hle (by decide)
  rw [(Node.receivePeerEvent_spec _ _ _ _).charged, known_verdict 1700000000 hspec.identity hnew hclean hstamps]
  rfl

/-- An alert takes one, and its redelivery costs nothing. -/
theorem alert_free : ((trustingNode.receivePeerEvent (.still 1700000000) 1700000000
    (knownEvent .alert)).node.receivePeerEvent (.still 1700000001) 1700000001 (knownEvent .alert)).Free := by
  have hviol : (trustingNode.receivePeerEvent (.still 1700000000) 1700000000 (knownEvent .alert)).violation =
      none := by
    rw [trusting_violation, Node.routeViolation_none, knownEvent_kind]
    exact ⟨fun _ => trusting_valid .alert, fun hk => (nomatch hk), fun hk => (nomatch hk)⟩
  have hrep : (trustingNode.receivePeerEvent (.still 1700000000) 1700000000 (knownEvent .alert)).node.reputation =
      trustingNode.reputation := by
    rw [Node.receivePeerEvent_reputation (by rw [knownEvent_kind]; decide) (by rw [knownEvent_kind]; decide), hviol]
  have hreg : trustingNode.Registers (.still 1700000000) (knownEvent .alert) :=
    ⟨trusting_valid .alert, Node.accepts_alert (knownEvent_kind .alert)⟩
  have hpass : (trustingNode.verdict 1700000000 (knownEvent .alert)).passes = true := by
    rw [trusting_verdict]
    rfl
  obtain ⟨_, hfree, _⟩ := Node.redelivery_free_iff (.still 1700000000) 1700000000 trustingNode
    (knownEvent .alert) (trusting_admitted _) hviol
  refine (hfree (.still 1700000001) 1700000001 _ (by decide)).mpr (Node.harmless_of_registers hpass hreg ?_)
  rw [hrep, trusting_floor]
  exact UInt8.zero_le

end Onde
