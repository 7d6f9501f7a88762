import Onde.Node.Receive

/-!
# What a reception does

* `verdict`: the six ways through the gate, read off the state before (`admitPeerEvent_spec`);
* `routeViolation`: the violation the dispatcher records, by the kind of the event (`routePeerEvent_violation`);
* `Registers`: what puts an admitted event in the outbox (`routePeerEvent_gossip`);
* `receivePeerEvent_spec`: a reception in these terms, and `receivePeerEvent_abuse`: the violation is all that touches
  the abuse record of the author.
-/

namespace Onde

open Lib Crypto Reputation Protocol Social Storage

variable {h : Host}

/-- The ways through the gate: without a signature, of the node itself, already known, by an ignored author, within the
budget, over the budget. -/
inductive Verdict where
  | unsigned | own | known | ignored | room | full
  deriving DecidableEq

/-- The event goes on to its handler. -/
def Verdict.passes : Verdict → Bool
  | .own | .known | .room => true
  | _ => false

namespace Node

/-- The window of the author has room for one more event. -/
def HasRoom (n : Node h) (now : Nat) (author : String) : Prop :=
  (SpamGuard.purge n.spamGuard.windowSecs now (n.spamGuard.stamps author)).length < n.budgetAt now

instance (n : Node h) (now : Nat) (author : String) : Decidable (n.HasRoom now author) :=
  inferInstanceAs (Decidable (_ < _))

/-- The way an event takes through the gate. -/
def verdict (n : Node h) (now : Nat) (event : MeshEvent) : Verdict :=
  if event.signatureValid h.toPrimitives = false then .unsigned
  else if event.pubkey = n.pubkeyHex then .own
  else if event.id ∈ n.gossip.knownEvents then .known
  else if n.reputation.actionFor event.pubkey now = .ignore then .ignored
  else if n.HasRoom now event.pubkey then .room
  else .full

variable {env : Env} {now : Nat} {n : Node h} {event : MeshEvent}

/-- The grace only widens the budget. -/
theorem budget_le_budgetAt (n : Node h) (now : Nat) : spamBudgetPerWindow ≤ n.budgetAt now := by
  unfold budgetAt
  split
  · decide
  · exact Nat.le_refl _

theorem verdict_unsigned : n.verdict now event = .unsigned ↔ event.signatureValid h.toPrimitives = false := by
  unfold verdict
  split
  · simp [*]
  · repeat' split
    all_goals simp [*]

/-- Past the first check the signature is valid. -/
theorem signatureValid_of_verdict (hv : n.verdict now event ≠ .unsigned) :
    event.signatureValid h.toPrimitives = true := by
  rw [Ne, verdict_unsigned] at hv
  simpa using hv

theorem verdict_room (hv : n.verdict now event = .room) : event.pubkey ≠ n.pubkeyHex ∧
    event.id ∉ n.gossip.knownEvents ∧ n.HasRoom now event.pubkey := by
  unfold verdict at hv
  repeat' split at hv
  all_goals first | exact ⟨‹_›, ‹_›, ‹_›⟩ | cases hv

theorem verdict_full (hv : n.verdict now event = .full) : event.pubkey ≠ n.pubkeyHex ∧
    event.id ∉ n.gossip.knownEvents ∧ ¬n.HasRoom now event.pubkey := by
  unfold verdict at hv
  repeat' split at hv
  all_goals first | exact ⟨‹_›, ‹_›, ‹_›⟩ | cases hv

theorem verdict_own (hs : event.signatureValid h.toPrimitives = true) :
    n.verdict now event = .own ↔ event.pubkey = n.pubkeyHex := by
  unfold verdict
  rw [if_neg (by simp [hs])]
  split
  · simp [*]
  · repeat' split
    all_goals simp [*]

theorem verdict_known (hs : event.signatureValid h.toPrimitives = true) :
    n.verdict now event = .known ↔ event.pubkey ≠ n.pubkeyHex ∧ event.id ∈ n.gossip.knownEvents := by
  unfold verdict
  rw [if_neg (by simp [hs])]
  split
  · simp [*]
  · split
    · simp [*]
    · repeat' split
      all_goals simp [*]

theorem verdict_ignored (hs : event.signatureValid h.toPrimitives = true) :
    n.verdict now event = .ignored ↔ event.pubkey ≠ n.pubkeyHex ∧ event.id ∉ n.gossip.knownEvents ∧
      n.reputation.actionFor event.pubkey now = .ignore := by
  unfold verdict
  rw [if_neg (by simp [hs])]
  split
  · simp [*]
  · split
    · simp [*]
    · repeat' split
      all_goals simp [*]

/-- A new event of an author with nothing against it and few events so far is let in. -/
theorem verdict_clean (hs : event.signatureValid h.toPrimitives = true) (hother : event.pubkey ≠ n.pubkeyHex)
    (hnew : event.id ∉ n.gossip.knownEvents) (hclean : n.reputation.abuse.lookup event.pubkey = none)
    (hstamps : (n.spamGuard.stamps event.pubkey).length < spamBudgetPerWindow) : n.verdict now event = .room := by
  have haccept : n.reputation.actionFor event.pubkey now ≠ .ignore := by
    rw [ReputationSystem.actionFor_none hclean]
    decide
  have hroom : n.HasRoom now event.pubkey :=
    ((SpamGuard.purge_sublist _ _ _).length_le.trans_lt hstamps).trans_le (budget_le_budgetAt n now)
  rw [verdict, hs, if_neg (by decide), if_neg hother, if_neg hnew, if_neg haccept, if_pos hroom]

/-! ## The gate -/

/-- The outcome of the gate, by the verdict. -/
structure Gated (env : Env) (now : Nat) (n : Node h) (event : MeshEvent) (a : Admission h) : Prop where
  admitted : (∃ reason, a.decision = .rejected reason) ∧ (n.verdict now event).passes = false ∨
    a.decision = .admitted ∧ (n.verdict now event).passes = true
  charged : a.charged = decide (n.verdict now event = .room)
  violation : a.violation = if n.verdict now event = .full then some .excessiveRate else none
  identity : a.node.identity = n.identity
  gossip : a.node.gossip = n.gossip
  reputation : a.node.reputation = if n.verdict now event = .full
    then n.reputation.recordViolation event.pubkey .excessiveRate now else n.reputation
  spamGuard : a.node.spamGuard = if n.verdict now event = .room ∨ n.verdict now event = .full
    then (n.spamGuard.admitWithBudget env.order event.pubkey now (n.budgetAt now)).2 else n.spamGuard

/-- **What the gate does is decided by the verdict.** -/
theorem admitPeerEvent_spec (env : Env) (now : Nat) (n : Node h) (event : MeshEvent) :
    Gated env now n event (n.admitPeerEvent env now event) := by
  unfold admitPeerEvent
  by_cases hs : event.signatureValid h.toPrimitives = false
  · have hv : n.verdict now event = .unsigned := verdict_unsigned.mpr hs
    rw [if_pos (by simp [hs])]
    exact ⟨Or.inl ⟨⟨_, rfl⟩, by rw [hv]; rfl⟩, by simp [hv], by simp [hv], rfl, rfl, by simp [hv], by simp [hv]⟩
  dsimp only
  rw [if_neg (by simpa using hs)]
  by_cases ho : event.pubkey = n.pubkeyHex
  · have hv : n.verdict now event = .own := by rw [verdict, if_neg hs, if_pos ho]
    rw [if_pos ho]
    exact ⟨Or.inr ⟨rfl, by rw [hv]; rfl⟩, by simp [hv], by simp [hv], rfl, rfl, by simp [hv], by simp [hv]⟩
  rw [if_neg ho]
  by_cases hk : event.id ∈ n.gossip.knownEvents
  · have hv : n.verdict now event = .known := by rw [verdict, if_neg hs, if_neg ho, if_pos hk]
    rw [if_pos (by simpa [GossipProtocol.isKnown] using hk)]
    exact ⟨Or.inr ⟨rfl, by rw [hv]; rfl⟩, by simp [hv], by simp [hv], rfl, rfl, by simp [hv], by simp [hv]⟩
  rw [if_neg (by simpa [GossipProtocol.isKnown] using hk)]
  by_cases hi : n.reputation.actionFor event.pubkey now = .ignore
  · have hv : n.verdict now event = .ignored := by rw [verdict, if_neg hs, if_neg ho, if_neg hk, if_pos hi]
    rw [if_pos hi]
    exact ⟨Or.inl ⟨⟨_, rfl⟩, by rw [hv]; rfl⟩, by simp [hv], by simp [hv], rfl, rfl, by simp [hv], by simp [hv]⟩
  rw [if_neg hi]
  have htaken : (n.spamGuard.admitWithBudget env.order event.pubkey now (n.budgetAt now)).1 = true ↔
      n.HasRoom now event.pubkey := SpamGuard.admit_iff
  by_cases hr : n.HasRoom now event.pubkey
  · have hv : n.verdict now event = .room := by rw [verdict, if_neg hs, if_neg ho, if_neg hk, if_neg hi, if_pos hr]
    rw [if_neg (by rw [htaken.mpr hr]; decide)]
    exact ⟨Or.inr ⟨rfl, by rw [hv]; rfl⟩, by simp [hv], by simp [hv], rfl, rfl, by simp [hv], by simp [hv]⟩
  · have hv : n.verdict now event = .full := by rw [verdict, if_neg hs, if_neg ho, if_neg hk, if_neg hi, if_neg hr]
    have hrefused : (n.spamGuard.admitWithBudget env.order event.pubkey now (n.budgetAt now)).1 = false :=
      Bool.eq_false_iff.mpr fun ht => hr (htaken.mp ht)
    rw [if_pos (by rw [hrefused]; decide)]
    exact ⟨Or.inl ⟨⟨_, rfl⟩, by rw [hv]; rfl⟩, by simp [hv], by simp [hv], rfl, rfl, by simp [hv, recordViolation],
      by simp [hv, recordViolation]⟩

/-! ## The dispatcher -/

/-- The handler of the event's kind accepts it, apart from validation. -/
def Accepts (n : Node h) (event : MeshEvent) : Prop :=
  event.kind = .alert ∨ n.EndorsementAccepted event ∨ n.AbuseReportAccepted event ∨
    event.kind.isSocial = true ∧ ∃ effect, socialPayload h event = .ok effect

/-- The event is valid for the node's reputation and its handler accepts it. -/
def Registers (env : Env) (n : Node h) (event : MeshEvent) : Prop :=
  event.validateWithReputation h.toPrimitives env.clock n.reputation = .ok () ∧ n.Accepts event

/-- The violation a refusal by the handler is classified as. -/
def routeViolation (env : Env) (n : Node h) (event : MeshEvent) : Option AbuseReason :=
  if event.kind = .alert then
    match event.validateWithReputation h.toPrimitives env.clock n.reputation with
    | .error err => some (violationOf err)
    | .ok () => none
  else if event.kind = .endorsement then
    match endorsementPayload h event with
    | .error err => if politicalNoise err then none else some .invalidEvent
    | .ok _ => none
  else if event.kind.isSocial then
    match socialPayload h event with
    | .error err => some (violationOf err)
    | .ok _ => match event.validateWithReputation h.toPrimitives env.clock n.reputation with
      | .error err => some (violationOf err)
      | .ok () => none
  else none

/-- **What the dispatcher penalises**: an invalid alert, an endorsement that cannot be decoded, a social event with a
bad payload or an invalid one. -/
theorem routeViolation_none {env : Env} {n : Node h} {event : MeshEvent} : n.routeViolation env event = none ↔
    (event.kind = .alert → event.validateWithReputation h.toPrimitives env.clock n.reputation = .ok ()) ∧
    (event.kind = .endorsement → ∀ err, endorsementPayload h event = .error err → politicalNoise err = true) ∧
    (event.kind.isSocial = true → (∃ effect, socialPayload h event = .ok effect) ∧
      event.validateWithReputation h.toPrimitives env.clock n.reputation = .ok ()) := by
  unfold routeViolation
  by_cases ha : event.kind = .alert
  · rw [if_pos ha]
    cases hv : event.validateWithReputation h.toPrimitives env.clock n.reputation <;>
      simp [ha, OndeMessageType.isSocial]
  rw [if_neg ha]
  by_cases he : event.kind = .endorsement
  · rw [if_pos he]
    cases hp : endorsementPayload h event with
    | error err => by_cases hnoise : politicalNoise err = true <;> simp [he, hnoise, OndeMessageType.isSocial]
    | ok endorsement => simp [he, OndeMessageType.isSocial]
  rw [if_neg he]
  cases hs : event.kind.isSocial with
  | false => simp [ha, he]
  | true =>
    cases hp : socialPayload h event with
    | error err => simp [ha, he]
    | ok effect =>
      cases hv : event.validateWithReputation h.toPrimitives env.clock n.reputation <;> simp [ha, he]

/-- What is refused by policy is noise. -/
theorem politicalNoise_endorse {r : ReputationSystem} {endorser endorsed err : String} {timestamp : Nat}
    (he : r.endorse endorser endorsed timestamp = .error err) : politicalNoise err = true := by
  unfold politicalNoise
  rcases ReputationSystem.endorse_error he with rfl | rfl | rfl
  · decide
  · have hmid : " is not trusted enough (score " = " is " ++ ("not trusted" ++ " enough (score ") := by decide
    have hin : contains ("Endorser " ++ endorser ++ " is not trusted enough (score " ++ scoreText (r.score endorser) ++
        ")") "not trusted" = true := by
      have happ := contains_append ("Endorser " ++ endorser ++ " is ") "not trusted"
        (" enough (score " ++ scoreText (r.score endorser) ++ ")")
      rw [hmid]
      simpa only [String.append_assoc] using happ
    rw [show contains s!"Endorser {endorser} is not trusted enough (score {scoreText (r.score endorser)})"
      "not trusted" = true from hin, Bool.or_true, Bool.true_or]
  · decide

/-- What the dispatcher did, by the state before. -/
structure Routed (env : Env) (now : Nat) (n : Node h) (event : MeshEvent) (r : Received h) : Prop where
  violation : r.violation = n.routeViolation env event
  identity : r.node.identity = n.identity
  spamGuard : r.node.spamGuard = n.spamGuard
  registered : n.Registers env event → r.node.gossip = (n.gossip.insertNew env.order event).2
  unregistered : ¬n.Registers env event → r.node.gossip = n.gossip
  abuse : r.node.reputation.abuse.lookup event.pubkey = match r.violation with
    | none => n.reputation.abuse.lookup event.pubkey
    | some reason => (n.reputation.recordViolation event.pubkey reason now).abuse.lookup event.pubkey

/-- Validation reads the floor of the author only. -/
theorem validateWithReputation_congr {c : Primitives} {clock : Nat} {r r' : ReputationSystem}
    (hs : r'.scores.lookup event.pubkey = r.scores.lookup event.pubkey)
    (ha : r'.abuse.lookup event.pubkey = r.abuse.lookup event.pubkey) :
    event.validateWithReputation c clock r' = event.validateWithReputation c clock r := by
  rw [MeshEvent.validateWithReputation, MeshEvent.validateWithReputation,
    ReputationSystem.requiredPowDifficulty_congr hs ha]

theorem accepts_alert (hk : event.kind = .alert) : n.Accepts event := Or.inl hk

theorem accepts_endorsement (hk : event.kind = .endorsement) : n.Accepts event ↔ n.EndorsementAccepted event := by
  simp [Accepts, AbuseReportAccepted, OndeMessageType.isSocial, hk]

theorem accepts_abuseReport (hk : event.kind = .abuseReport) : n.Accepts event ↔ n.AbuseReportAccepted event := by
  simp [Accepts, EndorsementAccepted, OndeMessageType.isSocial, hk]

theorem accepts_social (hk : event.kind.isSocial = true) :
    n.Accepts event ↔ ∃ effect, socialPayload h event = .ok effect := by
  have h₁ : event.kind ≠ .alert := fun he => by rw [he] at hk; cases hk
  have h₂ : event.kind ≠ .endorsement := fun he => by rw [he] at hk; cases hk
  have h₃ : event.kind ≠ .abuseReport := fun he => by rw [he] at hk; cases hk
  simp [Accepts, EndorsementAccepted, AbuseReportAccepted, h₁, h₂, h₃, hk]

theorem routed_alert (hk : event.kind = .alert) : Routed env now n event (n.routePeerEvent env now event) := by
  have heq : n.handleIncomingAlert env event = _ := handleIncomingAlert_eq hk
  unfold routePeerEvent
  simp only [hk]
  cases hv : event.validateWithReputation h.toPrimitives env.clock n.reputation with
  | error err =>
    rw [hv] at heq
    simp only [heq, Except.map]
    have hreg : ¬n.Registers env event := fun hr => by rw [hr.1] at hv; cases hv
    exact ⟨by simp [routeViolation, hk, hv, refuse], rfl, rfl, fun hr => absurd hr hreg, fun _ => rfl, rfl⟩
  | ok u =>
    rw [hv] at heq
    have hcore := keepMessage_core { n with gossip := (n.gossip.insertNew env.order event).2 } event .critical
    cases hkept : keepMessage { n with gossip := (n.gossip.insertNew env.order event).2 } event .critical with
    | mk stored n' =>
      rw [hkept] at hcore
      have hreg : n.Registers env event := ⟨hv, accepts_alert hk⟩
      simp only [heq, Except.map, hkept]
      cases stored <;>
        exact ⟨by simp [routeViolation, hk, hv], hcore.identity, hcore.spamGuard, fun _ => hcore.gossip,
          fun hr => absurd hreg hr, by rw [hcore.reputation]⟩

/-- A relay under a changed reputation that leaves the author as it was. -/
theorem routed_relay {reputation : ReputationSystem} {outcome : PeerEventOutcome} (hacc : n.Accepts event)
    (hnone : n.routeViolation env event = none)
    (hs : reputation.scores.lookup event.pubkey = n.reputation.scores.lookup event.pubkey)
    (ha : reputation.abuse.lookup event.pubkey = n.reputation.abuse.lookup event.pubkey) :
    Routed env now n event ⟨outcome, relay env { n with reputation := reputation } event, false, none⟩ := by
  have hcongr : event.validateWithReputation h.toPrimitives env.clock reputation =
      event.validateWithReputation h.toPrimitives env.clock n.reputation := validateWithReputation_congr hs ha
  refine ⟨hnone.symm, rfl, rfl, fun hr => ?_, fun hr => ?_, ha⟩
  · exact relay_valid (n := { n with reputation := reputation }) (hcongr.trans hr.1)
  · exact relay_invalid (n := { n with reputation := reputation }) fun hv => hr ⟨hcongr.symm.trans hv, hacc⟩

theorem routed_endorsement (hk : event.kind = .endorsement) :
    Routed env now n event (n.routePeerEvent env now event) := by
  have hacc := accepts_endorsement (n := n) hk
  unfold routePeerEvent handleIncomingEndorsement
  simp only [hk, ne_eq, not_true_eq_false, if_false]
  cases hp : endorsementPayload h event with
  | error err =>
    have hreg : ¬n.Registers env event := fun hr => by
      obtain ⟨_, endorsement, he, _⟩ := hacc.mp hr.2
      rw [hp] at he
      cases he
    by_cases hnoise : politicalNoise err = true
    · simp only [hnoise, if_true]
      exact ⟨by simp [routeViolation, hk, hp, hnoise], rfl, rfl, fun hr => absurd hr hreg, fun _ => rfl, rfl⟩
    · simp only [hnoise]
      exact ⟨by simp [routeViolation, hk, hp, hnoise, refuse], rfl, rfl, fun hr => absurd hr hreg, fun _ => rfl, rfl⟩
  | ok endorsement =>
    have hnone : n.routeViolation env event = none := by simp [routeViolation, hk, hp]
    have hauthor : endorsement.endorser = event.pubkey := (decodeSigned_ok hp).1
    simp only [ReputationSystem.applyRemoteEndorsement_eq]
    cases hr : n.reputation.endorse endorsement.endorser endorsement.endorsed endorsement.timestamp with
    | error err =>
      have hreg : ¬n.Registers env event := fun hreg => by
        obtain ⟨_, endorsement', he, hok⟩ := hacc.mp hreg.2
        rw [hp] at he
        cases he
        have hex : ∃ p, n.reputation.endorse endorsement.endorser endorsement.endorsed endorsement.timestamp = .ok p :=
          ReputationSystem.endorse_ok.mpr hok
        obtain ⟨p, hp'⟩ := hex
        rw [hr] at hp'
        cases hp'
      simp only [Functor.map, Except.map, politicalNoise_endorse hr, if_true]
      exact ⟨hnone.symm, rfl, rfl, fun h => absurd h hreg, fun _ => rfl, rfl⟩
    | ok p =>
      obtain ⟨q, reputation⟩ := p
      obtain ⟨hself, hscores⟩ := ReputationSystem.endorse_scores hr
      rw [hauthor] at hself
      have hok : n.Accepts event :=
        hacc.mpr ⟨hk, endorsement, hp, ReputationSystem.endorse_ok.mp ⟨_, hr⟩⟩
      simp only [Functor.map, Except.map]
      exact routed_relay hok hnone (hscores _ hself) (by rw [ReputationSystem.endorse_abuse hr])

theorem routed_abuseReport (hk : event.kind = .abuseReport) :
    Routed env now n event (n.routePeerEvent env now event) := by
  have hacc := accepts_abuseReport (n := n) hk
  have hnone : n.routeViolation env event = none := by simp [routeViolation, hk, OndeMessageType.isSocial]
  unfold routePeerEvent handleIncomingAbuseReport
  simp only [hk, ne_eq, not_true_eq_false, if_false]
  cases hp : abuseReportPayload h event with
  | error err =>
    have hreg : ¬n.Registers env event := fun hr => by
      obtain ⟨_, report, he, _⟩ := hacc.mp hr.2
      rw [hp] at he
      cases he
    exact ⟨hnone.symm, rfl, rfl, fun hr => absurd hr hreg, fun _ => rfl, rfl⟩
  | ok report =>
    have hauthor : report.reporter = event.pubkey := (decodeSigned_ok hp).1
    cases hr : n.reputation.applyRemoteAbuseReport report true with
    | error err =>
      have hreg : ¬n.Registers env event := fun hreg => by
        obtain ⟨_, report', he, hok⟩ := hacc.mp hreg.2
        rw [hp] at he
        cases he
        obtain ⟨p, hp'⟩ := ReputationSystem.applyRemoteAbuseReport_ok.mpr hok
        rw [hr] at hp'
        cases hp'
      simp only [hr]
      exact ⟨hnone.symm, rfl, rfl, fun h => absurd h hreg, fun _ => rfl, rfl⟩
    | ok p =>
      obtain ⟨level, reputation⟩ := p
      have hrep := ReputationSystem.applyRemoteAbuseReport_ok.mp ⟨_, hr⟩
      obtain ⟨hscores, _, habuse⟩ := ReputationSystem.applyRemoteAbuseReport_abuse hr
      have hself : event.pubkey ≠ report.offender := hauthor ▸ hrep.1
      simp only [hr]
      exact routed_relay (hacc.mpr ⟨hk, report, hp, hrep⟩) hnone (by rw [hscores]) (habuse _ hself)

theorem routePeerEvent_social (hk : event.kind.isSocial = true) :
    n.routePeerEvent env now event = match n.handleIncomingSocial env event with
      | .ok (outcome, n) => ⟨.social outcome, n, false, none⟩
      | .error err => n.refuse now event (.rejected s!"invalid social event: {err}") (violationOf err) := by
  unfold routePeerEvent
  cases hkind : event.kind <;> simp only [hkind, OndeMessageType.isSocial, Bool.false_eq_true] at hk <;> rfl

theorem routed_social (hk : event.kind.isSocial = true) :
    Routed env now n event (n.routePeerEvent env now event) := by
  have hacc := accepts_social (n := n) hk
  have heq : n.handleIncomingSocial env event = _ := handleIncomingSocial_eq hk
  have hviol : n.routeViolation env event = match socialPayload h event with
      | .error err => some (violationOf err)
      | .ok _ => match event.validateWithReputation h.toPrimitives env.clock n.reputation with
        | .error err => some (violationOf err)
        | .ok () => none := by
    unfold routeViolation
    cases hkind : event.kind <;> simp only [hkind, OndeMessageType.isSocial, Bool.false_eq_true] at hk <;> rfl
  rw [routePeerEvent_social hk, heq]
  cases hp : socialPayload h event with
  | error err =>
    have hreg : ¬n.Registers env event := fun hr => by
      obtain ⟨effect, he⟩ := hacc.mp hr.2
      rw [hp] at he
      cases he
    exact ⟨by rw [hviol, hp]; rfl, rfl, rfl, fun hr => absurd hr hreg, fun _ => rfl, rfl⟩
  | ok effect =>
    cases hv : event.validateWithReputation h.toPrimitives env.clock n.reputation with
    | error err =>
      have hreg : ¬n.Registers env event := fun hr => by rw [hr.1] at hv; cases hv
      exact ⟨by rw [hviol, hp]; simp only [hv]; rfl, rfl, rfl, fun hr => absurd hr hreg, fun _ => rfl, rfl⟩
    | ok u =>
      have hreg : n.Registers env event := ⟨hv, hacc.mpr ⟨effect, hp⟩⟩
      exact ⟨by rw [hviol, hp]; simp only [hv]; rfl, rfl, rfl, fun _ => rfl, fun hr => absurd hreg hr, rfl⟩

/-- The kinds without a handler are let through untouched. -/
theorem routePeerEvent_other (hk : event.kind ≠ .alert ∧ event.kind ≠ .endorsement ∧ event.kind ≠ .abuseReport ∧
    event.kind.isSocial = false) : n.routePeerEvent env now event = ⟨.other, n, false, none⟩ := by
  obtain ⟨ha, he, hr, hs⟩ := hk
  unfold routePeerEvent
  cases hkind : event.kind <;> simp_all [OndeMessageType.isSocial]

theorem routed_other (hk : event.kind ≠ .alert ∧ event.kind ≠ .endorsement ∧ event.kind ≠ .abuseReport ∧
    event.kind.isSocial = false) : Routed env now n event (n.routePeerEvent env now event) := by
  have hroute : n.routePeerEvent env now event = ⟨.other, n, false, none⟩ := routePeerEvent_other hk
  obtain ⟨ha, he, hr, hs⟩ := hk
  have hreg : ¬n.Registers env event := by
    rintro ⟨_, h | h | h | h⟩
    · exact ha h
    · exact he h.1
    · exact hr h.1
    · rw [hs] at h
      cases h.1
  rw [hroute]
  exact ⟨by simp [routeViolation, ha, he, hs], rfl, rfl, fun h => absurd h hreg, fun _ => rfl, rfl⟩

/-- **What the dispatcher does, for every kind.** -/
theorem routePeerEvent_spec (env : Env) (now : Nat) (n : Node h) (event : MeshEvent) :
    Routed env now n event (n.routePeerEvent env now event) := by
  by_cases ha : event.kind = .alert
  · exact routed_alert ha
  by_cases he : event.kind = .endorsement
  · exact routed_endorsement he
  by_cases hr : event.kind = .abuseReport
  · exact routed_abuseReport hr
  cases hs : event.kind.isSocial with
  | true => exact routed_social hs
  | false => exact routed_other ⟨ha, he, hr, hs⟩

/-- The dispatcher refuses nothing without recording a violation. -/
theorem routePeerEvent_outcome (hv : (n.routePeerEvent env now event).violation = none) (reason : String) :
    (n.routePeerEvent env now event).outcome ≠ .rejected reason := by
  unfold routePeerEvent at hv ⊢
  revert hv
  repeat' split
  all_goals simp [refuse]

/-- **Only endorsements and reports change the reputation otherwise than by a violation.** -/
theorem routePeerEvent_reputation (he : event.kind ≠ .endorsement) (hr : event.kind ≠ .abuseReport) :
    (n.routePeerEvent env now event).node.reputation = match (n.routePeerEvent env now event).violation with
      | none => n.reputation
      | some reason => n.reputation.recordViolation event.pubkey reason now := by
  by_cases ha : event.kind = .alert
  · have heq : n.handleIncomingAlert env event = _ := handleIncomingAlert_eq ha
    unfold routePeerEvent
    simp only [ha]
    cases hv : event.validateWithReputation h.toPrimitives env.clock n.reputation with
    | error err =>
      rw [hv] at heq
      simp only [heq, Except.map]
      rfl
    | ok u =>
      rw [hv] at heq
      have hcore := keepMessage_core { n with gossip := (n.gossip.insertNew env.order event).2 } event .critical
      cases hkept : keepMessage { n with gossip := (n.gossip.insertNew env.order event).2 } event .critical with
      | mk stored n' =>
        rw [hkept] at hcore
        simp only [heq, Except.map, hkept]
        cases stored <;> exact hcore.reputation
  cases hs : event.kind.isSocial with
  | true =>
    have heq : n.handleIncomingSocial env event = _ := handleIncomingSocial_eq hs
    rw [routePeerEvent_social hs, heq]
    cases socialPayload h event with
    | error err => rfl
    | ok effect => cases event.validateWithReputation h.toPrimitives env.clock n.reputation <;> rfl
  | false => rw [routePeerEvent_other ⟨ha, he, hr, hs⟩]

/-! ## A reception -/

theorem routeViolation_congr {n' : Node h} (hr : n'.reputation = n.reputation) :
    n'.routeViolation env event = n.routeViolation env event := by
  unfold routeViolation
  rw [hr]

theorem registers_congr {n' : Node h} (hr : n'.reputation = n.reputation) :
    n'.Registers env event ↔ n.Registers env event := by
  unfold Registers Accepts EndorsementAccepted AbuseReportAccepted
  rw [hr]

/-- What a reception did, by the state before. -/
structure Reception (env : Env) (now : Nat) (n : Node h) (event : MeshEvent) (r : Received h) : Prop where
  charged : r.charged = decide (n.verdict now event = .room)
  violation : r.violation = if n.verdict now event = .full then some .excessiveRate
    else if (n.verdict now event).passes then n.routeViolation env event else none
  identity : r.node.identity = n.identity
  registered : (n.verdict now event).passes = true → n.Registers env event →
    r.node.gossip = (n.gossip.insertNew env.order event).2
  unregistered : ¬((n.verdict now event).passes = true ∧ n.Registers env event) → r.node.gossip = n.gossip
  spamGuard : r.node.spamGuard = if n.verdict now event = .room ∨ n.verdict now event = .full
    then (n.spamGuard.admitWithBudget env.order event.pubkey now (n.budgetAt now)).2 else n.spamGuard
  abuse : r.node.reputation.abuse.lookup event.pubkey = match r.violation with
    | none => n.reputation.abuse.lookup event.pubkey
    | some reason => (n.reputation.recordViolation event.pubkey reason now).abuse.lookup event.pubkey

/-- The gate leaves the cache alone. -/
theorem admitPeerEvent_socialStore (env : Env) (now : Nat) (n : Node h) (event : MeshEvent) :
    (n.admitPeerEvent env now event).node.socialStore = n.socialStore := by
  unfold admitPeerEvent
  dsimp only
  repeat' split
  all_goals rfl

/-- **A reception stops at the gate, or the dispatcher gets the event** with a node that differs from the one before
in the budget and the presence only. -/
theorem receivePeerEventInner_cases (env : Env) (now : Nat) (n : Node h) (event : MeshEvent) :
    let gate := n.admitPeerEvent env now event
    (n.verdict now event).passes = false ∧ (∃ reason,
        n.receivePeerEventInner env now event = ⟨.rejected reason, gate.node, gate.charged, gate.violation⟩) ∨
      (n.verdict now event).passes = true ∧ n.verdict now event ≠ .full ∧ ∃ n₁ : Node h,
        n₁.identity = n.identity ∧ n₁.reputation = n.reputation ∧ n₁.gossip = n.gossip ∧
        n₁.spamGuard = gate.node.spamGuard ∧ n₁.socialStore = n.socialStore ∧
        n.receivePeerEventInner env now event = { n₁.routePeerEvent env now event with charged := gate.charged } := by
  intro gate
  have hg : Gated env now n event gate := admitPeerEvent_spec env now n event
  rcases hg.admitted with ⟨⟨reason, hd⟩, hp⟩ | ⟨hd, hp⟩
  · refine .inl ⟨hp, reason, ?_⟩
    rw [receivePeerEventInner, hd]
  · have hf : n.verdict now event ≠ .full := fun hf => by rw [hf] at hp; cases hp
    have hrep : gate.node.reputation = n.reputation := by rw [hg.reputation, if_neg hf]
    refine .inr ⟨hp, hf, ?_⟩
    rw [receivePeerEventInner, hd]
    refine ⟨_, ?_, ?_, ?_, ?_, ?_, rfl⟩ <;> split
    · exact hg.identity
    · rw [notePeerTraffic_identity]
      exact hg.identity
    · exact hrep
    · rw [notePeerTraffic_reputation]
      exact hrep
    · exact hg.gossip
    · rw [notePeerTraffic_gossip]
      exact hg.gossip
    · rfl
    · exact notePeerTraffic_spamGuard _ _ _
    · exact admitPeerEvent_socialStore env now n event
    · exact admitPeerEvent_socialStore env now n event

/-- **What a reception does.** -/
theorem receivePeerEvent_spec (env : Env) (now : Nat) (n : Node h) (event : MeshEvent) :
    Reception env now n event (n.receivePeerEvent env now event) := by
  have hg := admitPeerEvent_spec env now n event
  have hinner : Reception env now n event (n.receivePeerEventInner env now event) := by
    rcases receivePeerEventInner_cases env now n event with
      ⟨hp, reason, hr⟩ | ⟨hp, hf, n₁, hid, hrep, hgossip, hspam, -, hr⟩
    · rw [hr]
      refine ⟨hg.charged, by rw [hg.violation, hp]; rfl, hg.identity, fun hpass => ?_, fun _ => hg.gossip,
        hg.spamGuard, ?_⟩
      · rw [hp] at hpass
        cases hpass
      · rw [hg.violation, hg.reputation]
        by_cases hf : n.verdict now event = .full
        · simp only [hf, if_true]
        · simp only [hf, if_false]
    · rw [hr]
      have hroute := routePeerEvent_spec env now n₁ event
      refine ⟨hg.charged, ?_, hroute.identity.trans hid, fun _ hreg => ?_, fun hnot => ?_,
        (hroute.spamGuard.trans hspam).trans hg.spamGuard, ?_⟩
      · rw [if_neg hf, if_pos hp]
        exact hroute.violation.trans (routeViolation_congr hrep)
      · rw [← hgossip]
        exact hroute.registered ((registers_congr hrep).mpr hreg)
      · rw [← hgossip]
        exact hroute.unregistered fun hreg => hnot ⟨hp, (registers_congr hrep).mp hreg⟩
      · refine hroute.abuse.trans ?_
        rw [hrep]
  constructor
  · rw [receivePeerEvent_charged]
    exact hinner.charged
  · rw [receivePeerEvent_violation]
    exact hinner.violation
  · rw [receivePeerEvent_node_identity]
    exact hinner.identity
  · rw [receivePeerEvent_node_gossip]
    exact hinner.registered
  · rw [receivePeerEvent_node_gossip]
    exact hinner.unregistered
  · rw [receivePeerEvent_node_spamGuard]
    exact hinner.spamGuard
  · rw [receivePeerEvent_node_reputation, receivePeerEvent_violation]
    exact hinner.abuse

/-- **Only endorsements and reports change the reputation otherwise than by a violation.** -/
theorem receivePeerEvent_reputation (he : event.kind ≠ .endorsement) (hr : event.kind ≠ .abuseReport) :
    (n.receivePeerEvent env now event).node.reputation = match (n.receivePeerEvent env now event).violation with
      | none => n.reputation
      | some reason => n.reputation.recordViolation event.pubkey reason now := by
  have hg := admitPeerEvent_spec env now n event
  rw [receivePeerEvent_node_reputation, receivePeerEvent_violation]
  rcases receivePeerEventInner_cases env now n event with ⟨hp, reason, heq⟩ | ⟨hp, hf, n₁, -, hrep, -, -, -, heq⟩
  · rw [heq, hg.violation, hg.reputation]
    by_cases hf : n.verdict now event = .full
    · simp only [hf, if_true]
    · simp only [hf, if_false]
  · rw [heq, routePeerEvent_reputation he hr, hrep]

/-- **A reception is rejected exactly when the gate stops it**, as long as no violation is recorded past the gate. -/
theorem receivePeerEvent_rejected (hv : n.routeViolation env event = none) :
    (∃ reason, (n.receivePeerEvent env now event).outcome = .rejected reason) ↔
      (n.verdict now event).passes = false := by
  rw [receivePeerEvent_outcome]
  rcases receivePeerEventInner_cases env now n event with ⟨hp, reason, heq⟩ | ⟨hp, hf, n₁, -, hrep, -, -, -, heq⟩
  · rw [heq]
    exact iff_of_true ⟨reason, rfl⟩ hp
  · rw [heq, hp]
    refine iff_of_false ?_ (by simp)
    rintro ⟨reason, hout⟩
    refine routePeerEvent_outcome ?_ reason hout
    rw [(routePeerEvent_spec env now n₁ event).violation]
    exact (routeViolation_congr hrep).trans hv

/-- Without a violation the abuse record of the author is untouched. -/
theorem receivePeerEvent_abuse (hv : (n.receivePeerEvent env now event).violation = none) :
    (n.receivePeerEvent env now event).node.reputation.abuse.lookup event.pubkey =
      n.reputation.abuse.lookup event.pubkey := by
  have ha := (receivePeerEvent_spec env now n event).abuse
  rwa [hv] at ha

end Node

/-! ## Known values -/

/-- A node that does not know the event, has nothing against its author and has room lets it in. -/
theorem known_verdict {n : Node knownHost} {kind : OndeMessageType} (now : Nat) (hid : n.identity = .ofByte 2)
    (hnew : (knownEvent kind).id ∉ n.gossip.knownEvents) (hclean : n.reputation.abuse.lookup knownAuthor = none)
    (hstamps : (n.spamGuard.stamps knownAuthor).length < spamBudgetPerWindow) :
    n.verdict now (knownEvent kind) = .room := by
  have hsame : n.pubkeyHex = strangerNode.pubkeyHex := congrArg (Identity.pubkeyHex knownHost.toPrimitives) hid
  refine Node.verdict_clean (knownEvent_signatureValid kind) ?_ hnew ?_ ?_
  · rw [knownEvent_pubkey, hsame]
    exact stranger_pubkey
  · rwa [knownEvent_pubkey]
  · rwa [knownEvent_pubkey]

theorem stranger_verdict (now : Nat) (kind : OndeMessageType) : strangerNode.verdict now (knownEvent kind) = .room :=
  known_verdict now rfl (Finset.notMem_empty _) rfl (by decide)

theorem trusting_verdict (now : Nat) (kind : OndeMessageType) : trustingNode.verdict now (knownEvent kind) = .room :=
  known_verdict now rfl (Finset.notMem_empty _) rfl (by decide)

theorem trusting_new (kind : OndeMessageType) : (knownEvent kind).id ∉ trustingNode.gossip.knownEvents :=
  (Node.verdict_room (trusting_verdict 0 kind)).2.1

end Onde
