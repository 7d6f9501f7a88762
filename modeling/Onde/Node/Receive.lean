import Onde.Node.SocialHandlers

/-!
# Receiving an event from a peer

* `admitPeerEvent`: the gate; what it does is decided by `verdict` (`admitPeerEvent_spec`);
* `notePeerTraffic`, `healGraceActive`: presence, and the wider budget after a partition;
* `routePeerEvent`: the dispatcher, with the violation each handler's refusal is classified as; `routeViolation` reads
  it off the state before (`routePeerEvent_violation`), and an admitted event enters the outbox exactly when it
  `Registers` (`routePeerEvent_gossip`);
* `receivePeerEvent`: the gate and the dispatcher, with what they charged the author (`receivePeerEvent_spec`).
-/

namespace Onde

open Lib Crypto Reputation Protocol Social Storage

variable {h : Host}

inductive AdmissionDecision where
  | admitted
  | rejected (reason : String)
  deriving DecidableEq

inductive PeerEventOutcome where
  | rejected (reason : String)
  | alertStored | alertNotStored
  | endorsementApplied
  | endorsementRejected (reason : String)
  | abuseReportApplied (level : ℚ)
  | abuseReportRejected (reason : String)
  | social (outcome : SocialEventOutcome)
  | other
  deriving DecidableEq

/-- What the gate decided, the state after it, whether it took a unit of the author's budget, and the violation it
recorded against the author. -/
structure Admission (h : Host) where
  decision : AdmissionDecision
  node : Node h
  charged : Bool
  violation : Option AbuseReason

/-- What a reception did, with the same account of the author. -/
structure Received (h : Host) where
  outcome : PeerEventOutcome
  node : Node h
  charged : Bool
  violation : Option AbuseReason

/-- A level with two decimals, ties to even. -/
def twoDecimals (q : ℚ) : String :=
  let scaled := 100 * q
  let low := ⌊scaled⌋.toNat
  let up := scaled - low > 1 / 2 ∨ (scaled - low = 1 / 2 ∧ low % 2 = 1)
  let cents := if up then low + 1 else low
  toString (cents / 100) ++ "." ++ (if cents % 100 < 10 then "0" else "") ++ toString (cents % 100)

/-- A refusal that names the proof of work is its fault, any other is the event's. -/
def violationOf (err : String) : AbuseReason := if contains err "PoW" then .insufficientPow else .invalidEvent

/-- The refusals of an endorsement that are normal noise of the network. -/
def politicalNoise (err : String) : Bool :=
  contains err "Duplicate" || contains err "not trusted" || contains err "cannot endorse itself"

namespace Node

/-! ## The gate -/

def healGraceActive (n : Node h) (now : Nat) : Bool := now < n.healGraceUntil

/-- The budget of an author, wider while the grace lasts. -/
def budgetAt (n : Node h) (now : Nat) : Nat :=
  if n.healGraceActive now then spamBudgetPerWindow * healWindowBudgetFactor else spamBudgetPerWindow

/-- Record a violation against an author. -/
def recordViolation (n : Node h) (author : String) (reason : AbuseReason) (now : Nat) : Node h :=
  { n with reputation := n.reputation.recordViolation author reason now }

/-- The gate every event goes through before it is routed. -/
def admitPeerEvent (env : Env) (now : Nat) (n : Node h) (event : MeshEvent) : Admission h :=
  let author := event.pubkey
  if !event.signatureValid h.toPrimitives then
    ⟨.rejected "invalid signature — dropped without penalty (author not attributable)", n, false, none⟩
  else if author = n.pubkeyHex then ⟨.admitted, n, false, none⟩
  else if n.gossip.isKnown event.id then
    ⟨.admitted, { n with metrics.messagesDuplicated := n.metrics.messagesDuplicated + 1 }, false, none⟩
  else if n.reputation.actionFor author now = .ignore then
    ⟨.rejected s!"author ignored (abuse level {twoDecimals (n.reputation.abuseLevel author now)})", n, false, none⟩
  else
    let taken := n.spamGuard.admitWithBudget env.order author now (n.budgetAt now)
    if !taken.1 then
      ⟨.rejected "rate limited: sliding-window budget exceeded for this author",
        recordViolation { n with spamGuard := taken.2 } author .excessiveRate now, false, some .excessiveRate⟩
    else ⟨.admitted, { n with spamGuard := taken.2 }, true, none⟩

/-! ## Presence -/

/-- Some peer is known and all have been silent. -/
def partitionSuspected (n : Node h) (now : Nat) : Bool :=
  n.peerLastSeen.entries ≠ [] ∧
    n.peerLastSeen.entries.all fun s => partitionSilenceThresholdSecs ≤ now - s.2

/-- Note a contact; the first one after a partition opens the grace. -/
def notePeerTraffic (n : Node h) (peer : String) (now : Nat) : Node h :=
  let seen := n.peerLastSeen.insert peer now
  { n with
    peerLastSeen := seen
    healGraceUntil := if n.partitionSuspected now then min (now + healGraceSecs) u64Max else n.healGraceUntil
    metrics := { n.metrics with
      peersKnown := seen.entries.length
      peersSynced := (seen.entries.filter fun s => now - s.2 < partitionSilenceThresholdSecs).length } }

section
variable (n : Node h) (peer : String) (now : Nat)

@[simp] theorem notePeerTraffic_identity : (n.notePeerTraffic peer now).identity = n.identity := rfl

@[simp] theorem notePeerTraffic_reputation : (n.notePeerTraffic peer now).reputation = n.reputation := rfl

@[simp] theorem notePeerTraffic_gossip : (n.notePeerTraffic peer now).gossip = n.gossip := rfl

@[simp] theorem notePeerTraffic_spamGuard : (n.notePeerTraffic peer now).spamGuard = n.spamGuard := rfl

end

/-! ## The dispatcher -/

/-- Refuse an event and record the violation. -/
def refuse (now : Nat) (n : Node h) (event : MeshEvent) (outcome : PeerEventOutcome) (reason : AbuseReason) :
    Received h := ⟨outcome, n.recordViolation event.pubkey reason now, false, some reason⟩

/-- Route an admitted event to its handler. -/
def routePeerEvent (env : Env) (now : Nat) (n : Node h) (event : MeshEvent) : Received h :=
  match event.kind with
  | .alert => match n.handleIncomingAlert env event with
    | .ok (true, n) => ⟨.alertStored, n, false, none⟩
    | .ok (false, n) => ⟨.alertNotStored, n, false, none⟩
    | .error err => n.refuse now event (.rejected s!"invalid signed event: {err}") (violationOf err)
  | .endorsement => match n.handleIncomingEndorsement env event with
    | (.applied, n) => ⟨.endorsementApplied, n, false, none⟩
    | (.ignored, n) => ⟨.other, n, false, none⟩
    | (.rejected err, n) =>
      if politicalNoise err then ⟨.endorsementRejected err, n, false, none⟩
      else n.refuse now event (.endorsementRejected err) .invalidEvent
  | .abuseReport => match n.handleIncomingAbuseReport env event with
    | (.applied level, n) => ⟨.abuseReportApplied level, n, false, none⟩
    | (.ignored, n) => ⟨.other, n, false, none⟩
    | (.rejected err, n) => ⟨.abuseReportRejected err, n, false, none⟩
  | .socialPost | .socialComment | .socialVote | .socialFollow | .socialMessage | .socialModeration =>
    match n.handleIncomingSocial env event with
    | .ok (outcome, n) => ⟨.social outcome, n, false, none⟩
    | .error err => n.refuse now event (.rejected s!"invalid social event: {err}") (violationOf err)
  | _ => ⟨.other, n, false, none⟩

/-- The gate, then the presence of the author, then the dispatcher. -/
def receivePeerEventInner (env : Env) (now : Nat) (n : Node h) (event : MeshEvent) : Received h :=
  let gate := n.admitPeerEvent env now event
  match gate.decision with
  | .rejected reason => ⟨.rejected reason, gate.node, gate.charged, gate.violation⟩
  | .admitted =>
    let n₁ := if event.pubkey = gate.node.pubkeyHex then gate.node else gate.node.notePeerTraffic event.pubkey now
    { n₁.routePeerEvent env now event with charged := gate.charged }

/-- The counters an outcome feeds. -/
def countOutcome (metrics : NodeMetrics) : PeerEventOutcome → NodeMetrics
  | .alertStored | .endorsementApplied | .abuseReportApplied _ =>
    { metrics with messagesIngested := metrics.messagesIngested + 1 }
  | .social .ignored => metrics
  | .social _ => { metrics with messagesIngested := metrics.messagesIngested + 1 }
  | .rejected _ | .endorsementRejected _ | .abuseReportRejected _ =>
    { metrics with messagesRejected := metrics.messagesRejected + 1 }
  | _ => metrics

/-- An event received from a peer at the time `now`. -/
def receivePeerEvent (env : Env) (now : Nat) (n : Node h) (event : MeshEvent) : Received h :=
  let r := n.receivePeerEventInner env now event
  { r with node := { r.node with metrics := countOutcome r.node.metrics r.outcome } }

/-! The counters are written last and nothing reads them. -/

section
variable (env : Env) (now : Nat) (n : Node h) (event : MeshEvent)

@[simp] theorem receivePeerEvent_outcome :
    (n.receivePeerEvent env now event).outcome = (n.receivePeerEventInner env now event).outcome := by
  rw [receivePeerEvent]

@[simp] theorem receivePeerEvent_charged :
    (n.receivePeerEvent env now event).charged = (n.receivePeerEventInner env now event).charged := by
  rw [receivePeerEvent]

@[simp] theorem receivePeerEvent_violation :
    (n.receivePeerEvent env now event).violation = (n.receivePeerEventInner env now event).violation := by
  rw [receivePeerEvent]

@[simp] theorem receivePeerEvent_node_identity :
    (n.receivePeerEvent env now event).node.identity = (n.receivePeerEventInner env now event).node.identity := by
  rw [receivePeerEvent]

@[simp] theorem receivePeerEvent_node_reputation :
    (n.receivePeerEvent env now event).node.reputation = (n.receivePeerEventInner env now event).node.reputation := by
  rw [receivePeerEvent]

@[simp] theorem receivePeerEvent_node_gossip :
    (n.receivePeerEvent env now event).node.gossip = (n.receivePeerEventInner env now event).node.gossip := by
  rw [receivePeerEvent]

@[simp] theorem receivePeerEvent_node_spamGuard :
    (n.receivePeerEvent env now event).node.spamGuard = (n.receivePeerEventInner env now event).node.spamGuard := by
  rw [receivePeerEvent]

end

end Node

end Onde
