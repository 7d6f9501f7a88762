import Onde.Node.State

/-!
# Handlers of alerts, endorsements, abuse reports and key rotations

* `handleIncomingAlert`: full validation, relay, storage (`handleIncomingAlert_eq`);
* `handleIncomingEndorsement`, `handleIncomingAbuseReport`: a signed payload (`decodeSigned`) is applied to the
  reputation and relayed exactly when `EndorsementAccepted`, `AbuseReportAccepted`
  (`handleIncomingEndorsement_applied`, `handleIncomingAbuseReport_applied`);
* `handleIncomingRotation`: an announcement of a trusted peer is applied exactly when `RotationAccepted`
  (`handleIncomingRotation_applied`).
-/

namespace Onde

open Lib Crypto Reputation Protocol Social Storage

variable {h : Host}

inductive EndorsementHandlingOutcome where
  | ignored
  | applied
  | rejected (reason : String)
  deriving DecidableEq

inductive AbuseReportOutcome where
  | ignored
  | applied (level : ℚ)
  | rejected (reason : String)
  deriving DecidableEq

inductive RotationHandlingOutcome where
  | ignored
  | applied
  | rejected (reason : String)
  deriving DecidableEq

/-- The signature check as the handlers write it out. -/
def sigVerified (c : Primitives) (event : MeshEvent) : Bool :=
  match hexDecode event.pubkey, hexDecode event.sig with
  | some pk, some sig =>
    if hl : pk.length = 32 ∧ sig.length = 64 then c.verify ⟨pk, hl.1⟩ (utf8Bytes event.id) ⟨sig, hl.2⟩ else false
  | _, _ => false

/-- It is the check of the event. -/
theorem sigVerified_eq (c : Primitives) (event : MeshEvent) : sigVerified c event = event.signatureValid c := by
  unfold sigVerified MeshEvent.signatureValid decodeHex32 decodeHex64 decodeHex
  cases hexDecode event.pubkey with
  | none => rfl
  | some pk =>
    cases hexDecode event.sig with
    | none => by_cases hp : pk.length = 32 <;> simp [hp]
    | some sig => by_cases hp : pk.length = 32 <;> by_cases hs : sig.length = 64 <;> simp [hp, hs]

/-- Decode a small payload and check that its author signed the event. -/
def decodeSigned {α : Type} (h : Host) (what mismatch : String) (fromSlice : Bytes → Except String α)
    (author : α → String) (verified : MeshEvent → Bool) (event : MeshEvent) : Except String α :=
  if 1024 < event.content.utf8ByteSize then .error s!"{what} payload too large (max 1024 bytes)"
  else match h.base64Decode event.content with
    | .error err => .error s!"{what} payload is not valid base64: {err}"
    | .ok data => match fromSlice data with
      | .error err => .error s!"{what} payload is not valid JSON: {err}"
      | .ok payload =>
        if author payload ≠ event.pubkey then .error mismatch
        else if !verified event then .error s!"{what} signature could not be verified"
        else .ok payload

theorem decodeSigned_ok {α : Type} {what mismatch : String} {fromSlice : Bytes → Except String α}
    {author : α → String} {verified : MeshEvent → Bool} {event : MeshEvent} {payload : α}
    (hd : decodeSigned h what mismatch fromSlice author verified event = .ok payload) :
    author payload = event.pubkey ∧ verified event = true := by
  unfold decodeSigned at hd
  obtain ⟨-, hd⟩ := check_eq_ok.mp hd
  split at hd
  · cases hd
  split at hd
  · cases hd
  obtain ⟨hauthor, hd⟩ := check_eq_ok.mp hd
  obtain ⟨hv, hd⟩ := check_eq_ok.mp hd
  cases hd
  exact ⟨not_not.mp hauthor, by simpa using hv⟩

/-- The endorsement an event carries. -/
def endorsementPayload (h : Host) : MeshEvent → Except String Endorsement :=
  decodeSigned h "endorsement" "endorsement endorser does not match the event signer" h.endorsementFromSlice
    Endorsement.endorser (sigVerified h.toPrimitives)

/-- The abuse report an event carries. -/
def abuseReportPayload (h : Host) : MeshEvent → Except String AbuseReport :=
  decodeSigned h "abuse report" "abuse reporter does not match the event signer" h.abuseReportFromSlice
    AbuseReport.reporter (MeshEvent.signatureValid h.toPrimitives)

/-- 64 hexadecimal digits, in either case. -/
def isHex64 (s : String) : Bool := s.utf8ByteSize = 64 && s.toList.all fun c => (hexVal c).isSome

theorem isHex64_of_lowerHex {s : String} (h : LowerHex 32 s) : isHex64 s = true := by
  rw [isHex64, h.utf8ByteSize, decide_eq_true rfl, Bool.true_and, List.all_eq_true]
  intro c hc
  obtain ⟨n, _, hn, _⟩ := hexVal_lower (h.2 c hc)
  rw [hn]
  rfl

/-- The key and the counter a rotation announces. -/
def rotationPayload (h : Host) (event : MeshEvent) : Except String (String × UInt64) :=
  match h.base64Decode event.content with
  | .error err => .error s!"rotation payload is not valid base64: {err}"
  | .ok data => match h.valueFromSlice data with
    | .error err => .error s!"rotation payload is not valid JSON: {err}"
    | .ok payload => match (payload.get "x25519").bind Json.asStr with
      | none => .error "rotation payload missing valid 'x25519' (64 hex)"
      | some key =>
        if isHex64 key then .ok (key, ((payload.get "rotation").bind Json.asU64).getD 0)
        else .error "rotation payload missing valid 'x25519' (64 hex)"

namespace Node

/-- Put an event in the outbox if it is new and valid for the node's reputation; a refusal changes nothing. -/
def relay (env : Env) (n : Node h) (event : MeshEvent) : Node h :=
  { n with gossip :=
    n.gossip.after (n.gossip.addEventWithReputation h.toPrimitives env.order env.clock event n.reputation) }

/-- An alert received from the mesh. -/
def handleIncomingAlert (env : Env) (n : Node h) (event : MeshEvent) : Except String (Bool × Node h) :=
  if event.kind ≠ .alert then .ok (false, n)
  else do
    event.validateWithReputation h.toPrimitives env.clock n.reputation
    let added ← n.gossip.addEventWithReputation h.toPrimitives env.order env.clock event n.reputation
    pure (keepMessage { n with gossip := added.2 } event .critical)

/-- An endorsement received from the mesh. -/
def handleIncomingEndorsement (env : Env) (n : Node h) (event : MeshEvent) : EndorsementHandlingOutcome × Node h :=
  if event.kind ≠ .endorsement then (.ignored, n)
  else match endorsementPayload h event with
    | .error err => (.rejected err, n)
    | .ok endorsement => match n.reputation.applyRemoteEndorsement endorsement true with
      | .error err => (.rejected err, n)
      | .ok reputation => (.applied, relay env { n with reputation := reputation } event)

/-- An abuse report received from the mesh. -/
def handleIncomingAbuseReport (env : Env) (n : Node h) (event : MeshEvent) : AbuseReportOutcome × Node h :=
  if event.kind ≠ .abuseReport then (.ignored, n)
  else match abuseReportPayload h event with
    | .error err => (.rejected err, n)
    | .ok report => match n.reputation.applyRemoteAbuseReport report true with
      | .error err => (.rejected err, n)
      | .ok (level, reputation) => (.applied level, relay env { n with reputation := reputation } event)

/-- Why an announced key is not taken. -/
def rotationRefusal (n : Node h) (event : MeshEvent) (key : String) (count : UInt64) : Option String :=
  if !sigVerified h.toPrimitives event then some "rotation signature could not be verified (forged or invalid)"
  else if !n.reputation.isTrusted event.pubkey then some s!"rotation announced by untrusted peer {event.pubkey}"
  else match n.peerRotationCount.lookup event.pubkey with
    | some last =>
      if count ≤ last then some s!"rotation replay/stale (count {count} not > last accepted {last})"
      else if n.peerX25519.lookup event.pubkey = some key then some "rotation already applied (duplicate key)"
      else none
    | none =>
      if n.peerX25519.lookup event.pubkey = some key then some "rotation already applied (duplicate key)" else none

/-- The new key becomes current, the old one is kept for the grace period. -/
def applyRotation (n : Node h) (announcer key : String) (count : UInt64) : Node h :=
  let prev := n.peerX25519.getD announcer ""
  { n with
    peerX25519Grace := if prev = "" then n.peerX25519Grace else n.peerX25519Grace.insert announcer prev
    peerX25519 := n.peerX25519.insert announcer key
    peerRotationCount := n.peerRotationCount.insert announcer count }

/-- A key rotation received from the mesh. -/
def handleIncomingRotation (env : Env) (n : Node h) (event : MeshEvent) : RotationHandlingOutcome × Node h :=
  if event.kind ≠ .identityRotation then (.ignored, n)
  else match rotationPayload h event with
    | .error err => (.rejected err, n)
    | .ok (key, count) => match n.rotationRefusal event key count with
      | some reason => (.rejected reason, n)
      | none => (.applied, relay env (n.applyRotation event.pubkey key count) event)

/-! ## What the handlers do -/

variable {env : Env} {n : Node h} {event : MeshEvent}

theorem addEvent_valid (hv : event.validateWithReputation h.toPrimitives env.clock n.reputation = .ok ()) :
    n.gossip.addEventWithReputation h.toPrimitives env.order env.clock event n.reputation =
      .ok (n.gossip.insertNew env.order event) :=
  GossipProtocol.addEventWithReputation_of_valid env.order n.gossip hv

/-- **An alert is refused by validation alone**; otherwise it is relayed and kept. -/
theorem handleIncomingAlert_eq (hk : event.kind = .alert) :
    n.handleIncomingAlert env event =
      (event.validateWithReputation h.toPrimitives env.clock n.reputation).map fun _ =>
        keepMessage { n with gossip := (n.gossip.insertNew env.order event).2 } event .critical := by
  unfold handleIncomingAlert
  rw [if_neg (not_not.mpr hk)]
  cases hv : event.validateWithReputation h.toPrimitives env.clock n.reputation with
  | error err => rfl
  | ok u => rw [addEvent_valid hv]; rfl

/-- Relaying inserts a valid event, -/
theorem relay_valid (hv : event.validateWithReputation h.toPrimitives env.clock n.reputation = .ok ()) :
    (relay env n event).gossip = (n.gossip.insertNew env.order event).2 := by
  rw [relay, addEvent_valid hv]
  rfl

/-- and nothing else. -/
theorem relay_invalid (hv : event.validateWithReputation h.toPrimitives env.clock n.reputation ≠ .ok ()) :
    (relay env n event).gossip = n.gossip := by
  unfold relay
  cases ha : n.gossip.addEventWithReputation h.toPrimitives env.order env.clock event n.reputation with
  | error err => rfl
  | ok r => exact absurd (GossipProtocol.addEventWithReputation_ok ha).1 hv

/-- The endorsement is decoded, signed by its endorser and endorsable. -/
def EndorsementAccepted (n : Node h) (event : MeshEvent) : Prop :=
  event.kind = .endorsement ∧ ∃ endorsement, endorsementPayload h event = .ok endorsement ∧
    n.reputation.Endorsable endorsement.endorser endorsement.endorsed

/-- **An endorsement is applied exactly when it is accepted.** -/
theorem handleIncomingEndorsement_applied :
    (n.handleIncomingEndorsement env event).1 = .applied ↔ n.EndorsementAccepted event := by
  unfold handleIncomingEndorsement EndorsementAccepted
  by_cases hk : event.kind = .endorsement
  swap
  · simp [hk]
  rw [if_neg (not_not.mpr hk)]
  cases hp : endorsementPayload h event with
  | error err => simp [hk]
  | ok endorsement =>
    have hok : (∃ p, n.reputation.endorse endorsement.endorser endorsement.endorsed endorsement.timestamp = .ok p) ↔
        n.reputation.Endorsable endorsement.endorser endorsement.endorsed := ReputationSystem.endorse_ok
    simp only [ReputationSystem.applyRemoteEndorsement_eq, hk, true_and, Except.ok.injEq, exists_eq_left']
    cases hr : n.reputation.endorse endorsement.endorser endorsement.endorsed endorsement.timestamp with
    | error err =>
      rw [hr] at hok
      simpa using hok
    | ok p =>
      rw [hr] at hok
      simpa using hok

/-- The report is decoded, signed by its reporter and reportable. -/
def AbuseReportAccepted (n : Node h) (event : MeshEvent) : Prop :=
  event.kind = .abuseReport ∧ ∃ report, abuseReportPayload h event = .ok report ∧ n.reputation.Reportable report

/-- **A report is applied exactly when it is accepted.** -/
theorem handleIncomingAbuseReport_applied :
    (∃ level, (n.handleIncomingAbuseReport env event).1 = .applied level) ↔ n.AbuseReportAccepted event := by
  unfold handleIncomingAbuseReport AbuseReportAccepted
  by_cases hk : event.kind = .abuseReport
  swap
  · simp [hk]
  rw [if_neg (not_not.mpr hk)]
  cases hp : abuseReportPayload h event with
  | error err => simp [hk]
  | ok report =>
    have hok : (∃ p, n.reputation.applyRemoteAbuseReport report true = .ok p) ↔ n.reputation.Reportable report :=
      ReputationSystem.applyRemoteAbuseReport_ok
    simp only [hk, true_and, Except.ok.injEq, exists_eq_left']
    cases hr : n.reputation.applyRemoteAbuseReport report true with
    | error err =>
      rw [hr] at hok
      simpa using hok
    | ok p =>
      rw [hr] at hok
      simpa using hok

/-- The rotation is decoded, signed, by a trusted peer, newer than the last one and to another key. -/
def RotationAccepted (n : Node h) (event : MeshEvent) : Prop :=
  event.kind = .identityRotation ∧ ∃ key count, rotationPayload h event = .ok (key, count) ∧
    event.signatureValid h.toPrimitives = true ∧ n.reputation.isTrusted event.pubkey = true ∧
    (∀ last, n.peerRotationCount.lookup event.pubkey = some last → last < count) ∧
    n.peerX25519.lookup event.pubkey ≠ some key

theorem rotationRefusal_none (key : String) (count : UInt64) : n.rotationRefusal event key count = none ↔
    event.signatureValid h.toPrimitives = true ∧ n.reputation.isTrusted event.pubkey = true ∧
    (∀ last, n.peerRotationCount.lookup event.pubkey = some last → last < count) ∧
    n.peerX25519.lookup event.pubkey ≠ some key := by
  unfold rotationRefusal
  rw [sigVerified_eq]
  cases hs : event.signatureValid h.toPrimitives with
  | false => simp
  | true =>
    cases ht : n.reputation.isTrusted event.pubkey with
    | false => simp
    | true =>
      cases hl : n.peerRotationCount.lookup event.pubkey with
      | none => simp
      | some last =>
        by_cases hle : count ≤ last
        · simp [hle, UInt64.not_lt.mpr hle]
        · simp [hle, UInt64.not_le.mp hle]

/-- **A rotation is applied exactly when it is accepted.** -/
theorem handleIncomingRotation_applied :
    (n.handleIncomingRotation env event).1 = .applied ↔ n.RotationAccepted event := by
  unfold handleIncomingRotation RotationAccepted
  by_cases hk : event.kind = .identityRotation
  swap
  · simp [hk]
  rw [if_neg (not_not.mpr hk)]
  cases hp : rotationPayload h event with
  | error err => simp [hk]
  | ok p =>
    obtain ⟨key, count⟩ := p
    simp only [hk, true_and, Except.ok.injEq, Prod.mk.injEq]
    cases hr : n.rotationRefusal event key count with
    | none =>
      refine ⟨fun _ => ⟨key, count, ⟨rfl, rfl⟩, (rotationRefusal_none key count).mp hr⟩, fun _ => rfl⟩
    | some reason =>
      constructor
      · intro ha
        cases ha
      · rintro ⟨_, _, ⟨rfl, rfl⟩, hacc⟩
        rw [(rotationRefusal_none _ _).mpr hacc] at hr
        cases hr

end Node

end Onde
