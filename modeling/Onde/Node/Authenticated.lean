import Onde.Node.Handlers

/-!
# Are applied payloads authenticated?

Endorsements, abuse reports and rotations are applied after a check of the signature over the id of the event, and
none of the three handlers compares the id with the fields. `authenticated_iff` says when an applied payload is the
one its author signed; `endorsement_forged` is one that is not.
-/

namespace Onde

open Lib Crypto Reputation Protocol

variable {h : Host}

/-- The author of the event signed exactly its fields. -/
def Signed (h : Host) (event : MeshEvent) : Prop :=
  event.id = event.canonicalId h.toPrimitives ∧ event.signatureValid h.toPrimitives = true

namespace Node

variable {env : Env} {n : Node h} {event : MeshEvent}

/-- **An accepted endorsement carries a valid signature over its id.** -/
theorem EndorsementAccepted.signatureValid (ha : n.EndorsementAccepted event) :
    event.signatureValid h.toPrimitives = true := by
  obtain ⟨_, endorsement, hp, _⟩ := ha
  rw [← sigVerified_eq]
  exact (decodeSigned_ok hp).2

theorem AbuseReportAccepted.signatureValid (ha : n.AbuseReportAccepted event) :
    event.signatureValid h.toPrimitives = true := by
  obtain ⟨_, report, hp, _⟩ := ha
  exact (decodeSigned_ok hp).2

theorem RotationAccepted.signatureValid (ha : n.RotationAccepted event) :
    event.signatureValid h.toPrimitives = true := by
  obtain ⟨_, _, _, _, hs, _⟩ := ha
  exact hs

/-- A handler that checks the signature applies signed payloads only, exactly when the id is the canonical one or it
does not apply the event. -/
theorem signed_iff {applied : Prop} (hs : applied → event.signatureValid h.toPrimitives = true) :
    (applied → Signed h event) ↔ event.id = event.canonicalId h.toPrimitives ∨ ¬applied := by
  constructor
  · intro hsigned
    by_cases ha : applied
    · exact Or.inl (hsigned ha).1
    · exact Or.inr ha
  · rintro (hid | hna) ha
    · exact ⟨hid, hs ha⟩
    · exact absurd ha hna

/-- A handler that does not apply an event changes nothing. -/
theorem handleIncomingEndorsement_frame (ha : ¬n.EndorsementAccepted event) :
    (n.handleIncomingEndorsement env event).2 = n := by
  replace ha : (n.handleIncomingEndorsement env event).1 ≠ .applied := mt handleIncomingEndorsement_applied.mp ha
  unfold handleIncomingEndorsement at ha ⊢
  by_cases hk : event.kind = .endorsement
  swap
  · rw [if_pos hk]
  rw [if_neg (not_not.mpr hk)] at ha ⊢
  cases hp : endorsementPayload h event with
  | error err => rfl
  | ok endorsement =>
    cases hr : n.reputation.applyRemoteEndorsement endorsement true with
    | error err => simp only [hr]
    | ok reputation =>
      simp only [hp, hr] at ha
      exact absurd rfl ha

theorem handleIncomingAbuseReport_frame (ha : ¬n.AbuseReportAccepted event) :
    (n.handleIncomingAbuseReport env event).2 = n := by
  replace ha : ¬∃ level, (n.handleIncomingAbuseReport env event).1 = .applied level :=
    mt handleIncomingAbuseReport_applied.mp ha
  unfold handleIncomingAbuseReport at ha ⊢
  by_cases hk : event.kind = .abuseReport
  swap
  · rw [if_pos hk]
  rw [if_neg (not_not.mpr hk)] at ha ⊢
  cases hp : abuseReportPayload h event with
  | error err => rfl
  | ok report =>
    cases hr : n.reputation.applyRemoteAbuseReport report true with
    | error err => simp only [hr]
    | ok p =>
      simp only [hp, hr] at ha
      exact absurd ⟨_, rfl⟩ ha

theorem handleIncomingRotation_frame (ha : ¬n.RotationAccepted event) :
    (n.handleIncomingRotation env event).2 = n := by
  replace ha : (n.handleIncomingRotation env event).1 ≠ .applied := mt handleIncomingRotation_applied.mp ha
  unfold handleIncomingRotation at ha ⊢
  by_cases hk : event.kind = .identityRotation
  swap
  · rw [if_pos hk]
  rw [if_neg (not_not.mpr hk)] at ha ⊢
  cases hp : rotationPayload h event with
  | error err => rfl
  | ok p =>
    cases hr : n.rotationRefusal event p.1 p.2 with
    | some reason => simp only [hr]
    | none =>
      simp only [hp, hr] at ha
      exact absurd rfl ha

/-- **When an applied payload is the one its author signed.** In every state, for every event and for each of the
three handlers: the signature over the id always holds of what is applied and nothing changes otherwise, but the
payload is the signed one exactly when the id is the canonical id of the fields or the handler does not accept the
event. -/
theorem authenticated_iff (env : Env) (n : Node h) (event : MeshEvent) :
    (((n.handleIncomingEndorsement env event).1 = .applied → Signed h event) ↔
      event.id = event.canonicalId h.toPrimitives ∨ ¬n.EndorsementAccepted event) ∧
    (((∃ level, (n.handleIncomingAbuseReport env event).1 = .applied level) → Signed h event) ↔
      event.id = event.canonicalId h.toPrimitives ∨ ¬n.AbuseReportAccepted event) ∧
    (((n.handleIncomingRotation env event).1 = .applied → Signed h event) ↔
      event.id = event.canonicalId h.toPrimitives ∨ ¬n.RotationAccepted event) ∧
    (n.EndorsementAccepted event ∨ n.AbuseReportAccepted event ∨ n.RotationAccepted event →
      event.signatureValid h.toPrimitives = true) ∧
    (¬n.EndorsementAccepted event → (n.handleIncomingEndorsement env event).2 = n) ∧
    (¬n.AbuseReportAccepted event → (n.handleIncomingAbuseReport env event).2 = n) ∧
    (¬n.RotationAccepted event → (n.handleIncomingRotation env event).2 = n) := by
  rw [handleIncomingEndorsement_applied, handleIncomingAbuseReport_applied, handleIncomingRotation_applied]
  refine ⟨signed_iff EndorsementAccepted.signatureValid, signed_iff AbuseReportAccepted.signatureValid,
    signed_iff RotationAccepted.signatureValid, ?_, handleIncomingEndorsement_frame, handleIncomingAbuseReport_frame,
    handleIncomingRotation_frame⟩
  rintro (ha | ha | ha)
  · exact ha.signatureValid
  · exact ha.signatureValid
  · exact ha.signatureValid

end Node

/-! ## A forged endorsement -/

/-- The id and the signature of an alert, on an endorsement its author never signed. -/
def forgedEvent : MeshEvent := { knownEvent .alert with kind := .endorsement, content := endorsementText }

theorem forgedEvent_signatureValid : forgedEvent.signatureValid knownHost.toPrimitives = true := by
  rw [forgedEvent, signatureValid_forge, knownEvent_signatureValid]

theorem forgedEvent_id : forgedEvent.id ≠ forgedEvent.canonicalId knownHost.toPrimitives := by
  have hlt : (canonical knownAuthor 1700000000 .alert [] "OK").render.utf8ByteSize <
      (canonical knownAuthor 1700000000 .endorsement [] endorsementText).render.utf8ByteSize := by
    have halert : (canonical knownAuthor 1700000000 .alert [] "OK").render.utf8ByteSize < 108 := by decide +kernel
    have hcontent := content_le_canonical knownAuthor 1700000000 .endorsement [] endorsementText
    have hlen : endorsementHead.toList.length ≤ endorsementText.toList.length := by
      simp only [endorsementText, String.toList_append, List.length_append]
      omega
    have hhead : endorsementHead.toList.length = 108 := congrArg List.length String.toList_ofList
    omega
  have hk : knownValues.digests = (_, _) :: (_, _) :: _ := rfl
  obtain ⟨halert, hforged⟩ := KnownValues.digest_pair hk hlt
  have hid : forgedEvent.id = hexEncode (bytesOfHex 32 (knownValues.digest
      (utf8Bytes (canonical knownAuthor 1700000000 .alert [] "OK").render))).1 := by
    rw [← known_pubkey]
    rfl
  have hcanonical : forgedEvent.canonicalId knownHost.toPrimitives = hexEncode (bytesOfHex 32 (knownValues.digest
      (utf8Bytes (canonical knownAuthor 1700000000 .endorsement [] endorsementText).render))).1 := by
    rw [← known_pubkey]
    rfl
  rw [hid, hcanonical, halert, hforged]
  decide +kernel

theorem forgedEvent_payload :
    endorsementPayload knownHost forgedEvent = .ok ⟨knownAuthor, knownBeneficiary, 1700000000⟩ := by
  have htext : endorsementText.utf8ByteSize ≤ 1024 :=
    (utf8ByteSize_append_le (utf8ByteSize_bounds _).2
      (utf8ByteSize_append_le (utf8ByteSize_bounds _).2 (utf8ByteSize_bounds _).2)).trans (by decide)
  have hsize : ¬1024 < forgedEvent.content.utf8ByteSize := Nat.not_lt.mpr htext
  have hbase : knownHost.base64Decode forgedEvent.content = .ok (utf8Bytes endorsementJson) := by
    simp [knownHost, Host.ofKnown, forgedEvent]
  have hjson : knownHost.endorsementFromSlice (utf8Bytes endorsementJson) =
      .ok ⟨knownAuthor, knownBeneficiary, 1700000000⟩ := by
    simp [knownHost, Host.ofKnown]
  have hsig : sigVerified knownHost.toPrimitives forgedEvent = true := by
    rw [sigVerified_eq, forgedEvent_signatureValid]
  have hauthor : knownAuthor = forgedEvent.pubkey := known_pubkey.symm
  simp only [endorsementPayload, decodeSigned, if_neg hsize, hbase, hjson, hsig, ← hauthor, ne_eq, not_true_eq_false,
    if_false, Bool.not_true, Bool.false_eq_true]

/-- **A relay endorses in the author's name**: the node applies an endorsement whose id is that of an alert. -/
theorem endorsement_forged :
    (trustingNode.handleIncomingEndorsement (.still 1700000000) forgedEvent).1 = .applied ∧
      ¬Signed knownHost forgedEvent := by
  have hne : knownAuthor ≠ knownBeneficiary := mt String.ofList_inj.mp (by decide)
  have hable : trustingNode.reputation.Endorsable knownAuthor knownBeneficiary :=
    ReputationSystem.endorsable_bootstrap List.mem_cons_self hne rfl
  exact ⟨Node.handleIncomingEndorsement_applied.mpr ⟨rfl, _, forgedEvent_payload, hable⟩,
    fun hs => forgedEvent_id hs.1⟩

end Onde
