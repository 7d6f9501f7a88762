import Onde.Node.Verdict

/-!
# How a refused endorsement is classified

The dispatcher looks for a few phrases in the text of the refusal.

* `Classified`: what the cause of the refusal asks for;
* `decodeMessage`: the text with which the decoders refuse a payload, which decides alone what the phrases say of it
  (`politicalNoise_decode`);
* `routePeerEvent_malformed`, `routePeerEvent_refused`: the dispatcher on either cause;
* `endorsement_classified_iff`: when a reception classifies by the cause; `quoted_phrase`: a payload that quotes one of
  the phrases is taken for noise.
-/

namespace Onde

open Lib Crypto Reputation Protocol Social Storage

variable {h : Host}

/-- The text with which a payload is refused as base64 or as JSON. -/
def decodeMessage (h : Host) (event : MeshEvent) : Option String :=
  if 1024 < event.content.utf8ByteSize then none
  else match h.base64Decode event.content with
    | .error err => some err
    | .ok data => match h.endorsementFromSlice data with
      | .error err => some err
      | .ok _ => none

/-- A head that is clear of the three phrases does not make noise of what follows. -/
theorem politicalNoise_clear (head : String) (hd : clearOf "Duplicate".toList head.toList = true)
    (ht : clearOf "not trusted".toList head.toList = true)
    (hi : clearOf "cannot endorse itself".toList head.toList = true) (s : String) :
    politicalNoise (head ++ s) = politicalNoise s := by
  unfold politicalNoise
  rw [contains_clear hd, contains_clear ht, contains_clear hi]

/-- **What the phrases say of a payload is what they say of the decoder's own text**; the refusals of the handler
itself hold none of them. -/
theorem politicalNoise_decode {event : MeshEvent} {err : String} (hs : event.signatureValid h.toPrimitives = true)
    (hp : endorsementPayload h event = .error err) :
    politicalNoise err = (decodeMessage h event).any politicalNoise := by
  unfold endorsementPayload decodeSigned at hp
  unfold decodeMessage
  by_cases hlong : 1024 < event.content.utf8ByteSize
  · rw [if_pos hlong] at hp ⊢
    cases hp
    decide
  rw [if_neg hlong] at hp ⊢
  cases hbase : h.base64Decode event.content with
  | error msg =>
    simp only [hbase] at hp ⊢
    cases hp
    exact politicalNoise_clear "endorsement payload is not valid base64: " (by decide) (by decide) (by decide) msg
  | ok data =>
    cases hjson : h.endorsementFromSlice data with
    | error msg =>
      simp only [hbase, hjson] at hp ⊢
      cases hp
      exact politicalNoise_clear "endorsement payload is not valid JSON: " (by decide) (by decide) (by decide) msg
    | ok endorsement =>
      simp only [hbase, hjson, sigVerified_eq, hs] at hp ⊢
      by_cases hauthor : endorsement.endorser = event.pubkey
      · simp [hauthor] at hp
      · rw [if_pos hauthor] at hp
        cases hp
        decide

namespace Node

/-- A refused endorsement is classified by its cause: one violation if its payload cannot be decoded or names another
endorser than the signer, none if it is refused by policy. -/
structure Classified (now : Nat) (n : Node h) (event : MeshEvent) (r : Received h) : Prop where
  malformed : (∃ err, endorsementPayload h event = .error err) → r.violation = some .invalidEvent ∧
    r.node.reputation = n.reputation.recordViolation event.pubkey .invalidEvent now
  refused : ∀ endorsement, endorsementPayload h event = .ok endorsement →
    ¬n.reputation.Endorsable endorsement.endorser endorsement.endorsed →
    r.violation = none ∧ r.node.reputation = n.reputation

variable {env : Env} {now : Nat} {n : Node h} {event : MeshEvent}

/-- A payload that is refused with one of the phrases is taken for noise, -/
theorem routePeerEvent_malformed {err : String} (hk : event.kind = .endorsement)
    (hp : endorsementPayload h event = .error err) :
    n.routePeerEvent env now event = if politicalNoise err then ⟨.endorsementRejected err, n, false, none⟩
      else n.refuse now event (.endorsementRejected err) .invalidEvent := by
  unfold routePeerEvent handleIncomingEndorsement
  simp only [hk, hp, ne_eq, not_true_eq_false, if_false]

/-- and a refusal by policy always is. -/
theorem routePeerEvent_refused {endorsement : Endorsement} (env : Env) (now : Nat) (hk : event.kind = .endorsement)
    (hp : endorsementPayload h event = .ok endorsement)
    (hno : ¬n.reputation.Endorsable endorsement.endorser endorsement.endorsed) :
    ∃ err, n.routePeerEvent env now event = ⟨.endorsementRejected err, n, false, none⟩ := by
  cases hr : n.reputation.endorse endorsement.endorser endorsement.endorsed endorsement.timestamp with
  | ok p => exact absurd (ReputationSystem.endorse_ok.mp ⟨p, hr⟩) hno
  | error err =>
    refine ⟨err, ?_⟩
    unfold routePeerEvent handleIncomingEndorsement
    simp only [hk, hp, ne_eq, not_true_eq_false, if_false, ReputationSystem.applyRemoteEndorsement_eq, hr,
      Functor.map, Except.map, politicalNoise_endorse hr, if_true]

/-- An endorsement past the gate reaches the dispatcher with the reputation as it was. -/
theorem receivePeerEvent_routed (env : Env) (hpass : (n.verdict now event).passes = true) : ∃ n₁ : Node h,
    n₁.reputation = n.reputation ∧
    (n.receivePeerEvent env now event).violation = (n₁.routePeerEvent env now event).violation ∧
    (n.receivePeerEvent env now event).node.reputation = (n₁.routePeerEvent env now event).node.reputation := by
  rw [receivePeerEvent_violation, receivePeerEvent_node_reputation]
  rcases receivePeerEventInner_cases env now n event with ⟨hp, -⟩ | ⟨-, -, n₁, -, hrep, -, -, -, heq⟩
  · rw [hpass] at hp
    cases hp
  · exact ⟨n₁, hrep, by rw [heq], by rw [heq]⟩

/-- A violation for an invalid event comes from past the gate. -/
theorem passes_of_invalidEvent (hv : (n.receivePeerEvent env now event).violation = some .invalidEvent) :
    (n.verdict now event).passes = true := by
  rw [(receivePeerEvent_spec env now n event).violation] at hv
  split at hv
  · cases hv
  · split at hv
    · next hpass => exact hpass
    · cases hv

/-- **A payload that cannot be used costs its author one violation exactly when the gate lets the event in and the
decoder's text holds none of the phrases.** -/
theorem malformed_iff {err : String} (hk : event.kind = .endorsement)
    (hs : event.signatureValid h.toPrimitives = true) (hp : endorsementPayload h event = .error err) :
    (n.receivePeerEvent env now event).violation = some .invalidEvent ∧
        (n.receivePeerEvent env now event).node.reputation =
          n.reputation.recordViolation event.pubkey .invalidEvent now ↔
      (n.verdict now event).passes = true ∧ (decodeMessage h event).any politicalNoise = false := by
  rw [← politicalNoise_decode hs hp]
  constructor
  · rintro ⟨hv, -⟩
    have hpass : (n.verdict now event).passes = true := passes_of_invalidEvent hv
    refine ⟨hpass, ?_⟩
    obtain ⟨n₁, -, hviol, -⟩ := receivePeerEvent_routed env hpass
    rw [hviol, routePeerEvent_malformed hk hp] at hv
    cases hn : politicalNoise err with
    | false => rfl
    | true =>
      rw [hn] at hv
      cases hv
  · rintro ⟨hpass, hn⟩
    obtain ⟨n₁, hrep, hviol, hnode⟩ := receivePeerEvent_routed env hpass
    rw [hviol, hnode, routePeerEvent_malformed hk hp, hn]
    exact ⟨rfl, by rw [← hrep]; rfl⟩

/-- **A refusal by policy costs nothing exactly when the event is within the budget.** -/
theorem refused_iff {endorsement : Endorsement} (hk : event.kind = .endorsement)
    (hp : endorsementPayload h event = .ok endorsement)
    (hno : ¬n.reputation.Endorsable endorsement.endorser endorsement.endorsed) :
    (n.receivePeerEvent env now event).violation = none ∧
        (n.receivePeerEvent env now event).node.reputation = n.reputation ↔ n.verdict now event ≠ .full := by
  constructor
  · rintro ⟨hv, -⟩ hf
    rw [(receivePeerEvent_spec env now n event).violation, if_pos hf] at hv
    cases hv
  · intro hf
    cases hpass : (n.verdict now event).passes with
    | true =>
      obtain ⟨n₁, hrep, hviol, hnode⟩ := receivePeerEvent_routed env hpass
      obtain ⟨err, hroute⟩ := routePeerEvent_refused env now (n := n₁) hk hp (by rwa [hrep])
      rw [hviol, hnode, hroute]
      exact ⟨rfl, hrep⟩
    | false =>
      have hg := admitPeerEvent_spec env now n event
      rw [receivePeerEvent_violation, receivePeerEvent_node_reputation]
      rcases receivePeerEventInner_cases env now n event with ⟨-, reason, heq⟩ | ⟨hp', -⟩
      · rw [heq]
        exact ⟨hg.violation.trans (if_neg hf), hg.reputation.trans (if_neg hf)⟩
      · rw [hpass] at hp'
        cases hp'

/-- **When an endorsement is classified by its cause.** A payload that cannot be decoded, or that names another
endorser than the signer, costs one violation for an invalid event exactly if the gate lets the event in and the text
with which the decoder refuses it holds none of the phrases; a refusal by policy costs none exactly if the event is
within the budget of its author. -/
theorem endorsement_classified_iff (env : Env) (now : Nat) (n : Node h) (event : MeshEvent)
    (hk : event.kind = .endorsement) (hs : event.signatureValid h.toPrimitives = true) :
    Classified now n event (n.receivePeerEvent env now event) ↔
      ((∃ err, endorsementPayload h event = .error err) → (n.verdict now event).passes = true ∧
        ∀ message, decodeMessage h event = some message → politicalNoise message = false) ∧
      (∀ endorsement, endorsementPayload h event = .ok endorsement →
        ¬n.reputation.Endorsable endorsement.endorser endorsement.endorsed → n.verdict now event ≠ .full) := by
  have hany : (∀ message, decodeMessage h event = some message → politicalNoise message = false) ↔
      (decodeMessage h event).any politicalNoise = false := by
    cases decodeMessage h event <;> simp
  rw [hany]
  constructor
  · rintro ⟨hm, hr⟩
    refine ⟨?_, fun endorsement hp hno => (refused_iff hk hp hno).mp (hr endorsement hp hno)⟩
    rintro ⟨err, hp⟩
    exact (malformed_iff hk hs hp).mp (hm ⟨err, hp⟩)
  · rintro ⟨hm, hr⟩
    refine ⟨?_, fun endorsement hp hno => (refused_iff hk hp hno).mpr (hr endorsement hp hno)⟩
    rintro ⟨err, hp⟩
    exact (malformed_iff hk hs hp).mpr (hm ⟨err, hp⟩)

/-! ## Known payloads -/

/-- A payload that is no base64 at all counts. -/
theorem endorsement_classified_known : Classified 1700000000 strangerNode (knownEvent .endorsement)
    (strangerNode.receivePeerEvent (.still 1700000000) 1700000000 (knownEvent .endorsement)) := by
  have hmessage : decodeMessage knownHost (knownEvent .endorsement) = some "Invalid padding" := rfl
  refine (endorsement_classified_iff (.still 1700000000) 1700000000 strangerNode (knownEvent .endorsement)
    (knownEvent_kind .endorsement) (knownEvent_signatureValid .endorsement)).mpr ⟨fun _ => ⟨?_, ?_⟩, ?_⟩
  · rw [stranger_verdict]
    rfl
  · intro message hm
    rw [hmessage] at hm
    cases hm
    decide
  · intro endorsement hp
    cases hp

end Node

/-- A JSON text, -/
def quotedJson : String := "\"Duplicate\""

/-- and the error of the decoder that quotes it. -/
def quotedError : String := "invalid type: string \"Duplicate\", expected struct Endorsement at line 1 column 11"

def quotedValues : KnownValues where
  keys := knownKeys
  digests := [((canonical knownAuthor 1700000000 .endorsement [] "IkR1cGxpY2F0ZSI=").render,
    "0eeab322bd882c42d80d5fcfddeef2fc21cc8aea0a00fd167e826b61fd4b892d")]
  signatures := [(knownAuthor, "0eeab322bd882c42d80d5fcfddeef2fc21cc8aea0a00fd167e826b61fd4b892d",
    "afd2f443ce80eff4c04057f9baa47c7b7805cc15f59f528500b08e976e621f36" ++
      "1009226dc58e98350399447fbd26a5e45ebc4d1f4aa06acd3f6f21451c34ff0c")]

def quotedHost : Host :=
  { Host.ofKnown quotedValues [] [] with
    base64Decode := fun text => if text = "IkR1cGxpY2F0ZSI=" then .ok (utf8Bytes quotedJson)
      else .error "Invalid padding"
    endorsementFromSlice := fun data => if data = utf8Bytes quotedJson then .error quotedError
      else .error "EOF while parsing a value at line 1 column 0" }

/-- An endorsement that its author signed, with the JSON text as its payload. -/
def quotedEvent : MeshEvent :=
  MeshEvent.newSigned quotedHost.toPrimitives (.ofByte 1) .endorsement "IkR1cGxpY2F0ZSI=" [] 1700000000

def quotedNode : Node quotedHost := Node.new .default (.ofByte 2) none none

theorem quotedHost_lawful : quotedHost.toPrimitives.Lawful := Primitives.ofKnown_lawful quotedValues

theorem quotedEvent_signatureValid : quotedEvent.signatureValid quotedHost.toPrimitives = true := by
  unfold quotedEvent
  exact newSigned_signatureValid quotedHost_lawful _ _ _ _ _

theorem quotedEvent_pubkey : quotedEvent.pubkey = knownAuthor := by
  unfold quotedEvent
  rw [show ∀ kind content, (MeshEvent.newSigned quotedHost.toPrimitives (.ofByte 1) kind content [] 1700000000).pubkey =
    (Identity.ofByte 1).pubkeyHex quotedHost.toPrimitives from fun _ _ => rfl]
  exact knownKeys_one (k := quotedValues) rfl

theorem quotedNode_pubkey : knownAuthor ≠ quotedNode.pubkeyHex := by
  have hkey : quotedNode.pubkeyHex = _ := knownKeys_two (k := quotedValues) rfl
  rw [hkey]
  decide

theorem quotedEvent_verdict : quotedNode.verdict 1700000000 quotedEvent = .room := by
  refine Node.verdict_clean quotedEvent_signatureValid ?_ (Finset.notMem_empty _) rfl ?_
  · rw [quotedEvent_pubkey]
    exact quotedNode_pubkey
  · show 0 < spamBudgetPerWindow
    decide

/-- **A payload that quotes one of the phrases is taken for noise**: the gate lets it in, it cannot be decoded, and its
author is charged with nothing. -/
theorem quoted_phrase :
    quotedEvent.kind = .endorsement ∧ quotedEvent.signatureValid quotedHost.toPrimitives = true ∧
      endorsementPayload quotedHost quotedEvent =
        .error ("endorsement payload is not valid JSON: " ++ quotedError) ∧
      (quotedNode.receivePeerEvent (.still 1700000000) 1700000000 quotedEvent).violation = none ∧
      ¬Node.Classified 1700000000 quotedNode quotedEvent
        (quotedNode.receivePeerEvent (.still 1700000000) 1700000000 quotedEvent) := by
  have hpayload : endorsementPayload quotedHost quotedEvent =
      .error ("endorsement payload is not valid JSON: " ++ quotedError) := by
    unfold endorsementPayload decodeSigned
    rw [if_neg (by decide +kernel)]
    rfl
  have hkind : quotedEvent.kind = .endorsement := rfl
  have hnoise : politicalNoise ("endorsement payload is not valid JSON: " ++ quotedError) = true := by decide +kernel
  have hviol : (quotedNode.receivePeerEvent (.still 1700000000) 1700000000 quotedEvent).violation = none := by
    rw [(Node.receivePeerEvent_spec _ _ _ _).violation, quotedEvent_verdict, if_neg (by decide), if_pos (by decide)]
    unfold Node.routeViolation
    rw [if_neg (by rw [hkind]; decide), if_pos hkind, hpayload]
    exact if_pos hnoise
  refine ⟨hkind, quotedEvent_signatureValid, hpayload, hviol, fun hc => ?_⟩
  have hcharged := (hc.malformed ⟨_, hpayload⟩).1
  rw [hviol] at hcharged
  cases hcharged

end Onde
