import Onde.Node.Handlers

/-!
# The handler of social events

Each kind bounds and decodes its payload (`socialPayload`); then the event is validated, relayed, and written to the
cache of the social graph, whose failures are only logged (`handleIncomingSocial_eq`).
-/

namespace Onde

open Lib Crypto Reputation Protocol Social Storage

variable {h : Host}

def socialPostMaxBytes : Nat := 512 * 1024
def socialCommentMaxBytes : Nat := 512 * 1024
def socialVoteMaxBytes : Nat := 4 * 1024
def socialFollowMaxBytes : Nat := 4 * 1024
def socialMessageMaxBytes : Nat := 16 * 1024
def socialModerationMaxBytes : Nat := 8 * 1024

inductive SocialEventOutcome where
  | ignored
  | postStored (id : String)
  | commentStored (id : String)
  | voteApplied | followApplied | messageStored | moderationApplied
  deriving DecidableEq

/-- What a decoded payload asks for: the outcome, and the write to the cache, given a fresh identifier. -/
structure SocialEffect (h : Host) where
  outcome : SocialEventOutcome
  write : String → h.SocialDb → h.SocialDb

/-- The raw bound, checked before decoding. -/
def checkSocialPayloadSize (kind content : String) (maxBytes : Nat) : Except String Unit :=
  if maxBytes < content.utf8ByteSize then .error s!"{kind} payload too large (max {maxBytes} bytes)" else .ok ()

theorem checkSocialPayloadSize_ok {kind content : String} {maxBytes : Nat} {u : Unit} :
    checkSocialPayloadSize kind content maxBytes = .ok u ↔ content.utf8ByteSize ≤ maxBytes := by
  rw [checkSocialPayloadSize, check_eq_ok, Nat.not_lt]
  exact and_iff_left rfl

def validateSocialTargetRef (value field : String) : Except String Unit :=
  if value = "" ∨ maxSocialId < value.length then .error s!"{field} must contain 1..={maxSocialId} characters"
  else .ok ()

def validateSocialPubkeyRef (value field : String) : Except String Unit :=
  if isHex64 value then .ok () else .error s!"{field} must be a 32-byte hex pubkey"

/-- The text of a field, empty if it is missing or of another type. -/
def textField (payload : Json) (key : String) : String := ((payload.get key).bind Json.asStr).getD ""

/-! ## Payloads -/

def socialPostPayload (h : Host) (event : MeshEvent) : Except String (SocialEffect h) := do
  checkSocialPayloadSize "social post" event.content socialPostMaxBytes
  let post ← (h.postFromStr event.content).mapError fun err => s!"social post decode: {err}"
  post.validate
  pure ⟨.postStored post.id, fun _ db => (h.insertPost (h.ensureUser db post.authorPubkey).2 post).2⟩

def socialCommentPayload (h : Host) (event : MeshEvent) : Except String (SocialEffect h) := do
  checkSocialPayloadSize "social comment" event.content socialCommentMaxBytes
  let comment ← (h.commentFromStr event.content).mapError fun err => s!"social comment decode: {err}"
  comment.validate
  pure ⟨.commentStored comment.id,
    fun _ db => (h.insertComment (h.ensureUser db comment.authorPubkey).2 comment).2⟩

def socialVotePayload (h : Host) (event : MeshEvent) : Except String (SocialEffect h) := do
  checkSocialPayloadSize "vote" event.content socialVoteMaxBytes
  let payload ← (h.valueFromStr event.content).mapError fun err => s!"vote payload decode: {err}"
  let targetId := textField payload "target_id"
  let direction := ((payload.get "direction").bind Json.asI64).getD 1
  let targetTable := ((payload.get "target_table").bind Json.asStr).getD "posts"
  validateSocialTargetRef targetId "vote target_id"
  if direction < -1 ∨ 1 < direction then throw "vote direction must be -1 or 1"
  if targetTable ≠ "posts" ∧ targetTable ≠ "comments" then throw s!"unknown vote target table: {targetTable}"
  pure ⟨.voteApplied, fun _ db => (h.vote db event.pubkey targetId direction targetTable).2⟩

def socialFollowPayload (h : Host) (event : MeshEvent) : Except String (SocialEffect h) := do
  checkSocialPayloadSize "follow" event.content socialFollowMaxBytes
  let payload ← (h.valueFromStr event.content).mapError fun err => s!"follow payload decode: {err}"
  let followed := textField payload "followed"
  let unfollow := ((payload.get "unfollow").bind Json.asBool).getD false
  validateSocialPubkeyRef followed "follow target"
  pure ⟨.followApplied, fun _ db =>
    if unfollow then (h.unfollow db event.pubkey followed).2 else (h.follow db event.pubkey followed).2⟩

def socialMessagePayload (h : Host) (event : MeshEvent) : Except String (SocialEffect h) := do
  checkSocialPayloadSize "private message" event.content socialMessageMaxBytes
  let payload ← (h.valueFromStr event.content).mapError fun err => s!"message payload decode: {err}"
  let recipient := textField payload "recipient"
  let body := textField payload "body"
  validateSocialPubkeyRef recipient "message recipient"
  if blank body then throw "message body cannot be empty"
  if maxPrivateMessageBody < body.length then throw s!"message body exceeds {maxPrivateMessageBody} characters"
  pure ⟨.messageStored, fun id db => (h.insertMessage db id event.pubkey recipient body).2⟩

def socialModerationPayload (h : Host) (event : MeshEvent) : Except String (SocialEffect h) := do
  checkSocialPayloadSize "moderation report" event.content socialModerationMaxBytes
  let payload ← (h.valueFromStr event.content).mapError fun err => s!"moderation payload decode: {err}"
  let targetId := textField payload "target_id"
  let reason := textField payload "reason"
  validateSocialTargetRef targetId "moderation target_id"
  if blank reason then throw "moderation reason cannot be empty"
  if maxModerationReason < reason.length then throw s!"moderation reason exceeds {maxModerationReason} characters"
  pure ⟨.moderationApplied, fun id db => (h.submitReport db id event.pubkey targetId reason).2⟩

/-- The payload of an event, by its kind. -/
def socialPayload (h : Host) (event : MeshEvent) : Except String (SocialEffect h) :=
  match event.kind with
  | .socialPost => socialPostPayload h event
  | .socialComment => socialCommentPayload h event
  | .socialVote => socialVotePayload h event
  | .socialFollow => socialFollowPayload h event
  | .socialMessage => socialMessagePayload h event
  | .socialModeration => socialModerationPayload h event
  | _ => .ok ⟨.ignored, fun _ db => db⟩

namespace Node

/-! ## The handler -/

/-- Once decoded, an event is validated, relayed and written to the cache. -/
def relaySocial (env : Env) (n : Node h) (event : MeshEvent) (payload : Except String (SocialEffect h)) :
    Except String (SocialEventOutcome × Node h) := do
  let effect ← payload
  event.validateWithReputation h.toPrimitives env.clock n.reputation
  let added ← n.gossip.addEventWithReputation h.toPrimitives env.order env.clock event n.reputation
  pure (effect.outcome, { n with
    gossip := added.2
    socialStore := n.socialStore.map (effect.write env.socialId) })

/-- A social event received from the mesh. -/
def handleIncomingSocial (env : Env) (n : Node h) (event : MeshEvent) :
    Except String (SocialEventOutcome × Node h) :=
  match event.kind with
  | .socialPost => n.relaySocial env event (socialPostPayload h event)
  | .socialComment => n.relaySocial env event (socialCommentPayload h event)
  | .socialVote => n.relaySocial env event (socialVotePayload h event)
  | .socialFollow => n.relaySocial env event (socialFollowPayload h event)
  | .socialMessage => n.relaySocial env event (socialMessagePayload h event)
  | .socialModeration => n.relaySocial env event (socialModerationPayload h event)
  | _ => .ok (.ignored, n)

variable {env : Env} {n : Node h} {event : MeshEvent}

/-- **A social event is refused by its payload or by validation alone**; otherwise it is relayed and cached. -/
theorem handleIncomingSocial_eq (hk : event.kind.isSocial = true) :
    n.handleIncomingSocial env event = (socialPayload h event).bind fun effect =>
      (event.validateWithReputation h.toPrimitives env.clock n.reputation).map fun _ =>
        (effect.outcome, { n with
          gossip := (n.gossip.insertNew env.order event).2
          socialStore := n.socialStore.map (effect.write env.socialId) }) := by
  have hrelay : ∀ payload : Except String (SocialEffect h), n.relaySocial env event payload =
      payload.bind fun effect =>
        (event.validateWithReputation h.toPrimitives env.clock n.reputation).map fun _ =>
          (effect.outcome, { n with
            gossip := (n.gossip.insertNew env.order event).2
            socialStore := n.socialStore.map (effect.write env.socialId) }) := by
    intro payload
    unfold relaySocial
    cases payload with
    | error err => rfl
    | ok effect =>
      cases hv : event.validateWithReputation h.toPrimitives env.clock n.reputation with
      | error err => rfl
      | ok u => rw [addEvent_valid hv]; rfl
  unfold handleIncomingSocial socialPayload
  cases hkind : event.kind <;> simp only [hkind, OndeMessageType.isSocial, Bool.false_eq_true] at hk <;> exact hrelay _

end Node

end Onde
