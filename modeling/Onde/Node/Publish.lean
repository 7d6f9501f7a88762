import Onde.Lib.Except
import Onde.Node.SocialHandlers
import Onde.Reputation.Trust

/-!
# Publishing

* `publishAlert`, `publishMutualAid`, `publishSocialPost`, `publishSocialComment`: the four entry points; each signs at
  a fuzzy time, takes the difficulty the node's own reputation asks of itself, validates and puts the event in the
  outbox (`publishSigned`);
* `Published`: what another node can rely on, whatever the entry point (`publish_ok`).
-/

namespace Onde

open Lib Crypto Reputation Protocol Social Storage

variable {h : Host}

def publishPowIterations : Nat := 2000000
def postPowIterations : Nat := 1000000
def maxTextLength : Nat := 280

def buildTags (pairs : List (String × String)) : List String := pairs.map fun x => s!"{x.1}={x.2}"

/-- The names a platform goes by. -/
def parseSocialPlatform (platform : String) : Except String SocialPlatform :=
  if platform = "Tuitter" ∨ platform = "tuitter" then .ok .tuitter
  else if platform = "Redit" ∨ platform = "redit" then .ok .redit
  else .error s!"unknown social platform: {platform}"

/-- Find the nonce, or give up. -/
def Protocol.MeshEvent.payPow (c : Primitives) (iterations : Nat) (failed : String) (event : MeshEvent) :
    Except String MeshEvent :=
  match event.computePow c iterations with
  | some event => .ok event
  | none => .error failed

/-- The signed event of a post, with the proof of work of the network. -/
def SocialPost.toMeshEvent (h : Host) (createdAt : UInt64) (sender : Identity) (post : SocialPost) :
    Except String MeshEvent := do
  post.validate
  if post.authorPubkey ≠ sender.pubkeyHex h.toPrimitives then
    .error "social post author does not match signing identity"
  else do
    let content ← (h.postToString post).mapError fun err => s!"failed to encode social post: {err}"
    let tags := s!"platform={post.platform.name}" :: (post.communitySlug.map fun slug => s!"community={slug}").toList
    let event := MeshEvent.newSigned h.toPrimitives sender .socialPost content tags createdAt
    event.payPow h.toPrimitives postPowIterations "failed to compute proof of work for social post"

/-- What a user asks to publish. -/
inductive Publication where
  | alert (content : String)
  | mutualAid (content : String)
  | socialPost (platform : String) (title : Option String) (body : String) (communitySlug : Option String)
  | socialComment (platform postId : String) (parentId : Option String) (body : String)

namespace Node

/-! ## The throttle -/

/-- The shortest time between two publications. -/
def publishIntervalSecs (n : Node h) : Nat :=
  let base := if trustedThreshold ≤ n.reputation.score n.pubkeyHex then publishIntervalTrustedSecs
    else publishIntervalUntrustedSecs
  if n.config.batterySaver then base * publishBatteryMultiplier else base

def publishAllowed (n : Node h) (now : Nat) : Bool := n.publishIntervalSecs ≤ now - n.lastPublishAt

def enforcePublishThrottle (env : Env) (n : Node h) : Except String Unit :=
  if n.publishAllowed env.clock then .ok ()
  else .error s!"Rate limited: wait {n.publishIntervalSecs}s before the next publication"

def recordPublish (env : Env) (n : Node h) : Node h := { n with lastPublishAt := env.clock }

/-! ## The entry points -/

/-- The steps all entry points share: the difficulty asked of oneself, the proof of work, local validation, the
outbox. -/
def publishSigned (env : Env) (n : Node h) (event : MeshEvent) (powFailed : String) :
    Except String (MeshEvent × Node h) := do
  let difficulty := n.reputation.requiredPowDifficulty n.pubkeyHex
  let event := event.withPowDifficulty difficulty
  let event ← (if 0 < difficulty then event.payPow h.toPrimitives publishPowIterations powFailed else .ok event)
  event.validateWithReputation h.toPrimitives env.clock n.reputation
  let added ← n.gossip.addEventWithReputation h.toPrimitives env.order env.clock event n.reputation
  pure (event, { n with gossip := added.2 })

/-- Publish a short text: throttled, kept in a tier of the store. -/
def publishText (kind : OndeMessageType) (tier : MessageTier) (what : String) (env : Env) (n : Node h)
    (content : String) : Except String (MeshEvent × Node h) :=
  if maxTextLength < content.length then .error s!"{what} must be <= 280 characters"
  else do
    n.enforcePublishThrottle env
    let event := MeshEvent.newSigned h.toPrimitives n.identity kind content [] env.fuzzyTimestampSecs
    let (event, n) ← n.publishSigned env event "PoW computation failed"
    pure (event, (n.keepMessage event tier).2.recordPublish env)

def publishAlert : Env → Node h → String → Except String (MeshEvent × Node h) :=
  publishText .alert .critical "Alert"

def publishMutualAid : Env → Node h → String → Except String (MeshEvent × Node h) :=
  publishText .mutualAid .important "Mutual aid request"

/-- Publish a post: not throttled, but counted. -/
def publishSocialPost (env : Env) (n : Node h) (platform : String) (title : Option String) (body : String)
    (communitySlug : Option String) : Except String (MeshEvent × Node h) := do
  let platform ← parseSocialPlatform platform
  let post : SocialPost := ⟨env.socialId, platform, n.pubkeyHex, title, body, communitySlug, []⟩
  post.validate
  let event ← SocialPost.toMeshEvent h env.fuzzyTimestampSecs n.identity post
  let (event, n₁) ← n.publishSigned env event "PoW computation failed for social post"
  pure (event, recordPublish env { n₁ with
    socialStore := n₁.socialStore.map fun db => (h.insertPost (h.ensureUser db n.pubkeyHex).2 post).2 })

/-- Publish a comment: neither throttled nor counted. -/
def publishSocialComment (env : Env) (n : Node h) (platform postId : String) (parentId : Option String)
    (body : String) : Except String (MeshEvent × Node h) := do
  let platform ← parseSocialPlatform platform
  let comment : SocialComment := ⟨env.socialId, platform, n.pubkeyHex, postId, parentId, body⟩
  comment.validate
  let content ← (h.commentToString comment).mapError fun err => s!"social comment serialization: {err}"
  let event := MeshEvent.newSigned h.toPrimitives n.identity .socialComment content
    [s!"platform={platform.name}"] env.fuzzyTimestampSecs
  let (event, n₁) ← n.publishSigned env event "PoW computation failed for comment"
  pure (event, { n₁ with socialStore := n₁.socialStore.map fun db => (h.insertComment db comment).2 })

/-- The entry point of a publication. -/
def publish (env : Env) (n : Node h) : Publication → Except String (MeshEvent × Node h)
  | .alert content => n.publishAlert env content
  | .mutualAid content => n.publishMutualAid env content
  | .socialPost platform title body slug => n.publishSocialPost env platform title body slug
  | .socialComment platform postId parentId body => n.publishSocialComment env platform postId parentId body

end Node

/-! ## What is published -/

/-- What another node can rely on in an event its author published at `clock`. -/
structure Published (h : Host) (author : String) (clock : Nat) (event : MeshEvent) : Prop where
  pubkey : event.pubkey = author
  kind : event.kind = .alert ∨ event.kind = .mutualAid ∨ event.kind = .socialPost ∨ event.kind = .socialComment
  signed : event.checkSigned h.toPrimitives clock = .ok ()
  recent : event.createdAt.toNat ≤ clock + 30
  pow : verifyPow h.toPrimitives event.id event.powNonce event.powDifficulty = true
  payload : event.kind.isSocial = true → event.content.utf8ByteSize ≤ socialPostMaxBytes →
    ∃ effect, socialPayload h event = .ok effect

/-- Published stays published as the clock of the author goes on. -/
theorem Published.mono {author : String} {clock clock' : Nat} {event : MeshEvent}
    (hp : Published h author clock event) (hle : clock ≤ clock') : Published h author clock' event :=
  ⟨hp.pubkey, hp.kind, checkSigned_later hp.signed hle, hp.recent.trans (by omega), hp.pow, hp.payload⟩

/-- The proof of work changes the nonce only. -/
theorem payPow_ok {c : Primitives} {iterations : Nat} {failed : String} {event e : MeshEvent}
    (hp : event.payPow c iterations failed = .ok e) : ∃ nonce, e = { event with powNonce := nonce } := by
  unfold MeshEvent.payPow MeshEvent.computePow at hp
  cases hf : findNonce c event.id event.powDifficulty iterations 0 with
  | none =>
    rw [hf] at hp
    cases hp
  | some nonce =>
    rw [hf] at hp
    cases hp
    exact ⟨nonce, rfl⟩

/-- The text of a valid post is its payload, -/
theorem socialPayload_post {event : MeshEvent} {post : SocialPost} (hk : event.kind = .socialPost)
    (hsize : event.content.utf8ByteSize ≤ socialPostMaxBytes) (hread : h.postFromStr event.content = .ok post)
    {u : Unit} (hvalid : post.validate = .ok u) : ∃ effect, socialPayload h event = .ok effect := by
  have hbound : checkSocialPayloadSize "social post" event.content socialPostMaxBytes = .ok () :=
    checkSocialPayloadSize_ok.mpr hsize
  unfold socialPayload
  rw [hk]
  dsimp only
  rw [socialPostPayload, hbound, hread]
  show ∃ effect, (post.validate >>= fun _ => pure _) = .ok effect
  rw [hvalid]
  exact ⟨_, rfl⟩

/-- and so for a comment. -/
theorem socialPayload_comment {event : MeshEvent} {comment : SocialComment} (hk : event.kind = .socialComment)
    (hsize : event.content.utf8ByteSize ≤ socialCommentMaxBytes)
    (hread : h.commentFromStr event.content = .ok comment) {u : Unit} (hvalid : comment.validate = .ok u) :
    ∃ effect, socialPayload h event = .ok effect := by
  have hbound : checkSocialPayloadSize "social comment" event.content socialCommentMaxBytes = .ok () :=
    checkSocialPayloadSize_ok.mpr hsize
  unfold socialPayload
  rw [hk]
  dsimp only
  rw [socialCommentPayload, hbound, hread]
  show ∃ effect, (comment.validate >>= fun _ => pure _) = .ok effect
  rw [hvalid]
  exact ⟨_, rfl⟩

namespace Node

variable {env : Env} {n n' : Node h} {event e : MeshEvent}

/-- **The shared steps set the proof of work and nothing else**, and let a valid event through only. -/
theorem publishSigned_ok {powFailed : String} (hp : n.publishSigned env event powFailed = .ok (e, n')) :
    (∃ nonce, e = { event with
      powNonce := nonce, powDifficulty := n.reputation.requiredPowDifficulty n.pubkeyHex }) ∧
    e.validateWithReputation h.toPrimitives env.clock n.reputation = .ok () ∧ n'.identity = n.identity := by
  unfold publishSigned at hp
  obtain ⟨e₁, hpow, hp⟩ := bind_eq_ok.mp hp
  obtain ⟨_, hv, hp⟩ := bind_eq_ok.mp hp
  obtain ⟨added, _, hp⟩ := bind_eq_ok.mp hp
  cases hp
  refine ⟨?_, hv, rfl⟩
  split at hpow
  · exact payPow_ok hpow
  · cases hpow
    exact ⟨event.powNonce, rfl⟩

/-- They leave everything but the outbox as it was. -/
theorem publishSigned_frame {powFailed : String} (hp : n.publishSigned env event powFailed = .ok (e, n')) :
    ∃ gossip, n' = { n with gossip } := by
  unfold publishSigned at hp
  obtain ⟨_, _, hp⟩ := bind_eq_ok.mp hp
  obtain ⟨_, _, hp⟩ := bind_eq_ok.mp hp
  obtain ⟨added, _, hp⟩ := bind_eq_ok.mp hp
  cases hp
  exact ⟨added.2, rfl⟩

/-- A fresh node trusts itself and asks no proof of work of itself. -/
theorem new_floor (config : NodeConfig) (identity : Identity) (persistence : Option h.MessageDb)
    (socialStore : Option h.SocialDb) :
    (Node.new config identity persistence socialStore).reputation.requiredPowDifficulty
      (Node.new config identity persistence socialStore).pubkeyHex = 0 :=
  ReputationSystem.requiredPowDifficulty_bootstrap List.mem_cons_self rfl

/-- A node that asks nothing of itself pays no proof of work. -/
theorem publishSigned_trusted (powFailed : String) (hfloor : n.reputation.requiredPowDifficulty n.pubkeyHex = 0)
    (hv : (event.withPowDifficulty 0).validateWithReputation h.toPrimitives env.clock n.reputation = .ok ()) :
    n.publishSigned env event powFailed = .ok (event.withPowDifficulty 0,
      { n with gossip := (n.gossip.insertNew env.order (event.withPowDifficulty 0)).2 }) := by
  unfold publishSigned
  rw [hfloor]
  refine bind_eq_ok.mpr ⟨event.withPowDifficulty 0, if_neg (by decide), ?_⟩
  refine bind_eq_ok.mpr ⟨(), hv, bind_eq_ok.mpr ⟨_, addEvent_valid hv, rfl⟩⟩

/-- What the shared steps let through is published, if it was signed now and its payload can be read. -/
theorem published_of_signed {powFailed : String} (hp : n.publishSigned env event powFailed = .ok (e, n'))
    (hkey : event.pubkey = n.pubkeyHex)
    (hk : event.kind = .alert ∨ event.kind = .mutualAid ∨ event.kind = .socialPost ∨ event.kind = .socialComment)
    (ht : event.createdAt = env.fuzzyTimestampSecs)
    (hpay : event.kind.isSocial = true → event.content.utf8ByteSize ≤ socialPostMaxBytes →
      ∃ effect, socialPayload h event = .ok effect) :
    Published h n.pubkeyHex env.clock e ∧
      e.powDifficulty = n.reputation.requiredPowDifficulty n.pubkeyHex ∧ n'.identity = n.identity := by
  obtain ⟨⟨nonce, rfl⟩, hv, hid⟩ := publishSigned_ok hp
  obtain ⟨hsigned, hpow⟩ := validateWithPowMin_ok.mp hv
  refine ⟨⟨hkey, hk, hsigned, ?_, (checkPow_ok.mp hpow).2, hpay⟩, rfl, hid⟩
  show event.createdAt.toNat ≤ env.clock + 30
  rw [ht]
  exact env.fuzzyTimestampSecs_le

theorem publishText_ok {kind : OndeMessageType} {tier : MessageTier} {what content : String}
    (hk : kind = .alert ∨ kind = .mutualAid) (hp : publishText kind tier what env n content = .ok (e, n')) :
    Published h n.pubkeyHex env.clock e ∧
      e.powDifficulty = n.reputation.requiredPowDifficulty n.pubkeyHex ∧ n'.identity = n.identity := by
  unfold publishText at hp
  split at hp
  · cases hp
  obtain ⟨_, _, hp⟩ := bind_eq_ok.mp hp
  obtain ⟨⟨e₁, n₁⟩, hsigned, hp⟩ := bind_eq_ok.mp hp
  cases hp
  have hns : kind.isSocial = false := by
    rcases hk with rfl | rfl
    · rfl
    · rfl
  obtain ⟨hpub, hdiff, hid⟩ := published_of_signed hsigned rfl
    (hk.imp_right Or.inl) rfl fun hs => absurd hs (by simpa [MeshEvent.newSigned] using hns)
  exact ⟨hpub, hdiff, (keepMessage_core n₁ e tier).identity.trans hid⟩

/-- A short text within the throttle is published as the shared steps leave it. -/
theorem publishText_of_signed {kind : OndeMessageType} {tier : MessageTier} (what : String) {content : String}
    (hlen : content.length ≤ maxTextLength) (hthrottle : n.publishAllowed env.clock = true)
    (hp : n.publishSigned env (MeshEvent.newSigned h.toPrimitives n.identity kind content [] env.fuzzyTimestampSecs)
      "PoW computation failed" = .ok (e, n')) :
    publishText kind tier what env n content = .ok (e, (n'.keepMessage e tier).2.recordPublish env) := by
  unfold publishText
  rw [if_neg (Nat.not_lt.mpr hlen)]
  exact bind_eq_ok.mpr ⟨(), if_pos hthrottle, bind_eq_ok.mpr ⟨_, hp, rfl⟩⟩

theorem publishSocialPost_ok (hl : h.Lawful) {platform body : String} {title slug : Option String}
    (hp : publishSocialPost env n platform title body slug = .ok (e, n')) :
    Published h n.pubkeyHex env.clock e ∧
      e.powDifficulty = n.reputation.requiredPowDifficulty n.pubkeyHex ∧ n'.identity = n.identity := by
  unfold publishSocialPost at hp
  obtain ⟨p, _, hp⟩ := bind_eq_ok.mp hp
  obtain ⟨_, hvalid, hp⟩ := bind_eq_ok.mp hp
  obtain ⟨signed, hmesh, hp⟩ := bind_eq_ok.mp hp
  obtain ⟨⟨e₁, n₁⟩, hsigned, hp⟩ := bind_eq_ok.mp hp
  cases hp
  unfold SocialPost.toMeshEvent at hmesh
  obtain ⟨_, _, hmesh⟩ := bind_eq_ok.mp hmesh
  split at hmesh
  · cases hmesh
  obtain ⟨content, hcontent, hmesh⟩ := bind_eq_ok.mp hmesh
  obtain ⟨nonce, rfl⟩ := payPow_ok hmesh
  have hread := hl.post_round_trip _ _ (mapError_eq_ok.mp hcontent)
  obtain ⟨hpub, hdiff, hid⟩ := published_of_signed hsigned rfl (Or.inr (Or.inr (Or.inl rfl))) rfl
    fun _ hsize => socialPayload_post rfl hsize hread hvalid
  exact ⟨hpub, hdiff, hid⟩

theorem publishSocialComment_ok (hl : h.Lawful) {platform postId body : String} {parentId : Option String}
    (hp : publishSocialComment env n platform postId parentId body = .ok (e, n')) :
    Published h n.pubkeyHex env.clock e ∧
      e.powDifficulty = n.reputation.requiredPowDifficulty n.pubkeyHex ∧ n'.identity = n.identity := by
  unfold publishSocialComment at hp
  obtain ⟨p, _, hp⟩ := bind_eq_ok.mp hp
  obtain ⟨_, hvalid, hp⟩ := bind_eq_ok.mp hp
  obtain ⟨content, hcontent, hp⟩ := bind_eq_ok.mp hp
  obtain ⟨⟨e₁, n₁⟩, hsigned, hp⟩ := bind_eq_ok.mp hp
  cases hp
  have hread := hl.comment_round_trip _ _ (mapError_eq_ok.mp hcontent)
  obtain ⟨hpub, hdiff, hid⟩ := published_of_signed hsigned rfl (Or.inr (Or.inr (Or.inr rfl))) rfl
    fun _ hsize => socialPayload_comment rfl hsize hread hvalid
  exact ⟨hpub, hdiff, hid⟩

/-- **Whatever the entry point, what comes out is published**, with the difficulty the node asks of itself. -/
theorem publish_ok (hl : h.Lawful) {p : Publication} (hp : n.publish env p = .ok (e, n')) :
    Published h n.pubkeyHex env.clock e ∧
      e.powDifficulty = n.reputation.requiredPowDifficulty n.pubkeyHex ∧ n'.identity = n.identity := by
  cases p with
  | alert content => exact publishText_ok (Or.inl rfl) hp
  | mutualAid content => exact publishText_ok (Or.inr rfl) hp
  | socialPost platform title body slug => exact publishSocialPost_ok hl hp
  | socialComment platform postId parentId body => exact publishSocialComment_ok hl hp

end Node

end Onde
