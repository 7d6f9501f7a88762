import Onde.Lib.Json
import Onde.Node.Announcer
import Onde.Node.Endorse
import Onde.Node.Update

/-!
# Whatever a node signs

* `Node.reportAbuse`: a node signs a report of another one and publishes it;
* `Node.Signs`: a call signs an event with the key of the node, puts it in the outbox, and does nothing else to the
  gossip state; so do all entry points (`publish_signs`, `endorse_signs`, `reportAbuse_signs`, `announce_signs`,
  `publishGossipEvent_signs`);
* `Signs.sound`: the event keeps the digits of its fields, is valid for the node and enters the outbox.
-/

namespace Onde

open Lib Crypto Reputation Protocol Social Storage

variable {h : Host}

/-- The JSON value of an abuse report. -/
def Reputation.AbuseReport.toJson (r : AbuseReport) : Json :=
  .obj [("reporter", .str r.reporter), ("offender", .str r.offender),
    ("reason", .num (.posInt r.reason.toUInt64)), ("timestamp", .num (.posInt (UInt64.ofNat r.timestamp)))]

namespace Node

/-! ## Reporting an offender -/

/-- The report of an offender as a signed event. -/
def signedAbuseReport (base64Encode : Bytes → String) (env : Env) (n : Node h) (offender : String)
    (reason : AbuseReason) (timestamp : Nat) : MeshEvent :=
  let report : AbuseReport := ⟨n.pubkeyHex, offender, reason.code, timestamp⟩
  let content := base64Encode (utf8Bytes report.toJson.render)
  MeshEvent.newSigned h.toPrimitives n.identity .abuseReport content [] env.fuzzyTimestampSecs

/-- Report an offender: sign the report and publish it. Nothing is recorded here. -/
def reportAbuse (base64Encode : Bytes → String) (env : Env) (n : Node h) (offender : String) (reason : AbuseReason)
    (timestamp : Nat) : Except String (MeshEvent × Node h) :=
  if offender = n.pubkeyHex then .error "A node cannot report itself"
  else n.publishSigned env (n.signedAbuseReport base64Encode env offender reason timestamp) "PoW computation failed"

/-! ## Signing -/

/-- A node with the same key and the same gossip state publishes an event signed with this key, whose nonce may have
been searched before; what else changes does not matter here. -/
def Signs (n : Node h) (event : MeshEvent) (n' : Node h) : Prop :=
  ∃ (env : Env) (m m' : Node h) (kind : OndeMessageType) (content : String) (tags : List String) (t nonce : UInt64)
    (failed : String), m.identity = n.identity ∧ m.gossip = n.gossip ∧
    m.publishSigned env { MeshEvent.newSigned h.toPrimitives n.identity kind content tags t with powNonce := nonce }
      failed = .ok (event, m') ∧
    n'.identity = n.identity ∧ n'.gossip = m'.gossip

/-- The fields that are written as hexadecimal digits are, and in lower case. -/
structure Digits (e : MeshEvent) : Prop where
  id : LowerHex 32 e.id
  pubkey : LowerHex 32 e.pubkey
  sig : LowerHex 64 e.sig

variable {n n' : Node h} {event : MeshEvent} {env : Env}

/-- What the shared steps do to the gossip state. -/
theorem publishSigned_gossip {e : MeshEvent} {failed : String} (hp : n.publishSigned env event failed = .ok (e, n')) :
    n'.gossip = (n.gossip.insertNew env.order e).2 := by
  obtain ⟨_, hv, _⟩ := publishSigned_ok hp
  unfold publishSigned at hp
  obtain ⟨_, _, hp⟩ := bind_eq_ok.mp hp
  obtain ⟨_, _, hp⟩ := bind_eq_ok.mp hp
  obtain ⟨added, hadded, hp⟩ := bind_eq_ok.mp hp
  cases hp
  rw [addEvent_valid hv] at hadded
  cases hadded
  rfl

/-- **What a node signs has its digits in lower case, is valid and is inserted into the gossip state.** -/
theorem Signs.sound (hs : n.Signs event n') : event.pubkey = n.pubkeyHex ∧ Digits event ∧
    GossipProtocol.Admitted h.toPrimitives event ∧ n'.identity = n.identity ∧
    ∃ order, n'.gossip = (n.gossip.insertNew order event).2 := by
  obtain ⟨env, m, m', kind, content, tags, t, nonce, failed, -, hg, hp, hid, hg'⟩ := hs
  have hgossip := publishSigned_gossip hp
  obtain ⟨⟨paid, rfl⟩, hv, -⟩ := publishSigned_ok hp
  refine ⟨rfl, ⟨lowerHex_encode _, lowerHex_encode _, lowerHex_encode _⟩, ⟨_, _, hv⟩, hid, env.order, ?_⟩
  rw [hg', hgossip, hg]

/-- The shared steps, as they are. -/
theorem publishSigned_signs {kind : OndeMessageType} {content failed : String} {tags : List String} {t : UInt64}
    (hp : n.publishSigned env (MeshEvent.newSigned h.toPrimitives n.identity kind content tags t) failed =
      .ok (event, n')) : n.Signs event n' :=
  ⟨env, n, n', kind, content, tags, t, 0, failed, rfl, rfl, hp, (publishSigned_ok hp).2.2, rfl⟩

theorem publishText_signs {kind : OndeMessageType} {tier : MessageTier} {what content : String}
    (hp : publishText kind tier what env n content = .ok (event, n')) : n.Signs event n' := by
  unfold publishText at hp
  split at hp
  · cases hp
  obtain ⟨_, _, hp⟩ := bind_eq_ok.mp hp
  obtain ⟨⟨e, m'⟩, hsigned, hp⟩ := bind_eq_ok.mp hp
  cases hp
  have hkept := keepMessage_core m' event tier
  exact ⟨env, n, m', kind, content, [], env.fuzzyTimestampSecs, 0, _, rfl, rfl, hsigned,
    hkept.identity.trans (publishSigned_ok hsigned).2.2, hkept.gossip⟩

theorem publishSocialPost_signs {platform body : String} {title slug : Option String}
    (hp : publishSocialPost env n platform title body slug = .ok (event, n')) : n.Signs event n' := by
  unfold publishSocialPost at hp
  obtain ⟨_, _, hp⟩ := bind_eq_ok.mp hp
  obtain ⟨_, _, hp⟩ := bind_eq_ok.mp hp
  obtain ⟨signed, hmesh, hp⟩ := bind_eq_ok.mp hp
  obtain ⟨⟨e, m'⟩, hsigned, hp⟩ := bind_eq_ok.mp hp
  cases hp
  unfold SocialPost.toMeshEvent at hmesh
  obtain ⟨_, _, hmesh⟩ := bind_eq_ok.mp hmesh
  split at hmesh
  · cases hmesh
  obtain ⟨content, _, hmesh⟩ := bind_eq_ok.mp hmesh
  obtain ⟨nonce, rfl⟩ := payPow_ok hmesh
  exact ⟨env, n, m', .socialPost, content, _, env.fuzzyTimestampSecs, nonce, _, rfl, rfl, hsigned,
    (publishSigned_ok hsigned).2.2, rfl⟩

theorem publishSocialComment_signs {platform postId body : String} {parentId : Option String}
    (hp : publishSocialComment env n platform postId parentId body = .ok (event, n')) : n.Signs event n' := by
  unfold publishSocialComment at hp
  obtain ⟨_, _, hp⟩ := bind_eq_ok.mp hp
  obtain ⟨_, _, hp⟩ := bind_eq_ok.mp hp
  obtain ⟨content, _, hp⟩ := bind_eq_ok.mp hp
  obtain ⟨⟨e, m'⟩, hsigned, hp⟩ := bind_eq_ok.mp hp
  cases hp
  exact ⟨env, n, m', .socialComment, content, _, env.fuzzyTimestampSecs, 0, _, rfl, rfl, hsigned,
    (publishSigned_ok hsigned).2.2, rfl⟩

/-- Publishing signs, -/
theorem publish_signs {p : Publication} (hp : n.publish env p = .ok (event, n')) : n.Signs event n' := by
  cases p with
  | alert content => exact publishText_signs hp
  | mutualAid content => exact publishText_signs hp
  | socialPost platform title body slug => exact publishSocialPost_signs hp
  | socialComment platform postId parentId body => exact publishSocialComment_signs hp

/-- reporting does, -/
theorem reportAbuse_signs {base64Encode : Bytes → String} {offender : String} {reason : AbuseReason} {timestamp : Nat}
    (hp : n.reportAbuse base64Encode env offender reason timestamp = .ok (event, n')) : n.Signs event n' := by
  unfold reportAbuse at hp
  split at hp
  · cases hp
  · exact publishSigned_signs hp

/-- endorsing, which changes the reputation first, -/
theorem endorse_signs {base64Encode : Bytes → String} {signing : Env} {peer : String}
    (hp : n.endorse base64Encode signing env peer = (.ok event, n')) : n.Signs event n' := by
  unfold endorse at hp
  cases he : n.reputation.endorse n.pubkeyHex peer signing.clock with
  | error err =>
    rw [he] at hp
    cases hp
  | ok r =>
    rw [he] at hp
    obtain ⟨_, reputation⟩ := r
    unfold publishEndorsement at hp
    dsimp only at hp
    split at hp
    · cases hp
    next e m' hsigned =>
      obtain ⟨he, rfl⟩ := Prod.mk.inj hp
      obtain rfl := Except.ok.inj he
      exact ⟨env, { n with reputation }, m', .endorsement, _, [], signing.fuzzyTimestampSecs, 0, _, rfl, rfl, hsigned,
        (publishSigned_ok hsigned).2.2, rfl⟩

end Node

/-- announcing a rotation, -/
theorem RotatingNode.announce_signs {u : RotationHost} {env : RotationEnv} {a a' : RotatingNode u} {event : MeshEvent}
    (hp : a.announceIdentityRotation env = (.ok event, a')) : a.toNode.Signs event a'.toNode := by
  unfold announceIdentityRotation at hp
  dsimp only at hp
  split at hp
  · cases hp
  next r hsigned =>
    cases hp
    exact Node.publishSigned_signs hsigned

/-- and so do the announcements, the requests and the answers of an update. -/
theorem UpdateNode.publishGossipEvent_signs {u : UpdateHost} {env : UpdateEnv} {n : UpdateNode u}
    {kind : OndeMessageType} {content : String} {tags : List (String × String)} {r : MeshEvent × UpdateNode u}
    (hp : n.publishGossipEvent env kind content tags = .ok r) : n.toNode.Signs r.1 r.2.toNode := by
  unfold publishGossipEvent at hp
  obtain ⟨_, hsigned, hp⟩ := bind_eq_ok.mp hp
  cases hp
  exact Node.publishSigned_signs hsigned

end Onde
