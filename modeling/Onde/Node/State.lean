import Onde.Protocol.Gossip
import Onde.Social.Payload
import Onde.Storage.MessageStore

/-!
# The node

* `Host`: what the node takes from outside, that is the cryptographic primitives, base64 and JSON, compression, the
  SQLite file of the messages and the cache of the social graph; both stores may fail or lose data at any time;
* `Env`: what a call reads from its surroundings;
* `Node`: the state, and `Node.new`, which trusts itself.
-/

namespace Onde

open Lib Crypto Reputation Protocol Social Storage

def partitionSilenceThresholdSecs : Nat := 300
def healGraceSecs : Nat := 120
def healWindowBudgetFactor : Nat := 4
def healBatchMaxEvents : Nat := 32
def publishIntervalTrustedSecs : Nat := 10
def publishIntervalUntrustedSecs : Nat := 120
def publishBatteryMultiplier : Nat := 6

/-- What the node takes from outside. -/
structure Host extends Primitives where
  base64Decode : String → Except String Bytes
  endorsementFromSlice : Bytes → Except String Endorsement
  abuseReportFromSlice : Bytes → Except String AbuseReport
  valueFromSlice : Bytes → Except String Json
  valueFromStr : String → Except String Json
  postFromStr : String → Except String SocialPost
  commentFromStr : String → Except String SocialComment
  postToString : SocialPost → Except String String
  commentToString : SocialComment → Except String String
  deflate : Bytes → Bytes
  MessageDb : Type
  storeMessage : MessageDb → TieredMessage → Except String Unit × MessageDb
  SocialDb : Type
  ensureUser : SocialDb → String → Except String Unit × SocialDb
  insertPost : SocialDb → SocialPost → Except String Unit × SocialDb
  insertComment : SocialDb → SocialComment → Except String Bool × SocialDb
  vote : SocialDb → String → String → Int → String → Except String Int × SocialDb
  follow : SocialDb → String → String → Except String Unit × SocialDb
  unfollow : SocialDb → String → String → Except String Unit × SocialDb
  insertMessage : SocialDb → String → String → String → String → Except String Unit × SocialDb
  submitReport : SocialDb → String → String → String → String → Except String Unit × SocialDb

/-- The signature scheme is one, and what is serialised is read back. -/
structure Host.Lawful (h : Host) : Prop where
  primitives : h.toPrimitives.Lawful
  post_round_trip : ∀ p s, h.postToString p = .ok s → h.postFromStr s = .ok p
  comment_round_trip : ∀ c s, h.commentToString c = .ok s → h.commentFromStr s = .ok c

/-- What a call reads: the system clock in seconds, the iteration order of the hash sets, and what is drawn at random,
an identifier and the skew of the creation time. -/
structure Env where
  clock : Nat
  order : HashOrder
  socialId : String
  skew : Int
  skew_bound : -30 ≤ skew ∧ skew ≤ 30

/-- The creation time of an event signed now. -/
def Env.fuzzyTimestampSecs (env : Env) : UInt64 := UInt64.ofNat ((env.clock : Int) + env.skew).toNat

theorem Env.fuzzyTimestampSecs_le (env : Env) : env.fuzzyTimestampSecs.toNat ≤ env.clock + 30 := by
  have h := env.skew_bound
  rw [fuzzyTimestampSecs, UInt64.toNat_ofNat']
  exact (Nat.mod_le _ _).trans (by omega)

/-- The counters of the node. -/
structure NodeMetrics where
  messagesIngested : Nat
  messagesRejected : Nat
  messagesDuplicated : Nat
  peersKnown : Nat
  peersSynced : Nat
  deriving DecidableEq

inductive NodeType where
  | mobile | desktopBridge
  deriving DecidableEq

structure NodeConfig where
  nodeType : NodeType
  maxPeerConnections : UInt32
  myGeohash : String
  batterySaver : Bool
  deriving DecidableEq

/-- The state of a node. -/
structure Node (h : Host) where
  config : NodeConfig
  identity : Identity
  reputation : ReputationSystem
  messageStore : TieredMessageStore
  persistence : Option h.MessageDb
  gossip : GossipProtocol
  lastPublishAt : Nat
  peerX25519 : StrMap String
  peerX25519Grace : StrMap String
  peerRotationCount : StrMap UInt64
  spamGuard : SpamGuard
  socialStore : Option h.SocialDb
  peerLastSeen : StrMap Nat
  healGraceUntil : Nat
  metrics : NodeMetrics

variable {h : Host}

namespace Node

/-- The node's own public key. -/
def pubkeyHex (n : Node h) : String := n.identity.pubkeyHex h.toPrimitives

/-- A fresh node with its identity and the files it could open; it trusts itself. -/
def new (config : NodeConfig) (identity : Identity) (persistence : Option h.MessageDb)
    (socialStore : Option h.SocialDb) : Node h where
  config := config
  identity := identity
  reputation := ReputationSystem.new.bootstrap [identity.pubkeyHex h.toPrimitives]
  messageStore :=
    let policy := match config.nodeType with
      | .mobile => StoragePolicy.mobile
      | .desktopBridge => StoragePolicy.desktop
    { TieredMessageStore.withGeohash policy config.myGeohash with metrics := some ⟨0, 0, 0⟩ }
  persistence := persistence
  gossip := GossipProtocol.new.setMetrics 0
  lastPublishAt := 0
  peerX25519 := ∅
  peerX25519Grace := ∅
  peerRotationCount := ∅
  spamGuard := SpamGuard.new spamWindowSecs spamBudgetPerWindow
  socialStore := socialStore
  peerLastSeen := ∅
  healGraceUntil := 0
  metrics := ⟨0, 0, 0, 0, 0⟩

/-- Write a message to the file, as it is in the store if it is there; a failure is only logged. -/
def persistMessage (n : Node h) (id : String) (tier : MessageTier) (payload : Bytes) (createdAt : Nat)
    (geohash : String) : Node h :=
  match n.persistence with
  | none => n
  | some db =>
    let msg := (n.messageStore.messages.find? fun m => m.id = id).getD
      ⟨id, tier, createdAt, payload, payload.length, geohash⟩
    { n with persistence := some (h.storeMessage db msg).2 }

/-- Keep a message in the store and, if it was new there, in the file. -/
def keepMessage (n : Node h) (event : MeshEvent) (tier : MessageTier) : Bool × Node h :=
  let geohash := n.config.myGeohash
  let payload := utf8Bytes event.content
  let stored := n.messageStore.store h.deflate event.id tier payload event.createdAt.toNat geohash
  let n₁ := { n with messageStore := stored.2 }
  if stored.1 then (true, n₁.persistMessage event.id tier payload event.createdAt.toNat geohash) else (false, n₁)

/-- Two states agree on everything the gate and the handlers decide by. -/
structure SameCore (n n' : Node h) : Prop where
  identity : n'.identity = n.identity
  reputation : n'.reputation = n.reputation
  gossip : n'.gossip = n.gossip
  spamGuard : n'.spamGuard = n.spamGuard

theorem SameCore.pubkeyHex {n n' : Node h} (hc : SameCore n n') : n'.pubkeyHex = n.pubkeyHex := by
  rw [Node.pubkeyHex, Node.pubkeyHex, hc.identity]

theorem persistMessage_core (n : Node h) (id : String) (tier : MessageTier) (payload : Bytes) (createdAt : Nat)
    (geohash : String) : SameCore n (n.persistMessage id tier payload createdAt geohash) := by
  unfold persistMessage
  split <;> exact ⟨rfl, rfl, rfl, rfl⟩

/-- Keeping a message touches the store and the file only. -/
theorem keepMessage_core (n : Node h) (event : MeshEvent) (tier : MessageTier) :
    SameCore n (n.keepMessage event tier).2 := by
  unfold keepMessage
  dsimp only
  split
  · have hc := persistMessage_core { n with messageStore :=
      (n.messageStore.store h.deflate event.id tier (utf8Bytes event.content) event.createdAt.toNat
        n.config.myGeohash).2 } event.id tier (utf8Bytes event.content) event.createdAt.toNat n.config.myGeohash
    exact ⟨hc.identity, hc.reputation, hc.gossip, hc.spamGuard⟩
  · exact ⟨rfl, rfl, rfl, rfl⟩

end Node

/-! ## Known values -/

/-- A call at the time `clock`, with nothing random. -/
def Env.still (clock : Nat) : Env := ⟨clock, .sorted, "00000000-0000-4000-8000-000000000000", 0, by decide⟩

/-- The host that takes known values: those of the primitives, the endorsements with their base64 text and their JSON,
and the compressed texts in hexadecimal. It refuses any other text, and its files keep nothing. -/
def Host.ofKnown (k : KnownValues) (endorsements : List (String × String × Endorsement))
    (deflated : List (String × String)) : Host where
  toPrimitives := .ofKnown k
  base64Decode text := match endorsements.find? fun x => x.1 = text with
    | some x => .ok (utf8Bytes x.2.1)
    | none => .error "Invalid padding"
  endorsementFromSlice data := match endorsements.find? fun x => utf8Bytes x.2.1 = data with
    | some x => .ok x.2.2
    | none => .error "EOF while parsing a value at line 1 column 0"
  abuseReportFromSlice _ := .error "EOF while parsing a value at line 1 column 0"
  valueFromSlice _ := .error "EOF while parsing a value at line 1 column 0"
  valueFromStr _ := .error "EOF while parsing a value at line 1 column 0"
  postFromStr _ := .error "EOF while parsing a value at line 1 column 0"
  commentFromStr _ := .error "EOF while parsing a value at line 1 column 0"
  postToString _ := .error "not listed"
  commentToString _ := .error "not listed"
  deflate data := match deflated.find? fun x => utf8Bytes x.1 = data with
    | some x => (hexDecode x.2).getD []
    | none => data
  MessageDb := Unit
  storeMessage db _ := (.ok (), db)
  SocialDb := Unit
  ensureUser db _ := (.ok (), db)
  insertPost db _ := (.ok (), db)
  insertComment db _ := (.ok false, db)
  vote db _ _ _ _ := (.ok 0, db)
  follow db _ _ := (.ok (), db)
  unfollow db _ _ := (.ok (), db)
  insertMessage db _ _ _ _ := (.ok (), db)
  submitReport db _ _ _ _ := (.ok (), db)

theorem Host.ofKnown_lawful (k : KnownValues) (endorsements : List (String × String × Endorsement))
    (deflated : List (String × String)) : (Host.ofKnown k endorsements deflated).Lawful :=
  ⟨Primitives.ofKnown_lawful k, fun _ _ h => (nomatch h), fun _ _ h => (nomatch h)⟩

/-- The default configuration. -/
def NodeConfig.default : NodeConfig := ⟨.mobile, 20, "u09tunq", false⟩

def knownAuthor : String := "8a88e3dd7409f195fd52db2d3cba5d72ca6709bf1d94121bf3748801b40f6f5c"

def knownBeneficiary : String := "ed4928c628d1c2c6eae90338905995612959273a5c63f93636c14614ac8737d1"

def endorsementHead : String :=
  "eyJlbmRvcnNlciI6IjhhODhlM2RkNzQwOWYxOTVmZDUyZGIyZDNjYmE1ZDcyY2E2NzA5YmYxZDk0MTIxYmYzNzQ4ODAxYjQwZjZmNWMiLCJl"

/-- The base64 text of `endorsementJson`. -/
def endorsementText : String :=
  endorsementHead ++
    ("bmRvcnNlZCI6ImVkNDkyOGM2MjhkMWMyYzZlYWU5MDMzODkwNTk5NTYxMjk1OTI3M2E1YzYzZjkzNjM2YzE0NjE0YWM4NzM3ZDEiLCJ0aW1l" ++
      "c3RhbXAiOjE3MDAwMDAwMDB9")

def endorsementJson : String :=
  "\x7b\"endorser\":\"8a88e3dd7409f195fd52db2d3cba5d72ca6709bf1d94121bf3748801b40f6f5c\",\"endorsed\":" ++
  "\"ed4928c628d1c2c6eae90338905995612959273a5c63f93636c14614ac8737d1\",\"timestamp\":1700000000\x7d"

/-- The values behind an alert, a request for mutual aid and a transcription the author signed, and the digest of an
endorsement the author did not sign. -/
def knownValues : KnownValues where
  keys := knownKeys
  digests :=
    [((canonical knownAuthor 1700000000 .alert [] "OK").render,
      "1e2fc7f5b7f364a182183fd0f79f56696efe8468e4e5cf0138623cf76459e8fe"),
     ((canonical knownAuthor 1700000000 .endorsement [] endorsementText).render,
      "852c02e353e79d760fdb2450b919dd27c23d9fe50951cf131b395379364ba204"),
     ((canonical knownAuthor 1700000000 .mutualAid [] "OK").render,
      "4f35b7915ddeb8da5a0ed304cf63753598014bd3ef5347a9a25dca1652e6dcc5"),
     ((canonical knownAuthor 1700000000 .transcription [] "OK").render,
      "d7d7cdd2b25a983914fb82561cc1706838c96b336bff11b7cc8f26a041d62bc1")]
  signatures :=
    [(knownAuthor, "1e2fc7f5b7f364a182183fd0f79f56696efe8468e4e5cf0138623cf76459e8fe",
      "460d04105db311fc4fba9c3267534ca246a9abf2855b37549d98f63a1431371a" ++
      "547a5d7d04b38872fadaa1223fb2f977ba9e9a3237befd10ded63e9839c80509"),
     (knownAuthor, "4f35b7915ddeb8da5a0ed304cf63753598014bd3ef5347a9a25dca1652e6dcc5",
      "2eadb142994ca8683b55278a36d649a24e36652d6ce1c72c6e3f653820fa148a" ++
      "bbcfb1ed083dd4c85a99b6a5b4657a6b1d391abb7eab8d74b6fdd3176212a304"),
     (knownAuthor, "d7d7cdd2b25a983914fb82561cc1706838c96b336bff11b7cc8f26a041d62bc1",
      "ced42a0acb05ba0b68dc49ae11034ae750e052be19ff4505b7b7deaad3de2a03" ++
      "5859833157c4dcd9886841282b0f50d3436c434423effdbf0bc186f02749880c")]

def knownHost : Host :=
  .ofKnown knownValues [(endorsementText, endorsementJson, ⟨knownAuthor, knownBeneficiary, 1700000000⟩)]
    [("OK", "f3f70600")]

theorem knownHost_lawful : knownHost.Lawful := Host.ofKnown_lawful _ _ _

/-- An event the author signed, without proof of work. -/
def knownEvent (kind : OndeMessageType) : MeshEvent :=
  (MeshEvent.newSigned knownHost.toPrimitives (.ofByte 1) kind "OK" [] 1700000000).withPowDifficulty 0

theorem known_pubkey : (Identity.ofByte 1).pubkeyHex knownHost.toPrimitives = knownAuthor :=
  knownKeys_one (k := knownValues) rfl

theorem knownEvent_pubkey (kind : OndeMessageType) : (knownEvent kind).pubkey = knownAuthor := known_pubkey

theorem knownEvent_kind (kind : OndeMessageType) : (knownEvent kind).kind = kind := rfl

theorem knownEvent_signatureValid (kind : OndeMessageType) :
    (knownEvent kind).signatureValid knownHost.toPrimitives = true := by
  rw [knownEvent, signatureValid_withPowDifficulty]
  exact newSigned_signatureValid knownHost_lawful.primitives (.ofByte 1) kind "OK" [] 1700000000

theorem knownEvent_checkSigned (kind : OndeMessageType) :
    (knownEvent kind).checkSigned knownHost.toPrimitives 1700000000 = .ok () := by
  rw [knownEvent, checkSigned_withPowDifficulty]
  exact newSigned_checkSigned knownHost_lawful.primitives _ _ (fun _ => by decide) (by decide +kernel)

/-- A fresh node of another identity, -/
def strangerNode : Node knownHost := Node.new .default (.ofByte 2) none none

/-- and one that trusts the author. -/
def trustingNode : Node knownHost :=
  { strangerNode with reputation := strangerNode.reputation.bootstrap [knownAuthor] }

theorem stranger_pubkey : knownAuthor ≠ strangerNode.pubkeyHex := by
  have hkey : strangerNode.pubkeyHex = _ := knownKeys_two (k := knownValues) rfl
  rw [hkey]
  decide

/-- A node that trusts the author asks no proof of work of it. -/
theorem trusting_floor (kind : OndeMessageType) :
    trustingNode.reputation.requiredPowDifficulty (knownEvent kind).pubkey = 0 := by
  rw [knownEvent_pubkey]
  exact ReputationSystem.requiredPowDifficulty_bootstrap List.mem_cons_self rfl

theorem trusting_valid (kind : OndeMessageType) : (knownEvent kind).validateWithReputation knownHost.toPrimitives
    1700000000 trustingNode.reputation = .ok () := by
  have hpow : (knownEvent kind).checkPow knownHost.toPrimitives 0 = .ok () :=
    checkPow_ok.mpr ⟨UInt8.le_refl 0, verifyPow_zero knownHost.toPrimitives (knownEvent kind).id 0⟩
  rw [MeshEvent.validateWithReputation, trusting_floor]
  exact validateWithPowMin_ok.mpr ⟨knownEvent_checkSigned kind, hpow⟩

end Onde
