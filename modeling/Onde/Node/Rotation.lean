import Mathlib.Data.List.Chain
import Onde.Lib.JsonText
import Onde.Lib.Run
import Onde.Node.Authenticated

/-!
# The keys of the peers

* `peerX25519Key`, `peerX25519GraceKey`: the current key of a peer and the one before;
* `handleIncomingRotation_cases`: an announcement is applied and recorded, or the node stays as it is;
* `Rotations`: the runs of a node as far as announcements go, with `accepted`, what they accepted;
* `Recorded`: the three maps say what was accepted last and before (`recorded_run`);
* `rotations_recorded`: in every run the counters of a peer grow and its keys are the two accepted last.
-/

namespace Onde

open Lib Crypto Reputation Protocol Social Storage

variable {h : Host}

/-- An announced key: whose it is and its counter. -/
structure Rotation where
  announcer : String
  key : String
  count : UInt64
  deriving DecidableEq

/-- The payload that announces a key, its fields in the order of their names. -/
def rotationJson (key prev : String) (count : UInt64) : Json :=
  .obj [("prev", .str prev), ("rotation", .num (.posInt count)), ("x25519", .str key)]

/-- **The bytes of a payload tell its fields.** -/
theorem rotationJson_inj {key key' prev prev' : String} {count count' : UInt64}
    (h : utf8Bytes (rotationJson key prev count).render = utf8Bytes (rotationJson key' prev' count').render) :
    key = key' ∧ prev = prev' ∧ count = count' := by
  have hchars := String.ofList_inj.mp (utf8Bytes_injective h)
  simp only [rotationJson, Json.chars, Json.charsFields, JsonNumber.render, List.append_assoc, List.cons_append,
    List.cons.injEq, true_and] at hchars
  -- a name, a colon and a value, one field after the other
  obtain ⟨hprev, hrest⟩ := Json.quote_inj (List.cons.inj (Json.quote_inj hchars).2).2
  obtain ⟨hcount, hlast⟩ := Json.digits_inj (Json.isDigit_repr _) (Json.isDigit_repr _) (Json.closed_cons rfl _)
    (Json.closed_cons rfl _) (List.cons.inj (Json.quote_inj (List.cons.inj hrest).2).2).2
  obtain ⟨hkey, _⟩ := Json.quote_inj (List.cons.inj (Json.quote_inj (List.cons.inj hlast).2).2).2
  exact ⟨hkey, hprev, UInt64.toNat_inj.mp (repr_injective (String.toList_inj.mp hcount))⟩

/-- What is read back is what was written. -/
theorem rotationPayload_of_read {event : MeshEvent} {data : Bytes} {key prev : String} {count : UInt64}
    (hbase : h.base64Decode event.content = .ok data)
    (hjson : h.valueFromSlice data = .ok (rotationJson key prev count)) (hhex : isHex64 key = true) :
    rotationPayload h event = .ok (key, count) := by
  have hkey : ((rotationJson key prev count).get "x25519").bind Json.asStr = some key := rfl
  have hcount : ((rotationJson key prev count).get "rotation").bind Json.asU64 = some count := rfl
  rw [rotationPayload, hbase]
  simp only [hjson, hkey, hhex, if_true, hcount, Option.getD_some]

/-- The announcements of one peer. -/
def ofPeer (peer : String) (rs : List Rotation) : List Rotation := rs.filter fun r => r.announcer = peer

theorem ofPeer_snoc (rs : List Rotation) (r : Rotation) :
    ofPeer r.announcer (rs ++ [r]) = ofPeer r.announcer rs ++ [r] := by
  simp [ofPeer]

theorem ofPeer_snoc_ne {peer : String} {r : Rotation} (hne : peer ≠ r.announcer) (rs : List Rotation) :
    ofPeer peer (rs ++ [r]) = ofPeer peer rs := by
  simp [ofPeer, hne.symm]

namespace Node

variable {env : Env} {n n' : Node h} {event : MeshEvent} {peer : String}

/-- The key a message to a peer is encrypted with. -/
def peerX25519Key (n : Node h) (peer : String) : Option String := n.peerX25519.lookup peer

/-- The key before, with which older messages can still be decrypted. -/
def peerX25519GraceKey (n : Node h) (peer : String) : Option String := n.peerX25519Grace.lookup peer

/-- Two states hold the same keys and counters of the peers. -/
structure SameKeys (n n' : Node h) : Prop where
  current : n'.peerX25519 = n.peerX25519
  grace : n'.peerX25519Grace = n.peerX25519Grace
  counts : n'.peerRotationCount = n.peerRotationCount

theorem SameKeys.refl (n : Node h) : SameKeys n n := ⟨rfl, rfl, rfl⟩

/-- The announcement a call accepts. -/
def acceptedRotation (env : Env) (n : Node h) (event : MeshEvent) : Option Rotation :=
  if (n.handleIncomingRotation env event).1 = .applied then
    (rotationPayload h event).toOption.map fun p => ⟨event.pubkey, p.1, p.2⟩
  else none

/-- What an accepted announcement is: by a trusted peer, to another key of 64 digits, with a larger counter. -/
structure AcceptsRotation (n : Node h) (event : MeshEvent) (key : String) (count : UInt64) : Prop where
  payload : rotationPayload h event = .ok (key, count)
  hex : isHex64 key = true
  trusted : n.reputation.isTrusted event.pubkey = true
  newer : ∀ last, n.peerRotationCount.lookup event.pubkey = some last → last < count
  other : n.peerX25519Key event.pubkey ≠ some key

theorem rotationPayload_hex {key : String} {count : UInt64} (hp : rotationPayload h event = .ok (key, count)) :
    isHex64 key = true := by
  unfold rotationPayload at hp
  split at hp
  · cases hp
  split at hp
  · cases hp
  split at hp
  · cases hp
  split at hp
  · next hhex =>
    cases hp
    exact hhex
  · cases hp

theorem isHex64_nonempty {key : String} (hhex : isHex64 key = true) : key ≠ "" := by
  rintro rfl
  exact absurd hhex (by decide)

/-- **An announcement is applied and recorded, or it leaves the node as it is.** -/
theorem handleIncomingRotation_cases (env : Env) (n : Node h) (event : MeshEvent) :
    ((n.handleIncomingRotation env event).1 ≠ .applied ∧ (n.handleIncomingRotation env event).2 = n) ∨
    ∃ key count, (n.handleIncomingRotation env event).1 = .applied ∧ n.AcceptsRotation event key count ∧
      SameKeys (n.applyRotation event.pubkey key count) (n.handleIncomingRotation env event).2 := by
  by_cases ha : n.RotationAccepted event
  swap
  · exact Or.inl ⟨mt handleIncomingRotation_applied.mp ha, handleIncomingRotation_frame ha⟩
  right
  obtain ⟨hk, key, count, hp, hacc⟩ := ha
  have hr : n.rotationRefusal event key count = none := (rotationRefusal_none key count).mpr hacc
  obtain ⟨_, htrusted, hnewer, hother⟩ := hacc
  refine ⟨key, count, ?_, ⟨hp, rotationPayload_hex hp, htrusted, hnewer, hother⟩, ?_⟩
  · simp only [handleIncomingRotation, hk, hp, hr]
    rfl
  · simp only [handleIncomingRotation, hk, hp, hr]
    exact ⟨rfl, rfl, rfl⟩

/-- An applied announcement replaces the key and the counter it carries. -/
theorem handleIncomingRotation_keys {key : String} {count : UInt64}
    (ha : (n.handleIncomingRotation env event).1 = .applied) (hp : rotationPayload h event = .ok (key, count)) :
    SameKeys (n.applyRotation event.pubkey key count) (n.handleIncomingRotation env event).2 := by
  rcases n.handleIncomingRotation_cases env event with ⟨hrefused, _⟩ | ⟨key', count', _, hacc, hsame⟩
  · exact absurd ha hrefused
  · rw [hacc.payload] at hp
    cases hp
    exact hsame

/-- Announcements do not touch the reputation. -/
theorem handleIncomingRotation_reputation (env : Env) (n : Node h) (event : MeshEvent) :
    (n.handleIncomingRotation env event).2.reputation = n.reputation := by
  unfold handleIncomingRotation
  split
  · rfl
  split
  · rfl
  split
  · rfl
  · rfl

theorem acceptedRotation_applied {key : String} {count : UInt64}
    (ha : (n.handleIncomingRotation env event).1 = .applied) (hp : rotationPayload h event = .ok (key, count)) :
    acceptedRotation env n event = some ⟨event.pubkey, key, count⟩ := by
  rw [acceptedRotation, if_pos ha, hp]
  rfl

theorem acceptedRotation_refused (ha : (n.handleIncomingRotation env event).1 ≠ .applied) :
    acceptedRotation env n event = none := if_neg ha

/-! ## What the maps record -/

/-- What the maps say of a peer: they record what was accepted of it. -/
structure Recorded (accepted : List Rotation) (peer : String) (n : Node h) : Prop where
  increasing : ((ofPeer peer accepted).map Rotation.count).IsChain (· < ·)
  current : n.peerX25519Key peer = (ofPeer peer accepted).getLast?.map Rotation.key
  grace : n.peerX25519GraceKey peer = (ofPeer peer accepted).dropLast.getLast?.map Rotation.key
  count : n.peerRotationCount.lookup peer = (ofPeer peer accepted).getLast?.map Rotation.count
  hex : ∀ key, n.peerX25519Key peer = some key → isHex64 key = true

theorem Recorded.same {accepted : List Rotation} (hrec : Recorded accepted peer n) (hs : SameKeys n n') :
    Recorded accepted peer n' := by
  obtain ⟨hinc, hcur, hgrace, hcount, hhex⟩ := hrec
  have hkey : n'.peerX25519Key peer = n.peerX25519Key peer := by rw [peerX25519Key, peerX25519Key, hs.current]
  have hgracekey : n'.peerX25519GraceKey peer = n.peerX25519GraceKey peer := by
    rw [peerX25519GraceKey, peerX25519GraceKey, hs.grace]
  refine ⟨hinc, hkey.trans hcur, hgracekey.trans hgrace, ?_, fun key hk => hhex key (hkey.symm.trans hk)⟩
  rw [hs.counts]
  exact hcount

/-- The key that is replaced becomes the grace key. -/
theorem applyRotation_grace (key : String) (count : UInt64)
    (hhex : ∀ old, n.peerX25519Key peer = some old → isHex64 old = true)
    (hother : n.peerX25519GraceKey peer = none ∨ n.peerX25519Key peer ≠ none) :
    (n.applyRotation peer key count).peerX25519GraceKey peer = n.peerX25519Key peer := by
  cases hk : n.peerX25519Key peer with
  | none =>
    have hprev : n.peerX25519.getD peer "" = "" := StrMap.getD_of_none hk
    have hgrace := hother.resolve_right fun hne => hne hk
    simp only [applyRotation, peerX25519GraceKey, hprev, if_true]
    exact hgrace
  | some old =>
    have hprev : n.peerX25519.getD peer "" = old := StrMap.getD_of_lookup hk
    simp only [applyRotation, peerX25519GraceKey, hprev, if_neg (isHex64_nonempty (hhex old hk)), AList.lookup_insert]

/-- The keys of another peer stay. -/
theorem applyRotation_other (n : Node h) {announcer : String} (key : String) (count : UInt64) (hne : peer ≠ announcer) :
    (n.applyRotation announcer key count).peerX25519Key peer = n.peerX25519Key peer ∧
      (n.applyRotation announcer key count).peerX25519GraceKey peer = n.peerX25519GraceKey peer ∧
      (n.applyRotation announcer key count).peerRotationCount.lookup peer = n.peerRotationCount.lookup peer := by
  refine ⟨AList.lookup_insert_ne hne, ?_, AList.lookup_insert_ne hne⟩
  simp only [applyRotation, peerX25519GraceKey]
  split
  · rfl
  · exact AList.lookup_insert_ne hne

/-- **An accepted announcement is recorded.** -/
theorem Recorded.apply {accepted : List Rotation} {key : String} {count : UInt64}
    (hrec : Recorded accepted peer n) (hacc : n.AcceptsRotation event key count) :
    Recorded (accepted ++ [⟨event.pubkey, key, count⟩]) peer (n.applyRotation event.pubkey key count) := by
  by_cases hpeer : peer = event.pubkey
  · subst hpeer
    have hsnoc := ofPeer_snoc accepted ⟨event.pubkey, key, count⟩
    have hnew : (n.applyRotation event.pubkey key count).peerX25519Key event.pubkey = some key :=
      AList.lookup_insert _
    constructor
    · rw [hsnoc, List.map_append]
      refine List.isChain_append.mpr ⟨hrec.increasing, List.isChain_singleton _, ?_⟩
      intro last hlast c hc
      cases hc
      rw [List.getLast?_map, ← hrec.count] at hlast
      exact hacc.newer last hlast
    · rw [hsnoc, List.getLast?_concat]
      exact hnew
    · rw [hsnoc, List.dropLast_concat, ← hrec.current]
      refine applyRotation_grace key count hrec.hex ?_
      cases hl : ofPeer event.pubkey accepted with
      | nil =>
        left
        rw [hrec.grace, hl]
        rfl
      | cons r rs =>
        right
        rw [hrec.current, hl, List.getLast?_cons]
        nofun
    · rw [hsnoc, List.getLast?_concat]
      exact AList.lookup_insert _
    · intro k hk
      rw [hnew] at hk
      cases hk
      exact hacc.hex
  · obtain ⟨hkey, hgrace, hcount⟩ := applyRotation_other n key count hpeer
    have hsnoc : ofPeer peer (accepted ++ [⟨event.pubkey, key, count⟩]) = ofPeer peer accepted :=
      ofPeer_snoc_ne hpeer accepted
    constructor
    · rw [hsnoc]
      exact hrec.increasing
    · rw [hsnoc, hkey, hrec.current]
    · rw [hsnoc, hgrace, hrec.grace]
    · rw [hsnoc, hcount, hrec.count]
    · rw [hkey]
      exact hrec.hex

end Node

/-! ## Runs -/

/-- An announcement received, and what the call reads. -/
structure RotationCall where
  env : Env
  event : MeshEvent

/-- An announcement is handled. -/
def HandlesRotation (c : RotationCall) (n n' : Node h) : Prop := n' = (n.handleIncomingRotation c.env c.event).2

/-- The runs of a node with the announcements it handled; in between it does anything that keeps the keys. -/
abbrev Rotations (n₀ : Node h) (vs : List (Visit (Node h) RotationCall)) (n : Node h) : Prop :=
  Run HandlesRotation Node.SameKeys n₀ vs n

/-- What was accepted, in order. -/
def accepted (vs : List (Visit (Node h) RotationCall)) : List Rotation :=
  vs.filterMap fun v => v.state.acceptedRotation v.label.env v.label.event

theorem accepted_snoc (vs : List (Visit (Node h) RotationCall)) (v : Visit (Node h) RotationCall) :
    accepted (vs ++ [v]) = accepted vs ++ (v.state.acceptedRotation v.label.env v.label.event).toList := by
  rw [accepted, List.filterMap_append, accepted, List.filterMap_cons]
  cases v.state.acceptedRotation v.label.env v.label.event <;> rfl

variable {n₀ n : Node h} {vs : List (Visit (Node h) RotationCall)}

theorem recorded_run (peer : String) (h₀ : Node.Recorded [] peer n₀) (hr : Rotations n₀ vs n) :
    Node.Recorded (accepted vs) peer n := by
  induction hr with
  | start => exact h₀
  | @visit vs s s' c _ hstep ih =>
    rw [accepted_snoc, hstep]
    rcases s.handleIncomingRotation_cases c.env c.event with ⟨hrefused, hstays⟩ | ⟨_, _, happlied, hacc, hsame⟩
    · rw [Node.acceptedRotation_refused hrefused, hstays, Option.toList_none, List.append_nil]
      exact ih
    · rw [Node.acceptedRotation_applied happlied hacc.payload]
      exact (ih.apply hacc).same hsame
  | silent _ hsame ih => exact ih.same hsame

/-- Before any announcement there is nothing to record. -/
theorem recorded_new (config : NodeConfig) (identity : Identity) (persistence : Option h.MessageDb)
    (socialStore : Option h.SocialDb) (peer : String) :
    Node.Recorded [] peer (Node.new config identity persistence socialStore) :=
  ⟨List.isChain_nil, rfl, rfl, rfl, nofun⟩

/-- **In every run the counters of a peer grow, and its keys are those of the two announcements accepted last**; a call
that applies nothing leaves the maps alone. -/
theorem rotations_recorded {config : NodeConfig} {identity : Identity} {persistence : Option h.MessageDb}
    {socialStore : Option h.SocialDb} (hr : Rotations (Node.new config identity persistence socialStore) vs n)
    (peer : String) :
    ((ofPeer peer (accepted vs)).map Rotation.count).Pairwise (· < ·) ∧
      n.peerX25519Key peer = (ofPeer peer (accepted vs)).getLast?.map Rotation.key ∧
      n.peerX25519GraceKey peer = (ofPeer peer (accepted vs)).dropLast.getLast?.map Rotation.key ∧
      n.peerRotationCount.lookup peer = (ofPeer peer (accepted vs)).getLast?.map Rotation.count ∧
      ∀ env event, (n.handleIncomingRotation env event).1 ≠ .applied →
        Node.SameKeys n (n.handleIncomingRotation env event).2 := by
  obtain ⟨hinc, hcur, hgrace, hcount, _⟩ := recorded_run peer (recorded_new _ _ _ _ peer) hr
  refine ⟨List.isChain_iff_pairwise.mp hinc, hcur, hgrace, hcount, fun env event hrefused => ?_⟩
  rcases n.handleIncomingRotation_cases env event with ⟨_, hstays⟩ | ⟨_, _, happlied, _⟩
  · rw [hstays]
    exact .refl n
  · exact absurd happlied hrefused

/-! ## Known announcements -/

def firstKey : String := "5812039b28459126c10f2e4c36d78d333f40f172d83c27dc1152f77fd1c9b561"

def laterKey : String := "09e19225cc29d8a4ea85511f8f27adb371202177f7ef08de1fdab87d3b5e177f"

def restartedKey : String := "4b31833454eb44f55c57a285dd961e4103a03806826f88f578ac22de904f6e66"

/-- The payload of an announcement by a node that knows no key of its own. -/
def announcedJson (key : String) (count : UInt64) : Json := rotationJson key "" count

/-- The base64 texts of three payloads. -/
def firstText : String :=
  "eyJwcmV2IjoiIiwicm90YXRpb24iOjAsIngyNTUxOSI6IjU4MTIwMzliMjg0NTkxMjZj" ++
    "MTBmMmU0YzM2ZDc4ZDMzM2Y0MGYxNzJkODNjMjdkYzExNTJmNzdmZDFjOWI1NjEifQ=="

def laterText : String :=
  "eyJwcmV2IjoiIiwicm90YXRpb24iOjEsIngyNTUxOSI6IjA5ZTE5MjI1Y2MyOWQ4YTRl" ++
    "YTg1NTExZjhmMjdhZGIzNzEyMDIxNzdmN2VmMDhkZTFmZGFiODdkM2I1ZTE3N2YifQ=="

def restartedText : String :=
  "eyJwcmV2IjoiIiwicm90YXRpb24iOjAsIngyNTUxOSI6IjRiMzE4MzM0NTRlYjQ0ZjU1" ++
    "YzU3YTI4NWRkOTYxZTQxMDNhMDM4MDY4MjZmODhmNTc4YWMyMmRlOTA0ZjZlNjYifQ=="

def rotationTags (key count : String) : List String := [s!"identity_rotation={key}", s!"rotation_count={count}"]

/-- The values behind the announcements of the author. -/
def rotationValues : KnownValues where
  keys := knownKeys
  digests :=
    [((canonical knownAuthor 1700000000 .identityRotation (rotationTags firstKey "0") firstText).render,
      "97da12a31d04c1d1087fb5c1d08b1de24190f6f6b0ca9b5f2ccbda4c4c4b527a"),
     ((canonical knownAuthor 1700021600 .identityRotation (rotationTags laterKey "1") laterText).render,
      "3fb338c25fae6ef3036061580fd6febf5e38fae0aad67b55079171f42ce334c9"),
     ((canonical knownAuthor 1700000100 .identityRotation (rotationTags restartedKey "0") restartedText).render,
      "2354a7f25334f07b9635ac071782db333d4275cf705910daa4b3647fcd3314aa")]
  signatures :=
    [(knownAuthor, "97da12a31d04c1d1087fb5c1d08b1de24190f6f6b0ca9b5f2ccbda4c4c4b527a",
      "712908f3dd37c8e151d678c3506fcfa0c9c649aa3cdd0dd6fa013cb57487b3ae" ++
      "c6b6b8d6cf97cd90d1b1825529a8c785e7ffae565c710732abe67733368a6609"),
     (knownAuthor, "3fb338c25fae6ef3036061580fd6febf5e38fae0aad67b55079171f42ce334c9",
      "c553b7e5e7e8ce246ca4e5bef6bb979c3091796aa2ef99c87695f9802625376e" ++
      "860fd0a81acdec9f07c9af8206fba913c685611baa3d8e90d9a49f42bbcbfc06"),
     (knownAuthor, "2354a7f25334f07b9635ac071782db333d4275cf705910daa4b3647fcd3314aa",
      "cb3b8c09f63e1cbe976755381d1347fdd25e44c1edfcf77951ef6134c303feca" ++
      "838d08fd5a4b8483a7bb1edc4be0e37bea697da508de4830235bb4e5c1e35908")]

/-- What a text decodes to: the text of the payload. -/
def decodeKnown (text : String) : Except String Bytes :=
  if text = firstText then .ok (utf8Bytes (announcedJson firstKey 0).render)
  else if text = laterText then .ok (utf8Bytes (announcedJson laterKey 1).render)
  else if text = restartedText then .ok (utf8Bytes (announcedJson restartedKey 0).render)
  else .error "Invalid padding"

/-- What a payload reads as. -/
def readKnown (data : Bytes) : Except String Json :=
  if data = utf8Bytes (announcedJson firstKey 0).render then .ok (announcedJson firstKey 0)
  else if data = utf8Bytes (announcedJson laterKey 1).render then .ok (announcedJson laterKey 1)
  else if data = utf8Bytes (announcedJson restartedKey 0).render then .ok (announcedJson restartedKey 0)
  else .error "EOF while parsing a value at line 1 column 0"

/-- The host that reads the three announcements. -/
def keyHost : Host := { Host.ofKnown rotationValues [] [] with
  base64Decode := decodeKnown
  valueFromSlice := readKnown }

/-- A signed announcement, without proof of work. -/
def rotationEvent (key count text : String) (t : UInt64) : MeshEvent :=
  (MeshEvent.newSigned keyHost.toPrimitives (.ofByte 1) .identityRotation text (rotationTags key count)
    t).withPowDifficulty 0

/-- A node that trusts the author. -/
def keyNode : Node keyHost :=
  let n := Node.new (h := keyHost) .default (.ofByte 2) none none
  { n with reputation := n.reputation.bootstrap [knownAuthor] }

theorem keyHost_lawful : keyHost.toPrimitives.Lawful := Primitives.ofKnown_lawful rotationValues

theorem keyHost_pubkey : (Identity.ofByte 1).pubkeyHex keyHost.toPrimitives = knownAuthor :=
  knownKeys_one (k := rotationValues) rfl

theorem keyNode_trusts : keyNode.reputation.isTrusted knownAuthor = true := by decide +kernel

theorem rotationEvent_signed (key count text : String) (t : UInt64) :
    (rotationEvent key count text t).signatureValid keyHost.toPrimitives = true := by
  rw [rotationEvent, signatureValid_withPowDifficulty]
  exact newSigned_signatureValid keyHost_lawful _ _ _ _ _

theorem keyHost_base64Decode (text : String) : keyHost.base64Decode text = decodeKnown text := rfl

theorem keyHost_valueFromSlice (data : Bytes) : keyHost.valueFromSlice data = readKnown data := rfl

theorem rotationEvent_payload {key count text : String} {data : Bytes} {c : UInt64} (t : UInt64)
    (hbase : decodeKnown text = .ok data) (hjson : readKnown data = .ok (announcedJson key c))
    (hhex : isHex64 key = true) : rotationPayload keyHost (rotationEvent key count text t) = .ok (key, c) :=
  rotationPayload_of_read ((keyHost_base64Decode text).trans hbase) ((keyHost_valueFromSlice data).trans hjson)
    hhex

theorem firstEvent_payload (t : UInt64) :
    rotationPayload keyHost (rotationEvent firstKey "0" firstText t) = .ok (firstKey, 0) := by
  have hbase : decodeKnown firstText = .ok (utf8Bytes (announcedJson firstKey 0).render) := if_pos rfl
  have hjson : readKnown (utf8Bytes (announcedJson firstKey 0).render) = .ok (announcedJson firstKey 0) := if_pos rfl
  exact rotationEvent_payload t hbase hjson (isHex64_of_lowerHex (lowerHex_ofList rfl rfl))

theorem laterEvent_payload (t : UInt64) :
    rotationPayload keyHost (rotationEvent laterKey "1" laterText t) = .ok (laterKey, 1) := by
  have hbase : decodeKnown laterText = .ok (utf8Bytes (announcedJson laterKey 1).render) := by
    rw [decodeKnown, if_neg (by decide +kernel), if_pos rfl]
  have hne : utf8Bytes (announcedJson laterKey 1).render ≠ utf8Bytes (announcedJson firstKey 0).render :=
    fun h => absurd (rotationJson_inj h).2.2 (by decide)
  have hjson : readKnown (utf8Bytes (announcedJson laterKey 1).render) = .ok (announcedJson laterKey 1) := by
    rw [readKnown, if_neg hne, if_pos rfl]
  exact rotationEvent_payload t hbase hjson (isHex64_of_lowerHex (lowerHex_ofList rfl rfl))

/-- The author announces its key, -/
def firstCall : RotationCall := ⟨.still 1700000000, rotationEvent firstKey "0" firstText 1700000000⟩

/-- and the next one when it has rotated. -/
def laterCall : RotationCall := ⟨.still 1700021600, rotationEvent laterKey "1" laterText 1700021600⟩

theorem firstCall_pubkey : firstCall.event.pubkey = knownAuthor := keyHost_pubkey

theorem laterCall_pubkey : laterCall.event.pubkey = knownAuthor := keyHost_pubkey

theorem firstCall_applied : (keyNode.handleIncomingRotation firstCall.env firstCall.event).1 = .applied :=
  Node.handleIncomingRotation_applied.mpr ⟨rfl, firstKey, 0, firstEvent_payload _, rotationEvent_signed _ _ _ _,
    firstCall_pubkey ▸ keyNode_trusts, nofun, nofun⟩

theorem firstCall_keys {n : Node keyHost} (hn : HandlesRotation firstCall keyNode n) :
    Node.SameKeys (keyNode.applyRotation knownAuthor firstKey 0) n := by
  have hkeys := Node.handleIncomingRotation_keys firstCall_applied (firstEvent_payload _)
  rw [firstCall_pubkey, ← hn] at hkeys
  exact hkeys

theorem firstCall_trusts {n : Node keyHost} (hn : HandlesRotation firstCall keyNode n) :
    n.reputation.isTrusted knownAuthor = true := by
  rw [hn, Node.handleIncomingRotation_reputation]
  exact keyNode_trusts

theorem laterCall_applied {n : Node keyHost} (hn : HandlesRotation firstCall keyNode n) :
    (n.handleIncomingRotation laterCall.env laterCall.event).1 = .applied := by
  have hcount : n.peerRotationCount.lookup knownAuthor = some 0 := by
    rw [(firstCall_keys hn).counts]
    exact AList.lookup_insert _
  have hkey : n.peerX25519.lookup knownAuthor = some firstKey := by
    rw [(firstCall_keys hn).current]
    exact AList.lookup_insert _
  rw [Node.handleIncomingRotation_applied, Node.RotationAccepted, laterCall_pubkey, hcount, hkey]
  refine ⟨rfl, laterKey, 1, laterEvent_payload _, rotationEvent_signed _ _ _ _, firstCall_trusts hn, ?_, by decide⟩
  intro last hlast
  cases hlast
  decide

theorem calls_accepted {n : Node keyHost} (hn : HandlesRotation firstCall keyNode n) :
    ofPeer knownAuthor (accepted [⟨keyNode, firstCall⟩, ⟨n, laterCall⟩]) =
      [⟨knownAuthor, firstKey, 0⟩, ⟨knownAuthor, laterKey, 1⟩] := by
  have hfirst := Node.acceptedRotation_applied firstCall_applied (firstEvent_payload _)
  have hlater := Node.acceptedRotation_applied (laterCall_applied hn) (laterEvent_payload _)
  rw [firstCall_pubkey] at hfirst
  rw [laterCall_pubkey] at hlater
  simp [accepted, hfirst, hlater, ofPeer]

/-- **After both calls a node has the key announced last and keeps the first for the messages under way.** -/
theorem rotations_recorded_twice : ∃ (n : Node keyHost) (vs : List (Visit (Node keyHost) RotationCall)),
    Rotations (Node.new .default (.ofByte 2) none none) vs n ∧ n.peerX25519Key knownAuthor = some laterKey ∧
      n.peerX25519GraceKey knownAuthor = some firstKey := by
  obtain ⟨n₁, hfirst⟩ : ∃ n₁, HandlesRotation firstCall keyNode n₁ := ⟨_, rfl⟩
  obtain ⟨n₂, hlater⟩ : ∃ n₂, HandlesRotation laterCall n₁ n₂ := ⟨_, rfl⟩
  have htrust : Node.SameKeys (Node.new .default (.ofByte 2) none none) keyNode := ⟨rfl, rfl, rfl⟩
  have hr : Rotations (Node.new .default (.ofByte 2) none none)
      [⟨keyNode, firstCall⟩, ⟨n₁, laterCall⟩] n₂ :=
    .visit (.visit (.silent .start htrust) hfirst) hlater
  have hlast : ∀ r r' : Rotation, [r, r'].getLast?.map Rotation.key = some r'.key := fun _ _ => rfl
  have hbefore : ∀ r r' : Rotation, [r, r'].dropLast.getLast?.map Rotation.key = some r.key := fun _ _ => rfl
  have hrec := rotations_recorded hr knownAuthor
  rw [calls_accepted hfirst, hlast, hbefore] at hrec
  exact ⟨n₂, _, hr, hrec.2.1, hrec.2.2.1⟩

end Onde
