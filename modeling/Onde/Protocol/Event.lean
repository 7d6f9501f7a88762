import Onde.Crypto.Primitives
import Onde.Lib.Except
import Onde.Lib.Json

/-!
# Mesh events

* `computeId`: the canonical id, over the signed fields only;
* `signatureValid`: the Ed25519 check over the id text, which says nothing about the fields;
* `validateWithPowMin`: the full check, split as `checkSigned` (what the author answers for) and `checkPow` (what any
  relay can change); `validateWithPowMin_ok` reads it back.
-/

namespace Onde.Protocol

open Onde.Lib Onde.Crypto

def maxAlertSize : Nat := 280
def maxClockSkewSecs : Nat := 300
def minPowDifficulty : UInt8 := 1

/-- The kinds of events. -/
inductive OndeMessageType where
  | alert | mutualAid | voiceMemo | transcription | transaction | aiQuery | aiResponse | fileShareRequest | heartbeat
  | updateAnnounce | updateManifest | updateChunk | updateRequest | endorsement | identityRotation | abuseReport
  | socialPost | socialComment | socialVote | socialFollow | socialMessage | socialModeration
  deriving DecidableEq

/-- The six kinds of the social layer. -/
def OndeMessageType.isSocial : OndeMessageType → Bool
  | .socialPost | .socialComment | .socialVote | .socialFollow | .socialMessage | .socialModeration => true
  | _ => false

/-- An event of the mesh. -/
structure MeshEvent where
  id : String
  pubkey : String
  createdAt : UInt64
  kind : OndeMessageType
  tags : List String
  content : String
  sig : String
  powNonce : UInt64
  powDifficulty : UInt8
  ttl : UInt8
  deriving DecidableEq

/-- The stable code of a kind. -/
def kindCode : OndeMessageType → UInt8
  | .alert => 0
  | .mutualAid => 1
  | .voiceMemo => 2
  | .transcription => 3
  | .transaction => 4
  | .aiQuery => 5
  | .aiResponse => 6
  | .fileShareRequest => 7
  | .heartbeat => 8
  | .updateAnnounce => 9
  | .updateManifest => 10
  | .updateChunk => 11
  | .updateRequest => 12
  | .endorsement => 13
  | .identityRotation => 14
  | .abuseReport => 15
  | .socialPost => 16
  | .socialComment => 17
  | .socialVote => 18
  | .socialFollow => 19
  | .socialMessage => 20
  | .socialModeration => 21

/-! ## Canonical id and signature -/

section
variable (c : Primitives)

/-- The JSON array the id is the hash of. -/
def canonical (pubkey : String) (createdAt : UInt64) (kind : OndeMessageType) (tags : List String) (content : String) :
    Json :=
  .arr [.str pubkey, .num (.posInt createdAt), .num (.posInt (kindCode kind).toUInt64), .arr (tags.map .str),
    .str content]

theorem content_le_canonical (pubkey : String) (createdAt : UInt64) (kind : OndeMessageType) (tags : List String)
    (content : String) :
    content.toList.length ≤ (canonical pubkey createdAt kind tags content).render.utf8ByteSize :=
  Json.utf8ByteSize_render_arr (by simp)

/-- The SHA-256 id over `[pubkey, created_at, kind, tags, content]`. -/
def computeId (pubkey : String) (createdAt : UInt64) (kind : OndeMessageType) (tags : List String)
    (content : String) : String :=
  hexEncode (c.sha256 (utf8Bytes (canonical pubkey createdAt kind tags content).render)).1

/-- The id of the event's own fields. -/
def MeshEvent.canonicalId (e : MeshEvent) : String := computeId c e.pubkey e.createdAt e.kind e.tags e.content

/-- The Ed25519 signature over the id text. -/
def MeshEvent.signatureValid (e : MeshEvent) : Bool :=
  match decodeHex32 e.pubkey, decodeHex64 e.sig with
  | some pk, some sig => c.verify pk (utf8Bytes e.id) sig
  | _, _ => false

/-- A signed event, created at the fuzzy time `createdAt`. -/
def MeshEvent.newSigned (sender : Identity) (kind : OndeMessageType) (content : String) (tags : List String)
    (createdAt : UInt64) : MeshEvent :=
  let pubkey := sender.pubkeyHex c
  let id := computeId c pubkey createdAt kind tags content
  { id, pubkey, createdAt, kind, tags, content, sig := hexEncode (c.sign sender.seed (utf8Bytes id)).1,
    powNonce := 0, powDifficulty := 4, ttl := 5 }

/-- Set the difficulty of a signed event. -/
def MeshEvent.withPowDifficulty (e : MeshEvent) (difficulty : UInt8) : MeshEvent :=
  { e with powDifficulty := difficulty }

/-! ## Proof of work -/

/-- `hash(id:nonce)` starts with `difficulty` zeros. -/
def verifyPow (eventId : String) (nonce : UInt64) (difficulty : UInt8) : Bool :=
  (List.replicate difficulty.toNat '0').isPrefixOf
    (hexEncode (c.sha256 (utf8Bytes (eventId ++ ":" ++ nonce.toNat.repr))).1).toList

/-- Try `fuel` nonces from `nonce` on. -/
def findNonce (eventId : String) (difficulty : UInt8) : Nat → UInt64 → Option UInt64
  | 0, _ => none
  | fuel + 1, nonce =>
    if verifyPow c eventId nonce difficulty then some nonce else findNonce eventId difficulty fuel (nonce + 1)

/-- The event with the first nonce found, or `none` after `maxIterations`. -/
def MeshEvent.computePow (e : MeshEvent) (maxIterations : Nat) : Option MeshEvent :=
  (findNonce c e.id e.powDifficulty maxIterations 0).map fun nonce => { e with powNonce := nonce }

theorem findNonce_spec {eventId : String} {difficulty : UInt8} : ∀ {fuel : Nat} {nonce n : UInt64},
    findNonce c eventId difficulty fuel nonce = some n → verifyPow c eventId n difficulty = true
  | 0, _, _, h => by cases h
  | fuel + 1, nonce, n, h => by
    unfold findNonce at h
    split at h
    · next hv => cases h; exact hv
    · exact findNonce_spec h

theorem verifyPow_zero (eventId : String) (nonce : UInt64) : verifyPow c eventId nonce 0 = true := rfl

/-! ## Validation -/

/-- The checks on the signed part: size, time, id, signature. -/
def MeshEvent.checkSigned (clock : Nat) (e : MeshEvent) : Except String Unit :=
  if e.kind = .alert ∧ maxAlertSize < e.content.length then
    .error s!"Alert exceeds {maxAlertSize} character limit"
  else if clock < e.createdAt.toNat ∧ maxClockSkewSecs < e.createdAt.toNat - clock then
    .error "Event created_at is too far in the future"
  else if e.id ≠ e.canonicalId c then .error "Event ID does not match canonical serialization"
  else if e.sig = "" then .error "Missing signature"
  else match decodeHex32 e.pubkey with
    | none => .error "Invalid pubkey encoding"
    | some pk => match decodeHex64 e.sig with
      | none => .error "Invalid signature encoding"
      | some sig => if c.verify pk (utf8Bytes e.id) sig then .ok () else .error "Invalid signature"

/-- The checks on the proof of work, which the signature does not cover. -/
def MeshEvent.checkPow (e : MeshEvent) (minDifficulty : UInt8) : Except String Unit :=
  if e.powDifficulty < minDifficulty then
    .error s!"PoW difficulty {e.powDifficulty} is below network minimum (required {minDifficulty})"
  else if verifyPow c e.id e.powNonce e.powDifficulty then .ok ()
  else .error "Invalid PoW"

/-- All checks, with the difficulty floor as a parameter. -/
def MeshEvent.validateWithPowMin (clock : Nat) (e : MeshEvent) (minDifficulty : UInt8) : Except String Unit := do
  e.checkSigned c clock
  e.checkPow c minDifficulty

/-- All checks, with the fixed floor of the network. -/
def MeshEvent.validate (clock : Nat) (e : MeshEvent) : Except String Unit :=
  e.validateWithPowMin c clock minPowDifficulty

variable {c} {e : MeshEvent} {clock : Nat}

theorem signatureValid_eq {pk : ByteArr 32} {sig : ByteArr 64} (hp : decodeHex32 e.pubkey = some pk)
    (hs : decodeHex64 e.sig = some sig) : e.signatureValid c = c.verify pk (utf8Bytes e.id) sig := by
  rw [MeshEvent.signatureValid, hp, hs]

/-- The signature check does not read the fields the id should cover. -/
theorem signatureValid_forge (e : MeshEvent) (kind : OndeMessageType) (content : String) :
    ({ e with kind := kind, content := content } : MeshEvent).signatureValid c = e.signatureValid c := rfl

theorem newSigned_signatureValid (h : c.Lawful) (sender : Identity) (kind : OndeMessageType) (content : String)
    (tags : List String) (t : UInt64) : (MeshEvent.newSigned c sender kind content tags t).signatureValid c = true := by
  have hp : decodeHex32 (MeshEvent.newSigned c sender kind content tags t).pubkey = some (c.publicKey sender.seed) :=
    decodeHex_hexEncode (c.publicKey sender.seed)
  have hs : decodeHex64 (MeshEvent.newSigned c sender kind content tags t).sig =
      some (c.sign sender.seed (utf8Bytes (MeshEvent.newSigned c sender kind content tags t).id)) :=
    decodeHex_hexEncode (c.sign sender.seed (utf8Bytes (MeshEvent.newSigned c sender kind content tags t).id))
  rw [signatureValid_eq hp hs]
  exact h.verify_sign _ _

/-- The signature does not cover the proof of work, -/
theorem signatureValid_withPowDifficulty (difficulty : UInt8) :
    (e.withPowDifficulty difficulty).signatureValid c = e.signatureValid c := rfl

/-- and the signed checks do not read it. -/
theorem checkSigned_withPowDifficulty (difficulty : UInt8) :
    (e.withPowDifficulty difficulty).checkSigned c clock = e.checkSigned c clock := rfl

/-- **The signed part passes exactly when the author is answerable for it and it is neither too long nor too late.** -/
theorem checkSigned_ok : e.checkSigned c clock = .ok () ↔
    ¬(e.kind = .alert ∧ maxAlertSize < e.content.length) ∧
    ¬(clock < e.createdAt.toNat ∧ maxClockSkewSecs < e.createdAt.toNat - clock) ∧
    e.id = e.canonicalId c ∧ e.signatureValid c = true := by
  have hsig : e.signatureValid c = true → e.sig ≠ "" := by
    intro hvalid hempty
    have hnone : decodeHex64 e.sig = none := by
      rw [hempty]
      decide
    rw [MeshEvent.signatureValid, hnone] at hvalid
    revert hvalid
    cases decodeHex32 e.pubkey <;> exact nofun
  unfold MeshEvent.checkSigned
  rw [check_eq_ok, check_eq_ok, check_eq_ok, check_eq_ok, ne_eq, not_not]
  refine and_congr_right fun _ => and_congr_right fun _ => and_congr_right fun _ => ?_
  rw [← and_iff_right_of_imp hsig]
  refine and_congr_right fun _ => ?_
  unfold MeshEvent.signatureValid
  cases decodeHex32 e.pubkey with
  | none => exact ⟨nofun, nofun⟩
  | some pk =>
    cases decodeHex64 e.sig with
    | none => exact ⟨nofun, nofun⟩
    | some sig => exact accept_eq_ok.trans (and_iff_left rfl)

/-- What passes once passes later. -/
theorem checkSigned_later {clock' : Nat} (h : e.checkSigned c clock = .ok ()) (hle : clock ≤ clock') :
    e.checkSigned c clock' = .ok () := by
  obtain ⟨hsize, htime, hid, hsig⟩ := checkSigned_ok.mp h
  refine checkSigned_ok.mpr ⟨hsize, ?_, hid, hsig⟩
  rintro ⟨hlt, hskew⟩
  exact htime ⟨by omega, by omega⟩

/-- What a node signs passes, unless it is too long or too late. -/
theorem newSigned_checkSigned (h : c.Lawful) (sender : Identity) {kind : OndeMessageType} {content : String}
    (tags : List String) {t : UInt64} (hsize : kind = .alert → content.length ≤ maxAlertSize)
    (htime : t.toNat ≤ clock + maxClockSkewSecs) :
    (MeshEvent.newSigned c sender kind content tags t).checkSigned c clock = .ok () :=
  checkSigned_ok.mpr ⟨fun hs => absurd (hsize hs.1) (Nat.not_le.mpr hs.2),
    fun ht => by have := ht.1; have := ht.2; simp only [MeshEvent.newSigned] at *; omega,
    rfl, newSigned_signatureValid h sender kind content tags t⟩

theorem checkPow_ok {m : UInt8} : e.checkPow c m = .ok () ↔
    m ≤ e.powDifficulty ∧ verifyPow c e.id e.powNonce e.powDifficulty = true := by
  unfold MeshEvent.checkPow
  rw [check_eq_ok, UInt8.not_lt, accept_eq_ok, and_iff_left rfl]

theorem validateWithPowMin_ok {m : UInt8} : e.validateWithPowMin c clock m = .ok () ↔
    e.checkSigned c clock = .ok () ∧ e.checkPow c m = .ok () := by
  unfold MeshEvent.validateWithPowMin
  cases h : e.checkSigned c clock with
  | error x => simp [bind, Except.bind]
  | ok u => simp [bind, Except.bind]

end

end Onde.Protocol
