import Onde.Protocol.Gossip
import Onde.Protocol.Wire
import Onde.Reputation.Trust

/-!
# Admission and the wire

An event that passes the validators is encoded for the peers; what they decode has to be the same event.

* `allZero_encEvent`: the one event in wire form without a byte set;
* `survives_iff`: an admitted event survives the wire exactly when its key and its signature are in lower case, its
  texts fit their length prefixes, its tags are at most ten thousand, and it is not that one.
-/

namespace Onde.Protocol

open Onde.Lib Onde.Crypto Onde.Reputation

/-- The peers decode what is sent for the event as the event, and it passes the check there. -/
def Survives (check : MeshEvent → Except String Unit) (e : MeshEvent) : Prop :=
  ∃ data e', e.toWireBytes = .ok data ∧ fromWireBytes data = .ok e' ∧ check e' = .ok () ∧ e' = e

/-- The event with no byte set. -/
def blankEvent : MeshEvent where
  id := hexEncode (List.replicate 32 0)
  pubkey := hexEncode (List.replicate 32 0)
  createdAt := 0
  kind := .alert
  tags := []
  content := ""
  sig := hexEncode (List.replicate 64 0)
  powNonce := 0
  powDifficulty := 0
  ttl := 0

/-- What the wire asks of an event beyond its admission. -/
structure Carried (e : MeshEvent) : Prop where
  pubkey : LowerHex 32 e.pubkey
  sig : LowerHex 64 e.sig
  tags : TagsForm e.tags
  content : Prefixable e.content
  visible : e ≠ blankEvent

/-! ## The packet of zeros -/

theorem blankEvent_wireForm : WireForm blankEvent := by
  refine ⟨lowerHex_hexEncode (List.replicate 32 0), lowerHex_hexEncode (List.replicate 32 0), ?_, ?_,
    lowerHex_hexEncode (List.replicate 64 0)⟩ <;> decide

theorem encEvent_blankEvent : encEvent blankEvent = List.replicate 155 0 := by
  have hid : encHex (hexEncode (List.replicate 32 0)) = List.replicate 32 0 := encHex_encode _
  have hsig : encHex (hexEncode (List.replicate 64 0)) = List.replicate 64 0 := encHex_encode _
  simp only [encEvent, blankEvent, hid, hsig]
  decide

theorem allZero_iff {data : Bytes} : AllZero data ↔ data ≠ [] ∧ data = List.replicate data.length 0 := by
  rw [AllZero, List.all_eq_true, List.eq_replicate_iff]
  simp

/-- **The event with no byte set is the only one in wire form without a byte set.** -/
theorem allZero_encEvent {e : MeshEvent} (h : WireForm e) : AllZero (encEvent e) ↔ e = blankEvent := by
  constructor
  · intro hz
    have hzeros := (allZero_iff.mp hz).2
    have hsplit : encEvent e = encEvent blankEvent ++ List.replicate ((encEvent e).length - 155) 0 := by
      have hlen := length_encEvent h
      have hsum : 155 + ((encEvent e).length - 155) = (encEvent e).length := by omega
      rw [encEvent_blankEvent, List.replicate_append_replicate, hsum]
      exact hzeros
    -- the same bytes read as either event
    obtain ⟨r, hr, -⟩ := reads_readEvent.forward (.new (encEvent e)) e [] h (List.append_nil _).symm
    obtain ⟨r', hr', -⟩ := reads_readEvent.forward (.new (encEvent e)) blankEvent _ blankEvent_wireForm hsplit
    rw [hr] at hr'
    cases hr'
    rfl
  · rintro rfl
    rw [encEvent_blankEvent]
    exact ⟨by decide, by decide⟩

/-! ## Admitted events -/

variable {c : Primitives} {e : MeshEvent}

/-- An admitted event is in wire form when the wire can carry it. -/
theorem Carried.wireForm (hc : Carried e) (hid : e.id = e.canonicalId c) : WireForm e :=
  ⟨hid ▸ lowerHex_encode _, hc.pubkey, hc.tags, hc.content, hc.sig⟩

/-- **An encoded event decodes to itself exactly if it is in wire form and has a byte set.** -/
theorem decodes_iff {data : Bytes} (henc : e.toWireBytes = .ok data) :
    fromWireBytes data = .ok e ↔ WireForm e ∧ e ≠ blankEvent := by
  constructor
  · intro hdec
    obtain ⟨hform, -⟩ := fromWireBytes_sound hdec
    refine ⟨hform, fun hblank => (fromWireBytes_ok.mp hdec).1 ?_⟩
    rw [toWireBytes_wireForm hform] at henc
    cases henc
    obtain ⟨n, hn⟩ := TrafficPadding.pad_eq_append (encEvent e)
    rw [hn, hblank, encEvent_blankEvent, List.replicate_append_replicate]
    exact allZero_iff.mpr ⟨by simp, by rw [List.length_replicate]⟩
  · rintro ⟨hform, hvisible⟩
    rw [toWireBytes_wireForm hform] at henc
    cases henc
    have hz : ¬AllZero (encEvent e) := fun hz => hvisible ((allZero_encEvent hform).mp hz)
    obtain ⟨n, hn⟩ := TrafficPadding.pad_eq_append (encEvent e)
    rw [hn]
    exact fromWireBytes_encEvent hform hz _

/-- **Whatever has a canonical id survives the wire exactly when the wire can carry it.** -/
theorem survives_iff_carried {check : MeshEvent → Except String Unit} (hid : e.id = e.canonicalId c)
    (hcheck : check e = .ok ()) : Survives check e ↔ Carried e := by
  constructor
  · rintro ⟨data, e', henc, hdec, -, rfl⟩
    obtain ⟨hform, hvisible⟩ := (decodes_iff henc).mp hdec
    exact ⟨hform.pubkey, hform.sig, hform.tags, hform.content, hvisible⟩
  · intro hc
    have hform := hc.wireForm hid
    have henc := toWireBytes_wireForm hform
    exact ⟨_, e, henc, (decodes_iff henc).mpr ⟨hform, hc.visible⟩, hcheck, rfl⟩

theorem canonical_of_valid {clock : Nat} {m : UInt8} (h : e.validateWithPowMin c clock m = .ok ()) :
    e.id = e.canonicalId c :=
  (checkSigned_ok.mp (validateWithPowMin_ok.mp h).1).2.2.1

/-- An admitted event is always encoded. -/
theorem toWireBytes_of_valid {clock : Nat} {m : UInt8} (h : e.validateWithPowMin c clock m = .ok ()) :
    ∃ data, e.toWireBytes = .ok data := by
  obtain ⟨-, -, hid, hsig⟩ := checkSigned_ok.mp (validateWithPowMin_ok.mp h).1
  obtain ⟨id, hid', -⟩ := decodeHex_lowerHex (hid ▸ lowerHex_encode _ : LowerHex 32 e.id)
  unfold MeshEvent.signatureValid at hsig
  unfold MeshEvent.toWireBytes MeshEvent.rawBytes
  rw [show decodeHex32 e.id = some id from hid']
  cases hp : decodeHex32 e.pubkey with
  | none => simp [hp] at hsig
  | some pk =>
    cases hs : decodeHex64 e.sig with
    | none => simp [hp, hs] at hsig
    | some sig => exact ⟨_, rfl⟩

/-- **When admission agrees with the wire.** At every clock and reputation an event admitted by either validator
survives the wire exactly when its key and its signature are in lower case, its texts fit their prefixes, its tags are
at most ten thousand and some byte of it is set. -/
theorem survives_iff (c : Primitives) (clock : Nat) :
    (∀ e : MeshEvent, e.validate c clock = .ok () →
      (∃ data, e.toWireBytes = .ok data) ∧ (Survives (MeshEvent.validate c clock) e ↔ Carried e)) ∧
    (∀ (reputation : ReputationSystem) (e : MeshEvent), e.validateWithReputation c clock reputation = .ok () →
      (∃ data, e.toWireBytes = .ok data) ∧
        (Survives (MeshEvent.validateWithReputation c clock reputation) e ↔ Carried e)) :=
  ⟨fun _ h => ⟨toWireBytes_of_valid h, survives_iff_carried (canonical_of_valid h) h⟩,
    fun _ _ h => ⟨toWireBytes_of_valid h, survives_iff_carried (canonical_of_valid h) h⟩⟩

/-! ## A key in capitals -/

/-- The text of some bytes in capital digits. -/
def capitals (bs : Bytes) : String := String.ofList ((hexChars bs).map Char.toUpper)

theorem hexVal_toUpper : ∀ n < 16, hexVal (hexDigit n).toUpper = some n := by decide

/-- Capital digits decode like the others. -/
theorem unhexChars_toUpper : ∀ bs : Bytes, unhexChars ((hexChars bs).map Char.toUpper) = some bs
  | [] => rfl
  | b :: bs => by
    have hb := b.toNat_lt
    have h16 : 16 * (b.toNat / 16) + b.toNat % 16 = b.toNat := by omega
    have ih := unhexChars_toUpper bs
    simp only [hexChars] at ih
    simp only [hexChars, List.flatMap_cons, List.map_cons, List.cons_append,
      List.nil_append, unhexChars, hexVal_toUpper _ (show b.toNat / 16 < 16 by omega),
      hexVal_toUpper _ (show b.toNat % 16 < 16 by omega), ih, Option.bind_eq_bind, Option.bind_some, Option.pure_def,
      h16, UInt8.ofNat_toNat]

theorem decodeHex_capitals {n : Nat} (a : ByteArr n) : decodeHex n (capitals a.1) = some a := by
  simp [decodeHex, hexDecode, capitals, unhexChars_toUpper, a.2]

/-- The public key of `Identity.ofByte 1`. -/
def letterKey : ByteArr 32 := beArr 32 0x8a88e3dd7409f195fd52db2d3cba5d72ca6709bf1d94121bf3748801b40f6f5c

/-- The hash and the signature of one alert, with its author's key as it is written. -/
def letterPrimitives (author : String) (digest : ByteArr 32) (sig : ByteArr 64) : Primitives := .ofKnownBytes
  { publicKey := letterKey
    digests := [(utf8Bytes (canonical author 1700000000 .alert [] "OK").render, digest)]
    signatures := [(utf8Bytes (hexEncode digest.1), sig)] }

def letterEvent (author : String) (digest : ByteArr 32) (sig : ByteArr 64) : MeshEvent where
  id := hexEncode digest.1
  pubkey := author
  createdAt := 1700000000
  kind := .alert
  tags := []
  content := "OK"
  sig := hexEncode sig.1
  powNonce := 0
  powDifficulty := 0
  ttl := 5

/-- A node that trusts the author asks for no proof of work. -/
theorem valid_of_trusted {clock : Nat} (hsigned : e.checkSigned c clock = .ok ()) (hpow : e.powDifficulty = 0) :
    e.validateWithReputation c clock (ReputationSystem.new.bootstrap [e.pubkey]) = .ok () := by
  have hfloor : (ReputationSystem.new.bootstrap [e.pubkey]).requiredPowDifficulty e.pubkey = 0 :=
    ReputationSystem.requiredPowDifficulty_bootstrap List.mem_cons_self rfl
  rw [MeshEvent.validateWithReputation, hfloor]
  refine validateWithPowMin_ok.mpr ⟨hsigned, checkPow_ok.mpr ⟨?_, ?_⟩⟩
  · rw [hpow]
    exact UInt8.le_refl 0
  · rw [hpow]
    exact verifyPow_zero ..

/-- The hash and the signature of one event. -/
def primitivesFor (e : MeshEvent) (key digest : ByteArr 32) (sig : ByteArr 64) : Primitives := .ofKnownBytes
  { publicKey := key
    digests := [(utf8Bytes (canonical e.pubkey e.createdAt e.kind e.tags e.content).render, digest)]
    signatures := [(utf8Bytes (hexEncode digest.1), sig)] }

theorem checkSigned_for {key digest : ByteArr 32} {sig : ByteArr 64} {clock : Nat}
    (hkey : decodeHex32 e.pubkey = some key) (hid : e.id = hexEncode digest.1) (hsig : e.sig = hexEncode sig.1)
    (hsize : ¬(e.kind = .alert ∧ maxAlertSize < e.content.length)) (htime : e.createdAt.toNat ≤ clock) :
    e.checkSigned (primitivesFor e key digest sig) clock = .ok () := by
  have hhash : (primitivesFor e key digest sig).sha256
      (utf8Bytes (canonical e.pubkey e.createdAt e.kind e.tags e.content).render) = digest := by
    simp [primitivesFor, Primitives.ofKnownBytes]
  refine checkSigned_ok.mpr ⟨hsize, fun h => absurd h.1 (Nat.not_lt.mpr htime), ?_, ?_⟩
  · rw [hid, MeshEvent.canonicalId, computeId, hhash]
  · have hdecoded : decodeHex64 e.sig = some sig := hsig ▸ decodeHex_hexEncode sig
    rw [signatureValid_eq hkey hdecoded, hid]
    simp [primitivesFor, Primitives.ofKnownBytes]

/-- A node that trusts the author admits the alert. -/
theorem letterEvent_valid {author : String} (hkey : decodeHex32 author = some letterKey) (digest : ByteArr 32)
    (sig : ByteArr 64) : (letterEvent author digest sig).validateWithReputation (letterPrimitives author digest sig)
      1700000000 (ReputationSystem.new.bootstrap [author]) = .ok () := by
  have hprimitives : letterPrimitives author digest sig =
      primitivesFor (letterEvent author digest sig) letterKey digest sig := rfl
  have hsize : ¬maxAlertSize < "OK".length := by decide
  have htime : (1700000000 : UInt64).toNat ≤ 1700000000 := by decide
  rw [hprimitives]
  exact valid_of_trusted (checkSigned_for hkey rfl rfl (fun h => hsize h.2) htime) rfl

/-- The author's key in lower case and in capitals. -/
def lowerAuthor : String := hexEncode letterKey.1

def upperAuthor : String := capitals letterKey.1

def lowerDigest : ByteArr 32 := beArr 32 0x1e2fc7f5b7f364a182183fd0f79f56696efe8468e4e5cf0138623cf76459e8fe

def lowerSig : ByteArr 64 := beArr 64
  (0x460d04105db311fc4fba9c3267534ca246a9abf2855b37549d98f63a1431371a * 2 ^ 256 +
    0x547a5d7d04b38872fadaa1223fb2f977ba9e9a3237befd10ded63e9839c80509)

def upperDigest : ByteArr 32 := beArr 32 0x7159cc17276292498d2e161437a75cdff6d85287b6cea0c4483f7970f4929240

def upperSig : ByteArr 64 := beArr 64
  (0x47920d45b53ed96a7ab6b2ac2341a9edda448d726ea41bfa28642e64c3f181c5 * 2 ^ 256 +
    0x4b3f6c12d716b0bcca363943221571533322b905beca67ec5f2342fa7022b40b)

theorem survives_lower :
    Survives (MeshEvent.validateWithReputation (letterPrimitives lowerAuthor lowerDigest lowerSig) 1700000000
      (ReputationSystem.new.bootstrap [lowerAuthor])) (letterEvent lowerAuthor lowerDigest lowerSig) := by
  have hkey : decodeHex32 lowerAuthor = some letterKey := decodeHex_hexEncode letterKey
  have hvalid := letterEvent_valid hkey lowerDigest lowerSig
  refine (((survives_iff _ 1700000000).2 _ _ hvalid).2).mpr ⟨lowerHex_encode _, lowerHex_encode _, ?_, ?_, ?_⟩
  · exact ⟨by decide, fun _ h => nomatch h⟩
  · decide
  · exact fun h => absurd (congrArg MeshEvent.ttl h) (by decide)

/-- **An admitted alert that no peer receives as it is**: its key is written in capitals. -/
theorem capitals_lost :
    (letterEvent upperAuthor upperDigest upperSig).validateWithReputation
        (letterPrimitives upperAuthor upperDigest upperSig) 1700000000
        (ReputationSystem.new.bootstrap [upperAuthor]) = .ok () ∧
      ¬Survives (MeshEvent.validateWithReputation (letterPrimitives upperAuthor upperDigest upperSig) 1700000000
        (ReputationSystem.new.bootstrap [upperAuthor])) (letterEvent upperAuthor upperDigest upperSig) := by
  refine ⟨letterEvent_valid (decodeHex_capitals letterKey) upperDigest upperSig, ?_⟩
  rintro ⟨data, e', -, hdec, -, rfl⟩
  obtain ⟨hform, -⟩ := fromWireBytes_sound hdec
  -- the second digit of the key is a capital
  have hletter : 'A' ∈ upperAuthor.toList := by
    rw [upperAuthor, capitals, String.toList_ofList]
    refine List.mem_map.mpr ⟨'a', ?_, rfl⟩
    decide +kernel
  exact absurd (hform.pubkey.2 'A' hletter) (by decide)

end Onde.Protocol
