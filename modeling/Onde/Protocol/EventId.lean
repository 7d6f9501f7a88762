import Onde.Crypto.Binding
import Onde.Lib.JsonText
import Onde.Protocol.Admission

/-!
# What an event id binds

The id of an event is the hash of a JSON text of its signed fields.

* `SameSigned`: the same key, time, kind, tags and content;
* `canonical_inj`: the JSON text tells them, whatever characters the tags and the content have;
* `id_binds`: so does the id of an event that validates, unless the two texts collide.
-/

namespace Onde.Protocol

open Onde.Lib Onde.Crypto

/-- The two events have the same signed fields. -/
structure SameSigned (e e' : MeshEvent) : Prop where
  pubkey : e.pubkey = e'.pubkey
  createdAt : e.createdAt = e'.createdAt
  kind : e.kind = e'.kind
  tags : e.tags = e'.tags
  content : e.content = e'.content

/-- The text that the id is the hash of. -/
def MeshEvent.canonicalText (e : MeshEvent) : String := (canonical e.pubkey e.createdAt e.kind e.tags e.content).render

variable {c : Primitives} {e e' : MeshEvent} {clock clock' : Nat}

theorem kindCode_injective : Function.Injective kindCode := by
  intro k k' h
  have hk := kindFromCode_kindCode k
  rw [h, kindFromCode_kindCode] at hk
  exact (Except.ok.inj hk).symm

theorem canonical_plain (pubkey : String) (createdAt : UInt64) (kind : OndeMessageType) (tags : List String)
    (content : String) : (canonical pubkey createdAt kind tags content).Plain := by
  refine .arr fun v hv => ?_
  simp only [List.mem_cons, List.not_mem_nil, or_false] at hv
  rcases hv with rfl | rfl | rfl | rfl | rfl
  · exact .str _
  · exact .num _
  · exact .num _
  · refine .arr fun t ht => ?_
    obtain ⟨tag, _, rfl⟩ := List.mem_map.mp ht
    exact .str tag
  · exact .str _

/-- **The text tells the signed fields.** -/
theorem canonical_inj : e.canonicalText = e'.canonicalText ↔ SameSigned e e' := by
  constructor
  · intro h
    have hjson := Json.render_inj (canonical_plain _ _ _ _ _) (canonical_plain _ _ _ _ _) h
    simp only [canonical, Json.arr.injEq, List.cons.injEq, Json.str.injEq, Json.num.injEq, JsonNumber.posInt.injEq,
      and_true] at hjson
    obtain ⟨hpubkey, htime, hcode, htags, hcontent⟩ := hjson
    have hkind : kindCode e.kind = kindCode e'.kind := by
      have hnat := congrArg UInt64.toNat hcode
      rw [UInt8.toNat_toUInt64, UInt8.toNat_toUInt64] at hnat
      exact UInt8.toNat_inj.mp hnat
    exact ⟨hpubkey, htime, kindCode_injective hkind, List.map_injective_iff.mpr (fun _ _ => Json.str.inj) htags,
      hcontent⟩
  · rintro ⟨hpubkey, htime, hkind, htags, hcontent⟩
    rw [MeshEvent.canonicalText, MeshEvent.canonicalText, hpubkey, htime, hkind, htags, hcontent]

/-- The signed fields decide the id. -/
theorem SameSigned.canonicalId (h : SameSigned e e') : e.canonicalId c = e'.canonicalId c := by
  obtain ⟨hpubkey, htime, hkind, htags, hcontent⟩ := h
  rw [MeshEvent.canonicalId, MeshEvent.canonicalId, hpubkey, htime, hkind, htags, hcontent]

theorem canonicalId_inj (hfree : CollisionFree c {e.canonicalText, e'.canonicalText}) :
    e.canonicalId c = e'.canonicalId c ↔ SameSigned e e' := by
  refine ⟨fun h => canonical_inj.mp ?_, SameSigned.canonicalId⟩
  exact hfree (Set.mem_insert _ _) (Set.mem_insert_of_mem _ rfl) (hexDigest_inj h)

/-- **The id binds the event.** Two events that validate with the same id have the same key, time, kind, tags and
content, unless their texts collide; and texts of different fields are different, so nothing but a collision of the hash
can join two ids. -/
theorem id_binds (hfree : CollisionFree c {e.canonicalText, e'.canonicalText}) (hvalid : e.validate c clock = .ok ())
    (hvalid' : e'.validate c clock' = .ok ()) (hid : e.id = e'.id) :
    SameSigned e e' ∧ ∀ f f' : MeshEvent, f.canonicalText = f'.canonicalText ↔ SameSigned f f' := by
  refine ⟨(canonicalId_inj hfree).mp ?_, fun _ _ => canonical_inj⟩
  rw [← canonical_of_valid hvalid, ← canonical_of_valid hvalid', hid]

/-! ## An alert on its way -/

/-- The alert with its proof of work, and some hops to go. -/
def minedEvent (ttl : UInt8) : MeshEvent :=
  { letterEvent lowerAuthor lowerDigest lowerSig with powNonce := 3, powDifficulty := 1, ttl := ttl }

/-- The text that the proof of work is the hash of. -/
def minedText : String := hexEncode lowerDigest.1 ++ ":" ++ (3 : UInt64).toNat.repr

/-- The hashes of the alert and of its proof of work, and its signature. -/
def minedPrimitives : Primitives := .ofKnownBytes
  { publicKey := letterKey
    digests :=
      [(utf8Bytes (minedEvent 5).canonicalText, lowerDigest),
       (utf8Bytes minedText, beArr 32 0x0669c968dc57779a44cff5980b2adc28b85368da9d5ddd991a61180558c53811)]
    signatures := [(utf8Bytes (hexEncode lowerDigest.1), lowerSig)] }

/-- The two texts are told apart by a bracket. -/
theorem minedText_ne : utf8Bytes (minedEvent 5).canonicalText ≠ utf8Bytes minedText := by
  intro h
  have hbracket : '[' ∈ minedText.toList := by
    rw [← utf8Bytes_injective h, MeshEvent.canonicalText, Json.render, String.toList_ofList, canonical, Json.chars]
    exact List.mem_append_left _ List.mem_cons_self
  rw [minedText, String.toList_append, String.toList_append, List.append_assoc, hexEncode,
    String.toList_ofList] at hbracket
  rcases List.mem_append.mp hbracket with hhex | hrest
  · exact absurd (hexChars_lower _ _ hhex) (by decide)
  · exact absurd hrest (by decide)

theorem minedPrimitives_pow : minedPrimitives.sha256 (utf8Bytes minedText) =
    beArr 32 0x0669c968dc57779a44cff5980b2adc28b85368da9d5ddd991a61180558c53811 := by
  simp [minedPrimitives, Primitives.ofKnownBytes, minedText_ne]

theorem minedEvent_checkSigned (ttl : UInt8) :
    (minedEvent ttl).checkSigned minedPrimitives 1700000000 = .ok () := by
  have hsize : ¬maxAlertSize < "OK".length := by decide
  have hhash : minedPrimitives.sha256 (utf8Bytes (minedEvent 5).canonicalText) = lowerDigest := by
    simp [minedPrimitives, Primitives.ofKnownBytes]
  have hkey : decodeHex32 (minedEvent ttl).pubkey = some letterKey := decodeHex_hexEncode letterKey
  have hsig : decodeHex64 (minedEvent ttl).sig = some lowerSig := decodeHex_hexEncode lowerSig
  refine checkSigned_ok.mpr ⟨fun h => hsize h.2, ?_, ?_, ?_⟩
  · exact fun h => absurd h.1 (by decide : ¬1700000000 < (1700000000 : UInt64).toNat)
  · show hexEncode lowerDigest.1 = hexEncode (minedPrimitives.sha256 (utf8Bytes (minedEvent 5).canonicalText)).1
    rw [hhash]
  · rw [signatureValid_eq hkey hsig]
    simp [minedPrimitives, Primitives.ofKnownBytes, minedEvent, letterEvent]

theorem minedEvent_validate (ttl : UInt8) : (minedEvent ttl).validate minedPrimitives 1700000000 = .ok () := by
  refine validateWithPowMin_ok.mpr ⟨minedEvent_checkSigned ttl, checkPow_ok.mpr ⟨UInt8.le_refl 1, ?_⟩⟩
  show (List.replicate 1 '0').isPrefixOf (hexEncode (minedPrimitives.sha256 (utf8Bytes minedText)).1).toList = true
  rw [minedPrimitives_pow]
  decide +kernel

/-- A relay that counts the hops leaves the id. -/
theorem relayed_binds : SameSigned (minedEvent 5) (minedEvent 4) := by
  have htext : (minedEvent 4).canonicalText = (minedEvent 5).canonicalText := rfl
  have hfree : CollisionFree minedPrimitives {(minedEvent 5).canonicalText, (minedEvent 4).canonicalText} := by
    rw [htext, Set.pair_eq_singleton]
    exact Set.injOn_singleton _ _
  exact (id_binds hfree (minedEvent_validate 5) (minedEvent_validate 4) rfl).1

end Onde.Protocol
