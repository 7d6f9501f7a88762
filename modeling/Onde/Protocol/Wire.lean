import Onde.Lib.Reader
import Onde.Protocol.Event

/-!
# The binary wire format

`id (32) || pubkey (32) || created_at (u64) || kind (u8) || tags_count (u32) || [tag_len (u32) || tag]* ||
content_len (u32) || content || sig (64) || pow_nonce (u64) || pow_difficulty (u8) || ttl (u8)`, little-endian, then
zeros up to the bucket.

* `reads_readEvent`: the reader reads exactly the encodings of the events in `WireForm`;
* `wire_round_trip`: decoding inverts encoding whatever follows, and what is decoded encodes to the padded bytes that
  were read.
-/

namespace Onde.Protocol

open Onde.Lib Onde.Crypto

/-! ## Kind codes -/

/-- The kind of a code. -/
def kindFromCode (code : UInt8) : Except String OndeMessageType :=
  match code with
  | 0 => .ok .alert
  | 1 => .ok .mutualAid
  | 2 => .ok .voiceMemo
  | 3 => .ok .transcription
  | 4 => .ok .transaction
  | 5 => .ok .aiQuery
  | 6 => .ok .aiResponse
  | 7 => .ok .fileShareRequest
  | 8 => .ok .heartbeat
  | 9 => .ok .updateAnnounce
  | 10 => .ok .updateManifest
  | 11 => .ok .updateChunk
  | 12 => .ok .updateRequest
  | 13 => .ok .endorsement
  | 14 => .ok .identityRotation
  | 15 => .ok .abuseReport
  | 16 => .ok .socialPost
  | 17 => .ok .socialComment
  | 18 => .ok .socialVote
  | 19 => .ok .socialFollow
  | 20 => .ok .socialMessage
  | 21 => .ok .socialModeration
  | other => .error s!"wire: unknown kind code {other}"

theorem kindFromCode_kindCode (k : OndeMessageType) : kindFromCode (kindCode k) = .ok k := by cases k <;> rfl

theorem kindCode_kindFromCode {code : UInt8} {k : OndeMessageType} (h : kindFromCode code = .ok k) :
    kindCode k = code := by
  unfold kindFromCode at h
  split at h <;> cases h <;> rfl

/-! ## Encoding -/

/-- A length-prefixed text; the length is cast to `u32`. -/
def encString (s : String) : Bytes := leBytes 4 s.utf8ByteSize ++ utf8Bytes s

/-- The encoded event without padding. -/
def MeshEvent.rawBytes (e : MeshEvent) : Except String Bytes :=
  match decodeHex32 e.id with
  | none => .error "wire: invalid event id"
  | some id => match decodeHex32 e.pubkey with
    | none => .error "wire: invalid pubkey encoding"
    | some pubkey => match decodeHex64 e.sig with
      | none => .error "wire: invalid signature"
      | some sig => .ok (id.1 ++ pubkey.1 ++ leBytes 8 e.createdAt.toNat ++ [kindCode e.kind]
          ++ leBytes 4 e.tags.length ++ e.tags.flatMap encString ++ encString e.content ++ sig.1
          ++ leBytes 8 e.powNonce.toNat ++ [e.powDifficulty, e.ttl])

/-- The padded bytes sent to a peer. -/
def MeshEvent.toWireBytes (e : MeshEvent) : Except String Bytes := TrafficPadding.pad <$> e.rawBytes

/-! ## The reader -/

/-- A buffer and the position in it. -/
structure WireReader where
  buf : Bytes
  pos : Nat
  le : pos ≤ buf.length

namespace WireReader

def new (buf : Bytes) : WireReader := ⟨buf, 0, Nat.zero_le _⟩

def cursor : Cursor WireReader := ⟨fun r => r.buf.take r.pos, fun r => r.buf.drop r.pos⟩

/-- The next `n` bytes. -/
def take (n : Nat) : StateT WireReader (Except String) Bytes := fun r =>
  if h : r.buf.length < r.pos + n then
    .error s!"wire message truncated (need {n} bytes at offset {r.pos}, have {r.buf.length - r.pos})"
  else .ok ((r.buf.drop r.pos).take n, ⟨r.buf, r.pos + n, Nat.le_of_not_lt h⟩)

def takeArray (n : Nat) : StateT WireReader (Except String) (ByteArr n) := do
  let s ← take n
  if h : s.length = n then pure ⟨s, h⟩ else throw "wire: length mismatch"

def takeU8 : StateT WireReader (Except String) UInt8 := do
  let s ← take 1
  pure (s.headD 0)

def takeU32 : StateT WireReader (Except String) Nat := do
  let s ← takeArray 4
  pure (ofLe s.1)

def takeU64 : StateT WireReader (Except String) UInt64 := do
  let s ← takeArray 8
  pure (UInt64.ofNat (ofLe s.1))

/-- The length of the sequence that stops being valid at the head of the list; `none` when the bytes end inside it. -/
def utf8ErrorLen : Bytes → Option Nat
  | [] => none
  | b₀ :: rest =>
    let second (b₁ : UInt8) : Bool :=
      if 0xc2 ≤ b₀ ∧ b₀ ≤ 0xdf then decide (0x80 ≤ b₁ ∧ b₁ ≤ 0xbf)
      else if b₀ = 0xe0 then decide (0xa0 ≤ b₁ ∧ b₁ ≤ 0xbf)
      else if b₀ = 0xed then decide (0x80 ≤ b₁ ∧ b₁ ≤ 0x9f)
      else if 0xe1 ≤ b₀ ∧ b₀ ≤ 0xef then decide (0x80 ≤ b₁ ∧ b₁ ≤ 0xbf)
      else if b₀ = 0xf0 then decide (0x90 ≤ b₁ ∧ b₁ ≤ 0xbf)
      else if b₀ = 0xf4 then decide (0x80 ≤ b₁ ∧ b₁ ≤ 0x8f)
      else decide (0x80 ≤ b₁ ∧ b₁ ≤ 0xbf)
    if ¬(0xc2 ≤ b₀ ∧ b₀ ≤ 0xf4) then some 1
    else match rest with
      | [] => none
      | b₁ :: rest =>
        if ¬second b₁ then some 1
        else match rest with
          | [] => none
          | b₂ :: rest =>
            if ¬(0x80 ≤ b₂ ∧ b₂ ≤ 0xbf) then some 2
            else match rest with
              | [] => none
              | _ => some 3

/-- The text of a decoding error: where the valid prefix ends, and what follows it. -/
def utf8Error (bs : Bytes) : String :=
  let validUpTo := ((List.range (bs.length + 1)).reverse.find? fun k => (fromUtf8 (bs.take k)).isSome).getD 0
  match utf8ErrorLen (bs.drop validUpTo) with
  | some n => s!"invalid utf-8 sequence of {n} bytes from index {validUpTo}"
  | none => s!"incomplete utf-8 byte sequence from index {validUpTo}"

def takeString : StateT WireReader (Except String) String := do
  let len ← takeU32
  let b ← take len
  match fromUtf8 b with
  | some s => pure s
  | none => throw s!"wire content is not valid UTF-8: {utf8Error b}"

end WireReader

open WireReader

/-- `n` bytes as hexadecimal text. -/
def takeHex (n : Nat) : StateT WireReader (Except String) String := do
  let a ← takeArray n
  pure (hexEncode a.1)

def takeKind : StateT WireReader (Except String) OndeMessageType := do
  let code ← takeU8
  match kindFromCode code with
  | .ok k => pure k
  | .error err => throw err

def takeTags : StateT WireReader (Except String) (List String) := do
  let tagsLen ← takeU32
  if 10000 < tagsLen then throw s!"wire: too many tags ({tagsLen})" else times tagsLen takeString

/-- The fields, in the order they are written. -/
def readEvent : StateT WireReader (Except String) MeshEvent := do
  let id ← takeHex 32
  let pubkey ← takeHex 32
  let createdAt ← takeU64
  let kind ← takeKind
  let tags ← takeTags
  let content ← takeString
  let sig ← takeHex 64
  let powNonce ← takeU64
  let powDifficulty ← takeU8
  let ttl ← takeU8
  pure { id, pubkey, createdAt, kind, tags, content, sig, powNonce, powDifficulty, ttl }

/-- Decode padded or unpadded bytes; what follows the last field is not read. -/
def fromWireBytes (data : Bytes) : Except String MeshEvent :=
  if data ≠ [] ∧ data.all (· = 0) then .error "wire: all-zero packet is not a valid event"
  else Prod.fst <$> readEvent (.new data)

/-! ## What each reader reads -/

theorem reads_take (n : Nat) : Reads cursor (take n) (fun bs => bs.length = n) fun bs => bs where
  forward r bs t h ht := by
    subst h
    have hr : r.buf.drop r.pos = bs ++ t := ht
    have hl := congrArg List.length hr
    rw [List.length_drop, List.length_append] at hl
    have hle := r.le
    have hn : ¬r.buf.length < r.pos + bs.length := by omega
    refine ⟨⟨r.buf, r.pos + bs.length, Nat.le_of_not_lt hn⟩, ?_, ?_⟩
    · rw [take, dif_neg hn, hr, List.take_left]
    · show r.buf.drop (r.pos + bs.length) = t
      rw [← List.drop_drop, hr, List.drop_left]
  backward r bs r' h := by
    unfold take at h
    split at h
    · cases h
    · rename_i hn
      cases h
      refine ⟨by rw [List.length_take, List.length_drop]; omega, ?_, ?_⟩
      · show r.buf.drop r.pos = (r.buf.drop r.pos).take n ++ r.buf.drop (r.pos + n)
        rw [← List.drop_drop, List.take_append_drop]
      · show r.buf.take (r.pos + n) = r.buf.take r.pos ++ (r.buf.drop r.pos).take n
        rw [List.take_add]

theorem reads_takeArray (n : Nat) : Reads cursor (takeArray n) (fun _ => True) fun a => a.1 :=
  (reads_take n).convert (fun a _ => ⟨a.1, a.2, by rw [dif_pos a.2], rfl⟩)
    fun bs h => Or.inl ⟨⟨bs, h⟩, by rw [dif_pos h], trivial, rfl⟩

theorem reads_takeU8 : Reads cursor takeU8 (fun _ => True) fun b => [b] :=
  (reads_take 1).convert (fun b _ => ⟨[b], rfl, rfl, rfl⟩) fun bs h => by
    obtain ⟨b, rfl⟩ := List.length_eq_one_iff.mp h
    exact Or.inl ⟨b, rfl, trivial, rfl⟩

theorem reads_takeU32 : Reads cursor takeU32 (fun n => n < 2 ^ 32) (leBytes 4) :=
  (reads_takeArray 4).convert
    (fun n h => ⟨⟨leBytes 4 n, length_leBytes 4 n⟩, trivial, by rw [ofLe_leBytes (by simpa using h)], rfl⟩)
    fun a _ => by
      have hlt := ofLe_lt a.1
      have hle := leBytes_ofLe a.1
      rw [a.2] at hlt hle
      exact Or.inl ⟨ofLe a.1, rfl, hlt, hle.symm⟩

theorem reads_takeU64 : Reads cursor takeU64 (fun _ => True) fun n => leBytes 8 n.toNat :=
  (reads_takeArray 8).convert
    (fun n _ => ⟨⟨leBytes 8 n.toNat, length_leBytes 8 _⟩, trivial, by
      rw [ofLe_leBytes (by have := n.toNat_lt; simpa using this), UInt64.ofNat_toNat], rfl⟩)
    fun a _ => by
      have hlt := ofLe_lt a.1
      have hle := leBytes_ofLe a.1
      rw [a.2] at hlt hle
      exact Or.inl ⟨UInt64.ofNat (ofLe a.1), rfl, trivial, by
        rw [UInt64.toNat_ofNat_of_lt' (by simpa using hlt), hle]⟩

/-- The encoding of a hexadecimal field. -/
def encHex (s : String) : Bytes := (hexDecode s).getD []

theorem encHex_encode (bs : Bytes) : encHex (hexEncode bs) = bs := by rw [encHex, hexDecode_hexEncode, Option.getD_some]

theorem reads_takeHex (n : Nat) : Reads cursor (takeHex n) (LowerHex n) encHex :=
  (reads_takeArray n).convert
    (fun s h => by
      obtain ⟨bs, hd, hl, he⟩ := hexEncode_hexDecode h
      exact ⟨⟨bs, hl⟩, trivial, by rw [he], by rw [encHex, hd, Option.getD_some]⟩)
    fun a _ => Or.inl ⟨hexEncode a.1, rfl, lowerHex_encode a, (encHex_encode a.1).symm⟩

theorem reads_takeKind : Reads cursor takeKind (fun _ => True) fun k => [kindCode k] :=
  reads_takeU8.convert (fun k _ => ⟨kindCode k, trivial, by rw [kindFromCode_kindCode], rfl⟩) fun code _ => by
    cases h : kindFromCode code with
    | ok k => exact Or.inl ⟨k, rfl, trivial, by rw [kindCode_kindFromCode h]⟩
    | error err => exact Or.inr ⟨err, rfl⟩

/-- A text whose length fits its prefix. -/
def Prefixable (s : String) : Prop := s.utf8ByteSize < 2 ^ 32

instance (s : String) : Decidable (Prefixable s) := inferInstanceAs (Decidable (_ < _))

theorem reads_takeString : Reads cursor takeString Prefixable encString := by
  refine Reads.bind_first String.utf8ByteSize (fun _ h => h) reads_takeU32 fun len hlen =>
    (reads_take len).convert ?_ ?_
  · rintro s ⟨_, hl, _⟩
    exact ⟨utf8Bytes s, hl, by simp only [fromUtf8_utf8Bytes], rfl⟩
  · intro bs h
    cases hs : fromUtf8 bs with
    | none => exact Or.inr ⟨_, rfl⟩
    | some s =>
      have hb := utf8Bytes_fromUtf8 hs
      have hl : s.utf8ByteSize = len := by rw [← length_utf8Bytes, hb, h]
      exact Or.inl ⟨s, rfl, ⟨by rw [Prefixable, hl]; exact hlen, hl, trivial⟩, hb.symm⟩

/-- The tags the format can carry. -/
def TagsForm (tags : List String) : Prop := tags.length ≤ 10000 ∧ ∀ t ∈ tags, Prefixable t

instance (tags : List String) : Decidable (TagsForm tags) := inferInstanceAs (Decidable (_ ∧ _))

theorem reads_takeTags :
    Reads cursor takeTags TagsForm (fun ts => leBytes 4 ts.length ++ ts.flatMap encString) := by
  have hlen : ∀ ts, TagsForm ts → ts.length < 2 ^ 32 := fun ts h => Nat.lt_of_le_of_lt h.1 (by decide)
  refine Reads.bind_first List.length hlen reads_takeU32 fun len _ =>
    (Reads.guard _ fun _ => reads_takeString.times len).congr (fun ts => ⟨?_, ?_⟩) fun _ _ => rfl
  · rintro ⟨hle, hl, hts⟩
    exact ⟨⟨by omega, hts⟩, hl, trivial⟩
  · rintro ⟨⟨hle, hts⟩, hl, _⟩
    exact ⟨by omega, hl, hts⟩

/-! ## The event -/

/-- The events the format can carry. -/
structure WireForm (e : MeshEvent) : Prop where
  id : LowerHex 32 e.id
  pubkey : LowerHex 32 e.pubkey
  tags : TagsForm e.tags
  content : Prefixable e.content
  sig : LowerHex 64 e.sig

/-- The bytes of an event in wire form. -/
def encEvent (e : MeshEvent) : Bytes :=
  encHex e.id ++ (encHex e.pubkey ++ (leBytes 8 e.createdAt.toNat ++ ([kindCode e.kind] ++
    ((leBytes 4 e.tags.length ++ e.tags.flatMap encString) ++ (encString e.content ++ (encHex e.sig ++
      (leBytes 8 e.powNonce.toNat ++ ([e.powDifficulty] ++ ([e.ttl] ++ [])))))))))

/-- **The reader reads exactly the events in wire form.** -/
theorem reads_readEvent : Reads cursor readEvent WireForm encEvent := by
  refine Reads.bind_first MeshEvent.id (fun _ h => h.id) (reads_takeHex 32) fun id hid => ?_
  refine Reads.bind MeshEvent.pubkey (fun _ h => h.pubkey) (reads_takeHex 32) fun pubkey hpubkey => ?_
  refine Reads.bind MeshEvent.createdAt (fun _ _ => trivial) reads_takeU64 fun createdAt _ => ?_
  refine Reads.bind MeshEvent.kind (fun _ _ => trivial) reads_takeKind fun kind _ => ?_
  refine Reads.bind MeshEvent.tags (fun _ h => h.tags) reads_takeTags fun tags htags => ?_
  refine Reads.bind MeshEvent.content (fun _ h => h.content) reads_takeString fun content hcontent => ?_
  refine Reads.bind MeshEvent.sig (fun _ h => h.sig) (reads_takeHex 64) fun sig hsig => ?_
  refine Reads.bind MeshEvent.powNonce (fun _ _ => trivial) reads_takeU64 fun powNonce _ => ?_
  refine Reads.bind MeshEvent.powDifficulty (fun _ _ => trivial) reads_takeU8 fun powDifficulty _ => ?_
  refine Reads.bind MeshEvent.ttl (fun _ _ => trivial) reads_takeU8 fun ttl _ => ?_
  refine (Reads.pure _).congr (fun e => ⟨?_, ?_⟩) fun _ _ => rfl
  · rintro rfl
    exact ⟨⟨hid, hpubkey, htags, hcontent, hsig⟩, rfl, rfl, rfl, rfl, rfl, rfl, rfl, rfl, rfl, rfl, trivial⟩
  · rintro ⟨_, rfl, rfl, rfl, rfl, rfl, rfl, rfl, rfl, rfl, rfl, _⟩
    rfl

theorem rawBytes_wireForm {e : MeshEvent} (h : WireForm e) : e.rawBytes = .ok (encEvent e) := by
  obtain ⟨id, hid, hid'⟩ := decodeHex_lowerHex h.id
  obtain ⟨pk, hpk, hpk'⟩ := decodeHex_lowerHex h.pubkey
  obtain ⟨sig, hsig, hsig'⟩ := decodeHex_lowerHex h.sig
  unfold MeshEvent.rawBytes decodeHex32 decodeHex64
  rw [hid, hpk, hsig]
  simp only [encEvent, ← hid', ← hpk', ← hsig', encHex_encode, List.append_assoc, List.cons_append, List.nil_append]

theorem toWireBytes_wireForm {e : MeshEvent} (h : WireForm e) :
    e.toWireBytes = .ok (TrafficPadding.pad (encEvent e)) := by
  rw [MeshEvent.toWireBytes, rawBytes_wireForm h]; rfl

theorem length_encHex {n : Nat} {s : String} (h : LowerHex n s) : (encHex s).length = n := by
  obtain ⟨bs, hd, hl, _⟩ := hexEncode_hexDecode h
  rw [encHex, hd, Option.getD_some, hl]

theorem length_encEvent {e : MeshEvent} (h : WireForm e) :
    (encEvent e).length = 155 + (e.tags.flatMap encString).length + e.content.utf8ByteSize := by
  simp only [encEvent, encString, List.length_append, List.length_cons, List.length_nil, length_leBytes,
    length_utf8Bytes, length_encHex h.id, length_encHex h.pubkey, length_encHex h.sig]
  omega

/-- What a node signs is in wire form. -/
theorem newSigned_wireForm (c : Primitives) (sender : Identity) (kind : OndeMessageType) {content : String}
    {tags : List String} (t : UInt64) (htags : TagsForm tags) (hcontent : Prefixable content) :
    WireForm (MeshEvent.newSigned c sender kind content tags t) :=
  ⟨lowerHex_encode _, lowerHex_encode _, htags, hcontent, lowerHex_encode _⟩

/-- No byte of the packet is set. -/
def AllZero (data : Bytes) : Prop := data ≠ [] ∧ data.all (· = 0)

theorem fromWireBytes_ok {data : Bytes} {e : MeshEvent} :
    fromWireBytes data = .ok e ↔ ¬AllZero data ∧ ∃ r, readEvent (.new data) = .ok (e, r) := by
  unfold fromWireBytes AllZero
  split
  · next h => exact ⟨fun he => (nomatch he), fun he => absurd h he.1⟩
  · next h =>
    cases hr : readEvent (.new data) with
    | error err => exact ⟨fun he => (nomatch he), fun ⟨_, r, he⟩ => (nomatch he)⟩
    | ok p =>
      obtain ⟨e', r⟩ := p
      constructor
      · intro he
        cases he
        exact ⟨h, r, rfl⟩
      · rintro ⟨_, r', he⟩
        cases he
        rfl

theorem not_allZero_append {raw : Bytes} (hne : raw ≠ []) (h : ¬AllZero raw) (t : Bytes) : ¬AllZero (raw ++ t) := by
  rintro ⟨_, hall⟩
  exact h ⟨hne, by rw [List.all_append, Bool.and_eq_true] at hall; exact hall.1⟩

theorem encEvent_ne_nil (e : MeshEvent) : encEvent e ≠ [] := by simp [encEvent]

/-- Decoding an encoded event, whatever follows. -/
theorem fromWireBytes_encEvent {e : MeshEvent} (h : WireForm e) (hz : ¬AllZero (encEvent e)) (t : Bytes) :
    fromWireBytes (encEvent e ++ t) = .ok e := by
  obtain ⟨r, hr, _⟩ := reads_readEvent.forward (.new (encEvent e ++ t)) e t h rfl
  exact fromWireBytes_ok.mpr ⟨not_allZero_append (encEvent_ne_nil e) hz t, r, hr⟩

/-- What a decoded event was encoded by. -/
theorem fromWireBytes_sound {data : Bytes} {e : MeshEvent} (h : fromWireBytes data = .ok e) :
    WireForm e ∧ ∃ r, readEvent (.new data) = .ok (e, r) ∧ r.buf = data ∧ data.take r.pos = encEvent e := by
  obtain ⟨_, r, hr⟩ := fromWireBytes_ok.mp h
  obtain ⟨hform, hrest, hused⟩ := reads_readEvent.backward _ _ _ hr
  have hused : r.buf.take r.pos = encEvent e := by simpa [cursor, new] using hused
  have hrest : data = encEvent e ++ r.buf.drop r.pos := by simpa [cursor, new] using hrest
  have hbuf : r.buf = data := by rw [hrest, ← hused, List.take_append_drop]
  exact ⟨hform, r, hr, hbuf, by rw [← hbuf, hused]⟩

/-- **The wire codec round-trips in both directions.** -/
theorem wire_round_trip :
    (∀ e : MeshEvent, WireForm e → ∃ raw, e.rawBytes = .ok raw ∧
      (¬AllZero raw → (∀ t, fromWireBytes (raw ++ t) = .ok e) ∧
        e.toWireBytes = .ok (TrafficPadding.pad raw) ∧ fromWireBytes (TrafficPadding.pad raw) = .ok e)) ∧
    (∀ data e, fromWireBytes data = .ok e → ∃ r, readEvent (.new data) = .ok (e, r) ∧ r.buf = data ∧
      e.toWireBytes = .ok (TrafficPadding.pad (data.take r.pos))) := by
  refine ⟨fun e h => ⟨encEvent e, rawBytes_wireForm h,
      fun hz => ⟨fun t => fromWireBytes_encEvent h hz t, toWireBytes_wireForm h, ?_⟩⟩,
    fun data e h => ?_⟩
  · obtain ⟨n, hn⟩ := TrafficPadding.pad_eq_append (encEvent e)
    rw [hn]
    exact fromWireBytes_encEvent h hz _
  · obtain ⟨hform, r, hr, hbuf, hused⟩ := fromWireBytes_sound h
    exact ⟨r, hr, hbuf, by rw [hused]; exact toWireBytes_wireForm hform⟩

/-- An alert whose last byte, the ttl, is zero. -/
def deadAlert : MeshEvent where
  id := hexEncode (List.replicate 32 0xab)
  pubkey := hexEncode (List.replicate 32 0x01)
  createdAt := 1700000000
  kind := .alert
  tags := ["zone:3", "é"]
  content := "OK"
  sig := hexEncode (List.replicate 64 0xcd)
  powNonce := 7
  powDifficulty := 4
  ttl := 0

theorem deadAlert_wireForm : WireForm deadAlert := by
  refine ⟨lowerHex_hexEncode (List.replicate 32 0xab), lowerHex_hexEncode (List.replicate 32 0x01), ?_, ?_,
    lowerHex_hexEncode (List.replicate 64 0xcd)⟩ <;> decide

theorem wire_round_trip_deadAlert :
    ∃ raw, deadAlert.rawBytes = .ok raw ∧ fromWireBytes (TrafficPadding.pad raw) = .ok deadAlert ∧
      ∃ r, readEvent (.new (TrafficPadding.pad raw)) = .ok (deadAlert, r) := by
  obtain ⟨raw, hraw, h⟩ := wire_round_trip.1 deadAlert deadAlert_wireForm
  have hz : ¬AllZero raw := by
    rw [rawBytes_wireForm deadAlert_wireForm] at hraw
    cases hraw
    rintro ⟨_, hall⟩
    have hid : encHex deadAlert.id = List.replicate 32 0xab := encHex_encode _
    rw [encEvent, hid, List.all_append, Bool.and_eq_true] at hall
    exact absurd hall.1 (by decide)
  obtain ⟨_, _, hpad⟩ := h hz
  obtain ⟨r, hr, _⟩ := wire_round_trip.2 _ _ hpad
  exact ⟨raw, hraw, hpad, r, hr⟩

end Onde.Protocol
