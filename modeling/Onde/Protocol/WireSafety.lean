import Onde.Lib.Mirror
import Onde.Protocol.Wire

/-!
# Decoding on machine words

The decoder of `Onde.Protocol.Wire` once more, with the cursor a word of `w` bits: the sum that is compared with the
length of the buffer wraps, and a range that starts behind its end faults.

* `mirrors_takeWord`: the bounds check is right unless the sum wraps, and then the slice faults;
* `fromWireBytesWord_calm`: decoding is safe exactly if no length prefix it meets reaches past the last address;
* `fromWireBytesWord_eq`: with 33 bits or more there is none, and the words do what the numbers do.
-/

namespace Onde.Protocol

open Onde.Lib Onde.Crypto WireReader

variable {w : Nat}

/-! ## The decoder -/

namespace WireReader

/-- The next `n` bytes. The check and the range add words; the range was checked when the cursor moves past it. -/
def takeWord (w n : Nat) : StateT WireReader (Outcome String) Bytes := fun r =>
  if r.buf.length < wadd w r.pos n then
    .error s!"wire message truncated (need {n} bytes at offset {r.pos}, have {r.buf.length - r.pos})"
  else do
    let s ← slice r.buf r.pos (wadd w r.pos n)
    if h : wadd w r.pos n ≤ r.buf.length then .ok (s, ⟨r.buf, wadd w r.pos n, h⟩) else .panic

def takeArrayWord (w n : Nat) : StateT WireReader (Outcome String) (ByteArr n) := do
  let s ← takeWord w n
  if h : s.length = n then pure ⟨s, h⟩ else fail "wire: length mismatch"

def takeU8Word (w : Nat) : StateT WireReader (Outcome String) UInt8 := do
  let s ← takeWord w 1
  pure (s.headD 0)

def takeU32Word (w : Nat) : StateT WireReader (Outcome String) Nat := do
  let s ← takeArrayWord w 4
  pure (ofLe s.1)

def takeU64Word (w : Nat) : StateT WireReader (Outcome String) UInt64 := do
  let s ← takeArrayWord w 8
  pure (UInt64.ofNat (ofLe s.1))

def takeStringWord (w : Nat) : StateT WireReader (Outcome String) String := do
  let len ← takeU32Word w
  let b ← takeWord w len
  match fromUtf8 b with
  | some s => pure s
  | none => fail s!"wire content is not valid UTF-8: {utf8Error b}"

end WireReader

def takeHexWord (w n : Nat) : StateT WireReader (Outcome String) String := do
  let a ← takeArrayWord w n
  pure (hexEncode a.1)

def takeKindWord (w : Nat) : StateT WireReader (Outcome String) OndeMessageType := do
  let code ← takeU8Word w
  match kindFromCode code with
  | .ok k => pure k
  | .error err => fail err

def takeTagsWord (w : Nat) : StateT WireReader (Outcome String) (List String) := do
  let tagsLen ← takeU32Word w
  if 10000 < tagsLen then fail s!"wire: too many tags ({tagsLen})" else repeats tagsLen (takeStringWord w)

def readEventWord (w : Nat) : StateT WireReader (Outcome String) MeshEvent := do
  let id ← takeHexWord w 32
  let pubkey ← takeHexWord w 32
  let createdAt ← takeU64Word w
  let kind ← takeKindWord w
  let tags ← takeTagsWord w
  let content ← takeStringWord w
  let sig ← takeHexWord w 64
  let powNonce ← takeU64Word w
  let powDifficulty ← takeU8Word w
  let ttl ← takeU8Word w
  pure { id, pubkey, createdAt, kind, tags, content, sig, powNonce, powDifficulty, ttl }

def fromWireBytesWord (w : Nat) (data : Bytes) : Outcome String MeshEvent :=
  if data ≠ [] ∧ data.all (· = 0) then .error "wire: all-zero packet is not a valid event"
  else do
    let (e, _) ← readEventWord w (.new data)
    .ok e

/-! ## The length prefixes -/

/-- An event up to the length prefix of one of its texts: what comes before the tags, their number, the first of them
and the length of the next text, which is the content after the last tag. -/
structure Opening where
  id : String
  pubkey : String
  createdAt : UInt64
  kind : OndeMessageType
  count : Nat
  texts : List String
  len : Nat

namespace Opening

structure Form (k : Nat) (o : Opening) : Prop where
  id : LowerHex 32 o.id
  pubkey : LowerHex 32 o.pubkey
  count : o.count < 2 ^ 32
  texts : o.texts.length = k ∧ ∀ t ∈ o.texts, Prefixable t
  len : o.len < 2 ^ 32

def bytes (o : Opening) : Bytes :=
  encHex o.id ++ (encHex o.pubkey ++ (leBytes 8 o.createdAt.toNat ++ ([kindCode o.kind] ++ (leBytes 4 o.count ++
    (o.texts.flatMap encString ++ (leBytes 4 o.len ++ []))))))

end Opening

/-- The bytes have a length prefix `len`, of a tag or of the content, that ends at `pos`; the tags are not too many. -/
def LengthMet (data : Bytes) (pos len : Nat) : Prop :=
  ¬AllZero data ∧ ∃ o : Opening, o.Form o.texts.length ∧ o.count ≤ 10000 ∧ o.texts.length ≤ o.count ∧ o.len = len ∧
    o.bytes <+: data ∧ o.bytes.length = pos

/-- Read up to the length of text `k`. -/
def readOpening (k : Nat) : StateT WireReader (Except String) Opening := do
  let id ← takeHex 32
  let pubkey ← takeHex 32
  let createdAt ← takeU64
  let kind ← takeKind
  let count ← takeU32
  let texts ← times k takeString
  let len ← takeU32
  pure { id, pubkey, createdAt, kind, count, texts, len }

theorem reads_readOpening (k : Nat) : Reads cursor (readOpening k) (Opening.Form k) Opening.bytes := by
  refine Reads.bind_first Opening.id (fun _ h => h.id) (reads_takeHex 32) fun id hid => ?_
  refine Reads.bind Opening.pubkey (fun _ h => h.pubkey) (reads_takeHex 32) fun pubkey hpubkey => ?_
  refine Reads.bind Opening.createdAt (fun _ _ => trivial) reads_takeU64 fun createdAt _ => ?_
  refine Reads.bind Opening.kind (fun _ _ => trivial) reads_takeKind fun kind _ => ?_
  refine Reads.bind Opening.count (fun _ h => h.count) reads_takeU32 fun count hcount => ?_
  refine Reads.bind Opening.texts (fun _ h => h.texts) (reads_takeString.times k) fun texts htexts => ?_
  refine Reads.bind Opening.len (fun _ h => h.len) reads_takeU32 fun len hlen => ?_
  refine (Reads.pure _).congr (fun o => ⟨?_, ?_⟩) fun _ _ => rfl
  · rintro rfl
    exact ⟨⟨hid, hpubkey, hcount, htexts, hlen⟩, rfl, rfl, rfl, rfl, rfl, rfl, rfl, trivial⟩
  · rintro ⟨_, rfl, rfl, rfl, rfl, rfl, rfl, rfl, _⟩
    rfl

/-- A reader at the start of its buffer reads a prefix of it. -/
theorem reads_new {α : Type} {m : StateT WireReader (Except String) α} {P : α → Prop} {enc : α → Bytes}
    (hm : Reads cursor m P enc) {data : Bytes} {a : α} {pos : Nat} :
    (∃ r, m (.new data) = .ok (a, r) ∧ r.pos = pos) ↔ P a ∧ enc a <+: data ∧ (enc a).length = pos := by
  have hused : ∀ {r}, m (.new data) = .ok (a, r) →
      P a ∧ data = enc a ++ cursor.rest r ∧ (enc a).length = r.pos := by
    intro r hr
    obtain ⟨hP, hrest, hused⟩ := hm.backward _ _ _ hr
    refine ⟨hP, hrest, ?_⟩
    have hlen := congrArg List.length hused
    have htaken : (cursor.used r).length = r.pos := by
      show (r.buf.take r.pos).length = r.pos
      rw [List.length_take, Nat.min_eq_left r.le]
    rw [htaken] at hlen
    exact hlen.symm
  constructor
  · rintro ⟨r, hr, rfl⟩
    obtain ⟨hP, hdata, hlen⟩ := hused hr
    exact ⟨hP, ⟨cursor.rest r, hdata.symm⟩, hlen⟩
  · rintro ⟨hP, ⟨rest, hdata⟩, rfl⟩
    obtain ⟨r, hr, _⟩ := hm.forward (.new data) a rest hP hdata.symm
    exact ⟨r, hr, (hused hr).2.2.symm⟩

theorem lengthMet_bounds {data : Bytes} {pos len : Nat} (h : LengthMet data pos len) :
    pos ≤ data.length ∧ len < 2 ^ 32 := by
  obtain ⟨_, o, hform, _, _, rfl, hhead, rfl⟩ := h
  exact ⟨hhead.length_le, hform.len⟩

/-! ## The bounds check -/

/-- The buffer fits in the address space. -/
def Fits (w : Nat) (r : WireReader) : Prop := r.buf.length < 2 ^ (w - 1)

/-- The length of the next text reaches past the last address. -/
def TextWraps (w : Nat) (r : WireReader) : Prop := ∃ len r', takeU32 r = .ok (len, r') ∧ 2 ^ w ≤ r'.pos + len

/-- So does one of the next `count` texts. -/
def SomeTextWraps (w count : Nat) (r : WireReader) : Prop :=
  ∃ k < count, ∃ texts r', times k takeString r = .ok (texts, r') ∧ TextWraps w r'

theorem take_ok {n : Nat} {r r' : WireReader} {bs : Bytes} (h : take n r = .ok (bs, r')) :
    r.pos + n ≤ r.buf.length ∧ r'.buf = r.buf ∧ r'.pos = r.pos + n := by
  unfold take at h
  split at h
  · cases h
  · next hn =>
    cases h
    exact ⟨Nat.le_of_not_lt hn, rfl, rfl⟩

/-- **The bounds check.** If the sum wraps the check passes, and the range starts behind its end. -/
theorem mirrors_takeWord {n : Nat} (hn : n < 2 ^ w) :
    Mirrors (Fits w) (takeWord w n) (take n) fun r => 2 ^ w ≤ r.pos + n where
  keeps r bs r' hr h := by
    show r'.buf.length < _
    rw [(take_ok h).2.1]
    exact hr
  faults r hr hwrap := by
    have hpos := r.le
    have hhalf : 2 ^ (w - 1) ≤ 2 ^ w := Nat.pow_le_pow_right (by decide) (Nat.sub_le w 1)
    have hr : r.buf.length < 2 ^ (w - 1) := hr
    have hsum : wadd w r.pos n = r.pos + n - 2 ^ w := by
      rw [wadd, Nat.mod_eq_sub_mod hwrap, Nat.mod_eq_of_lt (by omega)]
    have hslice : slice r.buf r.pos (wadd w r.pos n) = (.panic : Outcome String Bytes) := by
      unfold slice getRange
      rw [if_neg (by omega)]
    unfold takeWord
    rw [if_neg (by omega), hslice]
    rfl
  agrees r hr hfit := by
    have hsum : wadd w r.pos n = r.pos + n := wadd_eq (Nat.lt_of_not_le hfit)
    unfold takeWord take
    rw [hsum]
    split
    · rfl
    · next hlen =>
      have hrange : getRange r.buf r.pos (r.pos + n) = some ((r.buf.drop r.pos).take n) :=
        getRange_eq_some.mpr ⟨by omega, by omega, by rw [Nat.add_sub_cancel_left]⟩
      rw [slice_eq_ok.mpr hrange, Outcome.ok_bind, dif_pos (by omega)]
      rfl

/-! ## The readers -/

section Readers

variable (hw : 32 ≤ w)
include hw

theorem mirrors_take {n : Nat} (hn : n ≤ 64) : Mirrors (Fits w) (takeWord w n) (take n) fun _ => False := by
  have hfirst : 2 ^ 31 ≤ 2 ^ (w - 1) := Nat.pow_le_pow_right (by decide) (by omega)
  have htwice : 2 ^ (w - 1) * 2 = 2 ^ w := by rw [← Nat.pow_succ, Nat.succ_eq_add_one, Nat.sub_add_cancel (by omega)]
  refine (mirrors_takeWord (by omega)).congr fun r hr => ?_
  have hpos := r.le
  have hr : r.buf.length < 2 ^ (w - 1) := hr
  rw [iff_false]
  omega

theorem mirrors_takeArray {n : Nat} (hn : n ≤ 64) :
    Mirrors (Fits w) (takeArrayWord w n) (takeArray n) fun _ => False :=
  (mirrors_take hw hn).before fun s => by
    split
    · exact .pure _
    · exact .throw _

theorem mirrors_takeU8 : Mirrors (Fits w) (takeU8Word w) takeU8 fun _ => False :=
  (mirrors_take hw (by decide)).before fun _ => .pure _

theorem mirrors_takeU32 : Mirrors (Fits w) (takeU32Word w) takeU32 fun _ => False :=
  (mirrors_takeArray hw (by decide)).before fun _ => .pure _

theorem mirrors_takeU64 : Mirrors (Fits w) (takeU64Word w) takeU64 fun _ => False :=
  (mirrors_takeArray hw (by decide)).before fun _ => .pure _

theorem mirrors_takeHex {n : Nat} (hn : n ≤ 64) : Mirrors (Fits w) (takeHexWord w n) (takeHex n) fun _ => False :=
  (mirrors_takeArray hw hn).before fun _ => .pure _

theorem mirrors_takeKind : Mirrors (Fits w) (takeKindWord w) takeKind fun _ => False :=
  (mirrors_takeU8 hw).before fun code => by
    cases kindFromCode code with
    | ok k => exact .pure k
    | error err => exact .throw err

/-- A text faults at its length prefix. -/
theorem mirrors_takeString : Mirrors (Fits w) (takeStringWord w) takeString (TextWraps w) := by
  refine (mirrors_takeU32 hw).after fun r len r' h => ?_
  have hlen : len < 2 ^ 32 := (reads_takeU32.backward _ _ _ h).1
  refine (mirrors_takeWord (hlen.trans_le (Nat.pow_le_pow_right (by decide) hw))).before fun b => ?_
  cases fromUtf8 b with
  | some s => exact .pure s
  | none => exact .throw _

theorem mirrors_takeTags : Mirrors (Fits w) (takeTagsWord w) takeTags fun r =>
    ∃ count r₀, takeU32 r = .ok (count, r₀) ∧ ¬10000 < count ∧ SomeTextWraps w count r₀ := by
  refine (mirrors_takeU32 hw).after (G := fun count r₀ => ¬10000 < count ∧ SomeTextWraps w count r₀)
    fun _ count _ _ => ?_
  split
  · next hmany => exact (Mirrors.throw _).congr fun r _ => ⟨False.elim, fun h => h.1 hmany⟩
  · next hfew => exact ((mirrors_takeString hw).repeats count).congr fun r _ => ⟨fun h => ⟨hfew, h⟩, And.right⟩

end Readers

theorem takeTags_ok {r r' : WireReader} {tags : List String} :
    takeTags r = .ok (tags, r') ↔
      ∃ count r₀, takeU32 r = .ok (count, r₀) ∧ ¬10000 < count ∧ times count takeString r₀ = .ok (tags, r') := by
  unfold takeTags
  rw [Reads.bind_ok]
  refine exists_congr fun count => exists_congr fun r₀ => and_congr_right fun _ => ?_
  split
  · next hmany => exact ⟨nofun, fun h => absurd hmany h.1⟩
  · next hfew => exact ⟨fun h => ⟨hfew, h⟩, And.right⟩

/-- One of the tags wraps, or the content after them. -/
def FieldWraps (w : Nat) (r : WireReader) : Prop :=
  (∃ count r₀, takeU32 r = .ok (count, r₀) ∧ ¬10000 < count ∧ SomeTextWraps w count r₀) ∨
    ∃ tags r', takeTags r = .ok (tags, r') ∧ TextWraps w r'

theorem fieldWraps_iff {r : WireReader} :
    FieldWraps w r ↔ ∃ count r₀, takeU32 r = .ok (count, r₀) ∧ ¬10000 < count ∧
      ∃ k ≤ count, ∃ texts r', times k takeString r₀ = .ok (texts, r') ∧ TextWraps w r' := by
  unfold FieldWraps SomeTextWraps
  constructor
  · rintro (⟨count, r₀, hcount, hfew, k, hk, htexts⟩ | ⟨tags, r', htags, hwrap⟩)
    · exact ⟨count, r₀, hcount, hfew, k, hk.le, htexts⟩
    · obtain ⟨count, r₀, hcount, hfew, htexts⟩ := takeTags_ok.mp htags
      exact ⟨count, r₀, hcount, hfew, count, le_rfl, tags, r', htexts, hwrap⟩
  · rintro ⟨count, r₀, hcount, hfew, k, hk, texts, r', htexts, hwrap⟩
    rcases hk.lt_or_eq with hk | rfl
    · exact .inl ⟨count, r₀, hcount, hfew, k, hk, texts, r', htexts, hwrap⟩
    · exact .inr ⟨texts, r', takeTags_ok.mpr ⟨_, r₀, hcount, hfew, htexts⟩, hwrap⟩

/-- The event faults at one of its texts. -/
theorem mirrors_readEvent (hw : 32 ≤ w) : Mirrors (Fits w) (readEventWord w) readEvent fun r =>
    ∃ id r₁, takeHex 32 r = .ok (id, r₁) ∧ ∃ pubkey r₂, takeHex 32 r₁ = .ok (pubkey, r₂) ∧
      ∃ createdAt r₃, takeU64 r₂ = .ok (createdAt, r₃) ∧ ∃ kind r₄, takeKind r₃ = .ok (kind, r₄) ∧
        FieldWraps w r₄ := by
  refine (mirrors_takeHex hw (by decide)).after fun _ id _ _ => ?_
  refine (mirrors_takeHex hw (by decide)).after fun _ pubkey _ _ => ?_
  refine (mirrors_takeU64 hw).after fun _ createdAt _ _ => ?_
  refine (mirrors_takeKind hw).after fun _ kind _ _ => ?_
  refine (mirrors_takeTags hw).bind (G := fun _ => TextWraps w) fun _ tags _ _ => ?_
  refine (mirrors_takeString hw).before fun content => ?_
  refine (mirrors_takeHex hw (by decide)).before fun sig => ?_
  refine (mirrors_takeU64 hw).before fun powNonce => ?_
  refine (mirrors_takeU8 hw).before fun powDifficulty => ?_
  exact (mirrors_takeU8 hw).before fun ttl => .pure _

/-! ## Safety -/

/-- A length prefix reaches past the last address. -/
def Overreaches (w : Nat) (data : Bytes) : Prop := ∃ pos len, LengthMet data pos len ∧ 2 ^ w ≤ pos + len

theorem overreaches_iff {data : Bytes} :
    Overreaches w data ↔ ¬AllZero data ∧ ∃ id r₁, takeHex 32 (.new data) = .ok (id, r₁) ∧
      ∃ pubkey r₂, takeHex 32 r₁ = .ok (pubkey, r₂) ∧ ∃ createdAt r₃, takeU64 r₂ = .ok (createdAt, r₃) ∧
        ∃ kind r₄, takeKind r₃ = .ok (kind, r₄) ∧ FieldWraps w r₄ := by
  constructor
  · rintro ⟨pos, len, ⟨hdata, o, hform, hfew, hk, rfl, hprefix, hpos⟩, hwrap⟩
    obtain ⟨r, hr, rfl⟩ := (reads_new (reads_readOpening _)).mpr ⟨hform, hprefix, hpos⟩
    simp only [readOpening, Reads.bind_ok] at hr
    obtain ⟨id, r₁, hid, pubkey, r₂, hpubkey, createdAt, r₃, htime, kind, r₄, hkind, count, r₀, hcount,
      texts, r₅, htexts, len, r₆, hlen, hpure⟩ := hr
    cases hpure
    exact ⟨hdata, id, r₁, hid, pubkey, r₂, hpubkey, createdAt, r₃, htime, kind, r₄, hkind,
      fieldWraps_iff.mpr ⟨count, r₀, hcount, Nat.not_lt.mpr hfew, _, hk, texts, r₅, htexts, len, r, hlen, hwrap⟩⟩
  · rintro ⟨hdata, id, r₁, hid, pubkey, r₂, hpubkey, createdAt, r₃, htime, kind, r₄, hkind, hfield⟩
    obtain ⟨count, r₀, hcount, hfew, k, hk, texts, r₅, htexts, len, r, hlen, hwrap⟩ := fieldWraps_iff.mp hfield
    have hr : readOpening k (.new data) = .ok (⟨id, pubkey, createdAt, kind, count, texts, len⟩, r) := by
      simp only [readOpening, Reads.bind_ok]
      exact ⟨id, r₁, hid, pubkey, r₂, hpubkey, createdAt, r₃, htime, kind, r₄, hkind, count, r₀, hcount,
        texts, r₅, htexts, len, r, hlen, rfl⟩
    obtain ⟨hform, hprefix, hpos⟩ := (reads_new (reads_readOpening k)).mp ⟨r, hr, rfl⟩
    obtain rfl : texts.length = k := hform.texts.1
    exact ⟨r.pos, len, ⟨hdata, _, hform, Nat.le_of_not_lt hfew, hk, rfl, hprefix, hpos⟩, hwrap⟩

/-- Where no length prefix overreaches, the words do what the numbers do. -/
theorem fromWireBytesWord_of_fits (hw : 32 ≤ w) (b : Buffer w) (h : ¬Overreaches w b.bytes) :
    fromWireBytesWord w b.bytes = .ofExcept (fromWireBytes b.bytes) := by
  unfold fromWireBytesWord fromWireBytes
  split
  · rfl
  · next hdata =>
    rw [(mirrors_readEvent hw).agrees (.new b.bytes) b.length_lt fun hF => h (overreaches_iff.mpr ⟨hdata, hF⟩)]
    cases readEvent (.new b.bytes) with
    | ok p => rfl
    | error e => rfl

theorem fromWireBytesWord_of_overreaches (hw : 32 ≤ w) (b : Buffer w) (h : Overreaches w b.bytes) :
    fromWireBytesWord w b.bytes = .panic := by
  obtain ⟨hdata, hF⟩ := overreaches_iff.mp h
  have hread : ¬(b.bytes ≠ [] ∧ b.bytes.all (· = 0)) := hdata
  rw [fromWireBytesWord, if_neg hread, (mirrors_readEvent hw).faults (.new b.bytes) b.length_lt hF]
  rfl

/-- **Decoding is safe exactly if no length prefix it meets reaches past the last address.** -/
theorem fromWireBytesWord_calm (hw : 32 ≤ w) (b : Buffer w) :
    (fromWireBytesWord w b.bytes).Calm ↔ ∀ pos len, LengthMet b.bytes pos len → pos + len < 2 ^ w := by
  have hover : Overreaches w b.bytes ↔ ¬∀ pos len, LengthMet b.bytes pos len → pos + len < 2 ^ w := by
    unfold Overreaches
    push Not
    rfl
  by_cases h : Overreaches w b.bytes
  · rw [fromWireBytesWord_of_overreaches hw b h]
    exact ⟨fun hcalm => absurd hcalm Outcome.not_calm_panic, fun hall => absurd hall (hover.mp h)⟩
  · rw [fromWireBytesWord_of_fits hw b h]
    exact ⟨fun _ => not_not.mp (mt hover.mpr h), fun _ => Outcome.calm_ofExcept _⟩

/-- One tag, whose length is the largest there is. -/
def longTagPacket : Bytes := List.replicate 72 1 ++ [0, 1, 0, 0, 0, 0xff, 0xff, 0xff, 0xff]

/-- One tag of two bytes and a content of one, cut off behind it. -/
def shortTagPacket : Bytes := List.replicate 72 1 ++ [0, 1, 0, 0, 0, 2, 0, 0, 0, 0x61, 0x62, 1, 0, 0, 0, 0x63]

/-- The long tag reaches past the last address; the tag and the content of the other packet do not. -/
theorem fromWireBytesWord_calm_tags :
    (∃ pos len, LengthMet longTagPacket pos len ∧ 2 ^ 32 ≤ pos + len) ∧
    ∀ pos len, LengthMet shortTagPacket pos len → pos + len < 2 ^ 32 := by
  constructor
  · have hpanic : fromWireBytesWord 32 longTagPacket = .panic := by rfl
    by_contra hnone
    have hcalm := (fromWireBytesWord_calm (w := 32) le_rfl ⟨longTagPacket, by decide⟩).mpr fun pos len hmet =>
      Nat.lt_of_not_le fun hwrap => hnone ⟨pos, len, hmet, hwrap⟩
    exact hcalm.1 hpanic
  · have herror : fromWireBytesWord 32 shortTagPacket =
        .error "wire message truncated (need 64 bytes at offset 88, have 0)" := by rfl
    refine (fromWireBytesWord_calm (w := 32) le_rfl ⟨shortTagPacket, by decide⟩).mp ?_
    dsimp only
    rw [herror]
    exact Outcome.calm_error _

/-- **On 64 bits decoding is safe**: the words do what the numbers do. -/
theorem fromWireBytesWord_eq (hw : 33 ≤ w) (b : Buffer w) :
    fromWireBytesWord w b.bytes = .ofExcept (fromWireBytes b.bytes) := by
  refine fromWireBytesWord_of_fits (by omega) b ?_
  rintro ⟨pos, len, hmet, hwrap⟩
  obtain ⟨hpos, hlen⟩ := lengthMet_bounds hmet
  have hfirst : 2 ^ 32 ≤ 2 ^ (w - 1) := Nat.pow_le_pow_right (by decide) (by omega)
  have htwice : 2 ^ (w - 1) * 2 = 2 ^ w := by rw [← Nat.pow_succ, Nat.succ_eq_add_one, Nat.sub_add_cancel (by omega)]
  have hb := b.length_lt
  omega

theorem fromWireBytesWord_longTag : ¬∀ w ∈ [32, 64], ∀ b : Buffer w, (fromWireBytesWord w b.bytes).Calm := by
  intro h
  have hcalm := h 32 (by decide) ⟨longTagPacket, by decide⟩
  have hpanic : fromWireBytesWord 32 longTagPacket = .panic := by rfl
  rw [hpanic] at hcalm
  exact Outcome.not_calm_panic hcalm

end Onde.Protocol
