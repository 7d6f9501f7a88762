import Onde.Lib.Bytes

/-!
# Keys, signatures and traffic padding

SHA-256 and Ed25519 are parameters (`Primitives`); what the program relies on is stated separately
(`Primitives.Lawful`). `TrafficPadding.pad` appends zeros up to the bucket (`pad_eq_append`).
-/

namespace Onde.Crypto

open Onde.Lib

/-- A fixed-size array of bytes. -/
abbrev ByteArr (n : Nat) := { bs : Bytes // bs.length = n }

/-- The primitives: the hash, and the signature scheme with its key derivation. -/
structure Primitives where
  sha256 : Bytes → ByteArr 32
  publicKey : ByteArr 32 → ByteArr 32
  sign : ByteArr 32 → Bytes → ByteArr 64
  verify : ByteArr 32 → Bytes → ByteArr 64 → Bool

/-- A signature made with a key verifies under its public key. -/
structure Primitives.Lawful (c : Primitives) : Prop where
  verify_sign : ∀ seed data, c.verify (c.publicKey seed) data (c.sign seed data) = true

/-- A node's signing key. -/
structure Identity where
  seed : ByteArr 32

/-- The Ed25519 public key in hexadecimal. -/
def Identity.pubkeyHex (c : Primitives) (i : Identity) : String := hexEncode (c.publicKey i.seed).1

/-- Decode exactly `n` bytes of hexadecimal text. -/
def decodeHex (n : Nat) (s : String) : Option (ByteArr n) :=
  match hexDecode s with
  | some bs => if h : bs.length = n then some ⟨bs, h⟩ else none
  | none => none

def decodeHex32 (s : String) : Option (ByteArr 32) := decodeHex 32 s

def decodeHex64 (s : String) : Option (ByteArr 64) := decodeHex 64 s

theorem decodeHex_hexEncode {n : Nat} (a : ByteArr n) : decodeHex n (hexEncode a.1) = some a := by
  simp [decodeHex, hexDecode_hexEncode, a.2]

/-- Lower-case digits are the encoding of what they decode to. -/
theorem decodeHex_lowerHex {n : Nat} {s : String} (h : LowerHex n s) :
    ∃ a : ByteArr n, decodeHex n s = some a ∧ hexEncode a.1 = s := by
  obtain ⟨bs, hd, hl, he⟩ := hexEncode_hexDecode h
  exact ⟨⟨bs, hl⟩, by simp [decodeHex, hd, hl], he⟩

theorem lowerHex_encode {n : Nat} (a : ByteArr n) : LowerHex n (hexEncode a.1) := by
  have := lowerHex_hexEncode a.1
  rwa [a.2] at this

/-! ## Known values -/

/-- The `n` bytes of a hexadecimal text. -/
def bytesOfHex (n : Nat) (s : String) : ByteArr n := (decodeHex n s).getD ⟨List.replicate n 0, List.length_replicate⟩

theorem hexEncode_bytesOfHex {n : Nat} {s : String} (h : LowerHex n s) : hexEncode (bytesOfHex n s).1 = s := by
  obtain ⟨a, hd, he⟩ := decodeHex_lowerHex h
  rw [bytesOfHex, hd, Option.getD_some, he]

/-- Values of the primitives: seeds with their public keys, texts with their digests, and for a public key and a text
the signature, all in hexadecimal. -/
structure KnownValues where
  keys : List (String × String)
  digests : List (String × String)
  signatures : List (String × String × String)

/-- The digest of a text. -/
def KnownValues.digest (k : KnownValues) (data : Bytes) : String :=
  ((k.digests.find? fun x => utf8Bytes x.1 = data).map Prod.snd).getD ""

/-- Two digests of texts of different sizes are told apart. -/
theorem KnownValues.digest_pair {k : KnownValues} {s t d e : String} {rest : List (String × String)}
    (hk : k.digests = (s, d) :: (t, e) :: rest)
    (hlt : s.utf8ByteSize < t.utf8ByteSize) : k.digest (utf8Bytes s) = d ∧ k.digest (utf8Bytes t) = e := by
  have hne : utf8Bytes s ≠ utf8Bytes t := by
    intro h
    have hl := congrArg List.length h
    rw [length_utf8Bytes, length_utf8Bytes] at hl
    exact absurd hl (Nat.ne_of_lt hlt)
  constructor
  · simp [digest, hk]
  · simp [digest, hk, hne]

/-- The public key of a seed. -/
def KnownValues.key (k : KnownValues) (seed : Bytes) : String :=
  ((k.keys.find? fun x => x.1 = hexEncode seed).map Prod.snd).getD ""

/-- The signature of a text under a public key. -/
def KnownValues.signature (k : KnownValues) (pk data : Bytes) : String :=
  ((k.signatures.find? fun x => x.1 = hexEncode pk ∧ utf8Bytes x.2.1 = data).map fun x => x.2.2).getD ""

/-- The primitives that take the known values. -/
def Primitives.ofKnown (k : KnownValues) : Primitives where
  sha256 data := bytesOfHex 32 (k.digest data)
  publicKey seed := bytesOfHex 32 (k.key seed.1)
  sign seed data := bytesOfHex 64 (k.signature (bytesOfHex 32 (k.key seed.1)).1 data)
  verify pk data sig := bytesOfHex 64 (k.signature pk.1 data) = sig

theorem Primitives.ofKnown_lawful (k : KnownValues) : (ofKnown k).Lawful := ⟨fun _ _ => decide_eq_true rfl⟩

/-- The array whose bytes are a number, most significant first. -/
def beArr (n v : Nat) : ByteArr n := ⟨beBytes n v, length_beBytes n v⟩

/-- Values of the primitives for one key: its public key, digests, and signatures made with it. -/
structure KnownBytes where
  publicKey : ByteArr 32
  digests : List (Bytes × ByteArr 32)
  signatures : List (Bytes × ByteArr 64)

/-- The primitives that take the known values of one key; no other signature verifies. -/
def Primitives.ofKnownBytes (k : KnownBytes) : Primitives where
  sha256 data := ((k.digests.find? fun x => x.1 = data).map Prod.snd).getD (beArr 32 0)
  publicKey _ := k.publicKey
  sign _ data := ((k.signatures.find? fun x => x.1 = data).map Prod.snd).getD (beArr 64 0)
  verify pk data sig := decide (pk = k.publicKey ∧ (data, sig) ∈ k.signatures)

/-- The identity whose seed repeats one byte. -/
def Identity.ofByte (b : UInt8) : Identity := ⟨⟨List.replicate 32 b, List.length_replicate⟩⟩

/-- The known key pairs of `ofByte 1` and `ofByte 2`. -/
def knownKeys : List (String × String) :=
  [("0101010101010101010101010101010101010101010101010101010101010101",
    "8a88e3dd7409f195fd52db2d3cba5d72ca6709bf1d94121bf3748801b40f6f5c"),
   ("0202020202020202020202020202020202020202020202020202020202020202",
    "8139770ea87d175f56a35466c34c7ecccb8d8a91b4ee37a25df60f5b8fc9b394")]

theorem knownKeys_lowerHex : ∀ x ∈ knownKeys, LowerHex 32 x.2 :=
  List.forall_mem_cons.mpr ⟨lowerHex_ofList rfl rfl, List.forall_mem_singleton.mpr (lowerHex_ofList rfl rfl)⟩

/-- The public key of a seed is the listed one. -/
theorem Identity.pubkeyHex_ofKnown {k : KnownValues} {i : Identity} {x : String × String}
    (hx : k.keys.find? (fun x => x.1 = hexEncode i.seed.1) = some x) (hlow : LowerHex 32 x.2) :
    i.pubkeyHex (.ofKnown k) = x.2 := by
  have hkey : k.key i.seed.1 = x.2 := by rw [KnownValues.key, hx, Option.map_some, Option.getD_some]
  have hpub : i.pubkeyHex (.ofKnown k) = hexEncode (bytesOfHex 32 (k.key i.seed.1)).1 := rfl
  rw [hpub, hkey, hexEncode_bytesOfHex hlow]

theorem knownKeys_one {k : KnownValues} (hk : k.keys = knownKeys) : (Identity.ofByte 1).pubkeyHex (.ofKnown k) =
    "8a88e3dd7409f195fd52db2d3cba5d72ca6709bf1d94121bf3748801b40f6f5c" :=
  Identity.pubkeyHex_ofKnown (x := knownKeys[0]) (by rw [hk]; rfl) (knownKeys_lowerHex _ (List.getElem_mem _))

theorem knownKeys_two {k : KnownValues} (hk : k.keys = knownKeys) : (Identity.ofByte 2).pubkeyHex (.ofKnown k) =
    "8139770ea87d175f56a35466c34c7ecccb8d8a91b4ee37a25df60f5b8fc9b394" :=
  Identity.pubkeyHex_ofKnown (x := knownKeys[1]) (by rw [hk]; rfl) (knownKeys_lowerHex _ (List.getElem_mem _))

/-! ## Traffic padding -/

namespace TrafficPadding

def buckets : List Nat := [256, 1024, 4096, 16384]

/-- The least bucket that holds `len` bytes, or the largest. -/
def bucketFor (len : Nat) : Nat := (buckets.find? fun b => len ≤ b).getD 16384

/-- Zeros up to the bucket; a longer message is left as it is. -/
def pad (data : Bytes) : Bytes := data ++ List.replicate (bucketFor data.length - data.length) 0

theorem pad_eq_append (data : Bytes) : ∃ n, pad data = data ++ List.replicate n 0 := ⟨_, rfl⟩

theorem length_pad (data : Bytes) : (pad data).length = max data.length (bucketFor data.length) := by
  rw [pad, List.length_append, List.length_replicate]
  omega

example : bucketFor 300 = 1024 ∧ bucketFor 20000 = 16384 := by decide

end TrafficPadding

end Onde.Crypto
