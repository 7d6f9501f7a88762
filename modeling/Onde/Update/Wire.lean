import Mathlib.Data.Prod.Lex
import Onde.Crypto.Primitives
import Onde.Lib.Except
import Onde.Lib.Fields
import Onde.Lib.Text

/-!
# The signed messages of an update

* `Version`: three components, ordered from the first;
* `UpdateAnnouncement`: 54 signed bytes, the version and the hash of the APK (`UpdateAnnouncement.verify_ok`);
* `ApkManifest`: 80 signed bytes, the hash, the build key and the date; `UpdateManifest` adds the unsigned sizes
  (`UpdateManifest.verify_ok`);
* `verifyApkSignature`: the check of a complete APK against its manifest (`verifyApkSignature_ok`).
-/

namespace Onde.Update

open Lib Crypto

/-! ## Versions -/

structure Version where
  major : UInt16
  minor : UInt16
  patch : UInt16
  deriving DecidableEq

namespace Version

def key (v : Version) : Nat ×ₗ Nat ×ₗ Nat := toLex (v.major.toNat, toLex (v.minor.toNat, v.patch.toNat))

theorem key_injective : Function.Injective key := by
  rintro ⟨a, b, c⟩ ⟨a', b', c'⟩ h
  simp only [key, EmbeddingLike.apply_eq_iff_eq, Prod.mk.injEq, UInt16.toNat_inj] at h
  obtain ⟨rfl, rfl, rfl⟩ := h
  rfl

instance : LinearOrder Version := LinearOrder.lift' key key_injective

/-- One component of a version. -/
def parseComponent (s : List Char) (what : String) : Except String UInt16 :=
  match parseUnsigned 65535 s with
  | some n => .ok (UInt16.ofNat n)
  | none => .error s!"invalid {what} version component: {String.ofList s}"

/-- Parse `"1.2.3"`; the three components are required. -/
def parse (s : String) : Except String Version :=
  match (trim s.toList).splitOn '.' with
  | [] => .error "missing major version"
  | [_] => .error "missing minor version"
  | [_, _] => .error "missing patch version"
  | _ :: _ :: _ :: _ :: _ => .error "too many version components"
  | [major, minor, patch] => do
    let major ← parseComponent major "major"
    let minor ← parseComponent minor "minor"
    let patch ← parseComponent patch "patch"
    pure ⟨major, minor, patch⟩

def text (v : Version) : String := s!"{v.major}.{v.minor}.{v.patch}"

example : parse "2.3.4" = .ok ⟨2, 3, 4⟩ ∧ parse "1.2" = .error "missing patch version" ∧
    (⟨2, 3, 99⟩ : Version) < ⟨2, 4, 0⟩ := by decide +kernel

end Version

/-! ## Announcements -/

def announcementMagic : Bytes := utf8Bytes "ONDENEW1"
def apkMagic : Bytes := utf8Bytes "ONDEAPK1"
def signedManifestLen : Nat := 8 + 32 + 32 + 8
def manifestWireLen : Nat := signedManifestLen + 8 + 4

@[simp] theorem length_announcementMagic : announcementMagic.length = 8 := by decide

@[simp] theorem length_apkMagic : apkMagic.length = 8 := by decide

/-- The array in a field of the message. -/
def arrAt (n : Nat) (data : Bytes) (off : Nat) (h : off + n ≤ data.length) : ByteArr n :=
  ⟨field data off n, length_field h⟩

/-- A new version is available: `ONDENEW1`, the version, the hash of the APK, the time. -/
structure UpdateAnnouncement where
  version : Version
  apkSha256 : ByteArr 32
  timestamp : UInt64
  deriving DecidableEq

namespace UpdateAnnouncement

def toSignedBytes (a : UpdateAnnouncement) : Bytes :=
  announcementMagic ++ (le16 a.version.major ++ (le16 a.version.minor ++ (le16 a.version.patch ++
    (a.apkSha256.1 ++ le64 a.timestamp))))

/-- Sign with the root key. -/
def sign (c : Primitives) (root : Identity) (a : UpdateAnnouncement) : ByteArr 64 × Bytes :=
  (c.sign root.seed a.toSignedBytes, a.toSignedBytes)

/-- Check the signature under the pinned root key and parse. -/
def verify (c : Primitives) (rootPubkey : ByteArr 32) (data : Bytes) (sig : ByteArr 64) :
    Except String UpdateAnnouncement :=
  if h : data.length = 8 + 6 + 32 + 8 ∧ data.take 8 = announcementMagic then
    if !c.verify rootPubkey data sig then .error "Update announcement signature invalid or untrusted"
    else .ok
      { version := ⟨u16At data 8, u16At data 10, u16At data 12⟩
        apkSha256 := arrAt 32 data (8 + 6) (by omega)
        timestamp := u64At data (8 + 6 + 32) }
  else .error "Malformed update announcement"

def hashApk (c : Primitives) (apk : Bytes) : ByteArr 32 := c.sha256 apk

@[simp] theorem length_toSignedBytes (a : UpdateAnnouncement) : a.toSignedBytes.length = 54 := by
  simp [toSignedBytes, a.apkSha256.2]

/-- Every field of the signed bytes is where the parser looks for it. -/
theorem fields (a : UpdateAnnouncement) :
    a.toSignedBytes.take 8 = announcementMagic ∧ field a.toSignedBytes 8 2 = le16 a.version.major ∧
      field a.toSignedBytes 10 2 = le16 a.version.minor ∧ field a.toSignedBytes 12 2 = le16 a.version.patch ∧
      field a.toSignedBytes 14 32 = a.apkSha256.1 ∧ field a.toSignedBytes 46 8 = le64 a.timestamp := by
  have hhash := a.apkSha256.2
  have hlast := field_whole (length_le64 a.timestamp)
  refine ⟨?_, ?_, ?_, ?_, ?_, ?_⟩ <;>
    simp [toSignedBytes, field_right, field_left, hhash, hlast]

/-- **An announcement is accepted exactly when it is the signed form of what is parsed**, and its signature verifies. -/
theorem verify_ok {c : Primitives} {rootPubkey : ByteArr 32} {data : Bytes} {sig : ByteArr 64}
    {a : UpdateAnnouncement} :
    verify c rootPubkey data sig = .ok a ↔ data = a.toSignedBytes ∧ c.verify rootPubkey data sig = true := by
  constructor
  · intro h
    unfold verify at h
    split at h
    · next hform =>
      split at h
      · cases h
      next hsig =>
      cases h
      refine ⟨?_, by simpa using hsig⟩
      obtain ⟨hlen, hmagic⟩ := hform
      rw [toSignedBytes]
      dsimp only [arrAt]
      rw [le16_u16At (by omega), le16_u16At (by omega), le16_u16At (by omega), le64_u64At (by omega), ← hmagic]
      have hend : data.drop (8 + 6 + 32 + 8) = [] := List.drop_eq_nil_of_le (Nat.le_of_eq hlen)
      conv_lhs => rw [← List.take_append_drop 8 data]
      rw [field_split data 8 2, field_split data 10 2, field_split data 12 2, field_split data 14 32,
        field_split data 46 8, hend, List.append_nil]
    · cases h
  · rintro ⟨rfl, hsig⟩
    obtain ⟨hmagic, hmajor, hminor, hpatch, hhash, htime⟩ := a.fields
    unfold verify
    rw [dif_pos ⟨a.length_toSignedBytes, hmagic⟩, hsig, u16At_of_field hmajor, u16At_of_field hminor,
      u16At_of_field hpatch, u64At_of_field htime]
    have harr : arrAt 32 a.toSignedBytes (8 + 6) (by simp) = a.apkSha256 := Subtype.ext hhash
    simp [harr]

end UpdateAnnouncement

/-! ## Manifests -/

/-- What the root key signs of an APK: its hash, the key of the build, the time. -/
structure ApkManifest where
  apkHash : ByteArr 32
  devPubkey : ByteArr 32
  timestamp : UInt64
  deriving DecidableEq

namespace ApkManifest

def toSignedBytes (m : ApkManifest) : Bytes :=
  apkMagic ++ (m.apkHash.1 ++ (m.devPubkey.1 ++ le64 m.timestamp))

/-- Sign with the root key. -/
def sign (c : Primitives) (root : Identity) (m : ApkManifest) : ByteArr 64 × Bytes :=
  (c.sign root.seed m.toSignedBytes, m.toSignedBytes)

/-- Check the form and the signature under the pinned root key. -/
def verify (c : Primitives) (rootPubkey : ByteArr 32) (data : Bytes) (sig : ByteArr 64) : Bool :=
  if data.length < 8 ∨ data.take 8 ≠ apkMagic then false
  else if data.length ≠ 8 + 32 + 32 + 8 then false
  else c.verify rootPubkey data sig

/-- The manifest of an APK. -/
def fromApk (c : Primitives) (apk : Bytes) (devPubkey : ByteArr 32) (timestamp : UInt64) : ApkManifest :=
  ⟨c.sha256 apk, devPubkey, timestamp⟩

/-- The fields after the magic. -/
def parse (data : Bytes) (h : data.length = 8 + 32 + 32 + 8) : ApkManifest where
  apkHash := arrAt 32 data 8 (by omega)
  devPubkey := arrAt 32 data 40 (by omega)
  timestamp := u64At data 72

@[simp] theorem length_toSignedBytes (m : ApkManifest) : m.toSignedBytes.length = 80 := by
  simp [toSignedBytes, m.apkHash.2, m.devPubkey.2]

theorem parse_toSignedBytes (m : ApkManifest) : m.toSignedBytes.take 8 = apkMagic ∧
    parse m.toSignedBytes (by simp) = m := by
  have h₁ := m.apkHash.2
  have h₂ := m.devPubkey.2
  have hlast := field_whole (length_le64 m.timestamp)
  have hhash : arrAt 32 m.toSignedBytes 8 (by simp) = m.apkHash :=
    Subtype.ext (by simp [arrAt, toSignedBytes, field_right, field_left, h₁])
  have hdev : arrAt 32 m.toSignedBytes 40 (by simp) = m.devPubkey :=
    Subtype.ext (by simp [arrAt, toSignedBytes, field_right, field_left, h₁, h₂])
  have htime : u64At m.toSignedBytes 72 = m.timestamp :=
    u64At_of_field (by simp [toSignedBytes, field_right, h₁, h₂, hlast])
  refine ⟨by simp [toSignedBytes], ?_⟩
  rw [parse, hhash, hdev, htime]

theorem toSignedBytes_injective {m m' : ApkManifest} (h : m.toSignedBytes = m'.toSignedBytes) : m = m' := by
  have hparse := m.parse_toSignedBytes.2
  simp only [h] at hparse
  exact hparse.symm.trans m'.parse_toSignedBytes.2

theorem toSignedBytes_parse {data : Bytes} (h : data.length = 8 + 32 + 32 + 8) (hmagic : data.take 8 = apkMagic) :
    (parse data h).toSignedBytes = data := by
  have hend : data.drop (72 + 8) = [] := List.drop_eq_nil_of_le (Nat.le_of_eq h)
  rw [toSignedBytes, parse, ← hmagic]
  dsimp only [arrAt]
  rw [le64_u64At (by omega)]
  conv_rhs => rw [← List.take_append_drop 8 data]
  rw [field_split data 8 32, field_split data 40 32, field_split data 72 8, hend, List.append_nil]

theorem verify_iff {c : Primitives} {rootPubkey : ByteArr 32} {data : Bytes} {sig : ByteArr 64} :
    verify c rootPubkey data sig = true ↔
      data.length = 8 + 32 + 32 + 8 ∧ data.take 8 = apkMagic ∧ c.verify rootPubkey data sig = true := by
  unfold verify
  by_cases hlen : data.length = 8 + 32 + 32 + 8 <;> by_cases hmagic : data.take 8 = apkMagic <;>
    simp [hlen, hmagic]

end ApkManifest

/-- The manifest as it is sent: the signed one, and the sizes of the transfer, which are not signed. -/
structure UpdateManifest where
  apkManifest : ApkManifest
  apkSize : UInt64
  chunkSize : UInt32
  deriving DecidableEq

/-- Parse the signed manifest. -/
def parseSignedManifest (data : Bytes) : Except String ApkManifest :=
  if h : data.length = signedManifestLen ∧ data.take 8 = apkMagic then .ok (ApkManifest.parse data h.1)
  else .error "Malformed signed manifest"

namespace UpdateManifest

def toWireBytes (m : UpdateManifest) : Bytes := m.apkManifest.toSignedBytes ++ (le64 m.apkSize ++ le32 m.chunkSize)

/-- Sign with the root key; the signature covers the signed manifest only. -/
def sign (c : Primitives) (root : Identity) (m : UpdateManifest) : ByteArr 64 × Bytes :=
  ((m.apkManifest.sign c root).1, m.toWireBytes)

/-- Check the signature under the pinned root key and parse. -/
def verify (c : Primitives) (rootPubkey : ByteArr 32) (data : Bytes) (sig : ByteArr 64) :
    Except String UpdateManifest :=
  if data.length ≠ manifestWireLen then .error "Malformed update manifest"
  else if !ApkManifest.verify c rootPubkey (data.take signedManifestLen) sig then
    .error "Update manifest signature invalid or untrusted"
  else do
    let apkManifest ← parseSignedManifest (data.take signedManifestLen)
    pure ⟨apkManifest, u64At data signedManifestLen, u32At data (signedManifestLen + 8)⟩

@[simp] theorem length_toWireBytes (m : UpdateManifest) : m.toWireBytes.length = 92 := by
  simp [toWireBytes]

/-- The first bytes are the signed manifest. -/
@[simp] theorem take_toWireBytes (m : UpdateManifest) :
    m.toWireBytes.take signedManifestLen = m.apkManifest.toSignedBytes := by
  simp [toWireBytes, signedManifestLen]

theorem toWireBytes_injective {m m' : UpdateManifest} (h : m.toWireBytes = m'.toWireBytes) : m = m' := by
  obtain ⟨a, size, chunk⟩ := m
  obtain ⟨a', size', chunk'⟩ := m'
  obtain ⟨hsigned, hsizes⟩ := List.append_inj h (by simp)
  obtain ⟨hsize, hchunk⟩ := List.append_inj hsizes (by simp)
  have ha : a = a' := ApkManifest.toSignedBytes_injective hsigned
  have hs : size = size' := le64_injective hsize
  have hk : chunk = chunk' := le32_injective hchunk
  rw [ha, hs, hk]

/-- **A manifest is accepted exactly when it is the wire form of what is parsed**, and the signature of its signed
part verifies. -/
theorem verify_ok {c : Primitives} {rootPubkey : ByteArr 32} {data : Bytes} {sig : ByteArr 64}
    {m : UpdateManifest} :
    verify c rootPubkey data sig = .ok m ↔
      data = m.toWireBytes ∧ c.verify rootPubkey m.apkManifest.toSignedBytes sig = true := by
  constructor
  · intro h
    unfold verify at h
    split at h
    · cases h
    next hlen =>
    split at h
    · cases h
    next hsig =>
    obtain ⟨apkManifest, hparse, h⟩ := bind_eq_ok.mp h
    cases h
    obtain ⟨-, hmagic, hver⟩ := ApkManifest.verify_iff.mp (by simpa using hsig)
    have hlen : data.length = 92 := not_not.mp hlen
    have h80 : (data.take signedManifestLen).length = signedManifestLen := by
      simp [signedManifestLen, hlen]
    rw [parseSignedManifest, dif_pos ⟨h80, hmagic⟩] at hparse
    cases hparse
    have hsigned := ApkManifest.toSignedBytes_parse h80 hmagic
    refine ⟨?_, by rw [hsigned]; exact hver⟩
    have hend : data.drop (88 + 4) = [] := List.drop_eq_nil_of_le (Nat.le_of_eq hlen)
    rw [toWireBytes]
    dsimp only
    rw [hsigned, le64_u64At (by simp [signedManifestLen, hlen]), le32_u32At (by simp [signedManifestLen, hlen])]
    conv_lhs => rw [← List.take_append_drop signedManifestLen data]
    rw [field_split data signedManifestLen 8, field_split data (signedManifestLen + 8) 4]
    rw [show signedManifestLen + 8 + 4 = 88 + 4 from rfl, hend, List.append_nil]
  · rintro ⟨rfl, hsig⟩
    obtain ⟨hmagic, hparse⟩ := m.apkManifest.parse_toSignedBytes
    have hver : ApkManifest.verify c rootPubkey m.apkManifest.toSignedBytes sig = true :=
      ApkManifest.verify_iff.mpr ⟨by simp, hmagic, hsig⟩
    have hparse' : parseSignedManifest m.apkManifest.toSignedBytes = .ok m.apkManifest := by
      rw [parseSignedManifest, dif_pos ⟨by simp [signedManifestLen], hmagic⟩]
      exact congrArg _ hparse
    have hlast := field_whole (length_le32 m.chunkSize)
    have hsize : u64At m.toWireBytes signedManifestLen = m.apkSize :=
      u64At_of_field (by simp [toWireBytes, signedManifestLen, field_right, field_left])
    have hchunk : u32At m.toWireBytes (signedManifestLen + 8) = m.chunkSize :=
      u32At_of_field (by simp [toWireBytes, signedManifestLen, field_right, hlast])
    have hlen : m.toWireBytes.length = manifestWireLen := m.length_toWireBytes
    unfold verify
    rw [if_neg (not_not.mpr hlen), take_toWireBytes, hver, hparse', hsize, hchunk]
    rfl

end UpdateManifest

/-! ## The check of a complete APK -/

/-- The signature under the pinned root key, the form of the manifest, and the hash of the APK. -/
def verifyApkSignature (c : Primitives) (apk manifestBytes : Bytes) (sig : ByteArr 64) (rootPubkey : ByteArr 32) :
    Except String ApkManifest :=
  if !ApkManifest.verify c rootPubkey manifestBytes sig then
    .error "APK signature invalid or signed by an untrusted key"
  else if h : manifestBytes.length = 8 + 32 + 32 + 8 ∧ manifestBytes.take 8 = apkMagic then
    -- the crypto module reads the fields by itself
    let manifest : ApkManifest :=
      { apkHash := arrAt 32 manifestBytes 8 (by omega)
        devPubkey := arrAt 32 manifestBytes 40 (by omega)
        timestamp := u64At manifestBytes 72 }
    if c.sha256 apk ≠ manifest.apkHash then .error "APK content hash mismatch (tampered APK)"
    else .ok manifest
  else .error "Malformed APK manifest"

/-- **The check of a signed manifest comes down to the hash.** -/
theorem verifyApkSignature_signed {c : Primitives} {apk : Bytes} {m : ApkManifest} {sig : ByteArr 64}
    {rootPubkey : ByteArr 32} (hsig : c.verify rootPubkey m.toSignedBytes sig = true) :
    verifyApkSignature c apk m.toSignedBytes sig rootPubkey =
      if c.sha256 apk = m.apkHash then .ok m else .error "APK content hash mismatch (tampered APK)" := by
  obtain ⟨hmagic, hparse⟩ := m.parse_toSignedBytes
  have hver : ApkManifest.verify c rootPubkey m.toSignedBytes sig = true :=
    ApkManifest.verify_iff.mpr ⟨by simp, hmagic, hsig⟩
  have hform : m.toSignedBytes.length = 8 + 32 + 32 + 8 ∧ m.toSignedBytes.take 8 = apkMagic := ⟨by simp, hmagic⟩
  have hapk : arrAt 32 m.toSignedBytes 8 (by simp) = m.apkHash := congrArg ApkManifest.apkHash hparse
  have hdev : arrAt 32 m.toSignedBytes 40 (by simp) = m.devPubkey := congrArg ApkManifest.devPubkey hparse
  have htime : u64At m.toSignedBytes 72 = m.timestamp := congrArg ApkManifest.timestamp hparse
  unfold verifyApkSignature
  rw [hver, dif_pos hform]
  by_cases hhash : c.sha256 apk = m.apkHash <;> simp [hapk, hdev, htime, hhash]

end Onde.Update
