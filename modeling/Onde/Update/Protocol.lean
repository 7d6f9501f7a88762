import Mathlib.Data.List.AList
import Mathlib.Data.List.Sort
import Onde.Lib.Chunks
import Onde.Update.Wire

/-!
# The update protocol of one node

* `UpdateProtocol`: the pinned root key, the current version, the transfer in progress, the APK that waits for its
  installation, and what was installed;
* `handleAnnouncement`, `handleManifest`, `handleChunk`, `assembleAndVerify`, `installVerified`: the steps of the
  receiver, each with what it does when it succeeds (`handleManifest_ok`, `handleChunk_ok`, `installVerified_ok`);
* `buildAnnouncement`, `buildManifest`, `chunkCount`, `chunk`: the side of the announcer;
* `UpdateCall`: the calls that change the state.
-/

namespace Onde.Update

open Lib Crypto

def defaultChunkSize : UInt32 := 16 * 1024
def maxApkSize : Nat := 200 * 1024 * 1024
def maxChunks : Nat := 12800

/-- A version that was installed. -/
structure InstalledUpdate where
  version : Version
  apkSha256 : ByteArr 32
  installedAt : UInt64
  apkPath : Option String
  deriving DecidableEq

inductive ChunkStatus where
  | accepted | duplicate
  deriving DecidableEq

inductive UpdateError where
  | invalidSignature (reason : String)
  | notNewer (current offered : Version)
  | manifestMismatch
  | noPendingTransfer
  | chunkIndexOutOfBounds (index : UInt32) (expected : Nat)
  | chunkTooLarge (index : UInt32) (len max : Nat)
  | incompleteTransfer (received expected : Nat)
  | verificationFailed (reason : String)
  | installFailed (reason : String)
  deriving DecidableEq

/-- The text of an error. -/
def UpdateError.text : UpdateError → String
  | .invalidSignature m => s!"invalid signature: {m}"
  | .notNewer current offered => s!"offered version {offered.text} is not newer than current {current.text}"
  | .manifestMismatch => "manifest does not match announcement"
  | .noPendingTransfer => "no validated manifest before chunks"
  | .chunkIndexOutOfBounds index expected => s!"chunk {index} out of bounds (expected {expected} chunks)"
  | .chunkTooLarge index len max => s!"chunk {index} too large ({len} bytes, max {max})"
  | .incompleteTransfer received expected =>
    s!"incomplete transfer: {received} bytes received, expected {expected}"
  | .verificationFailed m => s!"APK verification failed: {m}"
  | .installFailed m => s!"install failed: {m}"

/-- A transfer in progress. -/
structure PendingUpdate where
  version : Version
  manifest : UpdateManifest
  manifestWire : Bytes
  manifestSignature : ByteArr 64
  peer : String
  chunks : AList fun _ : UInt32 => Bytes
  expectedChunks : Nat

/-- An APK that passed the check and waits for its installation. -/
structure VerifiedState where
  version : Version
  apkSha256 : ByteArr 32
  deriving DecidableEq

/-- The state of the protocol. -/
structure UpdateProtocol where
  rootPubkey : ByteArr 32
  currentVersion : Version
  pending : Option PendingUpdate
  lastVerified : Option VerifiedState
  installed : List InstalledUpdate

namespace PendingUpdate

/-- The length the chunk at an index may have. -/
def maxLen (t : PendingUpdate) (index : UInt32) : Nat :=
  if index.toNat = t.expectedChunks - 1 then t.manifest.apkSize.toNat - index.toNat * t.manifest.chunkSize.toNat
  else t.manifest.chunkSize.toNat

/-- Every expected chunk is there. -/
def IsFull (t : PendingUpdate) : Prop := t.chunks.keys.length = t.expectedChunks

instance (t : PendingUpdate) : Decidable t.IsFull := inferInstanceAs (Decidable (_ = _))

/-- Append the chunk at an index. -/
def addChunk (t : PendingUpdate) (apk : Bytes) (i : Nat) : Except UpdateError Bytes :=
  match t.chunks.lookup (UInt32.ofNat i) with
  | some chunk => .ok (apk ++ chunk)
  | none => .error (.incompleteTransfer t.chunks.keys.length t.expectedChunks)

/-- The chunks in the order of their indices. -/
def gather (t : PendingUpdate) : Except UpdateError Bytes := (List.range t.expectedChunks).foldlM t.addChunk []

end PendingUpdate

namespace UpdateProtocol

def new (rootPubkey : ByteArr 32) (currentVersion : Version) : UpdateProtocol :=
  ⟨rootPubkey, currentVersion, none, none, []⟩

/-! ## The announcer -/

/-- Build and sign the announcement of a version. -/
def buildAnnouncement (c : Primitives) (version : Version) (apk : Bytes) (root : Identity) (timestamp : UInt64) :
    UpdateAnnouncement × ByteArr 64 × Bytes :=
  let announcement : UpdateAnnouncement := ⟨version, UpdateAnnouncement.hashApk c apk, timestamp⟩
  (announcement, announcement.sign c root)

/-- Build and sign the manifest of an APK. -/
def buildManifest (c : Primitives) (apk : Bytes) (root : Identity) (devPubkey : ByteArr 32) (timestamp : UInt64)
    (chunkSize : UInt32) : UpdateManifest × ByteArr 64 × Bytes :=
  let manifest : UpdateManifest :=
    ⟨ApkManifest.fromApk c apk devPubkey timestamp, UInt64.ofNat apk.length, chunkSize⟩
  (manifest, manifest.sign c root)

/-- The number of chunks of an APK. -/
def chunkCount (apkLen chunkSize : Nat) : Nat := if chunkSize = 0 then 0 else divCeil apkLen chunkSize

/-- The chunk at an index. -/
def chunk (apk : Bytes) (index : UInt32) (chunkSize : Nat) : Option Bytes :=
  let start := index.toNat * chunkSize
  if apk.length ≤ start then none
  else some ((apk.take (min (start + chunkSize) apk.length)).drop start)

/-! ## The receiver -/

/-- An announcement: signed by the root key, and of a newer version. -/
def handleAnnouncement (c : Primitives) (p : UpdateProtocol) (data : Bytes) (sig : ByteArr 64) :
    Except UpdateError UpdateAnnouncement := do
  let announcement ← (UpdateAnnouncement.verify c p.rootPubkey data sig).mapError .invalidSignature
  if announcement.version ≤ p.currentVersion then .error (.notNewer p.currentVersion announcement.version)
  else pure announcement

/-- A manifest: signed by the root key and for the announced APK; it starts a transfer. -/
def handleManifest (c : Primitives) (p : UpdateProtocol) (announcement : UpdateAnnouncement) (data : Bytes)
    (sig : ByteArr 64) (peer : String) : Except UpdateError UpdateProtocol := do
  let manifest ← (UpdateManifest.verify c p.rootPubkey data sig).mapError .invalidSignature
  if manifest.apkManifest.apkHash ≠ announcement.apkSha256 then .error .manifestMismatch
  else if maxApkSize < manifest.apkSize.toNat ∨ manifest.chunkSize = 0 then
    .error (.invalidSignature "manifest size or chunk size out of bounds")
  else
    let expectedChunks := chunkCount manifest.apkSize.toNat manifest.chunkSize.toNat
    if maxChunks < expectedChunks then
      .error (.invalidSignature s!"too many chunks ({expectedChunks} > {maxChunks})")
    else pure { p with
      pending := some
        { version := announcement.version
          manifest := manifest
          manifestWire := data
          manifestSignature := sig
          peer := peer
          chunks := ∅
          expectedChunks := expectedChunks }
      -- a new transfer cancels any earlier check
      lastVerified := none }

/-- A chunk: within the bounds of the transfer; the first one at an index stays. -/
def handleChunk (p : UpdateProtocol) (index : UInt32) (data : Bytes) :
    Except UpdateError (ChunkStatus × UpdateProtocol) :=
  match p.pending with
  | none => .error .noPendingTransfer
  | some t =>
    if t.expectedChunks ≤ index.toNat then .error (.chunkIndexOutOfBounds index t.expectedChunks)
    else if t.maxLen index < data.length then .error (.chunkTooLarge index data.length (t.maxLen index))
    else if index ∈ t.chunks then .ok (.duplicate, p)
    else .ok (.accepted, { p with pending := some { t with chunks := t.chunks.insert index data } })

def chunksReceived (p : UpdateProtocol) : Nat := p.pending.elim 0 fun t => t.chunks.keys.length

def totalChunks (p : UpdateProtocol) : Nat := p.pending.elim 0 PendingUpdate.expectedChunks

/-- Put the chunks together and check the APK. From a complete file on, the transfer is used up, whether the check
succeeds or not. -/
def assembleAndVerify (c : Primitives) (p : UpdateProtocol) : Except UpdateError Bytes × UpdateProtocol :=
  match p.pending with
  | none => (.error .noPendingTransfer, p)
  | some t =>
    if ¬t.IsFull then (.error (.incompleteTransfer t.chunks.keys.length t.expectedChunks), p)
    else match t.gather with
      | .error err => (.error err, p)
      | .ok apk =>
        if apk.length ≠ t.manifest.apkSize.toNat then
          (.error (.incompleteTransfer apk.length t.manifest.apkSize.toNat), p)
        else
          let p := { p with pending := none }
          match verifyApkSignature c apk (t.manifestWire.take signedManifestLen) t.manifestSignature p.rootPubkey with
          | .error err => (.error (.verificationFailed err), p)
          | .ok _ => (.ok apk, { p with lastVerified := some ⟨t.version, UpdateAnnouncement.hashApk c apk⟩ })

/-- Keep an installed version; the current one is the latest of them. -/
def keepInstalled (p : UpdateProtocol) (installed : InstalledUpdate) : UpdateProtocol :=
  let sorted := (p.installed ++ [installed]).insertionSort fun u w => u.version ≤ w.version
  { p with
    installed := sorted
    currentVersion := (sorted.getLast?.map InstalledUpdate.version).getD p.currentVersion }

/-- Write the APK that was checked to a file, once. -/
def installVerified (c : Primitives) (p : UpdateProtocol) (apk : Bytes) (destPath : String) (installedAt : UInt64)
    (write : String → Bytes → Except String Unit) : Except UpdateError (InstalledUpdate × UpdateProtocol) :=
  match p.lastVerified with
  | none => .error .noPendingTransfer
  | some last =>
    if UpdateAnnouncement.hashApk c apk ≠ last.apkSha256 then
      .error (.verificationFailed "APK content hash mismatch (tampered APK)")
    else match write destPath apk with
      | .error err => .error (.installFailed err)
      | .ok _ =>
        let installed : InstalledUpdate := ⟨last.version, last.apkSha256, installedAt, some destPath⟩
        .ok (installed, { p.keepInstalled installed with lastVerified := none, pending := none })

/-- Keep a version the platform has installed. -/
def recordInstall (p : UpdateProtocol) (version : Version) (apkSha256 : ByteArr 32) (installedAt : UInt64)
    (apkPath : Option String) : UpdateProtocol :=
  p.keepInstalled ⟨version, apkSha256, installedAt, apkPath⟩

/-- Give up the transfer and the APK that was checked. -/
def rejectPending (p : UpdateProtocol) : UpdateProtocol := { p with pending := none, lastVerified := none }

/-! ## What the steps do -/

variable {c : Primitives} {p p' : UpdateProtocol}

/-- **An announcement is accepted exactly when** it is the signed form of a newer one. -/
theorem handleAnnouncement_ok {data : Bytes} {sig : ByteArr 64} {a : UpdateAnnouncement} :
    p.handleAnnouncement c data sig = .ok a ↔
      (data = a.toSignedBytes ∧ c.verify p.rootPubkey data sig = true) ∧ p.currentVersion < a.version := by
  unfold handleAnnouncement
  rw [bind_eq_ok]
  constructor
  · rintro ⟨b, hb, h⟩
    have hok := UpdateAnnouncement.verify_ok.mp (mapError_eq_ok.mp hb)
    obtain ⟨hnew, h⟩ := check_eq_ok.mp h
    cases h
    exact ⟨hok, not_le.mp hnew⟩
  · rintro ⟨hok, hnew⟩
    exact ⟨a, mapError_eq_ok.mpr (UpdateAnnouncement.verify_ok.mpr hok), check_eq_ok.mpr ⟨not_le.mpr hnew, rfl⟩⟩

/-- What a manifest must be to start a transfer of an announced APK. -/
structure Transferable (c : Primitives) (p : UpdateProtocol) (announcement : UpdateAnnouncement)
    (m : UpdateManifest) (data : Bytes) (sig : ByteArr 64) : Prop where
  wire : data = m.toWireBytes
  signed : c.verify p.rootPubkey m.apkManifest.toSignedBytes sig = true
  announced : m.apkManifest.apkHash = announcement.apkSha256
  size : m.apkSize.toNat ≤ maxApkSize
  chunkSize : m.chunkSize ≠ 0
  count : chunkCount m.apkSize.toNat m.chunkSize.toNat ≤ maxChunks

/-- The transfer a manifest starts. -/
def transferOf (announcement : UpdateAnnouncement) (m : UpdateManifest) (sig : ByteArr 64) (peer : String) :
    PendingUpdate :=
  ⟨announcement.version, m, m.toWireBytes, sig, peer, ∅, chunkCount m.apkSize.toNat m.chunkSize.toNat⟩

/-- **A manifest is accepted exactly when it is transferable**; it replaces any transfer and cancels any check. -/
theorem handleManifest_ok {announcement : UpdateAnnouncement} {data : Bytes} {sig : ByteArr 64} {peer : String} :
    p.handleManifest c announcement data sig peer = .ok p' ↔
      ∃ m, Transferable c p announcement m data sig ∧
        p' = { p with pending := some (transferOf announcement m sig peer), lastVerified := none } := by
  unfold handleManifest
  rw [bind_eq_ok]
  constructor
  · rintro ⟨m, hm, h⟩
    obtain ⟨rfl, hsig⟩ := UpdateManifest.verify_ok.mp (mapError_eq_ok.mp hm)
    obtain ⟨hhash, h⟩ := check_eq_ok.mp h
    obtain ⟨hbounds, h⟩ := check_eq_ok.mp h
    obtain ⟨hcount, h⟩ := check_eq_ok.mp h
    cases h
    obtain ⟨hsize, hchunk⟩ := not_or.mp hbounds
    exact ⟨m, ⟨rfl, hsig, not_not.mp hhash, not_lt.mp hsize, hchunk, not_lt.mp hcount⟩, rfl⟩
  · rintro ⟨m, hm, rfl⟩
    refine ⟨m, mapError_eq_ok.mpr (UpdateManifest.verify_ok.mpr ⟨hm.wire, hm.signed⟩), ?_⟩
    rw [if_neg (not_not.mpr hm.announced), if_neg (not_or.mpr ⟨not_lt.mpr hm.size, hm.chunkSize⟩)]
    dsimp only
    rw [if_neg (not_lt.mpr hm.count), hm.wire]
    rfl

/-- **A chunk is accepted exactly when** it is within the bounds of the transfer; a known index changes nothing. -/
theorem handleChunk_ok {index : UInt32} {data : Bytes} {status : ChunkStatus} :
    p.handleChunk index data = .ok (status, p') ↔
      ∃ t, p.pending = some t ∧ index.toNat < t.expectedChunks ∧ data.length ≤ t.maxLen index ∧
        (index ∈ t.chunks ∧ status = .duplicate ∧ p' = p ∨
          index ∉ t.chunks ∧ status = .accepted ∧
            p' = { p with pending := some { t with chunks := t.chunks.insert index data } }) := by
  unfold handleChunk
  cases p.pending with
  | none => simp
  | some t =>
    by_cases hindex : t.expectedChunks ≤ index.toNat
    · simp [hindex]
    by_cases hlen : t.maxLen index < data.length
    · simp [hindex, hlen]
    have hin := not_le.mp hindex
    have hfits := not_lt.mp hlen
    by_cases hknown : index ∈ t.chunks
    · simp [hindex, hlen, hin, hfits, hknown, eq_comm]
    · simp [hindex, hlen, hin, hfits, hknown, eq_comm]

/-- **What an assembly does**: it is refused, or finds the transfer incomplete and keeps it, or uses it up. -/
theorem assembleAndVerify_cases (c : Primitives) (p : UpdateProtocol) :
    (∃ err, p.assembleAndVerify c = (.error err, p)) ∨
    ∃ t apk, p.pending = some t ∧ t.IsFull ∧ t.gather = .ok apk ∧ apk.length = t.manifest.apkSize.toNat ∧
      ((∃ err, p.assembleAndVerify c = (.error (.verificationFailed err), { p with pending := none })) ∨
        (∃ m, verifyApkSignature c apk (t.manifestWire.take signedManifestLen) t.manifestSignature p.rootPubkey =
          .ok m) ∧
        p.assembleAndVerify c = (.ok apk,
          { p with pending := none, lastVerified := some ⟨t.version, UpdateAnnouncement.hashApk c apk⟩ })) := by
  unfold assembleAndVerify
  cases hp : p.pending with
  | none => exact .inl ⟨_, rfl⟩
  | some t =>
    dsimp only
    by_cases hfull : t.IsFull
    · rw [if_neg (not_not.mpr hfull)]
      cases hg : t.gather with
      | error err => exact .inl ⟨_, rfl⟩
      | ok apk =>
        dsimp only
        by_cases hlen : apk.length = t.manifest.apkSize.toNat
        · rw [if_neg (not_not.mpr hlen)]
          refine .inr ⟨t, apk, rfl, hfull, hg, hlen, ?_⟩
          cases hv : verifyApkSignature c apk (t.manifestWire.take signedManifestLen) t.manifestSignature
            p.rootPubkey with
          | error err => exact .inl ⟨_, rfl⟩
          | ok m => exact .inr ⟨⟨m, rfl⟩, rfl⟩
        · rw [if_pos hlen]
          exact .inl ⟨_, rfl⟩
    · rw [if_pos hfull]
      exact .inl ⟨_, rfl⟩

/-- **An installation** uses up the check of the very APK that is written. -/
theorem installVerified_ok {apk : Bytes} {destPath : String} {installedAt : UInt64}
    {write : String → Bytes → Except String Unit} {installed : InstalledUpdate} :
    p.installVerified c apk destPath installedAt write = .ok (installed, p') ↔
      ∃ last, p.lastVerified = some last ∧ c.sha256 apk = last.apkSha256 ∧ (∃ u, write destPath apk = .ok u) ∧
        installed = ⟨last.version, last.apkSha256, installedAt, some destPath⟩ ∧
        p' = { p.keepInstalled installed with lastVerified := none, pending := none } := by
  unfold installVerified
  cases p.lastVerified with
  | none => simp
  | some last =>
    by_cases hhash : UpdateAnnouncement.hashApk c apk = last.apkSha256
    · have hsha : c.sha256 apk = last.apkSha256 := hhash
      cases hw : write destPath apk with
      | error err => simp [hhash]
      | ok u =>
        constructor
        · intro h
          simp only [hhash, ne_eq, not_true_eq_false, if_false] at h
          cases h
          exact ⟨last, rfl, hsha, ⟨u, rfl⟩, rfl, rfl⟩
        · rintro ⟨_, hl, -, -, rfl, rfl⟩
          cases hl
          simp [hhash]
    · have hsha : c.sha256 apk ≠ last.apkSha256 := hhash
      simp [hhash, hsha]

@[simp] theorem keepInstalled_rootPubkey (u : InstalledUpdate) : (p.keepInstalled u).rootPubkey = p.rootPubkey := rfl

@[simp] theorem keepInstalled_pending (u : InstalledUpdate) : (p.keepInstalled u).pending = p.pending := rfl

@[simp] theorem keepInstalled_lastVerified (u : InstalledUpdate) :
    (p.keepInstalled u).lastVerified = p.lastVerified := rfl

end UpdateProtocol

/-! ## Calls -/

/-- The calls of a receiver. -/
inductive UpdateCall where
  | handleAnnouncement (data : Bytes) (sig : ByteArr 64)
  | handleManifest (announcement : UpdateAnnouncement) (data : Bytes) (sig : ByteArr 64) (peer : String)
  | handleChunk (index : UInt32) (data : Bytes)
  | assembleAndVerify
  | installVerified (apk : Bytes) (destPath : String) (installedAt : UInt64)
    (write : String → Bytes → Except String Unit)
  | recordInstall (version : Version) (apkSha256 : ByteArr 32) (installedAt : UInt64) (apkPath : Option String)
  | rejectPending

namespace UpdateCall

/-- What a call leaves behind; an error of any step but the assembly changes nothing. -/
def apply (c : Primitives) (p : UpdateProtocol) : UpdateCall → UpdateProtocol
  | .handleAnnouncement _ _ => p
  | .handleManifest announcement data sig peer => match p.handleManifest c announcement data sig peer with
    | .ok p' => p'
    | .error _ => p
  | .handleChunk index data => match p.handleChunk index data with
    | .ok r => r.2
    | .error _ => p
  | .assembleAndVerify => (p.assembleAndVerify c).2
  | .installVerified apk destPath installedAt write =>
    match p.installVerified c apk destPath installedAt write with
    | .ok r => r.2
    | .error _ => p
  | .recordInstall version apkSha256 installedAt apkPath => p.recordInstall version apkSha256 installedAt apkPath
  | .rejectPending => p.rejectPending

end UpdateCall

/-- The state after a run of calls. -/
def after (c : Primitives) (p : UpdateProtocol) (calls : List UpdateCall) : UpdateProtocol :=
  calls.foldl (UpdateCall.apply c) p

theorem after_snoc (c : Primitives) (p : UpdateProtocol) (calls : List UpdateCall) (call : UpdateCall) :
    after c p (calls ++ [call]) = call.apply c (after c p calls) := by simp [after]

/-! ## Known values -/

/-- The digest of an APK of four bytes, and what the root key signed for version 1.0.1 of it. -/
def updateValues : KnownBytes where
  publicKey := beArr 32 0x8a88e3dd7409f195fd52db2d3cba5d72ca6709bf1d94121bf3748801b40f6f5c
  digests := [(beBytes 4 0x61706b21, beArr 32 0xc9795f637869f841b490cb3608a669ad05fe47369dc0f93209e83356cd65f835)]
  signatures :=
    [(beBytes 14 0x4f4e44454e455731010000000100 ++
        beBytes 32 0xc9795f637869f841b490cb3608a669ad05fe47369dc0f93209e83356cd65f835 ++
        beBytes 8 0x00f1536500000000,
      beArr 64 (0x6dcb3fde5adc63e1ac7f29f4cbe657b5eae83f83272ff792cfe04709b2ff1a1b * 2 ^ 256 +
        0xc31000d99de9fc0b831427cc71fea05ffd9f30ca374de7f30bb874b299455200)),
     (beBytes 8 0x4f4e444541504b31 ++
        beBytes 32 0xc9795f637869f841b490cb3608a669ad05fe47369dc0f93209e83356cd65f835 ++
        beBytes 32 0x8a88e3dd7409f195fd52db2d3cba5d72ca6709bf1d94121bf3748801b40f6f5c ++
        beBytes 8 0x00f1536500000000,
      beArr 64 (0xa5d24d6a950d40465808eb56054e6fa5ea626a5befd3aee7b2146025be74497a * 2 ^ 256 +
        0x88f7e7bc31118af0f0cce6055655613a6c52f2c93653f5d293d938aca5ca5909))]

def updatePrimitives : Primitives := .ofKnownBytes updateValues

def knownApk : Bytes := utf8Bytes "apk!"

/-- The root key. -/
def knownRoot : ByteArr 32 := updatePrimitives.publicKey (Identity.ofByte 1).seed

def knownAnnouncement : UpdateAnnouncement × ByteArr 64 × Bytes :=
  UpdateProtocol.buildAnnouncement updatePrimitives ⟨1, 0, 1⟩ knownApk (.ofByte 1) 1700000000

/-- The manifest, for chunks of two bytes. -/
def knownManifest : UpdateManifest × ByteArr 64 × Bytes :=
  UpdateProtocol.buildManifest updatePrimitives knownApk (.ofByte 1) knownRoot 1700000000 2

/-- A receiver of version 1.0.0, -/
def knownReceiver : UpdateProtocol := .new knownRoot ⟨1, 0, 0⟩

/-- and the transfer that the manifest starts there. -/
def knownTransfer : PendingUpdate :=
  UpdateProtocol.transferOf knownAnnouncement.1 knownManifest.1 knownManifest.2.1 "peer"

theorem known_announced :
    knownReceiver.handleAnnouncement updatePrimitives knownAnnouncement.2.2 knownAnnouncement.2.1 =
      .ok knownAnnouncement.1 :=
  UpdateProtocol.handleAnnouncement_ok.mpr ⟨⟨rfl, by decide +kernel⟩, by decide +kernel⟩

theorem known_transferable : UpdateProtocol.Transferable updatePrimitives knownReceiver knownAnnouncement.1
    knownManifest.1 knownManifest.2.2 knownManifest.2.1 :=
  ⟨rfl, by decide +kernel, rfl, by decide +kernel, by decide +kernel, by decide +kernel⟩

theorem known_accepted : knownReceiver.handleManifest updatePrimitives knownAnnouncement.1 knownManifest.2.2
    knownManifest.2.1 "peer" = .ok { knownReceiver with pending := some knownTransfer, lastVerified := none } :=
  UpdateProtocol.handleManifest_ok.mpr ⟨_, known_transferable, rfl⟩

end Onde.Update
