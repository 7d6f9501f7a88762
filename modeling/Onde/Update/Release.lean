import Onde.Update.Transfer

/-!
# A release

What an announcer distributes, and what a receiver that pins its root key makes of it.

* `announcement`, `manifest`: what is built for the APK; `chunkCount`: how many pieces it has;
* `accepted`, `accepted_only`: the announcement is taken by every older receiver, and for nothing else;
* `started`: the manifest starts the transfer `transfer`, which is well formed and holds nothing.
-/

namespace Onde.Update

open Lib Crypto

/-- What is distributed: the root key that signs it, the version, the APK, when it was built, and the announcer. -/
structure Release where
  root : Identity
  version : Version
  apk : Bytes
  timestamp : UInt64
  announcer : String

namespace Release

variable (c : Primitives) (d : Release)

def announcement : UpdateAnnouncement × ByteArr 64 × Bytes :=
  UpdateProtocol.buildAnnouncement c d.version d.apk d.root d.timestamp

def manifest : UpdateManifest × ByteArr 64 × Bytes :=
  UpdateProtocol.buildManifest c d.apk d.root (c.publicKey d.root.seed) d.timestamp defaultChunkSize

/-- The transfer the manifest starts. -/
def transfer : PendingUpdate :=
  UpdateProtocol.transferOf (d.announcement c).1 (d.manifest c).1 (d.manifest c).2.1 d.announcer

def chunkCount : Nat := UpdateProtocol.chunkCount d.apk.length defaultChunkSize.toNat

variable {c d}

theorem chunkCount_eq : d.chunkCount = divCeil d.apk.length defaultChunkSize.toNat := by
  have hpos : defaultChunkSize.toNat ≠ 0 := by decide
  rw [chunkCount, UpdateProtocol.chunkCount, if_neg hpos]

/-- There is a chunk exactly at the indices below the count. -/
theorem lt_chunkCount {i : Nat} : i < d.chunkCount ↔ i * defaultChunkSize.toNat < d.apk.length := by
  rw [chunkCount_eq]
  exact lt_divCeil (by decide)

theorem chunkCount_pos : 0 < d.chunkCount ↔ d.apk ≠ [] := by
  rw [lt_chunkCount, Nat.zero_mul, List.length_pos_iff]

/-- An APK within the bound has no more chunks than a transfer takes. -/
theorem chunkCount_le (hsize : d.apk.length ≤ maxApkSize) : d.chunkCount ≤ maxChunks := by
  by_contra hgt
  have hlt := lt_chunkCount.mp (not_le.mp hgt)
  have hmax : maxChunks * defaultChunkSize.toNat = maxApkSize := by decide
  omega

theorem apkSize (hsize : d.apk.length ≤ maxApkSize) : (d.manifest c).1.apkSize.toNat = d.apk.length := by
  refine (UInt64.toNat_ofNat' ..).trans (Nat.mod_eq_of_lt (lt_of_le_of_lt hsize ?_))
  decide

/-- **The manifest is one that a receiver which pins the root key takes**, for the announcement. -/
theorem transferable (hl : c.Lawful) (hsize : d.apk.length ≤ maxApkSize) {p : UpdateProtocol}
    (hroot : p.rootPubkey = c.publicKey d.root.seed) :
    UpdateProtocol.Transferable c p (d.announcement c).1 (d.manifest c).1 (d.manifest c).2.2 (d.manifest c).2.1 where
  wire := rfl
  signed := by
    rw [hroot]
    exact hl.verify_sign _ _
  announced := rfl
  size := by rwa [apkSize hsize]
  chunkSize := by
    show defaultChunkSize ≠ 0
    decide
  count := by
    rw [apkSize hsize]
    exact chunkCount_le hsize

theorem expectedChunks (hsize : d.apk.length ≤ maxApkSize) : (d.transfer c).expectedChunks = d.chunkCount := by
  show UpdateProtocol.chunkCount (d.manifest c).1.apkSize.toNat defaultChunkSize.toNat = _
  rw [apkSize hsize]
  rfl

theorem transfer_wf (hl : c.Lawful) (hsize : d.apk.length ≤ maxApkSize) :
    (d.transfer c).Wf c (c.publicKey d.root.seed) :=
  PendingUpdate.wf_transferOf (transferable hl hsize (p := .new (c.publicKey d.root.seed) d.version) rfl) d.announcer

/-- The announcement is accepted by a receiver of an older version, -/
theorem accepted (hl : c.Lawful) {p : UpdateProtocol} (hroot : p.rootPubkey = c.publicKey d.root.seed)
    (hnew : p.currentVersion < d.version) :
    p.handleAnnouncement c (d.announcement c).2.2 (d.announcement c).2.1 = .ok (d.announcement c).1 := by
  refine UpdateProtocol.handleAnnouncement_ok.mpr ⟨⟨rfl, ?_⟩, hnew⟩
  rw [hroot]
  exact hl.verify_sign _ _

/-- and read as nothing else. -/
theorem accepted_only (hl : c.Lawful) {p : UpdateProtocol} (hroot : p.rootPubkey = c.publicKey d.root.seed)
    {a : UpdateAnnouncement} (ha : p.handleAnnouncement c (d.announcement c).2.2 (d.announcement c).2.1 = .ok a) :
    a = (d.announcement c).1 ∧ p.currentVersion < d.version := by
  obtain ⟨hread, hnew⟩ := UpdateProtocol.handleAnnouncement_ok.mp ha
  have hsigned : c.verify p.rootPubkey (d.announcement c).2.2 (d.announcement c).2.1 = true := by
    rw [hroot]
    exact hl.verify_sign _ _
  have hown : UpdateAnnouncement.verify c p.rootPubkey (d.announcement c).2.2 (d.announcement c).2.1 =
      .ok (d.announcement c).1 := UpdateAnnouncement.verify_ok.mpr ⟨rfl, hsigned⟩
  rw [UpdateAnnouncement.verify_ok.mpr hread] at hown
  cases hown
  exact ⟨rfl, hnew⟩

/-- The manifest starts the transfer, -/
theorem started (hl : c.Lawful) (hsize : d.apk.length ≤ maxApkSize) {p : UpdateProtocol}
    (hroot : p.rootPubkey = c.publicKey d.root.seed) :
    p.handleManifest c (d.announcement c).1 (d.manifest c).2.2 (d.manifest c).2.1 d.announcer =
      .ok { p with pending := some (d.transfer c), lastVerified := none } :=
  UpdateProtocol.handleManifest_ok.mpr ⟨_, transferable hl hsize hroot, rfl⟩

/-- which holds nothing yet. -/
theorem holds_nothing (p : UpdateProtocol) : UpdateProtocol.Holds d.apk (d.transfer c) ∅
    { p with pending := some (d.transfer c), lastVerified := none } := by
  refine ⟨∅, rfl, fun index => ?_⟩
  rw [AList.lookup_empty]
  rfl

/-- **A transfer with nothing missing is assembled to the APK**, which waits to be installed. -/
theorem assembled (hl : c.Lawful) (hsize : d.apk.length ≤ maxApkSize) {p : UpdateProtocol} {seen : Finset UInt32}
    (hw : p.Wf c) (hh : UpdateProtocol.Holds d.apk (d.transfer c) seen p)
    (hall : ∀ i < d.chunkCount, UInt32.ofNat i ∈ seen) :
    p.assembleAndVerify c =
      (.ok d.apk, { p with pending := none, lastVerified := some ⟨d.version, c.sha256 d.apk⟩ }) := by
  have ht := transfer_wf hl hsize (d := d)
  have hok := (hh.assemble hw ht (apkSize hsize) rfl).1 fun i hi => hall i (by rwa [expectedChunks hsize] at hi)
  obtain ⟨chunks, hp, -⟩ := hh
  rcases p.assembleAndVerify_cases c with ⟨err, h⟩ | ⟨t, apk, htr, -, -, -, ⟨err, h⟩ | ⟨-, h⟩⟩
  · rw [h] at hok
    cases hok
  · rw [h] at hok
    cases hok
  · rw [h] at hok
    cases hok
    rw [hp] at htr
    cases htr
    rw [h]
    rfl

end Release

end Onde.Update
