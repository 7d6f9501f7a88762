import Onde.Update.Protocol

/-!
# The codecs of what the root key signs

* `parseSignedManifest_ok`: the canonical manifest is accepted in its signed form only;
* `verifyApkSignature_ok`, `verifyApkSignature_mismatch`: the parser of the crypto module against that of the update
  module;
* `announcement_or_manifest`: no bytes are both an announcement and a canonical manifest;
* `signed_codecs`: the round trips of the three messages, both ways.
-/

namespace Onde.Update

open Lib Crypto

variable {c : Primitives} {rootPubkey : ByteArr 32} {apk data : Bytes} {sig : ByteArr 64} {m : ApkManifest}

/-- **The canonical manifest is accepted exactly when it is the signed form of what is parsed.** -/
theorem parseSignedManifest_ok : parseSignedManifest data = .ok m ↔ data = m.toSignedBytes := by
  constructor
  · intro h
    unfold parseSignedManifest at h
    split at h
    · next hform =>
      cases h
      exact (ApkManifest.toSignedBytes_parse hform.1 hform.2).symm
    · cases h
  · rintro rfl
    obtain ⟨hmagic, hparse⟩ := m.parse_toSignedBytes
    rw [parseSignedManifest, dif_pos ⟨m.length_toSignedBytes, hmagic⟩, hparse]

/-- What `verify` accepts of a canonical manifest is the signed form of one. -/
theorem ApkManifest.verify_signed :
    ApkManifest.verify c rootPubkey data sig = true ↔
      ∃ m : ApkManifest, data = m.toSignedBytes ∧ c.verify rootPubkey data sig = true := by
  rw [ApkManifest.verify_iff]
  constructor
  · rintro ⟨hlen, hmagic, hsig⟩
    exact ⟨_, (ApkManifest.toSignedBytes_parse hlen hmagic).symm, hsig⟩
  · rintro ⟨m, rfl, hsig⟩
    exact ⟨m.length_toSignedBytes, m.parse_toSignedBytes.1, hsig⟩

/-- **An APK is accepted exactly when** the signature verifies, the parser of the update module accepts the manifest as
the same one, and the hash in it is the hash of the APK. -/
theorem verifyApkSignature_ok : verifyApkSignature c apk data sig rootPubkey = .ok m ↔
    c.verify rootPubkey data sig = true ∧ parseSignedManifest data = .ok m ∧ c.sha256 apk = m.apkHash := by
  rw [parseSignedManifest_ok]
  constructor
  · intro h
    have hver : ApkManifest.verify c rootPubkey data sig = true := by
      by_contra hver
      rw [verifyApkSignature, Bool.eq_false_of_not_eq_true hver] at h
      cases h
    obtain ⟨m', rfl, hsig⟩ := ApkManifest.verify_signed.mp hver
    rw [verifyApkSignature_signed hsig] at h
    split at h
    · next hhash =>
      cases h
      exact ⟨hsig, rfl, hhash⟩
    · cases h
  · rintro ⟨hsig, rfl, hhash⟩
    rw [verifyApkSignature_signed hsig, if_pos hhash]

/-- **An APK is refused for its hash exactly when** the manifest is accepted by both parsers and names another one. -/
theorem verifyApkSignature_mismatch :
    verifyApkSignature c apk data sig rootPubkey = .error "APK content hash mismatch (tampered APK)" ↔
      ∃ m, c.verify rootPubkey data sig = true ∧ parseSignedManifest data = .ok m ∧ c.sha256 apk ≠ m.apkHash := by
  constructor
  · intro h
    have hver : ApkManifest.verify c rootPubkey data sig = true := by
      by_contra hver
      rw [verifyApkSignature, Bool.eq_false_of_not_eq_true hver] at h
      simp at h
    obtain ⟨m, rfl, hsig⟩ := ApkManifest.verify_signed.mp hver
    rw [verifyApkSignature_signed hsig] at h
    split at h
    · cases h
    · next hhash => exact ⟨m, hsig, parseSignedManifest_ok.mpr rfl, hhash⟩
  · rintro ⟨m, hsig, hparse, hhash⟩
    rw [parseSignedManifest_ok.mp hparse] at hsig ⊢
    rw [verifyApkSignature_signed hsig, if_neg hhash]

/-- **No bytes are both an announcement and a canonical manifest**, whatever the keys and the signatures. -/
theorem announcement_or_manifest {a : UpdateAnnouncement}
    (ha : UpdateAnnouncement.verify c rootPubkey data sig = .ok a) (m : ApkManifest) : data ≠ m.toSignedBytes := by
  rintro rfl
  have hlen := congrArg List.length (UpdateAnnouncement.verify_ok.mp ha).1
  rw [m.length_toSignedBytes, a.length_toSignedBytes] at hlen
  exact absurd hlen (by decide)

/-- **The codecs of the three messages.** What `sign` produces is verified as the value that was signed; what is
accepted is re-encoded to the same bytes; the two parsers of the canonical manifest accept the same bytes as the same
manifest; and no bytes are both an announcement and a canonical manifest. -/
theorem signed_codecs (c : Primitives) (hl : c.Lawful) :
    (∀ (root : Identity) (a : UpdateAnnouncement),
      UpdateAnnouncement.verify c (c.publicKey root.seed) (a.sign c root).2 (a.sign c root).1 = .ok a) ∧
    (∀ (root : Identity) (m : ApkManifest),
      ApkManifest.verify c (c.publicKey root.seed) (m.sign c root).2 (m.sign c root).1 = true ∧
        parseSignedManifest (m.sign c root).2 = .ok m) ∧
    (∀ (root : Identity) (m : UpdateManifest),
      UpdateManifest.verify c (c.publicKey root.seed) (m.sign c root).2 (m.sign c root).1 = .ok m) ∧
    (∀ rootPubkey data sig (a : UpdateAnnouncement), UpdateAnnouncement.verify c rootPubkey data sig = .ok a →
      a.toSignedBytes = data) ∧
    (∀ rootPubkey data sig, ApkManifest.verify c rootPubkey data sig = true →
      ∃ m, parseSignedManifest data = .ok m ∧ m.toSignedBytes = data) ∧
    (∀ rootPubkey data sig (m : UpdateManifest), UpdateManifest.verify c rootPubkey data sig = .ok m →
      m.toWireBytes = data) ∧
    (∀ rootPubkey apk data sig m, verifyApkSignature c apk data sig rootPubkey = .ok m ↔
      c.verify rootPubkey data sig = true ∧ parseSignedManifest data = .ok m ∧ c.sha256 apk = m.apkHash) ∧
    (∀ rootPubkey apk data sig,
      verifyApkSignature c apk data sig rootPubkey = .error "APK content hash mismatch (tampered APK)" ↔
        ∃ m, c.verify rootPubkey data sig = true ∧ parseSignedManifest data = .ok m ∧ c.sha256 apk ≠ m.apkHash) ∧
    ∀ rootPubkey rootPubkey' data sig sig' a, UpdateAnnouncement.verify c rootPubkey data sig = .ok a →
      ApkManifest.verify c rootPubkey' data sig' = false ∧ ∀ m, parseSignedManifest data ≠ .ok m := by
  refine ⟨fun root a => ?_, fun root m => ⟨?_, parseSignedManifest_ok.mpr rfl⟩, fun root m => ?_, ?_, ?_, ?_,
    fun rootPubkey apk data sig m => verifyApkSignature_ok, fun rootPubkey apk data sig => verifyApkSignature_mismatch,
    ?_⟩
  · exact UpdateAnnouncement.verify_ok.mpr ⟨rfl, hl.verify_sign _ _⟩
  · exact ApkManifest.verify_signed.mpr ⟨m, rfl, hl.verify_sign _ _⟩
  · exact UpdateManifest.verify_ok.mpr ⟨rfl, hl.verify_sign _ _⟩
  · intro rootPubkey data sig a h
    exact (UpdateAnnouncement.verify_ok.mp h).1.symm
  · intro rootPubkey data sig h
    obtain ⟨m, rfl, -⟩ := ApkManifest.verify_signed.mp h
    exact ⟨m, parseSignedManifest_ok.mpr rfl, rfl⟩
  · intro rootPubkey data sig m h
    exact (UpdateManifest.verify_ok.mp h).1.symm
  · intro rootPubkey rootPubkey' data sig sig' a h
    refine ⟨Bool.eq_false_of_not_eq_true fun hm => ?_, fun m hm => ?_⟩
    · obtain ⟨m, hdata, -⟩ := ApkManifest.verify_signed.mp hm
      exact announcement_or_manifest h m hdata
    · exact announcement_or_manifest h m (parseSignedManifest_ok.mp hm)

/-- The primitives of the known root key, which verifies what it signs and nothing else. -/
def rootPrimitives : Primitives := { updatePrimitives with
  verify := fun pk data sig => decide (pk = updateValues.publicKey ∧ sig = updatePrimitives.sign (beArr 32 0) data) }

theorem rootPrimitives_lawful : rootPrimitives.Lawful := ⟨fun _ _ => decide_eq_true ⟨rfl, rfl⟩⟩

theorem signed_codecs_known :
    UpdateAnnouncement.verify rootPrimitives knownRoot knownAnnouncement.2.2 knownAnnouncement.2.1 =
      .ok knownAnnouncement.1 :=
  (signed_codecs rootPrimitives rootPrimitives_lawful).1 (.ofByte 1) knownAnnouncement.1

end Onde.Update
