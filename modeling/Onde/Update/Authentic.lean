import Onde.Update.Transfer

/-!
# Only what the root key signed is installed

* `Backed`: the root key signed an announcement and a manifest of a version and a hash;
* `Authentic`: the transfer in progress and the APK that waits are backed; every call keeps this (`Authentic.apply`),
  and every run (`Sound.after`);
* `update_authentic`: whatever is installed, after any calls that hand over checked announcements, is backed;
* `version_unsigned`: with an announcement that was never checked it need not be.
-/

namespace Onde.Update

open Lib Crypto

variable {c : Primitives} {p : UpdateProtocol} {signed : Bytes → Prop} {rootPubkey : ByteArr 32}

/-- The root key signed an announcement of this version with this hash, and a manifest with the same hash. -/
def Backed (signed : Bytes → Prop) (version : Version) (hash : ByteArr 32) : Prop :=
  (∃ a : UpdateAnnouncement, signed a.toSignedBytes ∧ a.version = version ∧ a.apkSha256 = hash) ∧
  ∃ m : ApkManifest, signed m.toSignedBytes ∧ m.apkHash = hash

/-- The signatures that verify under the root key are on what it signed. -/
def Unforgeable (c : Primitives) (rootPubkey : ByteArr 32) (signed : Bytes → Prop) : Prop :=
  ∀ data sig, c.verify rootPubkey data sig = true → signed data

/-- The transfer in progress and the APK that waits for its installation are backed. -/
structure Authentic (signed : Bytes → Prop) (p : UpdateProtocol) : Prop where
  pending : ∀ t, p.pending = some t → Backed signed t.version t.manifest.apkManifest.apkHash
  verified : ∀ v, p.lastVerified = some v → Backed signed v.version v.apkSha256

/-- The announcements a call returns. -/
def UpdateCall.announced (c : Primitives) (p : UpdateProtocol) : UpdateCall → List UpdateAnnouncement
  | .handleAnnouncement data sig => match p.handleAnnouncement c data sig with
    | .ok announcement => [announcement]
    | .error _ => []
  | _ => []

/-- Each announcement that `handleManifest` is given was returned by `handleAnnouncement` before. -/
def Handed (c : Primitives) : List UpdateAnnouncement → UpdateProtocol → List UpdateCall → Prop
  | _, _, [] => True
  | returned, p, call :: calls =>
    (∀ announcement data sig peer, call = .handleManifest announcement data sig peer → announcement ∈ returned) ∧
    Handed c (returned ++ call.announced c p) (call.apply c p) calls

/-! ## One call -/

theorem authentic_new (rootPubkey : ByteArr 32) (version : Version) : Authentic signed (.new rootPubkey version) :=
  ⟨fun _ ht => (nomatch ht), fun _ hv => (nomatch hv)⟩

/-- What is returned was signed. -/
theorem signed_announced (hu : Unforgeable c p.rootPubkey signed) {call : UpdateCall} {a : UpdateAnnouncement}
    (ha : a ∈ call.announced c p) : signed a.toSignedBytes := by
  cases call with
  | handleAnnouncement data sig =>
    simp only [UpdateCall.announced] at ha
    cases h : p.handleAnnouncement c data sig with
    | error err =>
      rw [h] at ha
      cases ha
    | ok b =>
      rw [h] at ha
      obtain rfl := List.mem_singleton.mp ha
      obtain ⟨⟨rfl, hsig⟩, -⟩ := UpdateProtocol.handleAnnouncement_ok.mp h
      exact hu _ _ hsig
  | _ => cases ha

/-- **What a call does to the APK that waits**: it keeps it, drops it, or the assembly puts the one of the transfer
in its place. -/
theorem lastVerified_of_outcome (hw : p.Wf c) {call : UpdateCall} {p' : UpdateProtocol}
    (h : UpdateProtocol.Outcome c p call p') :
    p'.lastVerified = p.lastVerified ∨ p'.lastVerified = none ∨
    ∃ t, p.pending = some t ∧ p'.lastVerified = some ⟨t.version, t.manifest.apkManifest.apkHash⟩ := by
  cases h with
  | kept | stored | purged | recorded => exact .inl rfl
  | started | installed | rejected => exact .inr (.inl rfl)
  | @verified t apk m ht hm =>
    have hwf := hw t ht
    rw [hwf.wire, UpdateManifest.take_toWireBytes, verifyApkSignature_signed hwf.signed] at hm
    have hhash : c.sha256 apk = t.manifest.apkManifest.apkHash := by
      by_contra hne
      rw [if_neg hne] at hm
      cases hm
    refine .inr (.inr ⟨t, ht, ?_⟩)
    rw [← hhash]
    rfl

/-- **A call keeps everything backed**, if the announcement it hands over was signed. -/
theorem Authentic.apply (ha : Authentic signed p) (hw : p.Wf c) (hu : Unforgeable c p.rootPubkey signed)
    (call : UpdateCall) (hgiven : ∀ announcement data sig peer,
      call = .handleManifest announcement data sig peer → signed announcement.toSignedBytes) :
    Authentic signed (call.apply c p) := by
  constructor
  · intro t ht
    rcases (UpdateProtocol.outcome_apply c p call).pending with
      h | h | ⟨announcement, data, sig, peer, m, hcall, hm, h⟩ | ⟨index, data, t', -, ht', -, -, -, h⟩ <;>
      rw [h] at ht
    · exact ha.pending t ht
    · cases ht
    · cases ht
      exact ⟨⟨announcement, hgiven _ _ _ _ hcall, rfl, hm.announced.symm⟩, _, hu _ _ hm.signed, rfl⟩
    · cases ht
      exact ha.pending t' ht'
  · intro v hv
    rcases lastVerified_of_outcome hw (UpdateProtocol.outcome_apply c p call) with h | h | ⟨t, ht, h⟩ <;> rw [h] at hv
    · exact ha.verified v hv
    · cases hv
    · cases hv
      exact ha.pending t ht

/-- The state while signatures under its root key are on what was signed. -/
structure Sound (c : Primitives) (signed : Bytes → Prop) (p : UpdateProtocol) : Prop where
  unforgeable : Unforgeable c p.rootPubkey signed
  wf : p.Wf c
  authentic : Authentic signed p

theorem sound_new {version : Version} (hu : Unforgeable c rootPubkey signed) :
    Sound c signed (.new rootPubkey version) := ⟨hu, UpdateProtocol.wf_of_none rfl, authentic_new rootPubkey version⟩

theorem Sound.apply (hs : Sound c signed p) (call : UpdateCall) (hgiven : ∀ announcement data sig peer,
    call = .handleManifest announcement data sig peer → signed announcement.toSignedBytes) :
    Sound c signed (call.apply c p) := by
  refine ⟨?_, hs.wf.apply call, hs.authentic.apply hs.wf hs.unforgeable call hgiven⟩
  rw [(UpdateProtocol.outcome_apply c p call).rootPubkey]
  exact hs.unforgeable

/-- What is installed was signed. -/
theorem Sound.installVerified (hs : Sound c signed p) {apk : Bytes} {destPath : String} {installedAt : UInt64}
    {write : String → Bytes → Except String Unit} {installed : InstalledUpdate} {p' : UpdateProtocol}
    (h : p.installVerified c apk destPath installedAt write = .ok (installed, p')) :
    Backed signed installed.version (c.sha256 apk) ∧ installed.apkSha256 = c.sha256 apk := by
  obtain ⟨last, hlast, hhash, -, rfl, -⟩ := UpdateProtocol.installVerified_ok.mp h
  rw [hhash]
  exact ⟨hs.authentic.verified last hlast, rfl⟩

/-! ## Runs -/

/-- **A run keeps everything backed**, if `handleManifest` is given what `handleAnnouncement` returned. -/
theorem Sound.after : ∀ (calls : List UpdateCall) (returned : List UpdateAnnouncement) (p : UpdateProtocol),
    Sound c signed p → (∀ a ∈ returned, signed a.toSignedBytes) → Handed c returned p calls →
    Sound c signed (Update.after c p calls)
  | [], _, _, hs, _, _ => hs
  | call :: calls, returned, p, hs, hreturned, hhanded => by
    have hnext : Sound c signed (call.apply c p) := by
      refine hs.apply call fun announcement data sig peer hcall => ?_
      exact hreturned _ (hhanded.1 announcement data sig peer hcall)
    refine Sound.after calls _ (call.apply c p) hnext (fun a hmem => ?_) hhanded.2
    rcases List.mem_append.mp hmem with hold | hnew
    · exact hreturned a hold
    · exact signed_announced hs.unforgeable hnew

/-- **Only what the root key signed is installed.** After any calls, with any bytes, peers, sizes and order of the
chunks, in which `handleManifest` is given announcements that `handleAnnouncement` returned: if an APK is installed,
the root key signed an announcement of the installed version with the hash of this APK, and a manifest with the same
hash. -/
theorem update_authentic (c : Primitives) (rootPubkey : ByteArr 32) (signed : Bytes → Prop)
    (hsigned : Unforgeable c rootPubkey signed) (version : Version) (calls : List UpdateCall)
    (hhanded : Handed c [] (.new rootPubkey version) calls) (apk : Bytes) (destPath : String) (installedAt : UInt64)
    (write : String → Bytes → Except String Unit) (installed : InstalledUpdate) (p' : UpdateProtocol)
    (h : (after c (.new rootPubkey version) calls).installVerified c apk destPath installedAt write =
      .ok (installed, p')) :
    Backed signed installed.version (c.sha256 apk) := by
  have hs := Sound.after calls [] _ (sound_new hsigned) (fun a hmem => by cases hmem) hhanded
  exact (hs.installVerified h).1

/-- A run that starts transfers only for announcements returned before it. -/
theorem handed_of_mem : ∀ (calls : List UpdateCall) (returned : List UpdateAnnouncement) (p : UpdateProtocol),
    (∀ announcement data sig peer, .handleManifest announcement data sig peer ∈ calls → announcement ∈ returned) →
    Handed c returned p calls
  | [], _, _, _ => trivial
  | call :: calls, _, _, hall => by
    refine ⟨fun announcement data sig peer heq => ?_, handed_of_mem calls _ _ fun announcement data sig peer hmem => ?_⟩
    · exact hall announcement data sig peer (heq ▸ List.mem_cons_self)
    · exact List.mem_append_left _ (hall announcement data sig peer (List.mem_cons_of_mem _ hmem))

/-- A manifest right after its announcement. -/
theorem handed_of_first {a : UpdateAnnouncement} {data wire : Bytes} {sig sig' : ByteArr 64} {peer : String}
    {calls : List UpdateCall} (h : p.handleAnnouncement c data sig = .ok a)
    (hnone : ∀ announcement data sig peer, .handleManifest announcement data sig peer ∉ calls) :
    Handed c [] p (.handleAnnouncement data sig :: .handleManifest a wire sig' peer :: calls) := by
  refine ⟨by rintro _ _ _ _ ⟨⟩, handed_of_mem _ _ _ fun announcement data' sig'' peer' hmem => ?_⟩
  rcases List.mem_cons.mp hmem with heq | hrest
  · cases heq
    simp [UpdateCall.announced, h]
  · exact absurd hrest (hnone _ _ _ _)

/-- The calls of a whole update, with the chunks out of order. -/
def wholeUpdate : List UpdateCall :=
  .handleAnnouncement knownAnnouncement.2.2 knownAnnouncement.2.1 :: uncut ++ [.assembleAndVerify]

/-- What the known root key signed. -/
def knownSigned (data : Bytes) : Prop := data ∈ updateValues.signatures.map Prod.fst

theorem knownSigned_unforgeable : Unforgeable updatePrimitives knownRoot knownSigned := by
  intro data sig hver
  exact List.mem_map.mpr ⟨_, (of_decide_eq_true hver).2, rfl⟩

/-- What a run has verified can be installed. -/
theorem installs {calls : List UpdateCall} {version : Version}
    (h : (after updatePrimitives (.new knownRoot ⟨1, 0, 0⟩) calls).lastVerified =
      some ⟨version, updatePrimitives.sha256 knownApk⟩) :
    ∃ installed p', (after updatePrimitives (.new knownRoot ⟨1, 0, 0⟩) calls).installVerified updatePrimitives knownApk
      "/tmp/onde.apk" 1700000000 (fun _ _ => .ok ()) = .ok (installed, p') ∧ installed.version = version :=
  ⟨_, _, UpdateProtocol.installVerified_ok.mpr ⟨_, h, rfl, ⟨(), rfl⟩, rfl, rfl⟩, rfl⟩

theorem update_known : ∃ installed p', (after updatePrimitives (.new knownRoot ⟨1, 0, 0⟩) wholeUpdate).installVerified
      updatePrimitives knownApk "/tmp/onde.apk" 1700000000 (fun _ _ => .ok ()) = .ok (installed, p') ∧
    Backed knownSigned installed.version (updatePrimitives.sha256 knownApk) := by
  have hverified : (after updatePrimitives (.new knownRoot ⟨1, 0, 0⟩) wholeUpdate).lastVerified =
      some ⟨⟨1, 0, 1⟩, updatePrimitives.sha256 knownApk⟩ := by decide +kernel
  have hhanded : Handed updatePrimitives [] (.new knownRoot ⟨1, 0, 0⟩) wholeUpdate :=
    handed_of_first known_announced (by simp)
  obtain ⟨installed, p', hok, -⟩ := installs hverified
  exact ⟨installed, p', hok, update_authentic updatePrimitives knownRoot knownSigned knownSigned_unforgeable ⟨1, 0, 0⟩
    wholeUpdate hhanded knownApk _ _ _ _ _ hok⟩

/-- The calls with an announcement that nobody signed: the hash of the signed manifest under another version. -/
def renumbered : List UpdateCall :=
  .handleManifest { knownAnnouncement.1 with version := ⟨9, 9, 9⟩ } knownManifest.2.2 knownManifest.2.1 "peer" ::
    uncut.tail ++ [.assembleAndVerify]

/-- No other bytes have the hash of the known APK. -/
theorem knownApk_collisionFree {data : Bytes} (h : updatePrimitives.sha256 data = updatePrimitives.sha256 knownApk) :
    data = knownApk := by
  have hbytes : beBytes 4 0x61706b21 = knownApk := by decide +kernel
  have hknown : updatePrimitives.sha256 knownApk ≠ beArr 32 0 := by decide +kernel
  by_contra hne
  refine hknown (h.symm.trans ?_)
  have hother : ¬beBytes 4 0x61706b21 = data := fun heq => hne (heq.symm.trans hbytes)
  simp [updatePrimitives, Primitives.ofKnownBytes, updateValues, hother]

/-- **With an announcement that was never checked, a version is installed that nobody signed**: `handleManifest`
compares the hash only. -/
theorem version_unsigned : ¬∀ (c : Primitives) (rootPubkey : ByteArr 32) (signed : Bytes → Prop),
    Unforgeable c rootPubkey signed → ∀ (version : Version) (calls : List UpdateCall) (apk : Bytes),
      (∀ data, c.sha256 data = c.sha256 apk → data = apk) →
      ∀ (destPath : String) (installedAt : UInt64) (write : String → Bytes → Except String Unit)
        (installed : InstalledUpdate) (p' : UpdateProtocol),
        (after c (.new rootPubkey version) calls).installVerified c apk destPath installedAt write =
          .ok (installed, p') → Backed signed installed.version (c.sha256 apk) := by
  intro hall
  have hverified : (after updatePrimitives (.new knownRoot ⟨1, 0, 0⟩) renumbered).lastVerified =
      some ⟨⟨9, 9, 9⟩, updatePrimitives.sha256 knownApk⟩ := by decide +kernel
  obtain ⟨installed, p', hok, hversion⟩ := installs hverified
  obtain ⟨⟨a, hsigned, hsame, -⟩, -⟩ := hall updatePrimitives knownRoot knownSigned knownSigned_unforgeable ⟨1, 0, 0⟩
    renumbered knownApk (fun _ => knownApk_collisionFree) _ _ _ _ _ hok
  -- no signed text has a 9 where the version begins
  have hnone : ∀ data ∈ updateValues.signatures.map Prod.fst, field data 8 2 ≠ le16 9 := by decide +kernel
  refine hnone _ hsigned ?_
  rw [a.fields.2.1, hsame, hversion]

end Onde.Update
