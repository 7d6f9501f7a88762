import Onde.Update.Transfer

/-!
# Versions only grow

* `Newer`: the transfer in progress and the APK that waits are of later versions than the current one, and nothing
  later is installed;
* `keepInstalled_eq`: the latest of the installed versions becomes the current one;
* `Newer.handleManifest`, `Newer.handleChunk`, `Newer.assembleAndVerify`, `Newer.installVerified`: the steps of the
  receiver, of which only the last changes the current version.
-/

namespace Onde.Update

open Lib Crypto

instance : Std.Total fun u w : InstalledUpdate => u.version ≤ w.version := ⟨fun u w => le_total u.version w.version⟩

instance : IsTrans InstalledUpdate fun u w => u.version ≤ w.version := ⟨fun _ _ _ h h' => le_trans h h'⟩

/-- The versions of a protocol that only upgrades. -/
structure Newer (p : UpdateProtocol) : Prop where
  pending : ∀ t, p.pending = some t → p.currentVersion < t.version
  verified : ∀ v, p.lastVerified = some v → p.currentVersion < v.version
  installed : ∀ i ∈ p.installed, i.version ≤ p.currentVersion

variable {c : Primitives} {p p' : UpdateProtocol}

theorem newer_new (rootPubkey : ByteArr 32) (version : Version) : Newer (.new rootPubkey version) :=
  ⟨fun _ ht => (nomatch ht), fun _ hv => (nomatch hv), fun _ hi => (nomatch hi)⟩

/-- **The latest of the installed versions is the current one.** -/
theorem keepInstalled_eq {u m : InstalledUpdate} (hm : m ∈ p.installed ++ [u])
    (hall : ∀ i ∈ p.installed ++ [u], i.version ≤ m.version) : (p.keepInstalled u).currentVersion = m.version := by
  have hmem : ∀ i, i ∈ (p.keepInstalled u).installed ↔ i ∈ p.installed ++ [u] := by
    intro i
    exact List.mem_insertionSort _
  have hin : m ∈ (p.keepInstalled u).installed := (hmem m).mpr hm
  have hsorted : (p.keepInstalled u).installed.Pairwise fun v w => v.version ≤ w.version :=
    List.pairwise_insertionSort _ _
  have hcurrent : (p.keepInstalled u).currentVersion =
      ((p.keepInstalled u).installed.getLast?.map InstalledUpdate.version).getD p.currentVersion := rfl
  rw [hcurrent]
  rcases List.eq_nil_or_concat (p.keepInstalled u).installed with hnil | ⟨init, last, heq⟩
  · rw [hnil] at hin
    cases hin
  rw [List.concat_eq_append] at heq
  rw [heq] at hsorted hin hmem
  have hle : last.version ≤ m.version := hall last ((hmem last).mp (by simp))
  have hge : m.version ≤ last.version := by
    rcases List.mem_append.mp hin with hinit | hend
    · exact (List.pairwise_append.mp hsorted).2.2 m hinit last (by simp)
    · rw [List.mem_singleton.mp hend]
  rw [heq]
  simp [le_antisymm hle hge]

/-- What is installed is the current version if nothing is later. -/
theorem keepInstalled_currentVersion {u : InstalledUpdate} (hall : ∀ i ∈ p.installed, i.version ≤ u.version) :
    (p.keepInstalled u).currentVersion = u.version := by
  refine keepInstalled_eq (by simp) fun i hi => ?_
  rcases List.mem_append.mp hi with hold | hnew
  · exact hall i hold
  · rw [List.mem_singleton.mp hnew]

namespace Newer

theorem handleManifest (hn : Newer p) {announcement : UpdateAnnouncement} {data : Bytes} {sig : ByteArr 64}
    {peer : String} (hnew : p.currentVersion < announcement.version)
    (h : p.handleManifest c announcement data sig peer = .ok p') :
    Newer p' ∧ p'.currentVersion = p.currentVersion := by
  obtain ⟨m, -, rfl⟩ := UpdateProtocol.handleManifest_ok.mp h
  refine ⟨⟨?_, fun _ hv => (nomatch hv), hn.installed⟩, rfl⟩
  rintro t ⟨⟩
  exact hnew

theorem handleChunk (hn : Newer p) {index : UInt32} {data : Bytes} {status : ChunkStatus}
    (h : p.handleChunk index data = .ok (status, p')) : Newer p' ∧ p'.currentVersion = p.currentVersion := by
  obtain ⟨t, ht, -, -, ⟨-, -, rfl⟩ | ⟨-, -, rfl⟩⟩ := UpdateProtocol.handleChunk_ok.mp h
  · exact ⟨hn, rfl⟩
  · refine ⟨⟨?_, hn.verified, hn.installed⟩, rfl⟩
    rintro t' ⟨⟩
    exact hn.pending t ht

theorem assembleAndVerify (hn : Newer p) (c : Primitives) :
    Newer (p.assembleAndVerify c).2 ∧ (p.assembleAndVerify c).2.currentVersion = p.currentVersion := by
  rcases p.assembleAndVerify_cases c with ⟨err, h⟩ | ⟨t, apk, ht, -, -, -, ⟨err, h⟩ | ⟨-, h⟩⟩ <;> rw [h]
  · exact ⟨hn, rfl⟩
  · exact ⟨⟨fun _ ht' => (nomatch ht'), hn.verified, hn.installed⟩, rfl⟩
  · refine ⟨⟨fun _ ht' => (nomatch ht'), ?_, hn.installed⟩, rfl⟩
    rintro v ⟨⟩
    exact hn.pending t ht

/-- **An installation is an upgrade**, and nothing is in progress after it. -/
theorem installVerified (hn : Newer p) {apk : Bytes} {destPath : String} {installedAt : UInt64}
    {write : String → Bytes → Except String Unit} {installed : InstalledUpdate}
    (h : p.installVerified c apk destPath installedAt write = .ok (installed, p')) :
    Newer p' ∧ p.currentVersion < installed.version ∧ p'.currentVersion = installed.version := by
  obtain ⟨last, hlast, -, -, rfl, rfl⟩ := UpdateProtocol.installVerified_ok.mp h
  have hlt := hn.verified last hlast
  have hcurrent := keepInstalled_currentVersion (p := p)
    (u := ⟨last.version, last.apkSha256, installedAt, some destPath⟩) fun i hi => (hn.installed i hi).trans hlt.le
  refine ⟨⟨fun _ ht => (nomatch ht), fun _ hv => (nomatch hv), fun i hi => ?_⟩, hlt, hcurrent⟩
  rw [hcurrent]
  rcases List.mem_append.mp ((List.mem_insertionSort _).mp hi) with hold | hnew
  · exact (hn.installed i hold).trans hlt.le
  · rw [List.mem_singleton.mp hnew]

end Newer

end Onde.Update
