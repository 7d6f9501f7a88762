import Onde.Update.Versions

/-!
# Can the current version go back?

The current version is recomputed from the list of the installed ones, and the version a node starts with is not in it.

* `Latest`: the current version is the latest of the installed ones, once there are any;
* `recorded`: the version that a call puts into the list; `recorded_step`: the current version becomes the later of the
  two, but for the first version in the list, which replaces it;
* `NeverBack`: the versions of a run, and the announcements that are refused; `version_never_back_iff`: this is so
  exactly when the first version in the list is not older than the one at the start;
* `older_recorded`: an older version is recorded, and an announcement that was refused is accepted.
-/

namespace Onde.Update

open Lib Crypto

variable {c : Primitives} {p p' : UpdateProtocol}

/-- The current version is the latest of the installed ones, once there are any. -/
structure Latest (p : UpdateProtocol) : Prop where
  le : ∀ i ∈ p.installed, i.version ≤ p.currentVersion
  attained : p.installed ≠ [] → ∃ i ∈ p.installed, i.version = p.currentVersion

theorem latest_new (rootPubkey : ByteArr 32) (version : Version) : Latest (.new rootPubkey version) :=
  ⟨fun _ hi => (nomatch hi), fun hne => absurd rfl hne⟩

/-- The version that a call puts into the list of the installed ones. -/
def UpdateCall.recorded (c : Primitives) (p : UpdateProtocol) : UpdateCall → Option Version
  | .installVerified apk destPath _ write => p.lastVerified.bind fun last =>
    if c.sha256 apk = last.apkSha256 ∧ (write destPath apk).isOk then some last.version else none
  | .recordInstall version _ _ _ => some version
  | _ => none

/-- **What an installation does to the current version.** -/
theorem keepInstalled_latest (hl : Latest p) (u : InstalledUpdate) :
    Latest (p.keepInstalled u) ∧ (p.keepInstalled u).installed ≠ [] ∧ (p.keepInstalled u).currentVersion =
      if p.installed = [] then u.version else max p.currentVersion u.version := by
  have hmem : ∀ i, i ∈ (p.keepInstalled u).installed ↔ i ∈ p.installed ∨ i = u := by
    intro i
    rw [← List.mem_singleton, ← List.mem_append]
    exact List.mem_insertionSort _
  have hcurrent : (p.keepInstalled u).currentVersion =
      if p.installed = [] then u.version else max p.currentVersion u.version := by
    by_cases hnil : p.installed = []
    · rw [if_pos hnil]
      exact keepInstalled_currentVersion fun i hi => by rw [hnil] at hi; cases hi
    · rw [if_neg hnil]
      obtain ⟨m, hm, hversion⟩ := hl.attained hnil
      rcases le_total p.currentVersion u.version with hle | hle
      · rw [max_eq_right hle]
        exact keepInstalled_currentVersion fun i hi => (hl.le i hi).trans hle
      · rw [max_eq_left hle, ← hversion]
        exact keepInstalled_eq (List.mem_append_left _ hm) fun i hi => by
          rw [hversion]
          rcases List.mem_append.mp hi with hold | hnew
          · exact hl.le i hold
          · rwa [List.mem_singleton.mp hnew]
  have hnew : u ∈ (p.keepInstalled u).installed := (hmem u).mpr (.inr rfl)
  refine ⟨⟨fun i hi => ?_, fun _ => ?_⟩, List.ne_nil_of_mem hnew, hcurrent⟩
  · rw [hcurrent]
    by_cases hnil : p.installed = []
    · rw [if_pos hnil]
      rcases (hmem i).mp hi with hold | rfl
      · rw [hnil] at hold
        cases hold
      · exact le_refl _
    · rw [if_neg hnil]
      rcases (hmem i).mp hi with hold | rfl
      · exact (hl.le i hold).trans (le_max_left _ _)
      · exact le_max_right _ _
  · rw [hcurrent]
    by_cases hnil : p.installed = []
    · rw [if_pos hnil]
      exact ⟨u, hnew, rfl⟩
    · rw [if_neg hnil]
      obtain ⟨m, hm, hversion⟩ := hl.attained hnil
      rcases le_total p.currentVersion u.version with hle | hle
      · exact ⟨u, hnew, (max_eq_right hle).symm⟩
      · exact ⟨m, (hmem m).mpr (.inl hm), by rw [hversion, max_eq_left hle]⟩

/-- What a call does to the list and to the current version. -/
inductive Recorded (c : Primitives) (p : UpdateProtocol) (call : UpdateCall) (p' : UpdateProtocol) : Prop
  | nothing (hcall : call.recorded c p = none) (hi : p'.installed = p.installed)
    (hv : p'.currentVersion = p.currentVersion)
  | version {v : Version} (hcall : call.recorded c p = some v) (hi : p'.installed ≠ [])
    (hv : p'.currentVersion = if p.installed = [] then v else max p.currentVersion v)

/-- **One call keeps the current version the latest.** -/
theorem recorded_step (hl : Latest p) (call : UpdateCall) :
    Latest (call.apply c p) ∧ Recorded c p call (call.apply c p) := by
  cases call with
  | handleAnnouncement data sig => exact ⟨hl, .nothing rfl rfl rfl⟩
  | rejectPending => exact ⟨⟨hl.le, hl.attained⟩, .nothing rfl rfl rfl⟩
  | handleManifest announcement data sig peer =>
    simp only [UpdateCall.apply]
    cases h : p.handleManifest c announcement data sig peer with
    | error err => exact ⟨hl, .nothing rfl rfl rfl⟩
    | ok q =>
      obtain ⟨m, -, rfl⟩ := UpdateProtocol.handleManifest_ok.mp h
      exact ⟨⟨hl.le, hl.attained⟩, .nothing rfl rfl rfl⟩
  | handleChunk index data =>
    simp only [UpdateCall.apply]
    cases h : p.handleChunk index data with
    | error err => exact ⟨hl, .nothing rfl rfl rfl⟩
    | ok r =>
      obtain ⟨status, q⟩ := r
      obtain ⟨t, -, -, -, ⟨-, -, rfl⟩ | ⟨-, -, rfl⟩⟩ := UpdateProtocol.handleChunk_ok.mp h
      · exact ⟨hl, .nothing rfl rfl rfl⟩
      · exact ⟨⟨hl.le, hl.attained⟩, .nothing rfl rfl rfl⟩
  | assembleAndVerify =>
    simp only [UpdateCall.apply]
    rcases p.assembleAndVerify_cases c with ⟨err, h⟩ | ⟨t, apk, -, -, -, -, ⟨err, h⟩ | ⟨-, h⟩⟩ <;> rw [h]
    · exact ⟨hl, .nothing rfl rfl rfl⟩
    · exact ⟨⟨hl.le, hl.attained⟩, .nothing rfl rfl rfl⟩
    · exact ⟨⟨hl.le, hl.attained⟩, .nothing rfl rfl rfl⟩
  | recordInstall version apkSha256 installedAt apkPath =>
    obtain ⟨hlatest, hne, hv⟩ := keepInstalled_latest hl ⟨version, apkSha256, installedAt, apkPath⟩
    exact ⟨hlatest, .version rfl hne hv⟩
  | installVerified apk destPath installedAt write =>
    simp only [UpdateCall.apply]
    cases h : p.installVerified c apk destPath installedAt write with
    | error err =>
      refine ⟨hl, .nothing ?_ rfl rfl⟩
      cases hlast : p.lastVerified with
      | none => rw [UpdateCall.recorded, hlast, Option.bind_none]
      | some last =>
        rw [UpdateCall.recorded, hlast, Option.bind_some, if_neg]
        rintro ⟨hhash, hwrite⟩
        obtain ⟨w, hw⟩ : ∃ w, write destPath apk = .ok w := by
          cases hw : write destPath apk with
          | error err =>
            rw [hw] at hwrite
            cases hwrite
          | ok w => exact ⟨w, rfl⟩
        rw [UpdateProtocol.installVerified_ok.mpr ⟨last, hlast, hhash, ⟨w, hw⟩, rfl, rfl⟩] at h
        cases h
    | ok r =>
      obtain ⟨i, q⟩ := r
      obtain ⟨last, hlast, hhash, ⟨w, hw⟩, rfl, rfl⟩ := UpdateProtocol.installVerified_ok.mp h
      obtain ⟨hlatest, hne, hv⟩ := keepInstalled_latest hl ⟨last.version, last.apkSha256, installedAt, some destPath⟩
      refine ⟨⟨hlatest.le, hlatest.attained⟩, .version ?_ hne hv⟩
      rw [UpdateCall.recorded, hlast, Option.bind_some, if_pos ⟨hhash, by rw [hw]; rfl⟩]

/-! ## Runs -/

theorem after_rootPubkey (c : Primitives) (p : UpdateProtocol) (calls : List UpdateCall) :
    (after c p calls).rootPubkey = p.rootPubkey := by
  induction calls using List.reverseRecOn with
  | nil => rfl
  | append_singleton calls call ih =>
    rw [after_snoc]
    exact (UpdateProtocol.outcome_apply c _ call).rootPubkey.trans ih

/-- The first version that a run puts into the list. -/
def firstRecorded (c : Primitives) : UpdateProtocol → List UpdateCall → Option Version
  | _, [] => none
  | p, call :: calls => (call.recorded c p).or (firstRecorded c (call.apply c p) calls)

/-- Along a run the current version does not decrease, and no announcement is accepted that is not later than a version
that was current before. -/
def NeverBack (c : Primitives) (p : UpdateProtocol) (calls : List UpdateCall) : Prop :=
  ∀ past more rest, calls = past ++ more ++ rest →
    (after c p past).currentVersion ≤ (after c p (past ++ more)).currentVersion ∧
      ∀ data sig a, UpdateAnnouncement.verify c p.rootPubkey data sig = .ok a →
        a.version ≤ (after c p past).currentVersion →
        (after c p (past ++ more)).handleAnnouncement c data sig =
          .error (.notNewer (after c p (past ++ more)).currentVersion a.version)

/-- The first version of the list, if it is still to come, is not older than the current one. -/
def FirstNotOlder (c : Primitives) (p : UpdateProtocol) (calls : List UpdateCall) : Prop :=
  p.installed = [] → ∀ v, firstRecorded c p calls = some v → p.currentVersion ≤ v

theorem FirstNotOlder.cons {call : UpdateCall} {calls : List UpdateCall} (hl : Latest p)
    (hf : FirstNotOlder c p (call :: calls)) :
    p.currentVersion ≤ (call.apply c p).currentVersion ∧ FirstNotOlder c (call.apply c p) calls := by
  cases (recorded_step (c := c) hl call).2 with
  | nothing hcall hi hv =>
    refine ⟨le_of_eq hv.symm, fun hnil v hfirst => ?_⟩
    rw [hi] at hnil
    rw [hv]
    refine hf hnil v ?_
    rw [firstRecorded, hcall, Option.none_or]
    exact hfirst
  | @version v hcall hi hv =>
    refine ⟨?_, fun hnil => absurd hnil hi⟩
    rw [hv]
    split
    · next hnil =>
      refine hf hnil v ?_
      rw [firstRecorded, hcall, Option.some_or]
    · exact le_max_left _ _

/-- **If the first version is not older, the current version never decreases**, at any point of the run. -/
theorem FirstNotOlder.grows : ∀ (calls : List UpdateCall) (p : UpdateProtocol), Latest p → FirstNotOlder c p calls →
    ∀ past more rest, calls = past ++ more ++ rest →
      (after c p past).currentVersion ≤ (after c p (past ++ more)).currentVersion
  | _, _, _, _, [], [], _, _ => le_refl _
  | calls, p, hl, hf, [], call :: more, rest, hcalls => by
    cases hcalls
    obtain ⟨hle, hf'⟩ := hf.cons hl
    exact hle.trans (FirstNotOlder.grows _ _ (recorded_step hl call).1 hf' [] more rest rfl)
  | calls, p, hl, hf, call :: past, more, rest, hcalls => by
    cases hcalls
    exact FirstNotOlder.grows _ _ (recorded_step hl call).1 (hf.cons hl).2 past more rest rfl

/-- The first version of the list becomes the current one. -/
theorem firstRecorded_current : ∀ (calls : List UpdateCall) (p : UpdateProtocol), Latest p → p.installed = [] →
    ∀ v, firstRecorded c p calls = some v → ∃ past rest, calls = past ++ rest ∧ (after c p past).currentVersion = v
  | [], _, _, _, _, hfirst => nomatch hfirst
  | call :: calls, p, hl, hnil, v, hfirst => by
    obtain ⟨hl', hrecorded⟩ := recorded_step (c := c) hl call
    cases hrecorded with
    | nothing hcall hi hv =>
      rw [firstRecorded, hcall, Option.none_or] at hfirst
      obtain ⟨past, rest, rfl, hcurrent⟩ := firstRecorded_current calls _ hl' (hi.trans hnil) v hfirst
      exact ⟨call :: past, rest, rfl, hcurrent⟩
    | @version w hcall hi hv =>
      rw [firstRecorded, hcall, Option.some_or] at hfirst
      cases hfirst
      rw [if_pos hnil] at hv
      exact ⟨[call], calls, rfl, hv⟩

theorem handleAnnouncement_notNewer {data : Bytes} {sig : ByteArr 64} {a : UpdateAnnouncement}
    (ha : UpdateAnnouncement.verify c p.rootPubkey data sig = .ok a) (hle : a.version ≤ p.currentVersion) :
    p.handleAnnouncement c data sig = .error (.notNewer p.currentVersion a.version) := by
  rw [UpdateProtocol.handleAnnouncement, ha]
  exact if_pos hle

/-- **When the current version never goes back.** In any run of calls from any version: the current version never
decreases, and every announcement of a version that was reached before is refused, exactly when the first version that
is installed or recorded is not older than the version at the start. -/
theorem version_never_back_iff (c : Primitives) (rootPubkey : ByteArr 32) (version : Version)
    (calls : List UpdateCall) :
    NeverBack c (.new rootPubkey version) calls ↔
      ∀ v, firstRecorded c (.new rootPubkey version) calls = some v → version ≤ v := by
  have hl := latest_new rootPubkey version
  constructor
  · intro hnever v hfirst
    obtain ⟨past, rest, rfl, hcurrent⟩ := firstRecorded_current calls _ hl rfl v hfirst
    have hle := (hnever [] past rest rfl).1
    rwa [List.nil_append, hcurrent] at hle
  · intro hfirst past more rest hcalls
    have hle := FirstNotOlder.grows calls _ hl (fun _ => hfirst) past more rest hcalls
    refine ⟨hle, fun data sig a ha hold => handleAnnouncement_notNewer ?_ (hold.trans hle)⟩
    rwa [after_rootPubkey]

/-- **A version older than the one at the start is recorded**: a node of version 2.0.0 refuses version 1.0.1, is told
that version 1.0.0 was installed, and accepts version 1.0.1. -/
theorem older_recorded :
    let p : UpdateProtocol := .new knownRoot ⟨2, 0, 0⟩
    let recorded : List UpdateCall := [.recordInstall ⟨1, 0, 0⟩ (beArr 32 0) 1700000000 none]
    p.handleAnnouncement updatePrimitives knownAnnouncement.2.2 knownAnnouncement.2.1 =
        .error (.notNewer ⟨2, 0, 0⟩ ⟨1, 0, 1⟩) ∧
      (after updatePrimitives p recorded).currentVersion = ⟨1, 0, 0⟩ ∧
      (after updatePrimitives p recorded).handleAnnouncement updatePrimitives knownAnnouncement.2.2
        knownAnnouncement.2.1 = .ok knownAnnouncement.1 ∧
      ¬NeverBack updatePrimitives p recorded := by
  intro p recorded
  have hcurrent : (after updatePrimitives p recorded).currentVersion = ⟨1, 0, 0⟩ :=
    keepInstalled_currentVersion fun i hi => (nomatch hi)
  have hverify : UpdateAnnouncement.verify updatePrimitives knownRoot knownAnnouncement.2.2 knownAnnouncement.2.1 =
      .ok knownAnnouncement.1 := UpdateAnnouncement.verify_ok.mpr ⟨rfl, by decide +kernel⟩
  have hold : knownAnnouncement.1.version ≤ p.currentVersion := by decide +kernel
  refine ⟨handleAnnouncement_notNewer hverify hold, hcurrent, ?_, fun hnever => ?_⟩
  · refine UpdateProtocol.handleAnnouncement_ok.mpr ⟨UpdateAnnouncement.verify_ok.mp ?_, ?_⟩
    · rw [after_rootPubkey]
      exact hverify
    · rw [hcurrent]
      decide +kernel
  · have hle := (hnever [] recorded [] (by simp)).1
    rw [List.nil_append, hcurrent] at hle
    exact absurd hle (by decide +kernel)

end Onde.Update
