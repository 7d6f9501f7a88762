import Onde.Zim.Safety

/-!
# Does a failed load leave the reader as it was?

The fields of the reader are assigned one after the other, the header, the bytes and the MIME list before the entries
are read.

* `loadIndex_cases`: what a load does: nothing, everything, or all but the entries;
* `atomic_iff`: so a failed load leaves the reader as it was exactly when it fails before or changes nothing;
* `Spared.coherent`: a reader all of whose loads are like this has the entries of its own bytes;
* `loadIndex_atomic_iff`: both.
-/

namespace Onde.Zim

open Lib Outcome

variable {w : Nat} {data : Bytes} {r : ZimReader} {h : ZimHeader}

/-- The MIME list that a header leads to. -/
def mimeListOf (w : Nat) (data : Bytes) (h : ZimHeader) : Result (List String) :=
  loop (ZimReader.mimeStep w data h.clusterPtrPos) (data.length + 1) (h.mimeListPos, [])

/-- The entries that a header leads to. -/
def direntsOf (w : Nat) (data : Bytes) (h : ZimHeader) : Result (List Dirent) :=
  (List.range h.articleCount).mapM (ZimReader.direntAt w data h)

/-- A load that fails leaves the reader as it was. -/
def Atomic (w : Nat) (r : ZimReader) (file : Except String (Buffer w)) : Prop :=
  ∀ fuel e, (r.loadIndex w (file.map Buffer.bytes) fuel).1 = .error e →
    (r.loadIndex w (file.map Buffer.bytes) fuel).2 = r

/-- The file cannot be read, its header or none of its entries fails, or the reader has what comes before the
entries. Where there is no room for the entries, no load fails. -/
def Spares (w : Nat) (r : ZimReader) : Except String (Buffer w) → Prop
  | .error _ => True
  | .ok b => ∀ h, ZimHeader.parse w b.bytes = .ok h → DirentsFit w h.articleCount →
      (∃ dirents, direntsOf w b.bytes h = .ok dirents) ∨
      (r.header = some h ∧ r.data = b.bytes ∧ mimeListOf w b.bytes h = .ok r.mimeTypes)

/-- A reader that is loaded has the header, the MIME list and the entries of its bytes. -/
def Coherent (w : Nat) (r : ZimReader) : Prop :=
  r.loaded = true → ∃ h, r.header = some h ∧ ZimHeader.parse w r.data = .ok h ∧
    mimeListOf w r.data h = .ok r.mimeTypes ∧ direntsOf w r.data h = .ok r.dirents

/-- The readers of programs whose loads all spare them. -/
inductive Spared (w : Nat) : ZimReader → Prop
  | opened (filePath : String) : Spared w (.opened filePath)
  | loadIndex {r : ZimReader} (hr : Spared w r) (file : Except String (Buffer w)) (fuel : Nat)
      (hfile : Spares w r file) (hcalm : (r.loadIndex w (file.map Buffer.bytes) fuel).1.Calm) :
      Spared w (r.loadIndex w (file.map Buffer.bytes) fuel).2

/-! ## What a load does -/

/-- **What a load that returns does**: it fails at the header, it takes everything over, or it fails at an entry and has
taken over the rest. -/
theorem loadIndex_cases (hw : 32 ≤ w) (hlen : data.length < 2 ^ (w - 1)) (r : ZimReader) {fuel : Nat}
    (hcalm : (r.loadIndex w (.ok data) fuel).1.Calm) :
    (∃ e, ZimHeader.parse w data = .error e ∧ r.loadIndex w (.ok data) fuel = (.error e, r)) ∨
    ∃ h mimeTypes, ZimHeader.parse w data = .ok h ∧ DirentsFit w h.articleCount ∧ mimeListOf w data h = .ok mimeTypes ∧
      ((∃ dirents, direntsOf w data h = .ok dirents ∧
        r.loadIndex w (.ok data) fuel = (.ok (), ⟨r.filePath, some h, true, data, dirents, mimeTypes⟩)) ∨
      ∃ e, direntsOf w data h = .error e ∧
        r.loadIndex w (.ok data) fuel = (.error e, ⟨r.filePath, some h, r.loaded, data, r.dirents, mimeTypes⟩)) := by
  obtain ⟨e, hparse, hload⟩ | ⟨h, hparse, hload⟩ := proceed_cases hcalm
  · exact .inl ⟨e, hparse, hload⟩
  have hwithin := (parse_meets hw hlen).2 h hparse
  have hstop : h.clusterPtrPos ≤ data.length := by
    obtain ⟨_, _, hclusters, hurls, htitles, hinside⟩ := hwithin
    omega
  have hmime := (mime_meets hw hlen hstop (Nat.lt_succ_of_le hstop) h.mimeListPos).1
  replace hcalm := (calm_proceed.mp hcalm).2 h hparse
  obtain ⟨e, hlist, -⟩ | ⟨mimeTypes, hlist, hload'⟩ := proceed_cases hcalm
  · exact absurd hlist (loop_ne_error (mimeStep_ne_error w data _ e) _ _)
  have hsame : mimeListOf w data h = .ok mimeTypes := by
    rw [← hlist]
    exact (settles_loop _ _).eq hmime.2 (by rw [hlist]; nofun)
  replace hcalm := (calm_proceed.mp hcalm).2 mimeTypes hlist
  have hroom : DirentsFit w h.articleCount := calm_withCapacity.mp (calm_proceed.mp hcalm).1
  obtain ⟨e, hreserve, -⟩ | ⟨_, hreserve, hload''⟩ := proceed_cases hcalm
  · rw [withCapacity_eq_ok.mpr hroom] at hreserve
    cases hreserve
  replace hcalm := (calm_proceed.mp hcalm).2 () hreserve
  have hrest := hload.trans (hload'.trans hload'')
  refine .inr ⟨h, mimeTypes, hparse, hroom, hsame, ?_⟩
  obtain ⟨e, hdirents, hfail⟩ | ⟨dirents, hdirents, hdone⟩ := proceed_cases hcalm
  · exact .inr ⟨e, hdirents, hrest.trans hfail⟩
  · exact .inl ⟨dirents, hdirents, hrest.trans hdone⟩

/-- **A failed load leaves the reader as it was exactly when it fails before the entries or changes nothing.** -/
theorem atomic_iff (hw : 32 ≤ w) (r : ZimReader) (file : Except String (Buffer w)) :
    Atomic w r file ↔ Spares w r file := by
  cases file with
  | error err => exact iff_of_true (fun _ _ _ => rfl) trivial
  | ok b =>
    obtain ⟨data, hlen⟩ := b
    constructor
    · intro hatomic h hh hroom
      have hfits : IndexFits w data := fun h' hh' => Outcome.ok.inj (hh.symm.trans hh') ▸ hroom
      obtain ⟨fuel, hcalm⟩ := (safe_loadIndex hw r ⟨data, hlen⟩).mpr hfits
      rcases loadIndex_cases hw hlen r hcalm with ⟨e, herror, -⟩ | ⟨h', mimeTypes, hok, -, hmime, hrest⟩
      · rw [hh] at herror
        cases herror
      · obtain rfl := Outcome.ok.inj (hh.symm.trans hok)
        rcases hrest with ⟨dirents, hdirents, -⟩ | ⟨e, -, hload⟩
        · exact .inl ⟨dirents, hdirents⟩
        · have hsame := hatomic fuel e (congrArg Prod.fst hload)
          have hstate := (congrArg Prod.snd hload).symm.trans hsame
          have hmimes : mimeTypes = r.mimeTypes := congrArg ZimReader.mimeTypes hstate
          exact .inr ⟨(congrArg ZimReader.header hstate).symm, (congrArg ZimReader.data hstate).symm, hmimes ▸ hmime⟩
    · intro hspares fuel e hfail
      have hcalm : (r.loadIndex w (.ok data) fuel).1.Calm := by
        show (r.loadIndex w ((Except.ok ⟨data, hlen⟩ : Except String (Buffer w)).map Buffer.bytes) fuel).1.Calm
        rw [hfail]
        exact calm_error e
      show (r.loadIndex w (.ok data) fuel).2 = r
      have hfail' : (r.loadIndex w (.ok data) fuel).1 = .error e := hfail
      rcases loadIndex_cases hw hlen r hcalm with ⟨e', -, hload⟩ | ⟨h, mimeTypes, hok, hroom, hmime, hrest⟩
      · rw [hload]
      · rcases hrest with ⟨dirents, -, hload⟩ | ⟨e', hdirents, hload⟩
        · rw [hload] at hfail'
          cases hfail'
        · rcases hspares h hok hroom with ⟨dirents, hdirents'⟩ | ⟨hheader, hdata, hmime'⟩
          · rw [hdirents] at hdirents'
            cases hdirents'
          · obtain rfl := Outcome.ok.inj (hmime.symm.trans hmime')
            rw [hload, ← hheader]
            subst hdata
            rfl

/-! ## Runs -/

/-- **A reader all of whose loads spare it has the entries of its own bytes.** -/
theorem Spared.coherent (hw : 32 ≤ w) (hr : Spared w r) : Coherent w r := by
  induction hr with
  | opened filePath => exact nofun
  | @loadIndex r hr file fuel hfile hcalm ih =>
    have hatomic := (atomic_iff hw r file).mpr hfile fuel
    cases file with
    | error err => exact ih
    | ok b =>
      obtain ⟨data, hlen⟩ := b
      rcases loadIndex_cases hw hlen r hcalm with ⟨e, -, hload⟩ | ⟨h, mimeTypes, hok, -, hmime, hrest⟩
      · exact (hatomic e (congrArg Prod.fst hload)).symm ▸ ih
      · rcases hrest with ⟨dirents, hdirents, hload⟩ | ⟨e, -, hload⟩
        · have hstate : (r.loadIndex w ((Except.ok ⟨data, hlen⟩ : Except String (Buffer w)).map Buffer.bytes) fuel).2 =
              ⟨r.filePath, some h, true, data, dirents, mimeTypes⟩ := congrArg Prod.snd hload
          rw [hstate]
          exact fun _ => ⟨h, rfl, hok, hmime, hdirents⟩
        · exact (hatomic e (congrArg Prod.fst hload)).symm ▸ ih

/-- **A failed load leaves the reader as it was exactly when it fails before the entries or changes nothing, and where
that is so at every load a reader has the entries of its own bytes.** -/
theorem loadIndex_atomic_iff (hw : 32 ≤ w) :
    (∀ (r : ZimReader) (file : Except String (Buffer w)), Atomic w r file ↔ Spares w r file) ∧
    ∀ r : ZimReader, Spared w r → Coherent w r :=
  ⟨atomic_iff hw, fun _ hr => hr.coherent hw⟩

/-! ## A file that changes between two loads -/

/-- A file with one article of one byte, and the place where its table says that the entry is. -/
def smallZim (entry : Nat) (content : UInt8) : Bytes :=
  zimMagic ++ leBytes 2 6 ++ leBytes 2 3 ++ List.replicate 16 0 ++ leBytes 4 80 ++ leBytes 4 1 ++ leBytes 4 0 ++
    [0, 0, 0, 0, 0] ++ utf8Bytes "a/b" ++ [0] ++ leBytes 4 76 ++ leBytes 4 entry ++ leBytes 4 57 ++
    utf8Bytes "A" ++ [0] ++ utf8Bytes "t" ++ [0, 0x41] ++ leBytes 2 0 ++ leBytes 4 0 ++ leBytes 4 1 ++ leBytes 4 1 ++
    [compNone] ++ leBytes 4 1 ++ [content]

/-- The reader of the first version of the file. -/
def firstReader : ZimReader := ((ZimReader.opened "wiki.zim").loadIndex 64 (.ok (smallZim 57 0x61)) 200).2

/-- The header of both versions. -/
def smallHeader : ZimHeader := ⟨6, 3, List.replicate 16 0, 80, 1, 0, "", "", "", "", "", 41, 45, 49, 53⟩

/-- Loading the file a second time spares the reader if the entry is where it was, and not if it is beyond the end. -/
theorem loadIndex_atomic_small :
    Atomic 64 firstReader (.ok ⟨smallZim 57 0x62, by decide⟩) ∧
    ¬Atomic 64 firstReader (.ok ⟨smallZim 1000 0x62, by decide⟩) ∧ Coherent 64 firstReader := by
  obtain ⟨hatomic, hcoherent⟩ := loadIndex_atomic_iff (w := 64) (by decide)
  have hspares : ∀ (r : ZimReader) (content : UInt8), direntsOf 64 (smallZim 57 content) smallHeader =
      .ok [⟨"A", "t", 'A', 0, 0, 1, 1⟩] → ZimHeader.parse 64 (smallZim 57 content) = .ok smallHeader →
      (hlen : (smallZim 57 content).length < 2 ^ 63) → Spares 64 r (.ok ⟨smallZim 57 content, hlen⟩) := by
    intro r content hdirents hparse hlen h hh _
    obtain rfl := Outcome.ok.inj (hparse.symm.trans hh)
    exact .inl ⟨_, hdirents⟩
  refine ⟨(hatomic firstReader _).mpr (hspares _ _ (by decide +kernel) (by decide +kernel) _), fun hsecond => ?_, ?_⟩
  · have hcases := (hatomic firstReader _).mp hsecond smallHeader (by decide +kernel) (by decide)
    rcases hcases with ⟨dirents, hdirents⟩ | ⟨_, hdata, _⟩
    · rw [show direntsOf 64 (smallZim 1000 0x62) smallHeader = .error (.outOfBounds 1000 82) by decide +kernel]
        at hdirents
      cases hdirents
    · exact absurd hdata (by decide +kernel)
  · exact hcoherent firstReader (.loadIndex (.opened "wiki.zim") (.ok ⟨smallZim 57 0x61, by decide⟩) 200
      (hspares _ _ (by decide +kernel) (by decide +kernel) _) (by decide +kernel))

/-- **The article of the first version is served with the bytes of the second, which could not be loaded.** -/
theorem mixes_versions :
    ((ZimReader.opened "wiki.zim").loadIndex 64 (.ok (smallZim 57 0x61)) 200).1 = .ok () ∧
    (firstReader.loadIndex 64 (.ok (smallZim 1000 0x62)) 200).1 = .error (.outOfBounds 1000 82) ∧
    (firstReader.loadIndex 64 (.ok (smallZim 1000 0x62)) 200).2.data ≠ firstReader.data ∧
    firstReader.getArticle 64 noCodec "A" 200 = .ok (some ⟨"A", "t", "a/b", [0x61], 1, true, 'A', 0⟩) ∧
    (firstReader.loadIndex 64 (.ok (smallZim 1000 0x62)) 200).2.getArticle 64 noCodec "A" 200 =
      .ok (some ⟨"A", "t", "a/b", [0x62], 1, true, 'A', 0⟩) := by
  decide +kernel

end Onde.Zim
