import Mathlib.Data.Set.Finite.Basic
import Onde.Zim.Parser

/-!
# When is reading a ZIM file safe?

No read of the parser may leave the file, and every call must come to an end, whatever the bytes are.

* `parse_meets`, `dirent_meets`, `mime_meets`: the header, the entries and the MIME list, on every file;
* `IndexFits`: there is room for the vector of the entries (`safe_loadIndex`);
* `ClusterFits`: no size field met in a cluster carries the sum past the last word (`safe_parseCluster`);
* `ComesBack`: the walk of an LZ4 block comes back to a token (`safe_lz4`), which takes a long block (`lz4_short`);
* `ArticleFits`: both of them, and the pointers of the table of the clusters (`safe_getArticle`);
* `zim_safe_iff`: everything together; on 64 bits every file is safe (`indexFits_wide`, `getArticle_wide`).
-/

namespace Onde.Zim

open Lib Outcome

variable {w : Nat} {data : Bytes}

/-! ## The words of the machine -/

theorem two_pow_half (hw : 32 ≤ w) : 2 ^ w = 2 * 2 ^ (w - 1) ∧ 2 ^ 31 ≤ 2 ^ (w - 1) := by
  refine ⟨?_, Nat.pow_le_pow_right (by decide) (by omega)⟩
  rw [← Nat.pow_succ', Nat.succ_eq_add_one, Nat.sub_add_cancel (by omega)]

/-- Small steps inside a file do not wrap. -/
theorem wadd_inside (hw : 32 ≤ w) (hlen : data.length < 2 ^ (w - 1)) {a b : Nat} (ha : a ≤ data.length)
    (hb : b ≤ 2 ^ 31) : wadd w a b = a + b := by
  obtain ⟨hdouble, hhalf⟩ := two_pow_half hw
  exact wadd_eq (by omega)

theorem wadd_within (hw : 32 ≤ w) (hlen : data.length < 2 ^ (w - 1)) {a b : Nat} (h : a + b ≤ data.length) :
    wadd w a b = a + b := by
  obtain ⟨hdouble, _⟩ := two_pow_half hw
  exact wadd_eq (by omega)

theorem findNul_lt {bs : Bytes} {i : Nat} (h : findNul bs = some i) : i < bs.length :=
  (List.findIdx?_eq_some_iff_findIdx_eq.mp h).1

/-! ## The header and the entries -/

theorem readLe_meets (n : Nat) (data : Bytes) (p : Nat) : (readLe n w data p).Meets fun v => v < 256 ^ n := by
  unfold readLe
  refine (meets_okOr _ _).bind fun bs _ => (meets_failIf _ _).bind fun _ hlen => ?_
  exact meets_wordAt (by rw [Nat.zero_add, not_not.mp hlen])

/-- A text is inside the file, and so is what follows it. -/
theorem readCstr_meets (hw : 32 ≤ w) (hlen : data.length < 2 ^ (w - 1)) {start : Nat} (hs : start ≤ data.length) :
    (readCstr w data start).Meets fun r => r.2 ≤ data.length := by
  unfold readCstr
  rw [sliceFrom_eq_ok hs, ok_bind]
  refine (meets_okOr _ _).bind fun i hi => ?_
  have hlt := findNul_lt hi
  rw [List.length_drop] at hlt
  rw [wadd_within hw hlen (by omega), wadd_within hw hlen (by omega)]
  exact (meets_slice (Nat.le_add_right start i) (by omega)).bind fun bs _ => meets_ok (by omega)

theorem tableEnd_meets (data : Bytes) (articleCount pos : Nat) : (tableEnd data articleCount pos).Meets fun stop =>
    stop = pos + articleCount * 4 ∧ stop ≤ data.length ∧ stop < 2 ^ 32 := by
  unfold tableEnd
  refine (meets_failIf _ _).bind fun _ h => meets_ok ?_
  omega

/-- The tables of the header are in the file, one after the other. -/
structure ZimHeader.Within (h : ZimHeader) (data : Bytes) : Prop where
  header : 36 ≤ data.length
  small : h.articleCount * 4 < 2 ^ 32
  clusters : h.clusterPtrPos = h.mimeListPos + h.articleCount * 4
  urls : h.urlPtrPos = h.clusterPtrPos + h.articleCount * 4
  titles : h.titlePtrPos = h.urlPtrPos + h.articleCount * 4
  inside : h.titlePtrPos ≤ data.length

/-- **The header is read, or refused.** -/
theorem parse_meets (hw : 32 ≤ w) (hlen : data.length < 2 ^ (w - 1)) :
    (ZimHeader.parse w data).Meets fun h => h.Within data := by
  unfold ZimHeader.parse
  refine (meets_okOr _ _).bind fun magic _ => (meets_failIf _ _).bind fun _ _ => (meets_failIf _ _).bind fun _ _ => ?_
  refine (meets_okOr _ _).bind fun ver _ => (meets_failIf _ _).bind fun _ hver => ?_
  have hverlen : ver.length = 4 := not_not.mp hver
  refine (meets_wordAt (by omega)).bind fun major _ => (meets_wordAt (by omega)).bind fun minor _ => ?_
  refine (meets_failIf _ _).bind fun _ _ => (meets_okOr _ _).bind fun uuid _ => (meets_failIf _ _).bind fun _ _ => ?_
  refine (meets_okOr _ _).bind fun fixed hfixed => (meets_failIf _ _).bind fun _ hfix => ?_
  have hfixlen : fixed.length = 12 := not_not.mp hfix
  have hstart : 36 ≤ data.length := (getRange_eq_some.mp hfixed).2.1
  refine (meets_wordAt (by omega)).bind fun _ _ => (meets_wordAt (by omega)).bind fun articleCount _ => ?_
  refine (meets_wordAt (by omega)).bind fun _ _ => (readCstr_meets hw hlen hstart).bind fun creator h₁ => ?_
  refine (readCstr_meets hw hlen h₁).bind fun publisher h₂ => (readCstr_meets hw hlen h₂).bind fun title h₃ => ?_
  refine (readCstr_meets hw hlen h₃).bind fun description h₄ => (readCstr_meets hw hlen h₄).bind fun language _ => ?_
  refine (tableEnd_meets _ _ _).bind fun clusterPtrPos hc => (tableEnd_meets _ _ _).bind fun urlPtrPos hu => ?_
  refine (tableEnd_meets _ _ _).bind fun titlePtrPos ht => meets_ok ⟨hstart, ?_, hc.1, hu.1, ht.1, ht.2.1⟩
  dsimp only
  omega

theorem direntText_meets (hw : 32 ≤ w) (hlen : data.length < 2 ^ (w - 1)) {start : Nat} (hs : start ≤ data.length) :
    (direntText w data start).Meets fun r => r.2 < data.length := by
  unfold direntText
  rw [sliceFrom_eq_ok hs, ok_bind]
  refine (meets_okOr _ _).bind fun i hi => ?_
  have hlt := findNul_lt hi
  rw [List.length_drop] at hlt
  rw [wadd_within hw hlen (by omega)]
  refine (meets_failIf _ _).bind fun _ _ => ?_
  exact (meets_slice (Nat.le_add_right start i) (by omega)).bind fun bs _ => meets_ok (by dsimp only; omega)

/-- **An entry is read, or refused.** -/
theorem dirent_meets (hw : 32 ≤ w) (hlen : data.length < 2 ^ (w - 1)) (off : Nat) :
    (Dirent.parse w data off).Meets fun d => d.clusterIndex < 2 ^ 32 := by
  unfold Dirent.parse
  refine (meets_failIf _ _).bind fun _ hoff => ?_
  refine (direntText_meets hw hlen (by omega)).bind fun url hurl => ?_
  rw [wadd_within hw hlen (by omega)]
  refine (direntText_meets hw hlen (by omega)).bind fun title _ => (meets_okOr _ _).bind fun ns _ => ?_
  refine (readLe_meets 2 _ _).bind fun _ _ => (readLe_meets 4 _ _).bind fun clusterIndex hc => ?_
  refine (readLe_meets 4 _ _).bind fun _ _ => (readLe_meets 4 _ _).bind fun _ _ => ?_
  exact (meets_failIf _ _).bind fun _ _ => meets_ok hc

/-- **The MIME list is read to its end.** -/
theorem mime_meets (hw : 32 ≤ w) (hlen : data.length < 2 ^ (w - 1)) {stop fuel : Nat} (hstop : stop ≤ data.length)
    (hfuel : stop < fuel) (pos : Nat) : (loop (ZimReader.mimeStep w data stop) fuel (pos, [])).Meets fun _ => True := by
  refine meets_loop (I := fun _ => True) (fun s => stop - s.1) ?_ trivial (by dsimp only; omega)
  rintro ⟨pos, acc⟩ -
  unfold ZimReader.mimeStep
  dsimp only
  split
  · next hpos =>
    rw [sliceFrom_eq_ok (by omega), ok_bind]
    split
    · next i hi =>
      have hlt := findNul_lt hi
      rw [List.length_drop] at hlt
      have hnul : wadd w pos i = pos + i := wadd_within hw hlen (by omega)
      have hone : wadd w i 1 = i + 1 := wadd_within hw hlen (by omega)
      have hnext : wadd w pos (i + 1) = pos + (i + 1) := wadd_within hw hlen (by omega)
      rw [hnul, hone, hnext]
      refine (meets_slice (Nat.le_add_right pos i) (by omega)).bind fun bs _ => meets_ok ⟨trivial, ?_⟩
      dsimp only
      omega
    · exact meets_ok trivial
  · exact meets_ok trivial

/-- Reading the MIME list never fails. -/
theorem mimeStep_ne_error (w : Nat) (data : Bytes) (stop : Nat) (e : ZimError) (s : Nat × List String) :
    ZimReader.mimeStep w data stop s ≠ .error e := by
  have hslice : ∀ a b, (slice data a b : Result Bytes) ≠ .error e := by
    intro a b
    unfold slice
    split
    · nofun
    · nofun
  unfold ZimReader.mimeStep sliceFrom
  split
  · split
    · rw [ok_bind]
      split
      · next i hi =>
        intro heq
        cases hs : (slice data s.1 (wadd w s.1 i) : Result Bytes) with
        | ok bs =>
          rw [hs] at heq
          cases heq
        | error e' =>
          rw [hs] at heq
          cases heq
          exact hslice _ _ hs
        | panic =>
          rw [hs] at heq
          cases heq
        | running =>
          rw [hs] at heq
          cases heq
      · nofun
    · nofun
  · nofun

/-- The entry of an article is read, or refused. -/
theorem direntAt_meets (hw : 32 ≤ w) (hlen : data.length < 2 ^ (w - 1)) {h : ZimHeader} (hh : h.Within data) {i : Nat}
    (hi : i < h.articleCount) : (ZimReader.direntAt w data h i).Meets fun d => d.clusterIndex < 2 ^ 32 := by
  obtain ⟨hdouble, _⟩ := two_pow_half hw
  obtain ⟨_, _, hclusters, hurls, htitles, hinside⟩ := hh
  unfold ZimReader.direntAt
  have hbase : wadd w h.urlPtrPos (wmul w i 4) = h.urlPtrPos + i * 4 := by
    rw [wmul_eq (by omega), wadd_within hw hlen (by omega)]
  have hend : wadd w (h.urlPtrPos + i * 4) 4 = h.urlPtrPos + i * 4 + 4 := wadd_within hw hlen (by omega)
  rw [hbase]
  dsimp only
  rw [hend]
  refine (meets_failIf _ _).bind fun _ hinside => (meets_wordAt (by omega)).bind fun off _ => ?_
  exact dirent_meets hw hlen off

/-! ## The clusters -/

/-- The size field at a place. -/
def sizeAt (data : Bytes) (p : Nat) : Nat := ofLe ((data.drop p).take 4)

/-- The walk from `pos` meets a size field, blob after blob, without wrapping. -/
inductive BlobAt (data : Bytes) (stop : Nat) : Nat → Nat → Prop
  | here {pos : Nat} (h : pos + 4 ≤ stop) : BlobAt data stop pos pos
  | next {pos q : Nat} (h : pos + 4 ≤ stop) (hfits : pos + 4 + sizeAt data pos ≤ stop)
    (hq : BlobAt data stop (pos + 4 + sizeAt data pos) q) : BlobAt data stop pos q

/-- The end of every blob met fits in a word. -/
def WalkFits (w : Nat) (data : Bytes) (stop pos : Nat) : Prop :=
  ∀ q, BlobAt data stop pos q → q + 4 + sizeAt data q < 2 ^ w

/-- The head of the cluster is refused, or the end of every blob fits in a word. -/
def ClusterFits (w : Nat) (data : Bytes) (start stop : Nat) : Prop :=
  start < data.length → stop ≤ data.length → start < stop →
    data[start]? = some compNone ∨ data[start]? = some compLz4 ∨ data[start]? = some compZstd →
    WalkFits w data stop (start + 1)

theorem sizeAt_lt (data : Bytes) (p : Nat) : sizeAt data p < 2 ^ 32 := word_lt data p 4

theorem BlobAt.inside {stop pos q : Nat} (hq : BlobAt data stop pos q) : q + 4 ≤ stop := by
  induction hq with
  | here h => exact h
  | next _ _ _ ih => exact ih

theorem readU32_eq (hw : 32 ≤ w) (hlen : data.length < 2 ^ (w - 1)) {p : Nat} (hp : p + 4 ≤ data.length) :
    readU32 w data p = .ok (sizeAt data p) := by
  have hrange : getRange data p (p + 4) = some ((data.drop p).take 4) :=
    getRange_eq_some.mpr ⟨Nat.le_add_right p 4, hp, by rw [Nat.add_sub_cancel_left]⟩
  have hfour := length_of_getRange hrange
  rw [readU32, readLe, wadd_within hw hlen hp, hrange]
  show (failIf _ _ >>= fun _ => _) = _
  rw [failIf, if_neg (by rw [hfour]; omega), ok_bind, wordAt_eq_ok (by omega), List.drop_zero, sizeAt,
    List.take_take]
  rfl

/-- **One step of the walk**: the end, a field cut short, a blob too long, a sum that wraps, or the next blob. -/
theorem blobStep_cases (hw : 32 ≤ w) (hlen : data.length < 2 ^ (w - 1)) {stop : Nat} (hstop : stop ≤ data.length)
    (start pos : Nat) (acc : List BlobRaw) :
    let step := blobStep w data start stop (pos, acc)
    (stop ≤ pos ∧ step = .ok (.inr acc)) ∨
    (pos < stop ∧ stop < pos + 4 ∧ step = .error .truncatedHeader) ∨
    (pos + 4 ≤ stop ∧ pos + 4 + sizeAt data pos < 2 ^ w ∧ stop < pos + 4 + sizeAt data pos ∧
      step = .error (.outOfBounds (asU32 (pos + 4 + sizeAt data pos)) (asU32 data.length))) ∨
    (pos + 4 ≤ stop ∧ 2 ^ w ≤ pos + 4 + sizeAt data pos ∧ step = .panic) ∨
    (pos + 4 + sizeAt data pos ≤ stop ∧ step = .ok (.inl (pos + 4 + sizeAt data pos,
      acc ++ [⟨asU32 (pos - start), sizeAt data pos, (data.drop (pos + 4)).take (sizeAt data pos)⟩]))) := by
  obtain ⟨hdouble, hhalf⟩ := two_pow_half hw
  have hsize := sizeAt_lt data pos
  have hword : 2 ^ 32 ≤ 2 ^ w := Nat.pow_le_pow_right (by decide) hw
  dsimp only
  unfold blobStep
  dsimp only
  by_cases hpos : pos < stop
  · rw [if_pos hpos, wadd_inside hw hlen (by omega) (by decide)]
    by_cases hshort : stop < pos + 4
    · rw [failIf, if_pos hshort]
      exact Or.inr (Or.inl ⟨hpos, hshort, rfl⟩)
    rw [failIf, if_neg hshort, ok_bind, readU32_eq hw hlen (by omega), ok_bind]
    by_cases hwraps : pos + 4 + sizeAt data pos < 2 ^ w
    · rw [wadd_eq hwraps]
      by_cases hlong : stop < pos + 4 + sizeAt data pos
      · rw [failIf, if_pos hlong]
        exact Or.inr (Or.inr (Or.inl ⟨by omega, hwraps, hlong, rfl⟩))
      · have hrange : getRange data (pos + 4) (pos + 4 + sizeAt data pos) =
            some ((data.drop (pos + 4)).take (sizeAt data pos)) :=
          getRange_eq_some.mpr ⟨by omega, by omega, by rw [Nat.add_sub_cancel_left]⟩
        rw [failIf, if_neg hlong, ok_bind, slice_eq_ok.mpr hrange]
        exact Or.inr (Or.inr (Or.inr (Or.inr ⟨by omega, rfl⟩)))
    · -- The sum wraps below its first summand, so the slice would end before it begins.
      have hsum : wadd w (pos + 4) (sizeAt data pos) = pos + 4 + sizeAt data pos - 2 ^ w := by
        rw [wadd, Nat.mod_eq_sub_mod (by omega), Nat.mod_eq_of_lt (by omega)]
      have hrange : getRange data (pos + 4) (wadd w (pos + 4) (sizeAt data pos)) = none := by
        rw [getRange, if_neg (by omega)]
      rw [failIf, if_neg (by omega), ok_bind, slice, hrange]
      exact Or.inr (Or.inr (Or.inr (Or.inl ⟨by omega, by omega, rfl⟩)))
  · rw [if_neg hpos]
    exact Or.inl ⟨by omega, rfl⟩

theorem walkFits_of_short {stop pos : Nat} (h : stop < pos + 4) : WalkFits w data stop pos := by
  intro q hq
  cases hq <;> omega

/-- **The walk is calm exactly if the end of every blob it meets fits in a word.** -/
theorem walk_calm_iff (hw : 32 ≤ w) (hlen : data.length < 2 ^ (w - 1)) {stop : Nat} (hstop : stop ≤ data.length)
    (start : Nat) {n pos : Nat} (acc : List BlobRaw) (hfuel : stop - pos < n) :
    (loop (blobStep w data start stop) n (pos, acc)).Calm ↔ WalkFits w data stop pos := by
  obtain ⟨hdouble, _⟩ := two_pow_half hw
  induction n generalizing pos acc with
  | zero => omega
  | succ n ih =>
    rcases blobStep_cases hw hlen hstop start pos acc with
      ⟨hend, hstep⟩ | ⟨_, hshort, hstep⟩ | ⟨_, hword, hlong, hstep⟩ | ⟨hfield, hwraps, hstep⟩ | ⟨hfits, hstep⟩
    · rw [loop_done hstep]
      exact iff_of_true (calm_ok _) (walkFits_of_short (by omega))
    · rw [loop, hstep]
      exact iff_of_true (calm_error _) (walkFits_of_short hshort)
    · rw [loop, hstep]
      refine iff_of_true (calm_error _) fun q hq => ?_
      cases hq with
      | here => exact hword
      | next _ hfits => omega
    · rw [loop, hstep]
      exact iff_of_false not_calm_panic fun h => absurd (h pos (.here hfield)) (by omega)
    · rw [loop_again hstep, ih _ (by omega)]
      constructor
      · intro h q hq
        cases hq with
        | here => omega
        | next _ _ hq => exact h q hq
      · exact fun h q hq => h q (.next (by omega) hfits hq)

theorem settles_parseCluster (w : Nat) (data : Bytes) (start stop : Nat) :
    Settles (parseCluster w data start stop) := by
  refine Settles.bind (settles_const _) fun _ => Settles.bind (settles_const _) fun code => ?_
  refine Settles.bind (settles_const _) fun _ => Settles.bind (settles_loop _ _) fun blobs => settles_const _

/-- Behind its guards a cluster is its walk. -/
theorem parseCluster_eq (hw : 32 ≤ w) (hlen : data.length < 2 ^ (w - 1)) {start stop : Nat} {code : UInt8}
    (hstart : start < data.length) (hstop : stop ≤ data.length) (hlt : start < stop) (hcode : data[start]? = some code)
    (hknown : code = compNone ∨ code = compLz4 ∨ code = compZstd) (fuel : Nat) :
    parseCluster w data start stop fuel =
      loop (blobStep w data start stop) fuel (start + 1, []) >>= fun blobs => .ok (code, blobs) := by
  have hone : wadd w start 1 = start + 1 := wadd_within hw hlen (by omega)
  unfold parseCluster
  rw [hone, failIf, if_neg (by omega), ok_bind, hcode, okOr, ok_bind, failIf, if_neg (by tauto), ok_bind]
  rfl

/-- **A cluster is read safely exactly if it fits.** -/
theorem safe_parseCluster (hw : 32 ≤ w) (hlen : data.length < 2 ^ (w - 1)) (start stop : Nat) :
    Safe (parseCluster w data start stop) ↔ ClusterFits w data start stop := by
  by_cases hguard : start < data.length ∧ stop ≤ data.length ∧ start < stop
  · obtain ⟨hstart, hstop, hlt⟩ := hguard
    obtain ⟨code, hcode⟩ : ∃ code, data[start]? = some code := ⟨_, List.getElem?_eq_getElem hstart⟩
    by_cases hknown : code = compNone ∨ code = compLz4 ∨ code = compZstd
    · have heq := parseCluster_eq hw hlen hstart hstop hlt hcode hknown
      have hwalk : Safe (fun n => loop (blobStep w data start stop) n (start + 1, [])) ↔
          WalkFits w data stop (start + 1) := by
        constructor
        · rintro ⟨n, hn⟩
          refine (walk_calm_iff hw hlen hstop start [] (n := max n (stop + 1)) (by omega)).mp ?_
          have hmore := settles_loop (blobStep w data start stop) (start + 1, []) n _
            (Nat.le_max_left n (stop + 1)) hn.2
          dsimp only at hmore
          rw [hmore]
          exact hn
        · exact fun h => ⟨stop + 1, (walk_calm_iff hw hlen hstop start [] (by omega)).mpr h⟩
      rw [show parseCluster w data start stop = _ from funext heq,
        safe_bind (settles_loop _ _) fun _ => settles_const _, hwalk]
      refine ⟨fun h _ _ _ _ => h.1, fun h => ⟨h hstart hstop hlt ?_, fun _ _ _ => safe_const.mpr (calm_ok _)⟩⟩
      rw [hcode]
      exact hknown.imp (congrArg some) (Or.imp (congrArg some) (congrArg some))
    · refine iff_of_true ⟨0, ?_⟩ fun _ _ _ h => absurd ?_ hknown
      · unfold parseCluster
        refine (calm_failIf _ _).bind fun _ _ => (calm_okOr _ _).bind fun code' hcode' => ?_
        obtain rfl := Option.some.inj (hcode.symm.trans (okOr_eq_ok.mp hcode'))
        rw [failIf, if_pos (by tauto)]
        exact calm_error _
      · rw [hcode] at h
        exact h.imp Option.some.inj (Or.imp Option.some.inj Option.some.inj)
  · refine iff_of_true ⟨0, ?_⟩ fun hstart hstop hlt => absurd ⟨hstart, hstop, hlt⟩ hguard
    unfold parseCluster
    have hrefused : data.length ≤ start ∨ data.length < stop ∨ stop < wadd w start 1 := by
      by_cases hstart : start < data.length
      · rw [wadd_within hw hlen (by omega)]
        omega
      · omega
    rw [failIf, if_pos hrefused]
    exact calm_error _

/-! ## The LZ4 blocks -/

variable {src : Bytes}

theorem calm_lsic (w : Nat) : ∀ (bs : Bytes) (n pos : Nat), (lsic w bs n pos).Calm
  | [], _, _ => calm_error _
  | b :: bs, n, pos => by
    rw [lsic]
    split
    · exact calm_ok _
    · exact calm_lsic w bs _ _

theorem calm_readLength (w : Nat) (src : Bytes) (base full pos : Nat) : (readLength w src base full pos).Calm := by
  unfold readLength
  split
  · exact (calm_lsic w _ _ _).bind fun _ _ => calm_ok _
  · exact calm_ok _

/-- No sequence faults. -/
theorem calm_lz4Sequence (w : Nat) (src : Bytes) (pos : Nat) : (lz4Sequence w src pos).Calm := by
  unfold lz4Sequence
  refine (calm_okOr _ _).bind fun token _ => (calm_readLength _ _ _ _ _).bind fun literal _ => ?_
  refine (calm_failIf _ _).bind fun _ _ => ?_
  dsimp only
  split
  · exact calm_ok _
  · exact (calm_failIf _ _).bind fun _ _ => (calm_readLength _ _ _ _ _).bind fun _ _ => calm_ok _

theorem calm_lz4Step (w : Nat) (src : Bytes) (s : Nat × Nat) : (lz4Step w src s).Calm := by
  unfold lz4Step
  refine (calm_lz4Sequence w src s.1).bind fun next _ => ?_
  cases next <;> exact calm_ok _

theorem lz4Step_eq_inl {s t : Nat × Nat} : lz4Step w src s = .ok (.inl t) ↔
    ∃ len, lz4Sequence w src s.1 = .ok (.inl (t.1, len)) ∧ t.2 = wadd w s.2 len := by
  unfold lz4Step
  cases lz4Sequence w src s.1 with
  | ok next =>
    cases next with
    | inl next =>
      obtain ⟨q, len⟩ := next
      constructor
      · intro h
        cases h
        exact ⟨len, rfl, rfl⟩
      · rintro ⟨len', hseq, htotal⟩
        cases hseq
        show Outcome.ok (Sum.inl (t.1, wadd w s.2 len)) = _
        rw [← htotal]
    | inr last => simp
  | error e => simp
  | panic => simp
  | running => simp

/-- A sequence begins with a token of the block. -/
theorem token_of_sequence {pos : Nat} {r : (Nat × Nat) ⊕ Nat} (h : lz4Sequence w src pos = .ok r) :
    pos < src.length := by
  unfold lz4Sequence at h
  obtain ⟨token, htoken, _⟩ := bind_eq_ok.mp h
  obtain ⟨hlt, _⟩ := List.getElem?_eq_some_iff.mp (okOr_eq_ok.mp htoken)
  exact hlt

/-- The walk comes back to a token it has read. -/
def WalksBack (w : Nat) (src : Bytes) : Prop := ComesBack (lz4Step w src) Prod.fst 0

/-- **A block is measured safely exactly if the walk never comes back.** -/
theorem safe_lz4 (w : Nat) (src : Bytes) : Safe (lz4BlockDecodedSize w src) ↔ ¬WalksBack w src := by
  refine loop_returns_iff (calm_lz4Step w src) (Set.finite_lt_nat src.length) ?_ ?_
  · intro s t hs
    obtain ⟨len, hseq, _⟩ := lz4Step_eq_inl.mp hs
    exact token_of_sequence hseq
  · intro s s' t hkey hs
    obtain ⟨len, hseq, _⟩ := lz4Step_eq_inl.mp hs
    rw [hkey] at hseq
    exact ⟨(t.1, wadd w s'.2 len), lz4Step_eq_inl.mpr ⟨len, hseq, rfl⟩, rfl⟩

/-- The bytes of a length add at most 255 each. -/
theorem lsic_le (bs : Bytes) : ∀ {n pos : Nat} {r : Nat × Nat}, pos + bs.length < 2 ^ w → lsic w bs n pos = .ok r →
    ∃ k, k ≤ bs.length ∧ r.2 = pos + k ∧ r.1 ≤ n + 255 * k := by
  induction bs with
  | nil =>
    intro n pos r _ h
    cases h
  | cons b bs ih =>
    intro n pos r hpos h
    rw [List.length_cons] at hpos ⊢
    have hb := b.toNat_lt
    have hone : wadd w pos 1 = pos + 1 := wadd_eq (by omega)
    have hmore : wadd w n b.toNat ≤ n + b.toNat := Nat.mod_le _ _
    rw [lsic, hone] at h
    split at h
    · cases h
      exact ⟨1, by omega, rfl, by dsimp only; omega⟩
    · obtain ⟨k, hk, hplace, hsum⟩ := ih (by omega) h
      exact ⟨k + 1, by omega, by omega, by omega⟩

theorem readLength_le {base full pos : Nat} {r : Nat × Nat} (hpos : pos ≤ src.length) (hlen : src.length < 2 ^ w)
    (h : readLength w src base full pos = .ok r) :
    ∃ k, pos + k ≤ src.length ∧ r.2 = pos + k ∧ r.1 ≤ base + 255 * k := by
  unfold readLength at h
  split at h
  · obtain ⟨more, hmore, h⟩ := bind_eq_ok.mp h
    cases h
    obtain ⟨k, hk, hplace, hsum⟩ := lsic_le (src.drop pos) (by rw [List.length_drop]; omega) hmore
    rw [List.length_drop] at hk
    have hbase : wadd w base more.1 ≤ base + more.1 := Nat.mod_le _ _
    exact ⟨k, by omega, hplace, by dsimp only; omega⟩
  · cases h
    exact ⟨0, by omega, rfl, by omega⟩

/-- **In a block of less than `2 ^ (w - 8)` bytes the walk goes forward only.** -/
theorem lz4_short (hw : 32 ≤ w) (hlen : src.length ≤ 2 ^ (w - 8)) : ¬WalksBack w src := by
  have hdouble : 2 ^ w = 256 * 2 ^ (w - 8) := by
    rw [show (256 : Nat) = 2 ^ 8 from rfl, ← Nat.pow_add, Nat.add_sub_cancel' (by omega)]
  have hpow := Nat.two_pow_pos (w - 8)
  have hforward : ∀ p q, After (lz4Step w src) Prod.fst p q → p < q := by
    rintro p q ⟨s, t, rfl, hs, rfl⟩
    obtain ⟨len, hseq, _⟩ := lz4Step_eq_inl.mp hs
    have htoken := token_of_sequence hseq
    unfold lz4Sequence at hseq
    obtain ⟨token, _, hseq⟩ := bind_eq_ok.mp hseq
    have hone : wadd w s.1 1 = s.1 + 1 := wadd_eq (by omega)
    have hnibble := token.toNat_lt
    rw [hone] at hseq
    obtain ⟨literal, hliteral, hseq⟩ := bind_eq_ok.mp hseq
    obtain ⟨k, hk, hplace, hsum⟩ := readLength_le (by omega) (by omega) hliteral
    have hliterals : wadd w literal.2 literal.1 = literal.2 + literal.1 := wadd_eq (by omega)
    obtain ⟨_, hroom, hseq⟩ := bind_eq_ok.mp hseq
    have hin := failIf_eq_ok.mp hroom
    rw [hliterals] at hseq hin
    dsimp only at hseq
    split at hseq
    · cases hseq
    · have htwo : wadd w (literal.2 + literal.1) 2 = literal.2 + literal.1 + 2 := wadd_eq (by omega)
      rw [htwo] at hseq
      obtain ⟨_, hroom, hseq⟩ := bind_eq_ok.mp hseq
      have hin' := failIf_eq_ok.mp hroom
      obtain ⟨copied, hcopied, hseq⟩ := bind_eq_ok.mp hseq
      obtain ⟨k', _, hplace', _⟩ := readLength_le (by omega) (by omega) hcopied
      have hnext := Outcome.ok.inj hseq
      injection hnext with hnext
      have hfst := congrArg Prod.fst hnext
      dsimp only at hfst
      omega
  rintro ⟨q, _, hcycle⟩
  have hlt : ∀ p, Relation.TransGen (After (lz4Step w src) Prod.fst) q p → q < p := by
    intro p h
    induction h with
    | single h => exact hforward _ _ h
    | tail _ h ih => exact ih.trans (hforward _ _ h)
  exact Nat.lt_irrefl q (hlt q hcycle)

/-! ## The articles -/

variable {codec : Codec} {r : ZimReader}

/-- The address of a pointer is not one of the last four. -/
def PointerFits (w table i : Nat) : Prop := wadd w table (wmul w i 4) + 4 < 2 ^ w

instance (w table i : Nat) : Decidable (PointerFits w table i) := inferInstanceAs (Decidable (_ < _))

theorem calm_tableEntry (hw : 32 ≤ w) (hlen : data.length < 2 ^ (w - 1)) (hfour : 4 ≤ data.length) (table i : Nat) :
    (ZimReader.tableEntry w data table i).Calm ↔ PointerFits w table i := by
  obtain ⟨hdouble, _⟩ := two_pow_half hw
  have hbase := wadd_lt w table (wmul w i 4)
  unfold ZimReader.tableEntry PointerFits
  dsimp only
  by_cases hfits : wadd w table (wmul w i 4) + 4 < 2 ^ w
  · rw [wadd_eq hfits]
    refine iff_of_true ?_ hfits
    split
    · exact calm_ok _
    · exact (calm_wordAt.mpr (by omega)).bind fun _ _ => calm_ok _
  · -- The bound wraps to one of the first four addresses, so the check passes and the read faults.
    have hwraps : wadd w (wadd w table (wmul w i 4)) 4 = wadd w table (wmul w i 4) + 4 - 2 ^ w := by
      rw [wadd, Nat.mod_eq_sub_mod (by omega), Nat.mod_eq_of_lt (by omega)]
    refine iff_of_false ?_ hfits
    rw [hwraps, if_neg (by omega), calm_bind, calm_wordAt]
    omega

theorem calm_boundBy (hw : 32 ≤ w) (hlen : data.length < 2 ^ (w - 1)) (hfour : 4 ≤ data.length)
    (table start stop i : Nat) : (ZimReader.boundBy w data table start stop i).Calm ↔ PointerFits w table i := by
  unfold ZimReader.boundBy
  rw [calm_bind, calm_tableEntry hw hlen hfour]
  refine and_iff_left fun off _ => ?_
  cases off <;> exact calm_ok _

/-- What every load leaves behind. -/
structure Sound (w : Nat) (r : ZimReader) : Prop where
  length_lt : r.data.length < 2 ^ (w - 1)
  within : ∀ h, r.header = some h → h.Within r.data
  dirents : 4 * r.dirents.length < 2 ^ (w - 1)
  indices : ∀ d ∈ r.dirents, d.clusterIndex < 2 ^ 32

/-- The readers a program can have: opened, then loaded any number of times. -/
inductive Reached (w : Nat) : ZimReader → Prop
  | opened (filePath : String) : Reached w (.opened filePath)
  | loadIndex {r : ZimReader} (hr : Reached w r) (file : Except String (Buffer w)) (fuel : Nat) :
    Reached w (r.loadIndex w (file.map Buffer.bytes) fuel).2

/-- A call that stops leaves the state as it is. -/
theorem proceed_keeps {α β : Type} {P : ZimReader → Prop} {m : Result α} {k : α → Result β × ZimReader} (hr : P r)
    (hk : ∀ a, m = .ok a → P (k a).2) : P (ZimReader.proceed m r k).2 := by
  cases m with
  | ok a => exact hk a rfl
  | error e => exact hr
  | panic => exact hr
  | running => exact hr

/-- **A load keeps the reader sound.** -/
theorem Sound.loadIndex (hw : 32 ≤ w) (hr : Sound w r) (file : Except String (Buffer w)) (fuel : Nat) :
    Sound w (r.loadIndex w (file.map Buffer.bytes) fuel).2 := by
  cases file with
  | error err => exact hr
  | ok b =>
    obtain ⟨data, hlen⟩ := b
    refine proceed_keeps hr fun h hh => ?_
    have hwithin := (parse_meets hw hlen).2 h hh
    have hkept : Sound w { r with header := some h, data := data } :=
      ⟨hlen, fun h' hh' => by cases hh'; exact hwithin, hr.dirents, hr.indices⟩
    refine proceed_keeps hkept fun mimeTypes _ => ?_
    have hlisted : Sound w { r with header := some h, data := data, mimeTypes := mimeTypes } :=
      ⟨hkept.length_lt, hkept.within, hkept.dirents, hkept.indices⟩
    refine proceed_keeps hlisted fun _ _ => proceed_keeps hlisted fun dirents hd => ?_
    obtain ⟨hcount, hindices⟩ := (meets_mapM fun i hi =>
      direntAt_meets hw hlen hwithin (List.mem_range.mp hi)).2 dirents hd
    obtain ⟨_, _, hclusters, hurls, htitles, hinside⟩ := hwithin
    rw [List.length_range] at hcount
    exact ⟨hlen, hkept.within, by dsimp only; omega, hindices⟩

theorem Reached.sound (hw : 32 ≤ w) (hr : Reached w r) : Sound w r := by
  induction hr with
  | opened filePath => exact ⟨Nat.two_pow_pos _, nofun, Nat.two_pow_pos _, nofun⟩
  | loadIndex _ file fuel ih => exact ih.loadIndex hw file fuel

/-- The entries, put into one vector, take up less than half of the address space. -/
def DirentsFit (w n : Nat) : Prop := n * direntSize w < 2 ^ (w - 1)

instance (w n : Nat) : Decidable (DirentsFit w n) := inferInstanceAs (Decidable (_ < _))

example : DirentsFit 32 48806446 ∧ ¬DirentsFit 32 48806447 := by decide

/-- The header is refused, or there is room for as many entries as it says. -/
def IndexFits (w : Nat) (data : Bytes) : Prop := ∀ h, ZimHeader.parse w data = .ok h → DirentsFit w h.articleCount

theorem calm_proceed {α β : Type} {m : Result α} {k : α → Result β × ZimReader} :
    (ZimReader.proceed m r k).1.Calm ↔ m.Calm ∧ ∀ a, m = .ok a → (k a).1.Calm := by
  cases m <;> simp [ZimReader.proceed]

/-- A call that returns goes on with a value or stops with an error. -/
theorem proceed_cases {α β : Type} {m : Result α} {k : α → Result β × ZimReader}
    (hcalm : (ZimReader.proceed m r k).1.Calm) :
    (∃ e, m = .error e ∧ ZimReader.proceed m r k = (.error e, r)) ∨
    ∃ a, m = .ok a ∧ ZimReader.proceed m r k = k a := by
  cases m with
  | ok a => exact .inr ⟨a, rfl, rfl⟩
  | error e => exact .inl ⟨e, rfl, rfl⟩
  | panic => exact absurd hcalm not_calm_panic
  | running => exact absurd hcalm not_calm_running

/-- **A file is loaded or refused exactly if there is room for its entries.** -/
theorem safe_loadIndex (hw : 32 ≤ w) (r : ZimReader) (b : Buffer w) :
    Safe (fun fuel => (r.loadIndex w (.ok b.bytes) fuel).1) ↔ IndexFits w b.bytes := by
  obtain ⟨data, hlen⟩ := b
  dsimp only
  constructor
  · rintro ⟨fuel, hcalm⟩ h hh
    obtain ⟨hlist, hcalm⟩ := calm_proceed.mp ((calm_proceed.mp hcalm).2 h hh)
    cases hm : loop (ZimReader.mimeStep w data h.clusterPtrPos) fuel (h.mimeListPos, []) with
    | ok mimeTypes => exact calm_withCapacity.mp (calm_proceed.mp (hcalm mimeTypes hm)).1
    | error e => exact absurd hm (loop_ne_error (mimeStep_ne_error w data _ e) _ _)
    | panic => exact absurd hm hlist.1
    | running => exact absurd hm hlist.2
  · intro hfits
    obtain ⟨hparse, hwithin⟩ := parse_meets hw hlen
    refine ⟨data.length + 1, calm_proceed.mpr ⟨hparse, fun h hh => ?_⟩⟩
    obtain ⟨_, _, hclusters, hurls, htitles, hinside⟩ := hwithin h hh
    have hstop : h.clusterPtrPos ≤ data.length := by omega
    have hmime := mime_meets hw hlen hstop (Nat.lt_succ_of_le hstop) h.mimeListPos
    refine calm_proceed.mpr ⟨hmime.1, fun mimeTypes _ => calm_proceed.mpr ⟨calm_withCapacity.mpr (hfits h hh), ?_⟩⟩
    have hdirents := meets_mapM fun i hi => direntAt_meets hw hlen (hwithin h hh) (List.mem_range.mp hi)
    exact fun _ _ => calm_proceed.mpr ⟨hdirents.1, fun dirents _ => calm_ok _⟩

/-- The pointers to the cluster of an entry, its blobs and the block of its blob fit. -/
structure EntryFits (w : Nat) (r : ZimReader) (h : ZimHeader) (d : Dirent) : Prop where
  pointer : PointerFits w h.clusterPtrPos d.clusterIndex
  pointers : ∀ start, ZimReader.tableEntry w r.data h.clusterPtrPos d.clusterIndex = .ok (some start) →
    start < r.data.length → ∀ d₂ ∈ r.dirents, PointerFits w h.clusterPtrPos d₂.clusterIndex
  cluster : ∀ region, r.clusterRegion w h d = .ok (some region) → ClusterFits w r.data region.1 region.2
  block : ∀ region, r.clusterRegion w h d = .ok (some region) →
    ∀ fuel cluster, parseCluster w r.data region.1 region.2 fuel = .ok cluster → cluster.1 = compLz4 →
    ∀ b, (cluster.2.find? fun b => b.offsetInCluster = d.blobOffsetInCluster) = some b → ¬WalksBack w b.data

/-- The entry of the article, if there is one, fits. -/
def ArticleFits (w : Nat) (r : ZimReader) (url : String) : Prop :=
  r.loaded = true → ∀ d, (r.dirents.find? fun d => d.url = url) = some d →
    ∀ h, r.header = some h → EntryFits w r h d

theorem calm_clusterRegion (hw : 32 ≤ w) (hr : Sound w r) {h : ZimHeader} (hh : r.header = some h) (d : Dirent) :
    (r.clusterRegion w h d).Calm ↔ PointerFits w h.clusterPtrPos d.clusterIndex ∧
      ∀ start, ZimReader.tableEntry w r.data h.clusterPtrPos d.clusterIndex = .ok (some start) →
        start < r.data.length → ∀ d₂ ∈ r.dirents, PointerFits w h.clusterPtrPos d₂.clusterIndex := by
  obtain ⟨hdouble, _⟩ := two_pow_half hw
  have hlen := hr.length_lt
  have hcount := hr.dirents
  have hwithin := hr.within h hh
  have hfour : 4 ≤ r.data.length := Nat.le_trans (by decide) hwithin.header
  -- The pointers of the table of the urls are in the file, or just behind it.
  have hurls : ∀ i ∈ List.range r.dirents.length, PointerFits w h.urlPtrPos i := by
    intro i hi
    have hlt := List.mem_range.mp hi
    obtain ⟨_, _, _, _, htitles, hinside⟩ := hwithin
    rw [PointerFits, wmul_eq (by omega), wadd_eq (by omega)]
    omega
  unfold ZimReader.clusterRegion
  rw [calm_bind, calm_tableEntry hw hlen hfour]
  refine and_congr_right fun _ => ?_
  have hbody : ∀ start, start < r.data.length → ((do
      let stop ← r.dirents.foldlM
        (fun stop d₂ => ZimReader.boundBy w r.data h.clusterPtrPos start stop d₂.clusterIndex) r.data.length
      let stop ← (List.range r.dirents.length).foldlM (ZimReader.boundBy w r.data h.urlPtrPos start) stop
      .ok (some (start, stop)) : Outcome Empty (Option (Nat × Nat))).Calm ↔
        ∀ d₂ ∈ r.dirents, PointerFits w h.clusterPtrPos d₂.clusterIndex) := by
    intro start _
    rw [calm_bind, calm_foldlM fun stop d₂ => calm_boundBy hw hlen hfour h.clusterPtrPos start stop d₂.clusterIndex]
    refine and_iff_left fun stop _ => ?_
    refine Calm.bind ?_ fun stop' _ => calm_ok _
    exact (calm_foldlM fun stop i => calm_boundBy hw hlen hfour h.urlPtrPos start stop i).mpr hurls
  constructor
  · intro hcalm start hstart hlt
    have hrest := hcalm _ hstart
    dsimp only at hrest
    rw [if_neg (by omega)] at hrest
    exact (hbody start hlt).mp hrest
  · intro hfits off hoff
    cases off with
    | none => exact calm_ok _
    | some start =>
      dsimp only
      by_cases hlt : start < r.data.length
      · rw [if_neg (by omega)]
        exact (hbody start hlt).mpr (hfits start hoff hlt)
      · rw [if_pos (by omega)]
        exact calm_ok _

theorem settles_lz4 (w : Nat) (src : Bytes) : Settles (lz4BlockDecodedSize w src) := settles_loop _ _

theorem settles_decompress (w : Nat) (codec : Codec) (code : UInt8) (src : Bytes) (expected : Nat) :
    Settles (decompress w codec code src expected) := by
  by_cases hlz4 : code = compLz4
  · subst hlz4
    exact Settles.bind (settles_loop _ _) fun size => settles_const _
  · intro n k _ _
    unfold decompress
    rw [if_neg hlz4, if_neg hlz4]

/-- A blob is decompressed safely, but for an LZ4 block whose walk comes back. -/
theorem safe_decompress (w : Nat) (codec : Codec) (code : UInt8) (src : Bytes) (expected : Nat) :
    Safe (decompress w codec code src expected) ↔ (code = compLz4 → ¬WalksBack w src) := by
  by_cases hlz4 : code = compLz4
  · subst hlz4
    have hblock : Safe (decompress w codec compLz4 src expected) ↔ Safe (lz4BlockDecodedSize w src) := by
      show Safe (fun n => lz4BlockDecodedSize w src n >>= fun size => _) ↔ _
      rw [safe_bind (settles_lz4 w src) fun _ => settles_const _]
      refine and_iff_left fun n size _ => safe_const.mpr ?_
      exact (calm_failIf _ _).bind fun _ _ => calm_okOr _ _
    rw [hblock, safe_lz4]
    exact ⟨fun h _ => h, fun h => h rfl⟩
  · refine iff_of_true ⟨0, ?_⟩ fun h => absurd h hlz4
    unfold decompress
    rw [if_neg hlz4]
    split
    · exact (calm_failIf _ _).bind fun _ _ => calm_ok _
    · split
      · exact (calm_okOr _ _).bind fun _ _ => (calm_failIf _ _).bind fun _ _ => calm_ok _
      · exact calm_error _

theorem settles_readBlob (w : Nat) (codec : Codec) (data : Bytes) (d : Dirent) (region : Nat × Nat) :
    Settles (ZimReader.readBlob w codec data d region) := by
  refine Settles.bind (settles_parseCluster w data region.1 region.2) fun cluster => ?_
  split
  · exact settles_decompress w codec cluster.1 _ d.blobSize
  · exact settles_const _

/-- A blob is read safely exactly if its cluster fits and its block does. -/
theorem safe_readBlob (hw : 32 ≤ w) (codec : Codec) (hlen : data.length < 2 ^ (w - 1)) (d : Dirent)
    (region : Nat × Nat) : Safe (ZimReader.readBlob w codec data d region) ↔ ClusterFits w data region.1 region.2 ∧
      ∀ fuel cluster, parseCluster w data region.1 region.2 fuel = .ok cluster → cluster.1 = compLz4 →
        ∀ b, (cluster.2.find? fun b => b.offsetInCluster = d.blobOffsetInCluster) = some b → ¬WalksBack w b.data := by
  show Safe (fun n => parseCluster w data region.1 region.2 n >>= fun cluster => _) ↔ _
  rw [safe_bind (settles_parseCluster w data region.1 region.2), safe_parseCluster hw hlen]
  · refine and_congr_right fun _ => forall_congr' fun fuel => forall_congr' fun cluster => imp_congr_right fun _ => ?_
    split
    · next b hb =>
      rw [safe_decompress, hb]
      exact ⟨fun h hcode b' hb' => (Option.some.inj hb') ▸ h hcode, fun h hcode => h hcode b rfl⟩
    · next hnone =>
      refine iff_of_true (safe_const.mpr (calm_ok _)) fun _ b hb => ?_
      rw [hnone] at hb
      cases hb
  · intro cluster
    split
    · exact settles_decompress w codec cluster.1 _ d.blobSize
    · exact settles_const _

/-- The content of an entry behind the header. -/
theorem decodeContent_eq (w : Nat) (codec : Codec) {h : ZimHeader} (hh : r.header = some h) (d : Dirent) :
    r.decodeContent w codec d = fun n => r.clusterRegion w h d >>= fun region => match region with
      | none => .ok []
      | some region => (ZimReader.readBlob w codec r.data d region n).orDefault [] := by
  funext n
  unfold ZimReader.decodeContent
  split
  · next hnone => cases hnone.symm.trans hh
  · next h' hsome =>
    obtain rfl : h' = h := Option.some.inj (hsome.symm.trans hh)
    rfl

/-- The content is decoded safely exactly if the entry fits. -/
theorem safe_decodeContent (hw : 32 ≤ w) (codec : Codec) (hr : Sound w r) (d : Dirent) :
    Safe (r.decodeContent w codec d) ↔ ∀ h, r.header = some h → EntryFits w r h d := by
  cases hh : r.header with
  | none =>
    refine iff_of_true ⟨0, ?_⟩ nofun
    rw [ZimReader.decodeContent, hh]
    exact calm_ok _
  | some h =>
    have hregion := calm_clusterRegion hw hr hh d
    rw [decodeContent_eq w codec hh d, safe_bind (settles_const _), safe_const, hregion]
    · constructor
      · rintro ⟨⟨hpointer, hpointers⟩, hrest⟩ h' hh'
        cases hh'
        have hblob := fun region hreg =>
          (safe_readBlob hw codec hr.length_lt d region).mp (safe_orDefault.mp (hrest 0 (some region) hreg))
        exact ⟨hpointer, hpointers, fun region hreg => (hblob region hreg).1, fun region hreg => (hblob region hreg).2⟩
      · intro hfits
        obtain ⟨hpointer, hpointers, hcluster, hblock⟩ := hfits h rfl
        refine ⟨⟨hpointer, hpointers⟩, fun n region hreg => ?_⟩
        cases region with
        | none => exact safe_const.mpr (calm_ok _)
        | some region =>
          exact safe_orDefault.mpr
            ((safe_readBlob hw codec hr.length_lt d region).mpr ⟨hcluster region hreg, hblock region hreg⟩)
    · intro region
      cases region with
      | none => exact settles_const _
      | some region => exact (settles_readBlob w codec r.data d region).orDefault []

/-- **An article is read safely exactly if its entry fits.** -/
theorem safe_getArticle (hw : 32 ≤ w) (codec : Codec) (hr : Sound w r) (url : String) :
    Safe (r.getArticle w codec url) ↔ ArticleFits w r url := by
  by_cases hl : r.loaded = true
  · cases hd : r.dirents.find? fun d => d.url = url with
    | none =>
      refine iff_of_true ⟨0, ?_⟩ fun _ d hd' => ?_
      · rw [ZimReader.getArticle_missing hd]
        exact calm_ok _
      · rw [hd] at hd'
        cases hd'
    | some d =>
      obtain ⟨idx, _, hget⟩ := ZimReader.getArticle_found w codec hl hd
      have hcontent : Safe (r.getArticle w codec url) ↔ Safe (r.decodeContent w codec d) := by
        rw [show r.getArticle w codec url = _ from funext hget]
        exact exists_congr fun fuel => by simp [ZimReader.buildArticle, calm_bind]
      rw [hcontent, safe_decodeContent hw codec hr]
      refine ⟨fun h _ d' hd' => ?_, fun h => h hl d hd⟩
      rw [hd] at hd'
      cases hd'
      exact h
  · refine iff_of_true ⟨0, ?_⟩ fun h => absurd h hl
    unfold ZimReader.getArticle
    rw [if_pos (by simpa using hl)]
    exact calm_ok _

/-! ## Sixty-four bits -/

theorem pointerFits_wide (hw : 64 ≤ w) {table i : Nat} (ht : table < 2 ^ (w - 1)) (hi : i < 2 ^ 32) :
    PointerFits w table i := by
  obtain ⟨hdouble, _⟩ := two_pow_half (w := w) (by omega)
  have hhalf : 2 ^ 63 ≤ 2 ^ (w - 1) := Nat.pow_le_pow_right (by decide) (by omega)
  rw [PointerFits, wmul_eq (by omega), wadd_eq (by omega)]
  omega

theorem clusterFits_wide (hw : 64 ≤ w) (hlen : data.length < 2 ^ (w - 1)) (start stop : Nat) :
    ClusterFits w data start stop := by
  intro _ hstop _ _ q hq
  obtain ⟨hdouble, _⟩ := two_pow_half (w := w) (by omega)
  have hhalf : 2 ^ 63 ≤ 2 ^ (w - 1) := Nat.pow_le_pow_right (by decide) (by omega)
  have hsize := sizeAt_lt data q
  have hin := hq.inside
  omega

/-- Thirty-two bits of articles, four bytes of a table for each, never fill a vector of entries. -/
theorem direntsFit_wide (hw : 64 ≤ w) {n : Nat} (hn : n * 4 < 2 ^ 32) : DirentsFit w n := by
  obtain ⟨k, rfl⟩ : ∃ k, w = k + 64 := ⟨w - 64, by omega⟩
  have hsize : direntSize (k + 64) ≤ k + 128 := by
    have hround := Nat.div_mul_le_self (6 * ((k + 64) / 8) + 18 + ((k + 64) / 8 - 1)) ((k + 64) / 8)
    rw [direntSize]
    omega
  have hpow : k + 1 ≤ 2 ^ k := Nat.lt_two_pow_self
  have hroom : k + 128 ≤ 128 * 2 ^ k := by omega
  calc n * direntSize (k + 64)
      ≤ 2 ^ 30 * (128 * 2 ^ k) := Nat.mul_le_mul (by omega) (hsize.trans hroom)
    _ < 2 ^ (k + 64 - 1) := by
      rw [show k + 64 - 1 = k + 63 from rfl, Nat.pow_add]
      omega

theorem indexFits_wide (hw : 64 ≤ w) (hlen : data.length < 2 ^ (w - 1)) : IndexFits w data := fun h hh =>
  direntsFit_wide hw ((parse_meets (by omega) hlen).2 h hh).small

/-- No blob is longer than its size field can say. -/
theorem blob_lt (hw : 32 ≤ w) (hlen : data.length < 2 ^ (w - 1)) {start stop n pos : Nat} (hstop : stop ≤ data.length)
    {acc blobs : List BlobRaw} (hacc : ∀ b ∈ acc, b.data.length < 2 ^ 32)
    (hwalk : loop (blobStep w data start stop) n (pos, acc) = .ok blobs) : ∀ b ∈ blobs, b.data.length < 2 ^ 32 := by
  induction n generalizing pos acc with
  | zero => cases hwalk
  | succ n ih =>
    rcases blobStep_cases hw hlen hstop start pos acc with
      ⟨_, hstep⟩ | ⟨_, _, hstep⟩ | ⟨_, _, _, hstep⟩ | ⟨_, _, hstep⟩ | ⟨_, hstep⟩
    · rw [loop_done hstep] at hwalk
      cases hwalk
      exact hacc
    · rw [loop, hstep] at hwalk
      cases hwalk
    · rw [loop, hstep] at hwalk
      cases hwalk
    · rw [loop, hstep] at hwalk
      cases hwalk
    · rw [loop_again hstep] at hwalk
      refine ih (fun b hb => ?_) hwalk
      rcases List.mem_append.mp hb with hold | hnew
      · exact hacc b hold
      · rw [List.mem_singleton.mp hnew]
        exact (List.length_take_le _ _).trans_lt (sizeAt_lt data pos)

/-- **On 64 bits every article is read safely.** -/
theorem getArticle_wide (hw : 64 ≤ w) (codec : Codec) (hr : Sound w r) (url : String) :
    Safe (r.getArticle w codec url) := by
  have hnarrow : 32 ≤ w := by omega
  refine (safe_getArticle hnarrow codec hr url).mpr fun _ d hd h hh => ?_
  have htable : h.clusterPtrPos < 2 ^ (w - 1) := by
    obtain ⟨_, _, _, hurls, htitles, hinside⟩ := hr.within h hh
    have hlen := hr.length_lt
    omega
  have hpointers : ∀ d₂ ∈ r.dirents, PointerFits w h.clusterPtrPos d₂.clusterIndex :=
    fun d₂ hd₂ => pointerFits_wide hw htable (hr.indices d₂ hd₂)
  refine ⟨hpointers d (List.mem_of_find?_eq_some hd), fun _ _ _ => hpointers,
    fun region _ => clusterFits_wide hw hr.length_lt region.1 region.2, ?_⟩
  intro region _ fuel cluster hcluster _ b hb
  have hpow : 2 ^ 32 ≤ 2 ^ (w - 8) := Nat.pow_le_pow_right (by decide) (by omega)
  refine lz4_short hnarrow (Nat.le_trans (Nat.le_of_lt ?_) hpow)
  unfold parseCluster at hcluster
  obtain ⟨_, hguard, hcluster⟩ := bind_eq_ok.mp hcluster
  obtain ⟨code, _, hcluster⟩ := bind_eq_ok.mp hcluster
  obtain ⟨_, _, hcluster⟩ := bind_eq_ok.mp hcluster
  obtain ⟨blobs, hwalk, hcluster⟩ := bind_eq_ok.mp hcluster
  cases hcluster
  have hstop := failIf_eq_ok.mp hguard
  exact blob_lt hnarrow hr.length_lt (by omega) (fun _ hb => absurd hb List.not_mem_nil) hwalk b
    (List.mem_of_find?_eq_some hb)

/-! ## Everything together -/

/-- What may be asked of the parser: to read a header, to load a file, to find an article, to read a cluster and to
measure an LZ4 block. -/
structure ZimSafe (w : Nat) (codec : Codec) (r : ZimReader) (url : String) (file cluster : Buffer w)
    (start stop : Nat) (src : Buffer w) : Prop where
  header : (ZimHeader.parse w file.bytes).Calm
  index : Safe fun fuel => (r.loadIndex w (.ok file.bytes) fuel).1
  article : Safe (r.getArticle w codec url)
  blobs : Safe (parseCluster w cluster.bytes start stop)
  block : Safe (lz4BlockDecodedSize w src.bytes)

/-- **Which bytes are read safely.** Headers always; an index, an article, a cluster and a block exactly if they fit. On
64 bits all but the blocks fit, and so does every block of at most `2 ^ (w - 8)` bytes. -/
theorem zim_safe_iff (hw : 32 ≤ w) (hr : Reached w r) (url : String) (file cluster : Buffer w) (start stop : Nat)
    (src : Buffer w) :
    (ZimSafe w codec r url file cluster start stop src ↔ IndexFits w file.bytes ∧ ArticleFits w r url ∧
      ClusterFits w cluster.bytes start stop ∧ ¬WalksBack w src.bytes) ∧
    (64 ≤ w → IndexFits w file.bytes ∧ ArticleFits w r url ∧ ClusterFits w cluster.bytes start stop) ∧
    (src.bytes.length ≤ 2 ^ (w - 8) → ¬WalksBack w src.bytes) := by
  have hindex := safe_loadIndex hw r file
  have harticle := safe_getArticle hw codec (hr.sound hw) url
  have hcluster := safe_parseCluster hw cluster.length_lt start stop
  have hblock := safe_lz4 w src.bytes
  refine ⟨⟨fun h => ?_, ?_⟩, fun hwide => ?_, lz4_short hw⟩
  · exact ⟨hindex.mp h.index, harticle.mp h.article, hcluster.mp h.blobs, hblock.mp h.block⟩
  · rintro ⟨hi, ha, hc, hb⟩
    exact ⟨(parse_meets hw file.length_lt).1, hindex.mpr hi, harticle.mpr ha, hcluster.mpr hc, hblock.mpr hb⟩
  · exact ⟨indexFits_wide hwide file.length_lt, harticle.mp (getArticle_wide hwide codec (hr.sound hw) url),
      clusterFits_wide hwide cluster.length_lt start stop⟩

/-- A decompressor that refuses everything. -/
def noCodec : Codec := ⟨fun _ => none, fun _ _ => none⟩

/-- A cluster with a blob of one byte, on 32 bits. -/
theorem zim_safe_known : ZimSafe 32 noCodec (.opened "wiki.zim") "A/a" ⟨zimMagic, by decide⟩
    ⟨[0x31, 1, 0, 0, 0, 0x61], by decide⟩ 0 6 ⟨[0x10, 0x61], by decide⟩ := by
  refine (zim_safe_iff (by decide) (.opened "wiki.zim") "A/a" _ _ 0 6 _).1.mpr ⟨?_, nofun, ?_, ?_⟩
  · intro h hh
    rw [show ZimHeader.parse 32 zimMagic = .error .truncatedHeader by decide] at hh
    cases hh
  · rintro - - - - q hq
    cases hq with
    | here => decide
    | next _ _ hq =>
      cases hq with
      | here h => exact absurd h (by decide)
      | next h => exact absurd h (by decide)
  · exact lz4_short (by decide) (by decide)

/-- A cluster whose blob claims to be as long as a word can say: on 32 bits its end wraps before its beginning. -/
theorem zim_unsafe : ¬ZimSafe 32 noCodec (.opened "wiki.zim") "A/a" ⟨zimMagic, by decide⟩
    ⟨[0x31, 0xff, 0xff, 0xff, 0xff], by decide⟩ 0 5 ⟨[0x10, 0x61], by decide⟩ := by
  intro h
  have hfits := (safe_parseCluster (by decide) (by decide) 0 5).mp h.blobs
  have hend := hfits (by decide) (by decide) (by decide) (by decide) 1 (.here (by decide))
  exact absurd hend (by decide)

end Onde.Zim
