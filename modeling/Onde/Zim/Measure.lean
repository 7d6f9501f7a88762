import Onde.Lib.Lz4
import Onde.Zim.Safety

/-!
# Is an LZ4 block measured as it is decoded?

* `readLength_take`: a length is read as the decoder reads it; `walk_decompress`: and so is a block, whose length the
  walk adds up;
* `measured_of_short`: a short block is measured;
* `measured_iff`: the walk returns, with the length of what is decoded, exactly if it never comes back and that length
  fits in a word;
* `round_walks_back`: bytes whose walk goes round for ever on 32 bits.
-/

namespace Onde.Zim

open Lib Outcome

variable {w : Nat} {src : Bytes}

/-! ## Lengths -/

theorem lsic_take (bs : Bytes) : ∀ (n pos : Nat) {r : Nat × Bytes}, takeLsic bs = some r → n + r.1 < 2 ^ w →
    pos + bs.length < 2 ^ w → ∃ k, k ≤ bs.length ∧ lsic w bs n pos = .ok (n + r.1, pos + k) ∧ r.2 = bs.drop k := by
  induction bs with
  | nil =>
    intro n pos r h
    cases h
  | cons b bs ih =>
    intro n pos r h hn hpos
    rw [List.length_cons] at hpos ⊢
    have hone : wadd w pos 1 = pos + 1 := wadd_eq (by omega)
    rw [takeLsic] at h
    rw [lsic, hone]
    split at h
    · next hff =>
      obtain ⟨r', htake, rfl⟩ := Option.map_eq_some_iff.mp h
      have hnum : b.toNat = 255 := congrArg UInt8.toNat hff
      dsimp only at hn ⊢
      obtain ⟨k, hk, hread, hrest⟩ := ih (n + 255) (pos + 1) htake (by omega) (by omega)
      rw [if_neg (not_not.mpr hff), hnum, wadd_eq (by omega), hread]
      refine ⟨k + 1, by omega, ?_, hrest⟩
      congr 2 <;> omega
    · next hff =>
      obtain rfl := Option.some.inj h
      rw [if_pos hff, wadd_eq hn]
      exact ⟨1, by omega, rfl, rfl⟩

/-- **A length is read as it is decoded**, if it fits in a word. -/
theorem readLength_take {base full pos : Nat} {r : Nat × Bytes} (hlen : src.length < 2 ^ w) (hpos : pos ≤ src.length)
    (h : takeLength base full (src.drop pos) = some r) (hr : r.1 < 2 ^ w) :
    ∃ q, pos ≤ q ∧ q ≤ src.length ∧ readLength w src base full pos = .ok (r.1, q) ∧ r.2 = src.drop q := by
  unfold takeLength at h
  unfold readLength
  by_cases hfull : base = full
  · rw [if_pos hfull] at h ⊢
    obtain ⟨more, hmore, rfl⟩ := Option.map_eq_some_iff.mp h
    dsimp only at hr ⊢
    obtain ⟨k, hk, hread, hrest⟩ := lsic_take (w := w) (src.drop pos) 0 pos hmore (by omega)
      (by rw [List.length_drop]; omega)
    rw [List.length_drop] at hk
    rw [readLz4Integer, hread, ok_bind, Nat.zero_add]
    dsimp only
    rw [wadd_eq hr]
    exact ⟨pos + k, by omega, by omega, rfl, by rw [hrest, List.drop_drop]⟩
  · rw [if_neg hfull] at h ⊢
    obtain rfl := Option.some.inj h
    exact ⟨pos, Nat.le_refl _, hpos, rfl, rfl⟩

/-- The literals are read as they are decoded. -/
theorem readLiterals_take {token : UInt8} {pos : Nat} {literals rest : Bytes} (hlen : src.length < 2 ^ w)
    (hpos : pos ≤ src.length) (h : takeLiterals token (src.drop pos) = some (literals, rest))
    (hliterals : literals.length < 2 ^ w) :
    ∃ q, pos ≤ q ∧ q + literals.length ≤ src.length ∧
      readLength w src (token.toNat / 16) 15 pos = .ok (literals.length, q) ∧
      rest = src.drop (q + literals.length) := by
  unfold takeLiterals at h
  obtain ⟨⟨n, after⟩, htake, h⟩ := Option.bind_eq_some_iff.mp h
  dsimp only at h
  split at h
  · next hroom =>
    obtain ⟨rfl, rfl⟩ := Prod.mk.inj (Option.some.inj h)
    rw [List.length_take, Nat.min_eq_left hroom] at hliterals ⊢
    obtain ⟨q, hq, hqle, hread, hafter⟩ := readLength_take hlen hpos htake hliterals
    dsimp only at hread hafter
    rw [hafter, List.length_drop] at hroom
    exact ⟨q, hq, by omega, hread, by rw [hafter, List.drop_drop]⟩
  · cases h

/-! ## Blocks -/

theorem length_le_decompress {n : Nat} {bs out res : Bytes} (h : decompressFrom n bs out = some res) :
    out.length ≤ res.length := by
  induction n generalizing bs out with
  | zero => cases h
  | succ n ih =>
    obtain ⟨m, token, bs, literals, rest, hm, rfl, _, hcases⟩ := decompressFrom_cases h
    obtain rfl : n = m := Nat.succ.inj hm
    rcases hcases with ⟨_, rfl⟩ | ⟨lo, hi, bs₂, matchLen, bs₃, _, _, _, hnext⟩
    · rw [List.length_append]
      exact Nat.le_add_right _ _
    · have hle := ih hnext
      rw [length_copyMatch, List.length_append] at hle
      omega

theorem drop_eq_cons {pos : Nat} {b : UInt8} {bs : Bytes} (h : src.drop pos = b :: bs) :
    src[pos]? = some b ∧ pos + 1 ≤ src.length ∧ src.drop (pos + 1) = bs := by
  have hlength := congrArg List.length h
  rw [List.length_drop, List.length_cons] at hlength
  refine ⟨by rw [← List.head?_drop, h, List.head?_cons], by omega, ?_⟩
  rw [← List.drop_drop, h]
  rfl

/-- **A step of the walk is a sequence of the decoder**: the last one, or one after which both go on. -/
theorem step_decompress (hw : 32 ≤ w) (hlen : src.length < 2 ^ (w - 1)) {n pos : Nat} {out res : Bytes}
    (h : decompressFrom (n + 1) (src.drop pos) out = some res) (hres : res.length < 2 ^ w) :
    lz4Step w src (pos, out.length) = .ok (.inr res.length) ∨
      ∃ q out', lz4Step w src (pos, out.length) = .ok (.inl (q, List.length out')) ∧
        decompressFrom n (src.drop q) out' = some res := by
  obtain ⟨hdouble, hhalf⟩ := two_pow_half hw
  obtain ⟨m, token, bs, literals, rest, hm, hdrop, hliterals, hcases⟩ := decompressFrom_cases h
  obtain rfl : n = m := Nat.succ.inj hm
  obtain ⟨htoken, hpos, rfl⟩ := drop_eq_cons hdrop
  have hone : wadd w pos 1 = pos + 1 := wadd_eq (by omega)
  rcases hcases with ⟨hend, rfl⟩ | ⟨lo, hi, bs₂, matchLen, bs₃, hmatch, hlength, _, hnext⟩
  · -- the bytes end with the literals
    left
    rw [List.length_append] at hres ⊢
    obtain ⟨q, _, hin, hread, rfl⟩ := readLiterals_take (w := w) (by omega) hpos hliterals (by omega)
    have hlast := List.drop_eq_nil_iff.mp hend
    have hafter : wadd w q literals.length = q + literals.length := wadd_eq (by omega)
    have hseq : lz4Sequence w src pos = .ok (.inr literals.length) := by
      unfold lz4Sequence
      rw [htoken, okOr, ok_bind, hone, hread, ok_bind]
      dsimp only
      rw [hafter, failIf_neg _ (by omega), ok_bind, if_pos (by omega), pure_eq_ok]
    rw [lz4Step, hseq, ok_bind]
    dsimp only
    rw [wadd_eq hres, pure_eq_ok]
  · right
    have hgrows := length_le_decompress hnext
    rw [length_copyMatch, List.length_append] at hgrows
    obtain ⟨q, _, hin, hread, rfl⟩ := readLiterals_take (w := w) (by omega) hpos hliterals (by omega)
    obtain ⟨_, _, hhi⟩ := drop_eq_cons hmatch
    obtain ⟨_, hroom, rfl⟩ := drop_eq_cons hhi
    obtain ⟨q', _, _, hread', rfl⟩ := readLength_take (w := w) (by omega) (by omega) hlength (by dsimp only; omega)
    have hafter : wadd w q literals.length = q + literals.length := wadd_eq (by omega)
    have htwo : wadd w (q + literals.length) 2 = q + literals.length + 1 + 1 := wadd_eq (by omega)
    have hseq : lz4Sequence w src pos = .ok (.inl (q', literals.length + matchLen)) := by
      unfold lz4Sequence
      rw [htoken, okOr, ok_bind, hone, hread, ok_bind]
      dsimp only
      rw [hafter, failIf_neg _ (by omega), ok_bind, if_neg (by omega), htwo, failIf_neg _ (by omega), ok_bind, hread',
        ok_bind]
      dsimp only
      rw [wadd_eq (by omega), pure_eq_ok]
    refine ⟨q', _, lz4Step_eq_inl.mpr ⟨_, hseq, ?_⟩, hnext⟩
    rw [length_copyMatch, List.length_append, wadd_eq (by omega), Nat.add_assoc]

/-- **The walk adds up what is decoded.** -/
theorem walk_decompress (hw : 32 ≤ w) (hlen : src.length < 2 ^ (w - 1)) {n pos : Nat} {out res : Bytes}
    (h : decompressFrom n (src.drop pos) out = some res) (hres : res.length < 2 ^ w) :
    loop (lz4Step w src) n (pos, out.length) = .ok res.length := by
  induction n generalizing pos out with
  | zero => cases h
  | succ n ih =>
    rcases step_decompress hw hlen h hres with hstep | ⟨q, out', hstep, hnext⟩
    · exact loop_done hstep
    · rw [loop_again hstep]
      exact ih hnext

/-- What decodes is measured, in as many steps as there are bytes. -/
theorem measure_decoded (hw : 32 ≤ w) (hlen : src.length < 2 ^ (w - 1)) {out : Bytes} (h : Lz4Decodes src out)
    (hout : out.length < 2 ^ w) {fuel : Nat} (hfuel : src.length ≤ fuel) :
    lz4BlockDecodedSize w src fuel = .ok out.length := by
  have hdecode : decompressFrom fuel (src.drop 0) [] = some out := h.enough hfuel
  exact walk_decompress hw hlen hdecode hout

/-- What the walk returns is a word. -/
theorem lz4Size_lt {n r : Nat} {s : Nat × Nat} (h : loop (lz4Step w src) n s = .ok r) : r < 2 ^ w := by
  induction n generalizing s with
  | zero => cases h
  | succ n ih =>
    rw [loop] at h
    obtain ⟨next, hstep, h⟩ := bind_eq_ok.mp h
    cases next with
    | inl t => exact ih h
    | inr last =>
      obtain rfl := Outcome.ok.inj h
      unfold lz4Step at hstep
      obtain ⟨seq, _, hstep⟩ := bind_eq_ok.mp hstep
      cases seq with
      | inl next => cases hstep
      | inr len =>
        obtain rfl := Sum.inr.inj (Outcome.ok.inj hstep)
        exact wadd_lt w _ _

/-- The walk over the bytes returns, with the length of whatever they decode to. -/
structure Measured (w : Nat) (src : Bytes) : Prop where
  returns : Safe (lz4BlockDecodedSize w src)
  length : ∀ out, Lz4Decodes src out → ∃ fuel, lz4BlockDecodedSize w src fuel = .ok out.length

/-- **A block of at most `2 ^ (w - 8)` bytes is measured**: no byte adds more than 255. -/
theorem measured_of_short (hw : 32 ≤ w) (hlen : src.length ≤ 2 ^ (w - 8)) : Measured w src := by
  have hdouble : 2 ^ w = 256 * 2 ^ (w - 8) := by
    rw [show (256 : Nat) = 2 ^ 8 from rfl, ← Nat.pow_add, Nat.add_sub_cancel' (by omega)]
  have hhalf : 2 ^ w = 2 * 2 ^ (w - 1) := (two_pow_half hw).1
  have hpow := Nat.two_pow_pos (w - 8)
  refine ⟨(safe_lz4 w src).mpr (lz4_short hw hlen), fun out hout => ?_⟩
  have hle := hout.length_le
  exact ⟨_, measure_decoded hw (by omega) hout (by omega) (Nat.le_refl _)⟩

/-- **Bytes are measured as they are decoded exactly if the walk never comes back and the length fits in a word**, and
so is every block of at most `2 ^ (w - 8)` bytes. -/
theorem measured_iff (hw : 32 ≤ w) (b : Buffer w) :
    (Measured w b.bytes ↔ ¬WalksBack w b.bytes ∧ ∀ out, Lz4Decodes b.bytes out → out.length < 2 ^ w) ∧
    (b.bytes.length ≤ 2 ^ (w - 8) → Measured w b.bytes) := by
  refine ⟨⟨fun h => ?_, ?_⟩, measured_of_short hw⟩
  · refine ⟨(safe_lz4 w b.bytes).mp h.returns, fun out hout => ?_⟩
    obtain ⟨fuel, hfuel⟩ := h.length out hout
    exact lz4Size_lt hfuel
  · rintro ⟨hforward, hfits⟩
    refine ⟨(safe_lz4 w b.bytes).mpr hforward, fun out hout => ?_⟩
    exact ⟨_, measure_decoded hw b.length_lt hout (hfits out hout) (Nat.le_refl _)⟩

/-- A literal, a match, and the last literal. -/
theorem short_measured : Measured 32 [0x1f, 0x61, 0x01, 0x00, 0x01, 0x10, 0x62] ∧
    ¬WalksBack 32 [0x1f, 0x61, 0x01, 0x00, 0x01, 0x10, 0x62] := by
  obtain ⟨hiff, hshort⟩ := measured_iff (w := 32) (by decide) ⟨[0x1f, 0x61, 0x01, 0x00, 0x01, 0x10, 0x62], by decide⟩
  exact ⟨hshort (by decide), (hiff.mp (hshort (by decide))).1⟩

/-! ### A walk that goes round -/

section Round

variable {tail : Bytes}

/-- A sequence without literals. -/
theorem round_first (hlen : tail.length = 2 ^ 24) :
    lz4Sequence 32 ([0, 0, 0, 0xf0] ++ tail) 0 = .ok (.inl (3, 4)) := by
  have hlength : ([0, 0, 0, 0xf0] ++ tail).length = 2 ^ 24 + 4 := by
    rw [List.length_append, hlen]
    rfl
  have hread : readLength 32 ([0, 0, 0, 0xf0] ++ tail) ((0 : UInt8).toNat / 16) 15 (wadd 32 0 1) = .ok (0, 1) := rfl
  have hread' : readLength 32 ([0, 0, 0, 0xf0] ++ tail) (4 + (0 : UInt8).toNat % 16) 19 (wadd 32 1 2) =
      .ok (4, 3) := rfl
  have hone : wadd 32 1 0 = 1 := rfl
  unfold lz4Sequence
  rw [show ([0, 0, 0, 0xf0] ++ tail)[0]? = some 0 from rfl, okOr, ok_bind, hread, ok_bind]
  dsimp only
  rw [hone, failIf_neg _ (by omega), ok_bind, if_neg (by omega), failIf_neg _ (by rw [hlength]; decide), ok_bind,
    hread']
  rfl

/-- Literals so many that the place after them is 1 again. -/
theorem round_again (htail : takeLsic tail = some (4278190062, [])) (hlen : tail.length = 2 ^ 24) :
    lz4Sequence 32 ([0, 0, 0, 0xf0] ++ tail) 3 = .ok (.inl (3, wadd 32 4278190077 4)) := by
  have hlength : ([0, 0, 0, 0xf0] ++ tail).length = 2 ^ 24 + 4 := by
    rw [List.length_append, hlen]
    rfl
  have htake : takeLength 15 15 (([0, 0, 0, 0xf0] ++ tail).drop 4) = some (4278190077, []) := by
    show (takeLsic tail).map _ = _
    rw [htail]
    rfl
  obtain ⟨q, _, hq, hread, hend⟩ := readLength_take (w := 32) (by omega) (by omega) htake (by decide)
  have hplace : q = 2 ^ 24 + 4 := by
    have hlast := List.drop_eq_nil_iff.mp hend.symm
    omega
  have hround : wadd 32 q 4278190077 = 1 := by rw [hplace]; rfl
  have hread' : readLength 32 ([0, 0, 0, 0xf0] ++ tail) (4 + (0xf0 : UInt8).toNat % 16) 19 (wadd 32 1 2) =
      .ok (4, 3) := rfl
  unfold lz4Sequence
  rw [show ([0, 0, 0, 0xf0] ++ tail)[3]? = some 0xf0 from rfl, okOr, ok_bind,
    show (0xf0 : UInt8).toNat / 16 = 15 from rfl, show wadd 32 3 1 = 4 from rfl, hread, ok_bind]
  dsimp only
  rw [hround, failIf_neg _ (by omega), ok_bind, if_neg (by omega), failIf_neg _ (by rw [hlength]; decide), ok_bind,
    hread']
  rfl

/-- The walk comes back to the second token. -/
theorem round_walks_back (htail : takeLsic tail = some (4278190062, [])) (hlen : tail.length = 2 ^ 24) :
    WalksBack 32 ([0, 0, 0, 0xf0] ++ tail) := by
  have hfirst : After (lz4Step 32 ([0, 0, 0, 0xf0] ++ tail)) Prod.fst 0 3 :=
    ⟨(0, 0), (3, wadd 32 0 4), rfl, lz4Step_eq_inl.mpr ⟨_, round_first hlen, rfl⟩, rfl⟩
  have hround : After (lz4Step 32 ([0, 0, 0, 0xf0] ++ tail)) Prod.fst 3 3 :=
    ⟨(3, 0), (3, wadd 32 0 (wadd 32 4278190077 4)), rfl, lz4Step_eq_inl.mpr ⟨_, round_again htail hlen, rfl⟩, rfl⟩
  exact ⟨3, .single hfirst, .single hround⟩

end Round

/-- On 32 bits these sixteen megabytes are never measured. -/
theorem goes_round : ¬Measured 32 ([0, 0, 0, 0xf0] ++ lsicBytes 4278190062) := by
  intro h
  refine (safe_lz4 32 _).mp h.returns (round_walks_back ?_ ?_)
  · have hall := takeLsic_lsicBytes 4278190062 []
    rwa [List.append_nil] at hall
  · rw [lsicBytes, List.length_append, List.length_replicate]
    rfl

end Onde.Zim
