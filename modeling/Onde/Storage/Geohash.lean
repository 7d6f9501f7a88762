import Mathlib.Algebra.Order.Field.Rat
import Mathlib.Logic.Function.Iterate
import Mathlib.Tactic.NormNum
import Onde.Lib.Cells
import Onde.Storage.MessageStore

/-!
# Geohashes

The hash of a position halves the longitudes and the latitudes in turn and writes five halvings as a character.
Numbers are rationals.

* `step_shows`: one turn of the loop divides the box of the position as `boxCells` does;
* `steps_digit`: five turns from a character on divide it as `digitCells` does and write the digit;
* `positionToGeohash_eq`: so the hash is the address of the position in digits;
* `inCell_iff`: a position lies in the cell of a text exactly when the text is its hash;
* `geohash_prefix`: two hashes with the same beginning belong to positions in the same cell.
-/

namespace Onde.Storage.Geohash

open Onde.Lib TieredMessageStore

/-! ## The loop -/

def base32 : List Char := "0123456789bcdefghjkmnpqrstuvwxyz".toList

/-- The low five bits name a character. -/
theorem index_lt (accumulated : Nat) : accumulated &&& 0x1f < base32.length :=
  Nat.lt_of_le_of_lt Nat.and_le_right (by decide)

/-- The variables of the loop. -/
structure Bisection where
  latRange : ℚ × ℚ
  lonRange : ℚ × ℚ
  isLon : Bool
  bits : Nat
  accumulated : Nat
  geohash : List Char
  bits_lt : bits < 5

/-- The half of a range that a coordinate is in, and its bit. -/
def narrow (x : ℚ) (range : ℚ × ℚ) (accumulated : Nat) : (ℚ × ℚ) × Nat :=
  let mid := (range.1 + range.2) / 2
  if mid ≤ x then ((mid, range.2), (accumulated <<< 1) ||| 1) else ((range.1, mid), accumulated <<< 1)

/-- One turn of the loop. -/
def step (lat lon : ℚ) (st : Bisection) : Bisection :=
  let lons := narrow lon st.lonRange st.accumulated
  let lats := narrow lat st.latRange st.accumulated
  let accumulated := if st.isLon then lons.2 else lats.2
  let st := { st with
    lonRange := if st.isLon then lons.1 else st.lonRange
    latRange := if st.isLon then st.latRange else lats.1
    isLon := !st.isLon }
  if h : st.bits + 1 = 5 then
    { st with
      geohash := st.geohash ++ [base32.get ⟨accumulated &&& 0x1f, index_lt accumulated⟩]
      bits := 0, accumulated := 0, bits_lt := by decide }
  else { st with bits := st.bits + 1, accumulated, bits_lt := by have := st.bits_lt; omega }

/-- The number of turns taken. -/
def Bisection.turns (st : Bisection) : Nat := 5 * st.geohash.length + st.bits

theorem turns_step (lat lon : ℚ) (st : Bisection) : (step lat lon st).turns = st.turns + 1 := by
  unfold step
  simp only []
  split
  · next h =>
    show 5 * (st.geohash ++ [_]).length + 0 = 5 * st.geohash.length + st.bits + 1
    rw [List.length_append, List.length_singleton]
    omega
  · rfl

theorem turns_lt {st : Bisection} {precision : Nat} (h : st.geohash.length < precision) :
    st.turns < 5 * precision := by
  have hbits := st.bits_lt
  unfold Bisection.turns
  omega

/-- The loop; the characters of the hash are single bytes. -/
def loop (lat lon : ℚ) (precision : Nat) (st : Bisection) : Bisection :=
  if st.geohash.length < precision then loop lat lon precision (step lat lon st) else st
termination_by 5 * precision - st.turns
decreasing_by
  rw [turns_step]
  have := turns_lt ‹st.geohash.length < precision›
  omega

/-- The variables before the loop. -/
def start : Bisection where
  latRange := (-90, 90)
  lonRange := (-180, 180)
  isLon := true
  bits := 0
  accumulated := 0
  geohash := []
  bits_lt := by decide

/-- The hash of a position. -/
def positionToGeohash (lat lon : ℚ) (precision : Nat) : String :=
  String.ofList (loop lat lon precision start).geohash

/-! ## What a hash stands for -/

/-- A box: whether the longitudes are halved next, and the ranges. -/
abbrev Box := Bool × Span (90 : ℚ) × Span (180 : ℚ)

/-- Boxes halved in turn, with the positions in them. -/
def boxCells : Cells Box (ℚ × ℚ) Bool := Cells.interleave (Span.cells 90) (Span.cells 180)

/-- The next bit. -/
def push (accumulated : Nat) (bit : Bool) : Nat := if bit then (accumulated <<< 1) ||| 1 else accumulated <<< 1

/-- The digit of five bits. -/
def readDigit (bits : List Bool) : Fin base32.length := ⟨bits.foldl push 0 &&& 0x1f, index_lt _⟩

/-- The five bits of a digit, the highest first. -/
def spellDigit (d : Fin base32.length) : List Bool :=
  [d.val.testBit 4, d.val.testBit 3, d.val.testBit 2, d.val.testBit 1, d.val.testBit 0]

theorem readDigit_spellDigit : ∀ d, readDigit (spellDigit d) = d := by decide

theorem spellDigit_readDigit : ∀ bits : List Bool, bits.length = 5 → spellDigit (readDigit bits) = bits
  | [a, b, c, d, e], _ => by revert a b c d e; decide

/-- Boxes divided by digits. -/
def digitCells : Cells Box (ℚ × ℚ) (Fin base32.length) :=
  boxCells.blocks 5 spellDigit readDigit (fun _ => rfl) readDigit_spellDigit spellDigit_readDigit

/-- All positions. -/
def world : Box := (true, ⟨-90, 90, by norm_num, le_rfl⟩, ⟨-180, 180, by norm_num, le_rfl⟩)

/-- The digit that a character stands for. -/
def digitOf (c : Char) : Option (Fin base32.length) := (List.finRange base32.length).find? fun d => base32.get d = c

/-- The box of a text inside of another, digit by digit. -/
def decodeFrom : Box → List Char → Option Box
  | box, [] => some box
  | box, c :: cs => (digitOf c).bind fun d => decodeFrom (digitCells.part box d) cs

/-- The position lies in the cell of a hash. -/
def InCell (hash : String) (lat lon : ℚ) : Prop :=
  ∃ box, decodeFrom world hash.toList = some box ∧ digitCells.Mem box (lat, lon)

/-! ## The loop divides boxes -/

/-- The variables of the loop show a box. -/
structure Shows (st : Bisection) (box : Box) : Prop where
  lat : st.latRange = (box.2.1.lo, box.2.1.hi)
  lon : st.lonRange = (box.2.2.lo, box.2.2.hi)
  turn : st.isLon = box.1

variable {lat lon lat' lon' : ℚ} {st : Bisection} {box : Box}

theorem narrow_eq {top : ℚ} (x : ℚ) (s : Span top) (accumulated : Nat) : narrow x (s.lo, s.hi) accumulated =
    (((s.half (decide (s.mid ≤ x))).lo, (s.half (decide (s.mid ≤ x))).hi),
      push accumulated (decide (s.mid ≤ x))) := by
  have hmid : (s.lo + s.hi) / 2 = s.mid := rfl
  unfold narrow push
  simp only [hmid]
  by_cases h : s.mid ≤ x
  · rw [decide_eq_true h, if_pos h, if_pos rfl]
    rfl
  · rw [decide_eq_false h, if_neg h, if_neg Bool.false_ne_true]
    rfl

/-- The bit of one turn, and the ranges after it. -/
theorem narrow_shows (lat lon : ℚ) (h : Shows st box) :
    (if st.isLon then (narrow lon st.lonRange st.accumulated).2 else (narrow lat st.latRange st.accumulated).2) =
      push st.accumulated (boxCells.letter box (lat, lon)) ∧
    (if st.isLon then (narrow lon st.lonRange st.accumulated).1 else st.lonRange) =
      ((boxCells.part box (boxCells.letter box (lat, lon))).2.2.lo,
        (boxCells.part box (boxCells.letter box (lat, lon))).2.2.hi) ∧
    (if st.isLon then st.latRange else (narrow lat st.latRange st.accumulated).1) =
      ((boxCells.part box (boxCells.letter box (lat, lon))).2.1.lo,
        (boxCells.part box (boxCells.letter box (lat, lon))).2.1.hi) := by
  obtain ⟨turn, lats, lons⟩ := box
  rw [h.lat, h.lon, h.turn, narrow_eq, narrow_eq]
  cases turn with
  | false => exact ⟨rfl, rfl, rfl⟩
  | true => exact ⟨rfl, rfl, rfl⟩

/-- **One turn of the loop divides the box.** -/
theorem step_shows (h : Shows st box) :
    Shows (step lat lon st) (boxCells.part box (boxCells.letter box (lat, lon))) := by
  obtain ⟨-, hlon, hlat⟩ := narrow_shows lat lon h
  have hturn : (!st.isLon) = (boxCells.part box (boxCells.letter box (lat, lon))).1 := by
    obtain ⟨turn, lats, lons⟩ := box
    rw [h.turn]
    cases turn with
    | false => rfl
    | true => rfl
  unfold step
  simp only []
  split
  · exact ⟨hlat, hlon, hturn⟩
  · exact ⟨hlat, hlon, hturn⟩

/-- A turn within a character keeps the bit. -/
theorem step_keeps (lat lon : ℚ) (h : Shows st box) (hbits : st.bits + 1 < 5) :
    (step lat lon st).bits = st.bits + 1 ∧
    (step lat lon st).accumulated = push st.accumulated (boxCells.letter box (lat, lon)) ∧
    (step lat lon st).geohash = st.geohash := by
  obtain ⟨hacc, -, -⟩ := narrow_shows lat lon h
  unfold step
  simp only []
  rw [dif_neg (Nat.ne_of_lt hbits)]
  exact ⟨rfl, hacc, rfl⟩

/-- The last turn of a character writes it. -/
theorem step_writes (lat lon : ℚ) (h : Shows st box) (hbits : st.bits + 1 = 5) :
    (step lat lon st).bits = 0 ∧ (step lat lon st).accumulated = 0 ∧
    (step lat lon st).geohash = st.geohash ++
      [base32.get ⟨push st.accumulated (boxCells.letter box (lat, lon)) &&& 0x1f, index_lt _⟩] := by
  obtain ⟨hacc, -, -⟩ := narrow_shows lat lon h
  unfold step
  simp only []
  rw [dif_pos hbits]
  refine ⟨rfl, rfl, ?_⟩
  simp only [hacc]

/-- Where a character begins. -/
structure Fresh (st : Bisection) (box : Box) : Prop extends Shows st box where
  bits : st.bits = 0
  accumulated : st.accumulated = 0

/-- **The bits of a character are collected.** -/
theorem steps_collect (lat lon : ℚ) (h : Fresh st box) : ∀ n < 5,
    Shows ((step lat lon)^[n] st) (boxCells.descend box (boxCells.address box (lat, lon) n)) ∧
    ((step lat lon)^[n] st).bits = n ∧
    ((step lat lon)^[n] st).accumulated = (boxCells.address box (lat, lon) n).foldl push 0 ∧
    ((step lat lon)^[n] st).geohash = st.geohash
  | 0, _ => ⟨h.toShows, h.bits, h.accumulated, rfl⟩
  | n + 1, hn => by
    obtain ⟨hshows, hbits, hacc, hhash⟩ := steps_collect lat lon h n (Nat.lt_of_succ_lt hn)
    obtain ⟨hbits', hacc', hhash'⟩ := step_keeps lat lon hshows (by rw [hbits]; exact hn)
    rw [Function.iterate_succ_apply', Cells.address_add, Cells.descend_append, List.foldl_append]
    refine ⟨step_shows hshows, ?_, ?_, ?_⟩
    · rw [hbits', hbits]
    · rw [hacc', hacc]
      rfl
    · rw [hhash', hhash]

/-- **Five turns write the digit.** -/
theorem steps_digit (lat lon : ℚ) (h : Fresh st box) :
    Fresh ((step lat lon)^[5] st) (digitCells.part box (digitCells.letter box (lat, lon))) ∧
    ((step lat lon)^[5] st).geohash = st.geohash ++ [base32.get (digitCells.letter box (lat, lon))] := by
  obtain ⟨hshows, hbits, hacc, hhash⟩ := steps_collect lat lon h 4 (by decide)
  obtain ⟨hbits', hacc', hhash'⟩ := step_writes lat lon hshows (by rw [hbits])
  have hfive : boxCells.address box (lat, lon) 5 = boxCells.address box (lat, lon) 4 ++
      [boxCells.letter (boxCells.descend box (boxCells.address box (lat, lon) 4)) (lat, lon)] :=
    Cells.address_add _ 1 4 box
  have hpart : digitCells.part box (digitCells.letter box (lat, lon)) =
      boxCells.descend box (boxCells.address box (lat, lon) 5) :=
    congrArg (boxCells.descend box) (spellDigit_readDigit _ (Cells.length_address box _ 5))
  have hdigit : digitCells.letter box (lat, lon) = readDigit (boxCells.address box (lat, lon) 5) := rfl
  rw [Function.iterate_succ_apply']
  refine ⟨⟨?_, hbits', hacc'⟩, ?_⟩
  · rw [hpart, hfive, Cells.descend_append]
    exact step_shows hshows
  · rw [hhash', hhash, hdigit]
    simp only [readDigit, hfive, List.foldl_append, hacc]
    rfl

/-- **The turns for a hash write its digits.** -/
theorem steps_digits : ∀ (precision : Nat) {st : Bisection} {box : Box}, Fresh st box →
    Fresh ((step lat lon)^[5 * precision] st) (digitCells.descend box (digitCells.address box (lat, lon) precision)) ∧
    ((step lat lon)^[5 * precision] st).geohash =
      st.geohash ++ (digitCells.address box (lat, lon) precision).map base32.get
  | 0, st, box, h => ⟨h, (List.append_nil _).symm⟩
  | precision + 1, st, box, h => by
    obtain ⟨hfresh, hhash⟩ := steps_digit lat lon h
    obtain ⟨hfresh', hhash'⟩ := steps_digits precision hfresh
    rw [Nat.mul_succ, Function.iterate_add_apply]
    refine ⟨hfresh', ?_⟩
    rw [hhash', hhash, List.append_assoc]
    rfl

/-- **The loop takes as many turns as the hash needs.** -/
theorem loop_eq (lat lon : ℚ) (precision : Nat) (st : Bisection) :
    loop lat lon precision st = (step lat lon)^[5 * precision - st.turns] st := by
  fun_induction loop lat lon precision st with
  | case1 st h ih =>
    have hlt := turns_lt h
    have hsucc : 5 * precision - st.turns = 5 * precision - (step lat lon st).turns + 1 := by
      rw [turns_step]
      omega
    rw [ih, hsucc, Function.iterate_succ_apply]
  | case2 st h =>
    have hzero : 5 * precision - st.turns = 0 := by
      unfold Bisection.turns
      omega
    rw [hzero]
    rfl

theorem fresh_start : Fresh start world := ⟨⟨rfl, rfl, rfl⟩, rfl, rfl⟩

/-- **The hash is the address of the position in digits.** -/
theorem positionToGeohash_eq (lat lon : ℚ) (precision : Nat) : positionToGeohash lat lon precision =
    String.ofList ((digitCells.address world (lat, lon) precision).map base32.get) := by
  have hturns : 5 * precision - start.turns = 5 * precision := rfl
  rw [positionToGeohash, loop_eq, hturns, (steps_digits precision fresh_start).2]
  rfl

example : (positionToGeohash (488584 / 10000) (22945 / 10000) 7).toList = "u09tunq".toList := by
  rw [positionToGeohash, loop_eq, String.toList_ofList]
  decide +kernel

/-! ## Cells of hashes -/

theorem digitOf_get : ∀ d, digitOf (base32.get d) = some d := by decide

theorem get_digitOf {c : Char} {d : Fin base32.length} (h : digitOf c = some d) : base32.get d = c := by
  unfold digitOf at h
  have hget := List.find?_some h
  exact of_decide_eq_true hget

theorem decodeFrom_eq_some : ∀ {cs : List Char} {box box' : Box}, decodeFrom box cs = some box' ↔
    ∃ ds, cs = ds.map base32.get ∧ digitCells.descend box ds = box'
  | [], box, box' => by
    rw [decodeFrom, Option.some.injEq]
    constructor
    · intro h
      exact ⟨[], rfl, h⟩
    · rintro ⟨ds, hds, h⟩
      obtain rfl := List.map_eq_nil_iff.mp hds.symm
      exact h
  | c :: cs, box, box' => by
    rw [decodeFrom, Option.bind_eq_some_iff]
    constructor
    · rintro ⟨d, hd, h⟩
      obtain ⟨ds, rfl, hds⟩ := decodeFrom_eq_some.mp h
      exact ⟨d :: ds, by rw [List.map_cons, get_digitOf hd], hds⟩
    · rintro ⟨ds, hds, h⟩
      cases ds with
      | nil => cases hds
      | cons d ds =>
        obtain ⟨rfl, rfl⟩ := List.cons.inj hds
        exact ⟨d, digitOf_get d, decodeFrom_eq_some.mpr ⟨ds, rfl, h⟩⟩

/-- On the map. -/
def OnMap (lat lon : ℚ) : Prop := (-90 ≤ lat ∧ lat ≤ 90) ∧ -180 ≤ lon ∧ lon ≤ 180

theorem mem_world (h : OnMap lat lon) : digitCells.Mem world (lat, lon) := by
  have hend : ∀ {x top : ℚ}, x ≤ top → x < top ∨ x = top ∧ top = top := fun hx =>
    hx.lt_or_eq.imp_right fun heq => ⟨heq, rfl⟩
  exact ⟨⟨h.1.1, hend h.1.2⟩, h.2.1, hend h.2.2⟩

/-- **A position lies in the cell of a text exactly when the text is its hash.** -/
theorem inCell_iff (h : OnMap lat lon) (hash : String) :
    InCell hash lat lon ↔ hash = positionToGeohash lat lon hash.toList.length := by
  rw [positionToGeohash_eq]
  constructor
  · rintro ⟨box, hbox, hmem⟩
    obtain ⟨ds, hds, rfl⟩ := decodeFrom_eq_some.mp hbox
    obtain ⟨-, haddr⟩ := Cells.mem_descend.mp hmem
    rw [hds, List.length_map, ← haddr, ← hds, String.ofList_toList]
  · intro heq
    have hlist := congrArg String.toList heq
    rw [String.toList_ofList] at hlist
    exact ⟨_, decodeFrom_eq_some.mpr ⟨_, hlist, rfl⟩, Cells.mem_address (mem_world h) _⟩

theorem length_positionToGeohash (lat lon : ℚ) (precision : Nat) :
    (positionToGeohash lat lon precision).toList.length = precision := by
  rw [positionToGeohash_eq, String.toList_ofList, List.length_map, Cells.length_address]

/-- **A shorter hash begins a longer one.** -/
theorem take_positionToGeohash (lat lon : ℚ) {p n : Nat} (h : p ≤ n) :
    (positionToGeohash lat lon n).toList.take p = (positionToGeohash lat lon p).toList := by
  rw [positionToGeohash_eq, positionToGeohash_eq, String.toList_ofList, String.toList_ofList, ← List.map_take,
    Cells.take_address _ _ h]

/-- **Two positions are in one cell exactly when their hashes are the same.** -/
theorem shared_cell_iff (h : OnMap lat lon) (h' : OnMap lat' lon') (p : Nat) :
    (∃ hash : String, hash.toList.length = p ∧ InCell hash lat lon ∧ InCell hash lat' lon') ↔
      positionToGeohash lat lon p = positionToGeohash lat' lon' p := by
  constructor
  · rintro ⟨hash, rfl, hcell, hcell'⟩
    exact ((inCell_iff h hash).mp hcell).symm.trans ((inCell_iff h' hash).mp hcell')
  · intro heq
    have hlen := length_positionToGeohash lat lon p
    refine ⟨positionToGeohash lat lon p, hlen, (inCell_iff h _).mpr ?_, (inCell_iff h' _).mpr ?_⟩
    · rw [hlen]
    · rw [hlen, heq]

/-! ## Storing what is near -/

/-- The common beginning of two lists is at least as long as their equal beginnings. -/
theorem le_length_common_iff : ∀ {p : Nat} {xs ys : List Char}, p ≤ xs.length → p ≤ ys.length →
    (p ≤ ((xs.zip ys).takeWhile fun q => q.1 = q.2).length ↔ xs.take p = ys.take p)
  | 0, _, _, _, _ => iff_of_true (Nat.zero_le _) rfl
  | p + 1, x :: xs, y :: ys, hx, hy => by
    rw [List.zip_cons_cons, List.takeWhile_cons, List.take_succ_cons, List.take_succ_cons, List.cons.injEq]
    by_cases hxy : x = y
    · rw [if_pos (decide_eq_true hxy), List.length_cons, Nat.add_le_add_iff_right,
        le_length_common_iff (Nat.le_of_succ_le_succ hx) (Nat.le_of_succ_le_succ hy), and_iff_right hxy]
    · rw [if_neg (by simpa using hxy)]
      exact iff_of_false (Nat.not_succ_le_zero p) fun h => hxy h.1

theorem shouldStoreLocally_iff {tier : MessageTier} (htier : tier ≠ .critical) {p n : Nat} (hp : 1 ≤ p) (hn : p ≤ n) :
    shouldStoreLocally (positionToGeohash lat lon n) (positionToGeohash lat' lon' n) tier p = true ↔
      positionToGeohash lat lon p = positionToGeohash lat' lon' p := by
  have hlen := length_positionToGeohash lat lon n
  have hlen' := length_positionToGeohash lat' lon' n
  unfold shouldStoreLocally
  rw [if_neg htier, if_neg (Nat.ne_of_gt hp), decide_eq_true_iff,
    le_length_common_iff (by omega) (by omega), take_positionToGeohash lat lon hn, take_positionToGeohash lat' lon' hn,
    String.toList_inj]

/-- **Hashes extend each other, their cells contain the position, and what is stored for a common beginning comes from
the same cell.** -/
theorem geohash_prefix (h : OnMap lat lon) :
    (∀ p, ∃ c, positionToGeohash lat lon (p + 1) = (positionToGeohash lat lon p).push c) ∧
    (∀ p, InCell (positionToGeohash lat lon p) lat lon) ∧
    ∀ {lat' lon' : ℚ} {tier : MessageTier} {p : Nat}, OnMap lat' lon' → tier ≠ .critical → 1 ≤ p → p ≤ 7 →
      (shouldStoreLocally (positionToGeohash lat lon 7) (positionToGeohash lat' lon' 7) tier p = true ↔
        ∃ hash : String, hash.toList.length = p ∧ InCell hash lat lon ∧ InCell hash lat' lon') := by
  refine ⟨fun p => ?_, fun p => ?_, fun h' htier hp hle => ?_⟩
  · let cell := digitCells.descend world (digitCells.address world (lat, lon) p)
    refine ⟨base32.get (digitCells.letter cell (lat, lon)), String.toList_inj.mp ?_⟩
    rw [positionToGeohash_eq, positionToGeohash_eq, Cells.address_add, List.map_append, String.toList_push,
      String.toList_ofList, String.toList_ofList]
    rfl
  · rw [inCell_iff h, length_positionToGeohash]
  · rw [shouldStoreLocally_iff htier hp hle, shared_cell_iff h h']

/-- **Two places in Paris.** -/
theorem paris_prefix : InCell (positionToGeohash (488584 / 10000) (22945 / 10000) 7) (488584 / 10000) (22945 / 10000) ∧
    (shouldStoreLocally (positionToGeohash (488584 / 10000) (22945 / 10000) 7)
      (positionToGeohash (488606 / 10000) (23376 / 10000) 7) .low 4 = true ↔
        ∃ hash : String, hash.toList.length = 4 ∧ InCell hash (488584 / 10000) (22945 / 10000) ∧
          InCell hash (488606 / 10000) (23376 / 10000)) := by
  have h : OnMap (488584 / 10000) (22945 / 10000) := by norm_num [OnMap]
  obtain ⟨-, hcell, hstore⟩ := geohash_prefix h
  exact ⟨hcell 7, hstore (by norm_num [OnMap]) (by decide) (by decide) (by decide)⟩

end Onde.Storage.Geohash
