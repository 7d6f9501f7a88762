import Mathlib.Algebra.Order.Ring.Rat
import Mathlib.Data.Rat.Floor
import Onde.Lib.Grid

/-!
# The encounters of the simulator

* `encounterPairsNaive`: every pair of positions, in the order of the list;
* `encounterPairsBucketed`: candidates from one grid, whose cells have the largest range as their side;
* `encounterPairsTiered`: candidates from one grid for each range, each pair in the grid of its own range;
* `encounters_exact`: the three give the same list.
-/

namespace Onde.Simulation

open Onde.Lib

/-! ## Technologies and positions -/

/-- The technologies of the nodes. -/
inductive TechType where
  | wifiAware
  | ble
  | lora
  | ethernet
  | hybrid
  deriving DecidableEq

/-- The ranges in metres. There is no profile of a hybrid node: the lookup raises, and no range is positive. -/
def TechType.rangeM : TechType → ℚ
  | .wifiAware => 200
  | .ble => 50
  | .lora => 5000
  | .ethernet => 999999
  | .hybrid => 0

variable {ι τ : Type}

/-- Where a node is and with which technology. -/
structure Position (ι τ : Type) where
  nodeId : ι
  x : ℚ
  y : ℚ
  tech : τ

/-- Whether two positions are within the larger of their ranges. -/
def inRange (range : τ → ℚ) (a b : Position ι τ) : Bool :=
  let dx := a.x - b.x
  let dy := a.y - b.y
  let distSq := dx * dx + dy * dy
  let maxTechRange := max (range a.tech) (range b.tech)
  distSq ≤ maxTechRange * maxTechRange

/-- The pair of a position with the one of an index, if they meet. -/
def encounter (range : τ → ℚ) (positions : List (Position ι τ)) (a : Position ι τ) (j : ℕ) : Option (ι × ι) :=
  positions[j]?.bind fun b => if inRange range a b then some (a.nodeId, b.nodeId) else none

/-! ## The enumerations -/

/-- The double loop. -/
def encounterPairsNaive (range : τ → ℚ) (positions : List (Position ι τ)) : List (ι × ι) :=
  positions.zipIdx.flatMap fun (a, i) =>
    (List.range' (i + 1) (positions.length - (i + 1))).filterMap (encounter range positions a)

/-- The cell of a position in the grid of a side. -/
def cellOf (side : ℚ) (p : Position ι τ) : ℤ × ℤ := (⌊p.x / side⌋, ⌊p.y / side⌋)

/-- The indices in each cell of a grid. -/
def bucketsOf (side : ℚ) (positions : List (Position ι τ)) : Dict (ℤ × ℤ) (List ℕ) :=
  collect (fun p => cellOf side p.1) [] (fun p bucket => bucket ++ [p.2]) positions.zipIdx

/-- One grid. -/
def encounterPairsBucketed (range : τ → ℚ) (positions : List (Position ι τ)) : List (ι × ι) :=
  if positions.length < 2 then []
  else
    let side := (positions.map fun p => range p.tech).max?.getD 0
    if side ≤ 0 then encounterPairsNaive range positions
    else
      let cells := bucketsOf side positions
      positions.zipIdx.flatMap fun (a, i) =>
        let cands := (window (cellOf side a)).flatMap fun c => ((cells.lookup c).getD []).filter (i < ·)
        (cands.mergeSort (· ≤ ·)).filterMap (encounter range positions a)

/-- The indices in each cell of a grid, by their range. -/
def gridOf (range : τ → ℚ) (side : ℚ) (positions : List (Position ι τ)) : Dict (ℤ × ℤ) (Dict ℚ (List ℕ)) :=
  collect (fun p => cellOf side p.1) ∅ (fun p cell => upsert cell (range p.1.tech) [] (· ++ [p.2])) positions.zipIdx

/-- The candidates of the grid of one range, for a position and its index. -/
def tierCandidates (range : τ → ℚ) (positions : List (Position ι τ)) (a : Position ι τ) (i : ℕ) (tier : ℚ) : List ℕ :=
  if tier < range a.tech then []
  else (window (cellOf tier a)).flatMap fun c => match (gridOf range tier positions).lookup c with
    | none => []
    | some cell => cell.entries.flatMap fun ⟨rj, idxs⟩ =>
      if max (range a.tech) rj ≠ tier then [] else idxs.filter (i < ·)

/-- One grid for each range. -/
def encounterPairsTiered (range : τ → ℚ) (positions : List (Position ι τ)) : List (ι × ι) :=
  if positions.length < 2 then []
  else
    let ranges := positions.map fun p => range p.tech
    if ranges.min?.getD 0 ≤ 0 then encounterPairsNaive range positions
    else
      let tiers := ranges.toFinset.sort (· ≤ ·)
      positions.zipIdx.flatMap fun (a, i) =>
        let cand := (tiers.flatMap (tierCandidates range positions a i)).toFinset
        (cand.sort (· ≤ ·)).filterMap (encounter range positions a)

/-- The enumeration in use. -/
def encounterPairs (range : τ → ℚ) (positions : List (Position ι τ)) : List (ι × ι) :=
  if positions.length < 2 then [] else encounterPairsTiered range positions

/-! ## What a grid holds -/

variable {range : τ → ℚ} {positions : List (Position ι τ)} {a b : Position ι τ} {side : ℚ} {i j : ℕ} {c : ℤ × ℤ}

/-- The indices of the positions with a property, in their order. -/
def indices (positions : List (Position ι τ)) (q : Position ι τ → Bool) : List ℕ :=
  (positions.zipIdx.filter fun p => q p.1).map Prod.snd

theorem mem_indices {q : Position ι τ → Bool} :
    j ∈ indices positions q ↔ ∃ b, positions[j]? = some b ∧ q b = true := by
  simp only [indices, List.mem_map, List.mem_filter, Prod.exists, List.mem_zipIdx_iff_getElem?]
  constructor
  · rintro ⟨b, k, ⟨hb, hq⟩, rfl⟩
    exact ⟨b, hb, hq⟩
  · rintro ⟨b, hb, hq⟩
    exact ⟨b, j, ⟨hb, hq⟩, rfl⟩

theorem nodup_indices (q : Position ι τ → Bool) : (indices positions q).Nodup := by
  refine List.Nodup.sublist (List.filter_sublist.map Prod.snd) ?_
  rw [List.zipIdx_map_snd]
  exact List.nodup_range'

/-- A bucket holds the indices of its cell. -/
theorem lookup_bucketsOf (side : ℚ) (c : ℤ × ℤ) :
    ((bucketsOf side positions).lookup c).getD [] = indices positions fun p => cellOf side p = c := by
  rw [bucketsOf, getD_collect, gather_append]
  rfl

/-- **The cells around a position have everything in its reach.** -/
theorem cellOf_mem_window (hside : 0 < side) (hreach : max (range a.tech) (range b.tech) ≤ side)
    (hpos : 0 < range a.tech) (h : inRange range a b = true) : cellOf side b ∈ window (cellOf side a) := by
  have hrange : 0 < max (range a.tech) (range b.tech) := lt_max_of_lt_left hpos
  obtain ⟨hx, hy⟩ := abs_le_of_sq_add_sq_le hrange (of_decide_eq_true h)
  exact mem_window.mpr ⟨floor_div_near hside (hx.trans hreach), floor_div_near hside (hy.trans hreach)⟩

/-! ## The rows -/

/-- **A row of the double loop from its candidates**: later indices, sorted, none of an encounter missing. -/
theorem row_eq {cands : List ℕ} (hsorted : cands.SortedLT) (hlater : ∀ j ∈ cands, i < j ∧ j < positions.length)
    (hmiss : ∀ j b, i < j → positions[j]? = some b → inRange range a b = true → j ∈ cands) :
    cands.filterMap (encounter range positions a) =
      (List.range' (i + 1) (positions.length - (i + 1))).filterMap (encounter range positions a) := by
  have hall := List.sortedLT_range' (i + 1) (positions.length - (i + 1)) Nat.one_ne_zero
  refine filterMap_eq_of_candidates hsorted hall (fun j hj => ?_) fun j hj hhit => ?_
  · have hj := hlater j hj
    exact List.mem_range'_1.mpr (by omega)
  · obtain ⟨pair, hpair⟩ := Option.isSome_iff_exists.mp hhit
    obtain ⟨b, hb, hpair⟩ := Option.bind_eq_some_iff.mp hpair
    have hlt := (List.mem_range'_1.mp hj).1
    refine hmiss j b (by omega) hb ?_
    by_contra hout
    rw [if_neg hout] at hpair
    cases hpair

/-- Rows that agree with the double loop one by one. -/
theorem rows_eq {row : Position ι τ × ℕ → List (ι × ι)}
    (h : ∀ a i, positions[i]? = some a → row (a, i) =
      (List.range' (i + 1) (positions.length - (i + 1))).filterMap (encounter range positions a)) :
    positions.zipIdx.flatMap row = encounterPairsNaive range positions := by
  refine List.flatMap_congr fun p hp => ?_
  exact h p.1 p.2 (List.mem_zipIdx_iff_getElem?.mp hp)

/-! ## One grid -/

theorem mem_bucketCandidates (a : Position ι τ) (i : ℕ) :
    j ∈ ((window (cellOf side a)).flatMap fun c => (((bucketsOf side positions).lookup c).getD []).filter (i < ·)) ↔
      i < j ∧ ∃ b, positions[j]? = some b ∧ cellOf side b ∈ window (cellOf side a) := by
  simp only [List.mem_flatMap, List.mem_filter, lookup_bucketsOf, mem_indices, decide_eq_true_eq]
  constructor
  · rintro ⟨c, hc, ⟨b, hb, rfl⟩, hlt⟩
    exact ⟨hlt, b, hb, hc⟩
  · rintro ⟨hlt, b, hb, hc⟩
    exact ⟨cellOf side b, hc, ⟨b, hb, rfl⟩, hlt⟩

/-- No index is in two cells. -/
theorem nodup_bucketCandidates (a : Position ι τ) (i : ℕ) : ((window (cellOf side a)).flatMap fun c =>
    (((bucketsOf side positions).lookup c).getD []).filter (i < ·)).Nodup := by
  refine List.nodup_flatMap.mpr ⟨fun c _ => ?_, ?_⟩
  · rw [lookup_bucketsOf]
    exact (nodup_indices _).filter _
  · refine (nodup_window _).pairwise_of_forall_ne fun c _ d _ hne j hc hd => hne ?_
    simp only [List.mem_filter, lookup_bucketsOf, mem_indices, decide_eq_true_eq] at hc hd
    obtain ⟨⟨b, hb, rfl⟩, -⟩ := hc
    obtain ⟨⟨b', hb', rfl⟩, -⟩ := hd
    rw [Option.some.inj (hb.symm.trans hb')]

/-- The largest range is positive and no range is larger. -/
theorem largest_range (hpos : ∀ p ∈ positions, 0 < range p.tech) (hlen : 2 ≤ positions.length) :
    0 < (positions.map fun p => range p.tech).max?.getD 0 ∧
      ∀ p ∈ positions, range p.tech ≤ (positions.map fun p => range p.tech).max?.getD 0 := by
  cases hmax : (positions.map fun p => range p.tech).max? with
  | none =>
    rw [List.max?_eq_none_iff, List.map_eq_nil_iff] at hmax
    subst hmax
    cases hlen
  | some side =>
    obtain ⟨hmem, hle⟩ := List.max?_eq_some_iff.mp hmax
    obtain ⟨p, hp, rfl⟩ := List.mem_map.mp hmem
    exact ⟨hpos p hp, fun q hq => hle _ (List.mem_map_of_mem hq)⟩

/-- Fewer than two positions have no pairs. -/
theorem naive_short (h : positions.length < 2) : encounterPairsNaive range positions = [] := by
  refine List.flatMap_eq_nil_iff.mpr fun ⟨a, i⟩ _ => ?_
  simp only [show positions.length - (i + 1) = 0 by omega, List.range'_zero, List.filterMap_nil]

/-- **The enumeration by one grid is the double loop.** -/
theorem bucketed_eq (hpos : ∀ p ∈ positions, 0 < range p.tech) :
    encounterPairsBucketed range positions = encounterPairsNaive range positions := by
  unfold encounterPairsBucketed
  split
  · next hshort => exact (naive_short hshort).symm
  · next hlen =>
    obtain ⟨hside, hlargest⟩ := largest_range hpos (Nat.not_lt.mp hlen)
    dsimp only
    rw [if_neg (not_le.mpr hside)]
    refine rows_eq fun a i ha => row_eq ?_ (fun j hj => ?_) fun j b hlt hb hreach => ?_
    · exact List.sortedLE_mergeSort.sortedLT_of_nodup (List.nodup_mergeSort.mpr (nodup_bucketCandidates a i))
    · obtain ⟨hlt, b, hb, -⟩ := (mem_bucketCandidates a i).mp (List.mem_mergeSort.mp hj)
      exact ⟨hlt, (List.getElem?_eq_some_iff.mp hb).1⟩
    · have hma := List.mem_of_getElem? ha
      have hmb := List.mem_of_getElem? hb
      refine List.mem_mergeSort.mpr ((mem_bucketCandidates a i).mpr ⟨hlt, b, hb, ?_⟩)
      exact cellOf_mem_window hside (max_le (hlargest a hma) (hlargest b hmb)) (hpos a hma) hreach

/-! ## A grid for each range -/

/-- What a cell holds for a range. -/
theorem mem_gridOf {cell : Dict ℚ (List ℕ)} (h : (gridOf range side positions).lookup c = some cell) (rj : ℚ) :
    j ∈ (cell.lookup rj).getD [] ↔ ∃ b, positions[j]? = some b ∧ cellOf side b = c ∧ range b.tech = rj := by
  rw [gridOf, lookup_collect] at h
  split at h
  · cases h
  · obtain rfl := Option.some.inj h
    rw [gather_upsert, getD_collect, gather_append]
    simp only [List.mem_map, List.mem_filter, Prod.exists, List.mem_zipIdx_iff_getElem?, decide_eq_true_eq]
    constructor
    · rintro ⟨b, k, ⟨⟨hb, hc⟩, hrj⟩, rfl⟩
      exact ⟨b, hb, hc, hrj⟩
    · rintro ⟨b, hb, hc, hrj⟩
      exact ⟨b, j, ⟨⟨hb, hc⟩, hrj⟩, rfl⟩

/-- The cell of a position holds something. -/
theorem exists_cell (range : τ → ℚ) (side : ℚ) (hb : positions[j]? = some b) :
    ∃ cell, (gridOf range side positions).lookup (cellOf side b) = some cell := by
  have hmem : (b, j) ∈ positions.zipIdx.filter fun p => cellOf side p.1 = cellOf side b :=
    List.mem_filter.mpr ⟨List.mem_zipIdx_iff_getElem?.mpr hb, decide_eq_true rfl⟩
  rw [gridOf, lookup_collect, if_neg (List.ne_nil_of_mem hmem)]
  exact ⟨_, rfl⟩

/-- **The candidates of a tier**: the later positions around in its grid whose larger range it is. -/
theorem mem_tierCandidates {tier : ℚ} : j ∈ tierCandidates range positions a i tier ↔
    i < j ∧ ∃ b, positions[j]? = some b ∧ cellOf tier b ∈ window (cellOf tier a) ∧
      max (range a.tech) (range b.tech) = tier := by
  unfold tierCandidates
  by_cases hsmall : tier < range a.tech
  · simp only [hsmall, if_true, List.not_mem_nil, false_iff]
    rintro ⟨-, b, -, -, rfl⟩
    exact absurd hsmall (not_lt.mpr (le_max_left _ _))
  · simp only [hsmall, if_false, List.mem_flatMap]
    constructor
    · rintro ⟨c, hc, hj⟩
      cases hcell : (gridOf range tier positions).lookup c with
      | none =>
        rw [hcell] at hj
        cases hj
      | some cell =>
        rw [hcell] at hj
        obtain ⟨⟨rj, idxs⟩, hentry, hj⟩ := List.mem_flatMap.mp hj
        by_cases htier : max (range a.tech) rj = tier
        · rw [if_neg (not_not.mpr htier), List.mem_filter, decide_eq_true_eq] at hj
          have hget : cell.lookup rj = some idxs := AList.mem_lookup_iff.mpr hentry
          obtain ⟨b, hb, rfl, rfl⟩ := (mem_gridOf hcell rj).mp (by rw [hget]; exact hj.1)
          exact ⟨hj.2, b, hb, hc, htier⟩
        · rw [if_pos htier] at hj
          cases hj
    · rintro ⟨hlt, b, hb, hc, htier⟩
      refine ⟨cellOf tier b, hc, ?_⟩
      obtain ⟨cell, hcell⟩ := exists_cell range tier hb
      have hmem := (mem_gridOf hcell (range b.tech)).mpr ⟨b, hb, rfl, rfl⟩
      rw [hcell]
      cases hget : cell.lookup (range b.tech) with
      | none =>
        rw [hget] at hmem
        cases hmem
      | some idxs =>
        rw [hget] at hmem
        refine List.mem_flatMap.mpr ⟨⟨range b.tech, idxs⟩, AList.mem_lookup_iff.mp hget, ?_⟩
        rw [if_neg (not_not.mpr htier)]
        exact List.mem_filter.mpr ⟨hmem, decide_eq_true hlt⟩

/-- The smallest range is positive. -/
theorem smallest_range (hpos : ∀ p ∈ positions, 0 < range p.tech) (hlen : 2 ≤ positions.length) :
    0 < (positions.map fun p => range p.tech).min?.getD 0 := by
  cases hmin : (positions.map fun p => range p.tech).min? with
  | none =>
    rw [List.min?_eq_none_iff, List.map_eq_nil_iff] at hmin
    subst hmin
    cases hlen
  | some least =>
    obtain ⟨p, hp, rfl⟩ := List.mem_map.mp (List.min?_eq_some_iff.mp hmin).1
    exact hpos p hp

/-- **The enumeration by tiers is the double loop.** -/
theorem tiered_eq (hpos : ∀ p ∈ positions, 0 < range p.tech) :
    encounterPairsTiered range positions = encounterPairsNaive range positions := by
  unfold encounterPairsTiered
  split
  · next hshort => exact (naive_short hshort).symm
  · next hlen =>
    dsimp only
    rw [if_neg (not_le.mpr (smallest_range hpos (Nat.not_lt.mp hlen)))]
    refine rows_eq fun a i ha => row_eq (Finset.sortedLT_sort _) (fun j hj => ?_) fun j b hlt hb hreach => ?_
    · rw [Finset.mem_sort, List.mem_toFinset] at hj
      obtain ⟨tier, -, hj⟩ := List.mem_flatMap.mp hj
      obtain ⟨hlt, b, hb, -⟩ := mem_tierCandidates.mp hj
      exact ⟨hlt, (List.getElem?_eq_some_iff.mp hb).1⟩
    · have hma := List.mem_of_getElem? ha
      have hmb := List.mem_of_getElem? hb
      have hside : 0 < max (range a.tech) (range b.tech) := lt_max_of_lt_left (hpos a hma)
      -- the pair is found in the grid of its own range, which is the range of one of the two
      have htier : max (range a.tech) (range b.tech) ∈ (positions.map fun p => range p.tech).toFinset := by
        rw [List.mem_toFinset]
        rcases max_choice (range a.tech) (range b.tech) with h | h
        · rw [h]
          exact List.mem_map_of_mem hma
        · rw [h]
          exact List.mem_map_of_mem hmb
      rw [Finset.mem_sort, List.mem_toFinset]
      refine List.mem_flatMap.mpr ⟨_, (Finset.mem_sort _).mpr htier, mem_tierCandidates.mpr ⟨hlt, b, hb, ?_, rfl⟩⟩
      exact cellOf_mem_window hside le_rfl (hpos a hma) hreach

/-! ## The three enumerations -/

/-- **Both enumerations by cells are the double loop**: the same pairs in the same order, for any positive ranges. -/
theorem encounters_exact (range : τ → ℚ) (positions : List (Position ι τ)) (hpos : ∀ p ∈ positions, 0 < range p.tech) :
    encounterPairsTiered range positions = encounterPairsNaive range positions ∧
      encounterPairsBucketed range positions = encounterPairsNaive range positions :=
  ⟨tiered_eq hpos, bucketed_eq hpos⟩

/-- The enumeration in use is the double loop. -/
theorem encounterPairs_eq (hpos : ∀ p ∈ positions, 0 < range p.tech) :
    encounterPairs range positions = encounterPairsNaive range positions := by
  unfold encounterPairs
  split
  · next hshort => exact (naive_short hshort).symm
  · exact tiered_eq hpos

/-- Two nodes at exactly the range of a bridge, on multiples of it, and two at negative coordinates. -/
def boundaryPositions : List (Position ℕ TechType) :=
  [⟨0, 15999984, 0, .wifiAware⟩, ⟨1, 16999983, 0, .ethernet⟩, ⟨2, -30, -40, .ble⟩, ⟨3, 0, 0, .ble⟩]

theorem encounters_exact_boundary :
    encounterPairsTiered TechType.rangeM boundaryPositions = [(0, 1), (2, 3)] ∧
      encounterPairsBucketed TechType.rangeM boundaryPositions = [(0, 1), (2, 3)] := by
  have hnaive : encounterPairsNaive TechType.rangeM boundaryPositions = [(0, 1), (2, 3)] := by decide +kernel
  have hexact := encounters_exact TechType.rangeM boundaryPositions (by decide +kernel)
  rwa [hnaive] at hexact

end Onde.Simulation
