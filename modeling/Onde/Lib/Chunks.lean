import Mathlib.Algebra.BigOperators.Group.List.Basic
import Mathlib.Algebra.Order.BigOperators.Group.Finset
import Mathlib.Data.List.Basic

/-!
# Cutting a list into pieces

* `divCeil n k` pieces of at most `k` elements hold `n` (`lt_divCeil`);
* `piece k xs i`: the piece at an index; the pieces in order are the list (`flatMap_piece`);
* `pieceLen k n i`: the length of a piece; pieces that are no longer than they should be hold everything exactly when
  each has its length (`sum_pieceLen_iff`);
* `mem_of_full`: `n` distinct indices below `n` are all of them.
-/

namespace Onde.Lib

variable {α : Type}

/-- The quotient, rounded up. -/
def divCeil (n k : Nat) : Nat := if 0 < n % k then n / k + 1 else n / k

/-- The piece at an index. -/
def piece (k : Nat) (xs : List α) (i : Nat) : List α := (xs.drop (i * k)).take k

/-- The length of the piece at an index, of a list of length `n`. -/
def pieceLen (k n i : Nat) : Nat := min k (n - i * k)

theorem length_piece (k : Nat) (xs : List α) (i : Nat) : (piece k xs i).length = pieceLen k xs.length i := by
  rw [piece, List.length_take, List.length_drop, pieceLen]

/-- **A piece is there exactly when it starts before the end.** -/
theorem lt_divCeil {n k i : Nat} (hk : 0 < k) : i < divCeil n k ↔ i * k < n := by
  have hdiv := Nat.div_add_mod' n k
  have hmod := Nat.mod_lt n hk
  unfold divCeil
  split
  · constructor
    · intro h
      have hle : i * k ≤ n / k * k := Nat.mul_le_mul_right k (Nat.lt_succ_iff.mp h)
      omega
    · intro h
      by_contra hge
      have hle : (n / k + 1) * k ≤ i * k := Nat.mul_le_mul_right k (Nat.not_lt.mp hge)
      rw [Nat.succ_mul] at hle
      omega
  · have heq : n / k * k = n := by omega
    rw [← Nat.mul_lt_mul_right hk, heq]

theorem le_divCeil_mul {n k : Nat} (hk : 0 < k) : n ≤ divCeil n k * k :=
  Nat.le_of_not_lt fun h => Nat.lt_irrefl _ ((lt_divCeil hk).mpr h)

theorem take_eq_flatMap (k : Nat) (xs : List α) : ∀ n, (List.range n).flatMap (piece k xs) = xs.take (n * k)
  | 0 => by simp
  | n + 1 => by
    have hlast : List.flatMap (piece k xs) [n] = (xs.drop (n * k)).take k := List.append_nil _
    rw [List.range_succ, List.flatMap_append, hlast, take_eq_flatMap k xs n, ← List.take_add, ← Nat.succ_mul]

/-- **The pieces in order are the list.** -/
theorem flatMap_piece {k : Nat} (hk : 0 < k) (xs : List α) :
    (List.range (divCeil xs.length k)).flatMap (piece k xs) = xs := by
  rw [take_eq_flatMap, List.take_of_length_le (le_divCeil_mul hk)]

/-- The last piece is what is left, and the others are full. -/
theorem pieceLen_eq {n k i : Nat} (hk : 0 < k) (hi : i < divCeil n k) :
    pieceLen k n i = if i = divCeil n k - 1 then n - i * k else k := by
  unfold pieceLen
  split
  next hlast =>
    have hend : ¬(i + 1) * k < n := fun h => absurd ((lt_divCeil hk).mpr h) (by omega)
    rw [Nat.succ_mul] at hend
    omega
  next hmore =>
    have hnext : (i + 1) * k < n := (lt_divCeil hk).mp (by omega)
    rw [Nat.succ_mul] at hnext
    omega

theorem sum_pieceLen (k n : Nat) : ∀ m, ∑ i ∈ Finset.range m, pieceLen k n i = min n (m * k)
  | 0 => by simp
  | m + 1 => by
    rw [Finset.sum_range_succ, sum_pieceLen k n m, pieceLen, Nat.succ_mul]
    omega

/-- **Pieces no longer than they should be hold everything exactly when each has its length.** -/
theorem sum_pieceLen_iff {n k : Nat} (hk : 0 < k) {f : Nat → Nat} (hle : ∀ i < divCeil n k, f i ≤ pieceLen k n i) :
    ∑ i ∈ Finset.range (divCeil n k), f i = n ↔ ∀ i < divCeil n k, f i = pieceLen k n i := by
  have htotal : ∑ i ∈ Finset.range (divCeil n k), pieceLen k n i = n := by
    rw [sum_pieceLen, Nat.min_eq_left (le_divCeil_mul hk)]
  have hiff := Finset.sum_eq_sum_iff_of_le fun i hi => hle i (Finset.mem_range.mp hi)
  rw [htotal] at hiff
  simpa using hiff

theorem length_flatMap_range (g : Nat → List α) : ∀ n,
    ((List.range n).flatMap g).length = ∑ i ∈ Finset.range n, (g i).length
  | 0 => by simp
  | n + 1 => by
    rw [List.range_succ, List.flatMap_append, List.length_append, length_flatMap_range g n, Finset.sum_range_succ]
    simp

/-- `n` distinct indices below `n` are all of them. -/
theorem mem_of_full {n i : Nat} {l : List Nat} (hl : l.Nodup) (hlt : ∀ j ∈ l, j < n) (hn : l.length = n)
    (hi : i < n) : i ∈ l := by
  have hsub : l.toFinset ⊆ Finset.range n := fun j hj => Finset.mem_range.mpr (hlt j (List.mem_toFinset.mp hj))
  have heq := Finset.eq_of_subset_of_card_le hsub (by rw [Finset.card_range, List.toFinset_card_of_nodup hl, hn])
  exact List.mem_toFinset.mp (heq ▸ Finset.mem_range.mpr hi)

end Onde.Lib
