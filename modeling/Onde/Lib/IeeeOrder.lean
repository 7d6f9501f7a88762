import Mathlib

/-!
# Comparing floating-point numbers

Every comparison with NaN is false, and the other values are ordered.

* `IeeeOrder`: comparisons of this kind (`not_lt_iff`);
* `fmax`, `fmin`: the larger and the smaller of two values, or the one that is a number (`le_fmax`, `le_fmin_self`);
* `Float`: the comparisons of doubles are of this kind; the order is that of sign, exponent and mantissa
  (`Binary.rank`).
-/

namespace Onde.Lib

/-- Comparisons that are false on NaN and a total preorder elsewhere. -/
class IeeeOrder (S : Type) extends LE S, LT S where
  isNaN : S → Bool
  decLe : DecidableLE S
  decLt : DecidableLT S
  numbers : ∀ {a b : S}, a ≤ b → isNaN a = false ∧ isNaN b = false
  protected total : ∀ {a b : S}, isNaN a = false → isNaN b = false → a ≤ b ∨ b ≤ a
  protected trans : ∀ {a b c : S}, a ≤ b → b ≤ c → a ≤ c
  protected lt_iff : ∀ {a b : S}, a < b ↔ isNaN a = false ∧ isNaN b = false ∧ ¬b ≤ a

namespace IeeeOrder

variable {S : Type} [IeeeOrder S] {a b t : S}

instance : DecidableLE S := decLe

instance : DecidableLT S := decLt

/-- Between numbers, not to be less is to be as large. -/
protected theorem not_lt_iff (ha : isNaN a = false) (hb : isNaN b = false) : ¬a < b ↔ b ≤ a := by
  rw [IeeeOrder.lt_iff]
  simp [ha, hb]

protected theorem not_le_of_lt (h : a < b) : ¬b ≤ a := (IeeeOrder.lt_iff.mp h).2.2

protected theorem le_of_lt (h : a < b) : a ≤ b := by
  obtain ⟨ha, hb, hno⟩ := IeeeOrder.lt_iff.mp h
  exact (IeeeOrder.total ha hb).resolve_right hno

/-- The larger of two values, or the one that is a number. -/
def fmax (a b : S) : S := if isNaN a then b else if isNaN b then a else if a < b then b else a

/-- The smaller one. -/
def fmin (a b : S) : S := if isNaN a then b else if isNaN b then a else if b < a then b else a

/-- A value moved into an interval; NaN stays. -/
def fclamp (a lo hi : S) : S :=
  let a := if a < lo then lo else a
  if hi < a then hi else a

theorem isNaN_fmax : isNaN (fmax a b) = (isNaN a && isNaN b) := by
  unfold fmax
  cases ha : isNaN a
  · cases hb : isNaN b
    · rw [if_neg Bool.false_ne_true, if_neg Bool.false_ne_true]
      split
      · exact hb
      · exact ha
    · exact ha
  · exact (Bool.true_and _).symm

theorem isNaN_fmin : isNaN (fmin a b) = (isNaN a && isNaN b) := by
  unfold fmin
  cases ha : isNaN a
  · cases hb : isNaN b
    · rw [if_neg Bool.false_ne_true, if_neg Bool.false_ne_true]
      split
      · exact hb
      · exact ha
    · exact ha
  · exact (Bool.true_and _).symm

theorem not_le_of_isNaN (h : isNaN a = true) : ¬t ≤ a := by
  intro hle
  rw [(numbers hle).2] at h
  cases h

/-- **What is below the larger of two values is below one of them.** -/
theorem le_fmax : t ≤ fmax a b ↔ t ≤ a ∨ t ≤ b := by
  unfold fmax
  cases ha : isNaN a
  · cases hb : isNaN b
    · rw [if_neg Bool.false_ne_true, if_neg Bool.false_ne_true]
      split
      · next hlt => exact ⟨.inr, fun h => h.elim (fun hta => IeeeOrder.trans hta (IeeeOrder.le_of_lt hlt)) id⟩
      · next hge =>
        have hba := (IeeeOrder.not_lt_iff ha hb).mp hge
        exact ⟨.inl, fun h => h.elim id fun htb => IeeeOrder.trans htb hba⟩
    · simp [not_le_of_isNaN hb]
  · simp [not_le_of_isNaN ha]

/-- A number is below the smaller of a value and itself unless the value is less. -/
theorem le_fmin_self (ht : isNaN t = false) : t ≤ fmin a t ↔ ¬a < t := by
  have hself : t ≤ t := (IeeeOrder.total ht ht).elim id id
  unfold fmin
  cases ha : isNaN a
  · rw [if_neg Bool.false_ne_true, ht, if_neg Bool.false_ne_true, IeeeOrder.not_lt_iff ha ht]
    split
    · next hlt => exact iff_of_true hself (IeeeOrder.le_of_lt hlt)
    · exact Iff.rfl
  · rw [if_pos rfl]
    refine iff_of_true hself fun hlt => ?_
    rw [(IeeeOrder.lt_iff.mp hlt).1] at ha
    cases ha

/-- What is in the interval stays. -/
theorem fclamp_eq {lo hi : S} (hlo : lo ≤ a) (hhi : a ≤ hi) : fclamp a lo hi = a := by
  unfold fclamp
  dsimp only
  rw [if_neg fun h => IeeeOrder.not_le_of_lt h hlo, if_neg fun h => IeeeOrder.not_le_of_lt h hhi]

end IeeeOrder

/-! ## Doubles -/

namespace Binary

open Float.Model Float.Model.UnpackedFloat

/-- The place of a number: its sign, and then its exponent and its mantissa. -/
def rank : UnpackedFloat → Option (ℤ ×ₗ ℤ ×ₗ ℤ)
  | .notANumber => none
  | .infinity .negative => some (toLex (-2, toLex (0, 0)))
  | .finite .negative m e _ => some (toLex (-1, toLex (-e, -m)))
  | .zero _ => some (toLex (0, toLex (0, 0)))
  | .finite .positive m e _ => some (toLex (1, toLex (e, m)))
  | .infinity .positive => some (toLex (2, toLex (0, 0)))

theorem rank_eq_none {a : UnpackedFloat} : rank a = none ↔ a.isNaN = true := by
  rcases a with (_ | _) | _ | _ | ⟨_ | _, _⟩ <;> simp [rank, UnpackedFloat.isNaN]

variable {e₁ e₂ : ℤ} {m₁ m₂ : Nat}

theorem compare_sign (s t : Sign) : compare s t =
    match s, t with
    | .negative, .positive => .lt
    | .positive, .negative => .gt
    | _, _ => .eq := by
  cases s <;> cases t <;> rfl

/-- Exponents first, and then mantissas. -/
theorem isLE_pair : ((compare e₁ e₂).then (compare m₁ m₂)).isLE = true ↔ e₁ < e₂ ∨ e₁ = e₂ ∧ m₁ ≤ m₂ := by
  rw [Ordering.isLE_then_iff_or, compare_lt_iff_lt, compare_eq_iff_eq, Nat.isLE_compare]

theorem isGE_pair : ((compare e₁ e₂).then (compare m₁ m₂)).isGE = true ↔ e₂ < e₁ ∨ e₁ = e₂ ∧ m₂ ≤ m₁ := by
  rw [← Ordering.isLE_swap, Ordering.swap_then, ← Std.OrientedCmp.eq_swap, ← Std.OrientedCmp.eq_swap, isLE_pair,
    eq_comm]

theorem lt_pair : (compare e₁ e₂).then (compare m₁ m₂) = .lt ↔ e₁ < e₂ ∨ e₁ = e₂ ∧ m₁ < m₂ := by
  rw [Ordering.then_eq_lt, compare_lt_iff_lt, compare_eq_iff_eq, compare_lt_iff_lt]

theorem gt_pair : (compare e₁ e₂).then (compare m₁ m₂) = .gt ↔ e₂ < e₁ ∨ e₁ = e₂ ∧ m₂ < m₁ := by
  rw [Ordering.then_eq_gt, compare_gt_iff_gt, compare_eq_iff_eq, compare_gt_iff_gt]

theorem le_eq (a b : UnpackedFloat) : a.le b = true ↔ ∃ p q, rank a = some p ∧ rank b = some q ∧ p ≤ q := by
  rcases a with (_ | _) | _ | _ | ⟨_ | _, m₁, e₁, h₁⟩ <;> rcases b with (_ | _) | _ | _ | ⟨_ | _, m₂, e₂, h₂⟩ <;>
    simp [UnpackedFloat.le, UnpackedFloat.compare, rank, Prod.Lex.toLex_le_toLex, compare_sign, isLE_pair, isGE_pair]

theorem lt_eq (a b : UnpackedFloat) : a.lt b = true ↔ ∃ p q, rank a = some p ∧ rank b = some q ∧ p < q := by
  rcases a with (_ | _) | _ | _ | ⟨_ | _, m₁, e₁, h₁⟩ <;> rcases b with (_ | _) | _ | _ | ⟨_ | _, m₂, e₂, h₂⟩ <;>
    simp [UnpackedFloat.lt, UnpackedFloat.compare, rank, Prod.Lex.toLex_lt_toLex, compare_sign, lt_pair, gt_pair]

/-- The place of a double. -/
def place (x : Float) : Option (ℤ ×ₗ ℤ ×ₗ ℤ) := rank x.toModel.unpack

theorem place_eq_none {x : Float} : place x = none ↔ x.isNaN = true := rank_eq_none

theorem float_le_iff {x y : Float} : x ≤ y ↔ ∃ p q, place x = some p ∧ place y = some q ∧ p ≤ q := by
  have hmodel : x ≤ y ↔ x.toModel.unpack.le y.toModel.unpack = true := decide_eq_true_iff
  rw [hmodel, le_eq]
  rfl

theorem float_lt_iff {x y : Float} : x < y ↔ ∃ p q, place x = some p ∧ place y = some q ∧ p < q := by
  have hmodel : x < y ↔ x.toModel.unpack.lt y.toModel.unpack = true := decide_eq_true_iff
  rw [hmodel, lt_eq]
  rfl

theorem place_of_number {x : Float} (h : x.isNaN = false) : ∃ p, place x = some p := by
  refine Option.ne_none_iff_exists'.mp fun hnone => ?_
  rw [place_eq_none.mp hnone] at h
  cases h

theorem number_of_place {x : Float} {p : ℤ ×ₗ ℤ ×ₗ ℤ} (h : place x = some p) : x.isNaN = false := by
  refine Bool.not_eq_true _ ▸ fun hnan => ?_
  rw [place_eq_none.mpr hnan] at h
  cases h

instance : IeeeOrder Float where
  isNaN := Float.isNaN
  decLe := inferInstance
  decLt := inferInstance
  numbers h := by
    obtain ⟨p, q, hp, hq, -⟩ := float_le_iff.mp h
    exact ⟨number_of_place hp, number_of_place hq⟩
  total ha hb := by
    obtain ⟨p, hp⟩ := place_of_number ha
    obtain ⟨q, hq⟩ := place_of_number hb
    exact (le_total p q).imp (fun h => float_le_iff.mpr ⟨p, q, hp, hq, h⟩) fun h => float_le_iff.mpr ⟨q, p, hq, hp, h⟩
  trans hab hbc := by
    obtain ⟨p, q, hp, hq, hpq⟩ := float_le_iff.mp hab
    obtain ⟨q', r, hq', hr, hqr⟩ := float_le_iff.mp hbc
    obtain rfl := Option.some.inj (hq.symm.trans hq')
    exact float_le_iff.mpr ⟨p, r, hp, hr, hpq.trans hqr⟩
  lt_iff := by
    intro a b
    constructor
    · intro h
      obtain ⟨p, q, hp, hq, hpq⟩ := float_lt_iff.mp h
      refine ⟨number_of_place hp, number_of_place hq, fun hba => ?_⟩
      obtain ⟨q', p', hq', hp', hle⟩ := float_le_iff.mp hba
      obtain rfl := Option.some.inj (hp.symm.trans hp')
      obtain rfl := Option.some.inj (hq.symm.trans hq')
      exact absurd hle (not_le.mpr hpq)
    · rintro ⟨ha, hb, hno⟩
      obtain ⟨p, hp⟩ := place_of_number ha
      obtain ⟨q, hq⟩ := place_of_number hb
      exact float_lt_iff.mpr ⟨p, q, hp, hq, not_le.mp fun h => hno (float_le_iff.mpr ⟨q, p, hq, hp, h⟩)⟩

end Binary

end Onde.Lib
