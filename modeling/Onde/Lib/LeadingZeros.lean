import Mathlib.Data.Nat.Bitwise
import Mathlib.Data.Nat.Size
import Mathlib.Order.Basic
import Onde.Lib.Bytes

/-!
# Common leading bits

* `sharedBits w a b`: how many leading bits two numbers of `w` bits have in common; these are the leading zeros of
  their exclusive or (`clz_xor`);
* `le_sharedBits_iff`: there are `k` of them when the numbers agree without their `w - k` low bits, so the number is
  symmetric, is `w` for equal numbers only, and two of three never exceed the third both (`sharedBits_ultrametric`);
* `sharedBits_append`: two words are compared from their heads;
* `sharedBits_bytes`: and so are two byte strings.
-/

namespace Onde.Lib

variable {w k : Nat} {a b c : Nat}

/-- The number of leading bits that two numbers of `w` bits have in common. -/
def sharedBits (w a b : Nat) : Nat := w - (a ^^^ b).size

theorem toNat_clz (x : BitVec w) : x.clz.toNat = w - x.toNat.size := by
  have hle : x.clz.toNat ≤ w := by
    have h := BitVec.le_def.mp (BitVec.clz_le (x := x))
    rwa [BitVec.natCast_eq_ofNat, BitVec.toNat_ofNat, Nat.mod_eq_of_lt Nat.lt_two_pow_self] at h
  have hupper : x.toNat.size ≤ w - x.clz.toNat := Nat.size_le.mpr BitVec.toNat_lt_two_pow_sub_clz
  by_cases hx : x = 0#w
  · have h := congrArg BitVec.toNat (BitVec.clz_eq_iff_eq_zero.mpr hx)
    rw [BitVec.natCast_eq_ofNat, BitVec.toNat_ofNat, Nat.mod_eq_of_lt Nat.lt_two_pow_self] at h
    rw [h, hx, BitVec.toNat_ofNat, Nat.zero_mod, Nat.size_zero, Nat.sub_zero]
  · have hw : 0 < w := by
      refine Nat.pos_of_ne_zero ?_
      rintro rfl
      exact hx (BitVec.eq_of_zero_length rfl)
    have hlower : w - 1 - x.clz.toNat < x.toNat.size :=
      Nat.lt_size.mpr (BitVec.two_pow_sub_clz_le_toNat_of_ne_zero hw hx)
    omega

/-- **The common leading bits of two words are the leading zeros of their exclusive or.** -/
theorem clz_xor (x y : BitVec w) : (x ^^^ y).clz.toNat = sharedBits w x.toNat y.toNat := by
  rw [toNat_clz, BitVec.toNat_xor, sharedBits]

theorem xor_lt_iff {m : Nat} : a ^^^ b < 2 ^ m ↔ a / 2 ^ m = b / 2 ^ m := by
  rw [← Nat.div_eq_zero_iff_lt (Nat.two_pow_pos m), Nat.xor_div_two_pow, Nat.xor_eq_zero_iff]

/-- **There are `k` common leading bits when the numbers agree without their `w - k` low bits.** -/
theorem le_sharedBits_iff (ha : a < 2 ^ w) (hb : b < 2 ^ w) :
    k ≤ sharedBits w a b ↔ k ≤ w ∧ a / 2 ^ (w - k) = b / 2 ^ (w - k) := by
  have hsize : (a ^^^ b).size ≤ w := Nat.size_le.mpr (Nat.xor_lt_two_pow ha hb)
  rw [← xor_lt_iff, ← Nat.size_le, sharedBits]
  omega

theorem sharedBits_le : sharedBits w a b ≤ w := Nat.sub_le _ _

theorem sharedBits_comm (w a b : Nat) : sharedBits w a b = sharedBits w b a := by
  rw [sharedBits, Nat.xor_comm, sharedBits]

/-- **All bits are common to equal numbers only.** -/
theorem sharedBits_eq_width_iff (ha : a < 2 ^ w) (hb : b < 2 ^ w) : sharedBits w a b = w ↔ a = b := by
  have h := le_sharedBits_iff (k := w) ha hb
  rw [Nat.sub_self, Nat.pow_zero, Nat.div_one, Nat.div_one] at h
  have hle := sharedBits_le (w := w) (a := a) (b := b)
  exact ⟨fun heq => (h.mp (Nat.le_of_eq heq.symm)).2, fun heq => Nat.le_antisymm hle (h.mpr ⟨Nat.le_refl w, heq⟩)⟩

/-- **The leading bits that one number has in common with two others are common to these.** -/
theorem sharedBits_ultrametric (ha : a < 2 ^ w) (hb : b < 2 ^ w) (hc : c < 2 ^ w) :
    min (sharedBits w a b) (sharedBits w b c) ≤ sharedBits w a c := by
  obtain ⟨hle, hab⟩ := (le_sharedBits_iff ha hb).mp (Nat.min_le_left (sharedBits w a b) (sharedBits w b c))
  obtain ⟨-, hbc⟩ := (le_sharedBits_iff hb hc).mp (Nat.min_le_right (sharedBits w a b) (sharedBits w b c))
  exact (le_sharedBits_iff ha hc).mpr ⟨hle, hab.trans hbc⟩

/-! ## Words one after the other -/

section append
variable {u v x y r s : Nat}

theorem append_lt (hx : x < 2 ^ u) (hr : r < 2 ^ v) : x * 2 ^ v + r < 2 ^ (u + v) := by
  have h : (x + 1) * 2 ^ v ≤ 2 ^ u * 2 ^ v := Nat.mul_le_mul_right _ hx
  rw [Nat.add_mul, Nat.one_mul, ← Nat.pow_add] at h
  omega

/-- Without at least its low word a word is its head, without some bits of it. -/
theorem append_div_high (hr : r < 2 ^ v) (i : Nat) : (x * 2 ^ v + r) / 2 ^ (v + i) = x / 2 ^ i := by
  rw [Nat.pow_add, ← Nat.div_div_eq_div_mul, Nat.mul_comm x, Nat.mul_add_div (Nat.two_pow_pos v),
    Nat.div_eq_of_lt hr, Nat.add_zero]

/-- Without some bits of its low word a word is its head and the rest. -/
theorem append_div_low (i j : Nat) : (x * 2 ^ (i + j) + r) / 2 ^ i = x * 2 ^ j + r / 2 ^ i := by
  have h : x * 2 ^ (i + j) = 2 ^ i * (x * 2 ^ j) := by rw [Nat.pow_add]; ring
  rw [h, Nat.mul_add_div (Nat.two_pow_pos i)]

theorem head_eq (hr : r < 2 ^ v) (hs : s < 2 ^ v) (h : x * 2 ^ v + r = y * 2 ^ v + s) : x = y := by
  have hx := append_div_high (x := x) hr 0
  rw [h, append_div_high hs, Nat.pow_zero, Nat.div_one, Nat.div_one] at hx
  exact hx.symm

/-- **The low words are compared when the heads are the same.** -/
theorem sharedBits_append (hx : x < 2 ^ u) (hy : y < 2 ^ u) (hr : r < 2 ^ v) (hs : s < 2 ^ v) :
    sharedBits (u + v) (x * 2 ^ v + r) (y * 2 ^ v + s) =
      if x = y then u + sharedBits v r s else sharedBits u x y := by
  refine eq_of_forall_le_iff fun k => ?_
  rw [le_sharedBits_iff (append_lt hx hr) (append_lt hy hs)]
  rcases Nat.lt_or_ge k u with hku | hku
  · -- the bits in question are bits of the heads
    have hsub : u + v - k = v + (u - k) := by omega
    rw [hsub, append_div_high hr, append_div_high hs]
    split
    · next heq =>
      subst heq
      omega
    · rw [le_sharedBits_iff hx hy]
      omega
  · -- all bits of the heads are among them
    obtain ⟨i, rfl⟩ := Nat.exists_eq_add_of_le hku
    split
    · next heq =>
      subst heq
      rw [Nat.add_le_add_iff_left, Nat.add_le_add_iff_left, le_sharedBits_iff hr hs, Nat.add_sub_add_left]
      refine and_congr_right fun hi => ?_
      have hpow : 2 ^ v = 2 ^ (v - i + i) := by rw [Nat.sub_add_cancel hi]
      rw [hpow, append_div_low, append_div_low, Nat.add_right_inj]
    · next hne =>
      have hlt : sharedBits u x y < u :=
        Nat.lt_of_le_of_ne sharedBits_le fun heq => hne ((sharedBits_eq_width_iff hx hy).mp heq)
      refine iff_of_false ?_ (by omega)
      rintro ⟨hi, heq⟩
      have hi : i ≤ v := by omega
      have hsplit : v = v - i + i := (Nat.sub_add_cancel hi).symm
      have hpow : 2 ^ v = 2 ^ (v - i + i) := congrArg _ hsplit
      have hdiv : ∀ {n : Nat}, n < 2 ^ v → n / 2 ^ (v - i) < 2 ^ i := fun hn => by
        rw [hpow, Nat.pow_add] at hn
        exact Nat.div_lt_of_lt_mul hn
      rw [Nat.add_sub_add_left, hpow, append_div_low, append_div_low] at heq
      exact hne (head_eq (hdiv hr) (hdiv hs) heq)

end append

/-! ## Byte strings -/

theorem ofLe_append : ∀ xs ys : Bytes, ofLe (xs ++ ys) = ofLe xs + 256 ^ xs.length * ofLe ys
  | [], ys => by rw [List.nil_append, List.length_nil, Nat.pow_zero, Nat.one_mul, ofLe, Nat.zero_add]
  | x :: xs, ys => by
    rw [List.cons_append, ofLe, ofLe_append xs ys, ofLe, List.length_cons, Nat.pow_succ]
    ring

/-- The first byte is the head of the word. -/
theorem ofBe_cons (x : UInt8) (xs : Bytes) : ofBe (x :: xs) = x.toNat * 2 ^ (8 * xs.length) + ofBe xs := by
  rw [ofBe, List.reverse_cons, ofLe_append, List.length_reverse, ofLe, ofLe, Nat.mul_zero, Nat.add_zero, ofBe,
    Nat.pow_mul, Nat.mul_comm, Nat.add_comm]

theorem ofBe_lt (xs : Bytes) : ofBe xs < 2 ^ (8 * xs.length) := by
  have h := ofLe_lt xs.reverse
  rwa [List.length_reverse, show (256 : Nat) = 2 ^ 8 from rfl, ← Nat.pow_mul] at h

theorem ofBe_inj {xs ys : Bytes} (hlen : xs.length = ys.length) (h : ofBe xs = ofBe ys) : xs = ys := by
  have hx := leBytes_ofLe xs.reverse
  have hy := leBytes_ofLe ys.reverse
  rw [ofBe, ofBe] at h
  rw [List.length_reverse, h, hlen] at hx
  rw [List.length_reverse] at hy
  exact List.reverse_inj.mp (hx.symm.trans hy)

/-- **Two byte strings are compared from their first bytes.** -/
theorem sharedBits_bytes {x y : UInt8} {xs ys : Bytes} (hlen : xs.length = ys.length) :
    sharedBits (8 * (xs.length + 1)) (ofBe (x :: xs)) (ofBe (y :: ys)) =
      if x = y then 8 + sharedBits (8 * xs.length) (ofBe xs) (ofBe ys) else sharedBits 8 x.toNat y.toNat := by
  have hwidth : 8 * (xs.length + 1) = 8 + 8 * xs.length := by omega
  have hys := ofBe_lt ys
  rw [← hlen] at hys
  rw [ofBe_cons, ofBe_cons, ← hlen, hwidth, sharedBits_append x.toNat_lt y.toNat_lt (ofBe_lt xs) hys]
  simp only [UInt8.toNat_inj]

end Onde.Lib
