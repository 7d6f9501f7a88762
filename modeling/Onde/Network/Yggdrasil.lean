import Onde.Crypto.Primitives
import Onde.Lib.LeadingZeros

/-!
# How far apart are two mesh addresses?

The distance of two addresses is the length of their common prefix in bits, found by comparing them byte by byte.

* `commonPrefixBits_eq`: the loop counts the common leading bits of the addresses as numbers;
* `treeDistance_comm`: it does not matter which address comes first, and whether one of them is no address either;
* `xor_distance`: these are the leading zeros of the exclusive or, 128 for equal addresses only, and two of three
  distances never exceed the third both.
-/

namespace Onde.Network.Yggdrasil

open Onde.Lib Onde.Crypto

/-- An address of 128 bits. -/
abbrev Octets := ByteArr 16

/-- The common leading bits of two bytes. -/
def commonMsbBits (x y : UInt8) : Nat := (x ^^^ y).toBitVec.clz.toNat

/-- The loop of `common_prefix_bits` from byte `i` on. -/
def commonPrefixFrom (i : Nat) : Bytes → Bytes → Nat
  | x :: xs, y :: ys => if x ≠ y then i * 8 + commonMsbBits x y else commonPrefixFrom (i + 1) xs ys
  | _, _ => 128

/-- The length of the common prefix of two addresses in bits. -/
def commonPrefixBits (a b : Octets) : Nat := commonPrefixFrom 0 a.val b.val

/-- The distance of two addresses that are given as texts; `parse` reads an address. -/
def treeDistance (parse : String → Except String Octets) (addrA addrB : String) : Except String Nat := do
  let a ← (parse addrA).mapError fun e => s!"invalid IPv6 address '{addrA}': {e}"
  let b ← (parse addrB).mapError fun e => s!"invalid IPv6 address '{addrB}': {e}"
  pure (commonPrefixBits a b)

/-- The bits of an address. -/
def bits (a : Octets) : BitVec 128 := BitVec.ofNat 128 (ofBe a.val)

theorem commonMsbBits_eq (x y : UInt8) : commonMsbBits x y = sharedBits 8 x.toNat y.toNat := by
  rw [commonMsbBits, UInt8.toBitVec_xor, clz_xor, UInt8.toNat_toBitVec, UInt8.toNat_toBitVec]

/-- **The loop counts the common leading bits of the bytes that are left.** -/
theorem commonPrefixFrom_eq : ∀ {i : Nat} {xs ys : Bytes}, xs.length = ys.length → i + xs.length = 16 →
    commonPrefixFrom i xs ys = i * 8 + sharedBits (8 * xs.length) (ofBe xs) (ofBe ys)
  | i, [], [], _, hi => by
    rw [List.length_nil] at hi ⊢
    show 128 = i * 8 + 0
    omega
  | i, x :: xs, y :: ys, hlen, hi => by
    rw [List.length_cons, List.length_cons, Nat.add_right_cancel_iff] at hlen
    rw [List.length_cons] at hi ⊢
    rw [sharedBits_bytes hlen, commonPrefixFrom]
    by_cases hxy : x = y
    · rw [if_neg (fun hne => hne hxy), if_pos hxy, commonPrefixFrom_eq hlen (by omega)]
      omega
    · rw [if_pos hxy, if_neg hxy, commonMsbBits_eq]

theorem toNat_bits (a : Octets) : (bits a).toNat = ofBe a.val := by
  have hlt := ofBe_lt a.val
  rw [a.property] at hlt
  rw [bits, BitVec.toNat_ofNat, Nat.mod_eq_of_lt hlt]

theorem bits_injective : Function.Injective bits := by
  intro a b h
  have hval := congrArg BitVec.toNat h
  rw [toNat_bits, toNat_bits] at hval
  exact Subtype.ext (ofBe_inj (a.property.trans b.property.symm) hval)

/-- **The distance is the number of common leading bits.** -/
theorem commonPrefixBits_eq (a b : Octets) :
    commonPrefixBits a b = sharedBits 128 (bits a).toNat (bits b).toNat := by
  have hlen : a.val.length = b.val.length := a.property.trans b.property.symm
  rw [commonPrefixBits, commonPrefixFrom_eq hlen (by rw [a.property]), a.property, Nat.zero_mul, Nat.zero_add,
    toNat_bits, toNat_bits]

theorem commonPrefixBits_comm (a b : Octets) : commonPrefixBits a b = commonPrefixBits b a := by
  rw [commonPrefixBits_eq, commonPrefixBits_eq, sharedBits_comm]

theorem commonPrefixBits_eq_iff (a b : Octets) : commonPrefixBits a b = 128 ↔ a = b := by
  rw [commonPrefixBits_eq, sharedBits_eq_width_iff (bits a).isLt (bits b).isLt, BitVec.toNat_inj]
  exact bits_injective.eq_iff

theorem treeDistance_eq {parse : String → Except String Octets} {s t : String} {a b : Octets}
    (ha : parse s = .ok a) (hb : parse t = .ok b) : treeDistance parse s t = .ok (commonPrefixBits a b) := by
  rw [treeDistance, ha, hb]
  rfl

/-- **It does not matter which address comes first.** -/
theorem treeDistance_comm (parse : String → Except String Octets) (s t : String) :
    (treeDistance parse s t).toOption = (treeDistance parse t s).toOption := by
  unfold treeDistance
  cases parse s with
  | error e =>
    cases parse t with
    | error e' => rfl
    | ok b => rfl
  | ok a =>
    cases parse t with
    | error e' => rfl
    | ok b => exact congrArg some (commonPrefixBits_comm a b)

/-- **The distance is the length of the common prefix of the bits, and an ultrametric.** -/
theorem xor_distance (a b c : Octets) :
    commonPrefixBits a b = (bits a ^^^ bits b).clz.toNat ∧
    (commonPrefixBits a b = 128 ↔ a = b) ∧
    (∀ (parse : String → Except String Octets) (s t : String),
      (treeDistance parse s t).toOption = (treeDistance parse t s).toOption ∧
      (parse s = .ok a → parse t = .ok b → treeDistance parse s t = .ok (commonPrefixBits a b))) ∧
    min (commonPrefixBits a b) (commonPrefixBits b c) ≤ commonPrefixBits a c := by
  refine ⟨?_, commonPrefixBits_eq_iff a b, fun parse s t => ⟨treeDistance_comm parse s t, treeDistance_eq⟩, ?_⟩
  · rw [clz_xor, commonPrefixBits_eq]
  · simp only [commonPrefixBits_eq]
    exact sharedBits_ultrametric (bits a).isLt (bits b).isLt (bits c).isLt

end Onde.Network.Yggdrasil
