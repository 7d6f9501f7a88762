import Mathlib.Data.List.DropRight
import Onde.Crypto.Primitives

/-!
# Is the padding taken off again?

The padding is zeros and does not say how many, so zeros that end the message are taken off with it.

* `unpad_eq`: the loop drops all zeros at the end; `unpad_unpad`: there are none to drop after it;
* `unpad_pad`: of a padded message what is left is the message without the zeros at its end;
* `roundTrips_iff`: so it comes back exactly when its last byte, if it has one, is not zero.
-/

namespace Onde.Crypto.TrafficPadding

open Onde.Lib

/-- Move the end to the left while the byte before it is zero. -/
def trimEnd (data : Bytes) : Nat → Nat
  | 0 => 0
  | stop + 1 => if data[stop]? = some 0 then trimEnd data stop else stop + 1

/-- Take off the zeros at the end. -/
def unpad (data : Bytes) : Bytes := data.take (trimEnd data data.length)

/-- The padded message begins with the message, has the size of a bucket unless it is larger than all of them, and
gives the message back. -/
structure RoundTrips (data : Bytes) : Prop where
  unpads : unpad (pad data) = data
  begins : data <+: pad data
  sized : (pad data).length ∈ buckets ∨ (∀ b ∈ buckets, b < data.length) ∧ (pad data).length = data.length

variable {data : Bytes}

theorem take_trimEnd (data : Bytes) : ∀ stop ≤ data.length,
    data.take (trimEnd data stop) = (data.take stop).rdropWhile (· == 0)
  | 0, _ => by rw [trimEnd, List.take_zero, List.rdropWhile_nil]
  | stop + 1, h => by
    have hlt : stop < data.length := h
    have hstep : data.take (stop + 1) = data.take stop ++ [data[stop]] := List.take_succ_eq_append_getElem hlt
    rw [trimEnd, List.getElem?_eq_getElem hlt, hstep]
    by_cases hzero : data[stop] = 0
    · rw [if_pos (congrArg some hzero), List.rdropWhile_concat_pos _ _ _ (by simpa using hzero)]
      exact take_trimEnd data stop (Nat.le_of_lt hlt)
    · rw [if_neg (fun heq => hzero (Option.some.inj heq)), List.rdropWhile_concat_neg _ _ _ (by simpa using hzero),
        hstep]

/-- **The loop drops all zeros at the end.** -/
theorem unpad_eq (data : Bytes) : unpad data = data.rdropWhile (· == 0) := by
  rw [unpad, take_trimEnd data data.length (Nat.le_refl _), List.take_length]

/-- **A second pass finds nothing.** -/
theorem unpad_unpad (data : Bytes) : unpad (unpad data) = unpad data := by
  rw [unpad_eq, unpad_eq, List.rdropWhile_idempotent]

theorem rdropWhile_zeros (data : Bytes) (n : Nat) :
    (data ++ List.replicate n 0).rdropWhile (· == 0) = data.rdropWhile (· == 0) := by
  induction n with
  | zero => rw [List.replicate_zero, List.append_nil]
  | succ n ih => rw [List.replicate_succ', ← List.append_assoc, List.rdropWhile_concat_pos _ _ _ rfl, ih]

/-- **Of a padded message the zeros at its own end are taken off too.** -/
theorem unpad_pad (data : Bytes) : unpad (pad data) = unpad data := by
  rw [unpad_eq, unpad_eq, pad, rdropWhile_zeros]

theorem unpad_eq_self_iff : unpad data = data ↔ data.getLast? ≠ some 0 := by
  rw [unpad_eq, List.rdropWhile_eq_self_iff]
  cases data using List.reverseRecOn with
  | nil => simp
  | append_singleton data b => simp

/-- The bucket is one of the list and holds the message, unless none does. -/
theorem bucketFor_spec (len : Nat) :
    (bucketFor len ∈ buckets ∧ len ≤ bucketFor len) ∨ (∀ b ∈ buckets, b < len) ∧ bucketFor len ≤ len := by
  unfold bucketFor
  cases hfind : buckets.find? fun b => len ≤ b with
  | some b =>
    have hle := List.find?_some hfind
    exact .inl ⟨List.mem_of_find?_eq_some hfind, of_decide_eq_true hle⟩
  | none =>
    have hlt : ∀ b ∈ buckets, b < len := fun b hb => by simpa using List.find?_eq_none.mp hfind b hb
    exact .inr ⟨hlt, Nat.le_of_lt (hlt 16384 (by decide))⟩

theorem pad_sized (data : Bytes) :
    (pad data).length ∈ buckets ∨ (∀ b ∈ buckets, b < data.length) ∧ (pad data).length = data.length := by
  rw [length_pad]
  rcases bucketFor_spec data.length with ⟨hmem, hle⟩ | ⟨hlt, hle⟩
  · rw [Nat.max_eq_right hle]
    exact .inl hmem
  · exact .inr ⟨hlt, Nat.max_eq_left hle⟩

/-- **A message comes back from its padding exactly when it does not end with a zero.** -/
theorem roundTrips_iff (data : Bytes) : RoundTrips data ↔ data.getLast? ≠ some 0 := by
  constructor
  · intro h
    have hback := h.unpads
    rw [unpad_pad] at hback
    exact unpad_eq_self_iff.mp hback
  · intro h
    exact ⟨(unpad_pad data).trans (unpad_eq_self_iff.mpr h), List.prefix_append _ _, pad_sized data⟩

/-- **The message of one zero is lost.** -/
theorem zero_lost : ¬RoundTrips [0] := by
  intro h
  have hback := h.unpads
  rw [unpad_pad] at hback
  exact absurd hback (by decide)

end Onde.Crypto.TrafficPadding
