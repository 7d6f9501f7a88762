import Mathlib.Data.Multiset.Sort
import Mathlib.Order.Basic

/-!
# The smallest elements of a stream

* `smallest k s`: the `k` smallest elements of a multiset, or all if there are fewer;
* `IsSmallest`: a part with nothing smaller left out; `IsSmallest.eq_smallest`: there is one such part;
* `IsSmallest.admit`, `IsSmallest.displace`, `IsSmallest.refuse`: a bounded store follows a stream by comparing each
  new element with the largest one it holds.
-/

namespace Onde.Lib

variable {α : Type} [LinearOrder α] {k : Nat} {s t : Multiset α} {a m : α}

/-- The `k` smallest elements. -/
def smallest (k : Nat) (s : Multiset α) : Multiset α := (s.sort (· ≤ ·)).take k

/-- A part of `k` elements, or the whole if it has fewer, that leaves nothing smaller out. -/
def IsSmallest (k : Nat) (s t : Multiset α) : Prop :=
  ∃ rest, s = t + rest ∧ (∀ x ∈ t, ∀ y ∈ rest, x ≤ y) ∧ (t.card = k ∨ t.card < k ∧ rest = 0)

/-- Parts in order, sorted one after the other, are sorted. -/
theorem sort_add {rest : Multiset α} (hle : ∀ x ∈ t, ∀ y ∈ rest, x ≤ y) :
    (t + rest).sort (· ≤ ·) = t.sort (· ≤ ·) ++ rest.sort (· ≤ ·) := by
  refine List.Perm.eq_of_pairwise' (Multiset.pairwise_sort _ _) ?_ ?_
  · refine List.pairwise_append.mpr ⟨Multiset.pairwise_sort _ _, Multiset.pairwise_sort _ _, fun x hx y hy => ?_⟩
    exact hle x ((Multiset.mem_sort _).mp hx) y ((Multiset.mem_sort _).mp hy)
  · refine Multiset.coe_eq_coe.mp ?_
    rw [← Multiset.coe_add, Multiset.sort_eq, Multiset.sort_eq, Multiset.sort_eq]

/-- **There is one such part.** -/
theorem IsSmallest.eq_smallest (h : IsSmallest k s t) : t = smallest k s := by
  obtain ⟨rest, rfl, hle, hcard⟩ := h
  have hlen : (t.sort (· ≤ ·)).length = t.card := Multiset.length_sort _
  rw [smallest, sort_add hle]
  rcases hcard with hfull | ⟨hroom, rfl⟩
  · rw [← hfull, ← hlen, List.take_left, Multiset.sort_eq]
  · rw [Multiset.sort_zero, List.append_nil, List.take_of_length_le (by omega), Multiset.sort_eq]

theorem isSmallest_zero (k : Nat) : IsSmallest k (0 : Multiset α) 0 := by
  refine ⟨0, rfl, fun x hx => absurd hx (Multiset.notMem_zero x), ?_⟩
  rcases Nat.eq_zero_or_pos k with rfl | hpos
  · exact .inl rfl
  · exact .inr ⟨hpos, rfl⟩

/-- A store with room takes the next element. -/
theorem IsSmallest.admit (h : IsSmallest k s t) (hroom : t.card < k) : IsSmallest k (a ::ₘ s) (a ::ₘ t) := by
  obtain ⟨rest, rfl, -, hcard⟩ := h
  obtain ⟨-, rfl⟩ := hcard.resolve_left (Nat.ne_of_lt hroom)
  refine ⟨0, by simp, fun x _ y hy => absurd hy (Multiset.notMem_zero y), ?_⟩
  rw [Multiset.card_cons]
  rcases Nat.lt_or_ge (t.card + 1) k with hlt | hge
  · exact .inr ⟨hlt, rfl⟩
  · exact .inl (by omega)

/-- **A full store puts a smaller element in the place of its largest one.** -/
theorem IsSmallest.displace (h : IsSmallest k s t) (hfull : t.card = k) (hm : m ∈ t) (hmax : ∀ x ∈ t, x ≤ m)
    (hlt : a ≤ m) : IsSmallest k (a ::ₘ s) (a ::ₘ t.erase m) := by
  obtain ⟨rest, rfl, hle, -⟩ := h
  refine ⟨m ::ₘ rest, ?_, fun x hx y hy => ?_, .inl ?_⟩
  · have hsplit : t + rest = t.erase m + m ::ₘ rest := by
      rw [Multiset.add_cons, ← Multiset.cons_add, Multiset.cons_erase hm]
    rw [hsplit, Multiset.cons_add]
  · have hxm : x ≤ m := by
      rcases Multiset.mem_cons.mp hx with rfl | hx
      · exact hlt
      · exact hmax x (Multiset.mem_of_mem_erase hx)
    rcases Multiset.mem_cons.mp hy with rfl | hy
    · exact hxm
    · exact hxm.trans (hle m hm y hy)
  · rw [Multiset.card_cons, Multiset.card_erase_add_one hm, hfull]

/-- **A full store lets an element pass that is not smaller than any it holds.** -/
theorem IsSmallest.refuse (h : IsSmallest k s t) (hfull : t.card = k) (hge : ∀ x ∈ t, x ≤ a) :
    IsSmallest k (a ::ₘ s) t := by
  obtain ⟨rest, rfl, hle, -⟩ := h
  refine ⟨a ::ₘ rest, (Multiset.add_cons a t rest).symm, fun x hx y hy => ?_, .inl hfull⟩
  rcases Multiset.mem_cons.mp hy with rfl | hy
  · exact hge x hx
  · exact hle x hx y hy

end Onde.Lib
