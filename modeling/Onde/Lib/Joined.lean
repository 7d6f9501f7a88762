import Mathlib.Data.List.Basic
import Mathlib.Data.String.Basic

/-!
# Joined texts

* `append_sep_inj`: a list is cut in one way at the last occurrence of a separator, and `sep_append_inj`: at the first;
* `append_colon_repr_inj`: a text, a colon and a number in decimal digits tell the text and the number.
-/

namespace Onde.Lib

section

variable {α : Type} {c : α} {xs ys ds es : List α}

/-- Cut at the last separator. -/
theorem append_sep_inj (hd : c ∉ ds) (he : c ∉ es) (h : xs ++ c :: ds = ys ++ c :: es) : xs = ys ∧ ds = es := by
  rcases List.append_eq_append_iff.mp h with ⟨as, rfl, has⟩ | ⟨as, rfl, has⟩
  · cases as with
    | nil => exact ⟨(List.append_nil xs).symm, (List.cons.inj has).2⟩
    | cons a as =>
      rw [(List.cons.inj has).2] at hd
      exact absurd (List.mem_append_right as List.mem_cons_self) hd
  · cases as with
    | nil => exact ⟨List.append_nil ys, (List.cons.inj has).2.symm⟩
    | cons a as =>
      rw [(List.cons.inj has).2] at he
      exact absurd (List.mem_append_right as List.mem_cons_self) he

/-- Cut at the first separator. -/
theorem sep_append_inj (hx : c ∉ xs) (hy : c ∉ ys) (h : xs ++ c :: ds = ys ++ c :: es) : xs = ys ∧ ds = es := by
  have hrev : ds.reverse ++ c :: xs.reverse = es.reverse ++ c :: ys.reverse := by
    simpa using congrArg List.reverse h
  obtain ⟨hds, hxs⟩ := append_sep_inj (mt List.mem_reverse.mp hx) (mt List.mem_reverse.mp hy) hrev
  exact ⟨List.reverse_inj.mp hxs, List.reverse_inj.mp hds⟩

end

/-- A number is told by its decimal digits. -/
theorem repr_injective : Function.Injective Nat.repr := by
  intro m n h
  have hdigits : Nat.toDigits 10 m = Nat.toDigits 10 n := by
    rw [← Nat.toList_repr, ← Nat.toList_repr, h]
  rw [← Nat.ofDigitChars_ten_toDigits (n := m), hdigits, Nat.ofDigitChars_ten_toDigits]

theorem colon_notMem_repr (n : Nat) : ':' ∉ n.repr.toList := by
  rw [Nat.toList_repr]
  intro hmem
  exact absurd (Nat.isDigit_of_mem_toDigits (by decide) (by decide) hmem) (by decide)

/-- **A text and a number joined by a colon.** -/
theorem append_colon_repr_inj {s t : String} {m n : Nat} :
    s ++ ":" ++ m.repr = t ++ ":" ++ n.repr ↔ s = t ∧ m = n := by
  constructor
  · intro h
    have hlist : s.toList ++ ':' :: m.repr.toList = t.toList ++ ':' :: n.repr.toList := by
      have := congrArg String.toList h
      simpa [String.toList_append] using this
    obtain ⟨hs, hm⟩ := append_sep_inj (colon_notMem_repr m) (colon_notMem_repr n) hlist
    exact ⟨String.toList_inj.mp hs, repr_injective (String.toList_inj.mp hm)⟩
  · rintro ⟨rfl, rfl⟩
    rfl

/-- **Two texts joined by a colon**, when the first ones hold none. -/
theorem append_colon_inj {s t u v : String} (hs : ':' ∉ s.toList) (ht : ':' ∉ t.toList)
    (h : s ++ ":" ++ u = t ++ ":" ++ v) : s = t ∧ u = v := by
  have hlist : s.toList ++ ':' :: u.toList = t.toList ++ ':' :: v.toList := by
    have := congrArg String.toList h
    simpa [String.toList_append] using this
  obtain ⟨hst, huv⟩ := sep_append_inj hs ht hlist
  exact ⟨String.toList_inj.mp hst, String.toList_inj.mp huv⟩

end Onde.Lib
