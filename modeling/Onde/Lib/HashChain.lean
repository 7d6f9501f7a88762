import Mathlib.Data.List.Induction
import Mathlib.Data.Set.Function

/-!
# Hash chains

A chain folds a list into one value, link by link.

* `Touched`: the pairs that the links of a list are made of;
* `chain_inj`: where no two of the pairs have the same link, and no link is the start, equal chains have equal lists.
-/

namespace Onde.Lib

variable {α β : Type} {link : α → β → α} {start : α} {xs ys : List β}

/-- The value and the element that each link of the list is made of. -/
def Touched (link : α → β → α) (start : α) (xs : List β) : Set (α × β) :=
  {p | ∃ past, past ++ [p.2] <+: xs ∧ p.1 = past.foldl link start}

theorem touched_last (xs : List β) (x : β) : (xs.foldl link start, x) ∈ Touched link start (xs ++ [x]) :=
  ⟨xs, List.prefix_refl _, rfl⟩

theorem touched_mono (link : α → β → α) (start : α) (xs : List β) (x : β) :
    Touched link start xs ⊆ Touched link start (xs ++ [x]) := by
  rintro p ⟨past, hpre, hp⟩
  exact ⟨past, hpre.trans (List.prefix_append _ _), hp⟩

/-- **Equal chains have equal lists**, unless two of their links collide. -/
theorem chain_inj (hstart : ∀ a b, link a b ≠ start)
    (hfree : Set.InjOn (fun p => link p.1 p.2) (Touched link start xs ∪ Touched link start ys)) :
    xs.foldl link start = ys.foldl link start ↔ xs = ys := by
  refine ⟨fun heq => ?_, fun heq => by rw [heq]⟩
  induction xs using List.reverseRecOn generalizing ys with
  | nil =>
    cases ys using List.reverseRecOn with
    | nil => rfl
    | append_singleton ys y =>
      rw [List.foldl_append] at heq
      exact absurd heq.symm (hstart _ y)
  | append_singleton xs x ih =>
    cases ys using List.reverseRecOn with
    | nil =>
      rw [List.foldl_append] at heq
      exact absurd heq (hstart _ x)
    | append_singleton ys y =>
      -- the last links agree, so the chains before them do
      rw [List.foldl_append, List.foldl_append] at heq
      have hpair := hfree (.inl (touched_last xs x)) (.inr (touched_last ys y)) heq
      obtain ⟨hbefore, rfl⟩ := Prod.mk.inj hpair
      have hsub := Set.union_subset_union (touched_mono link start xs x) (touched_mono link start ys x)
      rw [ih (hfree.mono hsub) hbefore]

end Onde.Lib
