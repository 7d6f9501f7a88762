import Mathlib.Data.Finset.Card
import Mathlib.Data.Finset.Max
import Mathlib.Data.Set.Insert

/-!
# Draining a waiting set through a window

Some elements wait, each perhaps for another element. One that waits for nothing, or for a settled element, may be
settled if fewer than `width` of those that still wait are older. Which elements are left when nothing more can be
settled does not depend on the order: they are the members of a *trap*, a set of waiting elements whose `width` oldest
members wait for elements that are not settled and, if they wait themselves, are in the trap (`mem_stuck_iff`).
-/

namespace Onde.Lib

/-- What each element waits for, its age, and the width of the window. -/
structure Scan (κ α : Type) where
  age : κ → α
  need : κ → Option κ
  width : Nat

namespace Scan

variable {κ α : Type} [LT α] [DecidableLT α] (sc : Scan κ α)

/-- The number of older elements of a set. -/
def rank (s : Finset κ) (k : κ) : Nat := (s.filter fun j => sc.age j < sc.age k).card

theorem rank_mono {s t : Finset κ} (h : s ⊆ t) (k : κ) : sc.rank s k ≤ sc.rank t k :=
  Finset.card_le_card (Finset.filter_subset_filter _ h)

/-- What it waits for, if anything, is settled. -/
def Ready (settled : Set κ) (k : κ) : Prop := ∀ p, sc.need k = some p → p ∈ settled

variable [DecidableEq κ]

/-- Elements settled one after the other, from a waiting and a settled set to others. -/
inductive Drains : Finset κ → Set κ → Finset κ → Set κ → Prop
  | nil (waiting : Finset κ) (settled : Set κ) : Drains waiting settled waiting settled
  | cons {waiting waiting' : Finset κ} {settled settled' : Set κ} {k : κ} (hk : k ∈ waiting)
      (hrank : sc.rank waiting k < sc.width) (hready : sc.Ready settled k)
      (hrest : Drains (waiting.erase k) (insert k settled) waiting' settled') :
      Drains waiting settled waiting' settled'

/-- Nothing more can be settled. -/
def Stuck (waiting : Finset κ) (settled : Set κ) : Prop :=
  ∀ k ∈ waiting, sc.rank waiting k < sc.width → ¬sc.Ready settled k

/-- A set of waiting elements whose oldest members wait for it, or for what is neither settled nor waiting. -/
structure Trap (waiting : Finset κ) (settled : Set κ) (s : Finset κ) : Prop where
  subset : s ⊆ waiting
  blocked : ∀ k ∈ s, sc.rank s k < sc.width → ∃ p, sc.need k = some p ∧ p ∉ settled ∧ (p ∈ waiting → p ∈ s)

variable {sc} {waiting waiting' : Finset κ} {settled settled' : Set κ} {s : Finset κ} {k : κ}

namespace Drains

theorem trans {waiting'' : Finset κ} {settled'' : Set κ} (h : sc.Drains waiting settled waiting' settled')
    (h' : sc.Drains waiting' settled' waiting'' settled'') : sc.Drains waiting settled waiting'' settled'' := by
  induction h with
  | nil => exact h'
  | cons hk hrank hready _ ih => exact .cons hk hrank hready (ih h')

theorem subset (h : sc.Drains waiting settled waiting' settled') : waiting' ⊆ waiting := by
  induction h with
  | nil => exact Finset.Subset.refl _
  | cons _ _ _ _ ih => exact ih.trans (Finset.erase_subset _ _)

/-- What no longer waits is settled, and nothing else. -/
theorem mem_settled (h : sc.Drains waiting settled waiting' settled') (p : κ) :
    p ∈ settled' ↔ p ∈ settled ∨ p ∈ waiting ∧ p ∉ waiting' := by
  induction h with
  | nil => simp
  | @cons waiting waiting' settled settled' k hk _ _ hrest ih =>
    rw [ih, Set.mem_insert_iff, Finset.mem_erase]
    by_cases hp : p = k
    · have hgone : k ∉ waiting' := fun hin => Finset.notMem_erase k waiting (hrest.subset hin)
      simp [hp, hk, hgone]
    · simp [hp]

/-- **A trap stays a trap**, whatever else is settled. -/
theorem trap (h : sc.Drains waiting settled waiting' settled') (ht : sc.Trap waiting settled s) :
    sc.Trap waiting' settled' s := by
  induction h with
  | nil => exact ht
  | @cons waiting _ settled _ k hk hrank hready _ ih =>
    have hout : k ∉ s := by
      intro hks
      obtain ⟨p, hp, hnot, -⟩ := ht.blocked k hks ((sc.rank_mono ht.subset k).trans_lt hrank)
      exact hnot (hready p hp)
    refine ih ⟨fun j hj => Finset.mem_erase.mpr ⟨fun he => hout (he ▸ hj), ht.subset hj⟩, fun j hj hlt => ?_⟩
    obtain ⟨p, hp, hnot, hin⟩ := ht.blocked j hj hlt
    refine ⟨p, hp, ?_, fun hw => hin (Finset.mem_of_mem_erase hw)⟩
    rintro (rfl | hs)
    · exact hout (hin hk)
    · exact hnot hs

/-- What is left when nothing more can be settled is a trap of the start. -/
theorem trap_of_stuck (h : sc.Drains waiting settled waiting' settled') (hstuck : sc.Stuck waiting' settled') :
    sc.Trap waiting settled waiting' := by
  refine ⟨h.subset, fun k hk hrank => ?_⟩
  obtain ⟨p, hp, hnot⟩ : ∃ p, sc.need k = some p ∧ p ∉ settled' := by
    simpa [Ready] using hstuck k hk hrank
  rw [h.mem_settled] at hnot
  refine ⟨p, hp, fun hs => hnot (.inl hs), fun hw => ?_⟩
  by_contra hgone
  exact hnot (.inr ⟨hw, hgone⟩)

/-- **What is left are the members of the traps of the start.** -/
theorem mem_stuck_iff (h : sc.Drains waiting settled waiting' settled') (hstuck : sc.Stuck waiting' settled') :
    k ∈ waiting' ↔ ∃ s, sc.Trap waiting settled s ∧ k ∈ s :=
  ⟨fun hk => ⟨_, h.trap_of_stuck hstuck, hk⟩, fun ⟨_, ht, hk⟩ => (h.trap ht).subset hk⟩

end Drains

/-! ## A closed world -/

/-- No set of elements closes the window: one of its oldest members waits for nothing in it. -/
def Open (sc : Scan κ α) (waiting : Finset κ) : Prop :=
  ∀ s ⊆ waiting, s.Nonempty → ∃ k ∈ s, sc.rank s k < sc.width ∧ ∀ p, sc.need k = some p → p ∉ s

omit [DecidableEq κ] in
/-- **No set closes the window if all fit in it** and what an element waits for comes before it in some measure. -/
theorem open_of_card_le {β : Type} [Preorder β] [DecidableLT β] {sc : Scan κ β} (hcard : waiting.card ≤ sc.width)
    {depth : κ → Nat} (hdepth : ∀ k ∈ waiting, ∀ p, sc.need k = some p → depth p < depth k) : sc.Open waiting := by
  intro s hs hne
  obtain ⟨k, hk, hmin⟩ := s.exists_min_image depth hne
  refine ⟨k, hk, ?_, fun p hp hin => absurd (hdepth k (hs hk) p hp) (Nat.not_lt.mpr (hmin p hin))⟩
  have hout : (s.filter fun j => sc.age j < sc.age k) ⊂ s :=
    Finset.filter_ssubset.mpr ⟨k, hk, lt_irrefl (sc.age k)⟩
  calc sc.rank s k < s.card := Finset.card_lt_card hout
    _ ≤ waiting.card := Finset.card_le_card hs
    _ ≤ sc.width := hcard

/-- **If all needs are settled or wait, everything gets settled exactly if no set closes the window.** -/
theorem Drains.eq_empty_iff (h : sc.Drains waiting settled waiting' settled') (hstuck : sc.Stuck waiting' settled')
    (hdisj : ∀ k ∈ waiting, k ∉ settled)
    (hclosed : ∀ k ∈ waiting, ∀ p, sc.need k = some p → p ∈ settled ∨ p ∈ waiting) :
    waiting' = ∅ ↔ sc.Open waiting := by
  constructor
  · intro hempty s hs hne
    by_contra hshut
    have htrap : sc.Trap waiting settled s := by
      refine ⟨hs, fun k hk hrank => ?_⟩
      by_contra hfree
      refine hshut ⟨k, hk, hrank, fun p hp hin => ?_⟩
      exact hfree ⟨p, hp, hdisj p (hs hin), fun _ => hin⟩
    obtain ⟨k, hk⟩ := hne
    have hleft := (h.trap htrap).subset hk
    rw [hempty] at hleft
    exact Finset.notMem_empty k hleft
  · intro hopen
    by_contra hne
    have htrap := h.trap_of_stuck hstuck
    obtain ⟨k, hk, hrank, hout⟩ := hopen _ htrap.subset (Finset.nonempty_iff_ne_empty.mpr hne)
    obtain ⟨p, hp, hnot, hin⟩ := htrap.blocked k hk hrank
    exact hout p hp (hin ((hclosed k (h.subset hk) p hp).resolve_left hnot))

end Scan

end Onde.Lib
