import Mathlib.Data.List.Basic
import Mathlib.Data.List.Induction
import Mathlib.Data.Set.Insert

/-!
# What contacts spread

Two meet at a time, and each gets what the other one has.

* `Walk`: a way along contacts, each taken in either direction;
* `spread`: who has it after some contacts;
* `mem_spread_iff`: these are the ones to which a walk leads along some of the contacts, in their order.
-/

namespace Onde.Lib

variable {α : Type}

/-- Who has it after a contact. -/
def contact (holders : Set α) (c : α × α) : Set α :=
  {x | x ∈ holders ∨ (x = c.2 ∧ c.1 ∈ holders) ∨ (x = c.1 ∧ c.2 ∈ holders)}

/-- Who has it after some contacts, oldest first. -/
def spread (holders : Set α) (cs : List (α × α)) : Set α := cs.foldl contact holders

/-- A walk along contacts. -/
inductive Walk (x : α) : List (α × α) → α → Prop
  | stay : Walk x [] x
  | forth {js : List (α × α)} {a b : α} (hw : Walk x js a) : Walk x (js ++ [(a, b)]) b
  | back {js : List (α × α)} {a b : α} (hw : Walk x js b) : Walk x (js ++ [(a, b)]) a

variable {holders : Set α} {cs : List (α × α)} {x y : α}

theorem contact_subset (c : α × α) : holders ⊆ contact holders c := fun _ h => .inl h

theorem spread_snoc (holders : Set α) (cs : List (α × α)) (c : α × α) :
    spread holders (cs ++ [c]) = contact (spread holders cs) c := by
  rw [spread, List.foldl_append]
  rfl

/-- It spreads among those that meet. -/
theorem spread_subset {nodes : Set α} (h : holders ⊆ nodes) (hcs : ∀ c ∈ cs, c.1 ∈ nodes ∧ c.2 ∈ nodes) :
    spread holders cs ⊆ nodes := by
  induction cs using List.reverseRecOn with
  | nil => exact h
  | append_singleton cs c ih =>
    rw [spread_snoc]
    rintro x (hx | ⟨rfl, -⟩ | ⟨rfl, -⟩)
    · exact ih (fun c hc => hcs c (List.mem_append_left _ hc)) hx
    · exact (hcs c (by simp)).2
    · exact (hcs c (by simp)).1

theorem walk_nil : Walk x [] y ↔ y = x := by
  constructor
  · intro hw
    generalize hjs : ([] : List (α × α)) = js at hw
    cases hw with
    | stay => rfl
    | forth _ => exact absurd hjs (by simp)
    | back _ => exact absurd hjs (by simp)
  · rintro rfl
    exact .stay

/-- The last contact of a walk. -/
theorem walk_snoc {c : α × α} : Walk x (cs ++ [c]) y ↔ (y = c.2 ∧ Walk x cs c.1) ∨ (y = c.1 ∧ Walk x cs c.2) := by
  constructor
  · intro hw
    generalize hjs : cs ++ [c] = js at hw
    cases hw with
    | stay => exact absurd hjs (by simp)
    | forth hw =>
      obtain ⟨rfl, hc⟩ := List.append_inj' hjs rfl
      cases hc
      exact .inl ⟨rfl, hw⟩
    | back hw =>
      obtain ⟨rfl, hc⟩ := List.append_inj' hjs rfl
      cases hc
      exact .inr ⟨rfl, hw⟩
  · rintro (⟨rfl, hw⟩ | ⟨rfl, hw⟩)
    · exact .forth hw
    · exact .back hw

/-- **It spreads to those that a walk in time leads to.** -/
theorem mem_spread_iff : y ∈ spread holders cs ↔ ∃ x ∈ holders, ∃ js, js.Sublist cs ∧ Walk x js y := by
  induction cs using List.reverseRecOn generalizing y with
  | nil =>
    constructor
    · exact fun hy => ⟨y, hy, [], List.Sublist.refl _, .stay⟩
    · rintro ⟨x, hx, js, hjs, hw⟩
      obtain rfl := List.sublist_nil.mp hjs
      exact walk_nil.mp hw ▸ hx
  | append_singleton cs c ih =>
    rw [spread_snoc]
    constructor
    · rintro (hy | ⟨rfl, hy⟩ | ⟨rfl, hy⟩)
      · obtain ⟨x, hx, js, hjs, hw⟩ := ih.mp hy
        exact ⟨x, hx, js, hjs.trans (List.sublist_append_left _ _), hw⟩
      · obtain ⟨x, hx, js, hjs, hw⟩ := ih.mp hy
        exact ⟨x, hx, js ++ [c], hjs.append (List.Sublist.refl _), walk_snoc.mpr (.inl ⟨rfl, hw⟩)⟩
      · obtain ⟨x, hx, js, hjs, hw⟩ := ih.mp hy
        exact ⟨x, hx, js ++ [c], hjs.append (List.Sublist.refl _), walk_snoc.mpr (.inr ⟨rfl, hw⟩)⟩
    · rintro ⟨x, hx, js, hjs, hw⟩
      obtain ⟨past, last, rfl, hpast, hlast⟩ := List.sublist_append_iff.mp hjs
      rcases List.sublist_singleton.mp hlast with rfl | rfl
      · rw [List.append_nil] at hw
        exact .inl (ih.mpr ⟨x, hx, past, hpast, hw⟩)
      · rcases walk_snoc.mp hw with ⟨rfl, hwalk⟩ | ⟨rfl, hwalk⟩
        · exact .inr (.inl ⟨rfl, ih.mpr ⟨x, hx, past, hpast, hwalk⟩⟩)
        · exact .inr (.inr ⟨rfl, ih.mpr ⟨x, hx, past, hpast, hwalk⟩⟩)

end Onde.Lib
