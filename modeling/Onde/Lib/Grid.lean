import Mathlib.Algebra.Order.Floor.Ring
import Mathlib.Data.Finset.Sort
import Mathlib.Data.List.AList
import Mathlib.Data.List.Sort
import Mathlib.Tactic.Linarith

/-!
# Grids of cells

Items are collected by a key into a dictionary, each key with what its items make in the order of the items; with the
cell of a square grid as the key, whatever is within the side of a cell lies in the cell or in one around it.

* `lookup_collect`: what a key holds in the end;
* `floor_div_near`, `mem_window`: two points at most a side apart are in neighbouring cells;
* `filterMap_eq_of_candidates`: a sorted list of candidates that misses no hit gives the same hits in the same order.
-/

namespace Onde.Lib

variable {κ α β γ : Type} [DecidableEq κ]

/-! ## Collecting by a key -/

/-- A dictionary: each key once. -/
abbrev Dict (κ β : Type) := AList fun _ : κ => β

/-- Change what a key holds, from `b₀` when it holds nothing. -/
def upsert (d : Dict κ β) (k : κ) (b₀ : β) (f : β → β) : Dict κ β := d.insert k (f ((d.lookup k).getD b₀))

/-- Collect items by a key, in their order. -/
def collect (key : α → κ) (b₀ : β) (f : α → β → β) (xs : List α) : Dict κ β :=
  xs.foldl (fun d x => upsert d (key x) b₀ (f x)) ∅

/-- What a list of items makes. -/
def gather (b₀ : β) (f : α → β → β) (xs : List α) : β := xs.foldl (fun b x => f x b) b₀

variable {key : α → κ} {b₀ : β} {f : α → β → β}

theorem lookup_upsert (d : Dict κ β) (k k' : κ) (g : β → β) :
    (upsert d k b₀ g).lookup k' = if k = k' then some (g ((d.lookup k).getD b₀)) else d.lookup k' := by
  unfold upsert
  by_cases h : k = k'
  · subst h
    simp
  · rw [if_neg h, AList.lookup_insert_ne (Ne.symm h)]

/-- **A key holds what its items make, and nothing without items.** -/
theorem lookup_collect (xs : List α) (k : κ) :
    (collect key b₀ f xs).lookup k =
      if xs.filter (key · = k) = [] then none else some (gather b₀ f (xs.filter (key · = k))) := by
  induction xs using List.reverseRecOn with
  | nil => simp [collect]
  | append_singleton xs x ih =>
    have hlast : collect key b₀ f (xs ++ [x]) = upsert (collect key b₀ f xs) (key x) b₀ (f x) := by
      simp [collect, List.foldl_append]
    rw [hlast, lookup_upsert]
    by_cases h : key x = k
    · subst h
      by_cases hnone : xs.filter (key · = key x) = []
      · simp [ih, hnone, gather]
      · simp [ih, hnone, gather, List.foldl_append]
    · simp [ih, h]

/-- What a key holds, with the default for no items. -/
theorem getD_collect (xs : List α) (k : κ) :
    ((collect key b₀ f xs).lookup k).getD b₀ = gather b₀ f (xs.filter (key · = k)) := by
  rw [lookup_collect]
  split
  · next h => simp [h, gather]
  · rfl

/-- Collecting is itself something to make of items: a key may hold a dictionary. -/
theorem gather_upsert (xs : List α) : gather ∅ (fun x d => upsert d (key x) b₀ (f x)) xs = collect key b₀ f xs := rfl

/-- Items collected into lists. -/
theorem gather_append (g : α → γ) (xs : List α) : gather [] (fun x b => b ++ [g x]) xs = xs.map g := by
  induction xs using List.reverseRecOn with
  | nil => rfl
  | append_singleton xs x ih =>
    simp only [gather, List.foldl_append, List.foldl_cons, List.foldl_nil, List.map_append, List.map_singleton] at ih ⊢
    rw [ih]

/-! ## Cells -/

section Cells

variable {K : Type} [Field K] [LinearOrder K] [IsStrictOrderedRing K] [FloorRing K] {R x y : K}

/-- Points at most `R` apart are in the same interval of length `R` or in neighbouring ones. -/
theorem floor_div_near (hR : 0 < R) (h : |x - y| ≤ R) : |⌊x / R⌋ - ⌊y / R⌋| ≤ 1 := by
  have hstep : ∀ a b : K, a - b ≤ R → ⌊a / R⌋ ≤ ⌊b / R⌋ + 1 := by
    intro a b hab
    rw [← Int.floor_add_one]
    refine Int.floor_le_floor ?_
    rw [div_add_one hR.ne', div_le_div_iff_of_pos_right hR]
    linarith
  obtain ⟨hlow, hhigh⟩ := abs_le.mp h
  have hxy := hstep x y hhigh
  have hyx := hstep y x (by linarith)
  rw [abs_le]
  omega

omit [FloorRing K] in
/-- A sum of two squares bounds each of them. -/
theorem abs_le_of_sq_add_sq_le (hR : 0 < R) (h : x * x + y * y ≤ R * R) : |x| ≤ R ∧ |y| ≤ R := by
  have hx := mul_self_nonneg x
  have hy := mul_self_nonneg y
  exact ⟨abs_le_of_sq_le_sq (by nlinarith) hR.le, abs_le_of_sq_le_sq (by nlinarith) hR.le⟩

end Cells

/-- The cell and the eight around it. -/
def window (c : ℤ × ℤ) : List (ℤ × ℤ) :=
  [-1, 0, 1].flatMap fun ox => [-1, 0, 1].map fun oy => (c.1 + ox, c.2 + oy)

theorem mem_window {c d : ℤ × ℤ} : d ∈ window c ↔ |c.1 - d.1| ≤ 1 ∧ |c.2 - d.2| ≤ 1 := by
  obtain ⟨a, b⟩ := c
  obtain ⟨a', b'⟩ := d
  simp only [window, List.mem_flatMap, List.mem_map, List.mem_cons, List.not_mem_nil, or_false, Prod.mk.injEq, abs_le]
  constructor
  · rintro ⟨ox, hox, oy, hoy, rfl, rfl⟩
    omega
  · rintro ⟨⟨h₁, h₂⟩, h₃, h₄⟩
    exact ⟨a' - a, by omega, b' - b, by omega, by omega, by omega⟩

theorem nodup_window (c : ℤ × ℤ) : (window c).Nodup := by
  obtain ⟨a, b⟩ := c
  simp [window]

/-! ## Candidates -/

/-- **Candidates that miss no hit**: the hits of a sorted list are those of any sorted part of it that has them all. -/
theorem filterMap_eq_of_candidates [LinearOrder α] {cands all : List α} {hit : α → Option γ}
    (hcands : cands.SortedLT) (hall : all.SortedLT) (hpart : ∀ x ∈ cands, x ∈ all)
    (hmiss : ∀ x ∈ all, (hit x).isSome → x ∈ cands) : cands.filterMap hit = all.filterMap hit := by
  have honly : ∀ l : List α, l.filterMap hit = (l.filter fun x => (hit x).isSome).filterMap hit := by
    intro l
    rw [List.filterMap_filter]
    refine congrArg (List.filterMap · l) (funext fun x => ?_)
    cases hit x with
    | none => rfl
    | some c => rfl
  have hsame : cands.filter (fun x => (hit x).isSome) = all.filter fun x => (hit x).isSome := by
    refine List.Pairwise.eq_of_mem_iff (hcands.pairwise.filter _) (hall.pairwise.filter _) fun x => ?_
    simp only [List.mem_filter]
    exact ⟨fun ⟨hx, hhit⟩ => ⟨hpart x hx, hhit⟩, fun ⟨hx, hhit⟩ => ⟨hmiss x hx hhit, hhit⟩⟩
  rw [honly cands, honly all, hsame]

end Onde.Lib
