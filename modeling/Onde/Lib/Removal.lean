import Mathlib.Data.List.Basic

/-!
# Removal by collected indices

A pass over a list notes the positions of what has to go (`positions`); `removeAt` then takes them out from the last to
the first, so that no removal moves a position still to come: what stays is what the pass did not note
(`removeAt_positions`).
-/

namespace Onde.Lib

variable {α β : Type}

/-- The positions of the elements with a property. -/
def positions (p : α → Bool) : List α → List Nat
  | [] => []
  | a :: l => (if p a then [0] else []) ++ (positions p l).map (· + 1)

/-- Remove the positions, the last one first. -/
def removeAt (l : List α) (is : List Nat) : List α := is.reverse.foldl List.eraseIdx l

theorem removeAt_succ (a : α) (l : List α) (is : List Nat) :
    removeAt (a :: l) (is.map (· + 1)) = a :: removeAt l is := by
  unfold removeAt
  rw [← List.map_reverse, List.foldl_map]
  induction is.reverse generalizing l with
  | nil => rfl
  | cons i is ih => exact ih (l.eraseIdx i)

theorem removeAt_append (l : List α) (is js : List Nat) : removeAt l (is ++ js) = removeAt (removeAt l js) is := by
  rw [removeAt, List.reverse_append, List.foldl_append]
  rfl

/-- **What stays is what was not noted**, even where the pass has changed the elements. -/
theorem removeAt_positions (f : α → β) (p : α → Bool) : ∀ l : List α,
    removeAt (l.map f) (positions p l) = (l.filter fun a => !p a).map f
  | [] => rfl
  | a :: l => by
    rw [positions, List.map_cons, removeAt_append, removeAt_succ, removeAt_positions f p l]
    cases h : p a with
    | true => simp [h, removeAt]
    | false => simp [h, removeAt]

/-- Positions counted from one index, and from the next one. -/
theorem shift_succ (is : List Nat) (n : Nat) : is.map (· + (n + 1)) = (is.map (· + 1)).map (· + n) := by
  rw [List.map_map]
  refine List.map_congr_left fun i _ => ?_
  simp only [Function.comp_apply]
  omega

end Onde.Lib
