import Onde.Lib.Fifo

/-!
# A bounded memory of a bounded queue

A queue of capacity `n` and a memory of capacity `m`, both first in, first out. Elements of the queue that are not in
the memory are marked, that is pushed on it, in any order and any number at a time, while new elements enter the
queue. `Remembered n x q d` says that `x` is marked and counts what can still be marked after it: it survives marking
(`Remembered.mark`) and insertion (`Remembered.push`) for as long as `x` is in the queue, as soon as `2 * n ≤ m + 1`.
-/

namespace Onde.Lib

variable {α : Type} [DecidableEq α] {n m : Nat} {x y : α} {q d s : List α}

/-- `x` is in the queue and in the memory, and what was marked after it, what of the queue can still be marked after
it, and its place in the queue are within bounds. -/
def Remembered (n : Nat) (x : α) (q d : List α) : Prop :=
  ∃ d₁ d₂ q₁ q₂, d = d₁ ++ x :: d₂ ∧ q = q₁ ++ x :: q₂ ∧
    d₂.length + ((q₁ ++ q₂).filter (· ∉ d₂)).length + q₁.length + 2 ≤ q.length + n

theorem Remembered.mem (h : Remembered n x q d) : x ∈ d := by
  obtain ⟨d₁, d₂, _, _, rfl, _⟩ := h
  exact List.mem_append_right _ List.mem_cons_self

/-- Marking elements of a distinct list takes as many away from those left to mark. -/
theorem length_filter_marked {l : List α} (d₂ : List α) (hl : l.Nodup) (hs : s.Nodup) (hsl : ∀ y ∈ s, y ∈ l)
    (hsd : ∀ y ∈ s, y ∉ d₂) :
    (l.filter (· ∉ d₂ ++ s)).length + s.length = (l.filter (· ∉ d₂)).length := by
  have hsplit := List.length_eq_length_filter_add (l := l.filter (· ∉ d₂)) (· ∈ s)
  have hin : ((l.filter (· ∉ d₂)).filter (· ∈ s)).length = s.length := by
    refine ((List.perm_ext_iff_of_nodup ((hl.filter _).filter _) hs).mpr fun y => ?_).length_eq
    simp only [List.mem_filter, decide_eq_true_eq]
    exact ⟨fun h => h.2, fun h => ⟨⟨hsl y h, hsd y h⟩, h⟩⟩
  have hout : (l.filter (· ∉ d₂)).filter (fun y => !decide (y ∈ s)) = l.filter (· ∉ d₂ ++ s) := by
    rw [List.filter_filter]
    refine List.filter_congr fun y _ => ?_
    by_cases h₁ : y ∈ d₂ <;> by_cases h₂ : y ∈ s <;> simp [h₁, h₂]
  rw [hin, hout] at hsplit
  omega

/-- **Marking `x` makes it remembered.** -/
theorem remembered_of_marked (hm : 2 * n ≤ m + 1) (hq : q.Nodup) (hqn : q.length ≤ n) (hd : d.length ≤ m)
    (hs : s.Nodup) (hsq : ∀ y ∈ s, y ∈ q) (hx : x ∈ s) : Remembered n x q (s.foldl (pushBounded m) d) := by
  obtain ⟨s₁, s₂, rfl⟩ := List.append_of_mem hx
  obtain ⟨q₁, q₂, rfl⟩ := List.append_of_mem (hsq x hx)
  have hnx : x ∉ s₂ := (List.nodup_cons.mp (List.nodup_append.mp hs).2.1).1
  have hs₂ : s₂.Nodup := (List.nodup_cons.mp (List.nodup_append.mp hs).2.1).2
  have hqq : (q₁ ++ q₂).Nodup := (List.nodup_middle.mp hq).of_cons
  have hs₂q : ∀ y ∈ s₂, y ∈ q₁ ++ q₂ := fun y hy => by
    have hyq := hsq y (List.mem_append_right _ (List.mem_cons_of_mem _ hy))
    have hyx : y ≠ x := fun he => hnx (he ▸ hy)
    simpa [hyx] using hyq
  have hcount := length_filter_marked [] hqq hs₂ hs₂q fun _ _ => List.not_mem_nil
  have hall : (q₁ ++ q₂).filter (· ∉ ([] : List α)) = q₁ ++ q₂ := List.filter_eq_self.mpr (by simp)
  simp only [hall, List.nil_append, List.length_append, List.length_cons] at hcount hqn
  have hn : 0 < n := by omega
  have hfit : (x :: s₂).length ≤ m := by rw [List.length_cons]; omega
  obtain ⟨d', hd'⟩ := rtake_append_fits (d ++ s₁) hfit
  refine ⟨d', s₂, q₁, q₂, ?_, rfl, ?_⟩
  · rw [foldl_pushBounded (by omega) _ hd, ← hd', List.append_assoc]
  · simp only [List.length_append, List.length_cons]
    omega

/-- **Marking others keeps `x` remembered.** -/
theorem Remembered.mark (h : Remembered n x q d) (hm : 2 * n ≤ m + 1) (hq : q.Nodup) (hqn : q.length ≤ n)
    (hd : d.length ≤ m) (hs : s.Nodup) (hsq : ∀ y ∈ s, y ∈ q) (hsd : ∀ y ∈ s, y ∉ d) :
    Remembered n x q (s.foldl (pushBounded m) d) := by
  obtain ⟨d₁, d₂, q₁, q₂, rfl, rfl, hle⟩ := h
  have hqq : (q₁ ++ q₂).Nodup := (List.nodup_middle.mp hq).of_cons
  have hsqq : ∀ y ∈ s, y ∈ q₁ ++ q₂ := fun y hy => by
    have hyq := hsq y hy
    have hyx : y ≠ x := fun he => hsd y hy (by simp [he])
    simpa [hyx] using hyq
  have hcount := length_filter_marked d₂ hqq hs hsqq fun y hy hyd => hsd y hy (by simp [hyd])
  have hfit : (x :: (d₂ ++ s)).length ≤ m := by
    rw [List.length_cons, List.length_append]
    omega
  obtain ⟨d', hd'⟩ := rtake_append_fits d₁ hfit
  refine ⟨d', d₂ ++ s, q₁, q₂, ?_, rfl, ?_⟩
  · rw [foldl_pushBounded (by omega) _ hd, ← hd', List.append_assoc, List.cons_append]
  · rw [List.length_append]
    omega

/-- **A new element of the queue keeps `x` remembered**, unless it pushes `x` out. -/
theorem Remembered.push (h : Remembered n x q d) (hq : q.Nodup) (hqn : q.length ≤ n) (hy : y ∉ q)
    (hx : x ∈ pushBounded n q y) : Remembered n x (pushBounded n q y) d := by
  obtain ⟨d₁, d₂, q₁, q₂, rfl, rfl, hle⟩ := h
  have hyx : x ≠ y := fun he => hy (by simp [he])
  rcases Nat.lt_or_ge (q₁ ++ x :: q₂).length n with hroom | hfull
  · rw [pushBounded_room hroom]
    refine ⟨d₁, d₂, q₁, q₂ ++ [y], rfl, by simp, ?_⟩
    have hf : ((q₁ ++ (q₂ ++ [y])).filter (· ∉ d₂)).length ≤ ((q₁ ++ q₂).filter (· ∉ d₂)).length + 1 := by
      rw [← List.append_assoc, List.filter_append, List.length_append]
      exact Nat.add_le_add_left (List.length_filter_le _ [y]) _
    simp only [List.length_append, List.length_cons, List.length_nil] at hle ⊢
    omega
  · rw [pushBounded_full hfull] at hx ⊢
    cases q₁ with
    | nil =>
      -- `x` was at the head and leaves
      have hnx := (List.nodup_cons.mp hq).1
      simp [hnx, hyx] at hx
    | cons z q₁ =>
      refine ⟨d₁, d₂, q₁, q₂ ++ [y], rfl, by simp, ?_⟩
      have hf : ((q₁ ++ (q₂ ++ [y])).filter (· ∉ d₂)).length ≤ ((z :: q₁ ++ q₂).filter (· ∉ d₂)).length + 1 := by
        rw [← List.append_assoc, List.filter_append, List.length_append, List.cons_append]
        have hz : ((q₁ ++ q₂).filter (· ∉ d₂)).length ≤ ((z :: (q₁ ++ q₂)).filter (· ∉ d₂)).length :=
          ((List.sublist_cons_self z _).filter _).length_le
        exact Nat.add_le_add hz (List.length_filter_le _ [y])
      simp only [List.cons_append, List.tail_cons, List.length_append, List.length_cons, List.length_nil] at hle ⊢ hf
      omega

end Onde.Lib
