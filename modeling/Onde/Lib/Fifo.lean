import Mathlib.Data.Finset.Card
import Mathlib.Data.List.DropRight

/-!
# Bounded queues

`pushBounded cap q x` appends `x` and first drops the head of a full queue. A queue within its capacity stays within
it (`length_pushBounded`), and pushing a list keeps the last `cap` elements of everything pushed
(`foldl_pushBounded`).
-/

namespace Onde.Lib

variable {α : Type}

/-- Append, dropping the head of a full queue first. -/
def pushBounded (cap : Nat) (q : List α) (x : α) : List α := (if cap ≤ q.length then q.tail else q) ++ [x]

theorem pushBounded_full {cap : Nat} {q : List α} (h : cap ≤ q.length) (x : α) :
    pushBounded cap q x = q.tail ++ [x] := by simp [pushBounded, h]

theorem pushBounded_room {cap : Nat} {q : List α} (h : q.length < cap) (x : α) :
    pushBounded cap q x = q ++ [x] := by simp [pushBounded, Nat.not_le.mpr h]

theorem length_pushBounded {cap : Nat} {q : List α} (hc : 0 < cap) (h : q.length ≤ cap) (x : α) :
    (pushBounded cap q x).length ≤ cap := by
  rcases Nat.lt_or_ge q.length cap with hl | hl
  · rw [pushBounded_room hl]; simp; omega
  · rw [pushBounded_full hl]; simp; omega

theorem mem_pushBounded {cap : Nat} {q : List α} {x y : α} (h : y ∈ pushBounded cap q x) : y ∈ q ∨ y = x := by
  unfold pushBounded at h
  rcases List.mem_append.mp h with h | h
  · split at h
    · exact Or.inl (List.mem_of_mem_tail h)
    · exact Or.inl h
  · exact Or.inr (by simpa using h)

@[simp] theorem self_mem_pushBounded (cap : Nat) (q : List α) (x : α) : x ∈ pushBounded cap q x := by
  simp [pushBounded]

theorem nodup_pushBounded {cap : Nat} {q : List α} {x : α} (h : q.Nodup) (hx : x ∉ q) :
    (pushBounded cap q x).Nodup := by
  unfold pushBounded
  split
  · exact List.nodup_append.mpr ⟨h.sublist (List.tail_sublist q), by simp, by
      intro y hy z hz hyz
      simp only [List.mem_singleton] at hz
      exact hx (by rw [← hz, ← hyz]; exact List.mem_of_mem_tail hy)⟩
  · exact List.nodup_append.mpr ⟨h, by simp, by
      intro y hy z hz hyz
      simp only [List.mem_singleton] at hz
      exact hx (by rw [← hz, ← hyz]; exact hy)⟩

/-- A push commutes with reading one field of the elements. -/
theorem map_pushBounded {β : Type} (f : α → β) (cap : Nat) (q : List α) (x : α) :
    (pushBounded cap q x).map f = pushBounded cap (q.map f) (f x) := by
  unfold pushBounded
  rw [List.length_map]
  split <;> simp [List.map_tail]

/-- One push keeps the last `cap` elements. -/
theorem pushBounded_eq_rtake {cap : Nat} {q : List α} (hc : 0 < cap) (h : q.length ≤ cap) (x : α) :
    pushBounded cap q x = (q ++ [x]).rtake cap := by
  rcases Nat.lt_or_ge q.length cap with hl | hl
  · rw [pushBounded_room hl, List.rtake_eq_reverse_take_reverse, List.take_of_length_le (by simp; omega)]
    simp
  · have hq : q.length = cap := Nat.le_antisymm h hl
    rw [pushBounded_full hl]
    cases q with
    | nil => simp at hq; omega
    | cons a q =>
      simp only [List.tail_cons, List.rtake, List.cons_append, List.length_cons, List.length_append,
        List.length_nil] at hq ⊢
      rw [show q.length + (0 + 1) + 1 - cap = 1 by omega]
      rfl

theorem rtake_append_rtake (cap : Nat) (q xs : List α) :
    ((q.rtake cap) ++ xs).rtake cap = (q ++ xs).rtake cap := by
  simp only [List.rtake_eq_reverse_take_reverse, List.reverse_append, List.reverse_reverse]
  congr 1
  rw [List.take_append, List.take_append, List.take_take]
  congr 2
  omega

theorem length_rtake_le (cap : Nat) (q : List α) : (q.rtake cap).length ≤ cap := by
  simp only [List.rtake, List.length_drop]; omega

/-- **Pushing a list keeps the last `cap` elements.** -/
theorem foldl_pushBounded {cap : Nat} (hc : 0 < cap) : ∀ (xs : List α) {q : List α}, q.length ≤ cap →
    xs.foldl (pushBounded cap) q = (q ++ xs).rtake cap
  | [], q, h => by
    rw [List.foldl_nil, List.append_nil, List.rtake, Nat.sub_eq_zero_of_le h, List.drop_zero]
  | x :: xs, q, h => by
    rw [List.foldl_cons, foldl_pushBounded hc xs (length_pushBounded hc h x), pushBounded_eq_rtake hc h,
      rtake_append_rtake, List.append_assoc]
    rfl

/-- A suffix that fits is kept. -/
theorem rtake_append_fits {cap : Nat} (q : List α) {xs : List α} (h : xs.length ≤ cap) :
    ∃ q', (q ++ xs).rtake cap = q' ++ xs := by
  refine ⟨q.drop (q.length + xs.length - cap), ?_⟩
  rw [List.rtake, List.length_append, List.drop_append, show q.length + xs.length - cap - q.length = 0 by omega,
    List.drop_zero]

/-- What a long enough list pushes out is forgotten. -/
theorem rtake_append_long {cap : Nat} (q : List α) {xs : List α} (h : cap ≤ xs.length) :
    (q ++ xs).rtake cap = xs.rtake cap := by
  rw [List.rtake, List.rtake, List.length_append, List.drop_append, List.drop_eq_nil_of_le (by omega),
    List.nil_append, show q.length + xs.length - cap - q.length = xs.length - cap by omega]

/-- **A forgotten element was pushed out by `cap` later ones**; they are different from each other and from it if the
memory holds no element twice. -/
theorem card_of_forgotten [DecidableEq α] {cap : Nat} {past later : List α} {x : α}
    (hout : x ∉ (past ++ x :: later).rtake cap) (hn : ((past ++ x :: later).rtake cap).Nodup) :
    cap ≤ (later.toFinset.erase x).card := by
  have hlong : cap ≤ later.length := by
    by_contra hshort
    have hfits : (x :: later).length ≤ cap := by
      rw [List.length_cons]
      omega
    obtain ⟨q, hq⟩ := rtake_append_fits past hfits
    exact hout (hq ▸ List.mem_append_right _ List.mem_cons_self)
  have hlast : (past ++ x :: later).rtake cap = later.rtake cap := by
    rw [List.append_cons, rtake_append_long _ hlong]
  rw [hlast] at hout hn
  have hsub : (later.rtake cap).toFinset ⊆ later.toFinset.erase x := by
    intro y hy
    rw [List.mem_toFinset] at hy
    exact Finset.mem_erase.mpr ⟨fun heq => hout (heq ▸ hy), List.mem_toFinset.mpr (List.mem_of_mem_drop hy)⟩
  calc cap = (later.rtake cap).toFinset.card := by
        rw [List.toFinset_card_of_nodup hn, List.rtake, List.length_drop]
        omega
    _ ≤ (later.toFinset.erase x).card := Finset.card_le_card hsub

theorem mem_of_mem_foldl_pushBounded {cap : Nat} :
    ∀ {xs q : List α} {x : α}, x ∈ xs.foldl (pushBounded cap) q → x ∉ xs → x ∈ q
  | [], _, _, h, _ => h
  | y :: xs, q, x, h, hx => by
    rcases mem_pushBounded (mem_of_mem_foldl_pushBounded h fun hm => hx (List.mem_cons_of_mem _ hm)) with hq | rfl
    · exact hq
    · exact absurd List.mem_cons_self hx

end Onde.Lib
